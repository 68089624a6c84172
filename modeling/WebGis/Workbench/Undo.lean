/-
  `invertWorkbenchDelta` of `lib/workbench/delta.ts` and `replayWorkbenchDelta` of
  `lib/workbench/undo.ts`.

  The inverse of the differences leads back (`leads_inverse`), so applying it restores the
  first document, unless a group that it creates anew has an empty name (`undo_restores_iff`).
  The replay makes every group below a group that goes a root first, so nothing goes that was not
  created by the command (`replay_keeps`).
-/
import WebGis.Workbench.Diff

namespace WebGis.Workbench.Client

open Data List Option Doc Dict Except

/-! ## `invertWorkbenchDelta` -/

inductive InvertError where
  | missingInPrior
  | nothing
  deriving DecidableEq

/-- What is put back for a layer, if the layer was there: its group, or a property that every
    object has. -/
def setBack (beforeDoc : Doc) (layerId : String) : Option (String × Option String) :=
  match lookup beforeDoc.membership layerId with
  | .own groupId => some (layerId, some groupId)
  | .inherited => some (layerId, none)
  | .missing => none

def membershipSetBack (forward : Delta) (beforeDoc : Doc) : List (String × Option String) :=
  (forward.membershipSet.map Prod.fst ++ forward.membershipClear).filterMap (setBack beforeDoc)

def membershipClearBack (forward : Delta) (beforeDoc : Doc) : List String :=
  (forward.membershipSet.map Prod.fst).filter fun l => lookup beforeDoc.membership l = .missing

def createdIds (forward : Delta) (beforeDoc : Doc) : List String :=
  ((forward.setGroups.map GroupPatch.id).filter fun x =>
    (mapById beforeDoc.groups).find x = none).foldl addTo []

/-- A field of `back`: the old value, where the patch sets another one. -/
def fieldBack {α : Type} [DecidableEq α] (patch : Option α) (prev : α) : Option α :=
  if patch.any (· ≠ prev) then some prev else none

/-- `back`, if it says anything. -/
def backPatch (beforeDoc : Doc) (patch : GroupPatch) : Option GroupPatch :=
  match (mapById beforeDoc.groups).find patch.id with
  | none => none
  | some prev =>
    let back : GroupPatch :=
      { id := patch.id
        name := fieldBack patch.name prev.name
        collapsed := fieldBack patch.collapsed prev.collapsed
        parentId := fieldBack patch.parentId prev.parentId }
    if back.name.isSome ∨ back.collapsed.isSome ∨ back.parentId.isSome then some back else none

/-- The loop over the stack of one removed tree; each group is pushed once at most. -/
def removedTree (beforeDoc : Doc) : Nat → List String → List String → List GroupPatch
  | 0, _, _ => []
  | _ + 1, [], _ => []
  | fuel + 1, cur :: stack, seen =>
    if cur ∈ seen then removedTree beforeDoc fuel stack seen
    else
      match (mapById beforeDoc.groups).find cur with
      | none => removedTree beforeDoc fuel stack (cur :: seen)
      | some prev =>
        let children := beforeDoc.groups.filter fun g =>
          g.parentId = some cur ∧ g.id ∉ cur :: seen
        wholeGroup prev ::
          removedTree beforeDoc fuel
            ((children.map WorkbenchGroupNode.id).reverse ++ stack) (cur :: seen)

def removedTrees (forward : Delta) (beforeDoc : Doc) : List GroupPatch :=
  forward.removeGroupIds.flatMap fun id =>
    removedTree beforeDoc (beforeDoc.groups.length + 1) [id] []

/-- The lists that `invertWorkbenchDelta` builds. -/
def inverseOf (forward : Delta) (beforeDoc : Doc) : Delta where
  setGroups := removedTrees forward beforeDoc ++ forward.setGroups.filterMap (backPatch beforeDoc)
  removeGroupIds := createdIds forward beforeDoc
  membershipSet := (membershipSetBack forward beforeDoc).filterMap fun m => m.2.map fun g => (m.1, g)
  membershipClear := membershipClearBack forward beforeDoc
  locksAdd := forward.locksRemove
  locksRemove := forward.locksAdd

/-- `invertWorkbenchDelta(forward, beforeDoc)` -/
def invertWorkbenchDelta (forward : Delta) (beforeDoc : Doc) : Except InvertError Delta :=
  if ∃ m ∈ membershipSetBack forward beforeDoc, ∀ g ∈ m.2, g ∉ beforeDoc.ids then
    .error .missingInPrior
  else if inverseOf forward beforeDoc = noChange then .error .nothing
  else .ok (inverseOf forward beforeDoc)

/-! ## `replayWorkbenchDelta` -/

/-- The loop over the ancestors of a group. -/
def inClosure (current : Doc) (removeIds : List String) :
    Nat → Option String → List String → Bool
  | 0, _, _ => false
  | _ + 1, none, _ => false
  | fuel + 1, some parentId, seen =>
    if parentId ∈ seen then false
    else if parentId ∈ removeIds then true
    else
      inClosure current removeIds fuel
        ((current.groups.find? fun x => x.id = parentId).bind WorkbenchGroupNode.parentId)
        (parentId :: seen)

def liftPatches (current : Doc) (removeIds : List String) : List GroupPatch :=
  current.groups.filterMap fun g =>
    if g.id ∈ removeIds then none
    else if inClosure current removeIds (current.groups.length + 1) g.parentId [] then
      some ⟨g.id, none, none, some none⟩
    else none

def safeDelta (delta : Delta) (current : Doc) : Delta :=
  { delta with setGroups := delta.setGroups ++ liftPatches current delta.removeGroupIds }

/-- `replayWorkbenchDelta(delta)` on the document that the store has; nothing where it goes on with
    what all objects inherit. -/
def replayWorkbenchDelta (delta : Delta) (current : Doc) : Option Doc :=
  match applyWorkbenchDelta current (safeDelta delta current) with
  | .ok next => some next
  | .error .inherited => none
  | .error _ => some current

/-! ## The inverse leads back -/

variable {beforeDoc : Doc}

theorem removedTree_whole (h : Valid beforeDoc) {fuel : Nat} {stack seen : List String} :
    ∀ p ∈ removedTree beforeDoc fuel stack seen,
      ∃ prev ∈ beforeDoc.groups, p = wholeGroup prev := by
  induction fuel generalizing stack seen with
  | zero => exact fun p hp => absurd hp not_mem_nil
  | succ fuel ih =>
    cases stack with
    | nil => exact fun p hp => absurd hp not_mem_nil
    | cons cur stack =>
      unfold removedTree
      by_cases hseen : cur ∈ seen
      · rw [if_pos hseen]
        exact ih
      · rw [if_neg hseen]
        cases hf : (mapById beforeDoc.groups).find cur with
        | none => exact ih
        | some prev =>
          intro p hp
          rcases mem_cons.mp hp with rfl | hp
          · exact ⟨prev, ((find_mapById h).mp hf).1, rfl⟩
          · exact ih p hp

variable {g : WorkbenchGroupNode}

theorem removedTree_root (h : Valid beforeDoc) (hg : g ∈ beforeDoc.groups) (fuel : Nat) :
    wholeGroup g ∈ removedTree beforeDoc (fuel + 1) [g.id] [] := by
  unfold removedTree
  rw [if_neg not_mem_nil, (find_mapById h).mpr ⟨hg, rfl⟩]
  exact mem_cons_self

section Fields

variable {α : Type} [DecidableEq α] (prev new : α)

theorem getD_fieldBack_old (patch : Option α) : (fieldBack patch prev).getD prev = prev := by
  unfold fieldBack
  split <;> rfl

theorem getD_fieldBack_new : (fieldBack (changed prev new) prev).getD new = prev := by
  unfold fieldBack changed
  by_cases h : prev = new
  · simp [h]
  · simp [h, Ne.symm h]

variable {prev new}

theorem isSome_fieldBack (h : prev ≠ new) : (fieldBack (changed prev new) prev).isSome := by
  unfold fieldBack changed
  simp [h, Ne.symm h]

end Fields

section Inverse

variable {before after : Doc} (hbefore : Valid before) (hafter : Valid after)

include hbefore

variable {g : WorkbenchGroupNode}

theorem backPatch_spec {prev : WorkbenchGroupNode} (hprev : prev ∈ before.groups)
    (hid : prev.id = g.id) {q : GroupPatch} (hq : diffGroup (mapById before.groups) g = some q) :
    ∃ p, backPatch before q = some p ∧ p.id = prev.id ∧ patchNode p prev = prev ∧
      patchNode p g = prev := by
  have hfind := (find_mapById hbefore).mpr ⟨hprev, hid⟩
  unfold diffGroup at hq
  rw [hfind] at hq
  dsimp only at hq
  split at hq
  · rename_i hchange
    obtain rfl := some.inj hq
    unfold backPatch
    rw [hfind]
    dsimp only
    rw [if_pos ?_]
    · obtain ⟨id, name, collapsed, parentId⟩ := g
      obtain rfl : prev.id = id := hid
      refine ⟨_, rfl, rfl, ?_, ?_⟩
      · simp only [patchNode, getD_fieldBack_old]
      · simp only [patchNode, getD_fieldBack_new]
    · exact hchange.imp isSome_fieldBack fun h => h.imp isSome_fieldBack isSome_fieldBack
  · cases hq

theorem patch_inverse {p : GroupPatch}
    (hp : p ∈ (inverseOf (differences before after) before).setGroups) :
    (∃ prev ∈ before.groups, p = wholeGroup prev) ∨
      ∃ prev ∈ before.groups, ∃ g ∈ after.groups, prev.id = g.id ∧ p.id = prev.id ∧
        patchNode p prev = prev ∧ patchNode p g = prev := by
  rcases mem_append.mp hp with hp | hp
  · obtain ⟨id, -, hp⟩ := mem_flatMap.mp hp
    exact .inl (removedTree_whole hbefore p hp)
  · obtain ⟨q, hq, hback⟩ := mem_filterMap.mp hp
    obtain ⟨g, hg, hdiff⟩ := mem_filterMap.mp hq
    refine .inr ?_
    rcases diffGroup_cases hbefore g with ⟨hnew, he⟩ | ⟨-, he⟩ | ⟨prev, hprev, hid, q', he, -⟩
    · obtain rfl : wholeGroup g = q := some.inj (he.symm.trans hdiff)
      unfold backPatch at hback
      rw [show (mapById before.groups).find (wholeGroup g).id = none from
        (find_mapById_none hbefore).mpr hnew] at hback
      cases hback
    · rw [he] at hdiff
      cases hdiff
    · obtain ⟨p', hp', hpid, hold, hnew⟩ := backPatch_spec hbefore hprev hid hdiff
      obtain rfl : p' = p := some.inj (hp'.symm.trans hback)
      exact ⟨prev, hprev, g, hg, hid, hpid, hold, hnew⟩

theorem removed_inverse (hg : g ∈ before.groups) (hout : g.id ∉ after.ids) :
    wholeGroup g ∈ (inverseOf (differences before after) before).setGroups := by
  refine mem_append_left _ (mem_flatMap.mpr ⟨g.id, ?_, removedTree_root hbefore hg _⟩)
  refine mem_filter.mpr ⟨?_, decide_eq_true hout⟩
  rw [mem_foldl_addTo]
  exact .inr (id_mem hg)

theorem mem_createdIds {x : String} :
    x ∈ createdIds (differences before after) before ↔ x ∈ after.ids ∧ x ∉ before.ids := by
  unfold createdIds
  rw [mem_foldl_addTo, mem_filter, decide_eq_true_iff, find_mapById_none hbefore]
  simp only [not_mem_nil, false_or]
  refine and_congr_left fun hnew => ?_
  constructor
  · intro hx
    obtain ⟨q, hq, rfl⟩ := List.mem_map.mp hx
    obtain ⟨g, hg, hdiff⟩ := mem_filterMap.mp hq
    rcases diffGroup_cases hbefore g with ⟨-, he⟩ | ⟨-, he⟩ | ⟨prev, hprev, hid, q', he, hqid, -⟩
    · obtain rfl : wholeGroup g = q := some.inj (he.symm.trans hdiff)
      exact id_mem hg
    · rw [he] at hdiff
      cases hdiff
    · obtain rfl : q' = q := some.inj (he.symm.trans hdiff)
      rw [hqid]
      exact id_mem hg
  · intro hx
    obtain ⟨g, hg, rfl⟩ := Doc.mem_ids.mp hx
    rcases diffGroup_cases hbefore g with ⟨-, he⟩ | ⟨hin, -⟩ | ⟨prev, hprev, hid, -⟩
    · exact List.mem_map.mpr ⟨_, mem_filterMap.mpr ⟨g, hg, he⟩, rfl⟩
    · exact absurd (id_mem hin) hnew
    · exact absurd (hid ▸ id_mem hprev) hnew

variable (hplain : PlainIds before) (hplain' : PlainIds after)

include hafter hplain hplain'

section

variable (hnamed : ∀ g ∈ before.groups, g.id ∉ after.ids → g.name ≠ "")
include hnamed

theorem leads_inverse :
    Leads after (inverseOf (differences before after) before) before where
  patch := by
    intro p hp
    rcases patch_inverse hbefore hp with ⟨prev, hprev, rfl⟩ | ⟨prev, hprev, g, hg, hid, hpid, hold, hnew⟩
    · refine ⟨prev, hprev, rfl, patchNode_wholeGroup prev prev rfl,
        fun g _ he => patchNode_wholeGroup prev g he, fun hout => ⟨rfl, ?_⟩⟩
      exact ⟨hplain.groups prev.id (id_mem hprev), some_ne_none _, fun he =>
        hnamed prev hprev hout (some.inj he)⟩
    · refine ⟨prev, hprev, hpid.symm, hold, fun g' hg' he => ?_, fun hout => ?_⟩
      · obtain rfl : g = g' := hafter.eq_of_id hg hg' (hid.symm.trans (hpid.symm.trans he.symm))
        exact hnew
      · rw [hpid, hid] at hout
        exact absurd (id_mem hg) hout
  cover := by
    intro g hg
    by_cases hin : g.id ∈ after.ids
    · obtain ⟨g', hg', hid⟩ := Doc.mem_ids.mp hin
      rcases diffGroup_cases hbefore g' with ⟨hnew, -⟩ | ⟨hin, -⟩ | ⟨prev, hprev, hid', q, he, -⟩
      · rw [hid] at hnew
        exact absurd (id_mem hg) hnew
      · exact .inl (hbefore.eq_of_id hg hin hid.symm ▸ hg')
      · obtain ⟨p, hp, hpid, -⟩ := backPatch_spec hbefore hprev hid' he
        refine .inr (List.mem_map.mpr ⟨p, mem_append_right _ ?_, hpid.trans (hid'.trans hid)⟩)
        exact mem_filterMap.mpr ⟨q, mem_filterMap.mpr ⟨g', hg', he⟩, hp⟩
    · exact .inr (List.mem_map.mpr ⟨_, removed_inverse hbefore hg hin, rfl⟩)
  remove := fun x => mem_createdIds hbefore
  put := by
    intro m hm
    obtain ⟨n, hn, he⟩ := mem_filterMap.mp hm
    obtain ⟨groupId, hgroup, rfl⟩ := map_eq_some_iff.mp he
    obtain ⟨l, -, hback⟩ := mem_filterMap.mp hn
    unfold setBack at hback
    cases hl : lookup before.membership l with
    | own v =>
      rw [hl] at hback
      obtain rfl := some.inj hback
      obtain rfl : v = groupId := some.inj hgroup
      exact lookup_eq_own.mp hl
    | inherited =>
      rw [hl] at hback
      obtain rfl := some.inj hback
      cases hgroup
    | missing =>
      rw [hl] at hback
      cases hback
  putAll := by
    intro layerId groupId h
    by_cases hsame : after.membership.find layerId = some groupId
    · exact .inr hsame
    have htouched : layerId ∈ (differences before after).membershipSet.map Prod.fst ++
        (differences before after).membershipClear := by
      rw [mem_append]
      cases hf : after.membership.find layerId with
      | none =>
        have hl : layerId ∈ before.membership.keys := mem_keys_iff.mpr ⟨groupId, h⟩
        exact .inr (mem_filter.mpr ⟨hl, decide_eq_true
          (lookup_eq_missing.mpr ⟨hf, hplain.layers layerId hl⟩)⟩)
      | some groupId' =>
        refine .inl (List.mem_map.mpr ⟨(layerId, groupId'), mem_filter.mpr
          ⟨find_eq_some.mp hf, decide_eq_true fun he => hsame ?_⟩, rfl⟩)
        rw [hf, ← lookup_eq_own.mp he, h]
    refine .inl (List.mem_map.mpr ⟨(layerId, groupId), ?_, rfl⟩)
    refine mem_filterMap.mpr ⟨(layerId, some groupId),
      mem_filterMap.mpr ⟨layerId, htouched, ?_⟩, rfl⟩
    unfold setBack
    rw [lookup_eq_own.mpr h]
  clear := fun layerId hl =>
    (lookup_eq_missing.mp (of_decide_eq_true (mem_filter.mp hl).2)).1
  clearAll := by
    intro layerId hl h
    obtain ⟨groupId, hf⟩ := mem_keys_iff.mp hl
    refine mem_filter.mpr ⟨List.mem_map.mpr ⟨(layerId, groupId), ?_, rfl⟩, ?_⟩
    · refine mem_filter.mpr ⟨find_eq_some.mp hf, decide_eq_true fun he => ?_⟩
      rw [lookup_eq_own.mp he] at h
      cases h
    · exact decide_eq_true (lookup_eq_missing.mpr ⟨h, hplain'.layers layerId hl⟩)
  locks := by
    intro layerId
    unfold inverseOf differences
    simp only [mem_filter, decide_eq_true_iff]
    tauto

theorem invertWorkbenchDelta_ok (hdiff : differences before after ≠ noChange) :
    invertWorkbenchDelta (differences before after) before =
      .ok (inverseOf (differences before after) before) := by
  have hleads := leads_inverse hbefore hafter hplain hplain' hnamed
  have hmembers : ¬ ∃ m ∈ membershipSetBack (differences before after) before,
      ∀ g ∈ m.2, g ∉ before.ids := by
    rintro ⟨m, hm, hout⟩
    obtain ⟨l, hl, hback⟩ := mem_filterMap.mp hm
    have hown : l ∈ before.membership.keys ∨ l ∈ after.membership.keys := by
      rcases mem_append.mp hl with hl | hl
      · obtain ⟨n, hn, rfl⟩ := List.mem_map.mp hl
        exact .inr (List.mem_map_of_mem (mem_filter.mp hn).1)
      · exact .inl (mem_filter.mp hl).1
    have hproto : l ∉ prototypeNames := hown.elim (hplain.layers l) (hplain'.layers l)
    unfold setBack at hback
    cases hfind : before.membership.find l with
    | none =>
      rw [lookup_eq_missing.mpr ⟨hfind, hproto⟩] at hback
      cases hback
    | some groupId =>
      rw [lookup_eq_own.mpr hfind] at hback
      obtain rfl := some.inj hback
      exact hout groupId rfl (hbefore.members l groupId hfind)
  have hsome : inverseOf (differences before after) before ≠ noChange := by
    intro hnone
    rw [hnone] at hleads
    have hsame := hleads.sameOrg hafter hbefore
    refine hdiff ((differences_eq_noChange hbefore hafter hplain hplain').mpr ?_)
    exact ⟨hsame.groups.symm, fun l => (hsame.membership l).symm, fun l => (hsame.locks l).symm⟩
  unfold invertWorkbenchDelta
  rw [if_neg hmembers, if_neg hsome]

end

end Inverse

/-! ## Patches that went through -/

variable {p : GroupPatch} {o o' : GroupsById}

theorem setNode_ok (h : setNode o p = .ok o') :
    (p.id ∈ o.keys ∨ p.name ≠ none ∧ p.name ≠ some "") ∧
      o' = o.setOwn indexBefore p.id (patchedNode p (o.find p.id)) := by
  unfold setNode at h
  cases hf : o.find p.id with
  | some existing =>
    rw [hf] at h
    exact ⟨.inl (mem_keys_iff.mpr ⟨existing, hf⟩), (ok.inj h).symm⟩
  | none =>
    rw [hf] at h
    by_cases hproto : p.id ∈ prototypeNames
    · rw [if_pos hproto] at h
      cases h
    · rw [if_neg hproto] at h
      by_cases hname : p.name = none ∨ p.name = some ""
      · rw [if_pos hname] at h
        cases h
      · rw [if_neg hname] at h
        exact ⟨.inr (not_or.mp hname), (ok.inj h).symm⟩

theorem mem_keys_setNode (h : setNode o p = .ok o') {x : String} :
    x ∈ o'.keys ↔ x = p.id ∨ x ∈ o.keys := by
  obtain ⟨-, rfl⟩ := setNode_ok h
  simp only [mem_keys_iff, find_setOwn]
  by_cases hx : p.id = x
  · simp [hx]
  · simp [hx, Ne.symm hx]

variable {patches : List GroupPatch}

section

variable (h : patches.foldlM setNode o = .ok o')
include h

theorem setNodes_keep {x : String} (hx : x ∈ o.keys) :
    x ∈ o'.keys := by
  induction patches generalizing o with
  | nil => exact ok.inj h ▸ hx
  | cons p patches ih =>
    rw [foldlM_cons] at h
    obtain ⟨mid, hmid, h⟩ := bind_eq_ok.mp h
    exact ih h ((mem_keys_setNode hmid).mpr (.inr hx))

theorem setNodes_keyed (hkeyed : ∀ x g, o.find x = some g → g.id = x) : ∀ x g, o'.find x = some g → g.id = x := by
  refine foldlM_prefix (Q := fun _ (o : GroupsById) => ∀ x g, o.find x = some g → g.id = x)
    (fun done s p s' hs hset => ?_) h hkeyed
  obtain ⟨-, rfl⟩ := setNode_ok hset
  intro x g hg
  rw [find_setOwn] at hg
  by_cases hx : p.id = x
  · rw [if_pos hx] at hg
    obtain rfl := some.inj hg
    cases hf : s.find p.id with
    | none => exact hx
    | some prev => exact (hs p.id prev hf).trans hx
  · rw [if_neg hx] at hg
    exact hs x g hg

theorem setNodes_named : ∀ p ∈ patches, p.id ∈ o.keys ∨
      ∃ q ∈ patches, q.id = p.id ∧ q.name ≠ none ∧ q.name ≠ some "" := by
  induction patches generalizing o with
  | nil => exact fun p hp => absurd hp not_mem_nil
  | cons p patches ih =>
    rw [foldlM_cons] at h
    obtain ⟨mid, hmid, h⟩ := bind_eq_ok.mp h
    have hp : p.id ∈ o.keys ∨
        ∃ q ∈ p :: patches, q.id = p.id ∧ q.name ≠ none ∧ q.name ≠ some "" :=
      (setNode_ok hmid).1.imp id fun hname => ⟨p, mem_cons_self, rfl, hname⟩
    refine forall_mem_cons.mpr ⟨hp, fun r hr => ?_⟩
    rcases ih h r hr with hkey | ⟨q, hq, hname⟩
    · rcases (mem_keys_setNode hmid).mp hkey with he | hkey
      · rw [he]
        exact hp
      · exact .inl hkey
    · exact .inr ⟨q, mem_cons_of_mem _ hq, hname⟩

end

theorem applyWorkbenchDelta_ok {doc result : Doc} {delta : Delta}
    (h : applyWorkbenchDelta doc delta = .ok result) :
    ∃ o o' removed membership, groupsByIdOf doc = .ok o ∧
      delta.setGroups.foldlM setNode o = .ok o' ∧
        removedGroups o' delta.removeGroupIds = .ok removed ∧
          result = written doc delta (Table.delete o' fun kv => kv.1 ∈ removed) membership := by
  obtain ⟨o, ho, h⟩ := bind_eq_ok.mp h
  obtain ⟨o', ho', h⟩ := bind_eq_ok.mp h
  obtain ⟨u, -, h⟩ := bind_eq_ok.mp h
  obtain ⟨removed, hremoved, h⟩ := bind_eq_ok.mp h
  obtain ⟨membership, -, h⟩ := bind_eq_ok.mp h
  exact ⟨o, o', removed, membership, ho, ho', hremoved, (ok.inj h).symm⟩

theorem groupsByIdOf_sound {doc : Doc} (h : groupsByIdOf doc = .ok o) :
    (∀ x g, o.find x = some g → g ∈ doc.groups ∧ g.id = x) ∧ ∀ g ∈ doc.groups, g.id ∈ o.keys := by
  refine foldlM_prefix (Q := fun done (o : GroupsById) =>
    (∀ x g, o.find x = some g → g ∈ done ∧ g.id = x) ∧ ∀ g ∈ done, g.id ∈ o.keys)
    (fun done s g s' hs hput => ?_) h ⟨fun x g hg => by simp at hg, fun g hg => by simp at hg⟩
  unfold putNode at hput
  split at hput
  · cases hput
  obtain rfl := ok.inj hput
  constructor
  · intro x g' hg'
    rw [find_setOwn] at hg'
    split at hg'
    · rename_i hx
      obtain rfl := some.inj hg'
      exact ⟨mem_append_right _ (mem_singleton_self _), hx⟩
    · obtain ⟨hin, hid⟩ := hs.1 x g' hg'
      exact ⟨mem_append_left _ hin, hid⟩
  · intro g' hg'
    rw [mem_keys_iff, find_setOwn]
    split
    · exact ⟨_, rfl⟩
    · rename_i hne
      rcases mem_append.mp hg' with hin | hin
      · exact mem_keys_iff.mp (hs.2 g' hin)
      · exact absurd (congrArg WorkbenchGroupNode.id (mem_singleton.mp hin)).symm hne

/-! ## The replay -/

/-- A group that has one of `gone` for its parent, and is not one of them, is yet to be made a
    root. -/
def Lifted (gone : List String) (patches : List GroupPatch) (o : GroupsById) : Prop :=
  ∀ x g, o.find x = some g → x ∉ gone → ∀ r ∈ gone, g.parentId = some r →
    ∃ q ∈ patches, q.id = x ∧ q.parentId = some none

theorem setNodes_lifted {gone : List String} (h : patches.foldlM setNode o = .ok o')
    (hparents : ∀ p ∈ patches, ∀ r, p.parentId = some (some r) → r ∉ gone)
    (hlifted : Lifted gone patches o) : Lifted gone [] o' := by
  induction patches generalizing o with
  | nil => exact ok.inj h ▸ hlifted
  | cons p patches ih =>
    rw [foldlM_cons] at h
    obtain ⟨mid, hmid, h⟩ := bind_eq_ok.mp h
    obtain ⟨hp, hrest⟩ := forall_mem_cons.mp hparents
    refine ih h hrest fun x g hg hx r hr hparent => ?_
    obtain ⟨-, rfl⟩ := setNode_ok hmid
    rw [find_setOwn] at hg
    by_cases hid : p.id = x
    · rw [if_pos hid] at hg
      obtain rfl := some.inj hg
      cases hpp : p.parentId with
      | some parent =>
        have hset : (patchedNode p (o.find p.id)).parentId = parent := by
          unfold patchedNode
          cases o.find p.id <;> simp [patchNode, createNode, hpp]
        rw [hset] at hparent
        exact absurd hr (hp r (hpp.trans (congrArg some hparent)))
      | none =>
        -- the parent is the old one, so the group is lifted later
        cases hf : o.find p.id with
        | none =>
          rw [hf] at hparent
          simp [patchedNode, createNode, hpp] at hparent
        | some prev =>
          rw [hf] at hparent
          have hprev : prev.parentId = some r := by
            simpa [patchedNode, patchNode, hpp] using hparent
          obtain ⟨q, hq, hqid, hroot⟩ := hlifted x prev (hid ▸ hf) hx r hr hprev
          rcases mem_cons.mp hq with rfl | hq
          · rw [hpp] at hroot
            cases hroot
          · exact ⟨q, hq, hqid, hroot⟩
    · rw [if_neg hid] at hg
      obtain ⟨q, hq, hqid, hroot⟩ := hlifted x g hg hx r hr hparent
      rcases mem_cons.mp hq with rfl | hq
      · exact absurd hqid hid
      · exact ⟨q, hq, hqid, hroot⟩

theorem removedGroups_sub {removeIds removed : List String}
    (h : removedGroups o removeIds = .ok removed) (hclosed : Closed o removeIds) :
    ∀ x ∈ removed, x ∈ removeIds := by
  unfold removedGroups at h
  split at h
  · obtain rfl := ok.inj h
    exact fun x hx => absurd hx not_mem_nil
  · unfold descendantsOf at h
    split at h
    · cases h
    dsimp only at h
    split at h
    · cases h
    obtain rfl := ok.inj h
    exact fun x => (spread_closed hclosed x).mp

/-- A group that the command did not create stays, whatever hangs below the groups that go. -/
theorem replay_keeps {delta : Delta} {current next : Doc}
    (hparents : ∀ p ∈ delta.setGroups, ∀ r, p.parentId = some (some r) → r ∉ delta.removeGroupIds)
    (h : replayWorkbenchDelta delta current = some next) (hg : g ∈ current.groups)
    (hout : g.id ∉ delta.removeGroupIds) : g.id ∈ next.ids := by
  unfold replayWorkbenchDelta at h
  cases happly : applyWorkbenchDelta current (safeDelta delta current) with
  | error t =>
    rw [happly] at h
    cases t with
    | inherited => cases h
    | delta e => exact some.inj h ▸ id_mem hg
    | type => exact some.inj h ▸ id_mem hg
  | ok result =>
    rw [happly] at h
    obtain rfl := some.inj h
    obtain ⟨o, o', removed, membership, ho, ho', hremoved, rfl⟩ := applyWorkbenchDelta_ok happly
    obtain ⟨hsound, hkeys⟩ := groupsByIdOf_sound ho
    have hlift : Lifted delta.removeGroupIds (safeDelta delta current).setGroups o := by
      intro x g' hg' hx r hr hparent
      obtain ⟨hin, rfl⟩ := hsound x g' hg'
      refine ⟨⟨g'.id, none, none, some none⟩, mem_append_right _ ?_, rfl, rfl⟩
      refine mem_filterMap.mpr ⟨g', hin, ?_⟩
      rw [if_neg hx, hparent, inClosure, if_neg not_mem_nil, if_pos hr, if_pos rfl]
    have hafter := setNodes_lifted ho' (fun p hp r hr => by
      rcases mem_append.mp hp with hp | hp
      · exact hparents p hp r hr
      obtain ⟨g', -, hlifted⟩ := mem_filterMap.mp hp
      split at hlifted
      · cases hlifted
      split at hlifted
      · obtain rfl := some.inj hlifted
        cases hr
      · cases hlifted) hlift
    have hclosed : Closed o' delta.removeGroupIds := by
      intro x g' hg' p hp hparent
      by_contra hx
      obtain ⟨q, hq, -⟩ := hafter x g' hg' hx p hp hparent
      exact absurd hq not_mem_nil
    have hstays : g.id ∉ removed := fun hin => hout (removedGroups_sub hremoved hclosed _ hin)
    obtain ⟨g', hg'⟩ := mem_keys_iff.mp (setNodes_keep ho' (hkeys g hg))
    have hid : g'.id = g.id :=
      setNodes_keyed ho' (fun x g hg => (hsound x g hg).2) g.id g' hg'
    have hleft : Dict.find (Table.delete o' fun kv => kv.1 ∈ removed) g.id = some g' := by
      rw [Dict.find_delete, hg']
      simp [hstays]
    exact Doc.mem_ids.mpr ⟨g', List.mem_map_of_mem (find_eq_some.mp hleft), hid⟩

/-! ## Undo -/

/-- The inverse restores the first document, and its replay takes no group away that the command
    did not create. -/
structure Undoes (before after : Doc) (delta : Delta) : Prop where
  restores : ∃ inverse result, invertWorkbenchDelta delta before = .ok inverse ∧
    applyWorkbenchDelta after inverse = .ok result ∧ SameOrg result before
  spares : ∀ inverse, invertWorkbenchDelta delta before = .ok inverse → ∀ current next,
    replayWorkbenchDelta inverse current = some next → ∀ g ∈ current.groups,
      g.id ∉ next.ids → g.id ∈ delta.setGroups.map GroupPatch.id ∧ g.id ∉ before.ids

theorem invertWorkbenchDelta_eq {forward inverse : Delta} {before : Doc}
    (h : invertWorkbenchDelta forward before = .ok inverse) :
    inverseOf forward before = inverse := by
  unfold invertWorkbenchDelta at h
  split at h
  · cases h
  split at h
  · cases h
  · exact ok.inj h

section Undoing

variable {before after : Doc} {delta : Delta} (hbefore : Valid before)
  (hdiff : diffWorkbenchDocs before after = some delta)

include hbefore hdiff

/-- The replay spares what others have made, whatever the names of groups are. -/
theorem inverse_spares {inverse : Delta} (h : invertWorkbenchDelta delta before = .ok inverse)
    {current next : Doc} (hreplay : replayWorkbenchDelta inverse current = some next)
    {g : WorkbenchGroupNode} (hg : g ∈ current.groups) (hgone : g.id ∉ next.ids) :
    g.id ∈ delta.setGroups.map GroupPatch.id ∧ g.id ∉ before.ids := by
  obtain rfl := diffWorkbenchDocs_eq_some hdiff
  obtain rfl := invertWorkbenchDelta_eq h
  have hcreated : g.id ∈ createdIds (differences before after) before := by
    by_contra hout
    refine hgone (replay_keeps (fun p hp r hparent hin => ?_) hreplay hg hout)
    have hr := ((mem_createdIds hbefore).mp hin).2
    rcases patch_inverse hbefore hp with ⟨prev, hprev, rfl⟩ | ⟨prev, hprev, -, -, -, -, hold, -⟩
    · exact hr (hbefore.parents prev hprev r (some.inj hparent))
    have hset := congrArg WorkbenchGroupNode.parentId hold
    refine hr (hbefore.parents prev hprev r ?_)
    rw [← hset]
    show p.parentId.getD prev.parentId = some r
    rw [hparent, getD_some]
  unfold createdIds at hcreated
  rw [mem_foldl_addTo] at hcreated
  obtain ⟨hset, hnone⟩ := mem_filter.mp (hcreated.resolve_left not_mem_nil)
  exact ⟨hset, (find_mapById_none hbefore).mp (of_decide_eq_true hnone)⟩

/-- Undo restores exactly where every group that the command removed has a name. -/
theorem undo_restores_iff (hafter : Valid after) (hplain : PlainIds before)
    (hplain' : PlainIds after) :
    Undoes before after delta ↔ ∀ g ∈ before.groups, g.id ∉ after.ids → g.name ≠ "" := by
  have hspares : ∀ inverse, invertWorkbenchDelta delta before = .ok inverse → ∀ current next,
      replayWorkbenchDelta inverse current = some next → ∀ g ∈ current.groups, g.id ∉ next.ids →
        g.id ∈ delta.setGroups.map GroupPatch.id ∧ g.id ∉ before.ids :=
    fun inverse h current next hreplay g hg hgone =>
      inverse_spares hbefore hdiff h hreplay hg hgone
  obtain rfl := diffWorkbenchDocs_eq_some hdiff
  constructor
  · rintro ⟨⟨inverse, result, hinvert, happly, -⟩, -⟩ g hg hout
    obtain rfl := invertWorkbenchDelta_eq hinvert
    obtain ⟨o, o', -, -, ho, ho', -⟩ := applyWorkbenchDelta_ok happly
    rcases setNodes_named ho' _ (removed_inverse hbefore hg hout) with hkey | ⟨q, hq, hid, -, hname⟩
    · obtain ⟨g', hg'⟩ := mem_keys_iff.mp hkey
      obtain ⟨hin, he⟩ := (groupsByIdOf_sound ho).1 _ _ hg'
      have hid : g'.id = g.id := he
      exact absurd (hid ▸ id_mem hin) hout
    · have hqid : q.id = g.id := hid
      rcases patch_inverse hbefore hq with ⟨prev, hprev, rfl⟩ | ⟨prev, -, g', hg', he, he', -⟩
      · obtain rfl := hbefore.eq_of_id hprev hg hqid
        exact fun hempty => hname (congrArg some hempty)
      · rw [← hqid, he', he] at hout
        exact absurd (id_mem hg') hout
  · intro hnamed
    have hsome : differences before after ≠ noChange := fun hnone => by
      have hsame := (differences_eq_noChange hbefore hafter hplain hplain').mp hnone
      rw [(diffWorkbenchDocs_eq_none hbefore hafter hplain hplain').mpr (.inl hsame)] at hdiff
      cases hdiff
    obtain ⟨result, happly, hsame⟩ := apply_of_leads hafter hbefore
      (leads_inverse hbefore hafter hplain hplain' hnamed) hplain' hplain
    exact ⟨⟨_, result, invertWorkbenchDelta_ok hbefore hafter hplain hplain' hnamed hsome, happly,
      hsame⟩, hspares⟩

end Undoing

theorem moved_undone : Undoes nested moved (differences nested moved) :=
  (undo_restores_iff nested_valid (by decide) moved_valid nested_plain moved_plain).mpr (by decide)

/-- A document with one group that has an empty name. -/
def nameless : Doc := ⟨[⟨"roads", "", false, none⟩], Dict.empty, [], "explore"⟩

/-- The same document without the group. -/
def cleared : Doc := ⟨[], Dict.empty, [], "explore"⟩

/-- A group without a name is not created anew. -/
theorem nameless_lost :
    ¬ ∀ (before after : Doc) (delta : Delta), Valid before → Valid after →
      diffWorkbenchDocs before after = some delta → Undoes before after delta := by
  intro h
  obtain ⟨⟨inverse, result, hinvert, happly, -⟩, -⟩ := h nameless cleared
    (differences nameless cleared) (valid_iff.mpr (by decide)) (valid_iff.mpr (by decide))
    (by decide)
  obtain rfl := invertWorkbenchDelta_eq hinvert
  have herror : (applyWorkbenchDelta cleared
      (inverseOf (differences nameless cleared) nameless)).toOption.isNone := by decide
  rw [happly] at herror
  cases herror

end WebGis.Workbench.Client
