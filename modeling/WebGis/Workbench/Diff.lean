/-
  `diffWorkbenchDocs` of `lib/workbench/delta.ts`: the delta from one document to another.

  The delta leads from the first document to the second (`leads_differences`), so applying it
  gives the second one. There is no delta where nothing differs, and by design none where the modes
  differ or a list would be too long (`diff_applies`).
-/
import WebGis.Workbench.Client

namespace WebGis.Workbench.Client

open Data List Option Dict Doc

/-! ## `diffWorkbenchDocs` -/

/-- What `o[key]` is: a property of the object, one that every object has, or `undefined`. -/
inductive Looked where
  | own (v : String)
  | inherited
  | missing
  deriving DecidableEq

def lookup (o : Dict String String) (key : String) : Looked :=
  match o.find key with
  | some v => .own v
  | none => if key ∈ prototypeNames then .inherited else .missing

/-- `new Map(groups.map((g) => [g.id, g]))` -/
def mapById (groups : List WorkbenchGroupNode) : Dict String WorkbenchGroupNode :=
  ofList (groups.map fun g => (g.id, g))

/-- A patch that says everything of a group. -/
def wholeGroup (g : WorkbenchGroupNode) : GroupPatch :=
  ⟨g.id, some g.name, some g.collapsed, some g.parentId⟩

/-- A field of a patch: its new value, where that is another one. -/
def changed {α : Type} [DecidableEq α] (prev new : α) : Option α :=
  if prev ≠ new then some new else none

/-- One round of the loop over `after.groups`. -/
def diffGroup (beforeById : Dict String WorkbenchGroupNode) (g : WorkbenchGroupNode) :
    Option GroupPatch :=
  match beforeById.find g.id with
  | none => some (wholeGroup g)
  | some prev =>
    if prev.name ≠ g.name ∨ prev.collapsed ≠ g.collapsed ∨ prev.parentId ≠ g.parentId then
      some
        { id := g.id
          name := changed prev.name g.name
          collapsed := changed prev.collapsed g.collapsed
          parentId := changed prev.parentId g.parentId }
    else none

/-- The lists that `diffWorkbenchDocs` builds. -/
def differences (before after : Doc) : Delta where
  setGroups := after.groups.filterMap (diffGroup (mapById before.groups))
  removeGroupIds := (before.ids.foldl addTo []).filter (· ∉ after.ids)
  membershipSet := after.membership.items.filter fun m => lookup before.membership m.1 ≠ .own m.2
  membershipClear := before.membership.keys.filter fun l => lookup after.membership l = .missing
  locksAdd := after.lockedLayerIds.filter (· ∉ before.lockedLayerIds)
  locksRemove := before.lockedLayerIds.filter (· ∉ after.lockedLayerIds)

/-- `{}` -/
def noChange : Delta := ⟨[], [], [], [], [], []⟩

/-- One of the lists is over its limit. -/
def TooLong (delta : Delta) : Prop :=
  delta.setGroups.length > maxSetGroups ∨ delta.removeGroupIds.length > maxRemoveGroups ∨
    delta.membershipSet.length > maxMembershipSet ∨
      delta.membershipClear.length > maxMembershipClear ∨
        delta.locksAdd.length > maxLocks ∨ delta.locksRemove.length > maxLocks

instance (delta : Delta) : Decidable (TooLong delta) :=
  inferInstanceAs (Decidable (_ ∨ _ ∨ _ ∨ _ ∨ _ ∨ _))

/-- `diffWorkbenchDocs(before, after)` -/
def diffWorkbenchDocs (before after : Doc) : Option Delta :=
  let delta := differences before after
  if TooLong delta then none
  else if before.mode ≠ after.mode then none
  else if delta = noChange then none
  else if ∃ m ∈ delta.membershipSet, m.2 ∉ after.ids then none
  else if ∃ p ∈ delta.setGroups, ∃ parent ∈ (p.parentId.getD none).toList, parent ∉ after.ids then
    none
  else some delta

/-! ## The delta leads to the other document -/

theorem lookup_eq_own {o : Dict String String} {key v : String} :
    lookup o key = .own v ↔ o.find key = some v := by
  unfold lookup
  cases o.find key with
  | none => by_cases h : key ∈ prototypeNames <;> simp [h]
  | some w => simp

theorem lookup_eq_missing {o : Dict String String} {key : String} :
    lookup o key = .missing ↔ o.find key = none ∧ key ∉ prototypeNames := by
  unfold lookup
  cases o.find key with
  | none => by_cases h : key ∈ prototypeNames <;> simp [h]
  | some w => simp

theorem find_mapById {doc : Doc} (h : Valid doc) {x : String} {g : WorkbenchGroupNode} :
    (mapById doc.groups).find x = some g ↔ g ∈ doc.groups ∧ g.id = x := by
  have hu : ((doc.groups.map fun g => (g.id, g)).map Prod.fst).Nodup := by
    rw [List.map_map]
    exact h.unique
  rw [find_eq_some, mapById, items_ofList hu, List.mem_map]
  constructor
  · rintro ⟨g', hg', he⟩
    obtain ⟨rfl, rfl⟩ := Prod.mk.inj he
    exact ⟨hg', rfl⟩
  · rintro ⟨hg, rfl⟩
    exact ⟨g, hg, rfl⟩

theorem find_mapById_none {doc : Doc} (h : Valid doc) {x : String} :
    (mapById doc.groups).find x = none ↔ x ∉ doc.ids := by
  constructor
  · rintro hnone hin
    obtain ⟨g, hg, hid⟩ := Doc.mem_ids.mp hin
    rw [(find_mapById h).mpr ⟨hg, hid⟩] at hnone
    cases hnone
  · intro hout
    cases hf : (mapById doc.groups).find x with
    | none => rfl
    | some g =>
      obtain ⟨hg, rfl⟩ := (find_mapById h).mp hf
      exact absurd (id_mem hg) hout

section Fields

variable {α : Type} [DecidableEq α] (prev new : α)

theorem getD_changed_old : (changed prev new).getD prev = new := by
  unfold changed
  by_cases h : prev = new <;> simp [h]

theorem getD_changed_new : (changed prev new).getD new = new := by
  unfold changed
  by_cases h : prev = new <;> simp [h]

end Fields

theorem patchNode_wholeGroup (g g' : WorkbenchGroupNode) (h : g'.id = g.id) :
    patchNode (wholeGroup g) g' = g := by
  obtain ⟨id, name, collapsed, parentId⟩ := g
  subst h
  rfl

theorem diffGroup_cases {before : Doc} (h : Valid before) (g : WorkbenchGroupNode) :
    (g.id ∉ before.ids ∧ diffGroup (mapById before.groups) g = some (wholeGroup g)) ∨
      (g ∈ before.groups ∧ diffGroup (mapById before.groups) g = none) ∨
        ∃ prev ∈ before.groups, prev.id = g.id ∧ ∃ p,
          diffGroup (mapById before.groups) g = some p ∧ p.id = g.id ∧ patchNode p prev = g ∧
            patchNode p g = g := by
  unfold diffGroup
  cases hf : (mapById before.groups).find g.id with
  | none => exact .inl ⟨(find_mapById_none h).mp hf, rfl⟩
  | some prev =>
    obtain ⟨hprev, hid⟩ := (find_mapById h).mp hf
    refine .inr ?_
    dsimp only
    by_cases hchange : prev.name ≠ g.name ∨ prev.collapsed ≠ g.collapsed ∨
        prev.parentId ≠ g.parentId
    · rw [if_pos hchange]
      refine .inr ⟨prev, hprev, hid, _, rfl, rfl, ?_, ?_⟩
      · obtain ⟨id, name, collapsed, parentId⟩ := g
        obtain rfl : prev.id = id := hid
        simp only [patchNode, getD_changed_old]
      · simp only [patchNode, getD_changed_new]
    · rw [if_neg hchange]
      obtain ⟨hname, hchange⟩ := not_or.mp hchange
      obtain ⟨hcollapsed, hparent⟩ := not_or.mp hchange
      obtain rfl : prev = g := by
        obtain ⟨id, name, collapsed, parentId⟩ := g
        obtain ⟨id', name', collapsed', parentId'⟩ := prev
        obtain rfl : id' = id := hid
        obtain rfl : name' = name := not_not.mp hname
        obtain rfl : collapsed' = collapsed := not_not.mp hcollapsed
        obtain rfl : parentId' = parentId := not_not.mp hparent
        rfl
      exact .inl ⟨hprev, rfl⟩

theorem Leads.sameOrg {doc target : Doc} (h : Leads doc noChange target) (hdoc : Valid doc)
    (htarget : Valid target) : SameOrg doc target := by
  have hkept : ∀ g ∈ target.groups, g ∈ doc.groups := fun g hg =>
    (h.cover g hg).resolve_right not_mem_nil
  refine ⟨(perm_ext_iff_of_nodup hdoc.groups_nodup htarget.groups_nodup).mpr fun g =>
    ⟨fun hg => ?_, hkept g⟩, fun layerId => ?_, fun layerId => ?_⟩
  · have hin : g.id ∈ target.ids := by
      by_contra hout
      exact not_mem_nil ((h.remove g.id).mpr ⟨id_mem hg, hout⟩)
    obtain ⟨g', hg', hid⟩ := Doc.mem_ids.mp hin
    exact hdoc.eq_of_id hg (hkept g' hg') hid.symm ▸ hg'
  · cases hf : target.membership.find layerId with
    | some groupId => exact (h.putAll layerId groupId hf).resolve_left not_mem_nil
    | none =>
      rw [find_eq_none]
      exact fun hl => not_mem_nil (h.clearAll layerId hl hf)
  · rw [h.locks]
    exact ⟨fun hin => ⟨.inl hin, not_mem_nil⟩, fun hin => hin.1.resolve_right not_mem_nil⟩

section Differences

variable {before after : Doc} (hbefore : Valid before) (hafter : Valid after)
  (hplain : PlainIds before) (hplain' : PlainIds after)

include hbefore hplain hplain'

theorem leads_differences (hnamed : ∀ g ∈ after.groups, g.id ∉ before.ids → g.name ≠ "") :
    Leads before (differences before after) after where
  patch := by
    intro p hp
    obtain ⟨g, hg, hdiff⟩ := mem_filterMap.mp hp
    refine ⟨g, hg, ?_⟩
    rcases diffGroup_cases hbefore g with ⟨hnew, he⟩ | ⟨-, he⟩ | ⟨prev, hprev, hid, q, he, hqid, hq, hq'⟩
    · obtain rfl : wholeGroup g = p := some.inj (he.symm.trans hdiff)
      refine ⟨rfl, patchNode_wholeGroup g g rfl, fun prev hprev hid => ?_, fun _ => ⟨rfl, ?_⟩⟩
      · have hin := id_mem hprev
        rw [hid] at hin
        exact absurd hin hnew
      · exact ⟨hplain'.groups g.id (id_mem hg), some_ne_none _, fun he =>
          hnamed g hg hnew (some.inj he)⟩
    · rw [he] at hdiff
      cases hdiff
    · obtain rfl : q = p := some.inj (he.symm.trans hdiff)
      refine ⟨hqid.symm, hq', fun prev' hprev' hid' => ?_, fun hout => ?_⟩
      · obtain rfl : prev = prev' :=
          hbefore.eq_of_id hprev hprev' (hid.trans (hqid.symm.trans hid'.symm))
        exact hq
      · exact absurd (hqid ▸ hid ▸ id_mem hprev) hout
  cover := by
    intro g hg
    rcases diffGroup_cases hbefore g with ⟨-, he⟩ | ⟨hin, -⟩ | ⟨prev, -, -, q, he, hqid, -⟩
    · exact .inr (List.mem_map.mpr ⟨_, mem_filterMap.mpr ⟨g, hg, he⟩, rfl⟩)
    · exact .inl hin
    · exact .inr (List.mem_map.mpr ⟨q, mem_filterMap.mpr ⟨g, hg, he⟩, hqid⟩)
  remove := by
    intro x
    unfold differences
    rw [mem_filter, mem_foldl_addTo, decide_eq_true_iff]
    simp only [not_mem_nil, false_or]
  put := fun m hm => find_eq_some.mpr (mem_filter.mp hm).1
  putAll := by
    intro layerId groupId h
    by_cases hsame : lookup before.membership layerId = .own groupId
    · exact .inr (lookup_eq_own.mp hsame)
    · exact .inl (List.mem_map.mpr ⟨(layerId, groupId),
        mem_filter.mpr ⟨find_eq_some.mp h, decide_eq_true hsame⟩, rfl⟩)
  clear := fun layerId hl =>
    (lookup_eq_missing.mp (of_decide_eq_true (mem_filter.mp hl).2)).1
  clearAll := fun layerId hl h => mem_filter.mpr
    ⟨hl, decide_eq_true (lookup_eq_missing.mpr ⟨h, hplain.layers layerId hl⟩)⟩
  locks := by
    intro layerId
    unfold differences
    simp only [mem_filter, decide_eq_true_iff]
    tauto

include hafter

theorem differences_eq_noChange : differences before after = noChange ↔ SameOrg before after := by
  constructor
  · intro hnone
    have hset : after.groups.filterMap (diffGroup (mapById before.groups)) = [] :=
      congrArg Delta.setGroups hnone
    have hleads := leads_differences hbefore hplain hplain' fun g hg hnew => by
      rcases diffGroup_cases hbefore g with ⟨-, he⟩ | ⟨hin, -⟩ | ⟨prev, hprev, hid, -⟩
      · rw [filterMap_eq_nil_iff.mp hset g hg] at he
        cases he
      · exact absurd (id_mem hin) hnew
      · exact absurd (hid ▸ id_mem hprev) hnew
    rw [hnone] at hleads
    exact hleads.sameOrg hbefore hafter
  · rintro ⟨hgroups, hmembership, hlocks⟩
    have hids : ∀ x, x ∈ before.ids ↔ x ∈ after.ids := fun x =>
      (hgroups.map WorkbenchGroupNode.id).mem_iff
    unfold differences noChange
    rw [Delta.mk.injEq]
    refine ⟨filterMap_eq_nil_iff.mpr fun g hg => ?_, ?_, ?_, ?_, ?_, ?_⟩
    · rcases diffGroup_cases hbefore g with ⟨hnew, -⟩ | ⟨-, he⟩ | ⟨prev, hprev, hid, p, he, -⟩
      · exact absurd (id_mem (hgroups.mem_iff.mpr hg)) hnew
      · exact he
      · obtain rfl := hbefore.eq_of_id hprev (hgroups.mem_iff.mpr hg) hid
        unfold diffGroup
        rw [(find_mapById hbefore).mpr ⟨hprev, rfl⟩]
        simp
    all_goals rw [filter_eq_nil_iff]; intro x hx
    · rw [mem_foldl_addTo] at hx
      have hin := (hids x).mp (hx.resolve_left not_mem_nil)
      simp [hin]
    · have hsame := lookup_eq_own.mpr ((hmembership x.1).trans (find_eq_some.mpr hx))
      simp [hsame]
    · obtain ⟨v, hv⟩ := mem_keys_iff.mp hx
      have hown := lookup_eq_own.mpr ((hmembership x).symm.trans hv)
      simp [hown]
    · simp [(hlocks x).mpr hx]
    · simp [(hlocks x).mp hx]

omit hbefore hplain hplain' hafter in
theorem diffWorkbenchDocs_eq_some {delta : Delta}
    (h : diffWorkbenchDocs before after = some delta) : differences before after = delta := by
  unfold diffWorkbenchDocs at h
  by_cases hlong : TooLong (differences before after)
  · rw [if_pos hlong] at h
    cases h
  rw [if_neg hlong] at h
  by_cases hmode : before.mode ≠ after.mode
  · rw [if_pos hmode] at h
    cases h
  rw [if_neg hmode] at h
  by_cases hnone : differences before after = noChange
  · rw [if_pos hnone] at h
    cases h
  rw [if_neg hnone] at h
  split at h
  · cases h
  split at h
  · cases h
  · exact some.inj h

theorem diffWorkbenchDocs_eq_none :
    diffWorkbenchDocs before after = none ↔
      SameOrg before after ∨ before.mode ≠ after.mode ∨ TooLong (differences before after) := by
  have hmembers : ¬ ∃ m ∈ (differences before after).membershipSet, m.2 ∉ after.ids := by
    rintro ⟨m, hm, hout⟩
    exact hout (hafter.members m.1 m.2 (find_eq_some.mpr (mem_filter.mp hm).1))
  have hparents : ¬ ∃ p ∈ (differences before after).setGroups,
      ∃ parent ∈ (p.parentId.getD none).toList, parent ∉ after.ids := by
    rintro ⟨p, hp, parent, hparent, hout⟩
    obtain ⟨g, hg, hdiff⟩ := mem_filterMap.mp hp
    have hagain : patchNode p g = g := by
      rcases diffGroup_cases hbefore g with ⟨-, he⟩ | ⟨-, he⟩ | ⟨prev, -, -, q, he, -, -, hq⟩
      · obtain rfl : wholeGroup g = p := some.inj (he.symm.trans hdiff)
        exact patchNode_wholeGroup g g rfl
      · rw [he] at hdiff
        cases hdiff
      · obtain rfl : q = p := some.inj (he.symm.trans hdiff)
        exact hq
    refine hout (hafter.parents g hg parent ?_)
    have hset := congrArg WorkbenchGroupNode.parentId hagain
    cases hpp : p.parentId with
    | none =>
      rw [hpp] at hparent
      cases hparent
    | some q =>
      rw [hpp, getD_some, Option.mem_toList] at hparent
      rw [← hset]
      show p.parentId.getD g.parentId = some parent
      rw [hpp, getD_some]
      exact hparent
  unfold diffWorkbenchDocs
  rw [← differences_eq_noChange hbefore hafter hplain hplain']
  by_cases hlong : TooLong (differences before after)
  · rw [if_pos hlong]
    exact iff_of_true rfl (.inr (.inr hlong))
  rw [if_neg hlong]
  by_cases hmode : before.mode ≠ after.mode
  · rw [if_pos hmode]
    exact iff_of_true rfl (.inr (.inl hmode))
  rw [if_neg hmode]
  by_cases hnone : differences before after = noChange
  · rw [if_pos hnone]
    exact iff_of_true rfl (.inl hnone)
  rw [if_neg hnone, if_neg hmembers, if_neg hparents]
  exact iff_of_false (some_ne_none _) fun h => h.elim hnone fun h => h.elim hmode hlong

/-- A delta, where there is one, leads to the second document; by design there is none when the
    modes differ or a list is too long. -/
theorem diff_applies (hnamed : ∀ g ∈ after.groups, g.id ∉ before.ids → g.name ≠ "") :
    (∀ delta, diffWorkbenchDocs before after = some delta →
      ∃ result, applyWorkbenchDelta before delta = .ok result ∧ SameOrg result after) ∧
        (diffWorkbenchDocs before after = none ↔ SameOrg before after ∨ before.mode ≠ after.mode ∨
            TooLong (differences before after)) := by
  refine ⟨fun delta h => ?_, diffWorkbenchDocs_eq_none hbefore hafter hplain hplain'⟩
  obtain rfl := diffWorkbenchDocs_eq_some h
  exact apply_of_leads hbefore hafter (leads_differences hbefore hplain hplain' hnamed) hplain
    hplain'

end Differences

theorem valid_iff {doc : Doc} : Valid doc ↔ doc.ids.Nodup ∧
    (∀ g ∈ doc.groups, ∀ p ∈ g.parentId, p ∈ doc.ids) ∧
      ∀ m ∈ doc.membership.items, m.2 ∈ doc.ids := by
  constructor
  · intro h
    exact ⟨h.unique, h.parents, fun m hm => h.members m.1 m.2 (find_eq_some.mpr hm)⟩
  · rintro ⟨hu, hparents, hmembers⟩
    exact ⟨hu, hparents, fun l g h => hmembers (l, g) (find_eq_some.mp h)⟩

/-- A parent, its child, and a layer in the child. -/
def nested : Doc where
  groups := [⟨"roads", "Roads", false, none⟩, ⟨"paths", "Paths", false, some "roads"⟩]
  membership := ofList [("tracks", "paths")]
  lockedLayerIds := []
  mode := "explore"

/-- The child has left the parent, which is gone. -/
def moved : Doc where
  groups := [⟨"paths", "Paths", true, none⟩]
  membership := ofList [("tracks", "paths")]
  lockedLayerIds := ["tracks"]
  mode := "explore"

theorem nested_valid : Valid nested := valid_iff.mpr (by decide)

theorem moved_valid : Valid moved := valid_iff.mpr (by decide)

theorem nested_plain : PlainIds nested := ⟨by decide, by decide⟩

theorem moved_plain : PlainIds moved := ⟨by decide, by decide⟩

theorem moved_applies :
    ∃ result, applyWorkbenchDelta nested (differences nested moved) = .ok result ∧
      SameOrg result moved :=
  (diff_applies nested_valid moved_valid nested_plain moved_plain (by decide)).1 _ (by decide)

/-- Where the mode changes as well, there is no delta. -/
theorem mode_hides_changes :
    ¬ ∀ before after : Doc, Valid before → Valid after →
      (∀ delta, diffWorkbenchDocs before after = some delta →
        ∃ result, applyWorkbenchDelta before delta = .ok result ∧ SameOrg result after) ∧
          (diffWorkbenchDocs before after = none ↔ SameOrg before after) := by
  intro h
  have hnone := (h nested { moved with mode := "analyze" } nested_valid
    (valid_iff.mpr (by decide))).2.mp (by decide)
  have hlen := hnone.groups.length_eq
  exact absurd hlen (by decide)

end WebGis.Workbench.Client
