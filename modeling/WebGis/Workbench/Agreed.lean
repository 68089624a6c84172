/-
  When the client and the server make the same of a delta.

  The client's run goes beside the server's, stage by stage (`beside_of_shaped`). In the end the
  client has the groups in the order of the keys of an object and with the names as they were
  sent, so the two documents are the same exactly when that is the order of the groups and no
  name is clipped (`applyWorkbenchDelta_agrees_iff`). Where the client goes through a value that
  is no list it throws, whatever the server makes of it.
-/
import WebGis.Workbench.Frame
import WebGis.Workbench.Mirrored
import WebGis.Workbench.Replay

namespace WebGis.Workbench

open Data Data.Json List Option

variable {R : FloatRepr}

/-! ## What an accepted document reads as -/

theorem mapM_textOf {xs : List Json} (h : xs.all isStr) : ∃ ss, xs.mapM textOf = some ss := by
  induction xs with
  | nil => exact ⟨[], rfl⟩
  | cons x xs ih =>
    rw [List.all_cons, Bool.and_eq_true] at h
    obtain ⟨ss, hss⟩ := ih h.2
    cases x with
    | str s => exact ⟨s :: ss, by rw [mapM_cons, hss]; rfl⟩
    | _ => cases h.1

theorem mapM_pairOf {kvs : List (String × Json)} (h : (kvs.all fun kv => isStr kv.2)) :
    ∃ pairs, kvs.mapM pairOf = some pairs := by
  induction kvs with
  | nil => exact ⟨[], rfl⟩
  | cons kv kvs ih =>
    rw [List.all_cons, Bool.and_eq_true] at h
    obtain ⟨pairs, hpairs⟩ := ih h.2
    obtain ⟨k, v⟩ := kv
    cases v with
    | str s => exact ⟨(k, s) :: pairs, by rw [mapM_cons, hpairs]; rfl⟩
    | _ => cases h.1

/-- Both sides read the same groups and the same locks, and the same membership where there is one. -/
structure ReadBoth (doc : Fields) (ps : Parts) : Prop where
  parts : readParts doc = .ok ps
  groups : docGroups doc = .ok ps.groups
  locked : idsOf (field "lockedLayerIds" doc) = .ok ps.locked
  membership : docMembership doc = .ok ps.membership.items ∨
    ((field "membership" doc = none) ∧ docMembership doc = .error .type)

variable {doc : Fields}

theorem read_of_accepted (h : Accepted R doc) : ∃ ps, ReadBoth doc ps := by
  obtain ⟨groups, hfield, hforest⟩ := h.groups
  have hentries := mapM_groupEntry.mpr ⟨rfl, hforest.named⟩
  have hgroups : readGroups doc = .ok groups := by
    unfold readGroups
    rw [hfield]
    dsimp only
    rw [hentries]
  have hdocGroups : docGroups doc = .ok groups := by
    unfold docGroups
    rw [hfield]
    dsimp only
    rw [hentries]
    rfl
  obtain ⟨locked, hlocked, hids⟩ : ∃ locked, readLocked doc = .ok locked ∧
      idsOf (field "lockedLayerIds" doc) = .ok locked := by
    have hl := h.rest.locked
    unfold readLocked idsOf
    unfold strList at hl
    split at hl
    · rename_i hn
      rw [hn]
      exact ⟨[], rfl, rfl⟩
    · rename_i xs hx
      obtain ⟨ss, hss⟩ := mapM_textOf hl
      rw [hx]
      refine ⟨ss, by simp only [hss], ?_⟩
      show orThrow (xs.mapM textOf) = _
      rw [hss]
      rfl
    · cases hl
  obtain ⟨m, hm, hdm⟩ : ∃ m, readMembership doc = .ok m ∧ (docMembership doc = .ok m.items ∨
      ((field "membership" doc = none) ∧ docMembership doc = .error .type)) := by
    have hm := h.rest.membership
    unfold readMembership docMembership
    unfold membershipError at hm
    split at hm
    · rename_i hn
      rw [hn]
      exact ⟨_, rfl, .inr ⟨rfl, rfl⟩⟩
    · rename_i kvs hk
      split at hm
      · rename_i hall
        obtain ⟨pairs, hpairs⟩ := mapM_pairOf hall
        rw [hk]
        dsimp only
        rw [hpairs]
        exact ⟨_, rfl, .inl rfl⟩
      · cases hm
    · cases hm
  exact ⟨⟨groups, m, locked⟩, readParts_ok.mpr ⟨hgroups, hm, hlocked⟩, hdocGroups, hids, hdm⟩

/-! ## When a delta is applied -/

/-- `x` goes when the delta is applied. -/
def Removed (groups : List Group) (d : Delta) (x : String) : Prop :=
  ∃ s ∈ d.removeGroupIds, Below groups d s x

/-- The group `x` is there once the delta has been applied. -/
def Known (groups : List Group) (d : Delta) (x : String) : Prop :=
  (x ∈ ids groups ∨ x ∈ d.setGroups.map GroupPatch.id) ∧ ¬ Removed groups d x

/-- The delta can be applied: a group that it creates has a name where it is first mentioned, no
    group is both set and removed, and layers are put into groups that are there. -/
structure Admitted (groups : List Group) (d : Delta) : Prop where
  named : ∀ x ∉ ids groups, ∀ p, (d.setGroups.find? fun p => p.id = x) = some p → p.name ≠ none
  disjoint : ∀ s ∈ d.removeGroupIds, s ∉ d.setGroups.map GroupPatch.id
  targets : ∀ m ∈ d.membershipSet, Known groups d m.2

variable {d : Delta} {after : List Group}

theorem mem_kept_iff {before : List Group} (h : GroupsSet before d.setGroups after) {x : String} :
    x ∈ ids (kept after d.removeGroupIds) ↔ Known before d x := by
  rw [mem_ids_kept, h.ids, mem_cascade h]
  rfl

variable {groups : List Group}

theorem setGroups_named {ps : List GroupPatch} :
    (∃ after, ps.foldlM setGroup groups = .ok after) ↔
      ∀ x ∉ ids groups, ∀ p, (ps.find? fun p => p.id = x) = some p → p.name ≠ none := by
  induction ps generalizing groups with
  | nil => exact ⟨fun _ _ _ _ hp => absurd hp (by simp), fun _ => ⟨groups, rfl⟩⟩
  | cons q ps ih =>
    rw [foldlM_cons]
    constructor
    · rintro ⟨after, h⟩ x hx p hp
      obtain ⟨groups', hq, h⟩ := bind_eq_ok.mp h
      rw [find?_cons] at hp
      by_cases he : q.id = x
      · simp only [he, decide_true, some.injEq] at hp
        rcases setGroup_cases hq with ⟨hmem, -⟩ | ⟨-, hname, -⟩
        · exact absurd (he ▸ hmem) hx
        · exact hp ▸ hname
      · simp only [he, decide_false] at hp
        refine ih.mp ⟨after, h⟩ x (fun hmem => ?_) p hp
        exact ((mem_ids_setGroup hq x).mp hmem).elim hx fun h => he h.symm
    · intro hnamed
      obtain ⟨groups', hq⟩ : ∃ groups', setGroup groups q = .ok groups' := by
        unfold setGroup
        cases hg : byId groups q.id with
        | some g => exact ⟨_, rfl⟩
        | none =>
          have hname := hnamed q.id (byId_eq_none.mp hg) q (by simp)
          exact ⟨_, if_neg hname⟩
      have hrest : ∀ x ∉ ids groups', ∀ p, (ps.find? fun p => p.id = x) = some p →
          p.name ≠ none := by
        intro x hx p hp
        rw [mem_ids_setGroup hq, not_or] at hx
        refine hnamed x hx.1 p ?_
        rw [find?_cons]
        simp only [Ne.symm hx.2, decide_false]
        exact hp
      obtain ⟨after, hafter⟩ := ih.mpr hrest
      exact ⟨after, bind_eq_ok.mpr ⟨groups', hq, hafter⟩⟩

theorem collisions_eq_nil :
    d.collisions = [] ↔ ∀ s ∈ d.removeGroupIds, s ∉ d.setGroups.map GroupPatch.id := by
  simp [Delta.collisions, filter_eq_nil_iff]

variable {ps : Parts}

theorem applyParts_admitted (hu : (ids ps.groups).Nodup) :
    (∃ ps', applyParts ps d = .ok ps') ↔ Admitted ps.groups d := by
  constructor
  · rintro ⟨ps', h⟩
    obtain ⟨after, hset, hc, htargets, -⟩ := applyParts_ok.mp h
    exact ⟨setGroups_named.mp ⟨after, hset⟩, collisions_eq_nil.mp hc,
      fun m hm => (mem_kept_iff (setGroups_spec hu hset)).mp (htargets m hm)⟩
  · intro h
    obtain ⟨after, hset⟩ := setGroups_named.mpr h.named
    exact ⟨_, applyParts_ok.mpr ⟨after, hset, collisions_eq_nil.mpr h.disjoint,
      fun m hm => (mem_kept_iff (setGroups_spec hu hset)).mpr (h.targets m hm), rfl⟩⟩

/-- The ids of the groups in the order in which they come in. -/
def arrivals (groups : List Group) (d : Delta) : List String :=
  (d.setGroups.map GroupPatch.id).foldl addTo (ids groups)

theorem ids_setGroups {ps : List GroupPatch} (h : ps.foldlM setGroup groups = .ok after) :
    ids after = (ps.map GroupPatch.id).foldl addTo (ids groups) := by
  refine foldlM_prefix (Q := fun done gs => ids gs = (done.map GroupPatch.id).foldl addTo (ids groups))
    ?_ h rfl
  intro done gs p gs' hgs hp
  rw [map_append, foldl_append, ← hgs, map_singleton, foldl_cons, foldl_nil, addTo]
  rcases setGroup_cases hp with ⟨hmem, rfl⟩ | ⟨hnew, -, rfl⟩
  · rw [ids_patch, if_pos hmem]
  rw [if_neg hnew, ids, map_append]
  rfl

/-! ## When both sides do the same -/

/-- Nothing that the client looks up or writes is a property that every object inherits. -/
structure Plain (doc : Fields) (d : Delta) : Prop where
  groups : "__proto__" ∉ ids (groupsIn doc)
  sets : ∀ p ∈ d.setGroups, p.id ∈ prototypeNames → p.id ∈ ids (groupsIn doc)
  parents : d.removeGroupIds ≠ [] →
    ∀ x p, parentsAfter (groupsIn doc) d x = some p → p ∉ prototypeNames
  removed : ∀ x, Removed (groupsIn doc) d x → x ∉ prototypeNames
  targets : ∀ m ∈ d.membershipSet, m.2 ∈ prototypeNames → Known (groupsIn doc) d m.2
  layers : "__proto__" ∉ d.membershipSet.map Prod.fst
  layer : ∀ gid, (membershipIn doc).find "__proto__" = some gid →
    "__proto__" ∈ d.cleared ∨ Removed (groupsIn doc) d gid

/-- There is a list, or what stands for none, wherever the client goes through one. -/
structure Shaped (doc fs : Fields) : Prop where
  membership : field "membership" doc ≠ none
  setGroups : iterated (field "setGroups" fs) ≠ none
  membershipSet : listed (field "membershipSet" fs) ≠ none

/-- The groups that are there in the end come in the order in which an object has its keys, and
    the name that one of them is given in the end is not clipped. -/
structure Preserved (doc fs : Fields) (d : Delta) : Prop where
  order : (arrivals (groupsIn doc) d).Pairwise fun a b =>
    ¬ Removed (groupsIn doc) d a → ¬ Removed (groupsIn doc) d b → indexBefore b a = false
  names : ∀ qs, patchesOf fs = .ok qs → ∀ x, Known (groupsIn doc) d x →
    ∀ n, lastName qs x = some n → n.length ≤ 200

/-- The same fields. -/
def SameGroup (g g' : Group) : Prop := ∀ k, field k g = field k g'

/-- The same groups in the same order, the same membership and the same locks. -/
def SameDoc (v : WorkbenchDocV5) (r : Fields) : Prop :=
  ∃ ps, readParts r = .ok ps ∧ List.Forall₂ SameGroup v.groups ps.groups ∧
    (∀ lid, v.membership.find lid = ps.membership.find lid) ∧ v.lockedLayerIds = ps.locked

variable {gs gs' : List Group}

theorem ids_of_same (h : List.Forall₂ SameGroup gs gs') : ids gs = ids gs' := by
  induction h with
  | nil => rfl
  | cons hg _ ih =>
    have hid : ∀ {g g' : Group}, SameGroup g g' → groupId g = groupId g' := by
      intro g g' h
      unfold groupId
      rw [h "id"]
    rw [ids, map_cons, hid hg]
    exact congrArg (_ :: ·) ih

theorem clip_eq_iff {n : Nat} {s : String} : clip n s = s ↔ s.length ≤ n :=
  ⟨fun h => h ▸ clip_length_le n s, clip_of_length_le⟩

variable {qs : List GroupPatch}

theorem Renamed.same_iff {g g' : Group} (h : Renamed qs g g') :
    SameGroup g g' ↔ ∀ n, lastName qs (groupId g') = some n → n.length ≤ 200 := by
  have hname := h.name
  constructor
  · intro hs n hn
    rw [hn] at hname
    have heq := hs "name"
    rw [hname.1, hname.2, some.injEq, Json.str.injEq] at heq
    exact clip_eq_iff.mp heq.symm
  · intro hall k
    by_cases hk : k = "name"
    · subst hk
      split at hname
      · rename_i n hn
        rw [hname.1, hname.2, clip_eq_iff.mpr (hall n hn)]
      · exact hname
    · exact h.fields k hk

theorem forall₂_same_iff (h : List.Forall₂ (Renamed qs) gs gs') :
    List.Forall₂ SameGroup gs gs' ↔
      ∀ x ∈ ids gs', ∀ n, lastName qs x = some n → n.length ≤ 200 := by
  induction h with
  | nil => exact ⟨fun _ _ hx => absurd hx not_mem_nil, fun _ => .nil⟩
  | cons hg _ ih =>
    rw [forall₂_cons, ih, hg.same_iff]
    exact (forall_mem_cons (p := fun x => ∀ n, lastName qs x = some n → n.length ≤ 200)).symm

variable {o : Dict String Group} {raw : List Group}

/-- Values of the client's object are the server's groups exactly when the order of the keys is
    the order of the groups and no name is clipped. -/
theorem values_same_iff (ho : Mirrors o raw) (hr : List.Forall₂ (Renamed qs) raw after) :
    List.Forall₂ SameGroup (o.items.map Prod.snd) after ↔
      Dict.InOrder indexBefore (ids after) ∧
        ∀ x ∈ ids after, ∀ n, lastName qs x = some n → n.length ≤ 200 := by
  constructor
  · intro h
    have horder : Dict.InOrder indexBefore (ids after) := ids_of_same h ▸ ho.inOrder
    have hvalues := ho.values_of_inOrder ((ids_of_renamed hr).symm ▸ horder)
    exact ⟨horder, (forall₂_same_iff hr).mp (hvalues ▸ h)⟩
  · rintro ⟨horder, hnames⟩
    rw [ho.values_of_inOrder ((ids_of_renamed hr).symm ▸ horder)]
    exact (forall₂_same_iff hr).mpr hnames

theorem exists_renamed (h : List.Forall₂ (Renamed qs) raw after) :
    ∀ g ∈ raw, ∃ g' ∈ after, Renamed qs g g' := by
  induction h with
  | nil => exact fun _ hg => absurd hg not_mem_nil
  | @cons g g' _ _ hg _ ih =>
    refine forall_mem_cons.mpr ⟨⟨g', mem_cons_self, hg⟩, fun x hx => ?_⟩
    obtain ⟨y, hy, hxy⟩ := ih x hx
    exact ⟨y, mem_cons_of_mem g' hy, hxy⟩

theorem kept_of_renamed (h : List.Forall₂ (Renamed qs) raw after) (p : String → Bool) :
    List.Forall₂ (Renamed qs) (raw.filter fun g => p (groupId g))
      (after.filter fun g => p (groupId g)) := by
  induction h with
  | nil => exact .nil
  | cons hg _ ih =>
    rw [filter_cons, filter_cons, hg.id]
    split
    · exact .cons hg ih
    · exact ih

/-- What the client returns next to what the server makes of the parts of the document. -/
structure Beside (qs : List GroupPatch) (v : WorkbenchDocV5) (ps : Parts) : Prop where
  groups : ∃ o raw, Mirrors o raw ∧ v.groups = o.items.map Prod.snd ∧
    List.Forall₂ (Renamed qs) raw ps.groups
  membership : SameLayers v.membership ps.membership
  locked : v.lockedLayerIds = ps.locked

theorem SameLayers.delete {m m' : Dict String String} (h : SameLayers m m') (p : String → Bool) :
    SameLayers (Table.delete m fun kv => p kv.1) (Table.delete m' fun kv => p kv.1) := by
  intro lid
  rw [Dict.find_delete, Dict.find_delete, h lid]
  by_cases hp : lid = "__proto__" <;> simp [hp]

theorem collide_agrees (h : d.setGroups = qs.map GroupPatch.clipped) :
    Agree (fun t (_ : DeltaError) => Rejects t) (fun _ _ => d.collisions = [])
      (collide d.removeGroupIds qs) (refuse (d.collisions ≠ []) (.collision d.collisions)) := by
  have hids : d.setGroups.map GroupPatch.id = qs.map GroupPatch.id := by
    rw [h, List.map_map]
    rfl
  unfold collide refuse
  cases hf : qs.find? fun patch => patch.id ∈ d.removeGroupIds with
  | some q =>
    have hq : q.id ∈ d.removeGroupIds := by simpa using find?_some hf
    have hc : d.collisions ≠ [] := fun hc => collisions_eq_nil.mp hc q.id hq
      (hids ▸ List.mem_map_of_mem (mem_of_find?_eq_some hf))
    rw [if_pos hc]
    exact fun he => by cases he
  | none =>
    have hc : d.collisions = [] := by
      refine collisions_eq_nil.mpr fun s hs hmem => ?_
      rw [hids] at hmem
      obtain ⟨q, hq, rfl⟩ := List.mem_map.mp hmem
      simpa [hs] using find?_eq_none.mp hf q hq
    rw [if_neg (not_not.mpr hc)]
    exact hc

/-- The client's groups after the patches next to the server's. -/
structure SetBoth (groups : List Group) (d : Delta) (qs : List GroupPatch) (o : Dict String Group)
    (after : List Group) : Prop where
  mirrors : ∃ raw, Mirrors o raw ∧ List.Forall₂ (Renamed qs) raw after
  spec : GroupsSet groups d.setGroups after

theorem sets_agree (hp : Plain doc d) (hqs : d.setGroups = qs.map GroupPatch.clipped)
    (hn : ∀ q ∈ qs, q.name ≠ some "") (ho : Mirrors o (groupsIn doc)) :
    Agree (fun t (_ : DeltaError) => Rejects t) (SetBoth (groupsIn doc) d qs) (qs.foldlM setGroupOf o)
      (d.setGroups.foldlM setGroup (groupsIn doc)) := by
  have hsets : ∀ q ∈ qs, q.id ∈ prototypeNames → q.id ∈ ids (groupsIn doc) := fun q hq =>
    hp.sets q.clipped (hqs ▸ List.mem_map_of_mem hq)
  have hboth := (setGroups_agree ho hsets hn).trans (setGroups_renamed (groupsIn doc) qs)
  rw [← hqs] at hboth
  refine hboth.imp (fun t _ h => h.elim fun _ h => h.1) fun o' after _ hafter h => ⟨h, ?_⟩
  exact setGroups_spec ho.unique hafter

/-- The two sides after the groups have been removed. -/
structure CutBoth (groups : List Group) (d : Delta) (qs : List GroupPatch) (o : Dict String Group)
    (removed : List String) (after : List Group) : Prop where
  mirrors : ∃ raw, Mirrors (Table.delete o fun kv => kv.1 ∈ removed) raw ∧
    List.Forall₂ (Renamed qs) raw (kept after d.removeGroupIds)
  removed : ∀ x, x ∈ removed ↔ x ∈ descendants after d.removeGroupIds
  known : ∀ x, x ∈ ids (kept after d.removeGroupIds) ↔ Known groups d x

theorem SetBoth.cut (hp : Plain doc d) (h : SetBoth (groupsIn doc) d qs o after) :
    ∃ removed, removedGroups o d.removeGroupIds = .ok removed ∧
      CutBoth (groupsIn doc) d qs o removed after := by
  obtain ⟨raw, hm, hr⟩ := h.mirrors
  have hdescendants : descendants raw d.removeGroupIds = descendants after d.removeGroupIds := by
    unfold descendants
    rw [links_of_renamed hr]
  have hparent : ∀ g ∈ raw, ∃ g' ∈ after, parentOf g = parentOf g' := by
    intro g hg
    obtain ⟨g', hg', hgg⟩ := exists_renamed hr g hg
    exact ⟨g', hg', hgg.parentOf⟩
  obtain ⟨removed, hok, hremoved⟩ := removedGroups_ok hm d.removeGroupIds
    (by
      intro hne g hg p hgp
      obtain ⟨g', hg', he⟩ := hparent g hg
      refine hp.parents hne (groupId g') p ?_
      rw [parentsAfter, ← h.spec.parents, parentsOf, byId_of_mem h.spec.unique hg', bind_some, ← he]
      exact hgp)
    (by
      intro x hx
      rw [hdescendants] at hx
      exact hp.removed x ((mem_cascade h.spec).mp hx))
  rw [hdescendants] at hremoved
  refine ⟨removed, hok, ⟨_, hm.filter fun x => decide (x ∈ removed), ?_⟩, hremoved,
    fun x => mem_kept_iff h.spec⟩
  have hkept : kept after d.removeGroupIds = after.filter fun g => !decide (groupId g ∈ removed) := by
    refine filter_congr fun g _ => ?_
    rw [decide_not, decide_eq_decide.mpr (hremoved (groupId g))]
  rw [hkept]
  exact kept_of_renamed hr fun x => !decide (x ∈ removed)

theorem setMembership_congr {groups' : List Group} (h : ids groups = ids groups') :
    setMembership groups = setMembership groups' := by
  funext membership m
  unfold setMembership
  rw [h]

variable {fs : Fields}

theorem beside_of_shaped (hread : ReadBoth doc ps) (hv : Validated fs d) (hs : Shaped doc fs)
    (hp : Plain doc d) (hu : (ids ps.groups).Nodup) :
    ∃ qs, patchesOf fs = .ok qs ∧
      Agree (fun t (_ : DeltaError) => Rejects t) (Beside qs) (applyWorkbenchDelta doc fs)
        (applyParts ps d) := by
  have hgroups := groupsIn_of_parts hread.parts
  obtain ⟨qs, hqs, hset, hn⟩ := (patchesOf_of_validated hv).resolve_left fun h => hs.setGroups h.1
  have hentries := (entriesOf_of_validated hv).resolve_left fun h => hs.membershipSet h.1
  have hmembership := hread.membership.resolve_right fun h => hs.membership h.1
  obtain ⟨o, ho, hm⟩ := groupsByIdOf_ok hu (hgroups ▸ hp.groups)
  refine ⟨qs, hqs, ?_⟩
  unfold applyWorkbenchDelta applyParts
  simp only [hread.groups, ho, hqs, idsOf_of_wordsOf hv.removeGroupIds, ok_bind]
  have hsets := sets_agree hp hset hn (hgroups ▸ hm)
  rw [hgroups] at hsets
  refine hsets.bind fun o after hafter => ?_
  rw [← hgroups] at hafter
  refine (collide_agrees hset).bind fun _ _ _ => ?_
  obtain ⟨removed, hremoved, hcut⟩ := hafter.cut hp
  obtain ⟨raw, hraw, hr⟩ := hcut.mirrors
  simp only [hremoved, hmembership, hentries, idsOf_of_wordsOf hv.membershipClear, hread.locked,
    idsOf_of_wordsOf hv.locksAdd, idsOf_of_wordsOf hv.locksRemove, ok_bind]
  have hids : ids raw = ids (kept after d.removeGroupIds) := ids_of_renamed hr
  have htargets : ∀ m ∈ d.membershipSet, m.2 ∈ prototypeNames → m.2 ∈ ids raw := fun m hm hpn =>
    hids ▸ (hcut.known m.2).mpr (hp.targets m hm hpn)
  have hmembers := setMemberships_agree hraw htargets
    (sameLayers_keepMembership hcut.removed ps.membership)
  rw [setMembership_congr hids] at hmembers
  refine hmembers.bind fun m m' hmm => ?_
  refine ⟨⟨_, raw, hraw, rfl, hr⟩, ?_, relock_eq _ _ _⟩
  have hcleared : (fun kv : String × String => decide (kv.1 ∈ d.membershipClear ∧
      kv.1 ∉ d.membershipSet.map Prod.fst)) = fun kv => decide (kv.1 ∈ d.cleared) := by
    funext kv
    refine decide_eq_decide.mpr ?_
    rw [Delta.cleared, mem_filter, decide_eq_true_eq]
  rw [hcleared]
  exact hmm.delete fun lid => decide (lid ∈ d.cleared)

theorem rejects_bind {α β : Type} {x : Except Thrown α} {f : α → Except Thrown β}
    (hx : ∀ t, x = .error t → Rejects t) (hf : ∀ a, x = .ok a → ∃ t, f a = .error t ∧ Rejects t) :
    ∃ t, (x >>= f) = .error t ∧ Rejects t := by
  cases x with
  | error t => exact ⟨t, rfl, hx t rfl⟩
  | ok a => exact hf a rfl

theorem rejects_of_not_shaped (hread : ReadBoth doc ps) (hv : Validated fs d) (hs : ¬ Shaped doc fs)
    (hp : Plain doc d) (hu : (ids ps.groups).Nodup) :
    ∃ t, applyWorkbenchDelta doc fs = .error t ∧ Rejects t := by
  have hgroups := groupsIn_of_parts hread.parts
  have htype : Rejects .type := fun he => by cases he
  obtain ⟨o, ho, hm⟩ := groupsByIdOf_ok hu (hgroups ▸ hp.groups)
  unfold applyWorkbenchDelta
  simp only [hread.groups, ho, idsOf_of_wordsOf hv.removeGroupIds, ok_bind]
  rcases patchesOf_of_validated hv with ⟨-, hqs⟩ | ⟨qs, hqs, hset, hn⟩
  · rw [hqs]
    exact ⟨.type, rfl, htype⟩
  · rw [hqs, ok_bind]
    have hsets := sets_agree hp hset hn (hgroups ▸ hm)
    have hiter : iterated (field "setGroups" fs) ≠ none := by
      intro hnone
      rw [patchesOf, hnone] at hqs
      cases hqs
    refine rejects_bind (fun t ht => (hsets.error_left ht).elim fun _ h => h.2) fun o' _ => ?_
    refine rejects_bind (fun t ht => ((collide_agrees hset).error_left ht).elim fun _ h => h.2)
      fun _ _ => ?_
    refine rejects_bind (fun t ht => removedGroups_rejects o' d.removeGroupIds ht) fun removed _ => ?_
    rcases hread.membership with hmember | ⟨-, hmember⟩
    · have hentries : entriesOf fs = .error .type := by
        rcases entriesOf_of_validated hv with ⟨-, hentries⟩ | hentries
        · exact hentries
        refine absurd ⟨fun hnone => ?_, hiter, fun hnone => ?_⟩ hs
        · rw [docMembership, hnone] at hmember
          cases hmember
        · rw [entriesOf, hnone] at hentries
          cases hentries
      rw [hmember, hentries]
      exact ⟨.type, rfl, htype⟩
    · rw [hmember]
      exact ⟨.type, rfl, htype⟩

theorem find_proto_none {ps' : Parts} (hread : ReadBoth doc ps) (hp : Plain doc d)
    (hu : (ids ps.groups).Nodup) (h : applyParts ps d = .ok ps') :
    ps'.membership.find "__proto__" = none := by
  obtain ⟨after, hset, -, -, rfl⟩ := applyParts_ok.mp h
  have hspec := setGroups_spec hu hset
  rw [find_cleared, lastGroup_eq_none.mpr hp.layers, none_or, Dict.find_delete]
  split
  · rfl
  rename_i hnot
  cases hfind : ps.membership.find "__proto__" with
  | none => rfl
  | some gid =>
    rcases hp.layer gid (by rw [membershipIn_of_parts hread.parts, hfind]) with hc | hr
    · exact absurd hc hnot
    rw [groupsIn_of_parts hread.parts] at hr
    have hgid : gid ∈ descendants after d.removeGroupIds := (mem_cascade hspec).mpr hr
    simp [Option.filter, hgid]

theorem inOrder_kept (hu : (ids groups).Nodup)
    (h : d.setGroups.foldlM setGroup groups = .ok after) :
    Dict.InOrder indexBefore (ids (kept after d.removeGroupIds)) ↔
      (arrivals groups d).Pairwise fun a b =>
        ¬ Removed groups d a → ¬ Removed groups d b → indexBefore b a = false := by
  have hids : ids (kept after d.removeGroupIds) =
      (arrivals groups d).filter fun x => x ∉ descendants after d.removeGroupIds := by
    rw [arrivals, ← ids_setGroups h, ids, ids, kept, List.filter_map]
    rfl
  have hmem : ∀ x, x ∈ descendants after d.removeGroupIds ↔ Removed groups d x := fun x =>
    mem_cascade (setGroups_spec hu h)
  rw [hids, Dict.InOrder, pairwise_filter]
  simp only [decide_eq_true_eq, hmem]

theorem Beside.same_iff {ps' : Parts} (hread : ReadBoth doc ps) (hp : Plain doc d)
    (hu : (ids ps.groups).Nodup) (happlied : applyParts ps d = .ok ps')
    (hnamed : ∀ g ∈ ps'.groups, groupId g ≠ "") (hqs : patchesOf fs = .ok qs) {v : WorkbenchDocV5}
    (h : Beside qs v ps') : SameDoc v (writeParts doc ps') ↔ Preserved doc fs d := by
  have hgroups := groupsIn_of_parts hread.parts
  have hback := readParts_writeParts doc hnamed
  have hlayers : ∀ lid, v.membership.find lid = ps'.membership.find lid := by
    intro lid
    rw [h.membership lid]
    split
    · rename_i hlid
      rw [hlid, find_proto_none hread hp hu happlied]
    · rfl
  obtain ⟨o, raw, ho, hvalues, hr⟩ := h.groups
  obtain ⟨after, hset, -, -, hps'⟩ := applyParts_ok.mp happlied
  have hkept : ps'.groups = kept after d.removeGroupIds := by rw [hps']
  have hsame := values_same_iff ho hr
  rw [← hvalues, hkept, inOrder_kept hu hset] at hsame
  have hpreserved : Preserved doc fs d ↔ List.Forall₂ SameGroup v.groups ps'.groups := by
    rw [hkept, hsame]
    constructor
    · intro hp
      refine ⟨hgroups ▸ hp.order, fun x hx => hp.names qs hqs x ?_⟩
      rw [hgroups]
      exact (mem_kept_iff (setGroups_spec hu hset)).mp hx
    · rintro ⟨horder, hnames⟩
      refine ⟨hgroups.symm ▸ horder, fun qs' hqs' x hx => ?_⟩
      obtain rfl := Except.ok.inj (hqs.symm.trans hqs')
      rw [hgroups] at hx
      exact hnames x ((mem_kept_iff (setGroups_spec hu hset)).mpr hx)
  rw [hpreserved]
  constructor
  · rintro ⟨ps'', hps'', hg, -, -⟩
    obtain rfl := Except.ok.inj (hback.symm.trans hps'')
    exact hg
  · exact fun hg => ⟨ps', hback, hg, hlayers, h.locked⟩

/-- Both sides reject a delta or make the same of it, provided that nothing inherited is touched,
    exactly when the server rejects it, or the client has lists to go through, the groups come in
    the order of the keys of an object, and no name is clipped. -/
theorem applyWorkbenchDelta_agrees_iff {doc fs : Fields} {d : Delta} (hdoc : Accepted R doc)
    (hdelta : validateDelta R (.obj fs) = .ok d) (hp : Plain doc d) :
    Agree (fun t (_ : DeltaError) => Rejects t) SameDoc (applyWorkbenchDelta doc fs)
        (applyDelta (some doc) d) ↔
      (Admitted (groupsIn doc) d → Shaped doc fs ∧ Preserved doc fs d) := by
  obtain ⟨fs', he, hv⟩ := validateDelta_ok hdelta
  obtain rfl := Json.obj.inj he
  obtain ⟨ps, hread⟩ := read_of_accepted hdoc
  have hforest := forest_of_accepted hdoc hread.parts
  have hu := hforest.unique
  have hadmitted := applyParts_admitted (d := d) hu
  have happly : applyDelta (some doc) d = (applyParts ps d >>= fun ps' => .ok (writeParts doc ps')) := by
    rw [applyDelta, getD_some, hread.parts]
    rfl
  rw [happly, groupsIn_of_parts hread.parts]
  by_cases hs : Shaped doc fs
  · obtain ⟨qs, hqs, hbeside⟩ := beside_of_shaped hread hv hs hp hu
    cases hparts : applyParts ps d with
    | error e =>
      rw [hparts] at hbeside hadmitted
      have hno : ¬ Admitted ps.groups d := fun h => by cases (hadmitted.mpr h).choose_spec
      refine ⟨fun _ h => absurd h hno, fun _ => ?_⟩
      cases hclient : applyWorkbenchDelta doc fs with
      | error t => rw [hclient] at hbeside; exact hbeside
      | ok v => rw [hclient] at hbeside; exact hbeside.elim
    | ok ps' =>
      rw [hparts] at hbeside
      have hyes := hadmitted.mp ⟨ps', hparts⟩
      have hnamed := named_of_applied hu hparts hforest.named hv.id_ne
      cases hclient : applyWorkbenchDelta doc fs with
      | error t => rw [hclient] at hbeside; exact hbeside.elim
      | ok v =>
        rw [hclient] at hbeside
        have hsame := Beside.same_iff hread hp hu hparts hnamed hqs hbeside
        exact hsame.trans ⟨fun h _ => ⟨hs, h⟩, fun h => (h hyes).2⟩
  · obtain ⟨t, ht, hrejects⟩ := rejects_of_not_shaped hread hv hs hp hu
    rw [ht]
    cases hparts : applyParts ps d with
    | error e =>
      rw [hparts] at hadmitted
      have hno : ¬ Admitted ps.groups d := fun h => by cases (hadmitted.mpr h).choose_spec
      exact ⟨fun _ h => absurd h hno, fun _ => hrejects⟩
    | ok ps' => exact ⟨fun h => h.elim, fun h => absurd (h (hadmitted.mp ⟨ps', hparts⟩)).1 hs⟩

/-- The groups `b` and `1`, in this order. -/
def numberedDoc : Fields :=
  docOf [[("id", .str "b"), ("name", .str "Base"), ("parentId", .null)],
    [("id", .str "1"), ("name", .str "First"), ("parentId", .null)]]

def lockRoadsFields : Fields := [("locksAdd", .arr [.str "roads"])]

theorem plain_lockRoads : Plain (docOf []) lockRoadsDelta where
  groups := not_mem_nil
  sets := fun _ hp => absurd hp not_mem_nil
  parents := fun h => absurd rfl h
  removed := fun _ h => h.elim fun _ hs => absurd hs.1 not_mem_nil
  targets := fun _ hm => absurd hm not_mem_nil
  layers := not_mem_nil
  layer := fun _ h => by cases h

theorem applyWorkbenchDelta_agrees_iff_locked :
    Agree (fun t (_ : DeltaError) => Rejects t) SameDoc
        (applyWorkbenchDelta (docOf []) lockRoadsFields)
        (applyDelta (some (docOf [])) lockRoadsDelta) ↔
      (Admitted (groupsIn (docOf [])) lockRoadsDelta →
        Shaped (docOf []) lockRoadsFields ∧ Preserved (docOf []) lockRoadsFields lockRoadsDelta) :=
  have hvalid : validateDelta default (.obj lockRoadsFields) = .ok lockRoadsDelta := by
    decide +kernel
  applyWorkbenchDelta_agrees_iff (by decide +kernel) hvalid plain_lockRoads

/-- A lock is set: the server keeps the groups in their order, the client moves `1` to the front. -/
theorem applyWorkbenchDelta_reorders :
    Accepted default numberedDoc ∧
      validateDelta default (.obj lockRoadsFields) = .ok lockRoadsDelta ∧
      (∃ v, applyWorkbenchDelta numberedDoc lockRoadsFields = .ok v ∧ ids v.groups = ["1", "b"]) ∧
      (∃ r, applyDelta (some numberedDoc) lockRoadsDelta = .ok r ∧
        ids (groupsIn r) = ["b", "1"]) ∧
      ¬ Agree (fun t (_ : DeltaError) => Rejects t) SameDoc
        (applyWorkbenchDelta numberedDoc lockRoadsFields)
        (applyDelta (some numberedDoc) lockRoadsDelta) := by
  refine ⟨by decide +kernel, by decide +kernel, ⟨_, rfl, rfl⟩, ⟨_, rfl, rfl⟩, ?_⟩
  rintro ⟨ps, hps, hgroups, -⟩
  have hids : ids ps.groups = ["1", "b"] := (ids_of_same hgroups).symm
  rw [← groupsIn_of_parts hps] at hids
  exact absurd hids (by decide +kernel)

end WebGis.Workbench
