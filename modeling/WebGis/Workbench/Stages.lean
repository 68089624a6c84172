/-
  What each stage of `apply_delta` does, once and for all.

  A stage is described by what can be looked up after it: the group under an id, the group of
  a layer, the parent of a group. `setGroups_spec` is the stage that sets groups,
  `mem_descendants` the cascade of a removal, `find_setMemberships` the stage that puts layers
  into groups, and `readParts_writeParts` that the document written reads back as its parts.
-/
import WebGis.Data.Outcome
import WebGis.Workbench.Delta

namespace WebGis.Workbench

open Data Data.Json List Except
open Option hiding or_assoc

/-! ## Validation -/

/-- How a validated delta comes from what was sent. -/
structure Validated (fs : Fields) (d : Delta) : Prop where
  known : unknownFields fs = []
  some : (fs.any fun f => f.2.truthy) = true
  setGroups : ∃ xs, listOr fs "setGroups" = .some xs ∧ xs.mapM groupPatch = .ok d.setGroups
  removeGroupIds : wordsOf fs "removeGroupIds" = .ok d.removeGroupIds
  membershipSet : ∃ xs, listOr fs "membershipSet" = .some xs ∧
    xs.mapM membershipEntry = .ok d.membershipSet
  membershipClear : wordsOf fs "membershipClear" = .ok d.membershipClear
  locksAdd : wordsOf fs "locksAdd" = .ok d.locksAdd
  locksRemove : wordsOf fs "locksRemove" = .ok d.locksRemove

theorem refuse_eq_ok {p : Prop} [Decidable p] {e : DeltaError} {u : Unit} :
    refuse p e = .ok u ↔ ¬ p := by
  by_cases h : p <;> simp [refuse, h]

variable {d : Delta} {R : FloatRepr}

theorem validateDelta_ok {raw : Json} (h : validateDelta R raw = .ok d) :
    ∃ fs, raw = .obj fs ∧ Validated fs d := by
  cases raw with
  | obj fs =>
    unfold validateDelta at h
    simp only [bind_eq_ok, refuse_eq_ok] at h
    obtain ⟨-, hknown, -, hsome, h⟩ := h
    split at h
    · rename_i sets hsets
      simp only [bind_eq_ok, refuse_eq_ok] at h
      obtain ⟨-, -, setGroups, hset, removeGroupIds, hremove, -, -, h⟩ := h
      split at h
      · rename_i entries hentries
        simp only [bind_eq_ok, refuse_eq_ok, ok.injEq] at h
        obtain ⟨-, -, membershipSet, hms, membershipClear, hclear, -, -, locksAdd, hadd,
          locksRemove, hrem, -, -, -, -, rfl⟩ := h
        exact ⟨fs, rfl, not_not.mp hknown, not_not.mp hsome, ⟨sets, hsets, hset⟩, hremove,
          ⟨entries, hentries, hms⟩, hclear, hadd, hrem⟩
      · cases h
    · cases h
  | _ => cases h

theorem word_ne {v : Json} {s : String} (h : word v = some s) : v = .str s ∧ s ≠ "" := by
  cases v with
  | str t =>
    dsimp only [word] at h
    split at h
    · cases h
    rename_i hne
    obtain rfl := some.inj h
    exact ⟨rfl, hne⟩
  | _ => cases h

variable {p : GroupPatch}

theorem groupPatch_id {v : Json} (h : groupPatch v = .ok p) : p.id ≠ "" := by
  cases v with
  | obj fs =>
    dsimp only [groupPatch] at h
    split at h
    · rename_i gid hgid
      simp only [bind_eq_ok, ok.injEq] at h
      obtain ⟨name, -, collapsed, -, parentId, -, rfl⟩ := h
      obtain ⟨v, -, hv⟩ := bind_eq_some_iff.mp hgid
      exact (word_ne hv).2
    · cases h
  | _ => cases h

variable {fs : Fields}

theorem Validated.id_ne (h : Validated fs d) : ∀ p ∈ d.setGroups, p.id ≠ "" := by
  intro p hp
  obtain ⟨xs, -, hxs⟩ := h.setGroups
  obtain ⟨x, -, hx⟩ := mapM_mem hxs p hp
  exact groupPatch_id hx

/-! ## One patch -/

variable {k : String}

theorem field_optional_ne {name : String} (h : name ≠ k) (v : Option Json) :
    field k (optional name v) = none := by
  cases v <;> simp [optional, field, h]

theorem field_fields_ne (hn : "name" ≠ k) (hc : "collapsed" ≠ k) (hp : "parentId" ≠ k) :
    field k p.fields.reverse = none := by
  rw [field_eq_none]
  intro f hf he
  rw [mem_reverse] at hf
  have hnone : field k p.fields = none := by
    rw [GroupPatch.fields, field_append, field_append, field_optional_ne hn, field_optional_ne hc,
      field_optional_ne hp]
    rfl
  exact field_eq_none.mp hnone f hf he

theorem field_patchGroup_ne {g : Group} (hn : "name" ≠ k) (hc : "collapsed" ≠ k)
    (hp : "parentId" ≠ k) : field k (patchGroup p g) = field k g := by
  rw [patchGroup, field_mergeFields, field_fields_ne hn hc hp, none_or]

@[simp] theorem groupId_patchGroup (p : GroupPatch) (g : Group) :
    groupId (patchGroup p g) = groupId g := by
  unfold groupId
  rw [field_patchGroup_ne (by decide) (by decide) (by decide)]

@[simp] theorem groupId_createGroup (p : GroupPatch) : groupId (createGroup p) = p.id := rfl

theorem field_parentId_fields (p : GroupPatch) :
    field "parentId" p.fields.reverse = p.parentId.map orNull := by
  obtain ⟨id, name, collapsed, parentId⟩ := p
  cases name <;> cases collapsed <;> cases parentId <;> rfl

theorem parentOf_orNull {g : Group} {p : Option String} (h : field "parentId" g = some (orNull p)) :
    parentOf g = p := by
  unfold parentOf
  rw [h]
  cases p <;> rfl

theorem parentOf_patchGroup (p : GroupPatch) (g : Group) :
    parentOf (patchGroup p g) = p.parentId.getD (parentOf g) := by
  have hfield : field "parentId" (patchGroup p g) =
      (p.parentId.map orNull).or (field "parentId" g) := by
    rw [patchGroup, field_mergeFields, field_parentId_fields]
  cases hp : p.parentId with
  | none =>
    rw [hp, map_none, none_or] at hfield
    unfold parentOf
    rw [hfield, getD_none]
  | some q =>
    rw [hp, map_some, some_or] at hfield
    rw [parentOf_orNull hfield, getD_some]

@[simp] theorem parentOf_createGroup (p : GroupPatch) :
    parentOf (createGroup p) = p.parentId.getD none := parentOf_orNull rfl

theorem patchGroup_createGroup (p : GroupPatch) : patchGroup p (createGroup p) = createGroup p := by
  obtain ⟨id, name, collapsed, parentId⟩ := p
  cases name <;> cases collapsed <;> cases parentId <;> rfl

/-! ## Setting groups -/

/-- A group as a patch leaves it. -/
def patched (p : GroupPatch) (g : Option Group) : Group :=
  (g.map (patchGroup p)).getD (createGroup p)

variable {groups groups' : List Group}

/-- What one round over `setGroups` can do. -/
theorem setGroup_cases (h : setGroup groups p = .ok groups') :
    (p.id ∈ ids groups ∧ groups' = groups.map (patchIn p)) ∨
      (p.id ∉ ids groups ∧ p.name ≠ none ∧ groups' = groups ++ [createGroup p]) := by
  unfold setGroup at h
  split at h
  · rename_i hnone
    split at h
    · cases h
    rename_i hname
    exact .inr ⟨byId_eq_none.mp hnone, hname, (ok.inj h).symm⟩
  · rename_i g hg
    exact .inl ⟨mem_ids.mpr ⟨g, mem_of_byId hg, groupId_of_byId hg⟩, (ok.inj h).symm⟩

@[simp] theorem groupId_patchIn (p : GroupPatch) (g : Group) : groupId (patchIn p g) = groupId g := by
  unfold patchIn
  split <;> simp

theorem ids_patch (p : GroupPatch) (groups : List Group) :
    ids (groups.map (patchIn p)) = ids groups := by
  simp [ids]

theorem mem_ids_setGroup (h : setGroup groups p = .ok groups') (x : String) :
    x ∈ ids groups' ↔ x ∈ ids groups ∨ x = p.id := by
  rcases setGroup_cases h with ⟨hmem, rfl⟩ | ⟨_, _, rfl⟩
  · rw [ids_patch]
    exact ⟨.inl, fun hx => hx.elim id fun he => he ▸ hmem⟩
  · simp [ids]

theorem nodup_setGroup (h : setGroup groups p = .ok groups') (hu : (ids groups).Nodup) :
    (ids groups').Nodup := by
  rcases setGroup_cases h with ⟨_, rfl⟩ | ⟨hnew, _, rfl⟩
  · rwa [ids_patch]
  · have hids : ids (groups ++ [createGroup p]) = ids groups ++ [p.id] := by simp [ids]
    rw [hids]
    exact nodup_append.mpr ⟨hu, nodup_singleton _, fun a ha b hb he =>
      hnew (mem_singleton.mp hb ▸ he ▸ ha)⟩

theorem byId_patch (p : GroupPatch) (groups : List Group) (x : String) :
    byId (groups.map (patchIn p)) x =
      if x = p.id then (byId groups x).map (patchGroup p) else byId groups x := by
  unfold byId
  rw [find?_map]
  have hpred : (fun g => decide (groupId g = x)) ∘ patchIn p = fun g => decide (groupId g = x) := by
    funext g
    simp
  rw [hpred]
  cases hf : groups.find? fun g => decide (groupId g = x) with
  | none => simp
  | some g =>
    have hg : groupId g = x := by simpa using find?_some hf
    by_cases hx : x = p.id <;> simp [patchIn, hg, hx]

theorem byId_setGroup (h : setGroup groups p = .ok groups') (x : String) :
    byId groups' x = if x = p.id then some (patched p (byId groups p.id)) else byId groups x := by
  rcases setGroup_cases h with ⟨hmem, rfl⟩ | ⟨hnew, _, rfl⟩
  · rw [byId_patch]
    split
    · rename_i hx
      cases hg : byId groups p.id with
      | none => exact absurd hmem (byId_eq_none.mp hg)
      | some g => simp [hx, hg, patched]
    · rfl
  · have hnone := byId_eq_none.mpr hnew
    unfold byId at hnone ⊢
    rw [find?_append]
    split
    · rename_i hx
      rw [hx, hnone]
      simp [patched]
    · rename_i hx
      simp [Ne.symm hx]

/-! ## The stage that sets groups -/

/-- The fields that patches set of the group `x`. -/
def fieldsFor (ps : List GroupPatch) (x : String) : Fields :=
  (ps.filter fun p => p.id = x).flatMap GroupPatch.fields

/-- The parent of every group. -/
def parentsOf (groups : List Group) (x : String) : Option String := (byId groups x).bind parentOf

/-- The parent of every group once a patch has been applied. -/
def reparent (parents : String → Option String) (p : GroupPatch) (x : String) : Option String :=
  if x = p.id then p.parentId.getD (parents x) else parents x

theorem fieldsFor_concat (ps : List GroupPatch) (p : GroupPatch) (x : String) :
    fieldsFor (ps ++ [p]) x = fieldsFor ps x ++ if p.id = x then p.fields else [] := by
  unfold fieldsFor
  rw [filter_append, flatMap_append]
  by_cases h : p.id = x <;> simp [h]

variable {x : String}

theorem fieldsFor_of_notMem {ps : List GroupPatch} (h : x ∉ ps.map GroupPatch.id) :
    fieldsFor ps x = [] := by
  unfold fieldsFor
  have hnone : (ps.filter fun p => p.id = x) = [] := by
    rw [filter_eq_nil_iff]
    exact fun p hp he => h (List.mem_map.mpr ⟨p, hp, of_decide_eq_true he⟩)
  rw [hnone, flatMap_nil]

/-- What setting groups makes of the groups before. -/
structure GroupsSet (before : List Group) (ps : List GroupPatch) (after : List Group) : Prop where
  ids : ∀ x, x ∈ ids after ↔ x ∈ ids before ∨ x ∈ ps.map GroupPatch.id
  unique : (Workbench.ids after).Nodup
  others : ∀ x, x ∉ ps.map GroupPatch.id → byId after x = byId before x
  parents : parentsOf after = ps.foldl reparent (parentsOf before)
  settled : ∀ g ∈ after, mergeFields g (fieldsFor ps (groupId g)) = g

theorem parentsOf_setGroup (h : setGroup groups p = .ok groups') :
    parentsOf groups' = reparent (parentsOf groups) p := by
  funext x
  unfold reparent parentsOf
  rw [byId_setGroup h x]
  split
  · rename_i hx
    rw [hx, bind_some]
    cases byId groups p.id with
    | none => simp [patched]
    | some g => simp [patched, parentOf_patchGroup]
  · rfl

/-- A group that the patches so far leave alone is left alone by them and the next one, once
    that one has been applied. -/
theorem settled_setGroup (h : setGroup groups p = .ok groups') {ps : List GroupPatch}
    (hsettled : ∀ g ∈ groups, mergeFields g (fieldsFor ps (groupId g)) = g)
    (hids : ∀ x ∈ ps.map GroupPatch.id, x ∈ ids groups) :
    ∀ g ∈ groups', mergeFields g (fieldsFor (ps ++ [p]) (groupId g)) = g := by
  have hother : ∀ g ∈ groups, groupId g ≠ p.id →
      mergeFields g (fieldsFor (ps ++ [p]) (groupId g)) = g := by
    intro g hg hne
    rw [fieldsFor_concat, if_neg (Ne.symm hne), append_nil]
    exact hsettled g hg
  rcases setGroup_cases h with ⟨_, rfl⟩ | ⟨hnew, _, rfl⟩
  · intro g' hg'
    obtain ⟨g, hg, rfl⟩ := List.mem_map.mp hg'
    rw [groupId_patchIn]
    by_cases hgp : groupId g = p.id
    · have hpatch : patchGroup p g = mergeFields g (fieldsFor ps p.id ++ p.fields) := by
        rw [mergeFields_append, ← hgp, hsettled g hg]
        rfl
      rw [patchIn, if_pos hgp, hgp, fieldsFor_concat, if_pos rfl, hpatch]
      exact mergeFields_again g _
    · rw [patchIn, if_neg hgp]
      exact hother g hg hgp
  · intro g hg
    rcases mem_append.mp hg with hg | hg
    · exact hother g hg fun he => hnew (he ▸ mem_ids.mpr ⟨g, hg, rfl⟩)
    · obtain rfl := mem_singleton.mp hg
      rw [groupId_createGroup, fieldsFor_concat, if_pos rfl,
        fieldsFor_of_notMem fun hmem => hnew (hids _ hmem), nil_append]
      exact patchGroup_createGroup p

variable {after before : List Group}

theorem setGroups_spec {ps : List GroupPatch} (hu : (ids before).Nodup)
    (h : ps.foldlM setGroup before = .ok after) : GroupsSet before ps after := by
  refine foldlM_prefix (Q := GroupsSet before) ?_ h ⟨by simp, hu, fun _ _ => rfl, rfl, ?_⟩
  · intro done groups p groups' hdone hp
    refine ⟨fun x => ?_, nodup_setGroup hp hdone.unique, fun x hx => ?_, ?_, ?_⟩
    · rw [mem_ids_setGroup hp, hdone.ids x, map_append, mem_append, map_singleton,
        mem_singleton, or_assoc]
    · rw [map_append, mem_append, map_singleton, mem_singleton, not_or] at hx
      rw [byId_setGroup hp x, if_neg hx.2, hdone.others x hx.1]
    · rw [foldl_append, foldl_cons, foldl_nil, ← hdone.parents]
      exact parentsOf_setGroup hp
    · exact settled_setGroup hp hdone.settled fun x hx => (hdone.ids x).mpr (.inr hx)
  · exact fun g _ => rfl

theorem mergeFields_concat_patch (ps : List GroupPatch) (p : GroupPatch) (g : Group) :
    mergeFields g (fieldsFor (ps ++ [p]) (groupId g)) =
      if groupId g = p.id then patchGroup p (mergeFields g (fieldsFor ps (groupId g)))
      else mergeFields g (fieldsFor ps (groupId g)) := by
  rw [fieldsFor_concat, mergeFields_append]
  by_cases h : p.id = groupId g
  · rw [if_pos h, if_pos h.symm, patchGroup]
  rw [if_neg h, if_neg (Ne.symm h)]
  rfl

theorem foldl_patchIn (ps : List GroupPatch) (g : Group) :
    ps.foldl (fun g p => patchIn p g) g = mergeFields g (fieldsFor ps (groupId g)) := by
  suffices h : ps.foldl (fun g p => patchIn p g) g = mergeFields g (fieldsFor ps (groupId g)) ∧
      groupId (mergeFields g (fieldsFor ps (groupId g))) = groupId g from h.1
  induction ps using List.reverseRecOn with
  | nil => exact ⟨rfl, rfl⟩
  | append_singleton ps p ih =>
    obtain ⟨hfold, hid⟩ := ih
    have hstep : patchIn p (mergeFields g (fieldsFor ps (groupId g))) =
        mergeFields g (fieldsFor (ps ++ [p]) (groupId g)) := by
      rw [mergeFields_concat_patch, patchIn, hid]
    rw [foldl_append, foldl_cons, foldl_nil, hfold, hstep]
    exact ⟨rfl, by rw [← hstep, groupId_patchIn, hid]⟩

theorem setGroups_of_settled {ps : List GroupPatch} (hids : ∀ p ∈ ps, p.id ∈ ids groups)
    (hsettled : ∀ g ∈ groups, mergeFields g (fieldsFor ps (groupId g)) = g) :
    ps.foldlM setGroup groups = .ok groups := by
  have hround : ∀ (s : List Group) (p : GroupPatch), p ∈ ps → ids s = ids groups →
      setGroup s p = .ok (s.map (patchIn p)) ∧ ids (s.map (patchIn p)) = ids groups := by
    intro s p hp hs
    refine ⟨?_, by rw [ids_patch, hs]⟩
    unfold setGroup
    cases hg : byId s p.id with
    | none => exact absurd (hs ▸ hids p hp) (byId_eq_none.mp hg)
    | some g => rfl
  have hmap : ∀ (qs : List GroupPatch) (s : List Group),
      qs.foldl (fun s p => s.map (patchIn p)) s = s.map fun g => qs.foldl (fun g p => patchIn p g) g := by
    intro qs
    induction qs with
    | nil => exact fun s => (List.map_id' s).symm
    | cons q qs ih =>
      intro s
      rw [foldl_cons, ih, List.map_map]
      rfl
  rw [foldlM_pure hround rfl, hmap]
  refine congrArg ok ((map_congr_left fun g hg => ?_).trans (List.map_id' groups))
  rw [foldl_patchIn, hsettled g hg]

/-! ## The stage that removes groups -/

theorem linked_links (hu : (ids groups).Nodup) {a b : String} :
    Linked (links groups) a b ↔ a ∈ ids groups ∧ parentsOf groups b = some a := by
  have hlink : Linked (links groups) a b ↔
      ∃ g ∈ groups, (parentOf g = some a ∧ a ∈ ids groups) ∧ groupId g = b := by
    simp [Linked, links, filter_eq_some_iff]
  rw [hlink, parentsOf]
  constructor
  · rintro ⟨g, hg, ⟨hp, ha⟩, rfl⟩
    rw [byId_of_mem hu hg, bind_some]
    exact ⟨ha, hp⟩
  · rintro ⟨ha, hp⟩
    obtain ⟨g, hg, hp⟩ := bind_eq_some_iff.mp hp
    exact ⟨g, mem_of_byId hg, ⟨hp, ha⟩, groupId_of_byId hg⟩

variable {roots : List String}

theorem mem_descendants :
    x ∈ descendants groups roots ↔
      ∃ s ∈ roots, Relation.ReflTransGen (Linked (links groups)) s x :=
  mem_spread (Nat.le_refl _)

theorem mem_descendants_root (h : x ∈ roots) :
    x ∈ descendants groups roots := mem_descendants.mpr ⟨x, h, .refl⟩

/-- Roots that are not there have no descendants but themselves. -/
theorem descendants_of_absent (hu : (ids groups).Nodup) (h : ∀ s ∈ roots, s ∉ ids groups) :
    x ∈ descendants groups roots ↔ x ∈ roots := by
  rw [mem_descendants]
  constructor
  · rintro ⟨s, hs, hsx⟩
    rcases Relation.ReflTransGen.cases_head hsx with rfl | ⟨b, hsb, -⟩
    · exact hs
    · exact absurd ((linked_links hu).mp hsb).1 (h s hs)
  · exact fun hx => ⟨x, hx, .refl⟩

/-- The parent of every group as a delta leaves it. -/
def parentsAfter (groups : List Group) (d : Delta) : String → Option String :=
  d.setGroups.foldl reparent (parentsOf groups)

/-- `x` is `s` or lies below it, by the parents as a delta leaves them, where a parent counts
    that the document has or the delta sets. -/
def Below (groups : List Group) (d : Delta) : String → String → Prop :=
  Relation.ReflTransGen fun a b =>
    (a ∈ ids groups ∨ a ∈ d.setGroups.map GroupPatch.id) ∧ parentsAfter groups d b = some a

variable {gids : List String}

theorem mem_cascade (h : GroupsSet before d.setGroups after) :
    x ∈ descendants after gids ↔ ∃ s ∈ gids, Below before d s x := by
  have hlinks : Linked (links after) = fun a b =>
      (a ∈ ids before ∨ a ∈ d.setGroups.map GroupPatch.id) ∧ parentsAfter before d b = some a := by
    funext a b
    rw [linked_links h.unique, h.ids a, h.parents]
    rfl
  rw [mem_descendants, hlinks]
  rfl

/-- The groups that a removal keeps. -/
def kept (groups : List Group) (gids : List String) : List Group :=
  groups.filter fun g => groupId g ∉ descendants groups gids

theorem mem_ids_kept :
    x ∈ ids (kept groups gids) ↔ x ∈ ids groups ∧ x ∉ descendants groups gids := by
  simp only [kept, mem_ids, mem_filter, decide_eq_true_eq]
  constructor
  · rintro ⟨g, ⟨hg, hout⟩, rfl⟩
    exact ⟨⟨g, hg, rfl⟩, hout⟩
  · rintro ⟨⟨g, hg, rfl⟩, hout⟩
    exact ⟨g, ⟨hg, hout⟩, rfl⟩

theorem nodup_kept (hu : (ids groups).Nodup) (gids : List String) :
    (ids (kept groups gids)).Nodup := hu.sublist (filter_sublist.map groupId)

theorem byId_kept (h : x ∉ descendants groups gids) :
    byId (kept groups gids) x = byId groups x := by
  unfold byId kept
  rw [find?_filter]
  refine congrArg (fun p => List.find? p groups) (funext fun g => ?_)
  by_cases hg : groupId g = x <;> simp [hg, h]

theorem kept_of_absent (hu : (ids groups).Nodup) (h : ∀ s ∈ gids, s ∉ ids groups) :
    kept groups gids = groups := by
  refine filter_eq_self.mpr fun g hg => decide_eq_true fun hmem => ?_
  exact h _ ((descendants_of_absent hu h).mp hmem) (mem_ids.mpr ⟨g, hg, rfl⟩)

/-! ## The stage that puts layers into groups -/

/-- The group that the last entry for a layer names. -/
def lastGroup (ms : List (String × String)) (lid : String) : Option String :=
  (ms.reverse.find? fun m => m.1 = lid).map Prod.snd

/-- Layers are put into groups one after another. -/
def setMemberships (ms : List (String × String)) (membership : Dict String String) :
    Dict String String := ms.foldl (fun d m => d.set m.1 m.2) membership

variable {ms : List (String × String)}

theorem setMemberships_ok {membership membership' : Dict String String} :
    ms.foldlM (setMembership groups) membership = .ok membership' ↔
      (∀ m ∈ ms, m.2 ∈ ids groups) ∧
        membership' = setMemberships ms membership := by
  unfold setMemberships
  induction ms generalizing membership with
  | nil =>
    show ok membership = ok membership' ↔ _
    simp [eq_comm]
  | cons m ms ih =>
    rw [foldlM_cons, bind_eq_ok]
    constructor
    · rintro ⟨d, hd, h⟩
      unfold setMembership at hd
      split at hd
      · rename_i hm
        obtain ⟨hall, rfl⟩ := ih.mp h
        obtain rfl := ok.inj hd
        exact ⟨forall_mem_cons.mpr ⟨hm, hall⟩, rfl⟩
      · cases hd
    · rintro ⟨hall, rfl⟩
      obtain ⟨hm, hall⟩ := forall_mem_cons.mp hall
      exact ⟨membership.set m.1 m.2, if_pos hm, ih.mpr ⟨hall, rfl⟩⟩

theorem lastGroup_mem {lid gid : String} (h : lastGroup ms lid = some gid) : (lid, gid) ∈ ms := by
  obtain ⟨m, hm, rfl⟩ := map_eq_some_iff.mp h
  have hlid : m.1 = lid := by simpa using find?_some hm
  rw [← hlid]
  exact mem_reverse.mp (mem_of_find?_eq_some hm)

theorem lastGroup_eq_none {lid : String} : lastGroup ms lid = none ↔ lid ∉ ms.map Prod.fst := by
  simp only [lastGroup, map_eq_none_iff, find?_eq_none, mem_reverse,
    decide_eq_true_eq, List.mem_map, not_exists, not_and]

theorem find_setMemberships (ms : List (String × String)) (membership : Dict String String)
    (lid : String) :
    (setMemberships ms membership).find lid = (lastGroup ms lid).or (membership.find lid) :=
  Dict.find_foldl_set ms membership lid

theorem find_cleared (ms : List (String × String)) (membership : Dict String String)
    (cleared : List String) (lid : String) :
    Dict.find (Table.delete (setMemberships ms membership) fun m => m.1 ∈ cleared) lid =
      if lid ∈ cleared then none else (lastGroup ms lid).or (membership.find lid) := by
  rw [Dict.find_delete, find_setMemberships]
  cases (lastGroup ms lid).or (membership.find lid) with
  | none => simp
  | some gid => by_cases h : lid ∈ cleared <;> simp [h, Option.filter]

/-! ## The stage of the locks -/

/-- The two loops over locks. -/
def relock (removed locked adds : List String) : List String :=
  adds.foldl (addLock removed) (locked.foldl (addLock removed) [])

theorem foldl_addLock (removed : List String) (xs acc : List String) (hn : acc.Nodup)
    (hr : ∀ x ∈ acc, x ∉ removed) :
    (xs.foldl (addLock removed) acc).Nodup ∧
      ∀ x, x ∈ xs.foldl (addLock removed) acc ↔ x ∈ acc ∨ (x ∈ xs ∧ x ∉ removed) := by
  induction xs generalizing acc with
  | nil => exact ⟨hn, by simp⟩
  | cons y xs ih =>
    rw [foldl_cons]
    unfold addLock
    split
    · rename_i hskip
      obtain ⟨hn', hmem⟩ := ih acc hn hr
      refine ⟨hn', fun x => (hmem x).trans ?_⟩
      rw [mem_cons]
      constructor
      · rintro (hx | ⟨hx, hxr⟩)
        · exact .inl hx
        · exact .inr ⟨.inr hx, hxr⟩
      · rintro (hx | ⟨rfl | hx, hxr⟩)
        · exact .inl hx
        · exact .inl (hskip.resolve_left hxr)
        · exact .inr ⟨hx, hxr⟩
    · rename_i hnew
      rw [not_or] at hnew
      have hn1 : (acc ++ [y]).Nodup := nodup_append.mpr ⟨hn, nodup_singleton y,
        fun a ha b hb he => hnew.2 (mem_singleton.mp hb ▸ he ▸ ha)⟩
      have hr1 : ∀ x ∈ acc ++ [y], x ∉ removed := by
        intro x hx
        rcases mem_append.mp hx with hx | hx
        · exact hr x hx
        · exact mem_singleton.mp hx ▸ hnew.1
      obtain ⟨hn', hmem⟩ := ih (acc ++ [y]) hn1 hr1
      refine ⟨hn', fun x => (hmem x).trans ?_⟩
      rw [mem_append, mem_singleton, mem_cons]
      constructor
      · rintro ((hx | rfl) | ⟨hx, hxr⟩)
        · exact .inl hx
        · exact .inr ⟨.inl rfl, hnew.1⟩
        · exact .inr ⟨.inr hx, hxr⟩
      · rintro (hx | ⟨rfl | hx, hxr⟩)
        · exact .inl (.inl hx)
        · exact .inl (.inr rfl)
        · exact .inr ⟨hx, hxr⟩

variable {removed : List String}

theorem mem_relock {locked adds : List String} :
    x ∈ relock removed locked adds ↔ (x ∈ locked ∨ x ∈ adds) ∧ x ∉ removed := by
  obtain ⟨hn, hmem⟩ := foldl_addLock removed locked [] nodup_nil (by simp)
  rw [relock, (foldl_addLock removed adds _ hn fun y hy =>
    (((hmem y).mp hy).resolve_left not_mem_nil).2).2,
    hmem]
  simp only [not_mem_nil, false_or]
  tauto

variable {xs acc : List String}

theorem foldl_addLock_of_mem (h : ∀ x ∈ xs, x ∈ removed ∨ x ∈ acc) :
    xs.foldl (addLock removed) acc = acc := by
  induction xs with
  | nil => rfl
  | cons y xs ih =>
    obtain ⟨hy, hxs⟩ := forall_mem_cons.mp h
    rw [foldl_cons, addLock, if_pos hy, ih hxs]

theorem foldl_addLock_of_nodup (hn : (acc ++ xs).Nodup) (hr : ∀ x ∈ xs, x ∉ removed) :
    xs.foldl (addLock removed) acc = acc ++ xs := by
  induction xs generalizing acc with
  | nil => exact (append_nil acc).symm
  | cons y xs ih =>
    obtain ⟨hy, hxs⟩ := forall_mem_cons.mp hr
    have hnew : y ∉ acc := fun hacc =>
      (nodup_append.mp hn).2.2 y hacc y mem_cons_self rfl
    have hn' : (acc ++ [y] ++ xs).Nodup := by rwa [append_assoc, singleton_append]
    rw [foldl_cons, addLock, if_neg (by tauto), ih hn' hxs, append_assoc,
      singleton_append]

theorem relock_again (removed locked adds : List String) :
    relock removed (relock removed locked adds) adds = relock removed locked adds := by
  have hfirst := foldl_addLock removed locked [] nodup_nil (by simp)
  have hn : (relock removed locked adds).Nodup :=
    (foldl_addLock removed adds _ hfirst.1 fun y hy =>
      (((hfirst.2 y).mp hy).resolve_left not_mem_nil).2).1
  have hlocked : (relock removed locked adds).foldl (addLock removed) [] =
      relock removed locked adds :=
    foldl_addLock_of_nodup hn fun x hx => (mem_relock.mp hx).2
  show adds.foldl (addLock removed) ((relock removed locked adds).foldl (addLock removed) []) = _
  rw [hlocked]
  refine foldl_addLock_of_mem fun x hx => ?_
  by_cases hr : x ∈ removed
  · exact .inl hr
  · exact .inr (mem_relock.mpr ⟨.inr hx, hr⟩)

/-! ## All stages -/

theorem notMem_of_collisions (hc : d.collisions = []) {s : String} (hs : s ∈ d.removeGroupIds) :
    s ∉ d.setGroups.map GroupPatch.id := by
  intro hmem
  have hcoll : s ∈ d.collisions := mem_filter.mpr ⟨hs, decide_eq_true hmem⟩
  rw [hc] at hcoll
  exact not_mem_nil hcoll

variable {ps : Parts}

/-- What `applyParts` makes of its parts. -/
theorem applyParts_ok {ps' : Parts} :
    applyParts ps d = .ok ps' ↔
      ∃ groups, d.setGroups.foldlM setGroup ps.groups = .ok groups ∧ d.collisions = [] ∧
        (∀ m ∈ d.membershipSet, m.2 ∈ ids (kept groups d.removeGroupIds)) ∧
        ps' =
          { groups := kept groups d.removeGroupIds
            membership := (setMemberships d.membershipSet
              (ps.membership.delete fun m => m.2 ∈ descendants groups d.removeGroupIds)).delete
                fun m => m.1 ∈ d.cleared
            locked := relock d.locksRemove ps.locked d.locksAdd } := by
  unfold applyParts
  rw [bind_eq_ok]
  refine exists_congr fun groups => and_congr Iff.rfl ?_
  rw [bind_eq_ok]
  constructor
  · rintro ⟨u, hu, h⟩
    obtain ⟨membership, hm, h⟩ := bind_eq_ok.mp h
    obtain ⟨hall, rfl⟩ := setMemberships_ok.mp hm
    refine ⟨?_, hall, (ok.inj h).symm⟩
    by_contra hc
    simp [refuse, hc] at hu
  · rintro ⟨hc, hall, rfl⟩
    refine ⟨(), if_neg (not_not.mpr hc), ?_⟩
    exact bind_eq_ok.mpr ⟨_, setMemberships_ok.mpr ⟨hall, rfl⟩, rfl⟩

theorem named_of_applied {ps' : Parts} (hu : (ids ps.groups).Nodup) (h : applyParts ps d = .ok ps')
    (hps : ∀ g ∈ ps.groups, groupId g ≠ "") (hd : ∀ p ∈ d.setGroups, p.id ≠ "") :
    ∀ g ∈ ps'.groups, groupId g ≠ "" := by
  obtain ⟨after, hset, -, -, rfl⟩ := applyParts_ok.mp h
  intro g hg
  have hmem : groupId g ∈ ids after := mem_ids.mpr ⟨g, (mem_filter.mp hg).1, rfl⟩
  rcases ((setGroups_spec hu hset).ids _).mp hmem with hold | hnew
  · obtain ⟨g', hg', he⟩ := mem_ids.mp hold
    exact he ▸ hps g' hg'
  · obtain ⟨p, hp, he⟩ := List.mem_map.mp hnew
    exact he ▸ hd p hp

/-! ## Documents and their parts -/

theorem readParts_writeParts (base : Fields) (h : ∀ g ∈ ps.groups, groupId g ≠ "") :
    readParts (writeParts base ps) = .ok ps := by
  have hgroups : readGroups (writeParts base ps) = .ok ps.groups := by
    have hfield : field "groups" (writeParts base ps) = some (.arr (ps.groups.map Json.obj)) := rfl
    rw [readGroups, hfield]
    dsimp only
    rw [mapM_groupEntry.mpr ⟨rfl, h⟩]
  have hmembership : readMembership (writeParts base ps) = .ok ps.membership := by
    have hfield : field "membership" (writeParts base ps) =
        some (.obj (ps.membership.items.map fun m => (m.1, Json.str m.2))) := rfl
    have hpairs : (ps.membership.items.map fun m => (m.1, Json.str m.2)).mapM pairOf =
        some ps.membership.items :=
      mapM_some (fun (m : String × String) => (m.1, Json.str m.2)) (fun _ => rfl) _
    rw [readMembership, hfield]
    dsimp only
    rw [hpairs]
    exact congrArg ok (Dict.ofList_items ps.membership)
  have hlocked : readLocked (writeParts base ps) = .ok ps.locked := by
    have hfield : field "lockedLayerIds" (writeParts base ps) =
        some (.arr (ps.locked.map Json.str)) := rfl
    have htexts : (ps.locked.map Json.str).mapM textOf = some ps.locked :=
      mapM_some Json.str (fun _ => rfl) _
    rw [readLocked, hfield]
    dsimp only
    rw [htexts]
  unfold readParts
  rw [hgroups, hmembership, hlocked]
  rfl

theorem applyDelta_ok {r : Fields} :
    applyDelta (some fs) d = .ok r ↔
      ∃ ps ps', readParts fs = .ok ps ∧ applyParts ps d = .ok ps' ∧ r = writeParts fs ps' := by
  unfold applyDelta
  simp only [getD_some, bind_eq_ok, ok.injEq]
  constructor
  · rintro ⟨ps, hps, ps', hps', rfl⟩
    exact ⟨ps, ps', hps, hps', rfl⟩
  · rintro ⟨ps, ps', hps, hps', rfl⟩
    exact ⟨ps, hps, ps', hps', rfl⟩

theorem readGroups_of_accepted (h : Accepted R fs) (hg : readGroups fs = .ok groups) :
    field "groups" fs = some (.arr (groups.map Json.obj)) ∧ Forest groups := by
  obtain ⟨groups', hfield, hforest⟩ := h.groups
  unfold readGroups at hg
  rw [hfield] at hg
  dsimp only at hg
  rw [mapM_groupEntry.mpr ⟨rfl, hforest.named⟩] at hg
  obtain rfl := ok.inj hg
  exact ⟨hfield, hforest⟩

theorem readParts_ok :
    readParts fs = .ok ps ↔ readGroups fs = .ok ps.groups ∧
      readMembership fs = .ok ps.membership ∧ readLocked fs = .ok ps.locked := by
  unfold readParts
  simp only [bind_eq_ok, ok.injEq]
  constructor
  · rintro ⟨groups, hg, membership, hm, locked, hl, rfl⟩
    exact ⟨hg, hm, hl⟩
  · rintro ⟨hg, hm, hl⟩
    exact ⟨_, hg, _, hm, _, hl, rfl⟩

def groupsIn (fs : Fields) : List Group := ((readGroups fs).toOption).getD []

def membershipIn (fs : Fields) : Dict String String :=
  ((readMembership fs).toOption).getD Dict.empty

theorem groupsIn_of_parts (h : readParts fs = .ok ps) : groupsIn fs = ps.groups := by
  rw [groupsIn, (readParts_ok.mp h).1]
  rfl

theorem membershipIn_of_parts (h : readParts fs = .ok ps) : membershipIn fs = ps.membership := by
  rw [membershipIn, (readParts_ok.mp h).2.1]
  rfl

theorem forest_of_accepted (h : Accepted R fs) (hps : readParts fs = .ok ps) : Forest ps.groups :=
  (readGroups_of_accepted h (readParts_ok.mp hps).1).2

end WebGis.Workbench
