/-
  The client's stages beside the server's.

  `Mirrors o groups` says that the client's object holds the server's list of groups, in the order
  of its keys. Setting groups keeps that (`setGroups_agree`), and so does taking them out; what
  is removed is the same set (`removedGroups_ok`). The names that were sent are carried beside
  the clipped ones by `Renamed`.
-/
import WebGis.Workbench.Mirror

namespace WebGis.Workbench

open Data Data.Json List Option Dict

/-! ## The object of the groups -/

/-- The properties of the groups, in the order in which the groups came in. -/
def entered (groups : List Group) : List (String × Group) := groups.map fun g => (groupId g, g)

/-- The object holds the groups, in the order of its keys. -/
def Mirrors (o : Dict String Group) (groups : List Group) : Prop :=
  o.items = Dict.arrange indexBefore (entered groups)

theorem entered_ids (groups : List Group) : (entered groups).map Prod.fst = ids groups := by
  rw [entered, List.map_map]
  rfl

variable {g : Group} {groups : List Group} {k : String}

theorem mem_entered : (k, g) ∈ entered groups ↔ g ∈ groups ∧ groupId g = k := by
  simp [entered]

variable {o : Dict String Group}

section

variable (h : Mirrors o groups)
include h

theorem Mirrors.perm : o.items.Perm (entered groups) := by
  rw [show o.items = _ from h]
  exact arrange_perm indexBefore _

theorem Mirrors.keys : k ∈ o.keys ↔ k ∈ ids groups := by
  rw [← entered_ids]
  exact (h.perm.map Prod.fst).mem_iff

theorem Mirrors.unique : (ids groups).Nodup := by
  rw [← entered_ids]
  exact (h.perm.map Prod.fst).nodup_iff.mp o.unique

theorem Mirrors.find (k : String) : o.find k = byId groups k := by
  apply Option.ext
  intro g
  rw [find_eq_some, h.perm.mem_iff, mem_entered]
  constructor
  · rintro ⟨hg, rfl⟩
    exact byId_of_mem h.unique hg
  · exact fun hg => ⟨mem_of_byId hg, groupId_of_byId hg⟩

end

theorem mirrors_empty : Mirrors Dict.empty [] := rfl

theorem Mirrors.append (h : Mirrors o groups) (hg : groupId g ∉ ids groups) :
    Mirrors (o.setOwn indexBefore (groupId g) g) (groups ++ [g]) := by
  have hnew : groupId g ∉ o.keys := fun hmem => hg (h.keys.mp hmem)
  unfold Mirrors
  rw [items_setOwn_new g hnew, show o.items = _ from h, ← arrange_concat, entered,
    entered, map_append]
  rfl

variable {p : GroupPatch}

section

variable (h : Mirrors o groups)
include h

theorem Mirrors.patch (hg : byId groups p.id = some g) :
    Mirrors (o.setOwn indexBefore p.id (patchGroup p g)) (groups.map (patchIn p)) := by
  have hmem : p.id ∈ o.keys := h.keys.mpr (mem_ids.mpr ⟨g, mem_of_byId hg, groupId_of_byId hg⟩)
  unfold Mirrors
  rw [items_setOwn_mem _ hmem, show o.items = _ from h]
  rw [map_arrange indexBefore (by intro kv; split <;> simp_all)]
  refine congrArg (Dict.arrange indexBefore) ?_
  rw [entered, entered, List.map_map, List.map_map]
  refine map_congr_left fun g' hg' => ?_
  dsimp only [Function.comp]
  rw [groupId_patchIn, patchIn]
  split
  · rename_i he
    have hsame : g' = g := some.inj ((byId_of_mem h.unique hg').symm.trans (he ▸ hg))
    rw [hsame, ← he, hsame]
  · rfl

theorem Mirrors.filter (p : String → Bool) :
    Mirrors (Table.delete o fun kv => p kv.1) (groups.filter fun g => !p (groupId g)) := by
  have hrows : Dict.items (Table.delete o fun kv => p kv.1) = o.items.filter fun kv => !p kv.1 := rfl
  unfold Mirrors
  rw [hrows, show o.items = _ from h, filter_arrange before_indexBefore, entered, entered,
    List.filter_map]
  rfl

theorem Mirrors.values_of_inOrder (ho : Dict.InOrder indexBefore (ids groups)) : o.items.map Prod.snd = groups := by
  rw [show o.items = _ from h, arrange_of_inOrder (by rwa [entered_ids]), entered,
    List.map_map]
  exact List.map_id groups

theorem Mirrors.inOrder :
    Dict.InOrder indexBefore (ids (o.items.map Prod.snd)) := by
  have hids : ids (o.items.map Prod.snd) = o.items.map Prod.fst := by
    rw [ids, List.map_map]
    refine map_congr_left fun kv hkv => ?_
    exact (mem_entered.mp (h.perm.mem_iff.mp hkv)).2
  rw [hids, show o.items = _ from h]
  exact inOrder_arrange before_indexBefore _

end

theorem groupsByIdOf_ok (hu : (ids groups).Nodup) (hp : "__proto__" ∉ ids groups) :
    ∃ o, groupsByIdOf groups = .ok o ∧ Mirrors o groups := by
  unfold groupsByIdOf
  induction groups using List.reverseRecOn with
  | nil => exact ⟨_, rfl, mirrors_empty⟩
  | append_singleton groups g ih =>
    rw [ids, map_append, map_singleton] at hu hp
    obtain ⟨hu, -, hnew⟩ := nodup_append.mp hu
    rw [mem_append, not_or, mem_singleton] at hp
    obtain ⟨o, ho, hm⟩ := ih hu hp.1
    refine ⟨o.setOwn indexBefore (groupId g) g, ?_, hm.append fun hmem =>
      hnew _ hmem _ mem_cons_self rfl⟩
    rw [foldlM_append, ho]
    show putGroup o g >>= pure = _
    rw [putGroup, if_neg (Ne.symm hp.2)]
    rfl

/-! ## Setting groups on both sides -/

/-- What the client throws for an error of its own or of the values it is given. -/
def Rejects (t : Thrown) : Prop := t ≠ .inherited

theorem setGroupOf_agrees (h : Mirrors o groups) (hp : p.id ∈ prototypeNames → p.id ∈ ids groups)
    (hn : p.name ≠ some "") :
    Agree (fun t (_ : DeltaError) => Rejects t) Mirrors (setGroupOf o p) (setGroup groups p) := by
  unfold setGroupOf setGroup
  rw [h.find]
  cases hg : byId groups p.id with
  | some g => exact h.patch hg
  | none =>
    have hnew : p.id ∉ ids groups := byId_eq_none.mp hg
    rw [if_neg fun hmem => hnew (hp hmem)]
    by_cases hname : p.name = none
    · rw [if_pos hname, if_pos (.inl hname)]
      exact fun he => by cases he
    · rw [if_neg hname, if_neg (not_or.mpr ⟨hname, hn⟩)]
      exact h.append (g := createGroup p) hnew

theorem ids_setGroup_mono {groups' : List Group} (h : setGroup groups p = .ok groups') {x : String}
    (hx : x ∈ ids groups) : x ∈ ids groups' :=
  (mem_ids_setGroup h x).mpr (.inl hx)

theorem setGroups_agree (h : Mirrors o groups) {qs : List GroupPatch}
    (hp : ∀ q ∈ qs, q.id ∈ prototypeNames → q.id ∈ ids groups) (hn : ∀ q ∈ qs, q.name ≠ some "") :
    Agree (fun t (_ : DeltaError) => Rejects t) Mirrors (qs.foldlM setGroupOf o)
      (qs.foldlM setGroup groups) := by
  have hrun : Agree (fun t (_ : DeltaError) => Rejects t)
      (fun o gs => Mirrors o gs ∧ ∀ x ∈ ids groups, x ∈ ids gs) (qs.foldlM setGroupOf o)
      ((qs.map id).foldlM setGroup groups) := by
    refine Agree.foldlM (Q := fun _ o gs => Mirrors o gs ∧ ∀ x ∈ ids groups, x ∈ ids gs) ?_
      ⟨h, fun _ hx => hx⟩
    rintro done q o gs hq ⟨hm, hids⟩
    exact (setGroupOf_agrees hm (fun hmem => hids _ (hp q hq hmem)) (hn q hq)).imp
      (fun _ _ he => he) fun o' gs' _ hgs' hm' =>
        ⟨hm', fun x hx => ids_setGroup_mono hgs' (hids x hx)⟩
  rw [List.map_id] at hrun
  exact hrun.imp (fun _ _ he => he) fun _ _ _ _ hQ => hQ.1

/-! ## Names -/

/-- The name that patches give to a group in the end. -/
def lastName (ps : List GroupPatch) (x : String) : Option String :=
  ps.reverse.findSome? fun p => if p.id = x then p.name else none

theorem lastName_concat (ps : List GroupPatch) (p : GroupPatch) (x : String) :
    lastName (ps ++ [p]) x = (if p.id = x then p.name else none).or (lastName ps x) := by
  rw [lastName, reverse_append, reverse_singleton, singleton_append, findSome?_cons]
  cases (if p.id = x then p.name else none) <;> rfl

/-- A group and what it is with clipped names: all fields are the same, but for a name that was
    set. -/
structure Renamed (ps : List GroupPatch) (g g' : Group) : Prop where
  id : groupId g = groupId g'
  fields : ∀ k, k ≠ "name" → field k g = field k g'
  name : match lastName ps (groupId g') with
    | some n => field "name" g = some (.str n) ∧ field "name" g' = some (.str (clip 200 n))
    | none => field "name" g = field "name" g'

theorem field_clipped_ne (h : k ≠ "name") :
    field k p.clipped.fields.reverse = field k p.fields.reverse := by
  obtain ⟨id, name, collapsed, parentId⟩ := p
  cases name <;> cases collapsed <;> cases parentId <;>
    simp [GroupPatch.clipped, GroupPatch.fields, optional, field_cons, Ne.symm h]

theorem field_name_fields (p : GroupPatch) :
    field "name" p.fields.reverse = p.name.map Json.str := by
  obtain ⟨id, name, collapsed, parentId⟩ := p
  cases name <;> cases collapsed <;> cases parentId <;> rfl

variable {ps : List GroupPatch} {g' : Group}

theorem Renamed.patch (h : Renamed ps g g') (p : GroupPatch) :
    Renamed (ps ++ [p]) (patchIn p g) (patchIn p.clipped g') := by
  have hid : p.clipped.id = p.id := rfl
  refine ⟨by rw [groupId_patchIn, groupId_patchIn, h.id], fun k hk => ?_, ?_⟩
  · unfold patchIn
    rw [h.id, hid]
    split
    · rw [patchGroup, patchGroup, field_mergeFields, field_mergeFields, field_clipped_ne hk,
        h.fields k hk]
    · exact h.fields k hk
  · have hname := h.name
    rw [groupId_patchIn, lastName_concat]
    unfold patchIn
    rw [h.id, hid]
    by_cases he : p.id = groupId g'
    · rw [if_pos he, if_pos he.symm, if_pos he.symm, patchGroup, patchGroup, field_mergeFields,
        field_mergeFields, field_name_fields, field_name_fields]
      cases hn : p.name with
      | some n => simp [GroupPatch.clipped, hn]
      | none => simpa [GroupPatch.clipped, hn] using hname
    · rw [if_neg he, if_neg (Ne.symm he), if_neg (Ne.symm he), none_or]
      exact hname

theorem renamed_createGroup (hn : p.name ≠ none) :
    Renamed (ps ++ [p]) (createGroup p) (createGroup p.clipped) := by
  obtain ⟨n, hname⟩ := ne_none_iff_exists'.mp hn
  refine ⟨rfl, fun k hk => ?_, ?_⟩
  · simp [createGroup, GroupPatch.clipped, field_cons, Ne.symm hk]
  · have hid : p.clipped.id = p.id := rfl
    rw [groupId_createGroup, hid, lastName_concat, if_pos rfl, hname]
    simp [createGroup, GroupPatch.clipped, field, hname]

theorem Renamed.of_ne (h : Renamed ps g g') (hp : p.id ≠ groupId g') :
    Renamed (ps ++ [p]) g g' := by
  refine ⟨h.id, h.fields, ?_⟩
  rw [lastName_concat, if_neg hp, none_or]
  exact h.name

variable {gs gs' : List Group}

theorem ids_of_renamed (h : List.Forall₂ (Renamed ps) gs gs') : ids gs = ids gs' := by
  induction h with
  | nil => rfl
  | cons hg _ ih => rw [ids, map_cons, hg.id]; exact congrArg (_ :: ·) ih

theorem renamed_of_new (h : List.Forall₂ (Renamed ps) gs gs') (hp : p.id ∉ ids gs') :
    List.Forall₂ (Renamed (ps ++ [p])) gs gs' := by
  induction h with
  | nil => exact .nil
  | cons hg _ ih =>
    rw [ids, map_cons, mem_cons, not_or] at hp
    exact .cons (hg.of_ne hp.1) (ih hp.2)

/-- Clipping the names changes nothing but names. -/
theorem setGroups_renamed (groups : List Group) (qs : List GroupPatch) :
    Agree (fun (_ _ : DeltaError) => True) (List.Forall₂ (Renamed qs)) (qs.foldlM setGroup groups)
      ((qs.map GroupPatch.clipped).foldlM setGroup groups) := by
  refine Agree.foldlM (Q := fun done => List.Forall₂ (Renamed done)) ?_ ?_
  · intro done q gs gs' _ h
    have hids := ids_of_renamed h
    have hq : q.clipped.id = q.id := rfl
    unfold setGroup
    rw [hq]
    cases hg : byId gs q.id with
    | some g =>
      have hmem : q.id ∈ ids gs' :=
        hids ▸ mem_ids.mpr ⟨g, mem_of_byId hg, groupId_of_byId hg⟩
      cases hg' : byId gs' q.id with
      | none => exact absurd hmem (byId_eq_none.mp hg')
      | some g' =>
        exact forall₂_map_left_iff.mpr (forall₂_map_right_iff.mpr (h.imp fun _ _ hr => hr.patch q))
    | none =>
      have hnew : q.id ∉ ids gs' := hids ▸ byId_eq_none.mp hg
      rw [byId_eq_none.mpr hnew]
      by_cases hname : q.name = none
      · rw [if_pos hname, if_pos (by rw [GroupPatch.clipped, hname]; rfl)]
        exact trivial
      · rw [if_neg hname, if_neg (by simpa [GroupPatch.clipped] using hname)]
        exact rel_append (renamed_of_new h hnew)
          (.cons (renamed_createGroup hname) .nil)
  · exact forall₂_same.mpr fun g _ => ⟨rfl, fun _ _ => rfl, rfl⟩

/-! ## Removing groups on both sides -/

theorem Renamed.parentOf (h : Renamed ps g g') : parentOf g = parentOf g' := by
  unfold Workbench.parentOf
  rw [h.fields "parentId" (by decide)]

theorem links_of_renamed (h : List.Forall₂ (Renamed ps) gs gs') : links gs = links gs' := by
  unfold links
  rw [ids_of_renamed h]
  generalize ids gs' = known
  induction h with
  | nil => rfl
  | cons hg _ ih => rw [filterMap_cons, filterMap_cons, hg.parentOf, hg.id, ih]

theorem linked_childrenOf (h : Mirrors o groups) {a b : String} :
    Linked (childrenOf o) a b ↔ Linked (links groups) a b := by
  simp only [Linked, childrenOf, links, mem_filterMap, map_eq_some_iff, filter_eq_some_iff,
    decide_eq_true_eq, Prod.mk.injEq, h.perm.mem_iff, Prod.exists, mem_entered, h.keys]
  constructor
  · rintro ⟨k, g, ⟨hg, rfl⟩, p, hp, rfl, rfl⟩
    exact ⟨g, hg, p, hp, rfl, rfl⟩
  · rintro ⟨g, hg, p, hp, rfl, rfl⟩
    exact ⟨groupId g, g, ⟨hg, rfl⟩, p, hp, rfl, rfl⟩

theorem removedGroups_rejects (o : Dict String Group) (removeIds : List String) {t : Thrown}
    (h : removedGroups o removeIds = .error t) : Rejects t := by
  unfold removedGroups descendantsOf at h
  dsimp only at h
  split at h
  · cases h
  split at h
  · cases h
    exact fun he => by cases he
  · split at h
    · cases h
      exact fun he => by cases he
    · cases h

theorem removedGroups_ok (h : Mirrors o groups) (removeIds : List String)
    (hparents : removeIds ≠ [] → ∀ g ∈ groups, ∀ p, parentOf g = some p → p ∉ prototypeNames)
    (hout : ∀ x ∈ descendants groups removeIds, x ∉ prototypeNames) :
    ∃ removed, removedGroups o removeIds = .ok removed ∧
      ∀ x, x ∈ removed ↔ x ∈ descendants groups removeIds := by
  unfold removedGroups
  by_cases hr : removeIds = []
  · refine ⟨[], if_pos hr, fun x => ?_⟩
    rw [hr, mem_descendants]
    simp
  · rw [if_neg hr]
    have hmem : ∀ x, x ∈ spread (childrenOf o) (removeIds.length + (childrenOf o).length) removeIds []
        ↔ x ∈ descendants groups removeIds := by
      intro x
      have hlinked : Linked (childrenOf o) = Linked (links groups) := by
        funext a b
        exact propext (linked_childrenOf h)
      rw [mem_spread (Nat.le_refl _), mem_descendants, hlinked]
    have hnone : ¬ (o.items.any fun kv => (parentOf kv.2).any (· ∈ prototypeNames)) := by
      simp only [List.any_eq_true, Option.any_eq_true, decide_eq_true_eq, not_exists, not_and]
      intro kv hkv p hp
      exact hparents hr kv.2 (mem_entered.mp (h.perm.mem_iff.mp hkv)).1 p hp
    unfold descendantsOf
    rw [if_neg hnone]
    refine ⟨_, if_neg ?_, hmem⟩
    simp only [List.any_eq_true, decide_eq_true_eq, not_exists, not_and]
    exact fun x hx => hout x ((hmem x).mp hx)

/-! ## The membership on both sides -/

/-- The client's membership is the server's, but for a layer that no object takes in. -/
def SameLayers (m m' : Dict String String) : Prop :=
  ∀ lid, m.find lid = if lid = "__proto__" then none else m'.find lid

theorem find_putLayer (m : Dict String String) (lid gid x : String) :
    (putLayer m lid gid).find x =
      if lid = x ∧ lid ≠ "__proto__" then some gid else m.find x := by
  unfold putLayer
  by_cases hp : lid = "__proto__"
  · simp [hp]
  rw [if_neg hp, find_setOwn]
  by_cases hx : lid = x
  · rw [if_pos hx, if_pos ⟨hx, hp⟩]
  · rw [if_neg hx, if_neg fun he => hx he.1]

variable {m m' : Dict String String}

theorem SameLayers.put (h : SameLayers m m') (lid gid : String) :
    SameLayers (putLayer m lid gid) (m'.set lid gid) := by
  intro x
  rw [find_putLayer, find_set, h x]
  by_cases hx : lid = x
  · subst hx
    by_cases hp : lid = "__proto__"
    · simp [hp]
    · simp [hp]
  · simp [hx]

theorem sameLayers_keepMembership {removed cascade : List String}
    (h : ∀ x, x ∈ removed ↔ x ∈ cascade) (m : Dict String String) :
    SameLayers (keepMembership removed m.items) (m.delete fun kv => kv.2 ∈ cascade) := by
  have hfold : ∀ (kvs : List (String × String)) (d e : Dict String String), SameLayers d e →
      SameLayers (kvs.foldl (fun d kv => if kv.2 ∈ removed then d else putLayer d kv.1 kv.2) d)
        ((kvs.filter fun kv => !decide (kv.2 ∈ cascade)).foldl (fun d kv => d.set kv.1 kv.2) e) := by
    intro kvs
    induction kvs with
    | nil => exact fun d e hde => hde
    | cons kv kvs ih =>
      intro d e hde
      rw [foldl_cons, filter_cons]
      by_cases hr : kv.2 ∈ removed
      · simpa [hr, (h kv.2).mp hr] using ih d e hde
      have hc : kv.2 ∉ cascade := fun hc => hr ((h kv.2).mpr hc)
      simpa [hr, hc] using ih _ _ (hde.put kv.1 kv.2)
  have hempty : SameLayers Dict.empty Dict.empty := fun lid => by simp
  have hitems := ofList_items (m.delete fun kv => kv.2 ∈ cascade)
  have hall := hfold m.items Dict.empty Dict.empty hempty
  rw [← hitems]
  exact hall

theorem setMemberships_agree (h : Mirrors o groups) {ms : List (String × String)}
    (hp : ∀ m ∈ ms, m.2 ∈ prototypeNames → m.2 ∈ ids groups) (hm : SameLayers m m') :
    Agree (fun t (_ : DeltaError) => Rejects t) SameLayers (ms.foldlM (setMembershipOf o) m)
      (ms.foldlM (setMembership groups) m') := by
  have hrun : Agree (fun t (_ : DeltaError) => Rejects t) SameLayers
      (ms.foldlM (setMembershipOf o) m) ((ms.map id).foldlM (setMembership groups) m') := by
    refine Agree.foldlM (Q := fun _ => SameLayers) ?_ hm
    intro done e d d' he hd
    unfold setMembershipOf setMembership
    by_cases hmem : e.2 ∈ ids groups
    · rw [if_pos (.inl (h.keys.mpr hmem)), id, if_pos hmem]
      exact hd.put e.1 e.2
    · rw [if_neg (not_or.mpr ⟨fun hk => hmem (h.keys.mp hk), fun hpn => hmem (hp e he hpn)⟩), id,
        if_neg hmem]
      exact fun he => by cases he
  rwa [List.map_id] at hrun

/-! ## The locks on both sides -/

theorem relock_eq (removed locked adds : List String) :
    ((locked ++ adds).foldl addTo []).filter (· ∉ removed) = relock removed locked adds := by
  have hfold : ∀ xs acc : List String,
      (xs.foldl addTo acc).filter (· ∉ removed) =
        xs.foldl (addLock removed) (acc.filter (· ∉ removed)) := by
    intro xs
    induction xs with
    | nil => exact fun acc => rfl
    | cons x xs ih =>
      intro acc
      rw [foldl_cons, foldl_cons, ih]
      refine congrArg (fun a => xs.foldl (addLock removed) a) ?_
      unfold addTo addLock
      by_cases hr : x ∈ removed
      · by_cases ha : x ∈ acc <;> simp [hr, ha]
      · by_cases ha : x ∈ acc <;> simp [hr, ha]
  rw [hfold, relock, foldl_append]
  rfl

end WebGis.Workbench
