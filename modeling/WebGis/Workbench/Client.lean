/-
  Documents and deltas as the client's types have them, and `applyWorkbenchDelta` on them.

  A delta leads from one document to another when its patches, removals and entries all say
  what the other document has and leave nothing of it out (`Leads`). Then applying it gives that
  document (`apply_of_leads`): a removal takes no group away that the other document has,
  because the parents of its groups are its own.
-/
import WebGis.Workbench.Mirrored

namespace WebGis.Workbench.Client

open Data List Dict Prod
open Option hiding or_assoc

structure WorkbenchGroupNode where
  id : String
  name : String
  collapsed : Bool
  parentId : Option String
  deriving DecidableEq

/-- A `WorkbenchDocV5`. -/
structure Doc where
  groups : List WorkbenchGroupNode
  membership : Dict String String
  lockedLayerIds : List String
  mode : String

def Doc.ids (doc : Doc) : List String := doc.groups.map WorkbenchGroupNode.id

/-! ## `applyWorkbenchDelta` -/

abbrev GroupsById : Type := Dict String WorkbenchGroupNode

/-- `map[g.id] = { ...g }` -/
def putNode (o : GroupsById) (g : WorkbenchGroupNode) : Except Thrown GroupsById :=
  if g.id = "__proto__" then .error .inherited else .ok (o.setOwn indexBefore g.id g)

/-- `groupsByIdOf(doc)` -/
def groupsByIdOf (doc : Doc) : Except Thrown GroupsById := doc.groups.foldlM putNode Dict.empty

def createNode (patch : GroupPatch) : WorkbenchGroupNode where
  id := patch.id
  name := patch.name.getD ""
  collapsed := patch.collapsed.getD false
  parentId := patch.parentId.getD none

def patchNode (patch : GroupPatch) (existing : WorkbenchGroupNode) : WorkbenchGroupNode :=
  { existing with
    name := patch.name.getD existing.name
    collapsed := patch.collapsed.getD existing.collapsed
    parentId := patch.parentId.getD existing.parentId }

/-- One round of the loop over `setGroups`. -/
def setNode (o : GroupsById) (patch : GroupPatch) : Except Thrown GroupsById :=
  match o.find patch.id with
  | some existing => .ok (o.setOwn indexBefore patch.id (patchNode patch existing))
  | none =>
    if patch.id ∈ prototypeNames then .error .inherited
    else if patch.name = none ∨ patch.name = some "" then .error (.delta (.missingGroup patch.id))
    else .ok (o.setOwn indexBefore patch.id (createNode patch))

/-- The pairs that `children` holds. -/
def childrenOf (o : GroupsById) : List (String × String) :=
  o.items.filterMap fun kv => (kv.2.parentId.filter (· ∈ o.keys)).map fun p => (p, kv.1)

/-- `descendantsOf(groupsById, roots)` -/
def descendantsOf (o : GroupsById) (roots : List String) : Except Thrown (List String) :=
  if o.items.any fun kv => kv.2.parentId.any (· ∈ prototypeNames) then .error .type
  else
    let out := spread (childrenOf o) (roots.length + (childrenOf o).length) roots []
    if out.any (· ∈ prototypeNames) then .error .type else .ok out

def removedGroups (o : GroupsById) (removeIds : List String) : Except Thrown (List String) :=
  if removeIds = [] then .ok [] else descendantsOf o removeIds

/-- One round of the loop over `membershipSet`. -/
def setLayer (o : GroupsById) (membership : Dict String String) (m : String × String) :
    Except Thrown (Dict String String) :=
  if m.2 ∈ o.keys ∨ m.2 ∈ prototypeNames then .ok (putLayer membership m.1 m.2)
  else .error (.delta (.missingTarget m.2))

/-- The document that is returned. -/
def written (doc : Doc) (delta : Delta) (o : GroupsById) (membership : Dict String String) : Doc where
  groups := o.items.map snd
  membership := membership.delete fun m =>
    m.1 ∈ delta.membershipClear ∧ m.1 ∉ delta.membershipSet.map fst
  lockedLayerIds :=
    ((doc.lockedLayerIds ++ delta.locksAdd).foldl addTo []).filter (· ∉ delta.locksRemove)
  mode := doc.mode

/-- `applyWorkbenchDelta(doc, delta)` -/
def applyWorkbenchDelta (doc : Doc) (delta : Delta) : Except Thrown Doc := do
  let o ← groupsByIdOf doc
  let o ← delta.setGroups.foldlM setNode o
  collide delta.removeGroupIds delta.setGroups
  let removed ← removedGroups o delta.removeGroupIds
  let o : GroupsById := Table.delete o fun kv => kv.1 ∈ removed
  let membership ← delta.membershipSet.foldlM (setLayer o)
    (keepMembership removed doc.membership.items)
  .ok (written doc delta o membership)

/-! ## Documents -/

/-- The ids are unique, and parents and groups of layers are there. -/
structure Valid (doc : Doc) : Prop where
  unique : doc.ids.Nodup
  parents : ∀ g ∈ doc.groups, ∀ p, g.parentId = some p → p ∈ doc.ids
  members : ∀ layerId groupId, doc.membership.find layerId = some groupId → groupId ∈ doc.ids

/-- No id is the name of a property that every object has. -/
structure PlainIds (doc : Doc) : Prop where
  groups : ∀ x ∈ doc.ids, x ∉ prototypeNames
  layers : ∀ layerId ∈ doc.membership.keys, layerId ∉ prototypeNames

/-- The same groups by their ids, the same membership, the same set of locks. -/
structure SameOrg (doc doc' : Doc) : Prop where
  groups : doc.groups.Perm doc'.groups
  membership : ∀ layerId, doc.membership.find layerId = doc'.membership.find layerId
  locks : ∀ layerId, layerId ∈ doc.lockedLayerIds ↔ layerId ∈ doc'.lockedLayerIds

theorem Doc.mem_ids {doc : Doc} {x : String} : x ∈ doc.ids ↔ ∃ g ∈ doc.groups, g.id = x :=
  List.mem_map

variable {g : WorkbenchGroupNode}

theorem Doc.id_mem {doc : Doc} (h : g ∈ doc.groups) : g.id ∈ doc.ids :=
  List.mem_map_of_mem h

theorem Valid.eq_of_id {doc : Doc} (h : Valid doc) {g' : WorkbenchGroupNode} (hg : g ∈ doc.groups)
    (hg' : g' ∈ doc.groups) (he : g.id = g'.id) : g = g' :=
  inj_on_of_nodup_map h.unique hg hg' he

theorem Valid.groups_nodup {doc : Doc} (h : Valid doc) : doc.groups.Nodup :=
  List.Nodup.of_map _ h.unique

/-! ## The stages -/

/-- The object has the groups of a document under their ids. -/
def Lists (o : GroupsById) (groups : List WorkbenchGroupNode) : Prop :=
  ∀ x g, o.find x = some g ↔ g ∈ groups ∧ g.id = x

theorem groupsByIdOf_ok {doc : Doc} (hu : doc.ids.Nodup) (hp : "__proto__" ∉ doc.ids) :
    ∃ o, groupsByIdOf doc = .ok o ∧ Lists o doc.groups := by
  obtain ⟨groups, membership, locks, mode⟩ := doc
  unfold groupsByIdOf Doc.ids at *
  induction groups using List.reverseRecOn with
  | nil => exact ⟨Dict.empty, rfl, fun x g => by simp⟩
  | append_singleton groups g ih =>
    rw [map_append, map_singleton] at hu hp
    obtain ⟨hu, -, hnew⟩ := nodup_append.mp hu
    rw [mem_append, not_or, mem_singleton] at hp
    obtain ⟨o, ho, hlists⟩ := ih hu hp.1
    refine ⟨o.setOwn indexBefore g.id g, ?_, fun x g' => ?_⟩
    · rw [foldlM_append, ho]
      show putNode o g >>= pure = _
      rw [putNode, if_neg (Ne.symm hp.2)]
      rfl
    · rw [find_setOwn, mem_append, mem_singleton]
      by_cases hx : g.id = x
      · rw [if_pos hx, some_inj]
        constructor
        · rintro rfl
          exact ⟨.inr rfl, hx⟩
        · rintro ⟨hg' | rfl, hid⟩
          · exact absurd (hid.trans hx.symm)
              (hnew _ (List.mem_map_of_mem hg') _ (mem_singleton_self _))
          · rfl
      · rw [if_neg hx, hlists x g']
        constructor
        · rintro ⟨hg', hid⟩
          exact ⟨.inl hg', hid⟩
        · rintro ⟨hg' | rfl, hid⟩
          · exact ⟨hg', hid⟩
          · exact absurd hid hx

/-- A group as a patch leaves it. -/
def patchedNode (patch : GroupPatch) (g : Option WorkbenchGroupNode) : WorkbenchGroupNode :=
  (g.map (patchNode patch)).getD (createNode patch)

/-- A patch that may create the group that it names. -/
def Named (patch : GroupPatch) : Prop :=
  patch.id ∉ prototypeNames ∧ patch.name ≠ none ∧ patch.name ≠ some ""

variable {o : GroupsById}

theorem setNode_named {patch : GroupPatch} (h : o.find patch.id = none → Named patch) :
    setNode o patch =
      .ok (o.setOwn indexBefore patch.id (patchedNode patch (o.find patch.id))) := by
  unfold setNode
  cases hf : o.find patch.id with
  | some existing => rfl
  | none =>
    obtain ⟨hproto, hnone, hempty⟩ := h hf
    rw [if_neg hproto, if_neg (not_or.mpr ⟨hnone, hempty⟩)]
    rfl

/-- Patches that all say what `target` is leave it there, and nothing else changes. -/
theorem setNodes_target {patches : List GroupPatch} (target : String → WorkbenchGroupNode)
    (hnew : ∀ p ∈ patches, o.find p.id = none → Named p)
    (hfirst : ∀ p ∈ patches, patchedNode p (o.find p.id) = target p.id)
    (hagain : ∀ p ∈ patches, patchNode p (target p.id) = target p.id) :
    ∃ o', patches.foldlM setNode o = .ok o' ∧ ∀ x,
      o'.find x = if x ∈ patches.map GroupPatch.id then some (target x) else o.find x := by
  induction patches using List.reverseRecOn with
  | nil => exact ⟨o, rfl, fun x => rfl⟩
  | append_singleton patches p ih =>
    obtain ⟨o', ho', hfind⟩ := ih (fun q hq => hnew q (mem_append_left _ hq))
      (fun q hq => hfirst q (mem_append_left _ hq))
      fun q hq => hagain q (mem_append_left _ hq)
    have hp : p ∈ patches ++ [p] := mem_append_right _ (mem_singleton_self p)
    have hset : patchedNode p (o'.find p.id) = target p.id := by
      rw [hfind]
      by_cases hin : p.id ∈ patches.map GroupPatch.id
      · rw [if_pos hin]
        exact hagain p hp
      · rw [if_neg hin]
        exact hfirst p hp
    have hnamed : o'.find p.id = none → Named p := by
      rw [hfind]
      intro hnone
      by_cases hin : p.id ∈ patches.map GroupPatch.id
      · rw [if_pos hin] at hnone
        cases hnone
      · rw [if_neg hin] at hnone
        exact hnew p hp hnone
    refine ⟨o'.setOwn indexBefore p.id (target p.id), ?_, fun x => ?_⟩
    · rw [foldlM_append, ho']
      show setNode o' p >>= pure = _
      rw [setNode_named hnamed, hset]
      rfl
    · have hmem : x ∈ (patches ++ [p]).map GroupPatch.id ↔
          x ∈ patches.map GroupPatch.id ∨ x = p.id := by
        rw [map_append, map_singleton, mem_append, mem_singleton]
      rw [find_setOwn, hfind]
      by_cases hx : p.id = x
      · rw [if_pos hx, if_pos (hmem.mpr (.inr hx.symm)), hx]
      rw [if_neg hx]
      by_cases hin : x ∈ patches.map GroupPatch.id
      · rw [if_pos hin, if_pos (hmem.mpr (.inl hin))]
      · rw [if_neg hin, if_neg fun h => (hmem.mp h).elim hin (Ne.symm hx)]

/-- No group that stays has one for its parent that goes. -/
def Closed (o : GroupsById) (gone : List String) : Prop :=
  ∀ x g, o.find x = some g → ∀ p ∈ gone, g.parentId = some p → x ∈ gone

theorem spread_closed {gone : List String} (h : Closed o gone) (x : String) :
    x ∈ spread (childrenOf o) (gone.length + (childrenOf o).length) gone [] ↔ x ∈ gone := by
  rw [mem_spread (Nat.le_refl _)]
  constructor
  · rintro ⟨s, hs, hsx⟩
    induction hsx with
    | refl => exact hs
    | tail _ hab ih =>
      obtain ⟨⟨k, g⟩, hkv, hpair⟩ := mem_filterMap.mp hab
      obtain ⟨p, hp, he⟩ := map_eq_some_iff.mp hpair
      obtain ⟨rfl, rfl⟩ := Prod.mk.inj he
      exact h k g (find_eq_some.mpr hkv) p ih (filter_eq_some_iff.mp hp).1
  · exact fun hx => ⟨x, hx, .refl⟩

theorem removedGroups_closed {removeIds : List String}
    (hparents : ∀ x g, o.find x = some g → ∀ p, g.parentId = some p → p ∉ prototypeNames)
    (hremove : ∀ x ∈ removeIds, x ∉ prototypeNames) (hclosed : Closed o removeIds) :
    ∃ removed, removedGroups o removeIds = .ok removed ∧ ∀ x, x ∈ removed ↔ x ∈ removeIds := by
  unfold removedGroups
  by_cases hr : removeIds = []
  · exact ⟨[], if_pos hr, fun x => by rw [hr]⟩
  rw [if_neg hr]
  have hnone : ¬ (o.items.any fun kv => kv.2.parentId.any (· ∈ prototypeNames)) := by
    simp only [List.any_eq_true, Option.any_eq_true, decide_eq_true_eq, not_exists, not_and]
    exact fun kv hkv p hp => hparents kv.1 kv.2 (find_eq_some.mpr hkv) p hp
  unfold descendantsOf
  rw [if_neg hnone]
  refine ⟨_, if_neg ?_, spread_closed hclosed⟩
  simp only [List.any_eq_true, decide_eq_true_eq, not_exists, not_and]
  exact fun x hx => hremove x ((spread_closed hclosed x).mp hx)

/-- Entries that all say what `target` is put their layers there, and no other layer changes. -/
theorem setLayers_target {entries : List (String × String)} (target : String → Option String)
    (hkeys : ∀ m ∈ entries, m.2 ∈ o.keys) (hplain : ∀ m ∈ entries, m.1 ≠ "__proto__")
    (htarget : ∀ m ∈ entries, target m.1 = some m.2) (membership : Dict String String) :
    ∃ membership', entries.foldlM (setLayer o) membership = .ok membership' ∧ ∀ x,
      membership'.find x = if x ∈ entries.map fst then target x else membership.find x := by
  induction entries using List.reverseRecOn with
  | nil => exact ⟨membership, rfl, fun x => rfl⟩
  | append_singleton entries m ih =>
    obtain ⟨d, hd, hfind⟩ := ih (fun e he => hkeys e (mem_append_left _ he))
      (fun e he => hplain e (mem_append_left _ he))
      fun e he => htarget e (mem_append_left _ he)
    have hm : m ∈ entries ++ [m] := mem_append_right _ (mem_singleton_self m)
    refine ⟨putLayer d m.1 m.2, ?_, fun x => ?_⟩
    · rw [foldlM_append, hd]
      show setLayer o d m >>= pure = _
      rw [setLayer, if_pos (.inl (hkeys m hm))]
      rfl
    · have hmem : x ∈ (entries ++ [m]).map fst ↔ x ∈ entries.map fst ∨ x = m.1 := by
        rw [map_append, map_singleton, mem_append, mem_singleton]
      rw [find_putLayer, hfind]
      by_cases hx : m.1 = x
      · rw [if_pos ⟨hx, hplain m hm⟩, if_pos (hmem.mpr (.inr hx.symm)), ← hx, htarget m hm]
      rw [if_neg fun h => hx h.1]
      by_cases hin : x ∈ entries.map fst
      · rw [if_pos hin, if_pos (hmem.mpr (.inl hin))]
      · rw [if_neg hin, if_neg fun h => (hmem.mp h).elim hin (Ne.symm hx)]

variable {layerId : String}

theorem find_keepMembership (removed : List String) (m : Dict String String)
    (h : layerId ≠ "__proto__") :
    (keepMembership removed m.items).find layerId =
      (m.find layerId).filter fun groupId => groupId ∉ removed := by
  rw [sameLayers_keepMembership (fun _ => Iff.rfl) m layerId, if_neg h, Dict.find_delete]
  exact congrArg (fun p => Option.filter p (m.find layerId)) (funext fun v => by simp)

theorem keepMembership_none (removed : List String) {m : Dict String String}
    (h : m.find layerId = none) : (keepMembership removed m.items).find layerId = none := by
  rw [sameLayers_keepMembership (fun _ => Iff.rfl) m layerId, Dict.find_delete, h,
    filter_none, ite_self]

theorem mem_foldl_addTo (xs acc : List String) (x : String) :
    x ∈ xs.foldl addTo acc ↔ x ∈ acc ∨ x ∈ xs := by
  induction xs generalizing acc with
  | nil => simp
  | cons y xs ih =>
    rw [foldl_cons, ih, mem_cons]
    unfold addTo
    by_cases hy : y ∈ acc
    · rw [if_pos hy]
      exact ⟨fun h => h.imp id .inr, fun h => h.elim .inl fun h =>
        h.elim (fun he => .inl (he ▸ hy)) .inr⟩
    · rw [if_neg hy, mem_append, mem_singleton, or_assoc]

/-! ## Deltas that lead from one document to another -/

/-- The delta says of `target` what `doc` does not have, and nothing that `target` is not. -/
structure Leads (doc : Doc) (delta : Delta) (target : Doc) : Prop where
  patch : ∀ p ∈ delta.setGroups, ∃ g ∈ target.groups, g.id = p.id ∧ patchNode p g = g ∧
    (∀ prev ∈ doc.groups, prev.id = p.id → patchNode p prev = g) ∧
      (p.id ∉ doc.ids → createNode p = g ∧ Named p)
  cover : ∀ g ∈ target.groups, g ∈ doc.groups ∨ g.id ∈ delta.setGroups.map GroupPatch.id
  remove : ∀ x, x ∈ delta.removeGroupIds ↔ x ∈ doc.ids ∧ x ∉ target.ids
  put : ∀ m ∈ delta.membershipSet, target.membership.find m.1 = some m.2
  putAll : ∀ layerId groupId, target.membership.find layerId = some groupId →
    layerId ∈ delta.membershipSet.map fst ∨ doc.membership.find layerId = some groupId
  clear : ∀ layerId ∈ delta.membershipClear, target.membership.find layerId = none
  clearAll : ∀ layerId ∈ doc.membership.keys, target.membership.find layerId = none →
    layerId ∈ delta.membershipClear
  locks : ∀ layerId, layerId ∈ target.lockedLayerIds ↔
    (layerId ∈ doc.lockedLayerIds ∨ layerId ∈ delta.locksAdd) ∧ layerId ∉ delta.locksRemove

theorem bind_ok {α β : Type} {x : Except Thrown α} {a : α} (h : x = .ok a)
    (f : α → Except Thrown β) : x >>= f = f a := by
  rw [h]
  rfl

section Leading

variable {doc target : Doc} {delta : Delta} (hdoc : Valid doc) (htarget : Valid target)
  (h : Leads doc delta target)

include hdoc htarget h

theorem setGroups_of_leads {o : GroupsById} (hlists : Lists o doc.groups) :
    ∃ o', delta.setGroups.foldlM setNode o = .ok o' ∧ ∀ x g, o'.find x = some g ↔
      (g ∈ target.groups ∧ g.id = x) ∨ (g ∈ doc.groups ∧ g.id = x ∧ x ∉ target.ids) := by
  have hsome : ∀ x, ∃ g, ∀ g' ∈ target.groups, g'.id = x → g = g' := by
    intro x
    by_cases hx : x ∈ target.ids
    · obtain ⟨g, hg, hid⟩ := Doc.mem_ids.mp hx
      exact ⟨g, fun g' hg' he => htarget.eq_of_id hg hg' (hid.trans he.symm)⟩
    · exact ⟨⟨x, "", false, none⟩, fun g' hg' he => absurd (he ▸ Doc.id_mem hg') hx⟩
  choose goal hgoals using hsome
  have hgoal : ∀ g ∈ target.groups, goal g.id = g := fun g hg => hgoals g.id g hg rfl
  have hfind : ∀ p : GroupPatch, o.find p.id = none → p.id ∉ doc.ids := by
    rintro p hnone hin
    obtain ⟨prev, hprev, hid⟩ := Doc.mem_ids.mp hin
    rw [(hlists p.id prev).mpr ⟨hprev, hid⟩] at hnone
    cases hnone
  obtain ⟨o', ho', hafter⟩ := setNodes_target (o := o) goal
    (fun p hp hnone => by
      obtain ⟨g, -, -, -, -, hnew⟩ := h.patch p hp
      exact (hnew (hfind p hnone)).2)
    (fun p hp => by
      obtain ⟨g, hg, hid, -, hold, hnew⟩ := h.patch p hp
      rw [← hid, hgoal g hg, hid]
      cases hprev : o.find p.id with
      | none => exact (hnew (hfind p hprev)).1
      | some prev =>
        obtain ⟨hin, he⟩ := (hlists p.id prev).mp hprev
        exact hold prev hin he)
    fun p hp => by
      obtain ⟨g, hg, hid, hagain, -⟩ := h.patch p hp
      rw [← hid, hgoal g hg]
      exact hagain
  refine ⟨o', ho', fun x g => ?_⟩
  rw [hafter]
  by_cases hx : x ∈ delta.setGroups.map GroupPatch.id
  · obtain ⟨p, hp, rfl⟩ := List.mem_map.mp hx
    obtain ⟨g', hg', hid, -⟩ := h.patch p hp
    rw [if_pos hx, some_inj, ← hid, hgoal g' hg']
    constructor
    · rintro rfl
      exact .inl ⟨hg', rfl⟩
    · rintro (⟨hg, he⟩ | ⟨-, -, hnot⟩)
      · exact htarget.eq_of_id hg' hg he.symm
      · exact absurd (Doc.id_mem hg') hnot
  · rw [if_neg hx, hlists]
    have hkept : ∀ g' ∈ target.groups, g'.id = x → g' ∈ doc.groups := fun g' hg' hid =>
      (h.cover g' hg').resolve_right fun hin => hx (hid ▸ hin)
    constructor
    · rintro ⟨hg, hid⟩
      by_cases hin : x ∈ target.ids
      · obtain ⟨g', hg', hid'⟩ := Doc.mem_ids.mp hin
        obtain rfl : g = g' := hdoc.eq_of_id hg (hkept g' hg' hid') (hid.trans hid'.symm)
        exact .inl ⟨hg', hid⟩
      · exact .inr ⟨hg, hid, hin⟩
    · rintro (⟨hg, hid⟩ | ⟨hg, hid, -⟩)
      · exact ⟨hkept g hg hid, hid⟩
      · exact ⟨hg, hid⟩

variable (hplain : PlainIds doc) (hplain' : PlainIds target)

include hplain hplain'

theorem apply_of_leads :
    ∃ result, applyWorkbenchDelta doc delta = .ok result ∧ SameOrg result target := by
  have hproto : "__proto__" ∈ prototypeNames := by decide
  obtain ⟨o, ho, hlists⟩ := groupsByIdOf_ok hdoc.unique
    fun hin => hplain.groups _ hin hproto
  obtain ⟨o', ho', hset⟩ := setGroups_of_leads hdoc htarget h hlists
  have hcollide : collide delta.removeGroupIds delta.setGroups = .ok () := by
    unfold collide
    rw [find?_eq_none.mpr fun p hp hin => ?_]
    obtain ⟨g, hg, hid, -⟩ := h.patch p hp
    have hout := ((h.remove p.id).mp (of_decide_eq_true hin)).2
    exact hout (hid ▸ Doc.id_mem hg)
  obtain ⟨removed, hremoved, hmem⟩ : ∃ removed,
      removedGroups o' delta.removeGroupIds = .ok removed ∧
        ∀ x, x ∈ removed ↔ x ∈ delta.removeGroupIds := removedGroups_closed
    (fun x g hg p hp => by
      rcases (hset x g).mp hg with ⟨hg, -⟩ | ⟨hg, -, -⟩
      · exact hplain'.groups p (htarget.parents g hg p hp)
      · exact hplain.groups p (hdoc.parents g hg p hp))
    (fun x hx => hplain.groups x ((h.remove x).mp hx).1)
    fun x g hg p hremove hp => by
      rcases (hset x g).mp hg with ⟨hg, -⟩ | ⟨hg, hid, hout⟩
      · exact absurd (htarget.parents g hg p hp) ((h.remove p).mp hremove).2
      · exact (h.remove x).mpr ⟨hid ▸ Doc.id_mem hg, hout⟩
  have hkept : Lists (Table.delete o' fun kv => kv.1 ∈ removed) target.groups := by
    intro x g
    rw [Dict.find_delete, filter_eq_some_iff, hset]
    constructor
    · rintro ⟨⟨hg, hid⟩ | ⟨hg, hid, hout⟩, hnot⟩
      · exact ⟨hg, hid⟩
      · have hin : x ∈ removed := (hmem x).mpr ((h.remove x).mpr ⟨hid ▸ Doc.id_mem hg, hout⟩)
        simp [hin] at hnot
    · rintro ⟨hg, hid⟩
      have hnot : x ∉ removed := fun hin =>
        ((h.remove x).mp ((hmem x).mp hin)).2 (hid ▸ Doc.id_mem hg)
      exact ⟨.inl ⟨hg, hid⟩, by simpa using hnot⟩
  have hlayers : ∀ m ∈ delta.membershipSet, m.1 ∉ prototypeNames := fun m hm =>
    hplain'.layers m.1 (mem_keys_iff.mpr ⟨m.2, h.put m hm⟩)
  obtain ⟨membership, hm, hfind⟩ := setLayers_target
    (o := Table.delete o' fun kv => kv.1 ∈ removed) target.membership.find
    (fun m hm => by
      obtain ⟨g, hg, hid⟩ := Doc.mem_ids.mp (htarget.members m.1 m.2 (h.put m hm))
      exact mem_keys_iff.mpr ⟨g, (hkept m.2 g).mpr ⟨hg, hid⟩⟩)
    (fun m hm he => hlayers m hm (he ▸ hproto)) h.put
    (keepMembership removed doc.membership.items)
  refine ⟨written doc delta (Table.delete o' fun kv => kv.1 ∈ removed) membership, ?_, ?_,
    fun layerId => ?_, fun layerId => ?_⟩
  · unfold applyWorkbenchDelta
    rw [bind_ok ho, bind_ok ho', bind_ok hcollide, bind_ok hremoved]
    exact bind_ok hm _
  · -- the values of the object are the groups of the target
    refine (perm_ext_iff_of_nodup ?_ htarget.groups_nodup).mpr fun g => ?_
    · refine List.Nodup.map_on (fun a ha b hb he => ?_) (List.Nodup.of_map fst (Table.unique _))
      have hida := ((hkept a.1 a.2).mp (find_eq_some.mpr ha)).2
      have hidb := ((hkept b.1 b.2).mp (find_eq_some.mpr hb)).2
      exact Prod.ext (hida.symm.trans ((congrArg WorkbenchGroupNode.id he).trans hidb)) he
    · unfold written
      rw [List.mem_map]
      constructor
      · rintro ⟨kv, hkv, rfl⟩
        exact ((hkept kv.1 kv.2).mp (find_eq_some.mpr hkv)).1
      · intro hg
        exact ⟨(g.id, g), find_eq_some.mp ((hkept g.id g).mpr ⟨hg, rfl⟩), rfl⟩
  · unfold written
    rw [Dict.find_delete, hfind]
    by_cases hset : layerId ∈ delta.membershipSet.map fst
    · obtain ⟨m, hm, rfl⟩ := List.mem_map.mp hset
      rw [if_pos hset, h.put m hm]
      simp [hset]
    · rw [if_neg hset]
      cases hgoal : target.membership.find layerId with
      | none =>
        cases hold : doc.membership.find layerId with
        | none => rw [keepMembership_none removed hold, filter_none]
        | some groupId =>
          have hclear := h.clearAll layerId (mem_keys_iff.mpr ⟨groupId, hold⟩) hgoal
          simp [hset, hclear]
      | some groupId =>
        have hold := (h.putAll layerId groupId hgoal).resolve_left hset
        have hkeep : layerId ∉ delta.membershipClear := fun hin => by
          rw [h.clear layerId hin] at hgoal
          cases hgoal
        have hin : groupId ∉ removed := fun hin =>
          ((h.remove groupId).mp ((hmem groupId).mp hin)).2 (htarget.members _ _ hgoal)
        have hne : layerId ≠ "__proto__" := fun he =>
          hplain'.layers layerId (mem_keys_iff.mpr ⟨groupId, hgoal⟩) (he ▸ hproto)
        rw [find_keepMembership _ _ hne, hold]
        simp [hin, hkeep]
  · unfold written
    rw [mem_filter, mem_foldl_addTo, mem_append, h.locks, decide_eq_true_iff]
    simp only [not_mem_nil, false_or]

end Leading

end WebGis.Workbench.Client
