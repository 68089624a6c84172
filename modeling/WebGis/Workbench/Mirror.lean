/-
  The client's application of a delta: `applyWorkbenchDelta` of `lib/workbench/delta.ts`.

  The groups are the properties of one JavaScript object under their ids, so they are
  enumerated in the order of its keys and a lookup also sees what every object inherits. The
  delta is the one that was sent, not the one that `validate_delta` returns: names are not
  clipped and a field may hold another empty value than a list.
-/
import WebGis.Data.Own
import WebGis.Workbench.Stages

namespace WebGis.Workbench

open Data Data.Json Option Except

/-- Why `applyWorkbenchDelta` throws: an error of its own, or a value that is no object, list or
    function where one is needed. `inherited` is not an outcome of the code: from there on it
    works on what all objects inherit, which is not followed. -/
inductive Thrown where
  | delta (e : DeltaError)
  | type
  | inherited
  deriving DecidableEq, Repr

/-- The properties of `Object.prototype`. -/
def prototypeNames : List String :=
  ["constructor", "__defineGetter__", "__defineSetter__", "hasOwnProperty", "__lookupGetter__",
    "__lookupSetter__", "isPrototypeOf", "propertyIsEnumerable", "toString", "valueOf",
    "__proto__", "toLocaleString"]

/-- What `for (const x of v ?? [])` goes through, of values that `validate_delta` lets pass. -/
def iterated : Option Json → Option (List Json)
  | none => some []
  | some .null => some []
  | some (.arr xs) => some xs
  | some (.str s) => if s = "" then some [] else none
  | some _ => none

/-- `v ?? []` when that is a list. -/
def listed : Option Json → Option (List Json)
  | none => some []
  | some .null => some []
  | some (.arr xs) => some xs
  | some _ => none

def orThrow {α : Type} (v : Option α) : Except Thrown α :=
  match v with
  | some a => .ok a
  | none => .error .type

/-! ## Reading -/

/-- A property that may be missing. -/
def optionally {α : Type} (read : Json → Option α) : Option Json → Option (Option α)
  | none => some none
  | some v => (read v).map some

def flagOf : Json → Option Bool
  | .bool b => some b
  | _ => none

def textOrNull : Json → Option (Option String)
  | .null => some none
  | .str s => some (some s)
  | _ => none

/-- A `WorkbenchGroupPatch`. -/
def patchOf : Json → Option GroupPatch
  | .obj fs => do
      let id ← (field "id" fs).bind textOf
      let name ← optionally textOf (field "name" fs)
      let collapsed ← optionally flagOf (field "collapsed" fs)
      let parentId ← optionally textOrNull (field "parentId" fs)
      some { id := id, name := name, collapsed := collapsed, parentId := parentId }
  | _ => none

/-- A `MembershipSetEntry`. -/
def entryOf (v : Json) : Option (String × String) := do
  let layerId ← (get? v "layerId").bind textOf
  let groupId ← (get? v "groupId").bind textOf
  some (layerId, groupId)

/-- `delta.setGroups ?? []` -/
def patchesOf (delta : Fields) : Except Thrown (List GroupPatch) :=
  orThrow ((iterated (field "setGroups" delta)).bind fun xs => xs.mapM patchOf)

/-- `delta.membershipSet ?? []`; it is also mapped over. -/
def entriesOf (delta : Fields) : Except Thrown (List (String × String)) :=
  orThrow ((listed (field "membershipSet" delta)).bind fun xs => xs.mapM entryOf)

/-- `v ?? []` for a list of ids. -/
def idsOf (v : Option Json) : Except Thrown (List String) :=
  orThrow ((listed v).bind fun xs => xs.mapM textOf)

/-- `doc.groups` -/
def docGroups (doc : Fields) : Except Thrown (List Group) :=
  match field "groups" doc with
  | some (.arr xs) => orThrow (xs.mapM groupEntry)
  | _ => .error .type

/-- `Object.entries(doc.membership)` -/
def docMembership (doc : Fields) : Except Thrown (List (String × String)) :=
  match field "membership" doc with
  | some (.obj kvs) => orThrow ((kvs.mapM pairOf).map fun pairs => (Dict.ofList pairs).items)
  | _ => .error .type

/-! ## The groups -/

/-- `map[g.id] = { ...g }` -/
def putGroup (o : Dict String Group) (g : Group) : Except Thrown (Dict String Group) :=
  if groupId g = "__proto__" then .error .inherited else .ok (o.setOwn indexBefore (groupId g) g)

/-- `groupsByIdOf(doc)` -/
def groupsByIdOf (groups : List Group) : Except Thrown (Dict String Group) :=
  groups.foldlM putGroup Dict.empty

/-- One round of the loop over `setGroups`. -/
def setGroupOf (o : Dict String Group) (patch : GroupPatch) : Except Thrown (Dict String Group) :=
  match o.find patch.id with
  | some existing => .ok (o.setOwn indexBefore patch.id (patchGroup patch existing))
  | none =>
    if patch.id ∈ prototypeNames then .error .inherited
    else if patch.name = none ∨ patch.name = some "" then .error (.delta (.missingGroup patch.id))
    else .ok (o.setOwn indexBefore patch.id (createGroup patch))

/-- The check of `setGroups` against `removeGroupIds`. -/
def collide (removeIds : List String) (patches : List GroupPatch) : Except Thrown Unit :=
  match patches.find? fun patch => patch.id ∈ removeIds with
  | some patch => .error (.delta (.collision [patch.id]))
  | none => .ok ()

/-- The pairs that `children` holds: a group and one of its children. -/
def childrenOf (o : Dict String Group) : List (String × String) :=
  o.items.filterMap fun kv => ((parentOf kv.2).filter (· ∈ o.keys)).map fun p => (p, kv.1)

/-- `descendantsOf(groupsById, roots)`. `children` is an object too: what it inherits has no
    `push`, and cannot be iterated. -/
def descendantsOf (o : Dict String Group) (roots : List String) : Except Thrown (List String) :=
  if o.items.any fun kv => (parentOf kv.2).any (· ∈ prototypeNames) then .error .type
  else
    let out := spread (childrenOf o) (roots.length + (childrenOf o).length) roots []
    if out.any (· ∈ prototypeNames) then .error .type else .ok out

def removedGroups (o : Dict String Group) (removeIds : List String) :
    Except Thrown (List String) :=
  if removeIds = [] then .ok [] else descendantsOf o removeIds

/-! ## The membership and the locks -/

/-- `membership[layerId] = groupId`: a text is no prototype and is not taken as one. -/
def putLayer (membership : Dict String String) (layerId groupId : String) : Dict String String :=
  if layerId = "__proto__" then membership else membership.setOwn indexBefore layerId groupId

/-- The loop over the entries of the document's membership. -/
def keepMembership (removed : List String) (entries : List (String × String)) :
    Dict String String :=
  entries.foldl (fun d kv => if kv.2 ∈ removed then d else putLayer d kv.1 kv.2) Dict.empty

/-- One round of the loop over `membershipSet`. -/
def setMembershipOf (o : Dict String Group) (membership : Dict String String)
    (m : String × String) : Except Thrown (Dict String String) :=
  if m.2 ∈ o.keys ∨ m.2 ∈ prototypeNames then .ok (putLayer membership m.1 m.2)
  else .error (.delta (.missingTarget m.2))

/-- `s.add(x)` -/
def addTo (s : List String) (x : String) : List String := if x ∈ s then s else s ++ [x]

/-- The document that `applyWorkbenchDelta` returns. -/
structure WorkbenchDocV5 where
  groups : List Group
  membership : Dict String String
  lockedLayerIds : List String
  mode : Option Json

/-- `applyWorkbenchDelta(doc, delta)` -/
def applyWorkbenchDelta (doc delta : Fields) : Except Thrown WorkbenchDocV5 := do
  let groups ← docGroups doc
  let o ← groupsByIdOf groups
  let patches ← patchesOf delta
  let o ← patches.foldlM setGroupOf o
  let removeIds ← idsOf (field "removeGroupIds" delta)
  collide removeIds patches
  let removed ← removedGroups o removeIds
  let o : Dict String Group := Table.delete o fun kv => kv.1 ∈ removed
  let membership ← docMembership doc
  let entries ← entriesOf delta
  let membership ← entries.foldlM (setMembershipOf o) (keepMembership removed membership)
  let clear ← idsOf (field "membershipClear" delta)
  let locked ← idsOf (field "lockedLayerIds" doc)
  let locksAdd ← idsOf (field "locksAdd" delta)
  let locksRemove ← idsOf (field "locksRemove" delta)
  .ok
    { groups := o.items.map Prod.snd
      membership := membership.delete fun m => m.1 ∈ clear ∧ m.1 ∉ entries.map Prod.fst
      lockedLayerIds := ((locked ++ locksAdd).foldl addTo []).filter (· ∉ locksRemove)
      mode := field "mode" doc }

/-! ## What the delta says to both sides -/

/-- The patch as the server keeps it. -/
def GroupPatch.clipped (p : GroupPatch) : GroupPatch := { p with name := p.name.map (clip 200) }

variable {v : Json}

theorem textOf_of_word {s : String} (h : word v = some s) : textOf v = some s := by
  rw [(word_ne h).1]
  rfl

variable {fs : Fields}

theorem name_of_patchName {name : Option String} (h : patchName fs = .ok name) :
    ∃ raw, optionally textOf (field "name" fs) = some raw ∧ name = raw.map (clip 200) ∧
      raw ≠ some "" := by
  unfold patchName at h
  split at h
  · rename_i hn
    rw [hn]
    exact ⟨none, rfl, (ok.inj h).symm, (some_ne_none _).symm⟩
  · rename_i v hn
    split at h
    · rename_i s hs
      rw [hn, optionally, textOf_of_word hs]
      exact ⟨some s, rfl, (ok.inj h).symm, fun he => (word_ne hs).2 (some.inj he)⟩
    · cases h

theorem collapsed_of_patchCollapsed {collapsed : Option Bool}
    (h : patchCollapsed fs = .ok collapsed) :
    optionally flagOf (field "collapsed" fs) = some collapsed := by
  unfold patchCollapsed at h
  split at h
  · rename_i hc
    rw [hc, ← ok.inj h]
    rfl
  · rename_i hc
    rw [hc, ← ok.inj h]
    rfl
  · cases h

theorem parent_of_patchParent {parentId : Option (Option String)}
    (h : patchParent fs = .ok parentId) :
    optionally textOrNull (field "parentId" fs) = some parentId := by
  unfold patchParent at h
  split at h
  · rename_i hp
    rw [hp, ← ok.inj h]
    rfl
  · rename_i hp
    rw [hp, ← ok.inj h]
    rfl
  · rename_i hp
    rw [hp, ← ok.inj h]
    rfl
  · cases h

theorem patchOf_of_groupPatch {p : GroupPatch} (h : groupPatch v = .ok p) :
    ∃ q, patchOf v = some q ∧ p = q.clipped ∧ q.name ≠ some "" := by
  cases v with
  | obj fs =>
    dsimp only [groupPatch] at h
    split at h
    · rename_i gid hgid
      simp only [bind_eq_ok, ok.injEq] at h
      obtain ⟨name, hname, collapsed, hcollapsed, parentId, hparent, rfl⟩ := h
      obtain ⟨v, hv, hw⟩ := bind_eq_some_iff.mp hgid
      obtain ⟨raw, hraw, rfl, hne⟩ := name_of_patchName hname
      have hid : (field "id" fs).bind textOf = some gid := by
        rw [hv, bind_some, textOf_of_word hw]
      refine ⟨⟨gid, raw, collapsed, parentId⟩, ?_, rfl, hne⟩
      simp [patchOf, hid, hraw, collapsed_of_patchCollapsed hcollapsed,
        parent_of_patchParent hparent]
    · cases h
  | _ => cases h

variable {xs : List Json}

theorem patches_of_groupPatches {ps : List GroupPatch} (h : xs.mapM groupPatch = .ok ps) :
    ∃ qs, xs.mapM patchOf = some qs ∧ ps = qs.map GroupPatch.clipped ∧
      ∀ q ∈ qs, q.name ≠ some "" := by
  have hall := mapM_forall₂ h
  clear h
  induction hall with
  | nil => exact ⟨[], rfl, rfl, fun _ hq => absurd hq List.not_mem_nil⟩
  | cons hx _ ih =>
    obtain ⟨q, hq, rfl, hne⟩ := patchOf_of_groupPatch hx
    obtain ⟨qs, hqs, rfl, hall⟩ := ih
    exact ⟨q :: qs, by rw [List.mapM_cons, hq, hqs]; rfl, rfl,
      List.forall_mem_cons.mpr ⟨hne, hall⟩⟩

theorem entryOf_of_membershipEntry {m : String × String} (h : membershipEntry v = .ok m) :
    entryOf v = some m := by
  unfold membershipEntry at h
  split at h
  · rename_i layerId groupId hl hg
    obtain ⟨l, hl, hlw⟩ := bind_eq_some_iff.mp hl
    obtain ⟨g, hg, hgw⟩ := bind_eq_some_iff.mp hg
    rw [entryOf, hl, hg, bind_some, bind_some, textOf_of_word hlw, textOf_of_word hgw, ← ok.inj h]
    rfl
  · cases h

variable {name : String}

theorem listOr_of_iterated {ys : List Json} (hx : listOr fs name = some xs)
    (hy : iterated (field name fs) = some ys) : xs = ys := by
  unfold listOr at hx
  unfold iterated at hy
  cases hf : field name fs with
  | none => simp_all
  | some v => cases v <;> simp_all [Json.truthy]

theorem patchesOf_of_validated {d : Delta} (h : Validated fs d) :
    (iterated (field "setGroups" fs) = none ∧ patchesOf fs = .error .type) ∨
      ∃ qs, patchesOf fs = .ok qs ∧ d.setGroups = qs.map GroupPatch.clipped ∧
        ∀ q ∈ qs, q.name ≠ some "" := by
  obtain ⟨xs, hxs, hps⟩ := h.setGroups
  unfold patchesOf
  cases hi : iterated (field "setGroups" fs) with
  | none => exact .inl ⟨rfl, rfl⟩
  | some ys =>
    obtain rfl := listOr_of_iterated hxs hi
    obtain ⟨qs, hqs, hd, hne⟩ := patches_of_groupPatches hps
    exact .inr ⟨qs, by rw [bind_some, hqs]; rfl, hd, hne⟩

theorem iterated_of_listed {v : Option Json} (h : listed v = some xs) : iterated v = some xs := by
  unfold listed at h
  unfold iterated
  split at h <;> simp_all

theorem entriesOf_of_validated {d : Delta} (h : Validated fs d) :
    (listed (field "membershipSet" fs) = none ∧ entriesOf fs = .error .type) ∨
      entriesOf fs = .ok d.membershipSet := by
  obtain ⟨xs, hxs, hms⟩ := h.membershipSet
  unfold entriesOf
  cases hl : listed (field "membershipSet" fs) with
  | none => exact .inl ⟨rfl, rfl⟩
  | some ys =>
    obtain rfl := listOr_of_iterated hxs (iterated_of_listed hl)
    refine .inr ?_
    rw [bind_some, mapM_some_of_ok (fun _ _ => entryOf_of_membershipEntry) hms]
    rfl

theorem idsOf_of_wordsOf {ws : List String} (h : wordsOf fs name = .ok ws) :
    idsOf (field name fs) = .ok ws := by
  unfold wordsOf at h
  split at h
  · rename_i hf
    rw [hf, ← ok.inj h]
    rfl
  · rename_i hf
    rw [hf, ← ok.inj h]
    rfl
  · rename_i xs hf
    split at h
    · rename_i ws' hws
      obtain rfl := ok.inj h
      rw [hf]
      show orThrow (xs.mapM textOf) = _
      rw [mapM_option_imp (fun _ _ => textOf_of_word) hws]
      rfl
    · cases h
  · cases h

end WebGis.Workbench
