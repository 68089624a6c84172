/-
  Deltas on a workbench document: `validate_delta` and `apply_delta`.

  A delta names target values, not changes. It is applied in a fixed order: groups are created
  or patched, groups are removed with all below them, layers are put into groups, layers are
  taken out of their groups, locks are removed and added.
-/
import WebGis.Data.Dict
import WebGis.Data.Reach
import WebGis.Workbench.Doc

namespace WebGis.Workbench

open Data Data.Json

def maxSetGroups : Nat := 2000
def maxRemoveGroups : Nat := 2000
def maxMembershipSet : Nat := 2000
def maxMembershipClear : Nat := 2000
def maxLocks : Nat := 2000
def maxDeltaBytes : Nat := 64 * 1024

/-- What a delta says about one group; a field that is absent is left as it is. -/
structure GroupPatch where
  id : String
  name : Option String
  collapsed : Option Bool
  parentId : Option (Option String)
  deriving DecidableEq, Repr

/-- A delta as `validate_delta` returns it. -/
structure Delta where
  setGroups : List GroupPatch
  removeGroupIds : List String
  membershipSet : List (String × String)
  membershipClear : List String
  locksAdd : List String
  locksRemove : List String
  deriving DecidableEq, Repr

/-- What is wrong with a delta, with what its message names. `malformed` stands for the
    exceptions that a document raises which `_workbench_doc_error` would not have let in. -/
inductive DeltaError where
  | notObject
  | unknownFields (names : List String)
  | empty
  | strList (name : String)
  | setGroups
  | groupId
  | groupName
  | groupCollapsed
  | groupParent
  | removeGroupIds
  | membershipSet
  | membershipEntry
  | membershipClear
  | locks
  | size
  | missingGroup (gid : String)
  | collision (gids : List String)
  | missingTarget (gid : String)
  | malformed
  deriving DecidableEq, Repr

/-! ## `validate_delta` -/

def deltaFields : List String :=
  ["setGroups", "removeGroupIds", "membershipSet", "membershipClear", "locksAdd", "locksRemove"]

/-- A non-empty text. -/
def word : Json → Option String
  | .str s => if s = "" then none else some s
  | _ => none

/-- `_str_list(field)` -/
def wordsOf (fs : Fields) (name : String) : Except DeltaError (List String) :=
  match field name fs with
  | none => .ok []
  | some .null => .ok []
  | some (.arr xs) =>
    match xs.mapM word with
    | some ws => .ok ws
    | none => .error (.strList name)
  | some _ => .error (.strList name)

/-- `delta.get(name) or []`; nothing when that is no list. -/
def listOr (fs : Fields) (name : String) : Option (List Json) :=
  match field name fs with
  | none => some []
  | some (.arr xs) => some xs
  | some v => if v.truthy then none else some []

def patchName (fs : Fields) : Except DeltaError (Option String) :=
  match field "name" fs with
  | none => .ok none
  | some v =>
    match word v with
    | some s => .ok (some (clip 200 s))
    | none => .error .groupName

def patchCollapsed (fs : Fields) : Except DeltaError (Option Bool) :=
  match field "collapsed" fs with
  | none => .ok none
  | some (.bool b) => .ok (some b)
  | some _ => .error .groupCollapsed

def patchParent (fs : Fields) : Except DeltaError (Option (Option String)) :=
  match field "parentId" fs with
  | none => .ok none
  | some .null => .ok (some none)
  | some (.str p) => .ok (some (some p))
  | some _ => .error .groupParent

/-- One entry of `setGroups`. -/
def groupPatch : Json → Except DeltaError GroupPatch
  | .obj fs => do
      let some gid := (field "id" fs).bind word | .error .groupId
      let name ← patchName fs
      let collapsed ← patchCollapsed fs
      let parentId ← patchParent fs
      .ok { id := gid, name := name, collapsed := collapsed, parentId := parentId }
  | _ => .error .groupId

/-- One entry of `membershipSet`. -/
def membershipEntry (v : Json) : Except DeltaError (String × String) :=
  match (get? v "layerId").bind word, (get? v "groupId").bind word with
  | some layerId, some gid => .ok (layerId, gid)
  | _, _ => .error .membershipEntry

def optional (name : String) (v : Option Json) : Fields := (v.map fun v => (name, v)).toList

def orNull (p : Option String) : Json := (p.map Json.str).getD .null

def strings (ss : List String) : Json := .arr (ss.map Json.str)

/-- The fields that a patch sets. -/
def GroupPatch.fields (p : GroupPatch) : Fields :=
  optional "name" (p.name.map Json.str) ++ optional "collapsed" (p.collapsed.map Json.bool) ++
    optional "parentId" (p.parentId.map orNull)

/-- A patch as it is written. -/
def GroupPatch.toJson (p : GroupPatch) : Json := .obj (("id", .str p.id) :: p.fields)

/-- A delta as it is written: a pair is a list of two. -/
def Delta.toJson (d : Delta) : Json :=
  .obj [("setGroups", .arr (d.setGroups.map GroupPatch.toJson)),
    ("removeGroupIds", strings d.removeGroupIds),
    ("membershipSet", .arr (d.membershipSet.map fun m => strings [m.1, m.2])),
    ("membershipClear", strings d.membershipClear),
    ("locksAdd", strings d.locksAdd),
    ("locksRemove", strings d.locksRemove)]

/-- An error when the condition holds. -/
def refuse (p : Prop) [Decidable p] (e : DeltaError) : Except DeltaError Unit :=
  if p then .error e else .ok ()

def unknownFields (fs : Fields) : List String := (fs.map Prod.fst).filter (· ∉ deltaFields)

/-- `validate_delta(delta)` -/
def validateDelta (R : FloatRepr) : Json → Except DeltaError Delta
  | .obj fs => do
      refuse (unknownFields fs ≠ []) (.unknownFields (unknownFields fs))
      refuse (¬ fs.any fun f => f.2.truthy) .empty
      let some setGroups := listOr fs "setGroups" | .error .setGroups
      refuse (setGroups.length > maxSetGroups) .setGroups
      let setGroups ← setGroups.mapM groupPatch
      let removeGroupIds ← wordsOf fs "removeGroupIds"
      refuse (removeGroupIds.length > maxRemoveGroups) .removeGroupIds
      let some membershipSet := listOr fs "membershipSet" | .error .membershipSet
      refuse (membershipSet.length > maxMembershipSet) .membershipSet
      let membershipSet ← membershipSet.mapM membershipEntry
      let membershipClear ← wordsOf fs "membershipClear"
      refuse (membershipClear.length > maxMembershipClear) .membershipClear
      let locksAdd ← wordsOf fs "locksAdd"
      let locksRemove ← wordsOf fs "locksRemove"
      refuse (locksAdd.length > maxLocks ∨ locksRemove.length > maxLocks) .locks
      let norm : Delta :=
        { setGroups := setGroups, removeGroupIds := removeGroupIds, membershipSet := membershipSet
          membershipClear := membershipClear, locksAdd := locksAdd, locksRemove := locksRemove }
      refuse (encodedBytes R norm.toJson > maxDeltaBytes) .size
      .ok norm
  | _ => .error .notObject

/-! ## `apply_delta` -/

/-- What `apply_delta` takes out of a document and puts into the new one. -/
structure Parts where
  groups : List Group
  membership : Dict String String
  locked : List String

/-- `[dict(g) for g in base.get("groups", []) or [] if isinstance(g, dict)]` -/
def readGroups (base : Fields) : Except DeltaError (List Group) :=
  match field "groups" base with
  | none => .ok []
  | some (.arr xs) =>
    match xs.mapM groupEntry with
    | some groups => .ok groups
    | none => .error .malformed
  | some v => if v.truthy then .error .malformed else .ok []

def pairOf (kv : String × Json) : Option (String × String) :=
  match kv.2 with
  | .str v => some (kv.1, v)
  | _ => none

/-- `{str(k): str(v) for k, v in (base.get("membership", {}) or {}).items()}` -/
def readMembership (base : Fields) : Except DeltaError (Dict String String) :=
  match field "membership" base with
  | none => .ok Dict.empty
  | some (.obj kvs) =>
    match kvs.mapM pairOf with
    | some pairs => .ok (Dict.ofList pairs)
    | none => .error .malformed
  | some v => if v.truthy then .error .malformed else .ok Dict.empty

def textOf : Json → Option String
  | .str s => some s
  | _ => none

/-- `[str(x) for x in (base.get("lockedLayerIds", []) or [])]` -/
def readLocked (base : Fields) : Except DeltaError (List String) :=
  match field "lockedLayerIds" base with
  | none => .ok []
  | some (.arr xs) =>
    match xs.mapM textOf with
    | some ss => .ok ss
    | none => .error .malformed
  | some v => if v.truthy then .error .malformed else .ok []

def readParts (base : Fields) : Except DeltaError Parts := do
  let groups ← readGroups base
  let membership ← readMembership base
  let locked ← readLocked base
  .ok { groups := groups, membership := membership, locked := locked }

/-- The group that a patch creates. -/
def createGroup (p : GroupPatch) : Group :=
  [("id", .str p.id), ("name", .str (p.name.getD p.id)),
    ("collapsed", .bool (p.collapsed.getD false)), ("parentId", orNull (p.parentId.getD none))]

/-- `existing[field] = patch[field]` for every field of the patch. -/
def patchGroup (p : GroupPatch) (g : Group) : Group := mergeFields g p.fields

/-- A patch on the group that it names. -/
def patchIn (p : GroupPatch) (g : Group) : Group := if groupId g = p.id then patchGroup p g else g

/-- One round of the loop over `setGroups`. -/
def setGroup (groups : List Group) (p : GroupPatch) : Except DeltaError (List Group) :=
  match byId groups p.id with
  | none => if p.name = none then .error (.missingGroup p.id) else .ok (groups ++ [createGroup p])
  | some _ => .ok (groups.map (patchIn p))

/-- The links from a group that is there to the groups it is the parent of. -/
def links (groups : List Group) : List (String × String) :=
  groups.filterMap fun g => ((parentOf g).filter (· ∈ ids groups)).map fun p => (p, groupId g)

/-- `_descendants(groups_by_id, root_ids)` -/
def descendants (groups : List Group) (roots : List String) : List String :=
  spread (links groups) (roots.length + (links groups).length) roots []

/-- The groups that are not removed, and what they keep of the membership. -/
def removeGroups (gids : List String) (groups : List Group) (membership : Dict String String) :
    List Group × Dict String String :=
  let cascade := descendants groups gids
  (groups.filter fun g => groupId g ∉ cascade, membership.delete fun m => m.2 ∈ cascade)

/-- One round of the loop over `membershipSet`. -/
def setMembership (groups : List Group) (membership : Dict String String)
    (m : String × String) : Except DeltaError (Dict String String) :=
  if m.2 ∈ ids groups then .ok (membership.set m.1 m.2) else .error (.missingTarget m.2)

/-- One round of a loop over locks. -/
def addLock (removed locked : List String) (lid : String) : List String :=
  if lid ∈ removed ∨ lid ∈ locked then locked else locked ++ [lid]

/-- The layers that are cleared: those that are not put into a group as well. -/
def Delta.cleared (d : Delta) : List String :=
  d.membershipClear.filter (· ∉ d.membershipSet.map Prod.fst)

/-- The ids that a delta both sets and removes. -/
def Delta.collisions (d : Delta) : List String :=
  d.removeGroupIds.filter (· ∈ d.setGroups.map GroupPatch.id)

/-- The stages of `apply_delta`. -/
def applyParts (ps : Parts) (d : Delta) : Except DeltaError Parts := do
  let groups ← d.setGroups.foldlM setGroup ps.groups
  refuse (d.collisions ≠ []) (.collision d.collisions)
  let (groups, membership) := removeGroups d.removeGroupIds groups ps.membership
  let membership ← d.membershipSet.foldlM (setMembership groups) membership
  .ok
    { groups := groups
      membership := membership.delete fun m => m.1 ∈ d.cleared
      locked := d.locksAdd.foldl (addLock d.locksRemove)
        (ps.locked.foldl (addLock d.locksRemove) []) }

def modeOr (v : Json) : Json := if isStr v then v else .str "explore"

/-- The document that `apply_delta` returns. -/
def writeParts (base : Fields) (ps : Parts) : Fields :=
  [("version", (field "version" base).getD (.int 5)),
    ("groups", .arr (ps.groups.map Json.obj)),
    ("membership", .obj (ps.membership.items.map fun m => (m.1, .str m.2))),
    ("lockedLayerIds", strings ps.locked),
    ("mode", modeOr ((field "mode" base).getD (.str "explore")))]

/-- `apply_delta(doc, delta)` -/
def applyDelta (doc : Option Fields) (d : Delta) : Except DeltaError Fields := do
  let base := doc.getD []
  let ps ← readParts base
  let ps ← applyParts ps d
  .ok (writeParts base ps)

end WebGis.Workbench
