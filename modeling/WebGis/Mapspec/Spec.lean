/-
  The map specification, the user's locks in it, and the two readings of "the same layer".

  A layer is what the document holds, an object with an `id` as a rule. A lock names a layer
  or a component by its id. What a request aimed at one id touches is `_should_remove_layer`;
  what the guard takes for an attempt on a locked id is `_lock_matches`.
-/
import WebGis.Data.Fields
import WebGis.Data.Json

namespace WebGis.Mapspec

open Data Json List

/-! ## The document -/

/-- The branch `layout`: its components and its other parts. -/
structure Layout where
  components : List Json := []
  parts : Dict String Json := Dict.empty

/-- A map specification: the branches the mutations look into, and the other branches by
    their names. -/
structure MapSpec where
  layers : List Json := []
  layout : Layout := {}
  workbench : Option Json := none
  branches : Dict String Json := Dict.empty

namespace MapSpec

variable (m : MapSpec)

/-- `mapspec[name] = v`, for a branch other than layers, layout and workbench. -/
def setBranch (name : String) (v : Json) : MapSpec := { m with branches := m.branches.set name v }

/-- `mapspec.pop(name, None)` -/
def popBranch (name : String) : MapSpec := { m with branches := m.branches.delete fun kv => kv.1 = name }

/-- `dict(mapspec.get(name, {}))` -/
def branch (name : String) : Fields := fieldsOf (m.branches.find name)

/-- The strings of a list in the workbench document. -/
def lockedIds (key : String) : List String :=
  match m.workbench.bind (·.get? key) with
  | some (.arr xs) => xs.filterMap fun
      | .str s => if s = "" then none else some s
      | _ => none
  | _ => []

def lockedLayerIdsOf : List String := m.lockedIds "lockedLayerIds"

def lockedComponentIdsOf : List String := m.lockedIds "lockedComponentIds"

end MapSpec

/-! ## Families of ids -/

def lockMatches (lockedId targetId : String) : Bool :=
  targetId ≠ "" &&
    (lockedId = targetId || startsWith (lockedId ++ "__") targetId ||
      startsWith (targetId ++ "__") lockedId)

def isEntityLocked (entity : String) (locked : List String) : Bool :=
  entity ≠ "" && locked.any (lockMatches · entity)

/-- The ids that `_should_remove_layer` takes for the target. -/
def inFamily (lid target : String) : Bool :=
  lid ≠ "" &&
    (lid = target || lid = target ++ "-label" || startsWith (target ++ "__") lid ||
      startsWith (target ++ "-") lid)

/-- `str(layer.get("id") or "")`, where `str` is the text of a value that is no string. -/
def idText (str : Json → String) (layer : Json) : String :=
  match layer.get? "id" with
  | some (.str s) => s
  | some v => if v.truthy then str v else ""
  | none => ""

def shouldRemoveLayer (str : Json → String) (layer : Json) (target : String) : Bool :=
  inFamily (idText str layer) target

/-! ## The guard -/

structure LockGuardResult where
  allowedLayerIds : List String := []
  lockedLayerIds : List String := []
  allowedComponentIds : List String := []
  lockedComponentIds : List String := []
  deriving DecidableEq

def LockGuardResult.hasLocked (r : LockGuardResult) : Bool :=
  !(r.lockedLayerIds.isEmpty && r.lockedComponentIds.isEmpty)

/-- The targets that no lock matches, and the locks that match a target. -/
def partitionTargets (locked targets : List String) : List String × List String :=
  let named := targets.filter (· ≠ "")
  (named.eraseDups.filter fun t => !locked.any (lockMatches · t),
    (named.flatMap fun t => locked.filter (lockMatches · t)).eraseDups)

def guardLockedPartitions (m : MapSpec) (layerIds componentIds : List String) : LockGuardResult :=
  let layers := partitionTargets m.lockedLayerIdsOf layerIds
  let components := partitionTargets m.lockedComponentIdsOf componentIds
  { allowedLayerIds := layers.1, lockedLayerIds := layers.2
    allowedComponentIds := components.1, lockedComponentIds := components.2 }

theorem eraseDups_eq_nil {xs : List String} : xs.eraseDups = [] ↔ xs = [] := by
  cases xs with
  | nil => simp
  | cons x xs => simp [eraseDups_cons]

theorem partitionTargets_locked_nil {locked targets : List String} :
    (partitionTargets locked targets).2 = [] ↔
      ∀ t ∈ targets, t ≠ "" → ∀ l ∈ locked, lockMatches l t = false := by
  unfold partitionTargets
  rw [eraseDups_eq_nil, flatMap_eq_nil_iff]
  simp only [mem_filter, filter_eq_nil_iff, Bool.not_eq_true, decide_eq_true_eq, and_imp]

theorem hasLocked_eq_false {m : MapSpec} {layerIds componentIds : List String} :
    (guardLockedPartitions m layerIds componentIds).hasLocked = false ↔
      (∀ t ∈ layerIds, t ≠ "" → ∀ l ∈ m.lockedLayerIdsOf, lockMatches l t = false) ∧
        ∀ t ∈ componentIds, t ≠ "" → ∀ l ∈ m.lockedComponentIdsOf, lockMatches l t = false := by
  rw [← partitionTargets_locked_nil, ← partitionTargets_locked_nil]
  unfold LockGuardResult.hasLocked guardLockedPartitions
  simp only [Bool.not_eq_false', Bool.and_eq_true, List.isEmpty_iff]

theorem lockMatches_self {s : String} (h : s ≠ "") : lockMatches s s = true := by
  simp [lockMatches, h]

theorem ne_empty_of_mem_lockedIds {m : MapSpec} {key s : String} (h : s ∈ m.lockedIds key) :
    s ≠ "" := by
  unfold MapSpec.lockedIds at h
  split at h
  · obtain ⟨v, _, hv⟩ := mem_filterMap.mp h
    split at hv
    · split at hv
      · cases hv
      cases hv
      assumption
    · cases hv
  · cases h

end WebGis.Mapspec
