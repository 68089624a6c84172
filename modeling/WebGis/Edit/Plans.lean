/-
  `services/feature_edit/plan.py`: the changes that the operations of a plan amount to.

  The changes are collected in two lists, one of deltas and one of renames. After every operation
  both lists so far are applied to the working copy, and the next operation is checked against the
  copy that comes out. What the operations on geometries compute is a parameter; which features they
  are for and what they record is here.
-/
import WebGis.Edit.Profiles

namespace WebGis.Edit

open Data Json

/-- `FeatureCollection`: its features, its `crs` and the rest of its members -/
structure Collection where
  features : List Feature
  crs : Option Json
  others : Fields

/-- The payloads that a plan snaps to; one that is no collection has none. -/
abbrev Targets : Type := Dict String (Option Collection)

/-! ## Operations -/

/-- The operations on geometries. -/
inductive GeometryOp where
  | repairGeometry (fixes : Json)
  | moveBy (dx dy : Json)
  | snapToRef (refId : String) (tolerance : Json)

inductive EditOp where
  | setFields (fields : Dict String Json)
  | renameField (op : RenameField)
  | geometry (op : GeometryOp)

/-- The operation changes values or names of fields only. -/
def EditOp.isAttr : EditOp → Bool
  | geometry _ => false
  | _ => true

/-- What an operation makes of the geometry of one feature. -/
inductive Edited where
  | kept
  | changed (geometry : Fields)
  | refused (f : EditFinding)

/-- The geometry library: the checks of the parameters of an operation, and the operation. -/
structure Shapes where
  check : GeometryOp → Targets → List EditFinding
  edit : GeometryOp → Targets → Fields → Edited

/-! ## Deltas of values -/

/-- The change of one field to a value. -/
def setChange (props : Properties) (name : String) (value : Json) : FieldChange where
  before := (props.find name).getD .null
  after := value
  beforeAbsent := (props.find name).isNone
  afterAbsent := false

/-- The delta of one target feature. -/
def attrDelta (fields : Dict String Json) (targets : List String) (f : Feature) :
    Option FeatureDelta :=
  match f.properties, f.wfid with
  | some props, some wfid =>
    if wfid ∈ targets then
      some
        { wfid := wfid
          fields := some (Dict.ofList
            (fields.items.map fun nv => (nv.1, setChange props nv.1 nv.2)))
          geometryBefore := none
          geometryAfter := none }
    else none
  | _, _ => none

def buildAttrDeltas (features : List Feature) (targets : List String)
    (fields : Dict String Json) : List FeatureDelta :=
  features.filterMap (attrDelta fields targets)

/-! ## Deltas of geometries -/

def maxGeometryPositions : Nat := 1024

/-- A value that is a number to `isinstance`. -/
def isNumber : Json → Bool
  | .int _ => true
  | .float _ => true
  | .bool _ => true
  | _ => false

mutual

/-- `walk` of `_iter_positions` -/
def positions : Json → Nat
  | .arr (a :: b :: xs) =>
    if isNumber a && isNumber b then 1
    else positions a + (positions b + positionsOf xs)
  | .arr [a] => positions a
  | _ => 0

def positionsOf : List Json → Nat
  | [] => 0
  | x :: xs => positions x + positionsOf xs

end

def countPositions : Option Json → Nat
  | some (.obj fields) => ((field "coordinates" fields).map positions).getD 0
  | _ => 0

def selectTargets (features : List Feature) (targets : List String) : List (String × Feature) :=
  features.filterMap fun f =>
    match f.wfid with
    | some wfid => if wfid ∈ targets then some (wfid, f) else none
    | none => none

def commonGuards (c : Collection) (targets : List String) :
    List (String × Feature) × List EditFinding :=
  match c.crs with
  | some _ =>
    ([], [finding "crs_assumption_required" "payload declares a non-default crs member" []])
  | none =>
    let selected := selectTargets c.features targets
    let missing := targets.filter fun w => w ∉ selected.map Prod.fst
    let absent :=
      if selected.length ≠ targets.length then
        [finding "feature_not_found" "target features missing in current payload"
          [("wfid", sortedTexts missing (some 8))]]
      else []
    let large := selected.filter fun wf => countPositions wf.2.geometry > maxGeometryPositions
    (selected, absent ++ large.map fun wf =>
      finding "geometry_too_complex" "feature vertex count exceeds the editable bound"
        [("wfid", .str wf.1), ("positions", .int (countPositions wf.2.geometry))])

/-- A new geometry, or a finding for the feature. -/
def geometryDelta (S : Shapes) (op : GeometryOp) (payloads : Targets)
    (wf : String × Feature) : List FeatureDelta × List EditFinding :=
  match wf.2.geometry with
  | some (.obj geometry) =>
    match S.edit op payloads geometry with
    | .kept => ([], [])
    | .changed g =>
      ([{ wfid := wf.1
          fields := none
          geometryBefore := some (.obj geometry)
          geometryAfter := some (.obj g) }], [])
    | .refused f => ([], [f])
  | _ => ([], [])

/-- `repair_geometry`, `move_by` and `snap_to_ref` -/
def geometryChanges (S : Shapes) (c : Collection) (targets : List String) (op : GeometryOp)
    (payloads : Targets) : List FeatureDelta × List EditFinding :=
  match S.check op payloads with
  | f :: fs => ([], f :: fs)
  | [] =>
    match commonGuards c targets with
    | (_, f :: fs) => ([], f :: fs)
    | (selected, []) =>
      ((selected.map (geometryDelta S op payloads)).flatMap Prod.fst,
        (selected.map (geometryDelta S op payloads)).flatMap Prod.snd)

/-! ## The changes of a plan -/

/-- What `derive_changes` has collected, and the copy it works on. -/
structure Changes where
  deltas : List FeatureDelta
  schemaOps : List RenameField
  findings : List EditFinding
  working : Collection
  profiles : Profiles

/-- The deltas, the renames and the findings of one operation. -/
def opChanges (S : Shapes) (targets : List String) (payloads : Targets)
    (s : Changes) : EditOp → List FeatureDelta × List RenameField × List EditFinding
  | .setFields fields =>
    match validateSetFields fields s.profiles with
    | [] => (buildAttrDeltas s.working.features targets fields, [], [])
    | fs => ([], [], fs)
  | .renameField op =>
    match validateRenameField op s.profiles with
    | [] => ([], [op], [])
    | fs => ([], [], fs)
  | .geometry (.snapToRef refId tolerance) =>
    if (payloads.find refId).isNone then
      ([], [], [finding "dataset_not_editable" "snap target ref unavailable"
        [("target_ref", .str (String.ofList (refId.toList.take 64)))]])
    else
      let (deltas, fs) :=
        geometryChanges S s.working targets (.snapToRef refId tolerance) payloads
      (deltas, [], fs)
  | .geometry op =>
    let (deltas, fs) := geometryChanges S s.working targets op payloads
    (deltas, [], fs)

/-- All deltas and renames so far, applied to the working copy. -/
def replay (s : Changes) : Changes :=
  if s.deltas = [] ∧ s.schemaOps = [] then s
  else
    let features := (applySchemaOpsToFeatures
      (applyDeltasToFeatures s.working.features s.deltas).1 s.schemaOps).1
    { s with
      working := { s.working with features := features }
      profiles := if s.schemaOps = [] then s.profiles else profileFields features }

/-- One round of the loop of `derive_changes`. -/
def deriveOp (S : Shapes) (targets : List String) (payloads : Targets)
    (s : Changes) (op : EditOp) : Changes :=
  let (deltas, schemaOps, findings) := opChanges S targets payloads s op
  replay { s with
    deltas := s.deltas ++ deltas
    schemaOps := s.schemaOps ++ schemaOps
    findings := s.findings ++ findings }

def deriveChanges (S : Shapes) (c : Collection) (ops : List EditOp) (targets : List String)
    (payloads : Targets) : Changes :=
  ops.foldl (deriveOp S targets.dedup payloads) ⟨[], [], [], c, profileFields c.features⟩

/-- The features that `commit_plan` writes. -/
def commitFeatures (s : Changes) (features : List Feature) : List Feature :=
  (applySchemaOpsToFeatures (applyDeltasToFeatures features s.deltas).1 s.schemaOps).1

end WebGis.Edit
