/-
  The payloads of datasets, their fingerprints and the ids of their features
  (`services/feature_edit/identity.py`).

  `build_plan` of `services/feature_edit/plan.py`: the plan of an edit and what speaks against it.

  A plan keeps its operations and its targets, with the revision and the fingerprint of the payload
  that it was built from. The changes are derived again when it is committed.
-/
import WebGis.Edit.Plans

namespace WebGis.Edit

open Data Json

/-! ## Payloads -/

/-- The payload of a dataset: a collection, a collection in an envelope, or neither. -/
inductive Payload where
  | bare (c : Collection)
  | enveloped (envelope : Fields) (c : Collection)
  | other (v : Json)

def Feature.toJson (f : Feature) : Json :=
  .obj (f.others ++ [("properties", (f.properties.map fun p => .obj p.items).getD .null),
    ("geometry", f.geometry.getD .null)])

def Collection.toJson (c : Collection) : Json :=
  .obj (c.others ++ (c.crs.map fun v => ("crs", v)).toList ++
    [("features", .arr (c.features.map Feature.toJson))])

def Payload.toJson : Payload → Json
  | bare c => c.toJson
  | enveloped envelope c => .obj (envelope ++ [("geojson", c.toJson)])
  | other v => v

/-- Equal as canonical JSON. -/
def Payload.Same (p q : Payload) : Prop := sortKeys p.toJson = sortKeys q.toJson

def extractFc : Payload → Option Collection
  | .bare c => some c
  | .enveloped _ c => some c
  | .other _ => none

/-- The payload with other features. -/
def Payload.withFeatures (p : Payload) (features : List Feature) : Payload :=
  match p with
  | bare c => bare { c with features := features }
  | enveloped envelope c => enveloped envelope { c with features := features }
  | other v => other v

/-- What the code calls: the text of a float, the hash and the geometry library. -/
structure Kit where
  floats : FloatRepr
  sha256 : String → String
  shapes : Shapes

def computePayloadFingerprint (K : Kit) (p : Payload) : String :=
  K.sha256 (dumps K.floats p.toJson)

/-! ## Ids -/

def wfidForIndex (sha256 : String → String) (fingerprint : String) (index : Nat) : String :=
  "wf1-" ++ String.ofList ((sha256 (fingerprint ++ ":" ++ toString index)).toList.take 16)

/-- A feature with an id. -/
def materializeFeature (sha256 : String → String) (fingerprint : String) (fi : Feature × Nat) :
    Feature :=
  match fi.1.wfid with
  | some _ => fi.1
  | none =>
    { fi.1 with
      properties := some ((fi.1.properties.getD Dict.empty).set wfidProp
        (.str (wfidForIndex sha256 fingerprint fi.2))) }

def materializeWfids (sha256 : String → String) (fingerprint : String)
    (features : List Feature) : List Feature :=
  features.zipIdx.map (materializeFeature sha256 fingerprint)

def hasWfids (features : List Feature) : Bool :=
  features ≠ [] && features.all fun f => f.wfid.isSome

def maxEditableFeatures : Nat := 20000

def maxPlanTargets : Nat := 200

def maxGeometryTargets : Nat := 10

def maxOpsPerPlan : Nat := 8

/-! ## Shapes of operations -/

/-- The parameters of one operation. -/
def opShape : EditOp → List EditFinding
  | .geometry (.repairGeometry fixes) =>
    match fixes with
    | .arr _ => []
    | fixes =>
      if fixes.truthy then [finding "invalid_op" "repair_geometry requires fixes list" []]
      else []
  | .geometry (.moveBy dx dy) =>
    if isNumber dx && isNumber dy then []
    else [finding "unit_required" "move_by requires numeric dx_m/dy_m (meters)" []]
  | .geometry (.snapToRef _ tolerance) =>
    if isNumber tolerance then []
    else
      [finding "unit_required" "snap_to_ref requires ref_id and numeric tolerance_m (meters)" []]
  | _ => []

def validateOpShapes (ops : List EditOp) : List EditFinding :=
  if ops = [] then [finding "invalid_op" "plan requires at least one edit op" []]
  else
    (if ops.length > maxOpsPerPlan then
      [finding "op_limit_exceeded" "too many ops in one plan" [("limit", .int maxOpsPerPlan)]]
    else []) ++ ops.flatMap opShape

/-! ## Targets -/

def featureIdKeys : List String :=
  ["id", "OBJECTID", "fid", "osm_id", "@id", "featureId", "feature_id"]

/-- An id that is a text or a whole number. -/
def idText : Json → Option String
  | .str s => some s
  | .int n => some (toString n)
  | _ => none

def resolveFeatureId (f : Feature) : Option String :=
  ((field "id" f.others).bind idText).or
    (featureIdKeys.findSome? fun key => (f.find key).bind idText)

/-- The names of the features, in the order in which they are taken. -/
def featureNames (features : List Feature) : List (String × Feature) :=
  features.flatMap fun f =>
    ((resolveFeatureId f).toList ++ f.wfid.toList).map fun name => (name, f)

/-- `resolve_feature_ids`: the ids that are there, with the `_wfid` of their features -/
def resolveFeatureIds (features : List Feature) (requested : List String) :
    List (String × String) :=
  requested.filterMap fun id =>
    match (featureNames features).find? fun nf => nf.1 = id with
    | some (_, f) => f.wfid.map fun wfid => (id, wfid)
    | none => none

structure SelectionView where
  featureId : String
  selectedIds : List String

/-- The ids that an edit is for: explicit ones first, then the selection. -/
def targetIds (requested : List String) (selection : Option SelectionView) :
    Option (List String) :=
  if requested ≠ [] then some (requested.take maxPlanTargets)
  else selection.map fun v => (v.featureId :: v.selectedIds).eraseDups.take maxPlanTargets

/-! ## Plans -/

/-- `EditPlan`; the token is the part of its id that is drawn. -/
structure Plan where
  token : String
  refId : String
  ops : List EditOp
  opSummaries : Json
  targetWfids : List String
  needsMaterialization : Bool
  expectedContentRevision : Nat
  expectedFingerprint : String

def Plan.planId (plan : Plan) : String := "fep-" ++ plan.token

/-- The features that a plan is previewed on. -/
def previewFeatures (K : Kit) (p : Payload) (c : Collection) : List Feature :=
  if hasWfids c.features then c.features
  else materializeWfids K.sha256 (computePayloadFingerprint K p) c.features

/-- The operation changes geometries. -/
def EditOp.isGeometry (op : EditOp) : Bool := !op.isAttr

/-- The findings about the targets. -/
def targetFindings (ops : List EditOp) (ids : List String) (found : List (String × String))
    (wfids : List String) : List EditFinding :=
  let missing := ids.filter fun id => id ∉ found.map Prod.fst
  (if missing = [] then []
    else [finding "feature_not_found" "requested ids not resolvable in dataset"
      [("ids", .arr ((missing.take 8).map .str))]]) ++
  (if wfids.length > maxPlanTargets then
    [finding "target_limit_exceeded" "too many target features" [("limit", .int maxPlanTargets)]]
  else []) ++
  (if ops.any EditOp.isGeometry && maxGeometryTargets < wfids.length then
    [finding "target_limit_exceeded"
      "geometry-edit plans are bounded to fewer targets (journal undo-fidelity budget)"
      [("limit", .int maxGeometryTargets)]]
  else [])

/-- `build_plan`: the plan, where there can be one, and the findings. It can be committed where
there are none. -/
def buildPlan (K : Kit) (token refId : String) (p : Payload) (ops : List EditOp)
    (opSummaries : Json) (requested : List String) (selection : Option SelectionView)
    (revision : Nat) (targets : Targets) : Option Plan × List EditFinding :=
  match extractFc p with
  | none =>
    (none, [finding "dataset_not_editable" "payload is not a geojson FeatureCollection" []])
  | some c =>
    if c.features.length > maxEditableFeatures then
      (none, [finding "dataset_too_large_to_edit" "dataset exceeds editable size"
        [("features", .int c.features.length)]])
    else
      match targetIds requested selection with
      | none => (none, [finding "invalid_target" "no explicit ids and no live selection" []])
      | some ids =>
        let features := previewFeatures K p c
        let found := resolveFeatureIds features ids
        let wfids := (found.map Prod.snd).dedup.insertionSort (· ≤ ·)
        let changes := deriveChanges K.shapes { c with features := features } ops wfids targets
        (some
          { token := token
            refId := refId
            ops := ops.take maxOpsPerPlan
            opSummaries := opSummaries
            targetWfids := wfids.take maxPlanTargets
            needsMaterialization := !hasWfids c.features
            expectedContentRevision := revision
            expectedFingerprint := computePayloadFingerprint K p },
          validateOpShapes ops ++ targetFindings ops ids found wfids ++ changes.findings)

end WebGis.Edit
