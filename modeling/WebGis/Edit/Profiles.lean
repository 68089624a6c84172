/-
  `services/feature_edit/journal.py`: what the changes of an edit do to features.

  A change of values or of a geometry names the feature it is for by its `_wfid`; a rename is for
  all features. Features whose properties are the same up to the order of their keys are the same.

  `services/feature_edit/attr_ops.py`: what a dataset shows of its fields, and the checks of an edit
  of values and of a rename against that.
-/
import WebGis.Data.Dict
import WebGis.Data.Fields

namespace WebGis.Edit

open Data Json Dict

abbrev Properties : Type := Dict String Json

def wfidProp : String := "_wfid"

/-- A feature of a collection. -/
structure Feature where
  properties : Option Properties
  geometry : Option Json
  others : Fields

/-- `properties.get(key)` -/
def Feature.find (f : Feature) (key : String) : Option Json := f.properties.bind (·.find key)

/-- `_wfid`, where it is a string -/
def Feature.wfid (f : Feature) : Option String :=
  match f.find wfidProp with
  | some (.str s) => some s
  | _ => none

/-- Equal features, whatever the order of the keys. -/
structure Feature.Same (f g : Feature) : Prop where
  properties : f.properties.isSome = g.properties.isSome
  find : ∀ k, f.find k = g.find k
  geometry : f.geometry = g.geometry
  others : f.others = g.others

theorem Feature.Same.refl (f : Feature) : f.Same f := ⟨rfl, fun _ => rfl, rfl, rfl⟩

theorem Feature.Same.symm {f g : Feature} (h : f.Same g) : g.Same f :=
  ⟨h.properties.symm, fun k => (h.find k).symm, h.geometry.symm, h.others.symm⟩

theorem Feature.Same.trans {f g i : Feature} (h : f.Same g) (h' : g.Same i) : f.Same i :=
  ⟨h.properties.trans h'.properties, fun k => (h.find k).trans (h'.find k),
    h.geometry.trans h'.geometry, h.others.trans h'.others⟩

/-- The features of two lists are equal one by one. -/
abbrev SameFeatures (fs gs : List Feature) : Prop := List.Forall₂ Feature.Same fs gs

theorem SameFeatures.trans {fs gs hs : List Feature} (h : SameFeatures fs gs)
    (h' : SameFeatures gs hs) : SameFeatures fs hs := by
  induction h generalizing hs with
  | nil => exact h'
  | cons hf _ ih =>
    cases h' with
    | cons hg h' => exact .cons (hf.trans hg) (ih h')

theorem SameFeatures.symm {fs gs : List Feature} (h : SameFeatures fs gs) : SameFeatures gs fs :=
  List.Forall₂.flip (h.imp fun _ _ hf => hf.symm)

/-! ## Deltas -/

structure FieldChange where
  before : Json
  after : Json
  beforeAbsent : Bool
  afterAbsent : Bool

structure FeatureDelta where
  wfid : String
  fields : Option (Dict String FieldChange)
  geometryBefore : Option Json
  geometryAfter : Option Json

/-- One field of a delta: absent afterwards, or set. -/
def applyChange (props : Properties) (name : String) (change : FieldChange) : Properties :=
  if change.afterAbsent then Table.delete props fun kv => kv.1 = name
  else props.set name change.after

/-- One delta, on the feature that it is for. -/
def applyDelta (f : Feature) (delta : FeatureDelta) : Feature where
  properties :=
    match delta.fields with
    | none => some (f.properties.getD empty)
    | some fields =>
      some (fields.items.foldl (fun props nc => applyChange props nc.1 nc.2)
        (f.properties.getD empty))
  geometry :=
    match delta.geometryAfter with
    | none => f.geometry
    | some g => some g
  others := f.others

def byWfid (features : List Feature) : Dict (Option String) Nat :=
  ofList (features.zipIdx.map fun fi => (fi.1.wfid, fi.2))

/-- One delta, on the features as the deltas before it have left them. -/
def meetDelta (ids : Dict (Option String) Nat) (acc : List Feature × List String)
    (delta : FeatureDelta) : List Feature × List String :=
  match ids.find (some delta.wfid) with
  | none => acc
  | some i => (acc.1.modify i (applyDelta · delta), acc.2 ++ [delta.wfid])

def applyDeltasToFeatures (features : List Feature) (deltas : List FeatureDelta) :
    List Feature × List String :=
  deltas.foldl (meetDelta (byWfid features)) (features, [])

/-! ## Renames -/

structure RenameField where
  src : String
  dst : String
  deriving DecidableEq

/-- `{dst: props[src], **{k: v for k, v in props.items() if k != src}}` -/
def renameKey (props : Properties) (op : RenameField) (v : Json) : Properties :=
  ofList ((op.dst, v) :: props.items.filter fun kv => kv.1 ≠ op.src)

/-- One rename, on one feature. -/
def renameFeature (f : Feature) (op : RenameField) : Feature :=
  if op.src = op.dst then f
  else
    match f.properties with
    | none => f
    | some props =>
      match props.find op.src with
      | none => f
      | some v => { f with properties := some (renameKey props op v) }

/-- `apply_schema_ops_to_features`, with whether a feature was changed -/
def applySchemaOpsToFeatures (features : List Feature) (schemaOps : List RenameField) :
    List Feature × Bool :=
  schemaOps.foldl
    (fun acc op =>
      (acc.1.map (renameFeature · op),
        acc.2 || acc.1.any fun f => op.src ≠ op.dst && (f.find op.src).isSome))
    (features, false)

/-! ## Inverses -/

def invertSchemaOps (schemaOps : List RenameField) : List RenameField :=
  schemaOps.reverse.map fun op => ⟨op.dst, op.src⟩

/-- The inverse of one field of a delta. -/
def FieldChange.invert (change : FieldChange) : FieldChange where
  before := change.after
  after := change.before
  beforeAbsent := change.afterAbsent
  afterAbsent := change.beforeAbsent

/-- The inverse of one delta. -/
def FeatureDelta.invert (delta : FeatureDelta) : FeatureDelta where
  wfid := delta.wfid
  fields := delta.fields.map (mapValues FieldChange.invert)
  geometryBefore := delta.geometryAfter
  geometryAfter := delta.geometryBefore

/-- `invert_deltas`: one by one, in the order in which they were applied -/
def invertDeltas (deltas : List FeatureDelta) : List FeatureDelta :=
  deltas.map FeatureDelta.invert

structure EditFinding where
  code : String
  message : String
  detail : Fields

/-- `finding`: at most eight details -/
def finding (code message : String) (detail : Fields) : EditFinding :=
  ⟨code, message, detail.take 8⟩

/-! ## Profiles -/

def jsonFieldType : Json → String
  | .null => "null"
  | .bool _ => "boolean"
  | .int _ => "number"
  | .float _ => "number"
  | .str _ => "string"
  | _ => "unsupported"

def enumDistinctLimit : Nat := 24

def enumValueMaxLen : Nat := 64

def profileScanLimit : Nat := 20000

def maxRenameLength : Nat := 64

structure FieldProfile where
  types : Dict String Nat
  distinct : Dict String Nat

namespace FieldProfile

def new : FieldProfile := ⟨empty, empty⟩

/-- The distinct values, given up where there are too many. -/
def observeText (distinct : Dict String Nat) (s : String) : Dict String Nat :=
  let distinct := distinct.set s (distinct.getD s 0 + 1)
  if distinct.keys.length > enumDistinctLimit then empty else distinct

def observe (p : FieldProfile) (value : Json) : FieldProfile where
  types := p.types.set (jsonFieldType value) (p.types.getD (jsonFieldType value) 0 + 1)
  distinct :=
    match value with
    | .str s => if s.length ≤ enumValueMaxLen then observeText p.distinct s else p.distinct
    | _ => p.distinct

def isCategorical (p : FieldProfile) : Bool :=
  0 < p.distinct.keys.length && p.distinct.keys.length ≤ enumDistinctLimit

/-- `enum` of `to_dict` -/
def enum (p : FieldProfile) : Option (List String) :=
  if p.isCategorical then some (p.distinct.keys.insertionSort (· ≤ ·)) else none

end FieldProfile

abbrev Profiles : Type := Dict String FieldProfile

/-- The value of one field. -/
def observeField (profiles : Profiles) (kv : String × Json) : Profiles :=
  if kv.1 = wfidProp then profiles
  else profiles.set kv.1 ((profiles.getD kv.1 .new).observe kv.2)

/-- The values of one feature. -/
def observeFeature (profiles : Profiles) (f : Feature) : Profiles :=
  match f.properties with
  | none => profiles
  | some props => props.items.foldl observeField profiles

def profileFields (features : List Feature) : Profiles :=
  (features.take profileScanLimit).foldl observeFeature empty

/-! ## Checks -/

def reservedFieldNames : List String := [wfidProp]

/-- A list of texts, sorted and cut. -/
def sortedTexts (texts : List String) (n : Option Nat) : Json :=
  let sorted := texts.insertionSort (· ≤ ·)
  .arr (((n.map sorted.take).getD sorted).map .str)

/-- The check of one field of `validate_set_fields`. -/
def validateField (profiles : Profiles) (name : String) (value : Json) : List EditFinding :=
  if name = "" then
    [finding "invalid_field_name" "field name must be a non-empty string" []]
  else if name ∈ reservedFieldNames then
    [finding "reserved_field" "reserved system field" [("field", .str name)]]
  else if name.length > maxRenameLength then
    [finding "invalid_field_name" "field name too long" [("field", .str name)]]
  else
    match profiles.find name with
    | none =>
      [finding "unknown_field"
        "field does not exist in dataset (creating new columns is out of scope)"
        [("field", .str name), ("known_fields", sortedTexts profiles.keys (some 24))]]
    | some profile =>
      if jsonFieldType value = "unsupported" then
        [finding "type_mismatch" "only scalar values are editable" [("field", .str name)]]
      else if jsonFieldType value ∉ profile.types.keys ∧ profile.types.keys ≠ [] ∧
          ¬ profile.types.keys = ["null"] then
        [finding "type_mismatch" "value type does not match field's existing types"
          [("field", .str name), ("value_type", .str (jsonFieldType value)),
            ("field_types", sortedTexts profile.types.keys none)]]
      else
        match profile.enum, value with
        | some allowed, .str s =>
          if s ∈ allowed then []
          else
            [finding "enum_violation" "value outside the field's observed vocabulary"
              [("field", .str name), ("value", .str (String.ofList (s.toList.take 64))),
                ("allowed", .arr ((allowed.take enumDistinctLimit).map .str))]]
        | _, _ => []

def validateSetFields (fields : Dict String Json) (profiles : Profiles) : List EditFinding :=
  if fields.items = [] then
    [finding "invalid_op" "set_fields requires a non-empty fields map" []]
  else fields.items.flatMap fun nv => validateField profiles nv.1 nv.2

def validateRenameField (op : RenameField) (profiles : Profiles) : List EditFinding :=
  if op.src = "" then
    [finding "invalid_field_name" "rename from must be a non-empty string" []]
  else if op.dst = "" then
    [finding "invalid_field_name" "rename to must be a non-empty string" []]
  else if op.dst.length > maxRenameLength then
    [finding "invalid_field_name" "new field name too long" [("field", .str op.dst)]]
  else if op.dst ∈ reservedFieldNames then
    [finding "reserved_field" "cannot rename onto reserved system field" [("field", .str op.dst)]]
  else if (profiles.find op.src).isNone then
    [finding "unknown_field" "source field does not exist"
      [("field", .str op.src), ("known_fields", sortedTexts profiles.keys (some 24))]]
  else if (profiles.find op.dst).isSome then
    [finding "invalid_field_name" "target field already exists" [("field", .str op.dst)]]
  else []

end WebGis.Edit
