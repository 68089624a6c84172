/-
  Plans of the compute engine, and the fingerprint that a node is known by.

  The fingerprint is a hash of the canonical text of what may affect a node's output. Its inputs
  are in it by their names, in sorted order, and nothing of what they returned; parameters are in
  it down to a depth. `Semantic` is what the text is of, and a function `digest` of it stands for
  the hash.
-/
import WebGis.Data.JsonTree

namespace WebGis.Compute

open Data List Json

/-! ## Nodes -/

inductive NodeCategory where
  | sourceDiscovery
  | sourceScan
  | query
  | filter
  | project
  | reproject
  | spatialJoin
  | attributeJoin
  | aggregate
  | vectorOperation
  | rasterOperation
  | rasterWindowOperation
  | interpolation
  | networkOperation
  | decisionOperation
  | materialize
  | export
  | artifactRegister
  deriving DecidableEq

inductive ExecutionPolicyKind where
  | inProcess
  | durableJob
  deriving DecidableEq

inductive NodeReusePolicy where
  | allow
  | disallow
  deriving DecidableEq

/-- The kinds of payload, by their values. -/
inductive PayloadKind where
  | features
  | rows
  | ref
  | rasterPath
  | none
  | any
  deriving DecidableEq

def PayloadKind.value : PayloadKind → String
  | features => "features"
  | rows => "rows"
  | ref => "ref"
  | rasterPath => "raster_path"
  | none => "none"
  | any => "any"

structure CrsExpectation where
  outputCrs : Option String := none
  allowReproject : Bool := true
  deriving DecidableEq

structure ExecutionNode where
  nodeId : String
  category : NodeCategory
  operation : String := ""
  inputs : List String := []
  datasetFingerprints : List (String × String) := []
  parameters : List (String × Json) := []
  crs : Option CrsExpectation := none
  policy : ExecutionPolicyKind := .inProcess
  reuse : NodeReusePolicy := .allow
  produces : Option PayloadKind := none
  accepts : List PayloadKind := []
  /-- `partition.model_dump()` -/
  partition : Option Json := none

/-- A payload: features, rows, a reference, a path and metadata under their keys. -/
abbrev Payload : Type := Dict String Json

/-! ## Canonical values -/

def qualname : Json → String
  | .null => "NoneType"
  | .bool _ => "bool"
  | .int _ => "int"
  | .float _ => "float"
  | .str _ => "str"
  | .arr _ => "list"
  | .obj _ => "dict"

/-- What is below the depth that a canonical value keeps. -/
def depthOverflow (v : Json) : Json := .str ("__py__:depth_overflow:" ++ qualname v)

def maxCanonicalDepth : Nat := 24

mutual

/-- `canonicalize`, with so many levels left. -/
def canonicalize : Nat → Json → Json
  | 0, v => depthOverflow v
  | levels + 1, .arr xs => .arr (canonicalItems levels xs)
  | levels + 1, .obj fs => .obj (Json.byKey (canonicalFields levels fs))
  | _ + 1, v => v

def canonicalItems : Nat → List Json → List Json
  | _, [] => []
  | levels, x :: xs => canonicalize levels x :: canonicalItems levels xs

def canonicalFields : Nat → List (String × Json) → List (String × Json)
  | _, [] => []
  | levels, (k, v) :: fs => (k, canonicalize levels v) :: canonicalFields levels fs

end

mutual

/-- How many levels of arrays and objects a value has. -/
def height : Json → Nat
  | .arr xs => itemsHeight xs + 1
  | .obj fs => fieldsHeight fs + 1
  | _ => 0

def itemsHeight : List Json → Nat
  | [] => 0
  | x :: xs => max (height x) (itemsHeight xs)

def fieldsHeight : List (String × Json) → Nat
  | [] => 0
  | (_, v) :: fs => max (height v) (fieldsHeight fs)

end

theorem height_item {x : Json} {xs : List Json} (h : x ∈ xs) : height x ≤ itemsHeight xs := by
  induction xs with
  | nil => cases h
  | cons y ys ih =>
    rw [itemsHeight]
    rcases mem_cons.mp h with rfl | h
    · exact le_max_left _ _
    · exact (ih h).trans (le_max_right _ _)

theorem height_field {f : String × Json} {fs : List (String × Json)} (h : f ∈ fs) :
    height f.2 ≤ fieldsHeight fs := by
  induction fs with
  | nil => cases h
  | cons g gs ih =>
    rw [fieldsHeight]
    rcases mem_cons.mp h with rfl | h
    · exact le_max_left _ _
    · exact (ih h).trans (le_max_right _ _)

theorem canonicalItems_eq (levels : Nat) (xs : List Json) :
    canonicalItems levels xs = xs.map (canonicalize levels) := by
  induction xs with
  | nil => rfl
  | cons x xs ih => rw [canonicalItems, ih, map_cons]

theorem canonicalFields_eq (levels : Nat) (fs : List (String × Json)) :
    canonicalFields levels fs = fs.map (onValue (canonicalize levels)) := by
  induction fs with
  | nil => rfl
  | cons f fs ih => rw [canonicalFields, ih, map_cons, onValue]

/-- A value that is not too deep keeps everything but the order of its keys. -/
theorem canonicalize_of_height {v : Json} :
    ∀ {levels : Nat}, height v < levels → canonicalize levels v = sortKeys v := by
  induction v using Json.tree_induct with
  | scalar v hv =>
    intro levels h
    obtain ⟨n, rfl⟩ := Nat.exists_eq_succ_of_ne_zero (Nat.ne_of_gt (Nat.zero_lt_of_lt h))
    rw [sortKeys, mapTree_scalar _ _ hv]
    cases v with
    | arr xs => cases hv
    | obj fs => cases hv
    | null | bool | int | float | str => rfl
  | arr xs ih =>
    intro levels h
    obtain ⟨n, rfl⟩ := Nat.exists_eq_succ_of_ne_zero (Nat.ne_of_gt (Nat.zero_lt_of_lt h))
    rw [height] at h
    rw [canonicalize, canonicalItems_eq, sortKeys, mapTree_arr]
    refine congrArg Json.arr (map_congr_left fun x hx => ?_)
    have hx' := height_item hx
    exact ih x hx (by omega)
  | obj fs ih =>
    intro levels h
    obtain ⟨n, rfl⟩ := Nat.exists_eq_succ_of_ne_zero (Nat.ne_of_gt (Nat.zero_lt_of_lt h))
    rw [height] at h
    rw [canonicalize, canonicalFields_eq, sortKeys, Json.mapTree_obj]
    refine congrArg (fun fs => Json.obj (Json.byKey fs)) (map_congr_left fun f hf => ?_)
    have hf' := height_field hf
    exact congrArg (Prod.mk f.1) (ih f hf (by omega))

/-! ## Fingerprints -/

/-- The digits or letters of a CRS code. -/
def isCodeChar (c : Char) : Bool := c.isAlphanum || c = '_'

def normalizeCrsRef (crs : String) : String :=
  let text := strip crs
  let isCode := fun s : String => s ≠ "" ∧ s.toList.all isCodeChar
  let isNumber := fun s : String => s ≠ "" ∧ s.toList.all Char.isDigit
  match text.splitOn ":" with
  | [urn, ogc, defn, crs, authority, version, code] =>
    if [urn, ogc, defn, crs].map String.toLower = ["urn", "ogc", "def", "crs"] ∧
        isCode authority ∧ version = "" ∧ isNumber code then
      authority.toUpper ++ ":" ++ code
    else text
  | [authority, code] =>
    if isCode authority ∧ isNumber code ∧
        authority.toUpper ∈ ["EPSG", "ESRI", "IAU", "OGC"] then
      authority.toUpper ++ ":" ++ code
    else text
  | _ => text

/-- `sorted(texts)` -/
def sortTexts (texts : List String) : List String := texts.insertionSort (· ≤ ·)

/-- What `semantic_fingerprint` makes the text of. -/
structure Semantic where
  category : NodeCategory
  operation : String
  inputs : List String
  datasetFingerprints : List (String × String)
  parameters : Json
  crs : Option CrsExpectation
  produces : Option PayloadKind
  accepts : List String
  partition : Option Json
  deriving DecidableEq

namespace ExecutionNode

def normalizedCrs (n : ExecutionNode) : Option CrsExpectation :=
  n.crs.map fun c => { c with outputCrs := c.outputCrs.map fun s =>
    if s = "" then s else normalizeCrsRef s }

/-- The parameters are one level down in what is made canonical. -/
def semantic (n : ExecutionNode) : Semantic where
  category := n.category
  operation := n.operation
  inputs := sortTexts n.inputs
  datasetFingerprints := n.datasetFingerprints.insertionSort fun a b => a.1 ≤ b.1
  parameters := canonicalize maxCanonicalDepth (.obj n.parameters)
  crs := n.normalizedCrs
  produces := n.produces
  accepts := sortTexts (n.accepts.map PayloadKind.value)
  partition := n.partition.map sortKeys

/-- No parameter is beyond the depth that the fingerprint keeps. -/
def Shallow (n : ExecutionNode) : Prop := height (.obj n.parameters) < maxCanonicalDepth

theorem parameters_of_semantic {n m : ExecutionNode} (h : n.semantic = m.semantic)
    (hn : n.Shallow) (hm : m.Shallow) :
    sortKeys (.obj n.parameters) = sortKeys (.obj m.parameters) := by
  have hparameters := congrArg Semantic.parameters h
  change canonicalize maxCanonicalDepth _ = canonicalize maxCanonicalDepth _ at hparameters
  rwa [canonicalize_of_height hn, canonicalize_of_height hm] at hparameters

end ExecutionNode

/-- The keys of results: `node_reuse_key` and `checkpoint_reuse_key`. -/
inductive ReuseKey (σ : Type) where
  | plan (owner planFingerprint : String) (fingerprint : σ)
  | checkpoint (owner : String) (fingerprint : σ)
  deriving DecidableEq

/-- The fingerprint at the end of a key. -/
def ReuseKey.fingerprint {σ : Type} : ReuseKey σ → σ
  | plan _ _ fp => fp
  | checkpoint _ fp => fp

end WebGis.Compute
