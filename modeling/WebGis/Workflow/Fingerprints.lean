/-
  The fingerprints behind the reuse of results: canonical parameters, the identity of an
  input's content, the environment, and the key of a node's work.

  `digest` is the first half of the hexadecimal sha256 of a text. The versions of the
  installed libraries and of the algorithm registry come as the digests that the source
  computes from them.
-/
import WebGis.Data.JsonTree
import WebGis.Workflow.Contracts

namespace WebGis.Workflow

open Data

def reuseFingerprintVersion : Int := 2

def maxFingerprintInputs : Nat := 8

def fpLevelContent : String := "content"
def fpLevelProfileDigest : String := "profile_digest"
def fpLevelShape : String := "shape"

/-- Only these levels are ever reused. -/
def reusableLevels : List String := [fpLevelContent, fpLevelProfileDigest]

/-! ## Parameters -/

/-- What `canonicalize_parameters` makes of a value that is no dict and no list: whole
    floats up to 2^53 become integers, and what it does not know becomes its text. -/
def canonicalScalar : Json → Json
  | .float q => if q.den = 1 ∧ q.num.natAbs ≤ 2 ^ 53 then .int q.num else .float q
  | .null => .str "None"
  | v => v

/-- `canonicalize_parameters`: dicts by their sorted keys, lists in their order. -/
def canonicalizeParameters : Json → Json := Json.mapTree canonicalScalar Json.byKey

/-! ## Identities -/

/-- The fields of a live descriptor that identities are made from, empty where absent. -/
structure RefDescriptor where
  refId : String := ""
  ref : String := ""
  contentRevision : Int := 0
  contentHash : String := ""
  contentSha256 : String := ""
  profileDigest : Json := .null
  featureCount : Json := .null
  rowCount : Json := .null
  geometryKind : String := ""
  crs : String := ""

/-- `a or b` for texts. -/
def orText (a b : String) : String := if a ≠ "" then a else b

/-- How an input's content is known, and as what. -/
structure ContentIdentity where
  level : String
  fp : String
  contentRevision : String
  deriving DecidableEq, Repr

section Digest

variable (R : FloatRepr) (digest : String → String)

def canonicalFingerprint (payload : Json) : String := digest (payload.dumps R)

/-- `str(descriptor.get("content_revision") or "")` -/
def RefDescriptor.revision (d : RefDescriptor) : String :=
  if d.contentRevision = 0 then "" else intText d.contentRevision

/-- `input_content_identity`: the best of content hash, profile digest and shape. -/
def inputContentIdentity (d : RefDescriptor) : ContentIdentity :=
  let sha := orText d.contentHash d.contentSha256
  if sha ≠ "" then ⟨fpLevelContent, clip 32 sha, d.revision⟩
  else match d.profileDigest with
    | .obj (f :: fs) =>
      ⟨fpLevelProfileDigest, canonicalFingerprint R digest (.obj (f :: fs)), d.revision⟩
    | _ =>
      ⟨fpLevelShape, canonicalFingerprint R digest (.obj
        [("ref", .str (orText d.refId d.ref)), ("feature_count", d.featureCount),
          ("row_count", d.rowCount), ("geometry_kind", .str d.geometryKind),
          ("crs", .str d.crs)]), d.revision⟩

/-- The versions that can change a numerical result. -/
structure Environment where
  runtimeSchemaVersion : Int
  executionPlanVersion : Int
  geoStackDigest : String
  algorithmRegistryFingerprint : String

def environmentFingerprint (env : Environment) (compilerVersion methodologyFingerprint : String) :
    String :=
  canonicalFingerprint R digest (.obj
    [("runtime", .int env.runtimeSchemaVersion), ("compiler", .str compilerVersion),
      ("plan", .int env.executionPlanVersion), ("geo_stack", .str env.geoStackDigest),
      ("methodology", .str (clip 64 methodologyFingerprint)),
      ("algorithms", .str env.algorithmRegistryFingerprint)])

/-! ## The fingerprint of a node's work -/

/-- The inputs that enter the fingerprint: the first eight, their ports cut short. -/
def boundedInputs (inputs : Dict String ContentIdentity) : Dict String ContentIdentity :=
  Dict.ofList ((inputs.items.take maxFingerprintInputs).map fun p => (clip 48 p.1, p.2))

/-- One input in the payload. -/
def ContentIdentity.payload (i : ContentIdentity) : Json :=
  .obj [("level", .str i.level), ("fp", .str i.fp), ("rev", .str i.contentRevision)]

/-- The payload of `node_reuse_fingerprint`. -/
def reusePayload (packageFingerprint nodeId algorithmId : String) (params : Json)
    (inputs : Dict String ContentIdentity) (envFp : String) : Json :=
  .obj
    [("v", .int reuseFingerprintVersion), ("pkg", .str (clip 64 packageFingerprint)),
      ("node", .str (clip 64 nodeId)), ("algo", .str (clip 64 algorithmId)),
      ("params", canonicalizeParameters params),
      ("inputs", .obj ((boundedInputs inputs).items.map fun p => (p.1, p.2.payload))),
      ("env", .str (clip 32 envFp))]

def nodeReuseFingerprint (packageFingerprint nodeId algorithmId : String) (params : Json)
    (inputs : Dict String ContentIdentity) (envFp : String) : String :=
  canonicalFingerprint R digest
    (reusePayload packageFingerprint nodeId algorithmId params inputs envFp)

end Digest

/-! ## What equal fingerprints say -/

open Json

theorem canonicalScalar_isScalar (v : Json) (h : v.isScalar) : (canonicalScalar v).isScalar := by
  cases v with
  | float q =>
    simp only [canonicalScalar]
    split <;> rfl
  | arr xs => cases h
  | obj fs => cases h
  | null | bool | int | str => rfl

theorem sortKeys_canonicalize (v : Json) :
    sortKeys (canonicalizeParameters v) = canonicalizeParameters v :=
  mapTree_mapTree canonicalScalar_isScalar arranges_byKey v

variable {i : ContentIdentity}

theorem ContentIdentity.eq_of_payload {j : ContentIdentity}
    (h : sortKeys i.payload = sortKeys j.payload) : i = j := by
  have hfield : ∀ {k s}, (k, Json.str s) ∈ [("level", Json.str i.level), ("fp", .str i.fp),
      ("rev", .str i.contentRevision)] → ∃ w, (k, w) ∈ [("level", Json.str j.level),
      ("fp", .str j.fp), ("rev", .str j.contentRevision)] ∧ sortKeys w = .str s :=
    fun hm => mem_of_sortKeys_eq h hm
  obtain ⟨a, ha, hla⟩ := hfield (k := "level") (s := i.level) (by simp)
  obtain ⟨b, hb, hlb⟩ := hfield (k := "fp") (s := i.fp) (by simp)
  obtain ⟨c, hc, hlc⟩ := hfield (k := "rev") (s := i.contentRevision) (by simp)
  simp at ha hb hc
  subst ha hb hc
  obtain ⟨il, ifp, ir⟩ := i
  obtain ⟨jl, jfp, jr⟩ := j
  obtain rfl := Json.str.inj hla
  obtain rfl := Json.str.inj hlb
  obtain rfl := Json.str.inj hlc
  rfl

variable {algo env' node pkg' algo' node' : String} {params params' : Json}
  {inputs inputs' : Dict String ContentIdentity}

theorem params_of_payload_eq {pkg env : String}
    (h : sortKeys (reusePayload pkg node algo params inputs env) =
      sortKeys (reusePayload pkg' node' algo' params' inputs' env')) :
    canonicalizeParameters params = canonicalizeParameters params' := by
  obtain ⟨w, hw, hs⟩ := mem_of_sortKeys_eq h (k := "params") (v := canonicalizeParameters params)
    (by simp)
  simp at hw
  rw [hw, sortKeys_canonicalize, sortKeys_canonicalize] at hs
  exact hs.symm

theorem inputs_of_payload_eq {pkg env : String}
    (h : sortKeys (reusePayload pkg node algo params inputs env) =
      sortKeys (reusePayload pkg' node' algo' params' inputs' env'))
    {port : String} (hi : (port, i) ∈ (boundedInputs inputs).items) :
    (port, i) ∈ (boundedInputs inputs').items := by
  obtain ⟨w, hw, hs⟩ := mem_of_sortKeys_eq h (k := "inputs")
    (v := .obj ((boundedInputs inputs).items.map fun p => (p.1, p.2.payload))) (by simp)
  simp at hw
  rw [hw] at hs
  obtain ⟨u, hu, hsu⟩ := mem_of_sortKeys_eq hs.symm (k := port) (v := i.payload)
    (List.mem_map.mpr ⟨(port, i), hi, rfl⟩)
  obtain ⟨⟨q, j⟩, hj, he⟩ := List.mem_map.mp hu
  obtain ⟨rfl, rfl⟩ := Prod.mk.inj he
  rw [← ContentIdentity.eq_of_payload hsu]
  exact hj

/-! ## Parameters that their canonical form gives back -/

/-- No scalar that the canonical form confuses with another: neither null nor its text. -/
def NoneFree (v : Json) : Prop := ∀ x ∈ leaves v, x ≠ .null ∧ x ≠ .str "None"

variable {v : Json}

theorem wholeFloat_canonicalScalar (h : v ≠ .null) :
    wholeFloat (canonicalScalar v) = wholeFloat v := by
  cases v with
  | null => exact absurd rfl h
  | float q =>
    simp only [canonicalScalar]
    split
    · rename_i hq
      simp [wholeFloat, hq.1]
    · rfl
  | bool | int | str | arr | obj => rfl

theorem normal_canonicalize (h : ∀ x ∈ leaves v, x ≠ .null) :
    normal (canonicalizeParameters v) = normal v := by
  unfold normal canonicalizeParameters
  rw [mapTree_mapTree canonicalScalar_isScalar arranges_byKey]
  exact mapTree_congr fun x hx => wholeFloat_canonicalScalar (h x hx)

theorem canonicalScalar_eq_none :
    canonicalScalar v = .str "None" ↔ v = .null ∨ v = .str "None" := by
  cases v with
  | null => simp [canonicalScalar]
  | float q =>
    simp only [canonicalScalar]
    split <;> simp
  | bool | int | str | arr | obj => simp [canonicalScalar]

theorem noneFree_iff_canonicalize :
    NoneFree v ↔ Json.str "None" ∉ leaves (canonicalizeParameters v) := by
  have hmem := mem_leaves_mapTree canonicalScalar_isScalar v (.str "None")
  constructor
  · intro h hx
    obtain ⟨y, hy, hn⟩ := hmem.mp hx
    rcases canonicalScalar_eq_none.mp hn with hy0 | hy0
    · exact (h y hy).1 hy0
    · exact (h y hy).2 hy0
  · intro h x hx
    constructor
    · exact fun hn => h (hmem.mpr ⟨x, hx, canonicalScalar_eq_none.mpr (.inl hn)⟩)
    · exact fun hn => h (hmem.mpr ⟨x, hx, canonicalScalar_eq_none.mpr (.inr hn)⟩)

theorem same_of_canonicalize_eq {w : Json} (hv : NoneFree v)
    (h : canonicalizeParameters v = canonicalizeParameters w) : Same v w := by
  have hw : NoneFree w := by
    rw [noneFree_iff_canonicalize, ← h, ← noneFree_iff_canonicalize]
    exact hv
  calc normal v = normal (canonicalizeParameters v) :=
        (normal_canonicalize fun x hx => (hv x hx).1).symm
    _ = normal (canonicalizeParameters w) := by rw [h]
    _ = normal w := normal_canonicalize fun x hx => (hw x hx).1

/-- Null for its text and the text for null. -/
def swapNone : Json → Json
  | .null => .str "None"
  | .str s => if s = "None" then .null else .str s
  | v => v

/-- The same value with every null and every `"None"` exchanged. -/
def swapped : Json → Json := mapTree swapNone id

theorem swapNone_isScalar (v : Json) (h : v.isScalar) : (swapNone v).isScalar := by
  cases v with
  | str s =>
    simp only [swapNone]
    split <;> rfl
  | arr xs => cases h
  | obj fs => cases h
  | null | bool | int | float => rfl

theorem canonicalScalar_swapNone (v : Json) :
    canonicalScalar (swapNone v) = canonicalScalar v := by
  cases v with
  | null => rfl
  | str s =>
    simp only [swapNone]
    split
    · rename_i hs
      rw [hs]
      rfl
    · rfl
  | bool | int | float | arr | obj => rfl

theorem canonicalize_swapped (v : Json) :
    canonicalizeParameters (swapped v) = canonicalizeParameters v := by
  unfold canonicalizeParameters swapped
  rw [mapTree_mapTree swapNone_isScalar arranges_id]
  exact mapTree_congr fun x _ => canonicalScalar_swapNone x

theorem wholeFloat_swapNone (h : wholeFloat v = wholeFloat (swapNone v)) :
    v ≠ .null ∧ v ≠ .str "None" := by
  constructor
  · rintro rfl
    simp [swapNone, wholeFloat] at h
  · rintro rfl
    simp [swapNone, wholeFloat] at h

theorem noneFree_of_same_swapped (h : Same v (swapped v)) : NoneFree v := by
  unfold Same normal swapped at h
  rw [mapTree_mapTree swapNone_isScalar arranges_id] at h
  exact fun x hx => wholeFloat_swapNone (eq_of_mapTree_eq h x hx)

end WebGis.Workflow
