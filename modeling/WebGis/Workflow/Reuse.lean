/-
  The reuse of a node's result: the inputs the driver gathers for it, the fingerprint of
  its work, the entry it leaves in the index and the check before that entry is used.

  The inputs are consumed as a list of references but fingerprinted as a map keyed by port.
-/
import WebGis.Workflow.Fingerprints
import WebGis.Workflow.Dag
import WebGis.Workflow.Database

namespace WebGis.Workflow

open Data List Dict

/-! ## Gathering the inputs -/

/-- What one evaluation of a node sees: the answers of the store and of the descriptor
    probe in each pass over the input edges, and the parameters given for the run. -/
structure Evaluation where
  packageFp : String
  env : Environment
  getNode : Nat → String → Option NodeRow
  descriptor : Nat → String → Option RefDescriptor
  nodeParams : Dict String Json

/-- The most edges whose sources are read. -/
def maxInputEdges : Nat := 4

/-- The sources of a node's inputs and the ports they lead to; without edges, what it
    depends on. -/
def inputEdges (dag : WorkflowDAG) (nodeId : String) : List (String × String) :=
  match (upstreamPorts dag).getD nodeId [] with
  | [] => (((upstreamOf dag).getD nodeId []).map fun up => (up, "")).take maxInputEdges
  | edgePorts => edgePorts.take maxInputEdges

/-- `f"input{i + 1}"` -/
def inputName (i : Nat) : String := "input" ++ intText (i + 1 : Nat)

/-- The declared input ports, numbered where they have no name. -/
def portNames (dag : WorkflowDAG) (nodeId : String) : List String :=
  match dag.node nodeId with
  | some n => n.inputs.zipIdx.map fun p => orText p.1 (inputName p.2)
  | none => []

/-- The port that the edge at `idx` is filed under. -/
def portFor (names : List String) (idx : Nat) (toPort : String) : String :=
  if toPort ∈ names then toPort else names.getD idx (inputName idx)

/-- `row.get("output_ref") or row.get("bound_ref") or ""` -/
def refOf (row : Option NodeRow) : String :=
  match row with
  | some r => orText (r.outputRef.getD "") (r.boundRef.getD "")
  | none => ""

/-- The reference and the descriptor read in the pass at `idx`, if there is a reference. A
    reference to a child workflow has no descriptor of its own. -/
def readInput (ev : Evaluation) (idx : Nat) (up : String) : Option (String × Option RefDescriptor) :=
  let ref := refOf (ev.getNode idx up)
  if ref = "" then none
  else if startsWith "wi:" ref then some (ref, some { refId := ref })
  else some (ref, ev.descriptor idx ref)

structure Gathered where
  refs : List String := []
  portDescs : Dict String (Option RefDescriptor) := Dict.empty
  portIdents : Dict String ContentIdentity := Dict.empty

section Driver

variable (R : FloatRepr) (digest : String → String) (dag : WorkflowDAG) (nodeId : String)

def gatherInputs (ev : Evaluation) : Gathered :=
  let names := portNames dag nodeId
  (inputEdges dag nodeId).zipIdx.foldl (fun g edge =>
    match readInput ev edge.2 edge.1.1 with
    | none => g
    | some (ref, desc) =>
      let port := portFor names edge.2 edge.1.2
      { refs := g.refs ++ [ref]
        portDescs := g.portDescs.set port desc
        portIdents := g.portIdents.set port (inputContentIdentity R digest (desc.getD {})) }) {}

/-- The declared parameters, overridden by those of the run. -/
def effectiveParams (node : WorkflowNode) (ev : Evaluation) : Json :=
  .obj (node.params.merge ev.nodeParams).items

def reuseFp (node : WorkflowNode) (ev : Evaluation) : String :=
  nodeReuseFingerprint R digest ev.packageFp nodeId (orText node.algorithmId node.capability)
    (effectiveParams node ev) (gatherInputs R digest dag nodeId ev).portIdents
    (environmentFingerprint R digest ev.env (orText dag.compilerVersion "4.0.0")
      dag.methodologyFingerprint)

end Driver

/-! ## The index -/

/-- What the index keeps of an evaluation and the check reads. -/
structure ReuseRecord where
  packageFingerprint : String
  fingerprintLevel : String
  inputFingerprints : Dict String ContentIdentity

/-- `_bounded_inputs` -/
def boundedRecord (inputs : Dict String ContentIdentity) : Dict String ContentIdentity :=
  ofList ((inputs.items.take 16).map fun p =>
    (clip 48 p.1, ⟨clip 24 p.2.level, clip 64 p.2.fp, clip 32 p.2.contentRevision⟩))

/-- The level of an entry: the lowest of its inputs, `shape` without inputs. -/
def recordLevel (inputs : Dict String ContentIdentity) : String :=
  let levels := inputs.items.map fun p => p.2.level
  if levels = [] ∨ levels.any (· ∉ reusableLevels) then fpLevelShape
  else if fpLevelContent ∈ levels then fpLevelContent
  else fpLevelProfileDigest

/-- The entry of `_record_reuse`, as `find` gives it back. -/
def recordReuse (packageFp : String) (inputs : Dict String ContentIdentity) : ReuseRecord where
  packageFingerprint := clip 64 packageFp
  fingerprintLevel := recordLevel inputs
  inputFingerprints := boundedRecord inputs

/-- `evaluate_eligibility`: why the entry may not be reused, `none` when it may. -/
def evaluateEligibility (rec : ReuseRecord) (packageFingerprint : String)
    (currentInputs : Dict String ContentIdentity) : Option String :=
  if rec.fingerprintLevel ∉ reusableLevels then
    some ("level_" ++ orText rec.fingerprintLevel "empty" ++ "_not_reusable")
  else if rec.packageFingerprint ≠ packageFingerprint then some "package_changed"
  else currentInputs.items.findSome? fun (port, cur) =>
    let stored := rec.inputFingerprints.getD port ⟨"", "", ""⟩
    if cur.fp = "" then some ("input_identity_absent:" ++ port)
    else if stored.fp ≠ cur.fp then some ("input_changed:" ++ port)
    else if stored.contentRevision ≠ cur.contentRevision then
      some ("input_revision_changed:" ++ port)
    else none

/-! ## What is consumed and what is fingerprinted -/

section Gathering

variable (R : FloatRepr) (digest : String → String) (dag : WorkflowDAG) (nodeId : String)

/-- The reference read in a pass, with the identity of its content. -/
def passInput (ev : Evaluation) (edge : (String × String) × Nat) :
    Option (String × ContentIdentity) :=
  (readInput ev edge.2 edge.1.1).map fun p =>
    (p.1, inputContentIdentity R digest (p.2.getD {}))

/-- The references a node consumes, with the identities of their contents. -/
def consumedInputs (ev : Evaluation) : List (String × ContentIdentity) :=
  (inputEdges dag nodeId).zipIdx.filterMap (passInput R digest ev)

/-- The identities of what a node consumes, one for each reference. -/
def consumedIdentities (ev : Evaluation) : List ContentIdentity :=
  (consumedInputs R digest dag nodeId ev).map Prod.snd

/-- The port of the edge read in a pass. -/
def passPort (edge : (String × String) × Nat) : String :=
  portFor (portNames dag nodeId) edge.2 edge.1.2

/-- The keys that the input edges have in the fingerprint. -/
def portKeys : List String :=
  (inputEdges dag nodeId).zipIdx.map fun edge => clip 48 (passPort dag nodeId edge)

theorem gatherInputs_eq (ev : Evaluation) :
    (gatherInputs R digest dag nodeId ev).refs = (consumedInputs R digest dag nodeId ev).map Prod.fst ∧
    (gatherInputs R digest dag nodeId ev).portIdents =
      ofList ((inputEdges dag nodeId).zipIdx.filterMap fun edge =>
        (passInput R digest ev edge).map fun p => (passPort dag nodeId edge, p.2)) := by
  unfold gatherInputs consumedInputs ofList
  generalize (inputEdges dag nodeId).zipIdx = edges
  suffices hfold : ∀ g : Gathered,
      (edges.foldl _ g).refs = g.refs ++ (edges.filterMap (passInput R digest ev)).map Prod.fst ∧
      (edges.foldl _ g).portIdents = (edges.filterMap fun edge =>
        (passInput R digest ev edge).map fun p => (passPort dag nodeId edge, p.2)).foldl
          (fun d kv => d.set kv.1 kv.2) g.portIdents from hfold {}
  induction edges with
  | nil => exact fun g => ⟨(append_nil _).symm, rfl⟩
  | cons edge edges ih =>
    intro g
    rw [foldl_cons]
    obtain ⟨hrefs, hidents⟩ := ih _
    refine ⟨hrefs.trans ?_, hidents.trans ?_⟩
    · cases h : readInput ev edge.2 edge.1.1 with
      | none => simp [passInput, h]
      | some p => simp [passInput, h]
    · cases h : readInput ev edge.2 edge.1.1 with
      | none => simp [passInput, h]
      | some p => simp [passInput, passPort, h]

theorem inputEdges_length : (inputEdges dag nodeId).length ≤ maxInputEdges := by
  unfold inputEdges
  split <;> exact length_take_le _ _

theorem keys_sublist {ι κ β : Type} (key : ι → κ) (f : ι → Option β) (xs : List ι) :
    ((xs.filterMap fun i => (f i).map fun b => (key i, b)).map Prod.fst).Sublist (xs.map key) := by
  induction xs with
  | nil => exact List.Sublist.refl _
  | cons x xs ih =>
    cases h : f x with
    | none =>
      rw [filterMap_cons_none (by simp [h]), map_cons]
      exact ih.cons _
    | some b =>
      rw [filterMap_cons_some (by simp [h]; rfl), map_cons, map_cons]
      exact ih.cons_cons _

theorem boundedInputs_items (ev : Evaluation) (h : (portKeys dag nodeId).Nodup) :
    (boundedInputs (gatherInputs R digest dag nodeId ev).portIdents).items =
      (inputEdges dag nodeId).zipIdx.filterMap fun edge =>
        (passInput R digest ev edge).map fun p => (clip 48 (passPort dag nodeId edge), p.2) := by
  set edges := (inputEdges dag nodeId).zipIdx with hedges
  set f : (String × String) × Nat → Option ContentIdentity := fun edge =>
    (passInput R digest ev edge).map Prod.snd with hf
  have hlen : edges.length ≤ maxFingerprintInputs := by
    rw [hedges, length_zipIdx]
    exact (inputEdges_length dag nodeId).trans (by decide)
  have hports : (edges.map (passPort dag nodeId)).Nodup := by
    refine List.Nodup.of_map (clip 48) ?_
    rw [map_map]
    exact h
  have hitems : (gatherInputs R digest dag nodeId ev).portIdents.items =
      edges.filterMap fun edge => (f edge).map fun i => (passPort dag nodeId edge, i) := by
    rw [(gatherInputs_eq R digest dag nodeId ev).2, items_ofList]
    · simp [hf, hedges, Option.map_map, Function.comp_def]
    · refine List.Nodup.sublist ?_ hports
      simpa [hf, hedges, Option.map_map, Function.comp_def] using
        keys_sublist (passPort dag nodeId) f edges
  have htake : (edges.filterMap fun edge => (f edge).map fun i =>
      (passPort dag nodeId edge, i)).length ≤ maxFingerprintInputs :=
    (length_filterMap_le _ _).trans hlen
  rw [boundedInputs, hitems, take_of_length_le htake, map_filterMap, items_ofList]
  · simp [hf, Option.map_map, Function.comp_def]
  · refine List.Nodup.sublist ?_ h
    simpa [portKeys, hf, hedges, Option.map_map, Function.comp_def] using
      keys_sublist (fun edge => clip 48 (passPort dag nodeId edge)) f edges

end Gathering

end WebGis.Workflow
