/-
  The compute engine: runs of plans over one store of results.

  What an operator returns is a function of what it is called with: its category, operation and
  parameters, and the outputs of its inputs in the order in which the node declares them. A record
  of the store remembers the execution that it comes from, when an operator in this process
  returned it; `origin` is never read by a step.
-/
import WebGis.Compute.Plan
import WebGis.Compute.ResultStore

namespace WebGis.Compute

open Data

/-! ## Operators and records -/

/-- What `ops.execute_node` is called with. -/
structure Call where
  category : NodeCategory
  operation : String
  parameters : Json
  inputs : List (String × Payload)

/-- A node with the outputs of its inputs. -/
structure Execution where
  node : ExecutionNode
  inputs : List (String × Payload)

/-- The order of the keys of its parameters is nothing to an operator. -/
def Execution.call (x : Execution) : Call where
  category := x.node.category
  operation := x.node.operation
  parameters := Json.sortKeys (.obj x.node.parameters)
  inputs := x.inputs

/-- What the engine puts into its store: three marks under reserved keys, and the payload. -/
structure Record (φ σ : Type) where
  /-- `__node_fp__` -/
  nodeFp : Option σ
  /-- `__out_fp__` -/
  outFp : Option φ
  /-- `__upstream_fps__` -/
  upstream : Option (List (String × φ))
  data : Payload
  origin : Option Execution

/-- `k.startswith("__")` -/
def isReserved (k : String) : Bool := startsWith "__" k

/-- `{k: v for k, v in payload.items() if not k.startswith("__")}` -/
def withoutReserved (payload : Payload) : Payload := Table.delete payload fun kv => isReserved kv.1

variable {φ σ : Type} [DecidableEq φ] [DecidableEq σ]

/-- What goes for the payload goes for the marks. -/
def Record.clean (ρ : Record φ σ) : Record φ σ where
  nodeFp := none
  outFp := none
  upstream := none
  data := withoutReserved ρ.data
  origin := ρ.origin

/-- The parts of an engine that are not in its steps. -/
structure Engine (φ σ : Type) where
  settings : StoreSettings
  measure : Record φ σ → Nat
  /-- `json.loads(json.dumps(payload, default=str))` -/
  reread : Payload → Payload
  /-- `_output_fingerprint` -/
  outputFingerprint : Payload → φ
  /-- `semantic_fingerprint`, of what it is made from -/
  digest : Semantic → σ
  /-- The registered operators; `none` when one raises. -/
  operator : Call → Option Payload

def Engine.codec (E : Engine φ σ) : Codec (Record φ σ) where
  measure := E.measure
  clean := Record.clean
  reread := fun ρ => { ρ with data := E.reread ρ.data }

/-! ## Runs -/

inductive NodeStatus where
  /-- The store is being asked. -/
  | looking
  | executing
  | completed
  | reused
  | failed
  deriving DecidableEq

/-- A run of a plan; a node that has no status has not begun. -/
structure Run (φ : Type) where
  nodes : Dict String ExecutionNode
  planFingerprint : String
  owner : String
  outputs : Dict String Payload := Dict.empty
  outputsFp : Dict String φ := Dict.empty
  statuses : Dict String NodeStatus := Dict.empty

namespace Run

/-- The outputs of a node's inputs, in its order. -/
def execution (r : Run φ) (n : ExecutionNode) : Execution where
  node := n
  inputs := n.inputs.map fun s => (s, r.outputs.getD s Dict.empty)

/-- `_checkpoint_stale`: the inputs whose fingerprints are not those recorded. -/
def checkpointStale (r : Run φ) (upstream : Option (List (String × φ))) : Option (List String) :=
  match upstream with
  | none => none
  | some recorded =>
    let changed := (recorded.filter fun kv =>
      (r.outputsFp.find kv.1).any fun fp => fp ≠ kv.2).map Prod.fst
    if changed = [] then none else some changed

def setStatus (r : Run φ) (node : String) (status : NodeStatus) : Run φ :=
  { r with statuses := r.statuses.set node status }

/-- A node has its output. -/
def finish (r : Run φ) (node : String) (payload : Payload) (fp : φ) (status : NodeStatus) :
    Run φ :=
  { r with
    outputs := r.outputs.set node payload
    outputsFp := r.outputsFp.set node fp
    statuses := r.statuses.set node status }

end Run

/-- The key under which a node's result is sought and kept. -/
def Engine.reuseKey (E : Engine φ σ) (r : Run φ) (n : ExecutionNode) : ReuseKey σ :=
  if n.inputs ≠ [] then .checkpoint r.owner (E.digest n.semantic)
  else .plan r.owner r.planFingerprint (E.digest n.semantic)

/-- The record of an entry; a stub has none of the keys of a payload. -/
def recordOf (e : StoreEntry (Record φ σ)) : Record φ σ :=
  match e.body with
  | .resident ρ => ρ
  | .spilled _ _ =>
    { nodeFp := none, outFp := none, upstream := none, data := Dict.empty, origin := none }

/-! ## Steps -/

/-- The runs and the store; a look-up is known by its run and its node. -/
structure EngineWorld (φ σ : Type) where
  store : StoreWorld (String × String) (ReuseKey σ) (Record φ σ) := {}
  runs : Dict String (Run φ) := Dict.empty

/-- How a look-up that came upon a stub goes on. -/
inductive Fetch where
  | fail
  | putBack (spills : Bool)
  | lookUp
  deriving DecidableEq

inductive EngineAction where
  | start (run : String) (nodes : Dict String ExecutionNode) (planFingerprint owner : String)
  /-- A node in this process begins; `scope` is the authorization scope of its look-up. -/
  | begin (run node scope : String)
  | fetch (run node : String) (how : Fetch)
  /-- The operator returns, or raises for good. -/
  | execute (run node scope : String) (spills : Bool)
  /-- A durable node ends with a payload, which goes into the store when `spills` is given. -/
  | durable (run node scope : String) (payload : Payload) (spills : Option Bool)

namespace EngineWorld

variable (E : Engine φ σ)

def setRun (w : EngineWorld φ σ) (run : String) (r : Run φ) : EngineWorld φ σ :=
  { w with runs := w.runs.set run r }

/-- What a node does with what its look-up returned. -/
def resolve (r : Run φ) (n : ExecutionNode) : Option (Found (Record φ σ)) → Run φ
  | none => r.setStatus n.nodeId .looking
  | some (.entry e) =>
    let ρ := recordOf e
    let payload := withoutReserved ρ.data
    if (r.checkpointStale ρ.upstream).isNone then
      r.finish n.nodeId payload (ρ.outFp.getD (E.outputFingerprint payload)) .reused
    else r.setStatus n.nodeId .executing
  | some _ => r.setStatus n.nodeId .executing

/-- What is put for a payload of a node. -/
def record (r : Run φ) (n : ExecutionNode) (payload : Payload) (origin : Option Execution) :
    Record φ σ where
  nodeFp := some (E.digest n.semantic)
  outFp := some (E.outputFingerprint payload)
  upstream := some (n.inputs.filterMap fun s => (r.outputsFp.find s).map fun fp => (s, fp))
  data := payload
  origin := origin

/-- The action of the store that a fetch is. -/
def Fetch.action (id : String × String) :
    Fetch → StoreAction (String × String) (ReuseKey σ) (Record φ σ)
  | .fail => .fail id
  | .putBack spills => .putBack id spills
  | .lookUp => .lookUp id

/-- The node of a run that stands there. -/
def nodeAt (w : EngineWorld φ σ) (run node : String) (status : Option NodeStatus) :
    Option (Run φ × ExecutionNode) := do
  let r ← w.runs.find run
  let n ← r.nodes.find node
  if r.statuses.find node = status ∧ n.nodeId = node then some (r, n) else none

/-- All inputs of the node have their outputs. -/
def ready (r : Run φ) (n : ExecutionNode) : Bool :=
  n.inputs.all fun s => (r.outputs.find s).isSome

/-- One step of the engine. -/
def step (w : EngineWorld φ σ) : EngineAction → Option (EngineWorld φ σ)
  | .start run nodes planFingerprint owner =>
    match w.runs.find run with
    | some _ => none
    | none => some (w.setRun run
        { nodes := nodes, planFingerprint := planFingerprint, owner := owner })
  | .begin run node scope => do
      let (r, n) ← w.nodeAt run node none
      if n.policy = .inProcess ∧ ready r n then
        if n.reuse = .allow then
          let (store, found) ← w.store.step E.settings E.codec
            (.get (run, node) (E.reuseKey r n) scope)
          some ({ w with store := store }.setRun run (resolve E r n found))
        else some (w.setRun run (r.setStatus node .executing))
      else none
  | .fetch run node how => do
      let (r, n) ← w.nodeAt run node (some .looking)
      let (store, found) ← w.store.step E.settings E.codec (Fetch.action (run, node) how)
      some ({ w with store := store }.setRun run (resolve E r n found))
  | .execute run node scope spills => do
      let (r, n) ← w.nodeAt run node (some .executing)
      match E.operator (r.execution n).call with
      | none => some (w.setRun run (r.setStatus node .failed))
      | some payload =>
        let store := w.store.put E.settings E.codec (E.reuseKey r n) scope
          (record E r n payload (some (r.execution n))) spills
        some ({ w with store := store }.setRun run
          (r.finish node payload (E.outputFingerprint payload) .completed))
  | .durable run node scope payload spills => do
      let (r, n) ← w.nodeAt run node none
      if n.policy = .durableJob ∧ ready r n then
        let store := match spills with
          | none => w.store
          | some spills => w.store.put E.settings E.codec
              (.checkpoint r.owner (E.digest n.semantic)) scope (record E r n payload none) spills
        some ({ w with store := store }.setRun run
          (r.finish node payload (E.outputFingerprint payload) .completed))
      else none

/-- The worlds after actions that meet a condition. -/
inductive Reached (ok : EngineWorld φ σ → EngineAction → Prop) : EngineWorld φ σ → Prop where
  | start : Reached ok {}
  | step {w w' : EngineWorld φ σ} {a : EngineAction} :
      Reached ok w → ok w a → step E w a = some w' → Reached ok w'

end EngineWorld

end WebGis.Compute
