/-
  The driver of an instance: one wave of its loop after another.

  Geocomputation, bindings and the contents of results stand behind parameters; what the
  driver does to the states of the nodes, and in which order, is as in the source.
-/
import WebGis.Workflow.Store
import WebGis.Workflow.Reuse

namespace WebGis.Workflow

open Data Conc NodeState

/-- `_cancel_all`: cancels every node that was not decided in `states`, then the instance
    unless it is in a terminal status. The cancel token of running computations is not
    modelled. -/
def cancelAll (instanceId ownerScope : String) (states : States) : Program Unit := do
  Prog.forEach states.items fun p =>
    if isTerminal p.2 then return ()
    else (transitionNode (cancelCall instanceId p.1 "INSTANCE_CANCELLED" "cancel")).discard
  match ← getInstance instanceId (some ownerScope) with
  | none => return ()
  | some inst =>
    if inst.status ∈ instanceTerminalStatuses then return ()
    else
      let now ← utcnow
      (updateInstance instanceId (some ownerScope) (some inst.revision)
        { status := some .cancelled, terminalAt := some (some now) }).discard

/-- The wave that finds the instance's cancel flag: it reads the states and cancels. -/
def cancelWave (instanceId ownerScope : String) : Program Unit := do
  let states ← getNodeStates instanceId
  cancelAll instanceId ownerScope states

/-! ## Requeueing stale nodes -/

/-- The entry that the index holds for a node's work and the check lets pass. -/
structure ReuseHit where
  artifactRef : String
  outputFingerprint : String
  evidence : Json

/-- The transition of `_reuse_resolve`, with the attempt count of the row that was read. -/
def reuseCall (instanceId nodeId : String) (expectedFrom : NodeState) (requireClaim : Bool)
    (runToken : String) (hit : ReuseHit) (attempts : Nat) : TransitionCall where
  instanceId := instanceId
  nodeId := nodeId
  toState := succeeded
  expectedFrom := some expectedFrom
  requireClaim := requireClaim
  claimedBy := runToken
  complete := true
  reason := "REUSE_HIT"
  event := "reuse"
  patch :=
    { outputRef := some hit.artifactRef
      reuse := some hit.evidence
      outputFingerprint := some hit.outputFingerprint
      attemptLog := some (.obj
        [("attempt", .int attempts), ("status", .str "reused"), ("backend", .str "reuse_index"),
          ("output_ref", .str (clip 96 hit.artifactRef))]) }

/-- `_reuse_resolve` after the index has answered: whether the node was resolved. -/
def reuseResolve (instanceId nodeId : String) (expectedFrom : NodeState) (requireClaim : Bool)
    (runToken : String) (answer : Option ReuseHit) : Program Bool :=
  match answer with
  | none => return false
  | some hit => do
      let row ← getNode instanceId nodeId
      let r ← transitionNode (reuseCall instanceId nodeId expectedFrom requireClaim runToken hit
        ((row.map fun r => r.attempts).getD 0))
      return r.ok

/-- The transition of a stale node that has to be computed again. -/
def recomputeCall (instanceId nodeId : String) : TransitionCall where
  instanceId := instanceId
  nodeId := nodeId
  toState := ready
  expectedFrom := some stale
  reason := "STALE_RECOMPUTE"
  event := "recompute"

/-- Nothing more is to happen to the node. -/
def settled (st : Option NodeState) : Bool := st = some succeeded || st = some skipped

/-- Whether the requeue pass leaves a node alone: it is not in the graph, it is destructive,
    or a direct predecessor is not settled in the states so far. -/
def requeueHeld (dag : WorkflowDAG) (states : States) (nodeId : String) : Bool :=
  match dag.node nodeId with
  | none => true
  | some node => node.effectiveSideEffect = "destructive" ||
      (predecessors dag nodeId).any fun u => !settled (states.find u)

/-- One stale node of a wave: resolved by the index, or put back to `READY`. What the reads
    of the inputs see is part of what the index answers, which is `reuse`. -/
def requeueOne (instanceId : String) (dag : WorkflowDAG) (reuse : String → Option ReuseHit)
    (states : States) (nodeId : String) : Program States :=
  if requeueHeld dag states nodeId then return states
  else do
    Prog.forEach (inputEdges dag nodeId) fun e => (getNode instanceId e.1).discard
    if ← reuseResolve instanceId nodeId stale false "" (reuse nodeId) then
      return states.set nodeId succeeded
    else
      let r ← transitionNode (recomputeCall instanceId nodeId)
      return if r.ok then states.set nodeId ready else states

/-- The nodes that are stale, in the order in which they were read. -/
def staleNodes (states : States) : List String :=
  (states.items.filter fun p => p.2 = stale).map Prod.fst

/-- The requeue pass: at most `maxConcurrency` stale nodes, those read first. -/
def requeueStale (instanceId : String) (dag : WorkflowDAG) (maxConcurrency : Nat)
    (reuse : String → Option ReuseHit) (states : States) : Program States :=
  Prog.foldEach ((staleNodes states).take maxConcurrency) states
    (requeueOne instanceId dag reuse)

/-! ## Skipping below failed optional nodes -/

/-- Whether each node is optional, by its id. -/
def optionalMap (dag : WorkflowDAG) : Dict String Bool :=
  Dict.ofList (dag.nodes.map fun n => (n.nodeId, n.optional))

def isOptional (dag : WorkflowDAG) (nodeId : String) : Bool := (optionalMap dag).getD nodeId false

/-- Optional nodes that failed or are blocked. -/
def failedOptional (dag : WorkflowDAG) (states : States) : List String :=
  (states.items.filter fun p => isOptional dag p.1 && (p.2 = failed || p.2 = blocked)).map Prod.fst

def skipCall (instanceId nodeId : String) : TransitionCall where
  instanceId := instanceId
  nodeId := nodeId
  toState := skipped
  reason := "OPTIONAL_UPSTREAM_FAILED"
  event := "skip"

/-- States that the skip pass tries to skip from. -/
def skippable (st : Option NodeState) : Bool :=
  st = some pending || st = some ready || st = some blocked || st = some stale

def skipOne (instanceId : String) (failed : List String) (states : States) (nodeId : String) :
    Program States :=
  if nodeId ∈ failed ∨ skippable (states.find nodeId) = false then return states
  else do
    let r ← transitionNode (skipCall instanceId nodeId)
    return if r.ok then states.set nodeId skipped else states

/-- The skip pass over everything downstream of a failed optional node. The source goes
    through a set; the nodes are independent of each other, so its order does not matter. -/
def skipBelowFailed (instanceId : String) (dag : WorkflowDAG) (states : States) : Program States :=
  Prog.foldEach (downstreamClosure dag (failedOptional dag states)) states
    (skipOne instanceId (failedOptional dag states))

/-- The two passes of a wave over the states it has read. -/
def passes (instanceId : String) (dag : WorkflowDAG) (maxConcurrency : Nat)
    (reuse : String → Option ReuseHit) (states : States) : Program States := do
  let states ← requeueStale instanceId dag maxConcurrency reuse states
  skipBelowFailed instanceId dag states

/-! ## The wave -/

/-- Orphans of dead drivers go back to `READY`. -/
def resetInWave (instanceId runToken : String) (states : States) : Program States :=
  resetEach instanceId runToken states fun states nid r =>
    return if r.ok then states.set nid ready else states

/-- Flagged nodes that are neither running nor decided are cancelled. -/
def cancelFlaggedInWave (instanceId : String) (states : States) : Program States := do
  let flags ← getNodeCancelFlags instanceId
  Prog.foldEach states.items states fun states p =>
    if p.2 = running ∨ isTerminal p.2 ∨ p.1 ∉ flags then return states
    else do
      let r ← transitionNode (cancelCall instanceId p.1 "NODE_CANCELLED" "cancel")
      return if r.ok then states.set p.1 cancelled else states

/-- `_split_retry_gates`: the ready nodes that may go now and those that wait for their
    retry. A flagged node is cancelled and in neither. -/
def splitRetryGates (instanceId : String) (ready : List String) :
    Program (List String × List String) :=
  if ready = [] then return ([], [])
  else do
    let now ← utcnow
    Prog.foldEach ready ([], []) fun out nid => do
      match ← getNode instanceId nid with
      | none => return out
      | some row =>
        if row.cancelRequested then
          let _ ← transitionNode (cancelCall instanceId nid "NODE_CANCELLED" "cancel")
          return out
        else if row.nextReadyAt.any (now < ·) then return (out.1, out.2 ++ [nid])
        else return (out.1 ++ [nid], out.2)

/-- How a wave ends: the loop breaks without an instance, after a cancellation or with
    nothing left to do, or it goes on after a wait or with a batch of nodes to run. -/
inductive WaveEnd where
  | notFound
  | cancelled
  | settled
  | waiting
  | dispatch (batch : List String)

/-- The nodes that are dispatched together: by priority, then in the order of the graph. -/
def dispatchBatch (dag : WorkflowDAG) (maxConcurrency : Nat) (ready : List String) : List String :=
  let priority (nid : String) : Int := ((dag.node nid).map fun n => n.dispatchPriority).getD 5
  (ready.mergeSort fun a b => priority b ≤ priority a).take maxConcurrency

/-- What the loop does with the states after its passes. -/
def decideWave (instanceId : String) (dag : WorkflowDAG) (maxConcurrency : Nat)
    (states : States) : Program WaveEnd := do
  let (dispatchable, gated) ← splitRetryGates instanceId (readySet dag states)
  if dispatchable ≠ [] then return .dispatch (dispatchBatch dag maxConcurrency dispatchable)
  else if states.items.any (fun p => p.2 = running) ∨ gated ≠ [] then return .waiting
  else return .settled

/-- One wave of `_run_loop` up to the dispatch. -/
def wave (instanceId ownerScope runToken : String) (dag : WorkflowDAG) (maxConcurrency : Nat)
    (reuse : String → Option ReuseHit) : Program WaveEnd := do
  match ← getInstance instanceId (some ownerScope) with
  | none => return .notFound
  | some inst =>
    let states ← getNodeStates instanceId
    if inst.cancelRequested then
      cancelAll instanceId ownerScope states
      return .cancelled
    else
      let states ← resetInWave instanceId runToken states
      let states ← cancelFlaggedInWave instanceId states
      let states ← passes instanceId dag maxConcurrency reuse states
      decideWave instanceId dag maxConcurrency states

/-! ## After the loop -/

def finalizeInstance (instanceId ownerScope : String) (states : States) (status : InstanceStatus) :
    Program Unit := do
  match ← getInstance instanceId (some ownerScope) with
  | none => return ()
  | some inst =>
    if inst.status = status ∨ inst.status ∈ instanceTerminalStatuses then return ()
    else
      let now ← utcnow
      let failed := (states.items.filter fun p => p.2 = failed ∨ p.2 = blocked).map Prod.fst
      let fields : InstancePatch := { status := some status }
      let fields := if status ∈ instanceTerminalStatuses then
        { fields with terminalAt := some (some now) } else fields
      let fields := if status = .failed then
        { fields with
          errorCode := some "NODES_INCOMPLETE"
          errorDetail := some (clip 255 (join "," (failed.take 6))) } else fields
      (updateInstance instanceId (some ownerScope) (some inst.revision) fields).discard

/-- What the driver does once its loop has broken: the status of the states it reads again. -/
def finishRun (instanceId ownerScope : String) (dag : WorkflowDAG) :
    Program (InstanceStatus × States) := do
  let states ← getNodeStates instanceId
  let status := instanceStatusFromNodes states.items (isOptional dag)
  finalizeInstance instanceId ownerScope states status
  return (status, states)

end WebGis.Workflow
