/-
  The rows of the workflow runtime's tables, the arguments of a node transition and the
  values it writes.

  Columns that no function here reads or writes are left out (tenant, package, session,
  `updated_at`). Times are microseconds of one clock that moves only by `tick`.
-/
import WebGis.Workflow.Contracts

namespace WebGis.Workflow

open Data NodeState

/-! ## Rows -/

/-- A row of `workflow_instance_nodes`. -/
structure NodeRow where
  instanceId : String
  nodeId : String
  state : NodeState := pending
  stateRevision : Nat := 1
  claimedBy : Option String := none
  attempts : Nat := 0
  errorCode : Option String := none
  boundRef : Option String := none
  outputRef : Option String := none
  outputFingerprint : Option String := none
  binding : Json := Json.emptyObj
  reuse : Json := Json.emptyObj
  attemptsLog : List Json := []
  transitions : List TransitionRecord := []
  leaseExpiresAt : Option Nat := none
  heartbeatAt : Option Nat := none
  cancelRequested : Bool := false
  nextReadyAt : Option Nat := none

namespace NodeRow

/-- The columns under the uniqueness constraint. -/
def key (r : NodeRow) : String × String := (r.instanceId, r.nodeId)

/-- `row.claimed_by or ""` -/
def claimant (r : NodeRow) : String := r.claimedBy.getD ""

end NodeRow

/-- A row of `workflow_instances`. -/
structure InstanceRow where
  instanceId : String
  status : InstanceStatus := .running
  revision : Nat := 1
  ownerScope : String
  parentInstanceId : Option String := none
  runLeaseOwner : Option String := none
  runLeaseExpiresAt : Option Nat := none
  cancelRequested : Bool := false
  pendingChanges : List PendingChange := []
  decisions : List RecomputeDecision := []
  errorCode : Option String := none
  errorDetail : Option String := none
  createdAt : Nat := 0
  terminalAt : Option Nat := none

/-- A row of the append-only journal `workflow_events`; its id is its position. -/
structure EventRow where
  instanceId : String
  nodeId : String := ""
  kind : EventKind
  fromState : Option NodeState := none
  toState : Option NodeState := none
  reason : String := ""
  actor : String := ""
  attempt : Nat := 0
  payload : Json := Json.emptyObj

/-! ## Arguments of the statements -/

/-- The columns a transition may write besides its state. -/
structure Patch where
  boundRef : Option String := none
  outputRef : Option String := none
  outputFingerprint : Option String := none
  errorCode : Option String := none
  binding : Option Json := none
  reuse : Option Json := none
  nextReadyAt : Option (Option Nat) := none
  attemptsIncrement : Bool := false
  attemptLog : Option Json := none

/-- The arguments of `transition_node`. -/
structure TransitionCall where
  instanceId : String
  nodeId : String
  toState : NodeState
  expectedFrom : Option NodeState := none
  reason : String := ""
  event : String := ""
  claim : Bool := false
  claimedBy : String := ""
  requireClaim : Bool := false
  patch : Patch := {}
  complete : Bool := false
  leaseTtl : Option Nat := none

def TransitionCall.key (c : TransitionCall) : String × String := (c.instanceId, c.nodeId)

/-- The columns `update_instance` and the run lease may write. -/
structure InstancePatch where
  status : Option InstanceStatus := none
  cancelRequested : Option Bool := none
  pendingChanges : Option (List PendingChange) := none
  decisions : Option (List RecomputeDecision) := none
  errorCode : Option String := none
  errorDetail : Option String := none
  terminalAt : Option (Option Nat) := none
  runLease : Option (Option String × Option Nat) := none

def InstancePatch.apply (p : InstancePatch) (row : InstanceRow) : InstanceRow :=
  { row with
    status := p.status.getD row.status
    cancelRequested := p.cancelRequested.getD row.cancelRequested
    pendingChanges := p.pendingChanges.getD row.pendingChanges
    decisions := p.decisions.getD row.decisions
    errorCode := p.errorCode.or row.errorCode
    errorDetail := p.errorDetail.or row.errorDetail
    terminalAt := p.terminalAt.getD row.terminalAt
    runLeaseOwner := (p.runLease.map Prod.fst).getD row.runLeaseOwner
    runLeaseExpiresAt := (p.runLease.map Prod.snd).getD row.runLeaseExpiresAt
    revision := row.revision + 1 }

/-! ## Values of a transition -/

def second : Nat := 1000000

/-- `DEFAULT_LEASE_TTL_S` -/
def defaultLeaseTtl : Nat := 120 * second

/-- `DEFAULT_NODE_LEASE_TTL_S` -/
def defaultNodeLeaseTtl : Nat := 120 * second

/-- `now + timedelta(seconds=max(1.0, ttl))` -/
def leaseUntil (now ttl : Nat) : Nat := now + max second ttl

/-- `text or None` -/
def nonEmpty (s : String) : Option String := if s = "" then none else some s

def boundedEventPayload (p : Patch) : Json :=
  let field (name : String) (v : Option String) : List (String × Json) :=
    match v.bind nonEmpty with
    | some s => [(name, .str (clip 96 s))]
    | none => []
  .obj (field "error_code" p.errorCode ++ field "output_ref" p.outputRef ++
    field "bound_ref" p.boundRef ++ field "output_fingerprint" p.outputFingerprint ++
    (if p.attemptsIncrement then [("attempts_increment", .bool true)] else []))

/-- `patch.get("attempt_log")` when it is not empty. -/
def Patch.logEntry (p : Patch) : Option Json :=
  match p.attemptLog with
  | some (.obj []) => none
  | other => other

namespace TransitionCall

variable (c : TransitionCall)

/-- The lease a claim writes. -/
def claimLease (now : Nat) : Nat := leaseUntil now (c.leaseTtl.getD defaultNodeLeaseTtl)

/-- `claimed_by` after the transition. -/
def newClaimedBy (old : Option String) : Option String :=
  if c.toState = ready ∨ c.toState = cancelled ∨ c.toState = skipped then none
  else if c.claim then nonEmpty (clip 64 c.claimedBy)
  else old

/-- A lease column after the transition, where `v` is what a claim writes. -/
def newLease (v : Nat) (old : Option Nat) : Option Nat :=
  if c.toState = succeeded ∨ c.toState = failed ∨ c.toState = cancelled then none
  else if c.claim then some v
  else old

def newAttempts (seen : NodeRow) : Nat :=
  if c.patch.attemptsIncrement then seen.attempts + 1 else seen.attempts

/-- The last `n` entries. -/
def lastN {α : Type} (n : Nat) (xs : List α) : List α := xs.drop (xs.length - n)

/-- `row` after the UPDATE, whose values come from the row `seen` that was read. -/
def newRow (seen : NodeRow) (now : Nat) (row : NodeRow) : NodeRow :=
  { row with
    state := c.toState
    stateRevision := seen.stateRevision + 1
    claimedBy := c.newClaimedBy row.claimedBy
    leaseExpiresAt := c.newLease (c.claimLease now) row.leaseExpiresAt
    heartbeatAt := c.newLease now row.heartbeatAt
    boundRef := c.patch.boundRef.or row.boundRef
    outputRef := c.patch.outputRef.or row.outputRef
    outputFingerprint := c.patch.outputFingerprint.or row.outputFingerprint
    errorCode := c.patch.errorCode.or row.errorCode
    binding := c.patch.binding.getD row.binding
    reuse := c.patch.reuse.getD row.reuse
    nextReadyAt := c.patch.nextReadyAt.getD row.nextReadyAt
    attempts := if c.patch.attemptsIncrement then seen.attempts + 1 else row.attempts
    attemptsLog :=
      match c.patch.logEntry with
      | some entry => lastN maxNodeAttempts (seen.attemptsLog ++ [entry])
      | none => row.attemptsLog
    transitions := lastN maxNodeTransitions (seen.transitions ++
      [.bounded (seen.stateRevision + 1) seen.state c.toState c.reason c.event]) }

/-- The journal row of the transition. -/
def journalRow (seen : NodeRow) : EventRow where
  instanceId := c.instanceId
  nodeId := clip 64 c.nodeId
  kind := .stateTransition
  fromState := some seen.state
  toState := some c.toState
  reason := clip 96 c.reason
  actor := clip 64 c.event
  attempt := c.newAttempts seen
  payload := boundedEventPayload c.patch

@[simp] theorem newRow_key (seen : NodeRow) (now : Nat) (row : NodeRow) :
    (c.newRow seen now row).key = row.key := rfl

@[simp] theorem newRow_state (seen : NodeRow) (now : Nat) (row : NodeRow) :
    (c.newRow seen now row).state = c.toState := rfl

@[simp] theorem newRow_stateRevision (seen : NodeRow) (now : Nat) (row : NodeRow) :
    (c.newRow seen now row).stateRevision = seen.stateRevision + 1 := rfl

@[simp] theorem newRow_claimedBy (seen : NodeRow) (now : Nat) (row : NodeRow) :
    (c.newRow seen now row).claimedBy = c.newClaimedBy row.claimedBy := rfl

end TransitionCall

end WebGis.Workflow
