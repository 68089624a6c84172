/-
  The typed contracts of the workflow runtime: node states and the table of their legal
  transitions, the status of an instance as a fold over its nodes, and the bounded records
  that the store keeps.

  Node states are an enumeration here, so the check for a state outside the vocabulary has
  nothing left to refuse.
-/
import WebGis.Data.Dict
import WebGis.Data.Json

namespace WebGis.Workflow

open Data

/-! ## Node states -/

inductive NodeState where
  | pending | ready | running | succeeded | failed | blocked | skipped | cancelled | stale
  deriving DecidableEq, Repr

namespace NodeState

/-- The text a state has in the database. -/
def text : NodeState → String
  | pending => "PENDING"
  | ready => "READY"
  | running => "RUNNING"
  | succeeded => "SUCCEEDED"
  | failed => "FAILED"
  | blocked => "BLOCKED"
  | skipped => "SKIPPED"
  | cancelled => "CANCELLED"
  | stale => "STALE"

end NodeState

open NodeState

/-- The states of a node map, under their node ids. -/
abbrev States : Type := Dict String NodeState

/-- The only judge of which transitions exist. -/
def legalTransitions : NodeState → List NodeState
  | pending => [ready, blocked, skipped, cancelled]
  | ready => [running, blocked, stale, cancelled]
  | running => [succeeded, failed, cancelled, ready]
  | failed => [ready, skipped]
  | blocked => [ready, skipped]
  | succeeded => [stale]
  | stale => [ready, succeeded]
  | skipped => [ready]
  | cancelled => []

/-- `Legal a b`: the table has the transition from `a` to `b`. -/
def Legal (a b : NodeState) : Prop := b ∈ legalTransitions a

instance (a b : NodeState) : Decidable (Legal a b) :=
  inferInstanceAs (Decidable (b ∈ legalTransitions a))

/-- `none` for a legal transition, else the reason it is refused. -/
def validateTransition (fromState toState : NodeState) : Option String :=
  if Legal fromState toState then none
  else some ("ILLEGAL_TRANSITION:" ++ fromState.text ++ ">" ++ toState.text)

/-- Decided states: the execution order does not move on from them by itself. -/
def isTerminal (s : NodeState) : Bool :=
  s = succeeded || s = failed || s = skipped || s = cancelled

theorem validateTransition_eq_none {a b : NodeState} :
    validateTransition a b = none ↔ Legal a b := by
  simp [validateTransition]

theorem not_legal_cancelled (b : NodeState) : ¬ Legal cancelled b := by
  simp [Legal, legalTransitions]

/-! ## Limits -/

def maxNodeTransitions : Nat := 8
def maxInstanceDecisions : Nat := 16
def maxPendingChanges : Nat := 16
def maxApplyChanges : Nat := 16
def maxNodeAttempts : Nat := 3
def maxInstanceNodes : Nat := 64

/-! ## Instance status -/

inductive InstanceStatus where
  | running | succeeded | failed | cancelled | superseded
  deriving DecidableEq, Repr

/-- The text a status has in the database. -/
def InstanceStatus.text : InstanceStatus → String
  | running => "running"
  | succeeded => "succeeded"
  | failed => "failed"
  | cancelled => "cancelled"
  | superseded => "superseded"

def instanceTerminalStatuses : List InstanceStatus :=
  [.succeeded, .failed, .cancelled, .superseded]

/-- The status of an instance from the states of its nodes. A running node keeps the
    instance running; then one cancelled node decides, then success, then a failure of a
    required node. -/
def instanceStatusFromNodes (statuses : List (String × NodeState)) (optionalNodes : String → Bool) :
    InstanceStatus :=
  if statuses = [] then .running
  else if statuses.any (fun p => p.2 = running) then .running
  else if statuses.any (fun p => p.2 = cancelled) then .cancelled
  else if statuses.all (fun p => (p.2 = succeeded || p.2 = skipped) ||
      (optionalNodes p.1 && (p.2 = failed || p.2 = blocked))) then .succeeded
  else if statuses.any (fun p => !optionalNodes p.1 && (p.2 = failed || p.2 = blocked)) then
    .failed
  else .running

/-! ## Events -/

inductive EventKind where
  | stateTransition | instanceCancelRequested | nodeCancelRequested
  | recoveryOrphanReset | recoveryFinalize | retryScheduled | retryExhausted
  | compensation | compensationFailed | clone | nodesRequeued
  | sideEffectNoAutoRetry | planAdmission
  deriving DecidableEq, Repr

/-! ## Bounded records -/

/-- One entry of a node's ring of transitions, as `to_bounded_dict` writes it. -/
structure TransitionRecord where
  rev : Nat
  fromState : NodeState
  toState : NodeState
  reason : String
  event : String
  deriving DecidableEq, Repr

/-- `StateTransitionRecord(...).to_bounded_dict()` -/
def TransitionRecord.bounded (rev : Nat) (fromState toState : NodeState) (reason event : String) :
    TransitionRecord :=
  ⟨rev, fromState, toState, clip 96 (clip 96 reason), clip 32 (clip 32 event)⟩

/-- A change that arrived and waits for the running nodes to finish. -/
structure PendingChange where
  dimension : String
  targetKind : String
  target : String := ""
  detail : String := ""
  source : String := ""
  deriving DecidableEq, Repr

def PendingChange.toBoundedDict (c : PendingChange) : PendingChange where
  dimension := clip 24 c.dimension
  targetKind := clip 24 c.targetKind
  target := clip 64 c.target
  detail := clip 200 c.detail
  source := clip 24 c.source

/-- `json.dumps` of a bounded change, its keys sorted, without blanks. -/
def PendingChange.dumps (c : PendingChange) : String :=
  "\x7b\"detail\":" ++ quote c.detail ++ ",\"dimension\":" ++ quote c.dimension ++
    ",\"source\":" ++ quote c.source ++ ",\"target\":" ++ quote c.target ++
    ",\"target_kind\":" ++ quote c.targetKind ++ "\x7d"

/-- The fingerprint of a set of changes, whatever their order. `sha256` gives the
    hexadecimal digest of a text. -/
def changesFingerprint (sha256 : String → String) (changes : List PendingChange) : String :=
  let items := ((changes.take maxApplyChanges).map fun c => c.toBoundedDict.dumps).mergeSort
  clip 32 (sha256 ("[" ++ join "," (items.map quote) ++ "]"))

/-- The evidence of one decision about a recomputation. -/
structure RecomputeDecision where
  seq : Nat
  changesFingerprint : String
  dimensions : List String := []
  markedStale : List String := []
  reuseResolved : List String := []
  recomputed : List String := []
  reused : List String := []
  styleOnly : Bool := false
  explanations : List String := []
  deriving DecidableEq, Repr

def RecomputeDecision.toBoundedDict (d : RecomputeDecision) : RecomputeDecision where
  seq := d.seq
  changesFingerprint := clip 32 d.changesFingerprint
  dimensions := (d.dimensions.take 5).map (clip 24)
  markedStale := (d.markedStale.take 32).map (clip 64)
  reuseResolved := (d.reuseResolved.take 32).map (clip 64)
  recomputed := (d.recomputed.take 32).map (clip 64)
  reused := (d.reused.take 32).map (clip 64)
  styleOnly := d.styleOnly
  explanations := (d.explanations.take 6).map (clip 200)

end WebGis.Workflow
