/-
  Changes put into effect: nodes marked stale, or the change queued while a node runs.

  A change arrives, the states are read once, and either some node runs and the change waits in
  the instance row, or the affected nodes are marked one by one and a decision is recorded. The
  driver's end drains what waits.
-/
import WebGis.Workflow.Dag
import WebGis.Workflow.Store

namespace WebGis.Workflow

open Data Conc NodeState

structure ChangeResult where
  applied : Bool := false
  deferred : Bool := false
  reason : String := ""
  pendingCount : Option Nat := none
  decision : Option RecomputeDecision := none
  /-- What is computed again and what is reused. -/
  plan : Option (List String × List String) := none

/-- A change that was neither applied nor queued. -/
def ChangeResult.refused (reason : String) : ChangeResult := { reason }

/-- `ChangeApplier`; `sha256` gives the hexadecimal digest of a text. -/
structure ChangeApplier where
  ownerScope : String
  sha256 : String → String

/-- The entry that a change leaves in the queue. -/
def PendingChange.queued (source : String) (ch : PendingChange) : PendingChange :=
  { ch.toBoundedDict with source }

/-- The attempts of a write to the instance row. -/
def maxCasAttempts : Nat := 3

/-- The states that a marking starts from. -/
def markable (st : Option NodeState) : Bool := st = some succeeded || st = some ready || st = some stale

/-- The transition that marks a node. -/
def staleCall (instanceId nodeId : String) (dimensions : List String) : TransitionCall where
  instanceId := instanceId
  nodeId := nodeId
  toState := stale
  reason := "RECOMPUTE_SEED:" ++ clip 24 (dimensions.headD "")
  event := "apply_changes"

namespace ChangeApplier

variable (A : ChangeApplier) (instanceId : String)

/-! ## The queue -/

/-- The attempts of `_defer` that are left. -/
def deferRounds (changes : List PendingChange) (source : String) :
    Nat → InstanceRow → Program ChangeResult
  | 0, _ => return .refused "cas_conflict"
  | n + 1, inst =>
    if maxPendingChanges < inst.pendingChanges.length + changes.length then
      return .refused "pending_full"
    else do
      let pending := inst.pendingChanges ++ changes.map (·.queued source)
      match ← updateInstance instanceId (some A.ownerScope) (some inst.revision)
        { pendingChanges := some pending } with
      | some _ => return { deferred := true, pendingCount := some pending.length }
      | none =>
        match ← getInstance instanceId (some A.ownerScope) with
        | none => return .refused "not_found"
        | some fresh => deferRounds changes source n fresh

def defer (inst : InstanceRow) (changes : List PendingChange) (source : String) :
    Program ChangeResult :=
  A.deferRounds instanceId changes source maxCasAttempts inst

/-! ## Decisions -/

/-- The decision as it is written behind the earlier ones. -/
def numbered (earlier : List RecomputeDecision) (decision : RecomputeDecision) :
    RecomputeDecision :=
  { decision.toBoundedDict with
    seq := (earlier.map RecomputeDecision.seq).foldl max 0 + 1 }

/-- The attempts of `_append_decision` that are left. -/
def appendRounds (decision : RecomputeDecision) : Nat → InstanceRow → Program Unit
  | 0, _ => return ()
  | n + 1, inst => do
      let decisions := inst.decisions ++ [numbered inst.decisions decision]
      match ← updateInstance instanceId (some A.ownerScope) (some inst.revision)
        { decisions := some (TransitionCall.lastN maxInstanceDecisions decisions) } with
      | some _ => return ()
      | none =>
        match ← getInstance instanceId (some A.ownerScope) with
        | none => return ()
        | some fresh => appendRounds decision n fresh

def appendDecision (inst : InstanceRow) (decision : RecomputeDecision) : Program Unit :=
  A.appendRounds instanceId decision maxCasAttempts inst

/-! ## The change itself -/

/-- One node of the plan: marked, when its state allows it. -/
def markOne (plan : RecomputePlan) (acc : States × List String) (nodeId : String) :
    Program (States × List String) :=
  if markable (acc.1.find nodeId) then do
    let r ← transitionNode (staleCall instanceId nodeId plan.changedDimensions)
    return if r.ok ∨ r.code = .okIdempotent then (acc.1.set nodeId stale, acc.2 ++ [nodeId])
      else acc
  else return acc

/-- The nodes that were marked; none for a change of style only. -/
def markPlan (plan : RecomputePlan) (states : States) : Program (List String) :=
  if isStyleOnly plan then return []
  else do
    let out ← Prog.foldEach plan.recompute (states, []) (markOne instanceId plan)
    return out.2

/-- The decision about a plan. -/
def decisionOf (plan : RecomputePlan) (changes : List PendingChange) (seq : Nat)
    (marked : List String) : RecomputeDecision where
  seq := seq
  changesFingerprint := changesFingerprint A.sha256 changes
  dimensions := plan.changedDimensions
  markedStale := marked
  styleOnly := isStyleOnly plan
  explanations := explanations plan marked (isStyleOnly plan)

/-- What `apply` does when no node runs. -/
def applyPlan (inst : InstanceRow) (plan : RecomputePlan) (states : States)
    (changes : List PendingChange) (seq : Nat) : Program ChangeResult := do
  let marked ← markPlan instanceId plan states
  let decision := A.decisionOf plan changes seq marked
  A.appendDecision instanceId inst decision
  return { applied := true, decision := some decision.toBoundedDict,
           plan := some (plan.recompute, plan.reuse) }

def apply (dag : WorkflowDAG) (changes : List PendingChange) (seq : Nat) (source : String) :
    Program ChangeResult := do
  match ← getInstance instanceId (some A.ownerScope) with
  | none => return .refused "not_found"
  | some inst =>
    let states ← getNodeStates instanceId
    if states.items.any (fun p => p.2 = running) then
      A.defer instanceId inst changes source
    else if maxApplyChanges < changes.length then return .refused "too_many_changes"
    else A.applyPlan instanceId inst (planForChanges dag changes) states changes seq

/-- `drain_pending`: the queue is emptied, then its changes are applied. -/
def drainPending (dag : WorkflowDAG) : Program (Option ChangeResult) := do
  match ← getInstance instanceId (some A.ownerScope) with
  | none => return none
  | some inst =>
    let states ← getNodeStates instanceId
    if inst.pendingChanges = [] ∨ states.items.any (fun p => p.2 = running) then return none
    else
      match ← updateInstance instanceId (some A.ownerScope) (some inst.revision)
        { pendingChanges := some [] } with
      | none => return none
      | some _ =>
        let result ← A.apply instanceId dag inst.pendingChanges (inst.decisions.length + 1)
          "deferred"
        return some result

end ChangeApplier

end WebGis.Workflow
