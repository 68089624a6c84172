/-
  The statements that the instance store sends to its database, as atomic operations.

  Each statement is one transaction. Reading a row and updating it later are two
  statements. A statement that the store guards against `OperationalError` may answer
  `busy`; where the code lets the error escape, the caller dies, which is a program that is
  never scheduled again.

  The methods of the durable instance store, as programs over its statements.

  `transitionNode` is the compare-and-set loop that every writer of a node state goes
  through: read the row, judge the transition on what was read, update where the revision
  is still the one read, and journal in the same transaction. A conflict or a busy database
  starts the next of five rounds, each with a fresh read.

  The recovery sweep: leftover cancel flags are consumed, nodes whose executor died are put
  back to `READY`, and instances whose nodes are all decided get their final status.

  The sweep takes what it read in one transaction and acts on it in later ones.
-/
import WebGis.Conc.Pool
import WebGis.Workflow.Database

namespace WebGis.Workflow

open Data Conc NodeState

/-! ## The statements -/

/-- What the store's guarded statements answer. -/
inductive Answer (α : Type) where
  | done (a : α)
  | busy
  deriving Repr

/-- The statements. `selectNode`, `updateNode`, `renewLease`, `selectInstance` and
    `updateInstance` stand in the code under a handler for `OperationalError`. -/
inductive Op where
  | utcnow
  | tick (d : Nat)
  | getNode (instanceId nodeId : String)
  | selectNodes (instanceId : String)
  | selectNode (instanceId nodeId : String)
  | updateNode (call : TransitionCall) (seen : NodeRow) (now : Nat)
  | renewLease (instanceId nodeId token : String) (expires now : Nat)
  | requestNodeCancel (instanceId : String) (nodeIds : List String) (actor : String)
  | clearNodeCancel (instanceId nodeId : String)
  | getInstance (instanceId : String) (ownerScope : Option String)
  | selectInstance (instanceId : String) (ownerScope : Option String)
  | selectInstances
  | updateInstance (instanceId : String) (revision : Nat) (fields : InstancePatch)
  | releaseRunLease (instanceId ownerScope token : String)
  | insertInstance (row : InstanceRow) (nodeIds : List String) (now : Nat)
  | appendEvent (event : EventRow)

/-- How the transaction of `create_instance` ended. -/
inductive Inserted where
  | done | capacityExceeded | duplicateKey
  deriving DecidableEq, Repr

/-- The type of each statement's answer. -/
def Res : Op → Type
  | .utcnow => Nat
  | .tick _ => Unit
  | .getNode _ _ => Option NodeRow
  | .selectNodes _ => List NodeRow
  | .selectNode _ _ => Answer (Option NodeRow)
  | .updateNode _ _ _ => Answer Bool
  | .renewLease _ _ _ _ _ => Answer Bool
  | .requestNodeCancel _ _ _ => List String
  | .clearNodeCancel _ _ => Bool
  | .getInstance _ _ => Option InstanceRow
  | .selectInstance _ _ => Answer (Option InstanceRow)
  | .selectInstances => List InstanceRow
  | .updateInstance _ _ _ => Answer Bool
  | .releaseRunLease _ _ _ => Bool
  | .insertInstance _ _ _ => Inserted
  | .appendEvent _ => Unit

/-- The tables and the clock. -/
structure World where
  nodes : Table NodeRow (String × String) NodeRow.key := Table.empty
  instances : Table InstanceRow String InstanceRow.instanceId := Table.empty
  events : List EventRow := []
  clock : Nat := 0

/-- The database before anything was stored. -/
def World.init : World := {}

namespace World

variable (w : World)

def node (instanceId nodeId : String) : Option NodeRow := w.nodes.get (instanceId, nodeId)

/-- The node rows of an instance. -/
def nodesOf (instanceId : String) : List NodeRow :=
  w.nodes.rows.filter fun r => r.instanceId = instanceId

/-- The instance row, hidden from other owners. -/
def instanceOf (instanceId : String) (ownerScope : Option String) : Option InstanceRow :=
  (w.instances.get instanceId).filter fun r => ownerScope.all fun o => r.ownerScope = o

/-- The compare-and-set of a transition, with its journal row in the same transaction. -/
def updateNode (c : TransitionCall) (seen : NodeRow) (now : Nat) : World × Bool :=
  match w.nodes.get c.key with
  | some row =>
    if row.stateRevision = seen.stateRevision then
      ({ w with
          nodes := w.nodes.put (c.newRow seen now row)
          events := w.events ++ [c.journalRow seen] }, true)
    else (w, false)
  | none => (w, false)

/-- The conditional update of `heartbeat_node`. -/
def renewLease (instanceId nodeId token : String) (expires now : Nat) : World × Bool :=
  match w.node instanceId nodeId with
  | some row =>
    if row.state = running ∧ row.claimedBy = some (clip 64 token) then
      ({ w with
          nodes := w.nodes.put
            { row with leaseExpiresAt := some expires, heartbeatAt := some now } }, true)
    else (w, false)
  | none => (w, false)

/-- States in which a cancel flag may still be set. -/
def cancellable (s : NodeState) : Bool :=
  s = pending || s = ready || s = running || s = blocked || s = stale

/-- One conditional update of `request_node_cancel`. -/
def flagNode (instanceId nodeId : String) : World × Bool :=
  match w.node instanceId nodeId with
  | some row =>
    if cancellable row.state ∧ row.cancelRequested = false then
      ({ w with nodes := w.nodes.put { row with cancelRequested := true } }, true)
    else (w, false)
  | none => (w, false)

/-- The updates of `request_node_cancel`, and the ids that were flagged. -/
def flagNodes (instanceId : String) : List String → World → World × List String
  | [], w => (w, [])
  | nid :: rest, w =>
    let (w', hit) := w.flagNode instanceId nid
    let (w'', out) := flagNodes instanceId rest w'
    (w'', if hit then nid :: out else out)

/-- `request_node_cancel`: flags and journal in one transaction. -/
def requestNodeCancel (instanceId : String) (nodeIds : List String) (actor : String) :
    World × List String :=
  let (w', out) := flagNodes instanceId ((nodeIds.filter (· ≠ "")).map (clip 64)) w
  ({ w' with
      events := w'.events ++ out.map fun nid =>
        { instanceId, nodeId := clip 64 nid, kind := .nodeCancelRequested,
          reason := "NODE_CANCEL_REQUESTED", actor := clip 64 actor } }, out)

def clearNodeCancel (instanceId nodeId : String) : World × Bool :=
  match w.node instanceId nodeId with
  | some row => ({ w with nodes := w.nodes.put { row with cancelRequested := false } }, true)
  | none => (w, false)

/-- The compare-and-set on an instance row. -/
def updateInstance (instanceId : String) (revision : Nat) (fields : InstancePatch) :
    World × Bool :=
  match w.instances.get instanceId with
  | some row =>
    if row.revision = revision then
      ({ w with instances := w.instances.put (fields.apply row) }, true)
    else (w, false)
  | none => (w, false)

/-- Only the holder's lease is dropped; the revision stays. -/
def releaseRunLease (instanceId ownerScope token : String) : World × Bool :=
  match w.instanceOf instanceId (some ownerScope) with
  | some row =>
    if row.runLeaseOwner = some (clip 64 token) then
      ({ w with
          instances := w.instances.put
            { row with runLeaseOwner := none, runLeaseExpiresAt := none } }, true)
    else (w, false)
  | none => (w, false)

def maxActiveSubinstances : Nat := 32

/-- `_active_child_query`: running children of an owner with a live run lease, or without
    one and created no longer than a lease ago. -/
def activeChildren (ownerScope : String) (now : Nat) : List InstanceRow :=
  w.instances.rows.filter fun r =>
    r.ownerScope = ownerScope ∧ r.status = .running ∧ (r.parentInstanceId.bind nonEmpty).isSome ∧
      (r.runLeaseExpiresAt.any (now < ·) ∨
        (r.runLeaseExpiresAt = none ∧ now ≤ r.createdAt + defaultLeaseTtl))

/-- The row of a node that was just created. -/
def freshNode (instanceId nodeId : String) : NodeRow :=
  { instanceId, nodeId := clip 64 nodeId }

/-- An instance and its nodes join in one transaction. A repeated key aborts it, and so
    does a child beyond the cap of its owner. -/
def insertInstance (row : InstanceRow) (nodeIds : List String) (now : Nat) :
    World × Inserted :=
  if row.parentInstanceId.isSome ∧
      maxActiveSubinstances ≤ (w.activeChildren row.ownerScope now).length then
    (w, .capacityExceeded)
  else
    match w.instances.insert [row], w.nodes.insert (nodeIds.map (freshNode row.instanceId)) with
    | some is, some ns => ({ w with instances := is, nodes := ns }, .done)
    | _, _ => (w, .duplicateKey)

end World

/-- A statement guarded against `OperationalError`. -/
def guarded {α : Type} (busy : Bool) (w : World) (r : World × α) : World × Answer α :=
  if busy then (w, .busy) else (r.1, .done r.2)

/-- What a statement does. `busy` says that the database is locked at that moment. -/
def exec (busy : Bool) (w : World) : (o : Op) → World × Res o
  | .utcnow => (w, w.clock)
  | .tick d => ({ w with clock := w.clock + d }, ())
  | .getNode i n => (w, w.node i n)
  | .selectNodes i => (w, w.nodesOf i)
  | .selectNode i n => guarded busy w (w, w.node i n)
  | .updateNode c seen now => guarded busy w (w.updateNode c seen now)
  | .renewLease i n token expires now => guarded busy w (w.renewLease i n token expires now)
  | .requestNodeCancel i ns actor => w.requestNodeCancel i ns actor
  | .clearNodeCancel i n => w.clearNodeCancel i n
  | .getInstance i owner => (w, w.instanceOf i owner)
  | .selectInstance i owner => guarded busy w (w, w.instanceOf i owner)
  | .selectInstances => (w, w.instances.rows)
  | .updateInstance i rev fields => guarded busy w (w.updateInstance i rev fields)
  | .releaseRunLease i owner token => w.releaseRunLease i owner token
  | .insertInstance row nodeIds now => w.insertInstance row nodeIds now
  | .appendEvent ev => ({ w with events := w.events ++ [ev] }, ())

abbrev Program (α : Type) : Type := Prog Op Res α

/-! ## Statements as programs -/

def utcnow : Program Nat := Prog.lift Op.utcnow

def tick (d : Nat) : Program Unit := Prog.lift (Op.tick d)

def getNode (instanceId nodeId : String) : Program (Option NodeRow) :=
  Prog.lift (Op.getNode instanceId nodeId)

def getNodes (instanceId : String) : Program (List NodeRow) :=
  Prog.lift (Op.selectNodes instanceId)

def selectNode (instanceId nodeId : String) : Program (Answer (Option NodeRow)) :=
  Prog.lift (Op.selectNode instanceId nodeId)

def updateNode (c : TransitionCall) (seen : NodeRow) (now : Nat) : Program (Answer Bool) :=
  Prog.lift (Op.updateNode c seen now)

def requestNodeCancel (instanceId : String) (nodeIds : List String) (actor : String) :
    Program (List String) :=
  Prog.lift (Op.requestNodeCancel instanceId nodeIds actor)

def clearNodeCancel (instanceId nodeId : String) : Program Bool :=
  Prog.lift (Op.clearNodeCancel instanceId nodeId)

def getInstance (instanceId : String) (ownerScope : Option String) :
    Program (Option InstanceRow) :=
  Prog.lift (Op.getInstance instanceId ownerScope)

def appendEvent (event : EventRow) : Program Unit := Prog.lift (Op.appendEvent event)

def insertInstance (row : InstanceRow) (nodeIds : List String) (now : Nat) : Program Inserted :=
  Prog.lift (Op.insertInstance row nodeIds now)

def releaseRunLease (instanceId ownerScope token : String) : Program Bool :=
  Prog.lift (Op.releaseRunLease instanceId ownerScope token)

/-- `{node_id: state}` of an instance. -/
def statesOf (rows : List NodeRow) : States := Dict.ofList (rows.map fun r => (r.nodeId, r.state))

def getNodeStates (instanceId : String) : Program States := do
  let rows ← getNodes instanceId
  return statesOf rows

/-- The ids of the nodes whose cancel flag is set. -/
def getNodeCancelFlags (instanceId : String) : Program (List String) := do
  let rows ← getNodes instanceId
  return (rows.filter fun r => r.cancelRequested).map fun r => r.nodeId

/-! ## Creation -/

/-- The refusals of `create_instance` before it opens a transaction. -/
def createRefusal (ownerScope : String) (nodeIds : List String) : Option String :=
  if 40 < ownerScope.length then some "owner_scope exceeds 40 characters"
  else if nodeIds = [] then some "instance requires at least one node"
  else if maxInstanceNodes < nodeIds.length then
    some ("instance node count " ++ toString nodeIds.length ++ " exceeds cap " ++
      toString maxInstanceNodes)
  else none

/-- `create_instance` under the id that was drawn for it: the instance row and one pending
    row for each node. -/
def createInstance (instanceId ownerScope : String) (parentInstanceId : String)
    (nodeIds : List String) : Program (Except String (Option InstanceRow)) := do
  match createRefusal ownerScope nodeIds with
  | some text => return .error text
  | none =>
    let now ← utcnow
    let row : InstanceRow :=
      { instanceId, ownerScope := clip 40 ownerScope,
        parentInstanceId := nonEmpty (clip 64 parentInstanceId), createdAt := now }
    match ← insertInstance row nodeIds now with
    | .done => return .ok (← getInstance instanceId (some ownerScope))
    | .capacityExceeded => return .error "SUBWORKFLOW_CAP"
    | .duplicateKey => return .error "UNIQUE constraint failed"

/-! ## Transitions -/

inductive TransitionCode where
  | ok | okIdempotent | noSuchNode | claimMismatch | illegalTransition | casConflict | dbBusy
  deriving DecidableEq, Repr

/-- The typed result of a transition; `state` is empty where the code leaves it so. -/
structure TransitionResult where
  ok : Bool
  code : TransitionCode
  state : Option NodeState := none
  stateRevision : Nat := 0
  deriving DecidableEq, Repr

namespace TransitionCall

variable (c : TransitionCall)

/-- The refusal of `_try_transition` on the row it read, in the order of its checks. -/
def judge (row : NodeRow) : Option TransitionResult :=
  if c.requireClaim ∧ row.claimant ≠ c.claimedBy then
    some { ok := false, code := .claimMismatch, state := some row.state }
  else if validateTransition row.state c.toState ≠ none then
    some { ok := false, code := .illegalTransition, state := some row.state }
  else if c.expectedFrom.any (· ≠ row.state) then
    some { ok := false, code := .casConflict, state := some row.state }
  else none

/-- What a completion makes of a row that has reached the target already. -/
def alreadyThere : Option NodeRow → Option TransitionResult
  | some row =>
    if row.state = c.toState then
      if c.requireClaim ∧ row.claimant ≠ c.claimedBy then
        some { ok := false, code := .claimMismatch, state := some c.toState,
               stateRevision := row.stateRevision }
      else
        some { ok := true, code := .okIdempotent, state := some c.toState,
               stateRevision := row.stateRevision }
    else none
  | none => none

/-- The compare-and-set on the row that was read and judged. -/
def update (row : NodeRow) : Program (Answer TransitionResult) := do
  let now ← utcnow
  match ← updateNode c row now with
  | .busy => return .busy
  | .done false => return .done { ok := false, code := .casConflict, state := some row.state }
  | .done true =>
    return .done { ok := true, code := .ok, state := some c.toState,
                   stateRevision := row.stateRevision + 1 }

/-- What is done with the row that was read. -/
def tryOn (row : NodeRow) : Program (Answer TransitionResult) :=
  match c.judge row with
  | some refusal => return .done refusal
  | none => c.update row

/-- `_try_transition`: one read, one judgement, one compare-and-set. -/
def tryTransition : Program (Answer TransitionResult) := do
  match ← selectNode c.instanceId c.nodeId with
  | .busy => return .busy
  | .done none => return .done { ok := false, code := .noSuchNode }
  | .done (some row) => c.tryOn row

/-- The rounds that are left. -/
def rounds : Nat → Program TransitionResult
  | 0 => do
      let fresh ← getNode c.instanceId c.nodeId
      return { ok := false, code := .casConflict, state := fresh.map (·.state) }
  | n + 1 => do
      match ← c.tryTransition with
      | .busy => if n = 0 then return { ok := false, code := .dbBusy } else rounds n
      | .done result =>
        if result.code ≠ .casConflict then return result
        else if c.complete then
          match c.alreadyThere (← getNode c.instanceId c.nodeId) with
          | some r => return r
          | none => rounds n
        else rounds n

end TransitionCall

/-- The first round and one for each entry of `_BACKOFF_S`. -/
def maxRounds : Nat := 5

def transitionNode (c : TransitionCall) : Program TransitionResult := do
  if c.complete then
    match c.alreadyThere (← getNode c.instanceId c.nodeId) with
    | some r => return r
    | none => c.rounds maxRounds
  else c.rounds maxRounds

theorem transitionNode_uses {A : Op → Prop} (c : TransitionCall)
    (hget : A (.getNode c.instanceId c.nodeId)) (hselect : A (.selectNode c.instanceId c.nodeId))
    (hnow : A .utcnow) (hupdate : ∀ seen now, A (.updateNode c seen now)) :
    (transitionNode c).Uses A := by
  have hget' : (getNode c.instanceId c.nodeId).Uses A := ⟨hget, fun _ => trivial⟩
  have hon : ∀ row, (c.tryOn row).Uses A := by
    intro row
    rw [TransitionCall.tryOn]
    split
    · trivial
    refine ⟨hnow, fun now => ⟨hupdate _ _, fun answer => ?_⟩⟩
    cases answer with
    | busy => trivial
    | done hit => cases hit <;> trivial
  have htry : c.tryTransition.Uses A := by
    refine ⟨hselect, fun answer => ?_⟩
    cases answer with
    | busy => trivial
    | done found =>
      cases found with
      | none => trivial
      | some row => exact hon row
  have hrounds : ∀ n, (c.rounds n).Uses A := by
    intro n
    induction n with
    | zero => exact Prog.uses_bind hget' fun _ => trivial
    | succ n ih =>
      refine Prog.uses_bind htry fun answer => ?_
      cases answer with
      | busy =>
        dsimp only
        split
        · trivial
        · exact ih
      | done result =>
        dsimp only
        split
        · trivial
        split
        · refine Prog.uses_bind hget' fun fresh => ?_
          split
          · trivial
          · exact ih
        · exact ih
  rw [transitionNode]
  split
  · refine Prog.uses_bind hget' fun fresh => ?_
    split
    · trivial
    · exact hrounds maxRounds
  · exact hrounds maxRounds

/-! ## Leases, heartbeats and orphans -/

/-- `heartbeat_node`: whether the lease is still this token's. -/
def heartbeatNode (instanceId nodeId token : String) (ttl : Nat) : Program Bool := do
  let now ← utcnow
  match ← (Prog.lift (Op.renewLease instanceId nodeId token (leaseUntil now ttl) now) :
      Program (Answer Bool)) with
  | .busy => return false
  | .done hit => return hit

/-- Whether another token's run lease is alive. -/
def leaseHeldElsewhere (inst : InstanceRow) (currentToken : String) (now : Nat) : Bool :=
  inst.runLeaseExpiresAt.any (now < ·) && inst.runLeaseOwner.getD "" ≠ "" &&
    inst.runLeaseOwner.getD "" ≠ currentToken

/-- Whether a listed row is an orphan at `now`: not this token's, and its lease has run out
    or was never written. -/
def isOrphan (currentToken : String) (now : Nat) (r : NodeRow) : Bool :=
  r.state = running && r.claimant ≠ currentToken && r.leaseExpiresAt.all (· ≤ now)

/-- The listing of `find_orphan_running_nodes`. -/
def listOrphans (instanceId currentToken : String) : Program (List String) := do
  let now ← utcnow
  let rows ← getNodes instanceId
  return (rows.filter (isOrphan currentToken now)).map fun r => r.nodeId

/-- `find_orphan_running_nodes`: nothing while another token drives the instance. -/
def findOrphanRunningNodes (instanceId currentToken : String) : Program (List String) := do
  match ← getInstance instanceId none with
  | none => return []
  | some inst =>
    if inst.status ≠ .running then return []
    else
      let now ← utcnow
      if leaseHeldElsewhere inst currentToken now then return []
      else listOrphans instanceId currentToken

/-! ## Instances -/

def selectInstance (instanceId : String) (ownerScope : Option String) :
    Program (Answer (Option InstanceRow)) :=
  Prog.lift (Op.selectInstance instanceId ownerScope)

def casInstance (instanceId : String) (revision : Nat) (fields : InstancePatch) :
    Program (Answer Bool) :=
  Prog.lift (Op.updateInstance instanceId revision fields)

/-- `update_instance`: a compare-and-set on the revision, `none` for a conflict, a missing
    row or a busy database. -/
def updateInstance (instanceId : String) (ownerScope : Option String)
    (expectedRevision : Option Nat) (fields : InstancePatch) : Program (Option InstanceRow) := do
  match ← selectInstance instanceId ownerScope with
  | .busy => return none
  | .done none => return none
  | .done (some row) =>
    if expectedRevision.any (· ≠ row.revision) then return none
    else
      match ← casInstance instanceId row.revision fields with
      | .busy => return none
      | .done false => return none
      | .done true => getInstance instanceId ownerScope

theorem updateInstance_uses {A : Op → Prop} {instanceId : String} {ownerScope : Option String}
    {expectedRevision : Option Nat} {fields : InstancePatch}
    (hselect : A (.selectInstance instanceId ownerScope))
    (hupdate : ∀ rev, A (.updateInstance instanceId rev fields))
    (hget : A (.getInstance instanceId ownerScope)) :
    (updateInstance instanceId ownerScope expectedRevision fields).Uses A := by
  refine ⟨hselect, fun answer => ?_⟩
  cases answer with
  | busy => trivial
  | done found =>
    cases found with
    | none => trivial
    | some row =>
      show (if _ then _ else _ : Program (Option InstanceRow)).Uses A
      split
      · trivial
      refine ⟨hupdate _, fun answer => ?_⟩
      cases answer with
      | busy => trivial
      | done hit =>
        cases hit with
        | false => trivial
        | true => exact ⟨hget, fun _ => trivial⟩

/-- `acquire_run_lease`: taken when free, expired or already this token's. A lost
    compare-and-set still counts when the token holds a live lease on a fresh read. -/
def acquireRunLease (instanceId ownerScope token : String) (ttl : Nat) : Program Bool := do
  let now ← utcnow
  match ← selectInstance instanceId (some ownerScope) with
  | .busy => return false
  | .done none => return false
  | .done (some row) =>
    if row.status = .cancelled ∨ row.status = .superseded then return false
    else if row.runLeaseExpiresAt.any (now < ·) ∧ row.runLeaseOwner.getD "" ≠ token then
      return false
    else
      match ← casInstance instanceId row.revision
        { runLease := some (some (clip 64 token), some (leaseUntil now ttl)) } with
      | .busy => return false
      | .done true => return true
      | .done false =>
        match ← selectInstance instanceId (some ownerScope) with
        | .done (some fresh) =>
          return fresh.runLeaseOwner.getD "" = clip 64 token &&
            fresh.runLeaseExpiresAt.any (now < ·)
        | _ => return false

/-- `list_recoverable_instances`: running instances whose driver died, that were never
    driven, or that wait for a cancellation, the oldest first. -/
def listRecoverableInstances (ttl limit : Nat) : Program (List InstanceRow) := do
  let now ← utcnow
  let rows ← (Prog.lift Op.selectInstances : Program (List InstanceRow))
  let due := rows.filter fun r =>
    r.status = .running ∧
      (r.runLeaseExpiresAt.any (· < now) ∨
        (r.runLeaseExpiresAt = none ∧ r.createdAt + max second ttl < now) ∨
        r.cancelRequested = true)
  return (due.mergeSort fun a b => a.createdAt ≤ b.createdAt).take (max 1 (min limit 64))

def sweepBatch : Nat := 16

def minDecidedForFinalize : Nat := 1

/-- The transition that recovery asks for: back to `READY`, from wherever the node is. -/
def resetCall (instanceId nodeId : String) : TransitionCall where
  instanceId := instanceId
  nodeId := nodeId
  toState := ready
  reason := "ORPHAN_LEASE_EXPIRED"
  event := "recovery"

/-- Lists the orphans of an instance and resets them one after another; `after` continues
    with each result. -/
def resetEach {α : Type} (instanceId currentToken : String) (a : α)
    (after : α → String → TransitionResult → Program α) : Program α := do
  let orphans ← findOrphanRunningNodes instanceId currentToken
  Prog.foldEach orphans a fun a nid => do
    let r ← transitionNode (resetCall instanceId nid)
    after a nid r

/-- `_reset_orphans`: how many were reset. -/
def resetOrphans (instanceId : String) : Program Nat :=
  resetEach instanceId "" 0 fun reset nid r => do
    if r.ok then
      appendEvent
        { instanceId, nodeId := clip 64 nid, kind := .recoveryOrphanReset,
          reason := "ORPHAN_LEASE_EXPIRED", actor := "recovery" }
      return reset + 1
    else return reset

/-- The transition of a cancellation. -/
def cancelCall (instanceId nodeId reason event : String) : TransitionCall where
  instanceId := instanceId
  nodeId := nodeId
  toState := cancelled
  reason := reason
  event := event

/-- `_consume_cancel`: cancels every node that was not decided when it looked, then the
    instance. -/
def consumeCancel (instanceId : String) : Program Nat := do
  let states ← getNodeStates instanceId
  let count ← Prog.foldEach states.items 0 fun n p => do
    if isTerminal p.2 then return n
    else
      let r ← transitionNode (cancelCall instanceId p.1 "RECOVERY_CANCEL" "recovery")
      return if r.ok then n + 1 else n
  match ← getInstance instanceId none with
  | none => return count
  | some fresh =>
    if fresh.status ≠ .running then return count
    else
      let now ← utcnow
      let updated ← updateInstance instanceId none (some fresh.revision)
        { status := some .cancelled, terminalAt := some (some now),
          errorCode := some "RECOVERY_CANCELLED" }
      if updated.isSome then
        appendEvent
          { instanceId, kind := .recoveryFinalize, reason := "CANCEL_CONVERGED",
            actor := "recovery", payload := .obj [("cancelled_nodes", .int count)] }
      return count

/-- `_consume_node_cancels`: cancels the flagged nodes that are neither running nor decided. -/
def consumeNodeCancels (instanceId : String) : Program Nat := do
  let flags ← getNodeCancelFlags instanceId
  if flags = [] then return 0
  else
    let states ← getNodeStates instanceId
    Prog.foldEach flags 0 fun n nid => do
      match states.find nid with
      | none => return n
      | some st =>
        if st = running ∨ isTerminal st then return n
        else
          let r ← transitionNode (cancelCall instanceId nid "NODE_CANCELLED" "recovery")
          return if r.ok then n + 1 else n

/-- `_finalize_if_decided`: an instance that is still running although all its nodes are
    decided gets the status its nodes give. `optionalNodes` is the package's answer. -/
def finalizeIfDecided (optionalNodes : InstanceRow → String → Bool) (instanceId : String) :
    Program Nat := do
  match ← getInstance instanceId none with
  | none => return 0
  | some inst =>
    if inst.status ≠ .running then return 0
    else
      let states ← getNodeStates instanceId
      let decided := states.items.filter fun p => isTerminal p.2
      if states.items = [] ∨ decided.length < minDecidedForFinalize ∨
          decided.length ≠ states.items.length then return 0
      else
        let status := instanceStatusFromNodes states.items (optionalNodes inst)
        let now ← utcnow
        let bad := (states.items.filter fun p => p.2 = failed ∨ p.2 = blocked).map Prod.fst
        let fields : InstancePatch := { status := some status, terminalAt := some (some now) }
        let fields := if status = .failed then
          { fields with
            errorCode := some "NODES_INCOMPLETE"
            errorDetail := some (clip 255 (join "," (bad.take 6))) } else fields
        let updated ← updateInstance instanceId none (some inst.revision) fields
        if updated.isSome then
          appendEvent
            { instanceId, kind := .recoveryFinalize, reason := "CRASH_BEFORE_FINALIZE",
              actor := "recovery", payload := .obj [("status", .str status.text)] }
          return 1
        else return 0

/-- One instance of a sweep. -/
def sweepInstance (optionalNodes : InstanceRow → String → Bool) (inst : InstanceRow) :
    Program Unit := do
  if inst.cancelRequested then
    let _ ← consumeCancel inst.instanceId
    return ()
  else
    let _ ← resetOrphans inst.instanceId
    let _ ← consumeNodeCancels inst.instanceId
    let _ ← finalizeIfDecided optionalNodes inst.instanceId
    return ()

def sweepRecoverable (optionalNodes : InstanceRow → String → Bool) (ttl : Nat) : Program Unit := do
  let instances ← listRecoverableInstances ttl sweepBatch
  Prog.forEach instances (sweepInstance optionalNodes)

end WebGis.Workflow
