/-
  The rows of `geocompute_runs` and the statements of the cluster's run store.

  A statement is what one transaction does from its first write to its commit: the update of
  a run and, with it, the reservation or the return of its resources, which a refusal rolls
  back together. What the transaction read before its first write comes in as an argument.
  Columns that no function here reads are left out (owner, session, fingerprint, profiles,
  `updated_at`). Times are microseconds of one clock that moves only by `tick`.

  The operations of the cluster's run store, as programs over its statements.

  An operation that looks at a run before it writes reads the row in a statement of its own,
  so other coordinators may act between that read and the conditional update that follows.
-/
import WebGis.Cluster.Ledger
import WebGis.Conc.History

namespace WebGis.Cluster

open Data Conc ClusterRunStatus

/-! ## Rows -/

structure RunRow where
  id : Nat
  runId : String
  status : ClusterRunStatus := queued
  planSnapshot : PlanSnapshot
  tenantKey : Option String := none
  projectKey : Option String := none
  priority : Int := 5
  attempts : Nat := 0
  preempts : Nat := 0
  leaseEpoch : Nat := 0
  coordinatorId : Option String := none
  leaseExpiresAt : Option Nat := none
  heartbeatAt : Option Nat := none
  cancelRequestedAt : Option Nat := none
  yieldRequestedAt : Option Nat := none
  dispatchSeq : Option Nat := none
  reserved : Amounts := 0
  resourceRequest : Option ResourceRequest := none
  errorCode : Option String := none
  startedAt : Option Nat := none
  terminalAt : Option Nat := none

namespace RunRow

/-- The run occupies a lease. -/
def Leased (row : RunRow) : Prop := row.status ∈ leasedStatuses

/-- The run may be claimed. -/
def Dispatchable (row : RunRow) : Prop := row.status ∈ dispatchableStatuses

/-- The run has ended. -/
def Terminal (row : RunRow) : Prop := row.status ∈ terminalStatuses

instance (row : RunRow) : Decidable row.Leased := inferInstanceAs (Decidable (_ ∈ _))

instance (row : RunRow) : Decidable row.Dispatchable := inferInstanceAs (Decidable (_ ∈ _))

instance (row : RunRow) : Decidable row.Terminal := inferInstanceAs (Decidable (_ ∈ _))

/-- The scopes a run counts in. -/
def scopeKeys (row : RunRow) : List String := scopeKeysFor row.tenantKey row.projectKey

/-- `_claims_for_row` -/
def claims (row : RunRow) (units : Nat) : Except EstimateError (Dict String Amounts) :=
  (claimedAmounts row.planSnapshot row.resourceRequest units).map
    (claimsOver row.tenantKey row.projectKey)

/-- `_reserved_claims_from_row` -/
def reservedClaims (row : RunRow) : Dict String Amounts :=
  claimsOver row.tenantKey row.projectKey row.reserved

end RunRow

/-! ## Writes -/

/-- The conditional updates of a run. `seen` is the row that the operation read before. -/
inductive RunWrite where
  | claim (seen : RunRow) (coordinatorId : String) (ttl now : Nat)
  | start (epoch now : Nat)
  | beat (epoch ttl now : Nat)
  | finish (seen : RunRow) (epoch : Nat) (status : ClusterRunStatus) (errorCode : Option String)
      (now : Nat)
  | requeue (epoch : Nat)
  | reclaim (seen : RunRow) (now maxAttempts : Nat) (forced : Bool)
  | requestCancel (seen : RunRow) (now : Nat)
  | cancel (seen : RunRow) (now : Nat)
  | requestYield (seen : RunRow) (now : Nat)

/-- Whether a preemption of the row read is one too many. -/
def preemptExhausted (seen : RunRow) (status : ClusterRunStatus) : Bool :=
  status = preempted && maxPreempts ≤ seen.preempts + 1

/-- The status that `finish_run` writes. -/
def finishStatus (seen : RunRow) (status : ClusterRunStatus) : ClusterRunStatus :=
  if preemptExhausted seen status then failed else status

namespace RunWrite

/-- The condition of the update. -/
def admits : RunWrite → RunRow → Bool
  | .claim seen _ _ _, row =>
    row.id = seen.id && row.status ∈ dispatchableStatuses && row.leaseEpoch = seen.leaseEpoch &&
      row.cancelRequestedAt = none
  | .start epoch _, row => row.leaseEpoch = epoch && row.status = leased
  | .beat epoch _ _, row => row.leaseEpoch = epoch && row.status ∈ leasedStatuses
  | .finish seen epoch _ _ _, row =>
    row.id = seen.id && row.leaseEpoch = epoch && row.status ∈ leasedStatuses
  | .requeue epoch, row => row.leaseEpoch = epoch && row.status = preempted
  | .reclaim seen _ _ _, row =>
    row.id = seen.id && row.status ∈ leasedStatuses && row.leaseEpoch = seen.leaseEpoch
  | .requestCancel seen _, row =>
    row.id = seen.id && row.cancelRequestedAt = none &&
      row.status ∈ dispatchableStatuses ++ leasedStatuses
  | .cancel seen _, row => row.id = seen.id && row.status ∈ dispatchableStatuses
  | .requestYield seen _, row => row.id = seen.id && row.yieldRequestedAt = none

/-- The columns it writes, those of the reservation apart. -/
def values : RunWrite → RunRow → RunRow
  | .claim seen coordinatorId ttl now, row =>
    { row with
      status := leased, leaseEpoch := seen.leaseEpoch + 1, coordinatorId := some coordinatorId,
      leaseExpiresAt := some (now + ttl), heartbeatAt := some now, dispatchSeq := some seen.id }
  | .start _ now, row => { row with status := running, startedAt := some now }
  | .beat _ ttl now, row => { row with heartbeatAt := some now, leaseExpiresAt := some (now + ttl) }
  | .finish seen _ status errorCode now, row =>
    { row with
      status := finishStatus seen status
      errorCode := if preemptExhausted seen status then some "PREEMPT_EXHAUSTED" else errorCode
      preempts := if status = preempted then row.preempts + 1 else row.preempts
      terminalAt := if finishStatus seen status ∈ terminalStatuses then some now else none }
  | .requeue _, row =>
    { row with
      status := queued, coordinatorId := none, leaseExpiresAt := none, yieldRequestedAt := none }
  | .reclaim seen now maxAttempts _, row =>
    let errorCode := runErrorForReclaim (seen.attempts + 1) maxAttempts
    { row with
      status := if errorCode.isSome then failed else queued
      attempts := seen.attempts + 1, errorCode := errorCode, coordinatorId := none,
      leaseExpiresAt := none
      terminalAt := if errorCode.isSome then some now else none }
  | .requestCancel _ now, row => { row with cancelRequestedAt := some now }
  | .cancel _ now, row => { row with status := cancelled, terminalAt := some now }
  | .requestYield _ now, row => { row with yieldRequestedAt := some now }

/-- Why an update that found its row was rolled back. -/
inductive Refusal where
  | limit (d : Dimension)
  | estimate (error : EstimateError)
  deriving DecidableEq, Repr

/-- The reservation of a claim: the usages afterwards, and what the row is then recorded to
    have reserved. -/
def reserveFor (u : Usages) (L : ClusterLedger) (seen : RunRow) :
    Except Refusal (Usages × Option Amounts) :=
  match seen.claims 1 with
  | .error e => .error (.estimate e)
  | .ok claims =>
    match L.reserve u claims.items with
    | (u', none) => .ok (u', claims.find "global")
    | (u', some d) => if L.enforcing then .error (.limit d) else .ok (u', claims.find "global")

/-- What the update does to the ledger and, if it changes, to the row's reservation. -/
def settle (u : Usages) : Option ClusterLedger → RunWrite →
    Except Refusal (Usages × Option Amounts)
  | some L, .claim seen _ _ _ => reserveFor u L seen
  | some _, .finish seen _ _ _ _ => .ok (releaseClaims u seen.reservedClaims.items, some 0)
  | some _, .reclaim seen _ _ _ => .ok (releaseClaims u seen.reservedClaims.items, some 0)
  | _, _ => .ok (u, none)

/-- The row after the update. -/
def apply (write : RunWrite) (reserved : Option Amounts) (row : RunRow) : RunRow :=
  { write.values row with reserved := reserved.getD (write.values row).reserved }

end RunWrite

/-! ## Statements -/

/-- What is submitted as a new run. -/
structure RunSpec where
  runId : String
  planSnapshot : PlanSnapshot
  tenantKey : Option String := none
  projectKey : Option String := none
  priority : Int := 5
  resourceRequest : Option ResourceRequest := none

/-- Why a submission is refused. -/
inductive SubmitError where
  | tenantQueueFull | clusterQueueFull | duplicate
  deriving DecidableEq, Repr

/-- The answer to an update. -/
inductive WriteResult where
  | done | lost | refused (why : RunWrite.Refusal)
  deriving DecidableEq, Repr

/-- The statements. -/
inductive RunOp where
  | utcnow
  | tick (d : Nat)
  | insertRun (spec : RunSpec) (maxQueuedPerTenant maxQueuedTotal : Nat)
  | getRun (runId : String)
  | ensureScope (ledger : ClusterLedger) (scopeKey : String)
  | setScopeLimits (scopeKey : String) (limit : Dimension → Option Nat)
  | update (runId : String) (write : RunWrite) (ledger : Option ClusterLedger)
  | selectLeased (limit : Nat)
  | selectExpired (now limit : Nat)
  | selectFlagged (limit : Nat)
  | scanDispatchable (limit : Nat)
  | tenantLastDispatch

/-- The type of each statement's answer. -/
def RunRes : RunOp → Type
  | .utcnow => Nat
  | .tick _ => Unit
  | .insertRun _ _ _ => Except SubmitError Unit
  | .getRun _ => Option RunRow
  | .ensureScope _ _ => Unit
  | .setScopeLimits _ _ => Bool
  | .update _ _ _ => WriteResult
  | .selectLeased _ => List RunRow
  | .selectExpired _ _ => List RunRow
  | .selectFlagged _ => List RunRow
  | .scanDispatchable _ => List RunRow
  | .tenantLastDispatch => Dict String Nat

/-- The tables, the sequence of ids and the clock. -/
structure RunWorld where
  runs : Table RunRow String RunRow.runId := Table.empty
  usages : Usages := Table.empty
  nextId : Nat := 1
  clock : Nat := 0

namespace RunWorld

/-- The database before any run. -/
def init : RunWorld := {}

variable (w : RunWorld)

def run (k : String) : Option RunRow := w.runs.get k

/-- The row that an update is carried out on, with what it does to the ledger. -/
def hit (k : String) (write : RunWrite) (ledger : Option ClusterLedger) :
    Option (RunRow × Usages × Option Amounts) :=
  match (w.run k).filter write.admits, write.settle w.usages ledger with
  | some row, .ok (u, reserved) => some (row, u, reserved)
  | _, _ => none

/-- An update of a run with what it does to the ledger, or neither. -/
def update (k : String) (write : RunWrite) (ledger : Option ClusterLedger) :
    RunWorld × WriteResult :=
  match (w.run k).filter write.admits with
  | none => (w, .lost)
  | some row =>
    match write.settle w.usages ledger with
    | .error why => (w, .refused why)
    | .ok (u, reserved) =>
      ({ w with runs := w.runs.put (write.apply reserved row), usages := u }, .done)

/-- The rows whose status is one of `statuses`. -/
def withStatus (statuses : List ClusterRunStatus) : List RunRow :=
  w.runs.rows.filter fun row => row.status ∈ statuses

/-- How many runs of a tenant wait. -/
def tenantCount : Option String → Nat
  | none => 0
  | some t =>
    ((w.withStatus dispatchableStatuses).filter fun row => row.tenantKey = some t).length

/-- The INSERT of `create_run`, behind the bounds of the queues. -/
def insertRun (spec : RunSpec) (maxQueuedPerTenant maxQueuedTotal : Nat) :
    RunWorld × Except SubmitError Unit :=
  if maxQueuedPerTenant ≤ w.tenantCount spec.tenantKey then (w, .error .tenantQueueFull)
  else if maxQueuedTotal ≤ (w.withStatus dispatchableStatuses).length then
    (w, .error .clusterQueueFull)
  else
    let row : RunRow :=
      { id := w.nextId, runId := spec.runId, planSnapshot := spec.planSnapshot,
        tenantKey := spec.tenantKey, projectKey := spec.projectKey,
        priority := coercePriority spec.priority
        resourceRequest := spec.resourceRequest.filter (·.encoded ≤ 1024) }
    match w.runs.insert [row] with
    | some runs => ({ w with runs := runs, nextId := w.nextId + 1 }, .ok ())
    | none => (w, .error .duplicate)

/-- The lease of the row lies before `now`. -/
def expired (now : Nat) (row : RunRow) : Bool := row.leaseExpiresAt.any (· < now)

/-- The claims of the longest expired leases. -/
def selectExpired (now limit : Nat) : List RunRow :=
  (((w.withStatus leasedStatuses).filter (expired now)).insertionSort
    fun a b => a.leaseExpiresAt.getD 0 ≤ b.leaseExpiresAt.getD 0).take (max 1 limit)

/-- `scan_dispatchable`: higher priorities first, then the order of submission. -/
def scanDispatchable (limit : Nat) : List RunRow :=
  ((w.withStatus dispatchableStatuses).insertionSort fun a b =>
    b.priority < a.priority ∨ b.priority = a.priority ∧ a.id ≤ b.id).take (max 1 limit)

/-- `tenant_last_dispatch`: the greatest dispatch number of each tenant's runs that have not
    ended. -/
def tenantLastDispatch : Dict String Nat :=
  (w.runs.rows.filter fun row => row.status ∉ terminalStatuses).foldl
    (fun last row =>
      match row.tenantKey with
      | none => last
      | some t => last.set t (max (last.getD t 0) (row.dispatchSeq.getD 0)))
    Dict.empty

end RunWorld

/-- What a statement does. A listing without an order gives the rows in that of the table. -/
def runExec (w : RunWorld) : (o : RunOp) → RunWorld × RunRes o
  | .utcnow => (w, w.clock)
  | .tick d => ({ w with clock := w.clock + d }, ())
  | .insertRun spec perTenant total => w.insertRun spec perTenant total
  | .getRun k => (w, w.run k)
  | .ensureScope L k => ({ w with usages := L.ensureScope w.usages k }, ())
  | .setScopeLimits k limit =>
    let (u, ok) := setScopeLimits w.usages k limit
    ({ w with usages := u }, ok)
  | .update k write ledger => w.update k write ledger
  | .selectLeased limit => (w, (w.withStatus leasedStatuses).take (max 1 limit * 4))
  | .selectExpired now limit => (w, w.selectExpired now limit)
  | .selectFlagged limit =>
    (w, ((w.withStatus dispatchableStatuses).filter
      fun row => row.cancelRequestedAt.isSome).take (max 1 limit))
  | .scanDispatchable limit => (w, w.scanDispatchable limit)
  | .tenantLastDispatch => (w, w.tenantLastDispatch)

/-- A database of runs with the calls that led to it. -/
abbrev RunPast : Type := Traced RunOp Unit RunWorld

/-- A call of the history. -/
abbrev RunCall : Type := Call RunOp Unit RunWorld

/-- The statements, with the history kept. -/
abbrev runRun : Exec RunOp RunRes Unit RunPast := traced fun _ => runExec

def RunPast.init : RunPast := ⟨RunWorld.init, []⟩

abbrev RunProgram (α : Type) : Type := Prog RunOp RunRes α

/-! ## Statements as programs -/

def utcnow : RunProgram Nat := Prog.lift RunOp.utcnow

def tick (d : Nat) : RunProgram Unit := Prog.lift (RunOp.tick d)

/-- `get_run_internal` -/
def getRun (runId : String) : RunProgram (Option RunRow) := Prog.lift (RunOp.getRun runId)

def ensureScope (L : ClusterLedger) (scopeKey : String) : RunProgram Unit :=
  Prog.lift (RunOp.ensureScope L scopeKey)

def ensureScopes (L : ClusterLedger) (scopeKeys : List String) : RunProgram Unit :=
  Prog.forEach scopeKeys (ensureScope L)

/-- The scope rows that an operation on the run makes sure of, when it works on a ledger. -/
def ensureScopesOf (ledger : Option ClusterLedger) (runId : String) : RunProgram Unit :=
  match ledger with
  | none => return ()
  | some L => do
      match ← getRun runId with
      | none => return ()
      | some internal => ensureScopes L internal.scopeKeys

def updateRun (runId : String) (write : RunWrite) (ledger : Option ClusterLedger) :
    RunProgram WriteResult := Prog.lift (RunOp.update runId write ledger)

/-- `set_scope_limits` -/
def putScopeLimits (scopeKey : String) (limit : Dimension → Option Nat) : RunProgram Bool :=
  Prog.lift (RunOp.setScopeLimits scopeKey limit)

/-! ## Submission -/

/-- Why a run is not created. -/
inductive CreateError where
  | planSnapshotTooLarge | estimate (error : EstimateError) | queue (error : SubmitError)
  deriving DecidableEq, Repr

/-- `create_run`, under a fresh run id. -/
def createRun (spec : RunSpec) (maxQueuedPerTenant maxQueuedTotal : Nat) :
    RunProgram (Except CreateError Unit) := do
  if maxPlanSnapshotBytes < spec.planSnapshot.encoded then return .error .planSnapshotTooLarge
  else
    match estimateFromSnapshot spec.planSnapshot with
    | .error e => return .error (.estimate e)
    | .ok _ =>
      ensureScope {} "global"
      let ok ← (Prog.lift (RunOp.insertRun spec maxQueuedPerTenant maxQueuedTotal) :
        RunProgram (Except SubmitError Unit))
      return ok.mapError .queue

/-! ## Leases -/

/-- What `claim_lease` answers: the new epoch, a refusal, or nothing. -/
inductive ClaimResult where
  | claimed (epoch : Nat) | refused (why : RunWrite.Refusal) | lost
  deriving DecidableEq, Repr

def claimLease (runId coordinatorId : String) (ttl maxAttempts : Nat)
    (ledger : Option ClusterLedger) : RunProgram ClaimResult := do
  ensureScopesOf ledger runId
  match ← getRun runId with
  | none => return .lost
  | some row =>
    if maxAttempts ≤ row.attempts then return .lost
    else
      let now ← utcnow
      match ← updateRun runId (.claim row coordinatorId ttl now) ledger with
      | .done => return .claimed (row.leaseEpoch + 1)
      | .lost => return .lost
      | .refused why => return .refused why

def markRunning (runId : String) (epoch : Nat) : RunProgram Bool := do
  let now ← utcnow
  let r ← updateRun runId (.start epoch now) none
  return r = .done

def heartbeatRun (runId : String) (epoch ttl : Nat) : RunProgram Bool := do
  let now ← utcnow
  let r ← updateRun runId (.beat epoch ttl now) none
  return r = .done

def finishRun (runId : String) (epoch : Nat) (status : ClusterRunStatus)
    (errorCode : Option String) (ledger : Option ClusterLedger) : RunProgram Bool := do
  if status ∉ terminalStatuses ∧ status ≠ preempted then return false
  else
    ensureScopesOf ledger runId
    match ← getRun runId with
    | none => return false
    | some row =>
      if row.leaseEpoch ≠ epoch then return false
      else
        let now ← utcnow
        let r ← updateRun runId (.finish row epoch status errorCode now) ledger
        return r = .done

def requeuePreempted (runId : String) (epoch : Nat) : RunProgram Bool := do
  let r ← updateRun runId (.requeue epoch) none
  return r = .done

/-- What became of a run whose lease was taken back. -/
inductive ReclaimOutcome where
  | failed | requeued
  deriving DecidableEq, Repr

def reclaimOutcome (row : RunRow) (maxAttempts : Nat) : ReclaimOutcome :=
  if (runErrorForReclaim (row.attempts + 1) maxAttempts).isSome then .failed else .requeued

/-- `now or _utcnow()` -/
def referenceTime : Option Nat → RunProgram Nat
  | some t => return t
  | none => utcnow

/-- The scope rows that `reclaim_expired` makes sure of. -/
def ensureLeasedScopes (ledger : Option ClusterLedger) (limit : Nat) : RunProgram Unit :=
  match ledger with
  | none => return ()
  | some L => do
      let leased ← (Prog.lift (RunOp.selectLeased limit) : RunProgram (List RunRow))
      ensureScopes L (leased.flatMap RunRow.scopeKeys)

def reclaimExpired (reference : Option Nat) (limit maxAttempts : Nat)
    (ledger : Option ClusterLedger) : RunProgram (List (String × ReclaimOutcome)) := do
  let now ← referenceTime reference
  ensureLeasedScopes ledger limit
  let rows ← (Prog.lift (RunOp.selectExpired now limit) : RunProgram (List RunRow))
  Prog.foldEach rows [] fun outcomes row => do
    let r ← updateRun row.runId (.reclaim row now maxAttempts false) ledger
    return if r = .done then outcomes ++ [(row.runId, reclaimOutcome row maxAttempts)] else outcomes

def forceRequeue (runId : String) (maxAttempts : Nat) (ledger : Option ClusterLedger)
    (requireExpired : Bool) : RunProgram (Option ReclaimOutcome) := do
  match ← getRun runId with
  | none => return none
  | some row =>
    if ¬ row.Leased then return none
    else
      let now ← utcnow
      if requireExpired ∧ row.leaseExpiresAt.all (now ≤ ·) then return none
      else
        let now ← utcnow
        let r ← updateRun runId (.reclaim row now maxAttempts true) ledger
        return if r = .done then some (reclaimOutcome row maxAttempts) else none

/-! ## Flags -/

def requestCancel (runId : String) : RunProgram (Bool × Option ClusterRunStatus) := do
  match ← getRun runId with
  | none => return (false, none)
  | some row =>
    if row.Terminal ∨ row.cancelRequestedAt.isSome then return (false, some row.status)
    else
      let now ← utcnow
      let r ← updateRun runId (.requestCancel row now) none
      return (r = .done, some row.status)

def cancelFlagged (limit : Nat) : RunProgram (List String) := do
  let rows ← (Prog.lift (RunOp.selectFlagged limit) : RunProgram (List RunRow))
  let now ← utcnow
  Prog.foldEach rows [] fun cancelled row => do
    let r ← updateRun row.runId (.cancel row now) none
    return if r = .done then cancelled ++ [row.runId] else cancelled

def requestYield (runId : String) : RunProgram Bool := do
  match ← getRun runId with
  | none => return false
  | some row =>
    if row.yieldRequestedAt.isSome then return false
    else
      let now ← utcnow
      let _ ← updateRun runId (.requestYield row now) none
      return true

def consumeYieldIfRequested (runId : String) : RunProgram Bool := do
  let row ← getRun runId
  return row.any fun row => row.yieldRequestedAt.isSome

end WebGis.Cluster
