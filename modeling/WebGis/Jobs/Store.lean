/-
  The lifecycle of a durable job: its statuses, the table of moves between them, and the
  guards that are derived from the table.

  Statuses are an enumeration here; a text that is none of them does not occur.

  The rows of `analysis_tasks` and the statements of the durable job store.

  Columns that no function here reads or writes are left out (owner, session, correlation
  ids, `updated_at`). Texts and results are those that redaction left. Times are
  microseconds of one clock that moves only by `tick`.

  The operations of the durable job store, as programs over its statements.

  Every change of a status is one conditional update, whose guard comes from the lifecycle
  table. The listings of the sweeps and the read of a retry are statements of their own, so
  other writers may act between them and the updates that follow. The synchronous and the
  asynchronous entry of an operation send the same statements and are one program here.
-/
import Mathlib
import WebGis.Conc.History
import WebGis.Data.Json
import WebGis.Data.Table

open List

namespace WebGis.Jobs

inductive JobStatus where
  | pending | queued | running | cancelling | cancelled | completed | failed | stale
  deriving DecidableEq, Repr

open JobStatus

/-- The text a status has in the database. -/
def JobStatus.text : JobStatus → String
  | pending => "pending"
  | queued => "queued"
  | running => "running"
  | cancelling => "cancelling"
  | cancelled => "cancelled"
  | completed => "completed"
  | failed => "failed"
  | stale => "stale"

/-- Every status, in the order of the table. -/
def allStatuses : List JobStatus :=
  [pending, queued, running, cancelling, cancelled, completed, failed, stale]

/-- No worker moves such a job any more. -/
def terminalStatuses : List JobStatus := [cancelled, completed, failed, stale]

/-- Nothing moves such a job any more. -/
def immutableStatuses : List JobStatus := [cancelled, completed]

def cancellableStatuses : List JobStatus := [pending, queued, running]

def retryableStatuses : List JobStatus := [failed, stale]

def activeStatuses : List JobStatus := [pending, queued, running, cancelling]

/-- The moves. -/
def allowedTransitions : JobStatus → List JobStatus
  | pending => [queued, running, cancelling, cancelled, failed]
  | queued => [running, cancelling, cancelled, failed, stale]
  | running => [cancelling, completed, failed, stale]
  | cancelling => [cancelled, failed]
  | cancelled => []
  | completed => []
  | failed => [queued]
  | stale => [queued]

/-- The statuses with a move to `target`: the guard of the conditional update. -/
def sourcesFor (target : JobStatus) : List JobStatus :=
  allStatuses.filter fun src => target ∈ allowedTransitions src

theorem mem_sourcesFor {src target : JobStatus} :
    src ∈ sourcesFor target ↔ target ∈ allowedTransitions src := by
  have hall : src ∈ allStatuses := by cases src <;> decide
  simp [sourcesFor, hall]

theorem not_mem_sourcesFor {src : JobStatus} (h : src ∈ immutableStatuses) (target : JobStatus) :
    src ∉ sourcesFor target := by
  rw [mem_sourcesFor]
  simp only [immutableStatuses, mem_cons, not_mem_nil, or_false] at h
  rcases h with rfl | rfl <;> exact not_mem_nil

theorem not_mem_activeStatuses {s : JobStatus} (h : s ∈ immutableStatuses) :
    s ∉ activeStatuses := by
  simp only [immutableStatuses, mem_cons, not_mem_nil, or_false] at h
  rcases h with rfl | rfl <;> decide

open Data Conc JobStatus

/-! ## Rows -/

structure JobRow where
  id : Nat
  status : JobStatus := pending
  progress : Nat := 0
  progressMessage : Option String := none
  resultSummary : Option Json := none
  resultRef : Option String := none
  errorTrace : Option String := none
  retryCount : Nat := 0
  maxRetries : Nat := 3
  queuedAt : Option Nat := none
  startedAt : Option Nat := none
  completedAt : Option Nat := none
  createdAt : Nat
  celeryTaskId : Option String := none
  attempt : Nat := 1
  workerId : Option String := none
  cancelRequestedAt : Option Nat := none
  heartbeatAt : Option Nat := none
  dispatchSpec : Option Json := none

/-- The columns that a transition writes besides the status. -/
structure JobFields where
  progress : Option Nat := none
  progressMessage : Option String := none
  resultSummary : Option (Option Json) := none
  resultRef : Option (Option String) := none
  errorTrace : Option (Option String) := none
  retryCount : Option Nat := none
  queuedAt : Option Nat := none
  startedAt : Option (Option Nat) := none
  completedAt : Option (Option Nat) := none
  celeryTaskId : Option String := none
  attempt : Option Nat := none
  workerId : Option (Option String) := none
  cancelRequestedAt : Option (Option Nat) := none
  heartbeatAt : Option (Option Nat) := none

def JobFields.apply (f : JobFields) (target : JobStatus) (row : JobRow) : JobRow :=
  { row with
    status := target
    progress := f.progress.getD row.progress
    progressMessage := f.progressMessage.or row.progressMessage
    resultSummary := f.resultSummary.getD row.resultSummary
    resultRef := f.resultRef.getD row.resultRef
    errorTrace := f.errorTrace.getD row.errorTrace
    retryCount := f.retryCount.getD row.retryCount
    queuedAt := f.queuedAt.or row.queuedAt
    startedAt := f.startedAt.getD row.startedAt
    completedAt := f.completedAt.getD row.completedAt
    celeryTaskId := f.celeryTaskId.or row.celeryTaskId
    attempt := f.attempt.getD row.attempt
    workerId := f.workerId.getD row.workerId
    cancelRequestedAt := f.cancelRequestedAt.getD row.cancelRequestedAt
    heartbeatAt := f.heartbeatAt.getD row.heartbeatAt }

/-! ## Statements -/

/-- The identity a worker writes under: its id and the attempt it claimed, each checked only
    when it is given. -/
structure Claimant where
  workerId : Option String := none
  attempt : Option Nat := none
  deriving DecidableEq

/-- The predicates `worker_id = …` and `attempt = …`. -/
def Claimant.admits (c : Claimant) (row : JobRow) : Bool :=
  c.workerId.all (fun w => row.workerId = some w) && c.attempt.all (fun a => row.attempt = a)

/-- The arguments of `_transition_stmt`. -/
structure TransitionStmt where
  jobId : Nat
  target : JobStatus
  expected : Option (List JobStatus) := none
  claimant : Claimant := {}
  fields : JobFields := {}

/-- The statuses the update is conditional on. -/
def TransitionStmt.allowed (u : TransitionStmt) : List JobStatus :=
  u.expected.getD (sourcesFor u.target)

/-- What a worker reports of its progress. -/
structure JobProgress where
  progress : Option Int := none
  message : Option String := none
  phase : Option String := none
  currentStep : Option Int := none
  totalSteps : Option Int := none

def JobProgress.clamped (p : JobProgress) : Option Nat :=
  p.progress.map fun n => (min 100 (max 0 n)).toNat

def JobProgress.asMessage (p : JobProgress) : Option String :=
  let nonEmpty (s : Option String) : Option String := s.filter (· ≠ "")
  let phase := ((nonEmpty p.phase).map fun s => "[" ++ s ++ "]").toList
  let message := (nonEmpty p.message).toList
  let steps := match p.currentStep, p.totalSteps.filter (· ≠ 0) with
    | some i, some n => ["(" ++ toString i ++ "/" ++ toString n ++ ")"]
    | _, _ => []
  (nonEmpty (some (strip (join " " (phase ++ message ++ steps))))).map (clip 255)

/-- `_progress_values` -/
def JobProgress.apply (p : JobProgress) (now : Nat) (row : JobRow) : JobRow :=
  { row with
    heartbeatAt := some now
    progress := p.clamped.getD row.progress
    progressMessage := p.asMessage.or row.progressMessage }

def JobRow.beat (now : Nat) (row : JobRow) : JobRow := { row with heartbeatAt := some now }

def JobRow.attach (celeryTaskId : String) (row : JobRow) : JobRow :=
  { row with celeryTaskId := some celeryTaskId }

/-- The statements. -/
inductive JobOp where
  | utcnow
  | tick (d : Nat)
  | insertJob (maxRetries : Nat) (dispatchSpec : Option Json) (celeryTaskId : Option String)
      (now : Nat)
  | getJob (jobId : Nat)
  | update (stmt : TransitionStmt)
  | updateProgress (jobId : Nat) (snapshot : JobProgress) (claimant : Claimant) (now : Nat)
  | heartbeat (jobId : Nat) (claimant : Claimant) (now : Nat)
  | setCeleryTaskId (jobId : Nat) (celeryTaskId : String)
  | selectStale (cutoff limit : Nat)
  | selectOrphans (cutoff limit : Nat)

/-- The type of each statement's answer. -/
def JobRes : JobOp → Type
  | .utcnow => Nat
  | .tick _ => Unit
  | .insertJob _ _ _ _ => Nat
  | .getJob _ => Option JobRow
  | .update _ => Bool
  | .updateProgress _ _ _ _ => Bool
  | .heartbeat _ _ _ => Bool
  | .setCeleryTaskId _ _ => Bool
  | .selectStale _ _ => List JobRow
  | .selectOrphans _ _ => List JobRow

/-- The table, its sequence of ids and the clock. -/
structure JobWorld where
  jobs : Table JobRow Nat JobRow.id := Table.empty
  nextId : Nat := 1
  clock : Nat := 0

namespace JobWorld

/-- The database before any job. -/
def init : JobWorld := {}

variable (w : JobWorld)

def job (k : Nat) : Option JobRow := w.jobs.get k

/-- An UPDATE of the row `k` under a condition. -/
def updateWhere (k : Nat) (cond : JobRow → Bool) (f : JobRow → JobRow) : JobWorld × Bool :=
  match w.job k with
  | some row => if cond row then ({ w with jobs := w.jobs.put (f row) }, true) else (w, false)
  | none => (w, false)

/-- The row a transition is carried out on. -/
def hit (u : TransitionStmt) : Option JobRow :=
  (w.job u.jobId).filter fun row => row.status ∈ u.allowed && u.claimant.admits row

/-- A job joins under the next id. -/
def insertJob (maxRetries : Nat) (dispatchSpec : Option Json) (celeryTaskId : Option String)
    (now : Nat) : JobWorld × Nat :=
  let row : JobRow := { id := w.nextId, maxRetries, dispatchSpec, celeryTaskId, createdAt := now }
  match w.jobs.insert [row] with
  | some jobs => ({ w with jobs := jobs, nextId := w.nextId + 1 }, w.nextId)
  | none => (w, w.nextId)

/-- `_stale_predicate` -/
def isStale (cutoff : Nat) (row : JobRow) : Bool :=
  (row.status = running || row.status = cancelling) &&
    (row.heartbeatAt.any (· < cutoff) || (row.heartbeatAt = none && row.startedAt.any (· < cutoff)))

/-- `_orphan_predicate` -/
def isOrphan (cutoff : Nat) (row : JobRow) : Bool :=
  (row.status = pending || row.status = queued) && row.createdAt < cutoff

end JobWorld

/-- What a statement does. A listing without an order gives the rows in that of the table. -/
def jobExec (w : JobWorld) : (o : JobOp) → JobWorld × JobRes o
  | .utcnow => (w, w.clock)
  | .tick d => ({ w with clock := w.clock + d }, ())
  | .insertJob m spec celery now => w.insertJob m spec celery now
  | .getJob k => (w, w.job k)
  | .update u =>
    w.updateWhere u.jobId (fun row => row.status ∈ u.allowed && u.claimant.admits row)
      (u.fields.apply u.target)
  | .updateProgress k p c now =>
    w.updateWhere k (fun row => row.status ∈ activeStatuses && c.admits row) (p.apply now)
  | .heartbeat k c now =>
    w.updateWhere k (fun row => row.status ∈ activeStatuses && c.admits row) (JobRow.beat now)
  | .setCeleryTaskId k t => w.updateWhere k (fun _ => true) (JobRow.attach t)
  | .selectStale cutoff limit => (w, (w.jobs.rows.filter (JobWorld.isStale cutoff)).take limit)
  | .selectOrphans cutoff limit => (w, (w.jobs.rows.filter (JobWorld.isOrphan cutoff)).take limit)

/-- A database of jobs with the calls that led to it. -/
abbrev JobPast : Type := Traced JobOp Unit JobWorld

/-- A call of the history. -/
abbrev JobCall : Type := Call JobOp Unit JobWorld

/-- The statements, with the history kept. -/
abbrev jobRun : Exec JobOp JobRes Unit JobPast := traced fun _ => jobExec

def JobPast.init : JobPast := ⟨JobWorld.init, []⟩

abbrev JobProgram (α : Type) : Type := Prog JobOp JobRes α

def second : Nat := 1000000

/-- `DEFAULT_STALE_AFTER_S` -/
def defaultStaleAfter : Nat := 300 * second

/-- `ORPHAN_AFTER_S` -/
def orphanAfter : Nat := 3600 * second

/-! ## The updates -/

/-- `text or default`, clipped to the column. -/
def messageOr (message : Option String) (default : String) : String :=
  clip 255 ((message.filter (· ≠ "")).getD default)

def queuedStmt (jobId : Nat) (celeryTaskId : Option String) (now : Nat) : TransitionStmt where
  jobId := jobId
  target := queued
  expected := some [pending]
  fields := { queuedAt := some now, celeryTaskId := celeryTaskId.filter (· ≠ "") }

def runningStmt (jobId : Nat) (workerId : String) (now : Nat) : TransitionStmt where
  jobId := jobId
  target := running
  fields :=
    { startedAt := some (some now), heartbeatAt := some (some now), workerId := some (some workerId) }

def succeededStmt (jobId : Nat) (result : Option Json) (resultRef message : Option String)
    (claimant : Claimant) (now : Nat) : TransitionStmt where
  jobId := jobId
  target := completed
  claimant := claimant
  fields :=
    { progress := some 100, progressMessage := some (messageOr message "completed"),
      resultSummary := some result,
      resultRef := some ((resultRef.filter (· ≠ "")).map (clip 512)),
      completedAt := some (some now), heartbeatAt := some none }

def failedStmt (jobId : Nat) (error message : Option String) (claimant : Claimant) (now : Nat) :
    TransitionStmt where
  jobId := jobId
  target := failed
  claimant := claimant
  fields :=
    { errorTrace := some error,
      progressMessage := some (messageOr message ((error.filter (· ≠ "")).getD "failed")),
      completedAt := some (some now), heartbeatAt := some none }

def cancellingStmt (jobId : Nat) (now : Nat) : TransitionStmt where
  jobId := jobId
  target := cancelling
  fields := { cancelRequestedAt := some (some now), progressMessage := some "cancelling" }

def cancelledStmt (jobId : Nat) (message : Option String) (claimant : Claimant) (now : Nat) :
    TransitionStmt where
  jobId := jobId
  target := cancelled
  claimant := claimant
  fields :=
    { progressMessage := some (messageOr message "cancelled"), completedAt := some (some now),
      heartbeatAt := some none }

def staleStmt (jobId : Nat) (now : Nat) : TransitionStmt where
  jobId := jobId
  target := stale
  fields :=
    { progressMessage := some "worker heartbeat lost",
      errorTrace := some (some "job marked stale: worker heartbeat lost"),
      completedAt := some (some now), heartbeatAt := some none }

def orphanedStmt (jobId : Nat) (now : Nat) : TransitionStmt where
  jobId := jobId
  target := failed
  expected := some [pending, queued]
  fields :=
    { progressMessage := some "never picked up by a worker",
      errorTrace := some (some "job orphaned: never picked up by a worker"),
      completedAt := some (some now), heartbeatAt := some none }

/-- The update of a retry, whose counters come from the row `seen` that was read. -/
def retryStmt (jobId : Nat) (seen : JobRow) (now : Nat) : TransitionStmt where
  jobId := jobId
  target := queued
  expected := some [failed, stale]
  fields :=
    { attempt := some (max 1 seen.attempt + 1), retryCount := some (seen.retryCount + 1),
      queuedAt := some now, startedAt := some none, completedAt := some none,
      cancelRequestedAt := some none, heartbeatAt := some none, workerId := some none,
      progress := some 0, progressMessage := some "requeued for retry" }

/-! ## Statements as programs -/

def utcnow : JobProgram Nat := Prog.lift JobOp.utcnow

def tick (d : Nat) : JobProgram Unit := Prog.lift (JobOp.tick d)

def get (jobId : Nat) : JobProgram (Option JobRow) := Prog.lift (JobOp.getJob jobId)

def transition (u : TransitionStmt) : JobProgram Bool := Prog.lift (JobOp.update u)

def setCeleryTaskId (jobId : Nat) (celeryTaskId : String) : JobProgram Bool :=
  Prog.lift (JobOp.setCeleryTaskId jobId celeryTaskId)

def statusAndStartedAt (jobId : Nat) : JobProgram (JobStatus × Option Nat) := do
  match ← get jobId with
  | none => return (pending, none)
  | some row => return (row.status, row.startedAt)

/-! ## The operations -/

/-- `create` of a job that is new. -/
def createJob (maxRetries : Nat) (dispatchSpec : Option Json) (celeryTaskId : Option String) :
    JobProgram Nat := do
  let now ← utcnow
  Prog.lift (JobOp.insertJob maxRetries dispatchSpec celeryTaskId now)

def markQueued (jobId : Nat) (celeryTaskId : Option String) : JobProgram Bool := do
  let now ← utcnow
  transition (queuedStmt jobId celeryTaskId now)

def markRunning (jobId : Nat) (workerId : String) : JobProgram Bool := do
  let now ← utcnow
  transition (runningStmt jobId workerId now)

def confirmCancelled (jobId : Nat) (message : Option String) (claimant : Claimant) :
    JobProgram Bool := do
  let now ← utcnow
  transition (cancelledStmt jobId message claimant now)

/-- `mark_succeeded`: a success that comes while the job is being cancelled counts as a
    confirmation of the cancellation. -/
def markSucceeded (jobId : Nat) (result : Option Json) (resultRef message : Option String)
    (claimant : Claimant) : JobProgram JobStatus := do
  let now ← utcnow
  let ok ← transition (succeededStmt jobId result resultRef message claimant now)
  if ok then return completed
  else
    let current ← statusAndStartedAt jobId
    if current.1 = cancelling then
      let _ ← confirmCancelled jobId (some "late success discarded after cancel") claimant
      let final ← statusAndStartedAt jobId
      return final.1
    else return current.1

def markFailed (jobId : Nat) (error message : Option String) (claimant : Claimant) :
    JobProgram Bool := do
  let now ← utcnow
  transition (failedStmt jobId error message claimant now)

/-- `request_cancel`: a job that was never started is cancelled at once. -/
def requestCancel (jobId : Nat) : JobProgram (Bool × JobStatus) := do
  let now ← utcnow
  let changed ← transition (cancellingStmt jobId now)
  let current ← statusAndStartedAt jobId
  if changed && current.1 = cancelling && current.2 = none then
    let confirmed ← confirmCancelled jobId (some "cancelled before start") {}
    if confirmed then return (true, cancelled) else return (changed, current.1)
  else return (changed, current.1)

def updateProgress (jobId : Nat) (snapshot : JobProgress) (claimant : Claimant) :
    JobProgram Bool := do
  let now ← utcnow
  Prog.lift (JobOp.updateProgress jobId snapshot claimant now)

def heartbeat (jobId : Nat) (claimant : Claimant) : JobProgram Bool := do
  let now ← utcnow
  Prog.lift (JobOp.heartbeat jobId claimant now)

def attachCeleryTask (jobId : Nat) (celeryTaskId : String) : JobProgram Bool :=
  if celeryTaskId = "" then return false
  else setCeleryTaskId jobId celeryTaskId

/-- One job of `sweep_stale`, as it was listed. -/
def sweepStaleJob (swept : Nat) (job : JobRow) : JobProgram Nat := do
  if job.status = cancelling then
    let ok ← confirmCancelled job.id (some "cancelled (worker heartbeat lost)") {}
    return if ok then swept + 1 else swept
  else
    let now ← utcnow
    let ok ← transition (staleStmt job.id now)
    return if ok then swept + 1 else swept

def sweepStale (staleAfter limit : Nat) : JobProgram Nat := do
  let now ← utcnow
  let jobs ← (Prog.lift (JobOp.selectStale (now - staleAfter) limit) : JobProgram (List JobRow))
  Prog.foldEach jobs 0 sweepStaleJob

def sweepOrphans (orphanAfter limit : Nat) : JobProgram Nat := do
  let now ← utcnow
  let jobs ← (Prog.lift (JobOp.selectOrphans (now - orphanAfter) limit) : JobProgram (List JobRow))
  Prog.foldEach jobs 0 fun swept job => do
    let now ← utcnow
    let ok ← transition (orphanedStmt job.id now)
    return if ok then swept + 1 else swept

/-- Why a job that was read is not retried, in the order of the checks. -/
def retryRefusal (job : JobRow) : Option String :=
  if job.status = cancelled then some "cancelled_jobs_are_never_retried"
  else if job.status ∉ retryableStatuses then some ("not_retryable_from_" ++ job.status.text)
  else if job.maxRetries ≤ job.retryCount then some "max_retries_exhausted"
  else
    match job.dispatchSpec with
    | some (.obj fields) =>
      if fields = [] then some "no_dispatch_spec"
      else if (Json.field "__truncated__" fields).any Json.truthy then
        some "dispatch_spec_unusable"
      else if (Json.field "task" fields).all (fun v => !v.truthy) then some "no_dispatch_spec"
      else none
    | _ => some "no_dispatch_spec"

def startRetry (jobId : Nat) : JobProgram (Bool × String) := do
  match ← get jobId with
  | none => return (false, "not_found")
  | some job =>
    match retryRefusal job with
    | some reason => return (false, reason)
    | none =>
      let now ← utcnow
      let ok ← transition (retryStmt jobId job now)
      return (ok, if ok then "requeued" else "state_changed_concurrently")

end WebGis.Jobs
