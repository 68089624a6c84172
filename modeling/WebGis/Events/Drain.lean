/-
  Workers on the ledger: each claims rows under a name of its own and goes through the watches and
  actions of one row after the other, one call of the ledger at a time.

  A fire is looked up by watch, event and action. Event ids are unique within an org and a watch
  has one org, so the id of the row stands for that of the event. What the evaluation of a watch
  and the mission bridge come to is an input here, and so is an error of any call.
-/
import WebGis.Events.Ledger

namespace WebGis.Events

open Data

inductive TriggerAction where
  | missionCreate
  | missionRevise
  | missionResume
  | notifyOnly
  deriving DecidableEq

inductive FireOutcome where
  | pending
  | executing
  | notified
  | suppressed
  | duplicate
  | rejected
  | deferred
  | missionCreated
  | missionRevised
  | missionResumed
  deriving DecidableEq

/-- The part of a watch that says which events it is about, and what it does on them. -/
structure SpatialWatch where
  orgId : String
  enabled : Bool := true
  kinds : List EventKind
  subjectKeyPrefix : Option String := none
  sessionId : Option String := none
  projectId : Option String := none
  actions : List TriggerAction

/-- What `MissionBridge.execute` comes to. -/
inductive MissionResult where
  | rejected
  | duplicate
  | created
  | revised
  | resumed
  | deferred
  deriving DecidableEq

structure WatchFire where
  outcome : FireOutcome
  claimedAt : Nat := 0

/-- Watch, row of the event, action. -/
abbrev FireKey : Type := String × Nat × TriggerAction

structure DrainConfig where
  watches : Dict String SpatialWatch
  missionBridge : Bool
  maxAttempts : Nat

/-- Where `_process_event` is. -/
inductive Task where
  /-- Before the next watch, or the end. -/
  | next
  /-- No fire was found for the watch. -/
  | evaluate (watchId : String) (watch : SpatialWatch)
  /-- In `_run_actions`, before the first of the actions. -/
  | act (watchId : String) (todo : List TriggerAction)
  /-- No fire was found for the action. -/
  | record (watchId : String) (action : TriggerAction) (todo : List TriggerAction)
  | claim (watchId : String) (action : TriggerAction) (todo : List TriggerAction)
  /-- The fire is claimed: the gate and the mission come. -/
  | execute (watchId : String) (action : TriggerAction) (todo : List TriggerAction)
  | update (watchId : String) (action : TriggerAction) (todo : List TriggerAction)
      (outcome : FireOutcome)
  /-- Nothing is looked at any longer. -/
  | stop

/-- One row in the hands of a worker. -/
structure Attempt where
  row : Nat
  rest : List (String × SpatialWatch)
  task : Task := .next
  /-- `outcome["deferred"]` -/
  deferred : Bool := false
  /-- `_process_event` has raised. -/
  error : Bool := false

/-- A run of `drain_once` or of a forced replay. -/
structure Drain where
  rows : List Nat
  /-- The rows that were not come to yet. -/
  left : List Nat
  replay : Bool := false
  attempt : Option Attempt := none

structure DrainWorld where
  now : Nat := 0
  nextId : Nat := 1
  events : EventTable := Dict.empty
  fires : Dict FireKey WatchFire := Dict.empty
  drains : Dict String Drain := Dict.empty

inductive EvalOutcome where
  | fired
  | notFired
  /-- The compare-and-swap was lost every time. -/
  | conflict
  deriving DecidableEq

/-- A step of a worker on its row. -/
inductive WorkStep where
  | lookWatch
  | evaluated (outcome : EvalOutcome)
  /-- The first call for an action. -/
  | look
  | record
  | claim
  /-- The gate and the mission bridge. `none`: the governor lets nobody in. -/
  | execute (result : Option MissionResult)
  | update
  /-- The call that is next raises. -/
  | fail

inductive DrainAction where
  | append (row : EventRow)
  /-- `claim_batch`, with what its SELECT has found. -/
  | claimBatch (owner : String) (cand : List Nat)
  /-- `claim_replay` of a forced replay. -/
  | claimReplay (owner : String) (rowId : Nat) (orgId : String)
  | renewClaims (owner : String)
  | begin (owner : String) (rowId : Nat)
  /-- `mark_skipped` for a row that does not read. -/
  | skip (owner : String) (rowId : Nat)
  | work (owner : String) (s : WorkStep)
  | settle (owner : String)
  /-- The worker is gone, or has come to its end. -/
  | crash (owner : String)
  | requeueStaleProcessing (olderThan : Nat)
  | requeueStaleExecutingFires (olderThan : Nat)
  /-- The writing transaction of `coalesce_pending`, with what the reading one has found. -/
  | coalescePending (passed : List Nat) (rows : List (Nat × EventRow))
  | requeueEvent (rowId : Nat)
  | tick (seconds : Nat)

namespace SpatialWatch

/-- `watch_matches_event` -/
def matchesEvent (watch : SpatialWatch) (row : EventRow) : Bool :=
  watch.orgId = row.orgId && row.kind ∈ watch.kinds &&
    watch.subjectKeyPrefix.all (fun p => row.subjectKey.startsWith p) &&
    watch.sessionId.all (fun s => s = "" || row.sessionId = some s) &&
    watch.projectId.all fun p => p = "" || row.projectId = some p

end SpatialWatch

namespace DrainConfig

/-- The enabled watches of the row's org that match it, by id. -/
def watchesFor (cfg : DrainConfig) (row : EventRow) : List (String × SpatialWatch) :=
  (cfg.watches.items.filter fun kv =>
    kv.2.orgId = row.orgId && kv.2.enabled && kv.2.matchesEvent row).insertionSort fun a b =>
      a.1 ≤ b.1

end DrainConfig

namespace FireOutcome

/-- The outcomes after which nothing is left to do. -/
def final : FireOutcome → Bool
  | notified => true
  | suppressed => true
  | rejected => true
  | missionCreated => true
  | missionRevised => true
  | missionResumed => true
  | _ => false

/-- The outcomes that `_run_single_action` takes for done. -/
def done : FireOutcome → Bool
  | missionCreated => true
  | missionRevised => true
  | missionResumed => true
  | rejected => true
  | suppressed => true
  | _ => false

/-- `claim_fire` takes the fire. -/
def claimable : FireOutcome → Bool
  | pending => true
  | deferred => true
  | _ => false

end FireOutcome

/-- The outcome that is written to the fire. -/
def MissionResult.outcome : MissionResult → FireOutcome
  | rejected => .rejected
  | duplicate => .duplicate
  | created => .missionCreated
  | revised => .missionRevised
  | resumed => .missionResumed
  | deferred => .deferred

namespace DrainWorld

/-! ## Fires -/

/-- `get_fire` without an action. -/
def anyFire (w : DrainWorld) (watchId : String) (rowId : Nat) : Bool :=
  w.fires.items.any fun kv => kv.1.1 = watchId && kv.1.2.1 = rowId

def recordFire (w : DrainWorld) (key : FireKey) (outcome : FireOutcome) : DrainWorld :=
  match w.fires.find key with
  | some _ => w
  | none => { w with fires := w.fires.set key { outcome := outcome } }

def updateFireOutcome (w : DrainWorld) (key : FireKey) (outcome : FireOutcome) : DrainWorld :=
  match w.fires.find key with
  | none => w
  | some f => { w with fires := w.fires.set key { f with outcome := outcome } }

/-- `claim_fire` for a fire that it takes. -/
def claimFire (w : DrainWorld) (key : FireKey) : DrainWorld :=
  { w with fires := w.fires.set key { outcome := .executing, claimedAt := w.now } }

/-- `requeue_stale_executing_fires` -/
def requeueStaleFires (w : DrainWorld) (olderThan : Nat) : DrainWorld :=
  { w with
    fires := w.fires.updateWhere
      (fun _ f => f.outcome = .executing && f.claimedAt + olderThan ≤ w.now)
      fun f => { f with outcome := .pending } }

/-! ## Workers -/

def putDrain (w : DrainWorld) (owner : String) (d : Drain) : DrainWorld :=
  { w with drains := w.drains.set owner d }

/-- The attempt goes on with another task. -/
def goTo (w : DrainWorld) (owner : String) (d : Drain) (a : Attempt) : DrainWorld :=
  w.putDrain owner { d with attempt := some a }

/-- The rest of `_run_actions`. -/
def afterAction (watchId : String) : List TriggerAction → Task
  | [] => .next
  | action :: todo => .act watchId (action :: todo)

/-- An action that is not left to the mission bridge is recorded at once; the others are looked
    up. -/
def look (cfg : DrainConfig) (w : DrainWorld) (a : Attempt) (watchId : String)
    (action : TriggerAction) (todo : List TriggerAction) : DrainWorld × Task :=
  let key := (watchId, a.row, action)
  if action = .notifyOnly then (w.recordFire key .notified, afterAction watchId todo)
  else if !cfg.missionBridge then (w.recordFire key .suppressed, afterAction watchId todo)
  else
    match w.fires.find key with
    | none => (w, .record watchId action todo)
    | some f => (w, if f.outcome.done then afterAction watchId todo else .claim watchId action todo)

def evaluated (a : Attempt) (watchId : String) (actions : List TriggerAction) :
    EvalOutcome → Attempt
  | .fired => { a with task := afterAction watchId actions }
  | .notFired => { a with task := .next }
  | .conflict => { a with deferred := true, task := .stop }

/-- The call of `_run_actions` that raises defers the event and leaves the others to run; any other
    one ends the processing. -/
def failed (a : Attempt) : Attempt :=
  match a.task with
  | .act watchId (_ :: todo) => { a with deferred := true, task := afterAction watchId todo }
  | .record watchId _ todo => { a with deferred := true, task := afterAction watchId todo }
  | .claim watchId _ todo => { a with deferred := true, task := afterAction watchId todo }
  | .execute watchId _ todo => { a with deferred := true, task := afterAction watchId todo }
  | .update watchId _ todo _ => { a with deferred := true, task := afterAction watchId todo }
  | _ => { a with deferred := true, error := true, task := .stop }

/-- A step of `_process_event`. -/
def work (cfg : DrainConfig) (w : DrainWorld) (owner : String) (d : Drain) (a : Attempt) :
    WorkStep → Option DrainWorld
  | .lookWatch =>
    match a.task, a.rest with
    | .next, (watchId, watch) :: rest =>
      some (w.goTo owner d { a with
        rest := rest
        task := if w.anyFire watchId a.row then afterAction watchId watch.actions
          else .evaluate watchId watch })
    | _, _ => none
  | .evaluated outcome =>
    match a.task with
    | .evaluate watchId watch =>
      some (w.goTo owner d (evaluated a watchId watch.actions outcome))
    | _ => none
  | .look =>
    match a.task with
    | .act watchId (action :: todo) =>
      let (looked, task) := look cfg w a watchId action todo
      some (looked.goTo owner d { a with task := task })
    | _ => none
  | .record =>
    match a.task with
    | .record watchId action todo =>
      some ((w.recordFire (watchId, a.row, action) .pending).goTo owner d { a with
        task := if (w.fires.find (watchId, a.row, action)).isSome then afterAction watchId todo
          else .claim watchId action todo })
    | _ => none
  | .claim =>
    match a.task with
    | .claim watchId action todo =>
      if (w.fires.find (watchId, a.row, action)).any fun f => f.outcome.claimable then
        some ((w.claimFire (watchId, a.row, action)).goTo owner d { a with
          task := .execute watchId action todo })
      else some (w.goTo owner d { a with task := afterAction watchId todo })
    | _ => none
  | .execute result =>
    match a.task with
    | .execute watchId action todo =>
      some (w.goTo owner d { a with
        task := .update watchId action todo ((result.map MissionResult.outcome).getD .deferred) })
    | _ => none
  | .update =>
    match a.task with
    | .update watchId action todo outcome =>
      some ((w.updateFireOutcome (watchId, a.row, action) outcome).goTo owner d { a with
        deferred := a.deferred || outcome = .deferred
        task := afterAction watchId todo })
    | _ => none
  | .fail => some (w.goTo owner d (failed a))

/-- Nothing of the row is left to look at. -/
def finished (a : Attempt) : Bool :=
  match a.task, a.rest with
  | .next, [] => true
  | .stop, _ => true
  | _, _ => false

/-- `DEFERRED_BACKOFF_S`, and the default of `mark_failed`. -/
def backoff (replay : Bool) : Nat := if replay then 30 else 15

/-- `mark_failed` or `mark_processed` -/
def settle (cfg : DrainConfig) (w : DrainWorld) (owner : String) (d : Drain) (a : Attempt) :
    DrainWorld :=
  let left := w.putDrain owner { d with attempt := none }
  if a.deferred then
    match w.events.find a.row with
    | none => left
    | some row =>
      -- Only what a mission action or a lost compare-and-swap has put off is never given up.
      let retry := !d.replay && !a.error
      { left with
        events := w.events.markFailed a.row owner (!retry && cfg.maxAttempts ≤ row.attempts) retry
          row.attempts (w.now + backoff d.replay) }
  else { left with events := w.events.markProcessed a.row owner }

def append (w : DrainWorld) (row : EventRow) : DrainWorld :=
  if w.events.items.any fun kv => kv.2.orgId = row.orgId && kv.2.eventId = row.eventId then w
  else
    { w with
      nextId := w.nextId + 1
      events := w.events.set w.nextId
        { row with
          status := .pending, attempts := 0, collapsedCount := 0, claimedBy := none
          nextAttemptAt := none } }

/-- The rows that the worker has claimed. -/
def claimedRows (events : EventTable) (owner : String) : List Nat :=
  (events.items.filter fun kv => kv.2.claimedFor owner).map Prod.fst

def newDrain (events : EventTable) (owner : String) (replay : Bool) : Drain :=
  { rows := claimedRows events owner, left := claimedRows events owner, replay := replay }

def step (cfg : DrainConfig) (w : DrainWorld) : DrainAction → Option DrainWorld
  | .append row => some (w.append row)
  | .claimBatch owner cand =>
    if (w.drains.find owner).isSome then none
    else
      let events := w.events.claimBatch owner w.now cand
      some { w with
        events := events
        drains := w.drains.set owner (newDrain events owner false) }
  | .claimReplay owner rowId orgId =>
    if (w.drains.find owner).isSome then none
    else
      let events := w.events.claimReplay rowId orgId owner w.now
      some { w with
        events := events
        drains := w.drains.set owner (newDrain events owner true) }
  | .renewClaims owner =>
    (w.drains.find owner).map fun d =>
      { w with events := w.events.renewClaims d.rows owner w.now }
  | .begin owner rowId =>
    match w.drains.find owner, w.events.find rowId with
    | some d, some row =>
      if d.attempt.isNone ∧ rowId ∈ d.left then
        some (w.goTo owner { d with left := d.left.erase rowId }
          { row := rowId, rest := cfg.watchesFor row })
      else none
    | _, _ => none
  | .skip owner rowId =>
    match w.drains.find owner with
    | some d =>
      if d.attempt.isNone ∧ rowId ∈ d.left then
        some ({ w with events := w.events.markSkipped rowId owner }.putDrain owner
          { d with left := d.left.erase rowId })
      else none
    | none => none
  | .work owner s =>
    match w.drains.find owner with
    | some d =>
      match d.attempt with
      | some a => work cfg w owner d a s
      | none => none
    | none => none
  | .settle owner =>
    match w.drains.find owner with
    | some d =>
      match d.attempt with
      | some a => if finished a then some (settle cfg w owner d a) else none
      | none => none
    | none => none
  | .crash owner => some { w with drains := Table.delete w.drains fun kv => kv.1 = owner }
  | .requeueStaleProcessing olderThan =>
    some { w with events := w.events.requeueStaleProcessing olderThan w.now }
  | .requeueStaleExecutingFires olderThan => some (w.requeueStaleFires olderThan)
  | .coalescePending passed rows => some { w with events := w.events.coalesce passed rows }
  | .requeueEvent rowId => some { w with events := w.events.requeueEvent rowId }
  | .tick seconds => some { w with now := w.now + seconds }

end DrainWorld

end WebGis.Events
