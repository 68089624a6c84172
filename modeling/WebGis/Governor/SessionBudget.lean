/-
  The ledger of live and cumulative amounts along turn, goal, session and process, and the three
  functions that compute what is added and what is taken away.

  Amounts are rational numbers. A dict over the dimensions is a function on them.
-/
import WebGis.Data.Entries

namespace WebGis.Governor

open Data

inductive Certainty where
  | known
  | estimated
  | unknown
  | unavailable
  deriving DecidableEq

inductive Dimension where
  | memoryBytes
  | gpuMemoryBytes
  | networkBytes
  | storageBytes
  | featureCount
  | pixelCount
  | contextTokens
  | outputTokens
  | estimatedLlmCost
  | wallTimeS
  | externalServiceCalls
  | renderWorkUnits
  deriving DecidableEq

/-- `CONSERVATIVE_FLOORS` -/
def conservativeFloor : Dimension → ℚ
  | .memoryBytes => 268435456
  | .gpuMemoryBytes => 1073741824
  | .networkBytes => 16777216
  | .storageBytes => 33554432
  | .featureCount => 50000
  | .pixelCount => 50000000
  | .contextTokens => 8000
  | .outputTokens => 4096
  | .estimatedLlmCost => 0
  | .wallTimeS => 300
  | .externalServiceCalls => 3
  | .renderWorkUnits => 1000000

inductive Accounting where
  | live
  | cumulative
  deriving DecidableEq

def accounting : Dimension → Accounting
  | .memoryBytes => .live
  | .gpuMemoryBytes => .live
  | .pixelCount => .live
  | _ => .cumulative

structure DimValue where
  certainty : Certainty := .unavailable
  min : Option ℚ := none
  expected : Option ℚ := none
  max : Option ℚ := none

/-- What counts for admission. -/
def DimValue.adjudged (v : DimValue) (d : Dimension) : ℚ :=
  match v.certainty with
  | .unavailable => 0
  | .unknown => conservativeFloor d
  | _ => ((v.expected.orElse fun _ => v.max).orElse fun _ => v.min).getD (conservativeFloor d)

inductive ResourceClass where
  | light
  | medium
  | heavy
  | raster
  | browser
  | export
  | llm
  deriving DecidableEq

/-- The subsystems that the ledger counts. -/
inductive Subsystem where
  | browser
  | export
  | other (name : String)
  deriving DecidableEq

structure ResourceEstimate where
  resourceClass : ResourceClass := .light
  dims : Dimension → Option DimValue := fun _ => none

structure ResourceDemand where
  sessionId : String := ""
  goalId : String := ""
  turnId : String := ""
  subsystem : Subsystem := .other "tool_dispatch"
  estimate : ResourceEstimate := {}

structure ResourceReservation where
  sessionId : String
  goalId : String
  turnId : String
  subsystem : Subsystem
  resourceClass : ResourceClass
  /-- The dimensions with a positive amount. -/
  charged : Dimension → Option ℚ

def adjudgedDims (est : ResourceEstimate) (d : Dimension) : Option ℚ :=
  match est.dims d with
  | none => none
  | some v => if v.certainty = .unavailable then none else some (v.adjudged d)

/-- What is charged: no more than the limit, and nothing that is not positive. -/
def chargedDims (est : ResourceEstimate) (limits : Dimension → Option ℚ) (d : Dimension) :
    Option ℚ :=
  match adjudgedDims est d with
  | none => none
  | some value =>
    let value := (limits d).elim value (min value ·)
    if 0 < value then some value else none

def buildReservation (demand : ResourceDemand) (limits : Dimension → Option ℚ) :
    ResourceReservation where
  sessionId := demand.sessionId
  goalId := demand.goalId
  turnId := demand.turnId
  subsystem := demand.subsystem
  resourceClass := demand.estimate.resourceClass
  charged := chargedDims demand.estimate limits

def liveDimsOf (charged : Dimension → Option ℚ) (d : Dimension) : Option ℚ :=
  if accounting d = .live then charged d else none

/-! ## The ledger -/

inductive BudgetScope where
  | turn
  | goal
  | session
  | global
  deriving DecidableEq

def scopeChain : List BudgetScope := [.turn, .goal, .session, .global]

def scopeIdFor (r : ResourceReservation) : BudgetScope → String
  | .turn => if r.turnId = "" then "__session__" ++ r.sessionId else r.turnId
  | .goal => if r.goalId = "" then "__session__" ++ r.sessionId else r.goalId
  | .session => if r.sessionId = "" then "anonymous" else r.sessionId
  | .global => "global"

structure ScopeLedger where
  live : Dimension → ℚ := fun _ => 0
  cumulative : Dimension → ℚ := fun _ => 0
  heavyLive : Nat := 0
  browserLive : Nat := 0
  exportLive : Nat := 0
  /-- The ids of the open reservations. -/
  reservations : List String := []
  lastActivity : Nat := 0

namespace ScopeLedger

def reserve (s : ScopeLedger) (id : String) (r : ResourceReservation)
    (adjudged : Dimension → Option ℚ) (now : Nat) : ScopeLedger where
  live := fun d => if accounting d = .live then s.live d + (adjudged d).getD 0 else s.live d
  cumulative := s.cumulative
  heavyLive := if r.resourceClass = .heavy then s.heavyLive + 1 else s.heavyLive
  browserLive := if r.subsystem = .browser then s.browserLive + 1 else s.browserLive
  exportLive := if r.subsystem = .export then s.exportLive + 1 else s.exportLive
  reservations := if id ∈ s.reservations then s.reservations else s.reservations ++ [id]
  lastActivity := now

def release (s : ScopeLedger) (id : String) (r : ResourceReservation)
    (actual : Dimension → Option ℚ) (now : Nat) : ScopeLedger where
  live := fun d =>
    match actual d with
    | none => s.live d
    | some add => if accounting d = .live then max 0 (s.live d - add) else s.live d
  cumulative := fun d =>
    match actual d with
    | none => s.cumulative d
    | some add => if accounting d = .live then s.cumulative d else s.cumulative d + add
  heavyLive := if r.resourceClass = .heavy then s.heavyLive - 1 else s.heavyLive
  browserLive := if r.subsystem = .browser then s.browserLive - 1 else s.browserLive
  exportLive := if r.subsystem = .export then s.exportLive - 1 else s.exportLive
  reservations := s.reservations.filter (· ≠ id)
  lastActivity := now

end ScopeLedger

abbrev ScopeKey : Type := BudgetScope × String

abbrev SessionBudgetLedger : Type := Dict ScopeKey ScopeLedger

def maxSessionLedgers : Nat := 512

def evictTo : Nat := 256

namespace SessionBudgetLedger

/-- The sessions that have been idle the longest. -/
def victims (l : SessionBudgetLedger) : List ScopeKey :=
  let sessions := l.items.filter fun kv => kv.1.1 = .session
  let evictable := sessions.filter fun kv => kv.2.reservations = []
  let sorted := evictable.mergeSort fun a b => a.2.lastActivity ≤ b.2.lastActivity
  (sorted.take (sessions.length - evictTo)).map (·.1)

/-- `_evict_idle_sessions_locked` -/
def evictIdle (l : SessionBudgetLedger) : SessionBudgetLedger :=
  if (l.items.filter fun kv => kv.1.1 = .session).length ≤ maxSessionLedgers then l
  else Table.delete l fun kv => kv.1 ∈ l.victims

def reserveScope (id : String) (r : ResourceReservation) (adjudged : Dimension → Option ℚ)
    (now : Nat) (l : SessionBudgetLedger) (scope : BudgetScope) : SessionBudgetLedger :=
  let key := (scope, scopeIdFor r scope)
  l.set key (((l.find key).getD {}).reserve id r adjudged now)

def reserve (l : SessionBudgetLedger) (id : String) (r : ResourceReservation)
    (adjudged : Dimension → Option ℚ) (now : Nat) : SessionBudgetLedger :=
  (scopeChain.foldl (reserveScope id r adjudged now) l).evictIdle

def releaseScope (id : String) (r : ResourceReservation) (actual : Dimension → Option ℚ)
    (now : Nat) (l : SessionBudgetLedger) (scope : BudgetScope) : SessionBudgetLedger :=
  let key := (scope, scopeIdFor r scope)
  match l.find key with
  | none => l
  | some s => l.set key (s.release id r actual now)

def release (l : SessionBudgetLedger) (id : String) (r : ResourceReservation)
    (actual : Dimension → Option ℚ) (now : Nat) : SessionBudgetLedger :=
  scopeChain.foldl (releaseScope id r actual now) l

/-- `led.live.get(dim, 0.0)`, where there is a ledger. -/
def liveAt (l : SessionBudgetLedger) (key : ScopeKey) (d : Dimension) : ℚ :=
  (l.find key).elim 0 fun s => s.live d

end SessionBudgetLedger

/-! ## Reservations -/

/-- A reservation that is neither completed nor released. -/
structure OpenReservation where
  reservation : ResourceReservation
  /-- What was added to the ledger. -/
  reserved : Dimension → Option ℚ
  /-- It is in `_live_reservations`. -/
  live : Bool := false

structure LedgerWorld where
  ledger : SessionBudgetLedger := Dict.empty
  opened : Dict String OpenReservation := Dict.empty
  now : Nat := 0

inductive LedgerAction where
  /-- `admit_and_reserve` up to the ledger, with the limits of its decision. -/
  | reserve (id : String) (demand : ResourceDemand) (limits : Dimension → Option ℚ)
  | register (id : String)
  /-- It fails or is cancelled before the reservation is registered. -/
  | cleanup (id : String)
  /-- `complete`, with what was observed. -/
  | complete (id : String) (actual : Dimension → Option ℚ)
  /-- `_release_all`, of `cancel_session` or `close_session`. -/
  | releaseAll (sessionId : String)

namespace LedgerWorld

/-- The ledger gets something back, and the reservation is no longer open. -/
def settle (w : LedgerWorld) (id : String) (o : OpenReservation) (actual : Dimension → Option ℚ) :
    LedgerWorld where
  ledger := w.ledger.release id o.reservation actual w.now
  opened := Table.delete w.opened fun kv => kv.1 = id
  now := w.now + 1

/-- `ledger.release` of `_release_all`, which says nothing of amounts. -/
def drop (w : LedgerWorld) (kv : String × OpenReservation) : LedgerWorld :=
  w.settle kv.1 kv.2 fun _ => none

/-- What an observation makes of the amounts charged. -/
def merged (charged actual : Dimension → Option ℚ) (d : Dimension) : Option ℚ :=
  match charged d with
  | none => none
  | some add => some ((actual d).getD add)

/-- The live reservations of a session. -/
def ofSession (w : LedgerWorld) (sessionId : String) : List (String × OpenReservation) :=
  w.opened.items.filter fun kv => kv.2.live ∧ kv.2.reservation.sessionId = sessionId

def step (w : LedgerWorld) : LedgerAction → Option LedgerWorld
  | .reserve id demand limits =>
    match w.opened.find id with
    | some _ => none
    | none =>
      let reservation := buildReservation demand limits
      let adjudged := adjudgedDims demand.estimate
      some
        { ledger := w.ledger.reserve id reservation adjudged w.now
          opened := w.opened.set id { reservation := reservation, reserved := adjudged }
          now := w.now + 1 }
  | .register id =>
    match w.opened.find id with
    | none => none
    | some o => if o.live then none else
        some { w with opened := w.opened.set id { o with live := true } }
  | .cleanup id =>
    match w.opened.find id with
    | none => none
    | some o => if o.live then none else
        some (w.settle id o (liveDimsOf o.reservation.charged))
  | .complete id actual =>
    match w.opened.find id with
    -- Released before: nothing is given back.
    | none => some w
    | some o => if o.live then some (w.settle id o (merged o.reservation.charged actual)) else none
  | .releaseAll sessionId =>
    some ((w.ofSession sessionId).foldl drop w)

end LedgerWorld

end WebGis.Governor
