/-
  Calls of `admit_and_reserve` on their way through the gate of their session and the queue of a
  channel, beside completions, cancelled and closed sessions, and gates that are made and dropped.

  A call that is suspended goes on at any later step. Which waiter a semaphore, the condition of
  the heavy slots or a channel serves next is left open; a channel is here only what it says to
  the call. The decision of the admission policy is an input.
-/
import WebGis.Governor.SessionBudget

namespace WebGis.Governor

open Data

inductive GovernorMode where
  | enforce
  | observe
  deriving DecidableEq

/-- What the gates read of `GovernorConfig`, where both bounds have the floor 1. -/
structure GovernorConfig where
  mode : GovernorMode
  sessionConcurrency : Nat
  sessionHeavy : Nat
  concurrency_pos : 1 ≤ sessionConcurrency
  heavy_pos : 1 ≤ sessionHeavy

def maxGates : Nat := 512

inductive ChannelName where
  | heavy
  | raster
  | browser
  | export
  | external
  | llm
  deriving DecidableEq

def channelFor : ResourceClass → Option ChannelName
  | .raster => some .raster
  | .browser => some .browser
  | .export => some .export
  | .llm => some .llm
  | .heavy => some .heavy
  | _ => none

/-- The channels in the order in which a session is cancelled there. -/
def channels : List ChannelName := [.heavy, .raster, .browser, .export, .external, .llm]

/-- `_SessionGate`: what is left of the semaphore, and the heavy slots that are taken. -/
structure SessionGate where
  sem : Nat
  heavyInFlight : Nat := 0
  holders : Nat := 0

namespace SessionGate

def takeSem (s : SessionGate) : SessionGate := { s with sem := s.sem - 1 }

def giveSem (s : SessionGate) : SessionGate := { s with sem := s.sem + 1 }

/-- One more call is through. -/
def hold (s : SessionGate) : SessionGate := { s with holders := s.holders + 1 }

def unhold (s : SessionGate) : SessionGate := { s with holders := s.holders - 1 }

def takeHeavy (s : SessionGate) : SessionGate := { s with heavyInFlight := s.heavyInFlight + 1 }

def giveHeavy (s : SessionGate) : SessionGate := { s with heavyInFlight := s.heavyInFlight - 1 }

end SessionGate

/-- Where a call is. A gate is the object that the call has in hand; a ticket carries here the gate
    on which its slot was taken, if there is one. -/
inductive CallPhase where
  /-- Past the check and the decision. -/
  | decided
  /-- Waits for the semaphore of the gate. -/
  | entering (gate : Nat)
  /-- Has it, and waits for a heavy slot. -/
  | heavyWait (gate : Nat)
  | inside (gate : Nat)
  | queued (gate : Nat)
  | granted (gate : Nat)
  /-- Taken from the queue by `cancel_session`. -/
  | dismissed (gate : Nat)
  /-- In `gate.release` after a failure: the heavy slot and the semaphore are still to be given
      back. -/
  | leaving (gate : Nat) (timedOut : Bool)
  | ticketed (slot : Option Nat)
  /-- `admit_and_reserve` has returned a reservation. -/
  | holding (slot : Option Nat)
  /-- In `bp.release`, before the gate is looked up. -/
  | giving (slot : Option Nat)
  | returning (slot : Option Nat) (gate : Nat)
  | done
  deriving DecidableEq

structure AdmitCall where
  sessionId : String
  resourceClass : ResourceClass
  phase : CallPhase

def scopeKey (sessionId : String) : String :=
  if sessionId = "" then "session:anonymous" else sessionId

namespace AdmitCall

def key (c : AdmitCall) : String := scopeKey c.sessionId

def heavy (c : AdmitCall) : Bool := c.resourceClass = .heavy

def moved (c : AdmitCall) (phase : CallPhase) : AdmitCall := { c with phase := phase }

/-- The gate whose semaphore the call holds. -/
def semOn (c : AdmitCall) : Option Nat :=
  match c.phase with
  | .heavyWait g => some g
  | .inside g => some g
  | .queued g => some g
  | .granted g => some g
  | .dismissed g => some g
  | .leaving g _ => some g
  | .ticketed slot => slot
  | .holding slot => slot
  | .giving slot => slot
  | .returning slot _ => slot
  | _ => none

/-- The gate on which the call has a heavy slot. -/
def heavyOn (c : AdmitCall) : Option Nat :=
  match c.phase with
  | .heavyWait _ => none
  | _ => if c.heavy then c.semOn else none

/-- The gate that the call has looked up and not given back to. -/
def uses (c : AdmitCall) : Option Nat :=
  match c.phase with
  | .entering g => some g
  | _ => c.semOn

end AdmitCall

/-- `cancel_session` and `close_session` on their way. -/
inductive SessionEnd where
  /-- The channels that are still to be swept. -/
  | cancelling (sessionId : String) (left : List ChannelName)
  | closing (sessionId : String)
  | dropping (sessionId : String)

structure AdmissionWorld where
  gates : Nat → SessionGate := fun _ => { sem := 0 }
  next : Nat := 0
  /-- `_session_gates` -/
  table : Dict String Nat := Dict.empty
  calls : Dict Nat AdmitCall := Dict.empty
  ends : Dict Nat SessionEnd := Dict.empty
  /-- The sessions with a record of their cancellation. -/
  cancelled : List String := []
  /-- For each release, the gate of the slot and the gate that it went to. -/
  releases : List (Option Nat × Nat) := []

/-- What a call does next. -/
inductive CallStep where
  /-- `_gate_for` -/
  | look
  | takeSem
  | takeHeavy
  /-- The call comes to its channel, which has a slot or has none. -/
  | ask (free : Bool)
  | grant
  | resume
  /-- A wait has taken too long. -/
  | timeout
  /-- An exception, or the cancellation of the task. -/
  | fail
  /-- The rest of `gate.release`. -/
  | leave
  /-- The reservation is registered and returned. -/
  | register
  | complete
  /-- `bp.release` looks its gate up. -/
  | lookUp
  | giveBack

/-- What the end of a session does next. -/
inductive EndStep where
  | sweep
  | record
  | forget
  | drop

inductive AdmissionAction where
  /-- `admit_and_reserve` up to the decision, with the policy's word. -/
  | admitAndReserve (call : Nat) (sessionId : String) (resourceClass : ResourceClass) (allowed : Bool)
  | call (call : Nat) (step : CallStep)
  | cancelSession (run : Nat) (sessionId : String)
  | closeSession (run : Nat) (sessionId : String)
  | goOn (run : Nat) (step : EndStep)

namespace AdmissionWorld

def modifyGate (w : AdmissionWorld) (g : Nat) (f : SessionGate → SessionGate) : AdmissionWorld :=
  { w with gates := Function.update w.gates g (f (w.gates g)) }

def put (w : AdmissionWorld) (k : Nat) (c : AdmitCall) : AdmissionWorld :=
  { w with calls := w.calls.set k c }

def logged (w : AdmissionWorld) (slot : Option Nat) (g : Nat) : AdmissionWorld :=
  { w with releases := w.releases ++ [(slot, g)] }

/-- The gates that are dropped to make room. -/
def victims (w : AdmissionWorld) (key : String) : List String :=
  if w.table.items.length < maxGates then []
  else
    let idle := w.table.items.filter fun kv => (w.gates kv.2).holders = 0 ∧ kv.1 ≠ key
    (idle.take (w.table.items.length - maxGates + 1)).map (·.1)

/-- `_gate_for`, and the gate. -/
def gateFor (cfg : GovernorConfig) (w : AdmissionWorld) (key : String) : AdmissionWorld × Nat :=
  match w.table.find key with
  | some g => (w, g)
  | none =>
    let left : Dict String Nat := Table.delete w.table fun kv => kv.1 ∈ w.victims key
    ({ w with
      gates := Function.update w.gates w.next { sem := max 1 cfg.sessionConcurrency }
      next := w.next + 1
      table := left.set key w.next }, w.next)

/-- What becomes of a call without a slot: a timeout is let through where decisions are only
    observed. -/
def outcome (cfg : GovernorConfig) (timedOut : Bool) : CallPhase :=
  if cfg.mode = .observe ∧ timedOut then .ticketed none else .done

/-- `gate.release`, up to the lock of the heavy slots. -/
def leaveGate (cfg : GovernorConfig) (w : AdmissionWorld) (k : Nat) (c : AdmitCall) (g : Nat)
    (timedOut : Bool) : AdmissionWorld :=
  if c.heavy then (w.modifyGate g .unhold).put k (c.moved (.leaving g timedOut))
  else (w.modifyGate g fun s => s.unhold.giveSem).put k (c.moved (outcome cfg timedOut))

/-- A wait ends without what was waited for. -/
def giveUp (cfg : GovernorConfig) (w : AdmissionWorld) (k : Nat) (c : AdmitCall)
    (timedOut : Bool) : Option AdmissionWorld :=
  match c.phase with
  | .entering _ => some (w.put k (c.moved (outcome cfg timedOut)))
  | .heavyWait g => some ((w.modifyGate g .giveSem).put k (c.moved (outcome cfg timedOut)))
  | .queued g => some (leaveGate cfg w k c g timedOut)
  | .granted g => some (leaveGate cfg w k c g timedOut)
  | .dismissed g => some (leaveGate cfg w k c g timedOut)
  | _ => none

/-- `bp.release` from the look-up on. -/
def lookUp (w : AdmissionWorld) (k : Nat) (c : AdmitCall) (slot : Option Nat) : AdmissionWorld :=
  match w.table.find c.key with
  -- No gate, and nothing is given back.
  | none => w.put k (c.moved .done)
  | some g =>
    -- A ticket without a slot is not a heavy one.
    if c.heavy ∧ slot.isSome then
      ((w.logged slot g).modifyGate g .unhold).put k (c.moved (.returning slot g))
    else ((w.logged slot g).modifyGate g fun s => s.unhold.giveSem).put k (c.moved .done)

def act (cfg : GovernorConfig) (w : AdmissionWorld) (k : Nat) (c : AdmitCall) :
    CallStep → Option AdmissionWorld
  | .look =>
    match c.phase with
    | .decided =>
      some ((gateFor cfg w c.key).1.put k (c.moved (.entering (gateFor cfg w c.key).2)))
    | _ => none
  | .takeSem =>
    match c.phase with
    | .entering g =>
      if 0 < (w.gates g).sem then
        if c.heavy then some ((w.modifyGate g .takeSem).put k (c.moved (.heavyWait g)))
        else some ((w.modifyGate g fun s => s.takeSem.hold).put k (c.moved (.inside g)))
      else none
    | _ => none
  | .takeHeavy =>
    match c.phase with
    | .heavyWait g =>
      if (w.gates g).heavyInFlight < max 1 cfg.sessionHeavy then
        some ((w.modifyGate g fun s => s.takeHeavy.hold).put k (c.moved (.inside g)))
      else none
    | _ => none
  | .ask free =>
    match c.phase with
    | .inside g =>
      if channelFor c.resourceClass = none ∨ free then
        some (w.put k (c.moved (.ticketed (some g))))
      else some (w.put k (c.moved (.queued g)))
    | _ => none
  | .grant =>
    match c.phase with
    | .queued g => some (w.put k (c.moved (.granted g)))
    | _ => none
  | .resume =>
    match c.phase with
    | .granted g => some (w.put k (c.moved (.ticketed (some g))))
    -- The channel says that the session was cancelled, which is raised as a timeout.
    | .dismissed g => some (leaveGate cfg w k c g true)
    | _ => none
  | .timeout => giveUp cfg w k c true
  | .fail =>
    match c.phase with
    | .decided => some (w.put k (c.moved .done))
    | .inside g => some (leaveGate cfg w k c g false)
    | .ticketed slot => some (w.put k (c.moved (.giving slot)))
    | _ => giveUp cfg w k c false
  | .leave =>
    match c.phase with
    | .leaving g timedOut =>
      some ((w.modifyGate g fun s => s.giveHeavy.giveSem).put k (c.moved (outcome cfg timedOut)))
    | _ => none
  | .register =>
    match c.phase with
    | .ticketed slot => some (w.put k (c.moved (.holding slot)))
    | _ => none
  | .complete =>
    match c.phase with
    | .holding slot => some (w.put k (c.moved (.giving slot)))
    | _ => none
  | .lookUp =>
    match c.phase with
    | .giving slot => some (w.lookUp k c slot)
    | _ => none
  | .giveBack =>
    match c.phase with
    | .returning _ g =>
      some ((w.modifyGate g fun s => s.giveHeavy.giveSem).put k (c.moved .done))
    | _ => none

/-- One live reservation of the session is released. -/
def releaseOne (sessionId : String) (c : AdmitCall) : AdmitCall :=
  match c.phase with
  | .holding slot => if c.sessionId = sessionId then c.moved (.giving slot) else c
  | _ => c

/-- One waiter of the session leaves the queue of a channel. -/
def dismissOne (sessionId : String) (channel : ChannelName) (c : AdmitCall) : AdmitCall :=
  match c.phase with
  | .queued g =>
    if c.key = sessionId ∧ channelFor c.resourceClass = some channel then c.moved (.dismissed g)
    else c
  | _ => c

/-- The end of a session goes on. -/
def finish (w : AdmissionWorld) (run : Nat) : SessionEnd → EndStep → Option AdmissionWorld
  | .cancelling sessionId (channel :: left), .sweep =>
    some { w with
      calls := Dict.mapValues (dismissOne sessionId channel) w.calls
      ends := w.ends.set run (.cancelling sessionId left) }
  | .cancelling sessionId [], .record =>
    some { w with
      cancelled := if sessionId ∈ w.cancelled then w.cancelled else sessionId :: w.cancelled
      ends := Table.delete w.ends fun kv => kv.1 = run }
  | .closing sessionId, .forget =>
    some { w with
      cancelled := w.cancelled.filter (· ≠ sessionId)
      ends := w.ends.set run (.dropping sessionId) }
  | .dropping sessionId, .drop =>
    some { w with
      table := Table.delete w.table fun kv => kv.1 = sessionId
      ends := Table.delete w.ends fun kv => kv.1 = run }
  | _, _ => none

/-- `_release_all`, and what comes after it. -/
def endSession (w : AdmissionWorld) (run : Nat) (sessionId : String) (e : SessionEnd) :
    Option AdmissionWorld :=
  match w.ends.find run with
  | some _ => none
  | none =>
    some { w with
      calls := Dict.mapValues (releaseOne sessionId) w.calls
      ends := w.ends.set run e }

def step (cfg : GovernorConfig) (w : AdmissionWorld) : AdmissionAction → Option AdmissionWorld
  | .admitAndReserve k sessionId resourceClass allowed =>
    match w.calls.find k with
    | some _ => none
    | none =>
      if sessionId ≠ "" ∧ sessionId ∈ w.cancelled then
        some (w.put k ⟨sessionId, resourceClass, .done⟩)
      else if allowed ∨ cfg.mode = .observe then
        some (w.put k ⟨sessionId, resourceClass, .decided⟩)
      else some (w.put k ⟨sessionId, resourceClass, .done⟩)
  | .call k s =>
    match w.calls.find k with
    | none => none
    | some c => act cfg w k c s
  | .cancelSession run sessionId => w.endSession run sessionId (.cancelling sessionId channels)
  | .closeSession run sessionId => w.endSession run sessionId (.closing sessionId)
  | .goOn run s =>
    match w.ends.find run with
    | none => none
    | some e => w.finish run e s

end AdmissionWorld

end WebGis.Governor
