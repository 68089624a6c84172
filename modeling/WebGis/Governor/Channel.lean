/-
  The fair queue of a channel: who may start at once, and who is next when a slot comes back.

  Times, weights and costs are rational numbers. The heap is the list of its entries in their
  order, by key and number; an entry that is put aside while the queue is searched for a small task
  goes back in front of those after it.

  The gate of one channel and its callers, one section of its lock after the other.

  A caller whose wait is over because of a time limit or because its task was cancelled comes to
  the lock later; until then anyone else may have been there. `Caller.slot` says that the slot
  the caller was granted has not been given back: the gate does not know of it, and finds out
  by whether the caller is still in the queue.
-/
import WebGis.Data.Entries

namespace WebGis.Governor

open Data

def agingBoost : ℚ := 1

def priorityPenalty : ℚ := 2

def consumptionDecay : ℚ := 1 / 2

def consumptionCap : ℚ := 1000000000000

def maxConsumptionEntries : Nat := 4096

structure FairWaiter where
  sessionId : String
  weight : ℚ := 1
  priority : Int := 1
  small : Bool := false
  estCost : ℚ := 1
  enqueuedAt : ℚ := 0
  seq : Nat
  consumptionSnapshot : ℚ := 0

/-- The smaller key comes first. -/
def FairWaiter.effectiveKey (w : FairWaiter) (now agingThreshold : ℚ) : ℚ :=
  let wait := max 0 (now - w.enqueuedAt)
  let aging := if 0 < agingThreshold then wait / agingThreshold * agingBoost else 0
  let base := w.consumptionSnapshot / max (1 / 1000000) w.weight
  base - aging + w.priority * priorityPenalty

abbrev HeapEntry : Type := ℚ × FairWaiter

/-- By key, then by number. -/
def HeapEntry.before (a b : HeapEntry) : Bool :=
  a.1 < b.1 ∨ a.1 = b.1 ∧ a.2.seq ≤ b.2.seq

structure FairScheduler where
  capacity : Nat
  agingThreshold : ℚ := 10
  inFlight : Nat := 0
  inFlightSmall : Nat := 0
  heap : List HeapEntry := []
  /-- `_membership`: those that still wait. -/
  membership : Dict Nat FairWaiter := Dict.empty
  consumption : Dict String ℚ := Dict.empty

namespace FairScheduler

/-- One slot is kept for small tasks where there is more than one. -/
def heavyCapacity (s : FairScheduler) : Nat := if 1 < s.capacity then s.capacity - 1 else s.capacity

/-- The smaller consumption, then the smaller name. -/
def poorer (a b : String × ℚ) : String × ℚ :=
  if b.2 < a.2 ∨ b.2 = a.2 ∧ b.1 < a.1 then b else a

def recordConsumption (s : FairScheduler) (sessionId : String) (value : ℚ) : FairScheduler :=
  let consumption := s.consumption.set sessionId value
  if consumption.items.length ≤ maxConsumptionEntries then { s with consumption := consumption }
  else
    match consumption.items.filter (·.1 ≠ sessionId) with
    | [] => { s with consumption := consumption }
    | first :: rest =>
      let victim := (rest.foldl poorer first).1
      { s with consumption := Table.delete consumption fun kv => kv.1 = victim }

def consumptionOf (s : FairScheduler) (sessionId : String) : ℚ :=
  (s.consumption.find sessionId).getD 0

/-- `_admit` -/
def admitWaiter (s : FairScheduler) (w : FairWaiter) : FairScheduler :=
  { s with
    inFlight := s.inFlight + 1
    inFlightSmall := if w.small then s.inFlightSmall + 1 else s.inFlightSmall }.recordConsumption
      w.sessionId (min (s.consumptionOf w.sessionId + w.estCost) consumptionCap)

def tryGrantImmediate (s : FairScheduler) (w : FairWaiter) : Option FairScheduler :=
  if s.capacity ≤ s.inFlight then none
  else if ¬ w.small ∧ s.heavyCapacity ≤ s.inFlight then none
  else some (s.admitWaiter w)

def enqueue (s : FairScheduler) (w : FairWaiter) (now : ℚ) : FairScheduler :=
  let w := { w with consumptionSnapshot := s.consumptionOf w.sessionId }
  let entry : HeapEntry := (w.effectiveKey now s.agingThreshold, w)
  { s with
    heap := s.heap.orderedInsert (fun a b => HeapEntry.before a b) entry
    membership := s.membership.set w.seq w }

/-- The entry that a slot goes to, and the heap without it and without those that have left. -/
def scan (s : FairScheduler) : List HeapEntry → Option FairWaiter × List HeapEntry
  | [] => (none, [])
  | (key, w) :: rest =>
    if (s.membership.find w.seq).isNone then s.scan rest
    else if s.capacity ≤ s.inFlight then (none, (key, w) :: rest)
    else if w.small ∨ s.inFlight < s.heavyCapacity then (some w, rest)
    else
      -- Only the slot for small tasks is free: put aside, and on to those behind.
      ((s.scan rest).1, (key, w) :: (s.scan rest).2)

def popNextGrantable (s : FairScheduler) : Option FairWaiter × FairScheduler :=
  match s.scan s.heap with
  | (none, heap) => (none, { s with heap := heap })
  | (some w, heap) =>
    (some w, { s with
      heap := heap
      membership := Table.delete s.membership fun kv => kv.1 = w.seq }.admitWaiter w)

/-- `cancel`, and whether the waiter was there. -/
def cancel (s : FairScheduler) (seq : Nat) : Bool × FairScheduler :=
  ((s.membership.find seq).isSome,
    { s with membership := Table.delete s.membership fun kv => kv.1 = seq })

def complete (s : FairScheduler) (sessionId : String) (small : Bool) (actualCost : ℚ) :
    FairScheduler :=
  { s with
    inFlight := s.inFlight - 1
    inFlightSmall := if small then s.inFlightSmall - 1 else s.inFlightSmall }.recordConsumption
      sessionId (min ((s.consumptionOf sessionId + max 0 actualCost) * consumptionDecay)
        consumptionCap)

/-! ## What the operations leave alone -/

theorem recordConsumption_keeps {α : Type} (part : FairScheduler → α)
    (h : ∀ (s : FairScheduler) c, part { s with consumption := c } = part s) (s : FairScheduler)
    (sessionId : String) (value : ℚ) : part (s.recordConsumption sessionId value) = part s := by
  unfold recordConsumption
  dsimp only
  split
  · exact h s _
  · split
    · exact h s _
    · exact h s _

@[simp] theorem admitWaiter_inFlight (s : FairScheduler) (w : FairWaiter) :
    (s.admitWaiter w).inFlight = s.inFlight + 1 :=
  recordConsumption_keeps FairScheduler.inFlight (fun _ _ => rfl) _ _ _

@[simp] theorem admitWaiter_capacity (s : FairScheduler) (w : FairWaiter) :
    (s.admitWaiter w).capacity = s.capacity :=
  recordConsumption_keeps FairScheduler.capacity (fun _ _ => rfl) _ _ _

@[simp] theorem admitWaiter_membership (s : FairScheduler) (w : FairWaiter) :
    (s.admitWaiter w).membership = s.membership :=
  recordConsumption_keeps FairScheduler.membership (fun _ _ => rfl) _ _ _

@[simp] theorem complete_inFlight (s : FairScheduler) (sessionId : String) (small : Bool)
    (cost : ℚ) : (s.complete sessionId small cost).inFlight = s.inFlight - 1 :=
  recordConsumption_keeps FairScheduler.inFlight (fun _ _ => rfl) _ _ _

@[simp] theorem complete_capacity (s : FairScheduler) (sessionId : String) (small : Bool)
    (cost : ℚ) : (s.complete sessionId small cost).capacity = s.capacity :=
  recordConsumption_keeps FairScheduler.capacity (fun _ _ => rfl) _ _ _

@[simp] theorem complete_membership (s : FairScheduler) (sessionId : String) (small : Bool)
    (cost : ℚ) : (s.complete sessionId small cost).membership = s.membership :=
  recordConsumption_keeps FairScheduler.membership (fun _ _ => rfl) _ _ _

/-- A slot is given at once only where one is free. -/
theorem tryGrantImmediate_eq_some {s s' : FairScheduler} {w : FairWaiter}
    (h : s.tryGrantImmediate w = some s') : s.inFlight < s.capacity ∧ s' = s.admitWaiter w := by
  unfold tryGrantImmediate at h
  split at h
  · cases h
  rename_i hfree
  split at h
  · cases h
  · exact ⟨Nat.lt_of_not_le hfree, (Option.some_inj.mp h).symm⟩

theorem scan_eq_some {s : FairScheduler} {w : FairWaiter} {entries : List HeapEntry}
    (h : (s.scan entries).1 = some w) :
    (s.membership.find w.seq).isSome ∧ s.inFlight < s.capacity := by
  induction entries with
  | nil => cases h
  | cons entry rest ih =>
    obtain ⟨key, w'⟩ := entry
    rw [scan] at h
    split at h
    · exact ih h
    rename_i hmember
    split at h
    · cases h
    rename_i hfree
    split at h
    · cases h
      exact ⟨Option.isSome_iff_ne_none.mpr fun hnone => hmember (by rw [hnone]; rfl),
        Nat.lt_of_not_le hfree⟩
    · exact ih h

/-- The next one leaves the queue with a slot, or nothing changes but the heap. -/
theorem popNextGrantable_cases (s : FairScheduler) :
    (∃ heap, s.popNextGrantable = (none, { s with heap := heap })) ∨
    ∃ w s', s.popNextGrantable = (some w, s') ∧ (s.membership.find w.seq).isSome ∧
      s.inFlight < s.capacity ∧ s'.inFlight = s.inFlight + 1 ∧ s'.capacity = s.capacity ∧
      s'.membership = Table.delete s.membership fun kv => kv.1 = w.seq := by
  unfold popNextGrantable
  split
  · rename_i heap _
    exact .inl ⟨heap, rfl⟩
  · rename_i w heap hscan
    obtain ⟨hmember, hfree⟩ := scan_eq_some (congrArg Prod.fst hscan)
    exact .inr ⟨w, _, rfl, hmember, hfree, admitWaiter_inFlight _ _, admitWaiter_capacity _ _,
      admitWaiter_membership _ _⟩

end FairScheduler

inductive CallerPhase where
  /-- In `wait_for`. -/
  | waiting
  /-- Out of it, with its exception, and before the lock. -/
  | timedOut
  | interrupted
  /-- `acquire` has returned `True`. -/
  | holding
  /-- `acquire` has returned `False` or raised, or the slot was released. -/
  | ended
  deriving DecidableEq

structure Caller where
  sessionId : String
  small : Bool
  phase : CallerPhase
  /-- `granted_event` is set. -/
  event : Bool := false
  /-- It was granted a slot that has not come back. -/
  slot : Bool := false

structure ChannelGate where
  sched : FairScheduler
  waitersBySession : Dict String (List Nat) := Dict.empty
  cancelledSeqs : List Nat := []

structure ChannelWorld where
  gate : ChannelGate
  /-- The callers under the numbers of their waiters. -/
  callers : Dict Nat Caller := Dict.empty
  /-- `_SEQ` -/
  next : Nat := 1

inductive ChannelAction where
  /-- `acquire` up to its wait. -/
  | acquire (sessionId : String) (small : Bool) (priority : Int) (estCost weight now : ℚ)
  | timeout (seq : Nat)
  /-- The task of the caller is cancelled. -/
  | interrupt (seq : Nat)
  /-- The locked section of a handler. -/
  | giveUp (seq : Nat)
  /-- The event was set, and the caller goes on. -/
  | resume (seq : Nat)
  | cancelSession (sessionId : String)
  | release (seq : Nat) (actualCost : ℚ)

namespace ChannelGate

/-- `_discard_waiter_locked` -/
def discardWaiter (g : ChannelGate) (sessionId : String) (seq : Nat) : ChannelGate :=
  match g.waitersBySession.find sessionId with
  | none => g
  | some waiters =>
    let left := waiters.erase seq
    { g with
      waitersBySession :=
        if left = [] then Table.delete g.waitersBySession fun kv => kv.1 = sessionId
        else g.waitersBySession.set sessionId left }

/-- `_cancelled_seqs.discard` -/
def unmark (g : ChannelGate) (seq : Nat) : ChannelGate :=
  { g with cancelledSeqs := g.cancelledSeqs.filter (· ≠ seq) }

end ChannelGate

namespace ChannelWorld

def modify (w : ChannelWorld) (seq : Nat) (f : Caller → Caller) : ChannelWorld :=
  match w.callers.find seq with
  | none => w
  | some c => { w with callers := w.callers.set seq (f c) }

/-- `_return_slot_and_wake_locked` -/
def returnAndWake (w : ChannelWorld) (sessionId : String) (small : Bool) (actualCost : ℚ) :
    ChannelWorld :=
  match (w.gate.sched.complete sessionId small actualCost).popNextGrantable with
  | (none, sched) => { w with gate := { w.gate with sched := sched } }
  | (some waiter, sched) =>
    { w with gate := { w.gate with sched := sched } }.modify waiter.seq fun c =>
      { c with event := true, slot := true }

/-- One waiter of a session that is cancelled: out of the queue, marked and woken. -/
def dismiss (w : ChannelWorld) (seq : Nat) : ChannelWorld :=
  let cancelled := w.gate.sched.cancel seq
  if cancelled.1 then
    { w with
      gate := { w.gate with
        sched := cancelled.2
        cancelledSeqs := seq :: w.gate.cancelledSeqs } }.modify seq fun c => { c with event := true }
  else w

/-- The handler of a caller that does not wait any longer. -/
def giveUp (w : ChannelWorld) (seq : Nat) (c : Caller) : ChannelWorld :=
  let cancelled := w.gate.sched.cancel seq
  let ended : ChannelWorld :=
    { w with
      gate := { w.gate with sched := cancelled.2 }
      callers := w.callers.set seq { c with phase := .ended, slot := false } }
  -- Who is not in the queue was granted a slot.
  let returned := if cancelled.1 then ended else ended.returnAndWake c.sessionId c.small 0
  let gate := returned.gate.discardWaiter c.sessionId seq
  { returned with gate := if c.phase = .interrupted then gate.unmark seq else gate }

/-- The end of `acquire` after the wait. -/
def goOn (w : ChannelWorld) (seq : Nat) (c : Caller) : ChannelWorld :=
  let gate := w.gate.discardWaiter c.sessionId seq
  if seq ∈ w.gate.cancelledSeqs then
    { w with gate := gate.unmark seq, callers := w.callers.set seq { c with phase := .ended } }
  else { w with gate := gate, callers := w.callers.set seq { c with phase := .holding } }

def step (w : ChannelWorld) : ChannelAction → Option ChannelWorld
  | .acquire sessionId small priority estCost weight now =>
    let waiter : FairWaiter :=
      { sessionId := sessionId, weight := weight, priority := priority, small := small
        estCost := max (1 / 10) estCost, enqueuedAt := now, seq := w.next }
    match w.gate.sched.tryGrantImmediate waiter with
    | some sched =>
      if w.next ∈ w.gate.cancelledSeqs then
        some
          { gate := { w.gate with sched := sched.complete sessionId small 0 }.unmark w.next
            callers := w.callers.set w.next
              { sessionId := sessionId, small := small, phase := .ended }
            next := w.next + 1 }
      else
        some
          { gate := { w.gate with sched := sched }
            callers := w.callers.set w.next
              { sessionId := sessionId, small := small, phase := .holding, slot := true }
            next := w.next + 1 }
    | none =>
      some
        { gate :=
            { w.gate with
              sched := w.gate.sched.enqueue waiter now
              waitersBySession := w.gate.waitersBySession.set sessionId
                ((w.gate.waitersBySession.find sessionId).getD [] ++ [w.next]) }
          callers := w.callers.set w.next
            { sessionId := sessionId, small := small, phase := .waiting }
          next := w.next + 1 }
  | .timeout seq =>
    match w.callers.find seq with
    | none => none
    | some c =>
      if c.phase = .waiting then
        some { w with callers := w.callers.set seq { c with phase := .timedOut } }
      else none
  | .interrupt seq =>
    match w.callers.find seq with
    | none => none
    | some c =>
      if c.phase = .waiting then
        some { w with callers := w.callers.set seq { c with phase := .interrupted } }
      else none
  | .giveUp seq =>
    match w.callers.find seq with
    | none => none
    | some c =>
      if c.phase = .timedOut ∨ c.phase = .interrupted then some (w.giveUp seq c) else none
  | .resume seq =>
    match w.callers.find seq with
    | none => none
    | some c => if c.phase = .waiting ∧ c.event = true then some (w.goOn seq c) else none
  | .cancelSession sessionId =>
    let gate := { w.gate with
      waitersBySession := Table.delete w.gate.waitersBySession fun kv => kv.1 = sessionId }
    some (((w.gate.waitersBySession.find sessionId).getD []).foldl dismiss
      { w with gate := gate })
  | .release seq actualCost =>
    match w.callers.find seq with
    | none => none
    | some c =>
      if c.phase = .holding then
        let ended : ChannelWorld :=
          { w with callers := w.callers.set seq { c with phase := .ended, slot := false } }
        some (ended.returnAndWake c.sessionId c.small actualCost)
      else none

/-- A channel with so many slots, before its first caller. -/
def init (capacity : Nat) (agingThreshold : ℚ) : ChannelWorld where
  gate := { sched := { capacity := capacity, agingThreshold := agingThreshold } }

/-- The slots that were granted and have not come back. -/
def granted (w : ChannelWorld) : Nat := w.callers.items.countP fun kv => kv.2.slot

end ChannelWorld

end WebGis.Governor
