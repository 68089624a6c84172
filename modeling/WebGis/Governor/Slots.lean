/-
  The slots of a channel over every order of its callers' steps.

  A caller that `cancel_session` has taken from the queue never had a slot; where its wait ends by
  a time limit or by the cancellation of its task, the handler misses it in the queue and gives a
  slot back (`dismissed_gives_back`). Where no such caller comes to its handler, the number of
  slots in flight is that of the slots granted and not yet given back (`slots_conserved`).
-/
import WebGis.Governor.Channel
import WebGis.Data.Play

namespace WebGis.Governor

open Data List Option Dict FairScheduler

/-- `acquire` has not come to its end. -/
def CallerPhase.pending : CallerPhase → Bool
  | waiting => true
  | timedOut => true
  | interrupted => true
  | _ => false

namespace ChannelWorld

variable {w : ChannelWorld}

/-- Who is in the queue, who was taken from it, and who has a slot. -/
structure Queued (w : ChannelWorld) : Prop where
  queued : ∀ seq, (w.gate.sched.membership.find seq).isSome → ∃ c, w.callers.find seq = some c ∧
    c.slot = false ∧ c.event = false ∧ c.phase.pending = true
  pending : ∀ seq c, w.callers.find seq = some c → c.phase.pending = true → c.slot = false →
    (w.gate.sched.membership.find seq).isSome ∨ seq ∈ w.gate.cancelledSeqs
  marked : ∀ seq ∈ w.gate.cancelledSeqs, w.gate.sched.membership.find seq = none ∧
    ∃ c, w.callers.find seq = some c ∧ c.slot = false
  holding : ∀ seq c, w.callers.find seq = some c → c.phase = .holding → c.slot = true
  ended : ∀ seq c, w.callers.find seq = some c → c.phase = .ended → c.slot = false
  fresh : ∀ seq c, w.callers.find seq = some c → seq < w.next

/-- In flight is what was granted and has not come back, and fits the capacity. -/
def Conserved (w : ChannelWorld) : Prop :=
  w.gate.sched.inFlight = w.granted ∧ w.gate.sched.inFlight ≤ w.gate.sched.capacity

structure Sound (w : ChannelWorld) : Prop where
  queue : Queued w
  conserved : Conserved w

theorem granted_set (w : ChannelWorld) (seq : Nat) (c : Caller) :
    (w.callers.set seq c).items.countP (fun kv => kv.2.slot) +
        ((w.callers.find seq).any Caller.slot).toNat =
      w.granted + c.slot.toNat :=
  Dict.countP_set w.callers seq c Caller.slot

variable {w' : ChannelWorld}

theorem Queued.congr (hq : Queued w)
    (hmembership : w'.gate.sched.membership = w.gate.sched.membership)
    (hmarks : ∀ seq, seq ∈ w'.gate.cancelledSeqs ↔ seq ∈ w.gate.cancelledSeqs)
    (hcallers : w'.callers = w.callers) (hnext : w'.next = w.next) : Queued w' where
  queued := by rw [hmembership, hcallers]; exact hq.queued
  pending := by
    intro seq c hfind hpending hslot
    rw [hmembership, hmarks]
    exact hq.pending seq c (hcallers ▸ hfind) hpending hslot
  marked := by
    intro seq hmark
    rw [hmembership, hcallers]
    exact hq.marked seq ((hmarks seq).mp hmark)
  holding := by rw [hcallers]; exact hq.holding
  ended := by rw [hcallers]; exact hq.ended
  fresh := by rw [hcallers, hnext]; exact hq.fresh

@[simp] theorem discardWaiter_sched (g : ChannelGate) (sessionId : String) (seq : Nat) :
    (g.discardWaiter sessionId seq).sched = g.sched := by
  unfold ChannelGate.discardWaiter
  split <;> rfl

@[simp] theorem discardWaiter_cancelledSeqs (g : ChannelGate) (sessionId : String) (seq : Nat) :
    (g.discardWaiter sessionId seq).cancelledSeqs = g.cancelledSeqs := by
  unfold ChannelGate.discardWaiter
  split <;> rfl

/-- What one caller must have for the queue to be right about it. -/
structure Fits (w : ChannelWorld) (seq : Nat) (c : Caller) : Prop where
  queued : (w.gate.sched.membership.find seq).isSome →
    c.slot = false ∧ c.event = false ∧ c.phase.pending = true
  pending : c.phase.pending = true → c.slot = false →
    (w.gate.sched.membership.find seq).isSome ∨ seq ∈ w.gate.cancelledSeqs
  marked : seq ∈ w.gate.cancelledSeqs →
    w.gate.sched.membership.find seq = none ∧ c.slot = false
  holding : c.phase = .holding → c.slot = true
  ended : c.phase = .ended → c.slot = false
  fresh : seq < w.next

variable {c : Caller} {seq : Nat}

theorem Queued.fits (hq : Queued w) (hfind : w.callers.find seq = some c) : Fits w seq c where
  queued := by
    intro hmember
    obtain ⟨c', hfind', h⟩ := hq.queued seq hmember
    rw [hfind, some_inj] at hfind'
    exact hfind' ▸ h
  pending := hq.pending seq c hfind
  marked := by
    intro hmark
    obtain ⟨hnone, c', hfind', hslot⟩ := hq.marked seq hmark
    rw [hfind, some_inj] at hfind'
    exact ⟨hnone, hfind' ▸ hslot⟩
  holding := hq.holding seq c hfind
  ended := hq.ended seq c hfind
  fresh := hq.fresh seq c hfind

theorem Queued.put (hq : Queued w) (seq : Nat) (hmembership : ∀ seq' ≠ seq,
      w'.gate.sched.membership.find seq' = w.gate.sched.membership.find seq')
    (hmarks : ∀ seq' ≠ seq, (seq' ∈ w'.gate.cancelledSeqs ↔ seq' ∈ w.gate.cancelledSeqs))
    (hcallers : w'.callers = w.callers.set seq c) (hnext : w.next ≤ w'.next)
    (hfits : Fits w' seq c) : Queued w' where
  queued := by
    intro seq' hmember
    rw [hcallers]
    by_cases hseq : seq' = seq
    · subst hseq
      exact ⟨c, find_set_self _ _ _, hfits.queued hmember⟩
    · rw [hmembership seq' hseq] at hmember
      rw [find_set_ne _ _ (Ne.symm hseq)]
      exact hq.queued seq' hmember
  pending := by
    intro seq' c' hfind hpending hslot
    rw [hcallers] at hfind
    by_cases hseq : seq' = seq
    · subst hseq
      rw [find_set_self, some_inj] at hfind
      subst hfind
      exact hfits.pending hpending hslot
    · rw [find_set_ne _ _ (Ne.symm hseq)] at hfind
      rw [hmembership seq' hseq, hmarks seq' hseq]
      exact hq.pending seq' c' hfind hpending hslot
  marked := by
    intro seq' hmark
    rw [hcallers]
    by_cases hseq : seq' = seq
    · subst hseq
      obtain ⟨hnone, hslot⟩ := hfits.marked hmark
      exact ⟨hnone, c, find_set_self _ _ _, hslot⟩
    · rw [hmembership seq' hseq, find_set_ne _ _ (Ne.symm hseq)]
      exact hq.marked seq' ((hmarks seq' hseq).mp hmark)
  holding := by
    intro seq' c' hfind hphase
    rw [hcallers] at hfind
    by_cases hseq : seq' = seq
    · subst hseq
      rw [find_set_self, some_inj] at hfind
      subst hfind
      exact hfits.holding hphase
    · rw [find_set_ne _ _ (Ne.symm hseq)] at hfind
      exact hq.holding seq' c' hfind hphase
  ended := by
    intro seq' c' hfind hphase
    rw [hcallers] at hfind
    by_cases hseq : seq' = seq
    · subst hseq
      rw [find_set_self, some_inj] at hfind
      subst hfind
      exact hfits.ended hphase
    · rw [find_set_ne _ _ (Ne.symm hseq)] at hfind
      exact hq.ended seq' c' hfind hphase
  fresh := by
    intro seq' c' hfind
    rw [hcallers] at hfind
    by_cases hseq : seq' = seq
    · subst hseq
      exact hfits.fresh
    · rw [find_set_ne _ _ (Ne.symm hseq)] at hfind
      exact lt_of_lt_of_le (hq.fresh seq' c' hfind) hnext

theorem Queued.not_marked (hq : Queued w) (hmember : (w.gate.sched.membership.find seq).isSome) :
    seq ∉ w.gate.cancelledSeqs := by
  intro hmark
  rw [(hq.marked seq hmark).1] at hmember
  cases hmember

theorem modify_eq (hfind : w.callers.find seq = some c) (f : Caller → Caller) (gate : ChannelGate) :
    { w with gate := gate }.modify seq f =
      { w with gate := gate, callers := w.callers.set seq (f c) } := by
  rw [modify, hfind]

theorem Queued.grant (hq : Queued w) {sched : FairScheduler}
    (hmember : (w.gate.sched.membership.find seq).isSome)
    (hleft : sched.membership = Table.delete w.gate.sched.membership fun kv => kv.1 = seq) :
    Queued ({ w with gate := { w.gate with sched := sched } }.modify seq fun c =>
        { c with event := true, slot := true }) ∧
      granted ({ w with gate := { w.gate with sched := sched } }.modify seq fun c =>
        { c with event := true, slot := true }) = w.granted + 1 := by
  obtain ⟨c, hfind, hslot, -, hpending⟩ := hq.queued seq hmember
  have hmarked := hq.not_marked hmember
  rw [modify_eq hfind]
  constructor
  · refine hq.put _ (fun seq' hseq => ?_) (fun _ _ => Iff.rfl) rfl le_rfl
      ⟨fun h => ?_, fun _ h => Bool.noConfusion h, fun h => absurd h hmarked, fun _ => rfl,
        fun h => ?_, hq.fresh seq c hfind⟩
    · dsimp only
      rw [hleft, Dict.find_delete_ne _ hseq]
    · dsimp only at h
      rw [hleft, Dict.find_delete_self] at h
      cases h
    · have hphase : c.phase = .ended := h
      rw [hphase] at hpending
      cases hpending
  · have hcount := granted_set w seq { c with event := true, slot := true }
    rw [hfind, any_some, hslot] at hcount
    exact hcount

theorem modify_gate (w : ChannelWorld) (seq : Nat) (f : Caller → Caller) :
    (w.modify seq f).gate = w.gate := by
  unfold modify
  split <;> rfl

theorem Queued.returnAndWake (hq : Queued w) (hone : w.gate.sched.inFlight = w.granted + 1)
    (hcap : w.gate.sched.inFlight ≤ w.gate.sched.capacity) (sessionId : String) (small : Bool)
    (cost : ℚ) : Sound (w.returnAndWake sessionId small cost) := by
  unfold ChannelWorld.returnAndWake
  obtain ⟨heap, hpop⟩ | ⟨waiter, sched, hpop, hmember, hfree, hinFlight, hcapacity, hleft⟩ :=
    (w.gate.sched.complete sessionId small cost).popNextGrantable_cases
  · rw [hpop]
    refine ⟨hq.congr (complete_membership _ _ _ _) (fun _ => Iff.rfl) rfl rfl, ?_, ?_⟩
    · change (w.gate.sched.complete sessionId small cost).inFlight = w.granted
      rw [complete_inFlight]
      omega
    · change (w.gate.sched.complete sessionId small cost).inFlight ≤
        (w.gate.sched.complete sessionId small cost).capacity
      rw [complete_inFlight, complete_capacity]
      omega
  · rw [hpop]
    rw [complete_membership] at hmember hleft
    rw [complete_inFlight] at hfree hinFlight
    rw [complete_capacity] at hfree hcapacity
    obtain ⟨hqueue, hgranted⟩ := hq.grant hmember hleft
    refine ⟨hqueue, ?_, ?_⟩
    · dsimp only
      rw [hgranted, modify_gate, hinFlight]
      omega
    · dsimp only
      rw [modify_gate]
      rw [hinFlight, hcapacity]
      omega

/-- A caller that is taken from the queue because its session is cancelled. -/
theorem Sound.dismiss (hs : Sound w) (seq : Nat) : Sound (w.dismiss seq) := by
  unfold ChannelWorld.dismiss FairScheduler.cancel
  dsimp only
  split
  · rename_i hmember
    obtain ⟨c, hfind, hslot, -, hpending⟩ := hs.queue.queued seq hmember
    rw [modify_eq hfind]
    refine ⟨hs.queue.put seq (fun seq' hseq => ?_) (fun seq' hseq => ?_) rfl le_rfl
      ⟨fun h => ?_, fun _ _ => .inr mem_cons_self, fun _ => ⟨?_, hslot⟩, fun h => ?_,
        fun _ => hslot, hs.queue.fresh seq c hfind⟩, ?_, hs.conserved.2⟩
    · exact Dict.find_delete_ne _ hseq
    · exact ⟨fun h => (mem_cons.mp h).resolve_left hseq, mem_cons_of_mem seq⟩
    · dsimp only at h
      rw [Dict.find_delete_self] at h
      cases h
    · exact Dict.find_delete_self _ _
    · have hphase : c.phase = .holding := h
      rw [hphase] at hpending
      cases hpending
    · have hcount := granted_set w seq { c with event := true }
      rw [hfind, any_some] at hcount
      exact hs.conserved.1.trans (Nat.add_right_cancel hcount).symm
  · exact hs

theorem Sound.dismissAll (hs : Sound w) (seqs : List Nat) : Sound (seqs.foldl ChannelWorld.dismiss w) := by
  induction seqs generalizing w with
  | nil => exact hs
  | cons seq rest ih => exact ih (hs.dismiss seq)

theorem Sound.rephase (hs : Sound w) (hfind : w.callers.find seq = some c)
    (hpending : c.phase.pending) {phase : CallerPhase} (hphase : phase.pending) :
    Sound { w with callers := w.callers.set seq { c with phase := phase } } := by
  have hfits := hs.queue.fits hfind
  refine ⟨hs.queue.put _ (fun _ _ => rfl) (fun _ _ => Iff.rfl) rfl le_rfl
    ⟨fun h => ⟨(hfits.queued h).1, (hfits.queued h).2.1, hphase⟩, fun _ => hfits.pending hpending,
      hfits.marked, fun h => ?_, fun h => ?_, hfits.fresh⟩, ?_, hs.conserved.2⟩
  · have h : phase = .holding := h
    rw [h] at hphase
    cases hphase
  · have h : phase = .ended := h
    rw [h] at hphase
    cases hphase
  · have hcount := granted_set w seq { c with phase := phase }
    rw [hfind, any_some] at hcount
    exact hs.conserved.1.trans (Nat.add_right_cancel hcount).symm

theorem Sound.discard (hs : Sound w) (sessionId : String) (seq : Nat) :
    Sound { w with gate := w.gate.discardWaiter sessionId seq } := by
  refine ⟨hs.queue.congr ?_ (fun seq' => ?_) rfl rfl, ?_⟩
  · dsimp only
    rw [discardWaiter_sched]
  · dsimp only
    rw [discardWaiter_cancelledSeqs]
  · rw [Conserved]
    rw [discardWaiter_sched]
    exact hs.conserved

theorem Sound.unmark (hs : Sound w) (hthrough : seq ∈ w.gate.cancelledSeqs →
      ∀ c, w.callers.find seq = some c → c.phase.pending = false) :
    Sound { w with gate := w.gate.unmark seq } := by
  have hmem : ∀ seq', seq' ∈ (w.gate.unmark seq).cancelledSeqs ↔
      seq' ∈ w.gate.cancelledSeqs ∧ seq' ≠ seq := by
    intro seq'
    rw [ChannelGate.unmark, mem_filter, decide_eq_true_eq]
  refine ⟨⟨hs.queue.queued, fun seq' c hfind hpending hslot => ?_, fun seq' hmark => ?_,
    hs.queue.holding, hs.queue.ended, hs.queue.fresh⟩, hs.conserved⟩
  · refine (hs.queue.pending seq' c hfind hpending hslot).imp_right fun hmark => ?_
    refine (hmem seq').mpr ⟨hmark, fun hseq => ?_⟩
    rw [hthrough (hseq ▸ hmark) c (hseq ▸ hfind)] at hpending
    cases hpending
  · exact hs.queue.marked seq' ((hmem seq').mp hmark).1

theorem returnAndWake_cancelledSeqs (w : ChannelWorld) (sessionId : String) (small : Bool)
    (cost : ℚ) : (w.returnAndWake sessionId small cost).gate.cancelledSeqs =
      w.gate.cancelledSeqs := by
  unfold ChannelWorld.returnAndWake
  split
  · rfl
  · rw [modify_gate]

/-- A caller that was not taken from the queue by `cancel_session` gives back what it has. -/
theorem Sound.giveUp (hs : Sound w) (hfind : w.callers.find seq = some c)
    (hpending : c.phase.pending) (hmark : seq ∉ w.gate.cancelledSeqs) :
    Sound (w.giveUp seq c) := by
  have hfits := hs.queue.fits hfind
  obtain ⟨hgranted, hcap⟩ := hs.conserved
  have hqueue : Queued
      { w with
        gate := { w.gate with sched := (w.gate.sched.cancel seq).2 }
        callers := w.callers.set seq { c with phase := .ended, slot := false } } := by
    refine hs.queue.put _ (fun seq' hseq => ?_) (fun _ _ => Iff.rfl) rfl le_rfl
      ⟨fun h => ?_, fun h => Bool.noConfusion h, fun h => absurd h hmark,
        fun h => CallerPhase.noConfusion h, fun _ => rfl, hfits.fresh⟩
    · exact Dict.find_delete_ne _ hseq
    · dsimp only [FairScheduler.cancel] at h
      rw [Dict.find_delete_self] at h
      cases h
  have hcount := granted_set w seq { c with phase := .ended, slot := false }
  rw [hfind, any_some] at hcount
  have hreturned : Sound
      (if (w.gate.sched.cancel seq).1 then
        { w with
          gate := { w.gate with sched := (w.gate.sched.cancel seq).2 }
          callers := w.callers.set seq { c with phase := .ended, slot := false } }
      else ChannelWorld.returnAndWake
        { w with
          gate := { w.gate with sched := (w.gate.sched.cancel seq).2 }
          callers := w.callers.set seq { c with phase := .ended, slot := false } }
        c.sessionId c.small 0) := by
    split
    · rename_i hmember
      have hslot : c.slot = false := (hfits.queued hmember).1
      rw [hslot] at hcount
      exact ⟨hqueue, hgranted.trans hcount.symm, hcap⟩
    · rename_i hmember
      have hslot : c.slot := by
        by_contra hslot
        rcases hfits.pending hpending (Bool.eq_false_iff.mpr hslot) with h | h
        · exact hmember h
        · exact hmark h
      rw [hslot] at hcount
      exact hqueue.returnAndWake (hgranted.trans hcount.symm) hcap _ _ _
  have hdiscarded := hreturned.discard c.sessionId seq
  unfold ChannelWorld.giveUp
  split
  · refine hdiscarded.unmark fun h => absurd h ?_
    rw [discardWaiter_cancelledSeqs]
    split
    · exact hmark
    · rw [returnAndWake_cancelledSeqs]
      exact hmark
  · exact hdiscarded

theorem Sound.acquire (hs : Sound w) {sessionId : String} {small : Bool} {priority : Int}
    {estCost weight now : ℚ}
    (hstep : w.step (.acquire sessionId small priority estCost weight now) = some w') :
    Sound w' := by
  have hnone : w.callers.find w.next = none := by
    refine eq_none_iff_forall_ne_some.mpr fun c hfind => ?_
    exact lt_irrefl _ (hs.queue.fresh w.next c hfind)
  have hunmarked : w.next ∉ w.gate.cancelledSeqs := by
    intro hmark
    obtain ⟨-, c, hfind, -⟩ := hs.queue.marked w.next hmark
    rw [hnone] at hfind
    cases hfind
  have hunqueued : w.gate.sched.membership.find w.next = none := by
    refine eq_none_iff_forall_ne_some.mpr fun waiter hmember => ?_
    obtain ⟨c, hfind, -⟩ := hs.queue.queued w.next (by rw [hmember]; rfl)
    rw [hnone] at hfind
    cases hfind
  obtain ⟨hgranted, hcap⟩ := hs.conserved
  unfold ChannelWorld.step at hstep
  dsimp only at hstep
  split at hstep
  · rename_i sched hgrant
    obtain ⟨hfree, rfl⟩ := tryGrantImmediate_eq_some hgrant
    rw [if_neg hunmarked, some_inj] at hstep
    subst hstep
    refine ⟨hs.queue.put w.next (fun seq' _ => ?_) (fun _ _ => Iff.rfl) rfl
      (Nat.le_succ _) ⟨fun h => ?_, fun h => Bool.noConfusion h, fun h => absurd h hunmarked,
        fun _ => rfl, fun h => CallerPhase.noConfusion h, Nat.lt_succ_self _⟩, ?_, ?_⟩
    · exact congrArg (fun m => Dict.find m seq') (admitWaiter_membership _ _)
    · dsimp only at h
      rw [admitWaiter_membership, hunqueued] at h
      cases h
    · have hcount := granted_set w w.next
        { sessionId := sessionId, small := small, phase := .holding, slot := true }
      rw [hnone] at hcount
      exact (admitWaiter_inFlight _ _).trans ((congrArg (· + 1) hgranted).trans hcount.symm)
    · dsimp only
      rw [admitWaiter_inFlight, admitWaiter_capacity]
      exact hfree
  · rw [some_inj] at hstep
    subst hstep
    refine ⟨hs.queue.put w.next (fun seq' hseq => ?_) (fun _ _ => Iff.rfl) rfl
      (Nat.le_succ _) ⟨fun _ => ⟨rfl, rfl, rfl⟩, fun _ _ => .inl ?_, fun h => absurd h hunmarked,
        fun h => CallerPhase.noConfusion h, fun _ => rfl, Nat.lt_succ_self _⟩, ?_, hcap⟩
    · exact find_set_ne _ _ (Ne.symm hseq)
    · dsimp only [FairScheduler.enqueue]
      rw [find_set_self]
      rfl
    · have hcount := granted_set w w.next
        { sessionId := sessionId, small := small, phase := .waiting }
      rw [hnone] at hcount
      exact hgranted.trans hcount.symm

theorem Sound.goOn (hs : Sound w) (hfind : w.callers.find seq = some c)
    (hphase : c.phase = .waiting) (hevent : c.event) : Sound (w.goOn seq c) := by
  have hfits := hs.queue.fits hfind
  obtain ⟨hgranted, hcap⟩ := hs.conserved
  have hpending : c.phase.pending := by rw [hphase]; rfl
  have hunqueued : ¬ (w.gate.sched.membership.find seq).isSome := by
    intro hmember
    rw [(hfits.queued hmember).2.1] at hevent
    cases hevent
  unfold ChannelWorld.goOn
  split
  · -- It was taken from the queue, and has no slot.
    rename_i hmark
    have hslot := (hfits.marked hmark).2
    have hended : Sound { w with callers := w.callers.set seq { c with phase := .ended } } := by
      refine ⟨hs.queue.put _ (fun _ _ => rfl) (fun _ _ => Iff.rfl) rfl le_rfl
        ⟨fun h => absurd h hunqueued, fun h => Bool.noConfusion h, hfits.marked,
          fun h => CallerPhase.noConfusion h, fun _ => hslot, hfits.fresh⟩, ?_, hcap⟩
      have hcount := granted_set w seq { c with phase := .ended }
      rw [hfind, any_some] at hcount
      exact hgranted.trans (Nat.add_right_cancel hcount).symm
    refine (hended.discard c.sessionId seq).unmark fun _ c' hfind' => ?_
    rw [find_set_self, some_inj] at hfind'
    rw [← hfind']
    rfl
  · rename_i hmark
    have hslot : c.slot := by
      by_contra hslot
      exact (hfits.pending hpending (Bool.eq_false_iff.mpr hslot)).elim hunqueued hmark
    have hheld : Sound { w with callers := w.callers.set seq { c with phase := .holding } } := by
      refine ⟨hs.queue.put _ (fun _ _ => rfl) (fun _ _ => Iff.rfl) rfl le_rfl
        ⟨fun h => absurd h hunqueued, fun h => Bool.noConfusion h, fun h => absurd h hmark,
          fun _ => hslot, fun h => CallerPhase.noConfusion h, hfits.fresh⟩, ?_, hcap⟩
      have hcount := granted_set w seq { c with phase := .holding }
      rw [hfind, any_some] at hcount
      exact hgranted.trans (Nat.add_right_cancel hcount).symm
    exact hheld.discard c.sessionId seq

theorem Sound.release (hs : Sound w) (hfind : w.callers.find seq = some c)
    (hphase : c.phase = .holding) (cost : ℚ) :
    Sound (ChannelWorld.returnAndWake
      { w with callers := w.callers.set seq { c with phase := .ended, slot := false } }
      c.sessionId c.small cost) := by
  have hfits := hs.queue.fits hfind
  have hslot := hfits.holding hphase
  have hnot {P : Prop} (h : c.slot = false) : P := by
    rw [hslot] at h
    cases h
  have hcount := granted_set w seq { c with phase := .ended, slot := false }
  rw [hfind, any_some, hslot] at hcount
  have hqueue : Queued
      { w with callers := w.callers.set seq { c with phase := .ended, slot := false } } :=
    hs.queue.put _ (fun _ _ => rfl) (fun _ _ => Iff.rfl) rfl le_rfl
      ⟨fun h => hnot (hfits.queued h).1, fun h => Bool.noConfusion h,
        fun h => hnot (hfits.marked h).2, fun h => CallerPhase.noConfusion h, fun _ => rfl,
        hfits.fresh⟩
  exact hqueue.returnAndWake (hs.conserved.1.trans hcount.symm) hs.conserved.2 _ _ _

/-- A handler runs for a caller that `cancel_session` has not taken from the queue. -/
def queuedStill (w : ChannelWorld) : ChannelAction → Bool
  | .giveUp seq => seq ∉ w.gate.cancelledSeqs
  | _ => true

theorem of_found {P : Caller → Prop} [DecidablePred P] {f : Caller → ChannelWorld}
    (h : (match w.callers.find seq with
      | none => none
      | some c => if P c then some (f c) else none) = some w') :
    ∃ c, w.callers.find seq = some c ∧ P c ∧ f c = w' := by
  split at h
  · cases h
  · exact ⟨_, ‹_›, by simpa using h⟩

theorem Sound.step (hs : Sound w) {a : ChannelAction} (hallowed : w.queuedStill a)
    (hstep : w.step a = some w') : Sound w' := by
  cases a with
  | acquire sessionId small priority estCost weight now => exact hs.acquire hstep
  | timeout seq =>
    obtain ⟨c, hfind, hphase, rfl⟩ := of_found hstep
    exact hs.rephase hfind (by rw [hphase]; rfl) rfl
  | interrupt seq =>
    obtain ⟨c, hfind, hphase, rfl⟩ := of_found hstep
    exact hs.rephase hfind (by rw [hphase]; rfl) rfl
  | giveUp seq =>
    obtain ⟨c, hfind, hphase, rfl⟩ := of_found hstep
    have hpending : c.phase.pending := by
      rcases hphase with h | h <;> rw [h] <;> rfl
    exact hs.giveUp hfind hpending (of_decide_eq_true hallowed)
  | resume seq =>
    obtain ⟨c, hfind, ⟨hphase, hevent⟩, rfl⟩ := of_found hstep
    exact hs.goOn hfind hphase hevent
  | cancelSession sessionId =>
    rw [ChannelWorld.step, some_inj] at hstep
    subst hstep
    have hpopped : Sound
        { w with gate := { w.gate with
          waitersBySession := Table.delete w.gate.waitersBySession fun kv => kv.1 = sessionId } } :=
      ⟨hs.queue.congr rfl (fun _ => Iff.rfl) rfl rfl, hs.conserved⟩
    exact hpopped.dismissAll _
  | release seq actualCost =>
    obtain ⟨c, hfind, hphase, rfl⟩ := of_found hstep
    exact hs.release hfind hphase actualCost

theorem sound_init (capacity : Nat) (agingThreshold : ℚ) :
    Sound (init capacity agingThreshold) := by
  have hempty : ∀ seq c, (init capacity agingThreshold).callers.find seq ≠ some c := by
    intro seq c h
    cases h
  exact ⟨⟨fun _ h => Bool.noConfusion h, fun seq c h => absurd h (hempty seq c),
    fun _ h => absurd h not_mem_nil, fun seq c h => absurd h (hempty seq c),
    fun seq c h => absurd h (hempty seq c), fun seq c h => absurd h (hempty seq c)⟩,
    rfl, Nat.zero_le _⟩

/-- In every run in which no handler runs for a caller that `cancel_session` has taken from the
    queue, slots are conserved. -/
theorem slots_conserved (capacity : Nat) (agingThreshold : ℚ)
    (hrun : Relation.ReflTransGen (Step step queuedStill) (init capacity agingThreshold) w) :
    Conserved w :=
  (run_induction (fun hs hallowed hstep => Sound.step hs hallowed hstep)
    (sound_init capacity agingThreshold) hrun).conserved

/-- One caller has the slot, another waits and is interrupted. -/
def interruptedWait : List ChannelAction :=
  [.acquire "a" false 1 1 1 0, .acquire "b" false 1 1 1 0, .interrupt 2]

/-- The caller was taken from the queue before it came to its handler, which gives back the slot
    of the one that is still at work. -/
theorem dismissed_gives_back : ¬ ∀ capacity agingThreshold w,
    Relation.ReflTransGen (Step step fun _ _ => true) (init capacity agingThreshold) w →
      Conserved w := by
  intro hall
  obtain ⟨w, hw⟩ : ∃ w, play step (fun _ _ => true) (init 1 10)
      (interruptedWait ++ [.cancelSession "b", .giveUp 2]) = some w := ⟨_, rfl⟩
  have hconserved := (hall 1 10 w (run_of_play hw)).1
  cases hw
  exact absurd hconserved (by decide)

theorem interrupted_conserved : ∃ w,
    play step queuedStill (init 1 10) (interruptedWait ++ [.giveUp 2]) = some w ∧
      Conserved w := by
  obtain ⟨w, hw⟩ : ∃ w, play step queuedStill (init 1 10)
      (interruptedWait ++ [.giveUp 2]) = some w := ⟨_, rfl⟩
  exact ⟨w, hw, slots_conserved 1 10 (run_of_play hw)⟩

end ChannelWorld

end WebGis.Governor
