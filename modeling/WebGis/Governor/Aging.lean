/-
  `services/governor/fairness.py`: who is overtaken in the fair queue.

  A waiter's key is computed when it enters the queue, so the time it then waits does not count: a
  later one with a smaller key goes before it however long it has waited (`aging_ignored`). As long
  as nobody goes before a waiter that has aged below it, a slot goes to the smallest key of that
  moment, and after a release nobody waits for whom a slot is free (`aged_first`).
-/
import WebGis.Data.Play
import WebGis.Governor.Channel

namespace WebGis.Governor

open Data List Dict HeapEntry
open Option hiding max_eq_right

namespace FairScheduler

/-- A slot could be given to the waiter. -/
def fits (s : FairScheduler) (w : FairWaiter) : Bool := (s.tryGrantImmediate w).isSome

def isQueued (s : FairScheduler) (w : FairWaiter) : Prop := s.membership.find w.seq = some w

end FairScheduler

open FairScheduler

variable {s s' : FairScheduler} {w u : FairWaiter} {clock now : ℚ}

theorem fits_iff : s.fits w ↔ s.inFlight < s.capacity ∧ (w.small ∨ s.inFlight < s.heavyCapacity) := by
  rw [fits, tryGrantImmediate]
  split
  · simp [*]
  split
  · simp_all
  rename_i hfree hheavy
  rw [not_and_or, not_not, Nat.not_le] at hheavy
  simpa [Nat.lt_of_not_le hfree] using hheavy

theorem fits_mono (hflight : s.inFlight ≤ s'.inFlight) (hcapacity : s'.capacity = s.capacity)
    (h : s'.fits w) : s.fits w := by
  rw [fits_iff] at *
  rw [heavyCapacity, hcapacity, ← heavyCapacity] at h
  exact ⟨by omega, h.2.imp_right fun hheavy => lt_of_le_of_lt hflight hheavy⟩

/-! ## Keys and time -/

theorem effectiveKey_later (hbegun : w.enqueuedAt ≤ clock) (hnow : clock ≤ now) (T : ℚ) :
    w.effectiveKey now T =
      w.effectiveKey clock T - if 0 < T then (now - clock) / T * agingBoost else 0 := by
  have hlater : max 0 (now - w.enqueuedAt) = now - w.enqueuedAt := max_eq_right (by linarith)
  have hbefore : max 0 (clock - w.enqueuedAt) = clock - w.enqueuedAt := max_eq_right (by linarith)
  unfold FairWaiter.effectiveKey
  rw [hlater, hbefore]
  split <;> ring

theorem effectiveKey_le (hbegun : w.enqueuedAt ≤ clock) (hnow : clock ≤ now) (T : ℚ) :
    w.effectiveKey now T ≤ w.effectiveKey clock T := by
  rw [effectiveKey_later hbegun hnow]
  split
  · have hpos : 0 ≤ (now - clock) / T * agingBoost :=
      mul_nonneg (div_nonneg (by linarith) (le_of_lt ‹_›)) (by decide)
    linarith
  · linarith

/-! ## Whom the search finds -/

variable {entries : List HeapEntry}

theorem scan_cons (s : FairScheduler) (key : ℚ) (w : FairWaiter) (rest : List HeapEntry) :
    (¬ s.isQueued w ∧ s.scan ((key, w) :: rest) = s.scan rest) ∨
    (s.capacity ≤ s.inFlight ∧ s.scan ((key, w) :: rest) = (none, (key, w) :: rest)) ∨
    s.scan ((key, w) :: rest) = (some w, rest) ∨
    (¬ s.fits w ∧ s.scan ((key, w) :: rest) = ((s.scan rest).1, (key, w) :: (s.scan rest).2)) := by
  rw [scan, fits_iff]
  split
  · rename_i hgone
    refine .inl ⟨fun hqueued => ?_, rfl⟩
    rw [show s.membership.find w.seq = some w from hqueued] at hgone
    cases hgone
  · split
    · exact .inr (.inl ⟨‹_›, rfl⟩)
    · split
      · exact .inr (.inr (.inl rfl))
      · exact .inr (.inr (.inr ⟨fun hfits => absurd hfits.2 ‹_›, rfl⟩))

theorem scan_sublist (s : FairScheduler) (entries : List HeapEntry) :
    (s.scan entries).2.Sublist entries := by
  induction entries with
  | nil => exact .slnil
  | cons entry rest ih =>
    rcases scan_cons s entry.1 entry.2 rest with ⟨-, h⟩ | ⟨-, h⟩ | h | ⟨-, h⟩ <;> rw [h]
    · exact ih.cons _
    · exact sublist_cons_self _ _
    · exact ih.cons_cons _

theorem scan_split (h : (s.scan entries).1 = some w) : ∃ key pre post,
    entries = pre ++ (key, w) :: post ∧ ∀ e ∈ pre, s.isQueued e.2 → ¬ s.fits e.2 := by
  induction entries with
  | nil => cases h
  | cons entry rest ih =>
    have hbehind : (s.scan rest).1 = some w → (s.isQueued entry.2 → ¬ s.fits entry.2) →
        ∃ key pre post, entry :: rest = pre ++ (key, w) :: post ∧
          ∀ e ∈ pre, s.isQueued e.2 → ¬ s.fits e.2 := by
      intro h hfirst
      obtain ⟨key, pre, post, rfl, hpre⟩ := ih h
      exact ⟨key, entry :: pre, post, rfl, forall_mem_cons.mpr ⟨hfirst, hpre⟩⟩
    rcases scan_cons s entry.1 entry.2 rest with ⟨hgone, hs⟩ | ⟨-, hs⟩ | hs | ⟨hfits, hs⟩ <;>
      rw [hs] at h
    · exact hbehind h fun hqueued => absurd hqueued hgone
    · cases h
    · obtain rfl := some.inj h
      exact ⟨entry.1, [], rest, rfl, fun _ he => by cases he⟩
    · exact hbehind h fun _ => hfits

theorem scan_none (h : (s.scan entries).1 = none) :
    ∀ e ∈ entries, s.isQueued e.2 → ¬ s.fits e.2 := by
  induction entries with
  | nil => exact fun _ he => by cases he
  | cons entry rest ih =>
    rcases scan_cons s entry.1 entry.2 rest with ⟨hgone, hs⟩ | ⟨hfull, -⟩ | hs | ⟨hfits, hs⟩
    · rw [hs] at h
      exact forall_mem_cons.mpr ⟨fun hqueued => absurd hqueued hgone, ih h⟩
    · intro e _ _ hfits
      exact absurd (fits_iff.mp hfits).1 (Nat.not_lt.mpr hfull)
    · rw [hs] at h
      cases h
    · rw [hs] at h
      exact forall_mem_cons.mpr ⟨fun _ => hfits, ih h⟩

theorem mem_scan {e : HeapEntry} (he : e ∈ entries) (hqueued : s.isQueued e.2)
    (hne : (s.scan entries).1 ≠ some e.2) : e ∈ (s.scan entries).2 := by
  induction entries with
  | nil => cases he
  | cons entry rest ih =>
    rcases scan_cons s entry.1 entry.2 rest with ⟨hgone, hs⟩ | ⟨-, hs⟩ | hs | ⟨-, hs⟩ <;>
      rw [hs] at hne ⊢
    · exact ih ((mem_cons.mp he).resolve_left fun heq => hgone (heq ▸ hqueued)) hne
    · exact he
    · exact (mem_cons.mp he).resolve_left fun heq => hne (by rw [heq])
    · exact mem_cons.mpr ((mem_cons.mp he).imp_right fun he => ih he hne)

/-! ## Runs -/

inductive FairAction where
  | tryGrant (w : FairWaiter)
  | enqueue (w : FairWaiter) (now : ℚ)
  | pop (now : ℚ)
  | cancel (seq : Nat)
  /-- A slot comes back, and goes to the next. -/
  | release (sessionId : String) (small : Bool) (cost now : ℚ)

structure FairWorld where
  sched : FairScheduler
  clock : ℚ

/-- The heap entry of a waiter that enters the queue. -/
def entryOf (s : FairScheduler) (w : FairWaiter) (now : ℚ) : HeapEntry :=
  let w := { w with consumptionSnapshot := s.consumptionOf w.sessionId }
  (w.effectiveKey now s.agingThreshold, w)

def fairStep (x : FairWorld) : FairAction → Option FairWorld
  | .tryGrant w => some { x with sched := (x.sched.tryGrantImmediate w).getD x.sched }
  | .enqueue w now => some ⟨x.sched.enqueue w now, now⟩
  | .pop now => some ⟨x.sched.popNextGrantable.2, now⟩
  | .cancel seq => some { x with sched := (x.sched.cancel seq).2 }
  | .release sessionId small cost now =>
    some ⟨(x.sched.complete sessionId small cost).popNextGrantable.2, now⟩

/-- The clock does not go back, and who enters the queue has a new number and no slot to take. -/
def proper (x : FairWorld) : FairAction → Bool
  | .enqueue w now => x.clock ≤ now ∧ w.enqueuedAt ≤ now ∧
      x.sched.heap.all (·.2.seq ≠ w.seq) ∧ ¬ x.sched.fits w
  | .pop now => x.clock ≤ now
  | .release _ _ _ now => x.clock ≤ now
  | _ => true

/-- Who enters the queue goes before nobody whose key has fallen below the new one. -/
def overtakesFairly (x : FairWorld) : FairAction → Bool
  | .enqueue w now =>
    (x.sched.heap.dropWhile fun e => ¬ before (entryOf x.sched w now) e).all fun e =>
      (x.sched.membership.find e.2.seq).isNone ∨
        (entryOf x.sched w now).1 ≤ e.2.effectiveKey now x.sched.agingThreshold
  | _ => true

/-- The heap keeps the order of the keys of this moment. -/
structure Aged (s : FairScheduler) (clock : ℚ) : Prop where
  queued : ∀ k u, s.membership.find k = some u → u.seq = k ∧ ∃ key, (key, u) ∈ s.heap
  own : ∀ e ∈ s.heap, ∀ u, s.membership.find e.2.seq = some u → u = e.2
  order : s.heap.Pairwise fun a b => s.isQueued a.2 → s.isQueued b.2 →
    a.2.effectiveKey clock s.agingThreshold ≤ b.2.effectiveKey clock s.agingThreshold
  key : ∀ e ∈ s.heap, e.2.effectiveKey clock s.agingThreshold ≤ e.1
  begun : ∀ e ∈ s.heap, e.2.enqueuedAt ≤ clock

/-- Nobody waits for whom a slot is free. -/
def Full (s : FairScheduler) : Prop := ∀ u, s.isQueued u → ¬ s.fits u

/-- A slot goes to the smallest key among those that could have it. -/
def FairPop (s : FairScheduler) (now : ℚ) : Prop :=
  ∀ w, s.popNextGrantable.1 = some w → ∀ u, s.isQueued u → u.seq ≠ w.seq → s.fits u →
    w.effectiveKey now s.agingThreshold ≤ u.effectiveKey now s.agingThreshold

theorem Aged.later (h : Aged s clock) (hnow : clock ≤ now) : Aged s now where
  queued := h.queued
  own := h.own
  order := by
    refine h.order.imp_of_mem fun {a b} ha hb hab hqa hqb => ?_
    rw [effectiveKey_later (h.begun a ha) hnow, effectiveKey_later (h.begun b hb) hnow]
    exact sub_le_sub_right (hab hqa hqb) _
  key := fun e he => (effectiveKey_le (h.begun e he) hnow _).trans (h.key e he)
  begun := fun e he => (h.begun e he).trans hnow

theorem Aged.shrink (h : Aged s clock) (hT : s'.agingThreshold = s.agingThreshold)
    (hheap : s'.heap.Sublist s.heap)
    (hold : ∀ k u, s'.membership.find k = some u → s.membership.find k = some u)
    (hstay : ∀ e ∈ s.heap, s'.isQueued e.2 → e ∈ s'.heap) : Aged s' clock where
  queued := by
    intro k u hu
    obtain ⟨rfl, key, hmem⟩ := h.queued k u (hold k u hu)
    exact ⟨rfl, key, hstay _ hmem hu⟩
  own := fun e he u hu => h.own e (hheap.subset he) u (hold _ u hu)
  order := by
    rw [hT]
    exact (h.order.sublist hheap).imp fun hab hqa hqb => hab (hold _ _ hqa) (hold _ _ hqb)
  key := fun e he => hT ▸ h.key e (hheap.subset he)
  begun := fun e he => h.begun e (hheap.subset he)

theorem aged_admitWaiter (h : Aged s clock) (w : FairWaiter) : Aged (s.admitWaiter w) clock := by
  have hheap : (s.admitWaiter w).heap = s.heap :=
    recordConsumption_keeps FairScheduler.heap (fun _ _ => rfl) _ _ _
  refine h.shrink (recordConsumption_keeps FairScheduler.agingThreshold (fun _ _ => rfl) _ _ _)
    (by rw [hheap]) ?_ (by rw [hheap]; exact fun _ he _ => he)
  rw [admitWaiter_membership]
  exact fun _ _ hu => hu

theorem aged_complete (h : Aged s clock) (sessionId : String) (small : Bool) (cost : ℚ) :
    Aged (s.complete sessionId small cost) clock := by
  have hheap : (s.complete sessionId small cost).heap = s.heap :=
    recordConsumption_keeps FairScheduler.heap (fun _ _ => rfl) _ _ _
  refine h.shrink (recordConsumption_keeps FairScheduler.agingThreshold (fun _ _ => rfl) _ _ _)
    (by rw [hheap]) ?_ (by rw [hheap]; exact fun _ he _ => he)
  rw [complete_membership]
  exact fun _ _ hu => hu

theorem find_of_deleted {k seq : Nat}
    (h : Dict.find (Table.delete s.membership fun kv => kv.1 = seq) k = some u) :
    k ≠ seq ∧ s.membership.find k = some u := by
  rw [find_delete_key] at h
  exact ite_none_left_eq_some.mp h

theorem aged_cancel (h : Aged s clock) (seq : Nat) : Aged (s.cancel seq).2 clock :=
  h.shrink rfl (List.Sublist.refl _) (fun _ _ hu => (find_of_deleted hu).2) fun _ he _ => he

theorem aged_pop (h : Aged s clock) : Aged s.popNextGrantable.2 clock := by
  have hsub := scan_sublist s s.heap
  have hmem : ∀ e ∈ s.heap, s.isQueued e.2 → (s.scan s.heap).1 ≠ some e.2 →
      e ∈ (s.scan s.heap).2 := fun _ => mem_scan
  rw [popNextGrantable]
  cases hscan : s.scan s.heap with
  | mk found heap =>
    rw [hscan] at hsub hmem
    cases found with
    | none => exact h.shrink rfl hsub (fun _ _ hu => hu) fun e he hq => hmem e he hq (by simp)
    | some w =>
      have hleft : Aged { s with
          heap := heap
          membership := Table.delete s.membership fun kv => kv.1 = w.seq } clock := by
        refine h.shrink rfl hsub (fun _ _ hu => (find_of_deleted hu).2) fun e he hq => ?_
        obtain ⟨hne, hq⟩ := find_of_deleted hq
        exact hmem e he hq fun heq => hne (congrArg FairWaiter.seq (some.inj heq)).symm
      exact aged_admitWaiter hleft w

theorem full_pop (h : Aged s clock) (hbusy : ∀ u (s' : FairScheduler), s.isQueued u →
      s'.capacity = s.capacity → s.inFlight + 1 ≤ s'.inFlight → ¬ s'.fits u) :
    Full s.popNextGrantable.2 := by
  intro u hu hfits
  rw [popNextGrantable] at hu hfits
  cases hscan : s.scan s.heap with
  | mk found heap =>
    rw [hscan] at hu hfits
    cases found with
    | none =>
      obtain ⟨-, key, hmem⟩ := h.queued _ u hu
      refine scan_none (congrArg Prod.fst hscan) _ hmem hu (fits_mono ?_ ?_ hfits)
      · exact Nat.le_refl _
      · rfl
    | some w =>
      rw [isQueued, admitWaiter_membership] at hu
      refine hbusy u _ (find_of_deleted hu).2 ?_ ?_ hfits
      · rw [admitWaiter_capacity]
      · rw [admitWaiter_inFlight]

theorem fair_pop (h : Aged s now) : FairPop s now := by
  intro w hw u hu hne hfits
  have hscan : (s.scan s.heap).1 = some w := by
    rw [popNextGrantable] at hw
    split at hw
    · cases hw
    rename_i hscan
    rw [hscan]
    exact hw
  obtain ⟨key, pre, post, hheap, hpre⟩ := scan_split hscan
  obtain ⟨-, key', hmem⟩ := h.queued _ u hu
  have hqueued : s.isQueued w := by
    obtain ⟨v, hv⟩ := isSome_iff_exists.mp (scan_eq_some hscan).1
    have hown : v = w := h.own (key, w) (hheap ▸ mem_append_right pre mem_cons_self) v hv
    exact hown ▸ hv
  have hpost : (key', u) ∈ post := by
    rw [hheap] at hmem
    rcases mem_append.mp hmem with hmem | hmem
    · exact absurd hfits (hpre _ hmem hu)
    refine (mem_cons.mp hmem).resolve_left fun heq => hne ?_
    rw [(Prod.mk.inj heq).2]
  have horder := h.order
  rw [hheap] at horder
  exact (pairwise_cons.mp (pairwise_append.mp horder).2.1).1 _ hpost hqueued hu

theorem aged_enqueue {x : FairWorld} (h : Aged x.sched x.clock)
    (hproper : proper x (.enqueue w now))
    (hfair : overtakesFairly x (.enqueue w now)) : Aged (x.sched.enqueue w now) now := by
  simp only [proper, decide_eq_true_eq, List.all_eq_true] at hproper
  obtain ⟨hclock, hbegun, hnew, -⟩ := hproper
  have hs := h.later hclock
  simp only [overtakesFairly, List.all_eq_true, decide_eq_true_eq] at hfair
  set entry := entryOf x.sched w now with hentry
  have hheap : (x.sched.enqueue w now).heap = _ := orderedInsert_eq_take_drop
    (fun a b => before a b) entry x.sched.heap
  have hmem : ∀ {e}, e ∈ (x.sched.enqueue w now).heap ↔ e = entry ∨ e ∈ x.sched.heap :=
    mem_orderedInsert _
  have hfind : ∀ e ∈ x.sched.heap, (x.sched.enqueue w now).membership.find e.2.seq =
      x.sched.membership.find e.2.seq :=
    fun e he => find_set_ne _ _ (Ne.symm (hnew e he))
  have hkeep : ∀ e ∈ x.sched.heap, (x.sched.enqueue w now).isQueued e.2 → x.sched.isQueued e.2 :=
    fun e he hq => (hfind e he).symm.trans hq
  have hsplit := takeWhile_append_dropWhile
    (p := fun b => ¬ before entry b) (l := x.sched.heap)
  constructor
  · intro k u hu
    rw [show (x.sched.enqueue w now).membership = x.sched.membership.set w.seq entry.2 from rfl,
      find_set] at hu
    split at hu
    · rename_i hk
      obtain rfl := some.inj hu
      exact ⟨hk, entry.1, hmem.mpr (.inl rfl)⟩
    · obtain ⟨hseq, key, hold⟩ := hs.queued k u hu
      exact ⟨hseq, key, hmem.mpr (.inr hold)⟩
  · intro e he u hu
    rcases hmem.mp he with rfl | he
    · exact (some.inj ((find_set_self _ _ _).symm.trans hu)).symm
    · exact hs.own e he u ((hfind e he).symm.trans hu)
  · have horder := hs.order
    rw [← hsplit, pairwise_append] at horder
    have hfront := (takeWhile_sublist (fun b => ¬ before entry b)
      (l := x.sched.heap)).subset
    have hback := (dropWhile_sublist (fun b => ¬ before entry b)
      (l := x.sched.heap)).subset
    rw [hheap, pairwise_append, pairwise_cons]
    refine ⟨?_, ⟨?_, ?_⟩, ?_⟩
    · exact horder.1.imp_of_mem fun ha hb hab hqa hqb =>
        hab (hkeep _ (hfront ha) hqa) (hkeep _ (hfront hb) hqb)
    · -- those it goes before have not aged below it
      intro b hb _ hqb
      have hqueued : x.sched.membership.find b.2.seq = some b.2 := hkeep b (hback hb) hqb
      refine (hfair b hb).resolve_left ?_
      rw [hqueued]
      simp
    · exact horder.2.1.imp_of_mem fun ha hb hab hqa hqb =>
        hab (hkeep _ (hback ha) hqa) (hkeep _ (hback hb) hqb)
    · intro a ha b hb hqa hqb
      rcases mem_cons.mp hb with rfl | hb
      · -- it goes behind a key that was no larger, and has only fallen since
        have hbefore := mem_takeWhile_imp ha
        simp only [before, decide_eq_true_eq, not_or, not_lt] at hbefore
        exact (hs.key a (hfront ha)).trans hbefore.1
      · exact horder.2.2 a ha b hb (hkeep _ (hfront ha) hqa) (hkeep _ (hback hb) hqb)
  · intro e he
    rcases hmem.mp he with rfl | he
    · exact le_refl _
    · exact hs.key e he
  · intro e he
    rcases hmem.mp he with rfl | he
    · exact hbegun
    · exact hs.begun e he

theorem full_enqueue (h : Full s) (hw : ¬ s.fits w) : Full (s.enqueue w now) := by
  intro u hu hfits
  have hold : s.fits u := by
    refine fits_mono ?_ ?_ hfits
    · exact Nat.le_refl _
    · rfl
  rw [isQueued, show (s.enqueue w now).membership = s.membership.set w.seq (entryOf s w now).2 from
    rfl, find_set] at hu
  split at hu
  · obtain rfl := some.inj hu
    exact hw (fits_iff.mpr (fits_iff.mp hold))
  · exact h u hu hold

theorem full_complete_pop (h : Full s) (ha : Aged s clock) (sessionId : String) (small : Bool)
    (cost : ℚ) : Full (s.complete sessionId small cost).popNextGrantable.2 := by
  refine full_pop (aged_complete ha sessionId small cost) fun u s' hu hcapacity hflight hfits => ?_
  rw [isQueued, complete_membership] at hu
  rw [complete_capacity] at hcapacity
  rw [complete_inFlight] at hflight
  exact h u hu (fits_mono (by omega) hcapacity hfits)

theorem aged_step {x x' : FairWorld} (h : Aged x.sched x.clock ∧ Full x.sched) {a : FairAction}
    (hcareful : (proper x a && overtakesFairly x a)) (hstep : fairStep x a = some x') :
    Aged x'.sched x'.clock ∧ Full x'.sched := by
  rw [Bool.and_eq_true] at hcareful
  obtain ⟨hproper, hfair⟩ := hcareful
  cases a with
  | tryGrant w =>
    obtain rfl := some.inj hstep
    cases hgrant : x.sched.tryGrantImmediate w with
    | none => exact h
    | some s =>
      obtain ⟨-, rfl⟩ := tryGrantImmediate_eq_some hgrant
      refine ⟨aged_admitWaiter h.1 w, fun u hu hfits => ?_⟩
      rw [getD_some, isQueued, admitWaiter_membership] at hu
      refine h.2 u hu (fits_mono ?_ (admitWaiter_capacity _ _) hfits)
      rw [admitWaiter_inFlight]
      exact Nat.le_succ _
  | enqueue w now =>
    obtain rfl := some.inj hstep
    refine ⟨aged_enqueue h.1 hproper hfair, full_enqueue h.2 ?_⟩
    simp only [proper, decide_eq_true_eq] at hproper
    exact hproper.2.2.2
  | pop now =>
    obtain rfl := some.inj hstep
    have ha := h.1.later (of_decide_eq_true hproper)
    refine ⟨aged_pop ha, full_pop ha fun u s' hu hcapacity hflight hfits => ?_⟩
    exact h.2 u hu (fits_mono (by omega) hcapacity hfits)
  | cancel seq =>
    obtain rfl := some.inj hstep
    refine ⟨aged_cancel h.1 seq, fun u hu hfits => ?_⟩
    refine h.2 u (find_of_deleted hu).2 (fits_mono ?_ ?_ hfits)
    · exact Nat.le_refl _
    · rfl
  | release sessionId small cost now =>
    obtain rfl := some.inj hstep
    have ha := h.1.later (of_decide_eq_true hproper)
    exact ⟨aged_pop (aged_complete ha sessionId small cost),
      full_complete_pop h.2 ha sessionId small cost⟩

/-- An empty queue at some time. -/
def freshWorld (capacity : Nat) (agingThreshold clock : ℚ) : FairWorld :=
  ⟨{ capacity := capacity, agingThreshold := agingThreshold }, clock⟩

theorem aged_fresh (capacity : Nat) (T t : ℚ) : Aged (freshWorld capacity T t).sched t where
  queued := fun _ _ hu => by cases hu
  own := fun _ he => by cases he
  order := .nil
  key := fun _ he => by cases he
  begun := fun _ he => by cases he

/-- Whether a slot has come back or not, it goes to the smallest key of the moment. -/
theorem aged_first {capacity : Nat} {T t now : ℚ} {x : FairWorld}
    (hrun : Relation.ReflTransGen (Step fairStep fun x a => proper x a && overtakesFairly x a)
      (freshWorld capacity T t) x) (hnow : x.clock ≤ now)
    (sessionId : String) (small : Bool) (cost : ℚ) :
    FairPop x.sched now ∧ FairPop (x.sched.complete sessionId small cost) now ∧
      Full (x.sched.complete sessionId small cost).popNextGrantable.2 := by
  have h : Aged x.sched x.clock ∧ Full x.sched :=
    run_induction (I := fun x => Aged x.sched x.clock ∧ Full x.sched)
      (fun h hcareful hstep => aged_step h hcareful hstep)
      ⟨aged_fresh capacity T t, fun _ hu => by cases hu⟩ hrun
  have ha := h.1.later hnow
  exact ⟨fair_pop ha, fair_pop (aged_complete ha sessionId small cost),
    full_complete_pop h.2 ha sessionId small cost⟩

deriving instance DecidableEq for FairWaiter

/-- One session works, and one of a low and one of a high priority wait. -/
theorem aged_first_waiting : ∃ x, FairPop (x : FairWorld).sched 2 ∧ x.sched.heap.length = 2 := by
  have hplay : (play fairStep (fun x a => proper x a && overtakesFairly x a) (freshWorld 1 10 0)
      [.tryGrant { sessionId := "a", seq := 1 }, .enqueue { sessionId := "b", seq := 2 } 0,
        .enqueue { sessionId := "c", seq := 3, priority := 0, enqueuedAt := 1 } 1]).any
      (fun x => x.clock ≤ 2 ∧ x.sched.heap.length = 2) := by decide +kernel
  obtain ⟨x, hx, hends⟩ := (Option.any_eq_true _ _).mp hplay
  have hends := of_decide_eq_true hends
  exact ⟨x, (aged_first (run_of_play hx) hends.1 "a" false 1).1, hends.2⟩

/-- A hundred seconds of waiting count for nothing against a priority. -/
theorem aging_ignored : ¬ ∀ (capacity : Nat) (T t now : ℚ) (x : FairWorld),
    Relation.ReflTransGen (Step fairStep proper) (freshWorld capacity T t) x → x.clock ≤ now →
      FairPop (x.sched.complete "a" false 1) now := by
  intro h
  let b : FairWaiter := { sessionId := "b", seq := 2 }
  let c : FairWaiter := { sessionId := "c", seq := 3, priority := 0, enqueuedAt := 100 }
  have hplay : (play fairStep proper (freshWorld 1 10 0)
      [.tryGrant { sessionId := "a", seq := 1 }, .enqueue b 0, .enqueue c 100]).any (fun x =>
        x.clock ≤ 100 ∧ (x.sched.complete "a" false 1).popNextGrantable.1 = some c ∧
          (x.sched.complete "a" false 1).membership.find 2 = some b ∧
          (x.sched.complete "a" false 1).fits b ∧
          ¬ c.effectiveKey 100 (x.sched.complete "a" false 1).agingThreshold ≤
            b.effectiveKey 100 (x.sched.complete "a" false 1).agingThreshold) := by decide +kernel
  obtain ⟨x, hx, hends⟩ := (Option.any_eq_true _ _).mp hplay
  obtain ⟨hclock, hpop, hb, hfits, hkeys⟩ := of_decide_eq_true hends
  exact hkeys (h 1 10 0 100 x (run_of_play hx) hclock c hpop b hb (by decide) hfits)

end WebGis.Governor
