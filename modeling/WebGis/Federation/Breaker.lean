/-
  `services/data_fabric/circuit_breaker.py`: calls to a source behind its circuit breaker.

  A result does not say to which admission it belongs. A call that was let in before the breaker
  opened may end while another one is on trial, and whatever it reports frees the place of the
  trial (`second_trial`). As long as such a call ends in no success unless the breaker is closed,
  and in a transient error or after the trial otherwise, one call is on trial at a time, and only
  its success closes the breaker (`one_trial`). An open breaker fails fast (`fails_fast`).
-/
import Mathlib.Algebra.Order.Ring.Rat
import Mathlib.Tactic.Linarith
import WebGis.Data.Play

namespace WebGis.Federation

open Option List

open Data

/-! ## The breaker -/

inductive CircuitState where
  | closed | opened | halfOpen
  deriving DecidableEq

structure BreakerEntry where
  state : CircuitState := .closed
  consecutiveFailures : Int := 0
  openedAt : Rat := 0
  halfOpenTrialInflight : Bool := false

structure CircuitBreaker where
  failureThreshold : Int := 5
  coolDown : Rat := 30

/-- How a call ends: `cancelled` for what is no `Exception`. -/
inductive Ending where
  | success | transient | permanent | cancelled
  deriving DecidableEq

namespace CircuitBreaker

variable (b : CircuitBreaker) (now : Rat)

def state (entry : BreakerEntry) : BreakerEntry :=
  if entry.state = .opened ∧ max 0 b.coolDown ≤ now - entry.openedAt then
    { entry with state := .halfOpen, halfOpenTrialInflight := false }
  else entry

def allow (entry : BreakerEntry) : BreakerEntry × Bool :=
  let entry := b.state now entry
  match entry.state with
  | .opened => (entry, false)
  | .halfOpen =>
    if entry.halfOpenTrialInflight then (entry, false)
    else ({ entry with halfOpenTrialInflight := true }, true)
  | .closed => (entry, true)

def recordSuccess (entry : BreakerEntry) : BreakerEntry :=
  { entry with consecutiveFailures := 0, state := .closed, halfOpenTrialInflight := false }

def recordFailure (isTransient : Bool) (entry : BreakerEntry) : BreakerEntry :=
  let entry := { entry with halfOpenTrialInflight := false }
  if isTransient then
    let failures := entry.consecutiveFailures + 1
    if entry.state = .halfOpen ∨ max 1 b.failureThreshold ≤ failures then
      { entry with consecutiveFailures := failures, state := .opened, openedAt := now }
    else { entry with consecutiveFailures := failures }
  else entry

/-- The end of `CircuitBreakerRegistry.call`. -/
def record (entry : BreakerEntry) : Ending → BreakerEntry
  | .success => recordSuccess entry
  | .transient => b.recordFailure now true entry
  | .permanent => b.recordFailure now false entry
  | .cancelled => { entry with halfOpenTrialInflight := false }

end CircuitBreaker

/-! ## Calls -/

/-- The entry of the source, the calls that have been let in and have not ended, and those of them
    that have been let in since the breaker last became half-open. -/
structure BreakerWorld where
  entry : BreakerEntry := {}
  now : Rat := 0
  running : List Nat := []
  trials : List Nat := []

/-- `state` is asked by a call that has been refused. -/
inductive BreakerAction where
  | allow (call : Nat)
  | state
  | record (call : Nat) (ending : Ending)
  | tick (seconds : Rat)

namespace BreakerWorld

/-- `_state` has been asked. -/
def look (b : CircuitBreaker) (w : BreakerWorld) : BreakerWorld :=
  let entry := b.state w.now w.entry
  { w with
    entry := entry
    trials := if w.entry.state = .opened ∧ entry.state = .halfOpen then [] else w.trials }

def step (b : CircuitBreaker) (w : BreakerWorld) : BreakerAction → Option BreakerWorld
  | .allow call =>
    if call ∈ w.running then none
    else
      let (entry, allowed) := b.allow w.now w.entry
      if allowed then
        some { w.look b with
          entry := entry
          running := call :: w.running
          trials := if entry.state = .halfOpen then call :: (w.look b).trials
            else (w.look b).trials }
      else some (w.look b)
  | .state => some (w.look b)
  | .record call ending =>
    if call ∈ w.running then
      some { w with
        entry := b.record w.now w.entry ending
        running := w.running.erase call
        trials := w.trials.erase call }
    else none
  | .tick seconds => if 0 ≤ seconds then some { w with now := w.now + seconds } else none

/-- A call that is not on trial ends in no success unless the breaker is closed, and while a trial
    runs in nothing but a transient error. -/
def careful (w : BreakerWorld) : BreakerAction → Bool
  | .record call ending =>
    match w.entry.state with
    | .closed => true
    | .opened => ending ≠ .success ∨ call ∈ w.trials
    | .halfOpen => call ∈ w.trials ∨ ending = .transient ∨ ending ≠ .success ∧ w.trials = []
  | _ => true

/-- One call is on trial at a time, and nothing but its success closes the breaker. -/
structure OneTrial (b : CircuitBreaker) (allowed : BreakerWorld → BreakerAction → Bool)
    (w : BreakerWorld) : Prop where
  one : w.entry.state = .halfOpen → w.trials.length ≤ 1
  closes : ∀ a w', allowed w a = true → w.step b a = some w' → w.entry.state ≠ .closed →
    w'.entry.state = .closed → ∃ call ∈ w.trials, a = .record call .success

/-- The place of the trial is taken exactly if there is one. -/
def Counted (w : BreakerWorld) : Prop :=
  w.entry.state = .halfOpen → w.trials.length = w.entry.halfOpenTrialInflight.toNat

variable {b : CircuitBreaker} {w w' : BreakerWorld} {call : Nat} {ending : Ending}

theorem state_cases (b : CircuitBreaker) (w : BreakerWorld) :
    w.entry.state = .opened ∧
        w.look b = { w with
          entry := { w.entry with state := .halfOpen, halfOpenTrialInflight := false }
          trials := [] } ∨
      w.look b = w := by
  unfold look CircuitBreaker.state
  by_cases h : w.entry.state = .opened ∧ max 0 b.coolDown ≤ w.now - w.entry.openedAt
  · refine .inl ⟨h.1, ?_⟩
    simp [h.1, h.2]
  · refine .inr ?_
    simp only [if_neg h]
    rw [if_neg]
    rintro ⟨hopened, hhalf⟩
    rw [hopened] at hhalf
    cases hhalf

theorem Counted.look (h : Counted w) : Counted (w.look b) := by
  obtain ⟨-, heq⟩ | heq := state_cases b w
  · rw [heq]
    intro _
    rfl
  · rwa [heq]

theorem look_closed (h : (w.look b).entry.state = .closed) : w.entry.state = .closed := by
  obtain ⟨-, heq⟩ | heq := state_cases b w
  · rw [heq] at h
    cases h
  · rwa [heq] at h

/-- What `allow` answers, and does to the entry, after `_state`. -/
theorem allow_cases (b : CircuitBreaker) (w : BreakerWorld) :
    b.allow w.now w.entry = ((w.look b).entry, false) ∨
      b.allow w.now w.entry = ((w.look b).entry, true) ∧ (w.look b).entry.state = .closed ∨
      b.allow w.now w.entry =
          ({ (w.look b).entry with halfOpenTrialInflight := true }, true) ∧
        (w.look b).entry.state = .halfOpen ∧
        (w.look b).entry.halfOpenTrialInflight = false := by
  have hlook : b.state w.now w.entry = (w.look b).entry := rfl
  unfold CircuitBreaker.allow
  rw [hlook]
  cases hstate : (w.look b).entry.state with
  | closed => exact .inr (.inl ⟨by simp [hstate], rfl⟩)
  | opened => exact .inl (by simp [hstate])
  | halfOpen =>
    cases hfree : (w.look b).entry.halfOpenTrialInflight with
    | true => exact .inl (by simp [hstate, hfree])
    | false => exact .inr (.inr ⟨by simp [hstate, hfree], rfl, rfl⟩)

/-- After a transient error the breaker is not half-open, and is closed only if it was. -/
theorem state_transient (b : CircuitBreaker) (now : Rat) (entry : BreakerEntry) :
    (b.record now entry .transient).state ≠ .halfOpen ∧
      ((b.record now entry .transient).state = .closed → entry.state = .closed) := by
  simp only [CircuitBreaker.record, CircuitBreaker.recordFailure, if_true]
  split
  · simp
  rename_i h
  push Not at h
  exact ⟨h.1, id⟩

theorem record_freed (b : CircuitBreaker) (now : Rat) (entry : BreakerEntry)
    (h : ending = .permanent ∨ ending = .cancelled) :
    b.record now entry ending = { entry with halfOpenTrialInflight := false } := by
  rcases h with rfl | rfl <;> rfl

theorem Counted.record (h : Counted w) (hcareful : w.careful (.record call ending))
    (hstep : w.step b (.record call ending) = some w') : Counted w' := by
  obtain ⟨-, heq⟩ := ite_none_right_eq_some.mp hstep
  obtain rfl := some.inj heq
  have hfreed (hending : ending = .permanent ∨ ending = .cancelled) :
      Counted { w with
        entry := b.record w.now w.entry ending
        running := w.running.erase call
        trials := w.trials.erase call } := by
    rw [record_freed b w.now w.entry hending]
    intro hhalf
    have hstate : w.entry.state = .halfOpen := hhalf
    have hcount := h hstate
    simp only [careful, hstate, decide_eq_true_eq] at hcareful
    rcases hcareful with hmem | htransient | ⟨-, hnone⟩
    · have hle : w.entry.halfOpenTrialInflight.toNat ≤ 1 := Bool.toNat_le _
      have hlength := length_erase_of_mem hmem
      have hpos := length_pos_of_mem hmem
      dsimp only [Bool.toNat_false]
      omega
    · rw [htransient] at hending
      rcases hending with hending | hending <;> cases hending
    · dsimp only
      rw [hnone]
      rfl
  cases ending with
  | success =>
    intro hhalf
    cases hhalf
  | transient => exact fun hhalf => absurd hhalf (state_transient b w.now w.entry).1
  | permanent => exact hfreed (.inl rfl)
  | cancelled => exact hfreed (.inr rfl)

theorem Counted.step {a : BreakerAction} (h : Counted w) (hcareful : w.careful a)
    (hstep : w.step b a = some w') : Counted w' := by
  cases a with
  | allow call =>
    have hlook := h.look (b := b)
    simp only [BreakerWorld.step] at hstep
    split at hstep
    · cases hstep
    obtain hallow | ⟨hallow, hclosed⟩ | ⟨hallow, hhalf, hfree⟩ := allow_cases b w
    · rw [hallow] at hstep
      cases hstep
      exact hlook
    · rw [hallow] at hstep
      cases hstep
      intro hopen
      rw [hclosed] at hopen
      cases hopen
    · rw [hallow] at hstep
      cases hstep
      intro _
      have hnone := hlook hhalf
      rw [hfree] at hnone
      simp [hhalf, hnone]
  | state =>
    cases hstep
    exact h.look
  | record call ending => exact h.record hcareful hstep
  | tick seconds =>
    obtain ⟨-, heq⟩ := ite_none_right_eq_some.mp hstep
    obtain rfl := some.inj heq
    exact h

/-- Only a call on trial closes the breaker, where `careful` is kept. -/
theorem closes_step {a : BreakerAction} (hcareful : w.careful a)
    (hstep : w.step b a = some w') (hopen : w.entry.state ≠ .closed)
    (hclosed : w'.entry.state = .closed) : ∃ call ∈ w.trials, a = .record call .success := by
  cases a with
  | allow call =>
    refine absurd (look_closed (b := b) ?_) hopen
    simp only [BreakerWorld.step] at hstep
    split at hstep
    · cases hstep
    obtain hallow | ⟨hallow, hlook⟩ | ⟨hallow, hhalf, -⟩ := allow_cases b w
    · rw [hallow] at hstep
      cases hstep
      exact hclosed
    · exact hlook
    · rw [hallow] at hstep
      cases hstep
      exact hclosed
  | state =>
    cases hstep
    exact absurd (look_closed hclosed) hopen
  | record call ending =>
    obtain ⟨-, heq⟩ := ite_none_right_eq_some.mp hstep
    obtain rfl := some.inj heq
    cases ending with
    | success =>
      refine ⟨call, ?_, rfl⟩
      cases hstate : w.entry.state with
      | closed => exact absurd hstate hopen
      | opened => simpa [careful, hstate] using hcareful
      | halfOpen => simpa [careful, hstate] using hcareful
    | transient => exact absurd ((state_transient b w.now w.entry).2 hclosed) hopen
    | permanent | cancelled => exact absurd hclosed hopen
  | tick seconds =>
    obtain ⟨-, heq⟩ := ite_none_right_eq_some.mp hstep
    obtain rfl := some.inj heq
    exact absurd hclosed hopen

theorem one_trial (b : CircuitBreaker)
    (hrun : Relation.ReflTransGen (Step (step b) careful) {} w) : OneTrial b careful w where
  one hhalf := by
    have hcounted : Counted w :=
      run_induction (fun h hcareful hstep => Counted.step h hcareful hstep) (fun h => by cases h) hrun
    rw [hcounted hhalf]
    exact Bool.toNat_le _
  closes _ _ hcareful hstep hopen hclosed := closes_step hcareful hstep hopen hclosed

/-- One failure opens the breaker. -/
def touchy : CircuitBreaker := { failureThreshold := 1 }

/-- Two calls are let in, one of them fails, and later a third one is on trial. -/
def onTrial : List BreakerAction :=
  [.allow 1, .allow 2, .record 1 .transient, .tick 30, .allow 3]

theorem one_trial_third : ∃ w, (w : BreakerWorld).trials = [3] ∧ OneTrial touchy careful w := by
  have hplay : (play (step touchy) careful {} onTrial).any fun w => w.trials = [3] := by
    decide +kernel
  obtain ⟨w, hw, htrials⟩ := (any_eq_true _ _).mp hplay
  exact ⟨w, of_decide_eq_true htrials, one_trial touchy (run_of_play hw)⟩

/-- The second call ends in a permanent error, and a fourth one is let in beside the third. -/
theorem second_trial : ¬ ∀ (b : CircuitBreaker) (w : BreakerWorld),
    Relation.ReflTransGen (Step (step b) fun _ _ => true) {} w →
      OneTrial b (fun _ _ => true) w := by
  intro h
  have hplay : (play (step touchy) (fun _ _ => true) {}
      (onTrial ++ [.record 2 .permanent, .allow 4])).any fun w =>
        w.entry.state = .halfOpen ∧ w.trials = [4, 3] := by decide +kernel
  obtain ⟨w, hw, hends⟩ := (any_eq_true _ _).mp hplay
  obtain ⟨hhalf, htrials⟩ := of_decide_eq_true hends
  have hone := (h touchy w (run_of_play hw)).one hhalf
  rw [htrials] at hone
  exact absurd hone (by decide)

/-! ## Failing fast -/

/-- The breaker is closed exactly while fewer calls in a row have failed than its threshold. -/
structure Booked (b : CircuitBreaker) (entry : BreakerEntry) (now : Rat) : Prop where
  closed : entry.state = .closed ↔ entry.consecutiveFailures < max 1 b.failureThreshold
  past : entry.openedAt ≤ now

theorem Booked.look (h : Booked b w.entry w.now) : Booked b (w.look b).entry w.now := by
  obtain ⟨hopened, heq⟩ | heq := state_cases b w
  · have hfailed := h.closed.not.mp (by rw [hopened]; decide)
    rw [heq]
    exact ⟨iff_of_false nofun hfailed, h.past⟩
  · rwa [heq]

theorem Booked.record {entry : BreakerEntry} {now : Rat} (h : Booked b entry now)
    (ending : Ending) : Booked b (b.record now entry ending) now := by
  cases ending with
  | success => exact ⟨iff_of_true rfl (lt_max_of_lt_left zero_lt_one), h.past⟩
  | permanent | cancelled => exact ⟨h.closed, h.past⟩
  | transient =>
    have hclosed := h.closed
    simp only [CircuitBreaker.record, CircuitBreaker.recordFailure, if_true]
    split
    · rename_i hover
      refine ⟨iff_of_false nofun fun hlt => ?_, le_rfl⟩
      dsimp only at hlt
      rcases hover with hhalf | hle
      · rw [hclosed.mpr (by omega)] at hhalf
        cases hhalf
      · omega
    · rename_i hunder
      rw [not_or, not_le] at hunder
      exact ⟨iff_of_true (hclosed.mpr (by omega)) hunder.2, h.past⟩

theorem look_of_early (h : w.now - w.entry.openedAt < max 0 b.coolDown) : w.look b = w := by
  refine (state_cases b w).resolve_left fun hhalf => ?_
  have hsame : b.state w.now w.entry = w.entry := if_neg fun hover => h.not_ge hover.2
  have hstate : (b.state w.now w.entry).state = .halfOpen :=
    congrArg (fun w : BreakerWorld => w.entry.state) hhalf.2
  rw [hsame, hhalf.1] at hstate
  cases hstate

/-- What does not succeed leaves an open breaker open. -/
theorem record_opened {entry : BreakerEntry} {now t : Rat} (hfails : ending ≠ .success)
    (hstate : entry.state = .opened) (hnow : t ≤ now) (hlater : t ≤ entry.openedAt) :
    (b.record now entry ending).state = .opened ∧ t ≤ (b.record now entry ending).openedAt := by
  cases ending with
  | success => exact absurd rfl hfails
  | permanent | cancelled => exact ⟨hstate, hlater⟩
  | transient =>
    simp only [CircuitBreaker.record, CircuitBreaker.recordFailure, if_true]
    split
    · exact ⟨rfl, hnow⟩
    · exact ⟨hstate, hlater⟩

/-- What a step does to the breaker, and which calls it lets in. -/
theorem step_entry {a : BreakerAction} (hstep : w.step b a = some w') :
    ((∃ inflight, w'.entry = { (w.look b).entry with halfOpenTrialInflight := inflight }) ∧
      w'.now = w.now ∧ ((w.look b).entry.state = .opened → w'.running ⊆ w.running)) ∨
    (∃ call ending, a = .record call ending ∧ w'.entry = b.record w.now w.entry ending ∧
      w'.now = w.now ∧ w'.running ⊆ w.running) ∨
    (w'.entry = w.entry ∧ w.now ≤ w'.now ∧ w'.running ⊆ w.running) := by
  cases a with
  | allow call =>
    left
    simp only [BreakerWorld.step] at hstep
    split at hstep
    · cases hstep
    obtain hallow | ⟨hallow, hclosed⟩ | ⟨hallow, hhalf, -⟩ := allow_cases b w
    · rw [hallow] at hstep
      cases hstep
      exact ⟨⟨_, rfl⟩, rfl, fun _ => Subset.refl _⟩
    · rw [hallow] at hstep
      cases hstep
      exact ⟨⟨_, rfl⟩, rfl, fun hopened => by rw [hclosed] at hopened; cases hopened⟩
    · rw [hallow] at hstep
      cases hstep
      exact ⟨⟨_, rfl⟩, rfl, fun hopened => by rw [hhalf] at hopened; cases hopened⟩
  | state =>
    cases hstep
    exact .inl ⟨⟨_, rfl⟩, rfl, fun _ => Subset.refl _⟩
  | record call ending =>
    obtain ⟨-, heq⟩ := ite_none_right_eq_some.mp hstep
    obtain rfl := some.inj heq
    exact .inr (.inl ⟨call, ending, rfl, rfl, rfl, erase_subset⟩)
  | tick seconds =>
    obtain ⟨hpos, heq⟩ := ite_none_right_eq_some.mp hstep
    obtain rfl := some.inj heq
    exact .inr (.inr ⟨rfl, by dsimp only; linarith, Subset.refl _⟩)

theorem Booked.step {a : BreakerAction} (h : Booked b w.entry w.now)
    (hstep : w.step b a = some w') : Booked b w'.entry w'.now := by
  obtain ⟨⟨inflight, hentry⟩, hnow, -⟩ | ⟨call, ending, -, hentry, hnow, -⟩ |
    ⟨hentry, hnow, -⟩ := step_entry hstep
  · rw [hentry, hnow]
    exact ⟨h.look.closed, h.look.past⟩
  · rw [hentry, hnow]
    exact h.record ending
  · rw [hentry]
    exact ⟨h.closed, h.past.trans hnow⟩

/-- A call that ends does not succeed. -/
def unsuccessful (_ : BreakerWorld) : BreakerAction → Bool
  | .record _ .success => false
  | _ => true

/-- The breaker is closed exactly while fewer calls in a row have failed than its threshold.
    Once it is open it lets no call in before the time to cool down is over, unless a call
    that was let in before ends in success. -/
theorem fails_fast (b : CircuitBreaker)
    (hreach : Relation.ReflTransGen (Step (step b) fun _ _ => true) {} w) :
    (w.entry.state = .closed ↔ w.entry.consecutiveFailures < max 1 b.failureThreshold) ∧
    ∀ w', Relation.ReflTransGen (Step (step b) unsuccessful) w w' → w.entry.state = .opened →
      w'.now - w.entry.openedAt < max 0 b.coolDown →
      w'.entry.state = .opened ∧ w'.running ⊆ w.running := by
  have hbooked : Booked b w.entry w.now :=
    run_induction (I := fun w => Booked b w.entry w.now) (fun h _ hstep => h.step hstep)
      ⟨iff_of_true rfl (lt_max_of_lt_left zero_lt_one), le_rfl⟩ hreach
  refine ⟨hbooked.closed, fun w' hrun hopened hearly => ?_⟩
  suffices h : w'.entry.state = .opened ∧ w'.running ⊆ w.running ∧
      w.entry.openedAt ≤ w'.entry.openedAt ∧ w.entry.openedAt ≤ w'.now from ⟨h.1, h.2.1⟩
  induction hrun with
  | refl => exact ⟨hopened, Subset.refl _, le_rfl, hbooked.past⟩
  | @tail u v _ hstep ih =>
    obtain ⟨a, hfails, hstep⟩ := hstep
    have hcases := step_entry hstep
    have hle : u.now ≤ v.now := by
      rcases hcases with h | ⟨_, _, -, -, h, -⟩ | h
      · exact h.2.1.ge
      · exact h.ge
      · exact h.2.1
    obtain ⟨hstate, hsub, hlater, hpast⟩ := ih (by linarith)
    have hlook := look_of_early (b := b) (w := u) (by linarith)
    obtain ⟨⟨inflight, hentry⟩, hnow, hnone⟩ | ⟨call, ending, rfl, hentry, hnow, hended⟩ |
      ⟨hentry, -, hkept⟩ := hcases
    · rw [hlook] at hentry hnone
      rw [hentry, hnow]
      exact ⟨hstate, fun x hx => hsub (hnone hstate hx), hlater, hpast⟩
    · have hending : ending ≠ .success := fun he => by
        rw [he] at hfails
        cases hfails
      obtain ⟨hstate', hlater'⟩ := record_opened (b := b) hending hstate hpast hlater
      rw [hentry, hnow]
      exact ⟨hstate', fun x hx => hsub (hended hx), hlater', hpast⟩
    · rw [hentry]
      exact ⟨hstate, fun x hx => hsub (hkept hx), hlater, hpast.trans hle⟩

theorem fails_fast_touchy : ∃ w, w.entry.state = .opened ∧
    ∀ w', Relation.ReflTransGen (Step (step touchy) unsuccessful) w w' →
      w'.now - w.entry.openedAt < 30 → w'.running ⊆ w.running := by
  have hplay : (play (step touchy) (fun _ _ => true) {}
      (onTrial.take 3)).any fun w => w.entry.state = .opened := by decide +kernel
  obtain ⟨w, hw, hopened⟩ := (any_eq_true _ _).mp hplay
  have hopened := of_decide_eq_true hopened
  exact ⟨w, hopened, fun w' hrun hearly =>
    ((fails_fast touchy (run_of_play hw)).2 w' hrun hopened hearly).2⟩

end BreakerWorld

end WebGis.Federation
