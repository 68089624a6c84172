/-
  What a cancelled session still starts.

  `cancel_session` releases what is live, takes the waiters of the session from the channels and
  records the cancellation last. A call that waits for a semaphore or a heavy slot, or has been
  granted its channel, is not told, and returns its reservation later (`granted_starts`). Where at
  the record no call of the session is on its way to a reservation, none returns one before the
  session is closed (`nothing_starts`).
-/
import WebGis.Governor.Admission
import WebGis.Data.Play

namespace WebGis.Governor

open Data Dict AdmissionWorld

namespace CallPhase

/-- The call may come to a reservation by itself. -/
def onItsWay : CallPhase → Bool
  | decided => true
  | entering _ => true
  | heavyWait _ => true
  | inside _ => true
  | queued _ => true
  | granted _ => true
  | ticketed _ => true
  | _ => false

/-- `admit_and_reserve` has returned a reservation that is live. -/
def returned : CallPhase → Bool
  | holding _ => true
  | _ => false

end CallPhase

namespace AdmissionWorld

variable {cfg : GovernorConfig} {w w' : AdmissionWorld} {k : Nat} {c : AdmitCall}

/-- What a call becomes, where decisions are enforced. -/
structure Becomes (phase phase' : CallPhase) : Prop where
  way : phase'.onItsWay = true → phase.onItsWay = true
  returned : phase'.returned = true → phase.returned = true ∨ phase.onItsWay = true

variable {phase : CallPhase}

theorem Becomes.rfl : Becomes phase phase := ⟨id, .inl⟩

variable {phase' : CallPhase}

theorem becomes_of_way (h : phase.onItsWay) :
    Becomes phase phase' := ⟨fun _ => h, fun _ => .inr h⟩

theorem becomes_off (h : phase'.onItsWay = false) (h' : phase'.returned = false) :
    Becomes phase phase' := by
  refine ⟨fun hway => ?_, fun hreturned => ?_⟩
  · rw [h] at hway
    cases hway
  · rw [h'] at hreturned
    cases hreturned

theorem outcome_enforce (hmode : cfg.mode = .enforce) (timedOut : Bool) :
    outcome cfg timedOut = .done := by
  refine if_neg fun h => ?_
  rw [hmode] at h
  cases h.1

@[simp] theorem gateFor_calls (key : String) : (gateFor cfg w key).1.calls = w.calls := by
  unfold gateFor
  split <;> rfl

@[simp] theorem gateFor_cancelled (key : String) :
    (gateFor cfg w key).1.cancelled = w.cancelled := by
  unfold gateFor
  split <;> rfl

/-- One call goes from one phase to another, and no record changes. -/
structure CallStepped (w w' : AdmissionWorld) (k : Nat) (c : AdmitCall) (phase : CallPhase) :
    Prop where
  calls : w'.calls = w.calls.set k (c.moved phase)
  cancelled : w'.cancelled = w.cancelled
  becomes : Becomes c.phase phase

theorem leaveGate_stepped (hmode : cfg.mode = .enforce) (g : Nat) (timedOut : Bool) :
    ∃ phase, CallStepped w (leaveGate cfg w k c g timedOut) k c phase := by
  unfold leaveGate
  split
  · exact ⟨_, rfl, rfl, becomes_off rfl rfl⟩
  · rw [outcome_enforce hmode]
    exact ⟨_, rfl, rfl, becomes_off rfl rfl⟩

theorem giveUp_stepped (hmode : cfg.mode = .enforce) {timedOut : Bool}
    (hstep : giveUp cfg w k c timedOut = some w') : ∃ phase, CallStepped w w' k c phase := by
  unfold giveUp at hstep
  rw [outcome_enforce hmode] at hstep
  split at hstep
  · cases hstep
    exact ⟨_, rfl, rfl, becomes_off rfl rfl⟩
  · cases hstep
    exact ⟨_, rfl, rfl, becomes_off rfl rfl⟩
  · cases hstep
    exact leaveGate_stepped hmode _ _
  · cases hstep
    exact leaveGate_stepped hmode _ _
  · cases hstep
    exact leaveGate_stepped hmode _ _
  · cases hstep

theorem act_stepped (hmode : cfg.mode = .enforce) {s : CallStep}
    (hstep : act cfg w k c s = some w') : ∃ phase, CallStepped w w' k c phase := by
  cases s with
  | look =>
    rw [act] at hstep
    split at hstep
    · rename_i hphase
      cases hstep
      refine ⟨.entering (gateFor cfg w c.key).2, ?_, gateFor_cancelled _,
        becomes_of_way (by rw [hphase]; rfl)⟩
      exact congrArg (fun d : Dict Nat AdmitCall => d.set k _) (gateFor_calls _)
    · cases hstep
  | takeSem =>
    rw [act] at hstep
    split at hstep
    · rename_i hphase
      split at hstep
      · split at hstep
        · cases hstep
          exact ⟨_, rfl, rfl, becomes_of_way (by rw [hphase]; rfl)⟩
        · cases hstep
          exact ⟨_, rfl, rfl, becomes_of_way (by rw [hphase]; rfl)⟩
      · cases hstep
    · cases hstep
  | takeHeavy =>
    rw [act] at hstep
    split at hstep
    · rename_i hphase
      split at hstep
      · cases hstep
        exact ⟨_, rfl, rfl, becomes_of_way (by rw [hphase]; rfl)⟩
      · cases hstep
    · cases hstep
  | ask free =>
    rw [act] at hstep
    split at hstep
    · rename_i hphase
      split at hstep
      · cases hstep
        exact ⟨_, rfl, rfl, becomes_of_way (by rw [hphase]; rfl)⟩
      · cases hstep
        exact ⟨_, rfl, rfl, becomes_of_way (by rw [hphase]; rfl)⟩
    · cases hstep
  | grant =>
    rw [act] at hstep
    split at hstep
    · rename_i hphase
      cases hstep
      exact ⟨_, rfl, rfl, becomes_of_way (by rw [hphase]; rfl)⟩
    · cases hstep
  | resume =>
    rw [act] at hstep
    split at hstep
    · rename_i hphase
      cases hstep
      exact ⟨_, rfl, rfl, becomes_of_way (by rw [hphase]; rfl)⟩
    · cases hstep
      exact leaveGate_stepped hmode _ _
    · cases hstep
  | timeout => exact giveUp_stepped hmode hstep
  | fail =>
    rw [act] at hstep
    split at hstep
    · cases hstep
      exact ⟨_, rfl, rfl, becomes_off rfl rfl⟩
    · cases hstep
      exact leaveGate_stepped hmode _ _
    · cases hstep
      exact ⟨_, rfl, rfl, becomes_off rfl rfl⟩
    · exact giveUp_stepped hmode hstep
  | leave =>
    rw [act] at hstep
    split at hstep
    · cases hstep
      rw [outcome_enforce hmode]
      exact ⟨_, rfl, rfl, becomes_off rfl rfl⟩
    · cases hstep
  | register =>
    rw [act] at hstep
    split at hstep
    · rename_i hphase
      cases hstep
      exact ⟨_, rfl, rfl, becomes_of_way (by rw [hphase]; rfl)⟩
    · cases hstep
  | complete =>
    rw [act] at hstep
    split at hstep
    · cases hstep
      exact ⟨_, rfl, rfl, becomes_off rfl rfl⟩
    · cases hstep
  | lookUp =>
    rw [act] at hstep
    split at hstep
    · cases hstep
      unfold lookUp
      split
      · exact ⟨_, rfl, rfl, becomes_off rfl rfl⟩
      · split
        · exact ⟨_, rfl, rfl, becomes_off rfl rfl⟩
        · exact ⟨_, rfl, rfl, becomes_off rfl rfl⟩
    · cases hstep
  | giveBack =>
    rw [act] at hstep
    split at hstep
    · cases hstep
      exact ⟨_, rfl, rfl, becomes_off rfl rfl⟩
    · cases hstep

theorem becomes_releaseOne (sessionId : String) (c : AdmitCall) :
    (releaseOne sessionId c).sessionId = c.sessionId ∧
      Becomes c.phase (releaseOne sessionId c).phase := by
  unfold releaseOne
  split
  · split
    · exact ⟨rfl, becomes_off rfl rfl⟩
    · exact ⟨rfl, Becomes.rfl⟩
  · exact ⟨rfl, Becomes.rfl⟩

theorem becomes_dismissOne (sessionId : String) (channel : ChannelName) (c : AdmitCall) :
    (dismissOne sessionId channel c).sessionId = c.sessionId ∧
      Becomes c.phase (dismissOne sessionId channel c).phase := by
  unfold dismissOne
  split
  · split
    · exact ⟨rfl, becomes_off rfl rfl⟩
    · exact ⟨rfl, Becomes.rfl⟩
  · exact ⟨rfl, Becomes.rfl⟩

/-- A call after a step was there before, or is new and not of a cancelled session. -/
def Comes (w : AdmissionWorld) (k : Nat) (c' : AdmitCall) : Prop :=
  (∃ c, w.calls.find k = some c ∧ c'.sessionId = c.sessionId ∧ Becomes c.phase c'.phase) ∨
    (c'.phase.returned = false ∧
      (c'.phase.onItsWay = true → c'.sessionId = "" ∨ c'.sessionId ∉ w.cancelled))

variable {c' : AdmitCall}

theorem comes_of_map {f : AdmitCall → AdmitCall}
    (hf : ∀ c, (f c).sessionId = c.sessionId ∧ Becomes c.phase (f c).phase)
    (hfind : (mapValues f w.calls).find k = some c') : Comes w k c' := by
  rw [find_mapValues, Option.map_eq_some_iff] at hfind
  obtain ⟨c, hfind, rfl⟩ := hfind
  exact .inl ⟨c, hfind, hf c⟩

theorem comes_self (hfind : w.calls.find k = some c) : Comes w k c :=
  .inl ⟨c, hfind, rfl, Becomes.rfl⟩

variable {a : AdmissionAction}

theorem step_comes (hmode : cfg.mode = .enforce) (hstep : w.step cfg a = some w') {k : Nat}
    (hfind : w'.calls.find k = some c') : Comes w k c' := by
  cases a with
  | admitAndReserve k₀ sessionId resourceClass allowed =>
    rw [step] at hstep
    split at hstep
    · cases hstep
    split at hstep
    · cases hstep
      change (w.calls.set k₀ _).find k = some c' at hfind
      rw [find_set] at hfind
      split at hfind
      · cases hfind
        exact .inr ⟨rfl, fun h => Bool.noConfusion h⟩
      · exact comes_self hfind
    · rename_i hfree
      split at hstep
      · cases hstep
        change (w.calls.set k₀ _).find k = some c' at hfind
        rw [find_set] at hfind
        split at hfind
        · cases hfind
          exact .inr ⟨rfl, fun _ => or_iff_not_imp_left.mpr fun hid hmem => hfree ⟨hid, hmem⟩⟩
        · exact comes_self hfind
      · cases hstep
        change (w.calls.set k₀ _).find k = some c' at hfind
        rw [find_set] at hfind
        split at hfind
        · cases hfind
          exact .inr ⟨rfl, fun h => Bool.noConfusion h⟩
        · exact comes_self hfind
  | call k₀ s =>
    rw [step] at hstep
    split at hstep
    · cases hstep
    rename_i c hcall
    obtain ⟨phase, hcalls, -, hbecomes⟩ := act_stepped hmode hstep
    rw [hcalls, find_set] at hfind
    split at hfind
    · rename_i hk
      cases hfind
      exact .inl ⟨c, hk ▸ hcall, rfl, hbecomes⟩
    · exact comes_self hfind
  | cancelSession run sessionId =>
    rw [step, endSession] at hstep
    split at hstep
    · cases hstep
    cases hstep
    exact comes_of_map (becomes_releaseOne sessionId) hfind
  | closeSession run sessionId =>
    rw [step, endSession] at hstep
    split at hstep
    · cases hstep
    cases hstep
    exact comes_of_map (becomes_releaseOne sessionId) hfind
  | goOn run s =>
    rw [step] at hstep
    split at hstep
    · cases hstep
    rename_i e hend
    unfold finish at hstep
    split at hstep
    · rename_i sessionId channel left
      cases hstep
      exact comes_of_map (becomes_dismissOne sessionId channel) hfind
    · cases hstep
      exact comes_self hfind
    · cases hstep
      exact comes_self hfind
    · cases hstep
      exact comes_self hfind
    · cases hstep

/-- The session whose cancellation is about to be recorded. -/
def recorded : SessionEnd → Option String
  | .cancelling sessionId [] => some sessionId
  | _ => none

/-- No call of the session is on its way. -/
def stopped (w : AdmissionWorld) (sessionId : String) : Bool :=
  w.calls.items.all fun kv => kv.2.sessionId = sessionId → kv.2.phase.onItsWay = false

/-- A cancellation is recorded when no call of the session is on its way. -/
def late (w : AdmissionWorld) : AdmissionAction → Bool
  | .goOn run .record => ((w.ends.find run).bind recorded).all fun s => s ≠ "" ∧ w.stopped s
  | _ => true

theorem cancelled_of_step (hmode : cfg.mode = .enforce) (hlate : w.late a)
    (hstep : w.step cfg a = some w') {sessionId : String} (h : sessionId ∈ w'.cancelled) :
    sessionId ∈ w.cancelled ∨ (sessionId ≠ "" ∧ w.stopped sessionId = true ∧ w'.calls = w.calls) := by
  cases a with
  | admitAndReserve k₀ s resourceClass allowed =>
    rw [step] at hstep
    split at hstep
    · cases hstep
    split at hstep
    · cases hstep
      exact .inl h
    · split at hstep
      · cases hstep
        exact .inl h
      · cases hstep
        exact .inl h
  | call k₀ s =>
    rw [step] at hstep
    split at hstep
    · cases hstep
    obtain ⟨phase, -, hcancelled, -⟩ := act_stepped hmode hstep
    exact .inl (hcancelled ▸ h)
  | cancelSession run s =>
    rw [step, endSession] at hstep
    split at hstep
    · cases hstep
    cases hstep
    exact .inl h
  | closeSession run s =>
    rw [step, endSession] at hstep
    split at hstep
    · cases hstep
    cases hstep
    exact .inl h
  | goOn run s =>
    rw [step] at hstep
    split at hstep
    · cases hstep
    rename_i e hend
    unfold finish at hstep
    split at hstep
    · cases hstep
      exact .inl h
    · rename_i s
      cases hstep
      rw [late, hend] at hlate
      obtain ⟨hid, hstopped⟩ := of_decide_eq_true hlate
      split at h
      · exact .inl h
      rcases List.mem_cons.mp h with rfl | h
      · exact .inr ⟨hid, hstopped, rfl⟩
      · exact .inl h
    · cases hstep
      exact .inl (List.mem_of_mem_filter h)
    · cases hstep
      exact .inl h
    · cases hstep

/-- No call of a cancelled session is on its way. -/
def Stopped (w : AdmissionWorld) : Prop :=
  ∀ s ∈ w.cancelled, s ≠ "" ∧ ∀ k c, w.calls.find k = some c → c.sessionId = s →
    c.phase.onItsWay = false

theorem Stopped.step (hs : Stopped w) (hmode : cfg.mode = .enforce) (hlate : w.late a)
    (hstep : w.step cfg a = some w') : Stopped w' := by
  intro s hcancelled
  rcases cancelled_of_step hmode hlate hstep hcancelled with hold | ⟨hid, hstopped, hcalls⟩
  · obtain ⟨hid, hoff⟩ := hs s hold
    refine ⟨hid, fun k c' hfind hsession => ?_⟩
    by_contra hway
    rw [Bool.not_eq_false] at hway
    rcases step_comes hmode hstep hfind with ⟨c, hfind₀, hsame, hbecomes⟩ | ⟨-, hnew⟩
    · have hoff := hoff k c hfind₀ (hsame.symm.trans hsession)
      rw [hbecomes.way hway] at hoff
      cases hoff
    · rw [hsession] at hnew
      exact (hnew hway).elim hid fun h => h hold
  · refine ⟨hid, fun k c hfind hsession => ?_⟩
    rw [hcalls] at hfind
    rw [stopped, List.all_eq_true] at hstopped
    exact of_decide_eq_true (hstopped (k, c) (find_eq_some.mp hfind)) hsession

/-- A step after which a call has returned a reservation that it had not returned before. -/
def Returns (w w' : AdmissionWorld) (sessionId : String) : Prop :=
  ∃ k c', w'.calls.find k = some c' ∧ c'.sessionId = sessionId ∧ c'.phase.returned = true ∧
    ∀ c, w.calls.find k = some c → c.phase.returned = false

/-- Between the end of `cancel_session` and the close of the session no call of it returns a
    reservation. -/
def NothingStarts (cfg : GovernorConfig) (w : AdmissionWorld) : Prop :=
  ∀ a w', w.step cfg a = some w' → ∀ s ∈ w.cancelled, ¬ Returns w w' s

/-- In every run in which a cancellation is recorded when no call of the session is on its way to
    a reservation, a cancelled session starts nothing. -/
theorem nothing_starts (cfg : GovernorConfig) (hmode : cfg.mode = .enforce)
    (hrun : Relation.ReflTransGen (Step (step cfg) late) {} w) : NothingStarts cfg w := by
  have hs : Stopped w :=
    run_induction (fun hs hlate hstep => Stopped.step hs hmode hlate hstep)
      (fun _ h => absurd h List.not_mem_nil) hrun
  rintro a w' hstep s hcancelled ⟨k, c', hfind, hsession, hreturned, hbefore⟩
  rcases step_comes hmode hstep hfind with ⟨c, hfind₀, hsame, hbecomes⟩ | ⟨hnot, -⟩
  · have hoff := (hs s hcancelled).2 k c hfind₀ (hsame.symm.trans hsession)
    rcases hbecomes.returned hreturned with h | h
    · rw [hbefore c hfind₀] at h
      cases h
    · rw [hoff] at h
      cases h
  · rw [hnot] at hreturned
    cases hreturned

/-- A call up to its grant, and a cancellation of its session. -/
def cancelledAt (first : List AdmissionAction) : List AdmissionAction :=
  [.admitAndReserve 1 "s" .raster true, .call 1 .look, .call 1 .takeSem] ++ first ++
    [.cancelSession 7 "s"] ++ List.replicate 6 (.goOn 7 .sweep) ++ [.goOn 7 .record]

/-- An enforcing governor with one slot a session. -/
def enforcing : GovernorConfig := ⟨.enforce, 1, 1, Nat.le_refl 1, Nat.le_refl 1⟩

/-- A call that was granted its channel goes on after the session was cancelled. -/
theorem granted_starts : ¬ ∀ cfg w, cfg.mode = .enforce →
    Relation.ReflTransGen (Step (step cfg) fun _ _ => true) {} w → NothingStarts cfg w := by
  intro hall
  obtain ⟨w, hw⟩ : ∃ w, play (step enforcing) (fun _ _ => true) {}
      (cancelledAt [.call 1 (.ask false), .call 1 .grant] ++ [.call 1 .resume]) = some w :=
    ⟨_, rfl⟩
  have hnothing := hall enforcing w rfl (run_of_play hw)
  obtain ⟨w', hstep⟩ : ∃ w', w.step enforcing (.call 1 .register) = some w' := by
    cases hw
    exact ⟨_, rfl⟩
  refine hnothing _ w' hstep "s" ?_ ?_
  · cases hw
    decide
  · cases hw
    cases hstep
    exact ⟨1, _, rfl, rfl, rfl, fun c hc => by cases hc; rfl⟩

theorem dismissed_stopped : ∃ w, play (step enforcing) late {}
    (cancelledAt [.call 1 (.ask false)] ++ [.call 1 .resume]) = some w ∧
      NothingStarts enforcing w := by
  obtain ⟨w, hw⟩ : ∃ w, play (step enforcing) late {}
      (cancelledAt [.call 1 (.ask false)] ++ [.call 1 .resume]) = some w := ⟨_, rfl⟩
  exact ⟨w, hw, nothing_starts _ rfl (run_of_play hw)⟩

end AdmissionWorld

end WebGis.Governor
