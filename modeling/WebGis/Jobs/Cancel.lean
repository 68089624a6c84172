/-
  What becomes of a job whose cancellation was requested.

  `Cancelled` is the invariant: such a job is being cancelled, cancelled or failed, and the
  time of the request is in its row. A worker that fails while the job is being cancelled
  leaves it failed, and a retry does not look at the time of the request. In runs whose
  retries find no such time, the job is never queued, running or completed again
  (`cancelled_never_rerun`); otherwise it may be (`rerun_of_failed_cancel`).
-/
import WebGis.Jobs.Steps

namespace WebGis.Jobs

open Data Conc JobStatus List Pool

/-! ## Moves of the history -/

/-- The call moved the job `k` to `target`. -/
def MovedTo (d : JobCall) (k : Nat) (target : JobStatus) : Prop :=
  ∃ u row, d.op = .update u ∧ u.jobId = k ∧ u.target = target ∧ d.before.hit u = some row

/-- A request to cancel the job `k` went through. -/
def CancelAccepted (k : Nat) (log : List JobCall) : Prop := ∃ d ∈ log, MovedTo d k cancelling

/-- Whether the update is that of `start_retry`. -/
def TransitionStmt.isRetry (u : TransitionStmt) : Bool :=
  u.target = queued && u.expected = some [failed, stale]

/-- A retry finds no request to cancel in the row. -/
def RetriesUncancelled (_ : Nat) (_ : Unit) (s : JobPast) : JobOp → Prop
  | .update u => ∀ row ∈ s.state.hit u, u.isRetry = true → row.cancelRequestedAt = none
  | _ => True

instance (i : Nat) (e : Unit) (s : JobPast) (o : JobOp) : Decidable (RetriesUncancelled i e s o) :=
  match o with
  | .update u => inferInstanceAs (Decidable (∀ row ∈ s.state.hit u, u.isRetry = true →
      row.cancelRequestedAt = none))
  | .utcnow | .tick _ | .insertJob _ _ _ _ | .getJob _ | .updateProgress _ _ _ _ | .heartbeat _ _ _
  | .setCeleryTaskId _ _ | .selectStale _ _ | .selectOrphans _ _ => isTrue trivial

/-! ## The invariant -/

/-- The statuses that a cancellation leads to. -/
def afterCancel : List JobStatus := [cancelling, cancelled, failed]

/-- The job is on its way out, and its row tells of the request. -/
structure Cancelled (w : JobWorld) (k : Nat) (row : JobRow) : Prop where
  found : w.job k = some row
  status : row.status ∈ afterCancel
  requested : row.cancelRequestedAt.isSome = true

/-- Every job whose cancellation was accepted is on its way out, now and at every call since. -/
structure Cancellations (s : JobPast) : Prop where
  now : ∀ k, CancelAccepted k s.log → ∃ row, Cancelled s.state k row
  since : Always (fun d earlier => ∀ k, CancelAccepted k earlier → ∃ row, Cancelled d.before k row)
    s.log

variable {u : TransitionStmt}

theorem StoreStmt.cancelling_fields (h : StoreStmt u) (ht : u.target = JobStatus.cancelling)
    (row : JobRow) : (u.fields.apply u.target row).cancelRequestedAt.isSome := by
  cases h <;> first | rfl | cases ht

theorem StoreStmt.keeps_request (h : StoreStmt u) (hc : u.target ≠ JobStatus.cancelling)
    (hq : u.target ≠ JobStatus.queued) : u.fields.cancelRequestedAt = none := by
  cases h <;> first | rfl | exact absurd rfl hc | exact absurd rfl hq

/-- A job is queued from `pending`, or by a retry. -/
theorem StoreStmt.queued_or_retry (h : StoreStmt u) (ht : u.target = JobStatus.queued) :
    u.allowed = [JobStatus.pending] ∨ u.isRetry := by
  cases h <;> first | exact .inl rfl | exact .inr rfl | cases ht

theorem Cancelled.moved {w w' : JobWorld} {k : Nat} {row : JobRow} (h : Cancelled w k row)
    (hu : StoreStmt u) (hadm : Admitted u row)
    (hretry : u.isRetry → row.cancelRequestedAt = none)
    (hfound : w'.job k = some (u.fields.apply u.target row)) :
    Cancelled w' k (u.fields.apply u.target row) := by
  have hnext : ∀ st ∈ afterCancel, ∀ t ∈ allowedTransitions st, t = cancelled ∨ t = failed ∨
      t = queued := by decide
  have hmove : u.target ∈ allowedTransitions row.status := mem_sourcesFor.mp (hu.source hadm.status)
  have hstay : u.target ∈ afterCancel → u.target ≠ cancelling → u.target ≠ queued →
      Cancelled w' k (u.fields.apply u.target row) := by
    intro hmem hc hq
    have hkeep := hu.keeps_request hc hq
    refine ⟨hfound, hmem, ?_⟩
    show (u.fields.cancelRequestedAt.getD row.cancelRequestedAt).isSome
    rw [hkeep]
    exact h.requested
  rcases hnext _ h.status _ hmove with ht | ht | ht
  · exact hstay (by rw [ht]; decide) (by rw [ht]; decide) (by rw [ht]; decide)
  · exact hstay (by rw [ht]; decide) (by rw [ht]; decide) (by rw [ht]; decide)
  · -- the job was put on the way out, so it is not pending and its request is in the row
    rcases hu.queued_or_retry ht with hpending | hret
    · have hst : row.status = pending := by simpa [hpending] using hadm.status
      have hout := h.status
      rw [hst] at hout
      exact absurd hout (by decide)
    · have hreq := h.requested
      rw [hretry hret] at hreq
      cases hreq

theorem Cancellations.init : Cancellations JobPast.init where
  now k := by
    rintro ⟨d, hd, -⟩
    cases hd
  since := trivial

theorem Cancellations.step {s : JobPast} {o : JobOp} (hs : Cancellations s) (ho : StoreOp o)
    (i : Nat) (e : Unit) (hg : RetriesUncancelled i e s o) : Cancellations (jobRun i e s o).1 where
  since := ⟨hs.now, hs.since⟩
  now k := by
    rintro ⟨d, hd, hmoved⟩
    rcases mem_cons.mp hd with rfl | hd
    · obtain ⟨u, row, rfl, rfl, ht, hhit⟩ := hmoved
      refine ⟨_, jobExec_hit hhit, ?_, StoreStmt.cancelling_fields ho ht row⟩
      show u.target ∈ afterCancel
      rw [ht]
      decide
    · obtain ⟨row, hc⟩ := hs.now k ⟨d, hd, hmoved⟩
      obtain ⟨row', hrow', hstep⟩ := jobExec_row s.state o hc.found
      refine ⟨row', ?_⟩
      cases hstep with
      | kept _ hk => exact ⟨hrow', hk.status ▸ hc.status, hk.cancelRequestedAt ▸ hc.requested⟩
      | moved u hou hk hadm heq =>
        subst hou hk heq
        exact hc.moved ho hadm (hg row (hit_eq_some.mpr ⟨hc.found, hadm⟩)) hrow'

/-! ## Runs -/

/-- **A cancelled job is not run again** in any run whose retries find no request to cancel:
    from the request on, its status is never queued, running or completed. -/
theorem cancelled_never_rerun {α : Type} {Q : Pool JobOp JobRes α JobPast}
    (h : Pool.Runs jobRun (Prog.Uses StoreOp) RetriesUncancelled noJobs Q)
    {newer older : List JobCall} {d : JobCall} {k : Nat}
    (hlog : Q.shared.log = newer ++ d :: older) (hd : MovedTo d k cancelling) :
    ∀ w ∈ Q.shared.state :: newer.map Call.before, ∃ row, w.job k = some row ∧
      row.status ≠ queued ∧ row.status ≠ running ∧ row.status ≠ completed := by
  have hinv : Cancellations Q.shared :=
    (h.keeps (fun i e _ _ ho hg hs => hs.step ho i e hg) (fun _ _ hp => by cases hp) .init).1
  have hout : ∀ {w row}, Cancelled w k row → row.status ≠ queued ∧ row.status ≠ running ∧
      row.status ≠ completed := by
    intro w row hc
    have hno : ∀ st ∈ afterCancel, st ≠ queued ∧ st ≠ running ∧ st ≠ completed := by decide
    exact hno _ hc.status
  intro w hw
  rcases mem_cons.mp hw with rfl | hw
  · obtain ⟨row, hc⟩ := hinv.now k ⟨d, by rw [hlog]; simp, hd⟩
    exact ⟨row, hc.found, hout hc⟩
  · obtain ⟨c, hc, rfl⟩ := mem_map.mp hw
    obtain ⟨front, rest, rfl⟩ := append_of_mem hc
    have hsince := hinv.since
    rw [hlog, append_assoc, cons_append] at hsince
    obtain ⟨row, hrow⟩ := hsince.split k ⟨d, by simp, hd⟩
    exact ⟨row, hrow.found, hout hrow⟩

/-- A job is created, claimed by a worker and asked to cancel. -/
def cancelRequested : List (Pool.Move JobOp JobRes Unit Unit) :=
  Pool.solo 0 2 () (createJob 3 (some (.obj [("task", .str "ndvi")])) none).discard ++
    Pool.solo 1 2 () (markRunning 1 "host:1").discard ++
    Pool.solo 2 3 () (requestCancel 1).discard

/-- The worker confirms. -/
def cancelConfirmed : List (Pool.Move JobOp JobRes Unit Unit) :=
  cancelRequested ++
    Pool.solo 3 2 () (confirmCancelled 1 none ⟨some "host:1", some 1⟩).discard

/-- The worker fails instead, and the job is retried. -/
def failedAndRetried : List (Pool.Move JobOp JobRes Unit Unit) :=
  cancelRequested ++
    Pool.solo 3 2 () (markFailed 1 (some "boom") none ⟨some "host:1", some 1⟩).discard ++
    Pool.solo 4 3 () (startRetry 1).discard

theorem discard_storeOp {α : Type} {p : JobProgram α} (h : p.Uses StoreOp) :
    Prog.Uses StoreOp p.discard := Prog.uses_bind h fun _ => trivial

theorem cancelRequested_starts {m : Pool.Move JobOp JobRes Unit Unit} (hm : m ∈ cancelRequested)
    {p : JobProgram Unit} (hp : m.starts = some p) : p.Uses StoreOp := by
  simp only [cancelRequested, mem_append] at hm
  rcases hm with (hm | hm) | hm <;> rw [starts_solo hm hp]
  · exact discard_storeOp (storeOp_of_unswept (createJob_unswept _ _ _))
  · exact discard_storeOp (storeOp_of_unswept (markRunning_unswept _ _))
  · exact discard_storeOp (storeOp_of_unswept (requestCancel_unswept _))

/-- Whether the call moved the job to `cancelling`. -/
def requestsCancel (k : Nat) (d : JobCall) : Bool :=
  match d.op with
  | .update u => u.jobId = k && u.target = cancelling && (d.before.hit u).isSome
  | _ => false

theorem movedTo_of_requestsCancel {k : Nat} {d : JobCall} (h : requestsCancel k d) :
    MovedTo d k cancelling := by
  unfold requestsCancel at h
  split at h
  · rename_i u hop
    simp only [Bool.and_eq_true, decide_eq_true_eq] at h
    obtain ⟨row, hrow⟩ := Option.isSome_iff_exists.mp h.2
    exact ⟨u, row, hop, h.1.1, h.1.2, hrow⟩
  · cases h

theorem cancelled_never_rerun_of_confirmed :
    ∃ (Q : Pool JobOp JobRes Unit JobPast) (newer older : List JobCall) (d : JobCall),
      Pool.Runs jobRun (Prog.Uses StoreOp) RetriesUncancelled noJobs Q ∧
      Q.shared.log = newer ++ d :: older ∧ MovedTo d 1 cancelling ∧
      ∀ w ∈ Q.shared.state :: newer.map Call.before, ∃ row, w.job 1 = some row ∧
        row.status ≠ queued ∧ row.status ≠ running ∧ row.status ≠ completed := by
  have hrun : Pool.Runs jobRun (Prog.Uses StoreOp) RetriesUncancelled noJobs
      (Pool.play jobRun noJobs cancelConfirmed) := by
    refine Pool.play_guarded jobRun _ _ (fun m hm p hp => ?_) (respects_sound jobRun ?_)
    · rcases mem_append.mp hm with hm | hm
      · exact cancelRequested_starts hm hp
      · rw [starts_solo hm hp]
        exact discard_storeOp (storeOp_of_unswept (confirmCancelled_unswept _ _ _))
    · decide +kernel
  have hreq : ((Pool.play jobRun noJobs cancelConfirmed).shared.log.any (requestsCancel 1)) = true := by
    decide +kernel
  obtain ⟨d, hd, hd'⟩ := List.any_eq_true.mp hreq
  obtain ⟨newer, older, hlog⟩ := append_of_mem hd
  have hmoved := movedTo_of_requestsCancel hd'
  exact ⟨_, newer, older, d, hrun, hlog, hmoved, cancelled_never_rerun hrun hlog hmoved⟩

/-- A worker that fails while its job is being cancelled lets a retry queue the job again. -/
theorem rerun_of_failed_cancel :
    ¬ ∀ Q : Pool JobOp JobRes Unit JobPast, JobRuns noJobs Q →
      ∀ newer d older k, Q.shared.log = newer ++ d :: older → MovedTo d k cancelling →
        ∀ w ∈ Q.shared.state :: newer.map Call.before, ∃ row, w.job k = some row ∧
          row.status ≠ queued ∧ row.status ≠ running ∧ row.status ≠ completed := by
  intro hclaim
  have hrun : JobRuns noJobs (Pool.play jobRun noJobs failedAndRetried) := by
    refine play_runs jobRun _ _ fun m hm p hp => ?_
    simp only [failedAndRetried, mem_append] at hm
    rcases hm with (hm | hm) | hm
    · exact cancelRequested_starts hm hp
    · rw [starts_solo hm hp]
      exact discard_storeOp (storeOp_of_unswept (markFailed_unswept _ _ _ _))
    · rw [starts_solo hm hp]
      exact discard_storeOp (storeOp_of_unswept (startRetry_unswept _))
  have hreq : ((Pool.play jobRun noJobs failedAndRetried).shared.log.any (requestsCancel 1)) = true := by
    decide +kernel
  have hqueued : ((Pool.play jobRun noJobs failedAndRetried).shared.state.job 1).map
      (fun row => row.status) = some queued := by
    decide +kernel
  obtain ⟨d, hd, hd'⟩ := List.any_eq_true.mp hreq
  obtain ⟨newer, older, hlog⟩ := append_of_mem hd
  obtain ⟨row, hrow, hne, -⟩ := hclaim _ hrun newer d older 1 hlog (movedTo_of_requestsCancel hd')
    _ mem_cons_self
  rw [hrow] at hqueued
  exact hne (Option.some.inj hqueued)

end WebGis.Jobs
