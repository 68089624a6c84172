/-
  Attempt fencing: a worker's write counts only while its claim is the current one.

  A claim is the move to `running`, by a worker under the attempt number of the row; a retry
  drops it. `Held` says that the columns `worker_id` and `attempt` tell the latest claim of
  the history, so a write that is conditional on them is conditional on the claim. A job that
  is completed or cancelled has no further move, which also keeps its result the one that
  the completing write brought.
-/
import WebGis.Jobs.Cancel

namespace WebGis.Jobs

open Data Conc JobStatus Option Pool JobFields

/-! ## Claims of the history -/

/-- The call is a claim of the job `k` by the worker `w`, under the attempt `a`. -/
def Claims (d : JobCall) (k : Nat) (w : String) (a : Nat) : Prop :=
  ∃ u row, d.op = .update u ∧ u.jobId = k ∧ u.target = running ∧
    u.fields.workerId = some (some w) ∧ d.before.hit u = some row ∧ row.attempt = a

/-- The latest claim of the job `k` is the worker `w`'s under the attempt `a`, and the job was
    not queued again since. -/
def LatestClaim (log : List JobCall) (k : Nat) (w : String) (a : Nat) : Prop :=
  ∃ newer d older, log = newer ++ d :: older ∧ Claims d k w a ∧
    ∀ d' ∈ newer, ¬ MovedTo d' k running ∧ ¬ MovedTo d' k queued

variable {log : List JobCall} {a k : Nat}

theorem LatestClaim.later {w : String} {d : JobCall} (h : LatestClaim log k w a)
    (hr : ¬ MovedTo d k running) (hq : ¬ MovedTo d k queued) : LatestClaim (d :: log) k w a := by
  obtain ⟨newer, c, older, rfl, hc, hrest⟩ := h
  refine ⟨d :: newer, c, older, rfl, hc, fun d' hd' => ?_⟩
  rcases List.mem_cons.mp hd' with rfl | hd'
  · exact ⟨hr, hq⟩
  · exact hrest d' hd'

theorem latestClaim_now {d : JobCall} {w : String} (h : Claims d k w a) :
    LatestClaim (d :: log) k w a :=
  ⟨[], d, log, rfl, h, fun _ hd => by cases hd⟩

/-! ## The columns tell the claim -/

/-- The claim in the columns of every row is the latest of the history, and a pending job is
    unclaimed. -/
structure Held (s : JobPast) : Prop where
  claim : ∀ {k row w}, s.state.job k = some row → row.workerId = some w →
    LatestClaim s.log k w row.attempt
  unclaimed : ∀ {k row}, s.state.job k = some row → row.status = pending → row.workerId = none

theorem Held.init : Held JobPast.init := ⟨fun h => (by cases h), fun h => (by cases h)⟩

variable {u : TransitionStmt}

/-- Only a claim writes a worker, and it leaves the attempt; only a retry writes the attempt,
    and it clears the worker. -/
theorem StoreStmt.claim_fields (h : StoreStmt u) :
    (u.target = JobStatus.running ∧ (∃ w, u.fields.workerId = some (some w)) ∧
      u.fields.attempt = none) ∨
    (u.target = JobStatus.queued ∧ u.fields.workerId = some none) ∨
    (u.target = JobStatus.queued ∧ u.allowed = [JobStatus.pending] ∧ u.fields.workerId = none) ∨
    (u.target ≠ JobStatus.running ∧ u.target ≠ JobStatus.queued ∧
      u.fields.workerId = none ∧ u.fields.attempt = none) := by
  cases h with
  | running k worker now => exact .inl ⟨rfl, ⟨worker, rfl⟩, rfl⟩
  | retry k seen now => exact .inr (.inl ⟨rfl, rfl⟩)
  | queued k celery now => exact .inr (.inr (.inl ⟨rfl, rfl, rfl⟩))
  | _ => exact .inr (.inr (.inr ⟨nofun, nofun, rfl, rfl⟩))

/-- No move leads to `pending`. -/
theorem StoreStmt.not_pending (h : StoreStmt u) : u.target ≠ JobStatus.pending := by
  cases h <;> exact nofun

variable {row : JobRow} {w : JobWorld} {o : JobOp}

/-- A call that keeps the row of `k` did not move it. -/
theorem not_movedTo {i : Nat} (hrow : w.job k = some row)
    (h : ∀ u, o = .update u → u.jobId = k → ¬ Admitted u row) (target : JobStatus) :
    ¬ MovedTo ⟨i, (), w, o⟩ k target := by
  rintro ⟨u, row', hop, hk, -, hhit⟩
  obtain ⟨hfound, hadm⟩ := hit_eq_some.mp hhit
  rw [hk, hrow] at hfound
  cases hfound
  exact h u hop hk hadm

variable {s : JobPast}

theorem Held.step (hs : Held s) (ho : StoreOp o) (i : Nat) (e : Unit) :
    Held (jobRun i e s o).1 := by
  have hfrom : ∀ {k row'}, (jobExec s.state o).1.job k = some row' →
      (s.state.job k = none ∧ Created row') ∨
        ∃ row, s.state.job k = some row ∧ RowStep o k row row' := by
    intro k row' hrow'
    cases hrow : s.state.job k with
    | none => exact .inl ⟨rfl, jobExec_new s.state o hrow hrow'⟩
    | some row =>
      obtain ⟨row2, hrow2, hstep⟩ := jobExec_row s.state o hrow
      obtain rfl : row2 = row' := some.inj (hrow2.symm.trans hrow')
      exact .inr ⟨row, rfl, hstep⟩
  refine ⟨fun {k row' w} hrow' hw => ?_, fun {k row'} hrow' hst => ?_⟩
  · rcases hfrom hrow' with ⟨-, hc⟩ | ⟨row, hrow, hstep⟩
    · rw [hc.workerId] at hw
      cases hw
    · cases hstep with
      | kept hno hk =>
        rw [hk.attempt]
        refine (hs.claim hrow (hk.workerId ▸ hw)).later ?_ ?_ <;>
          exact not_movedTo hrow hno _
      | moved u hou hk hadm heq =>
        subst hou hk heq
        have hhit := hit_eq_some.mpr ⟨hrow, hadm⟩
        rcases StoreStmt.claim_fields ho with ⟨ht, ⟨w', hw'⟩, ha⟩ | ⟨-, hnone⟩ |
          ⟨-, hpending, hkeep⟩ | ⟨hr, hq, hkeep, ha⟩
        · have hww : w' = w := by simpa [apply, hw'] using hw
          have hatt : (u.fields.apply u.target row).attempt = row.attempt := by
            simp [apply, ha]
          rw [hatt, ← hww]
          exact latestClaim_now ⟨u, row, rfl, rfl, ht, hw', hhit, rfl⟩
        · simp [apply, hnone] at hw
        · have hst : row.status = pending := by simpa [hpending] using hadm.status
          have hun := hs.unclaimed hrow hst
          simp [apply, hkeep, hun] at hw
        · have hold : row.workerId = some w := by simpa [apply, hkeep] using hw
          have hatt : (u.fields.apply u.target row).attempt = row.attempt := by
            simp [apply, ha]
          have hother : ∀ target, u.target ≠ target →
              ¬ MovedTo ⟨i, e, s.state, .update u⟩ u.jobId target := by
            rintro target hne ⟨v, row2, hv, -, ht, -⟩
            cases hv
            exact hne ht
          rw [hatt]
          exact (hs.claim hrow hold).later (hother _ hr) (hother _ hq)
  · rcases hfrom hrow' with ⟨-, hc⟩ | ⟨row, hrow, hstep⟩
    · exact hc.workerId
    cases hstep with
    | kept _ hk =>
      rw [hk.workerId]
      exact hs.unclaimed hrow (hk.status ▸ hst)
    | moved u hou _ _ heq =>
      subst hou heq
      exact absurd hst (StoreStmt.not_pending ho)

/-! ## Writes under an identity -/

/-- The identity a worker writes under, when both parts are given. -/
def Claimant.identity (c : Claimant) : Option (String × Nat) :=
  c.workerId.bind fun w => c.attempt.map fun a => (w, a)

/-- The job that a statement writes, and the identity that the write is conditional on. -/
def JobOp.identity : JobOp → Option (Nat × String × Nat)
  | .update u => u.claimant.identity.map fun p => (u.jobId, p)
  | .updateProgress k _ c _ => c.identity.map fun p => (k, p)
  | .heartbeat k c _ => c.identity.map fun p => (k, p)
  | _ => none

/-- The call changed the row of job `k`. -/
def Changes (d : JobCall) (k : Nat) : Prop := (jobExec d.before d.op).1.job k ≠ d.before.job k

theorem admits_identity {c : Claimant} {w : String} (hc : c.identity = some (w, a))
    (h : c.admits row) : row.workerId = some w ∧ row.attempt = a := by
  obtain ⟨w', hw, hrest⟩ := bind_eq_some_iff.mp hc
  obtain ⟨a', ha, he⟩ := map_eq_some_iff.mp hrest
  cases he
  simpa [Claimant.admits, hw, ha] using h

theorem changed_updateWhere {j : Nat} {cond : JobRow → Bool} {f : JobRow → JobRow}
    (hid : ∀ row, (f row).id = row.id) (h : (w.updateWhere k cond f).1.job j ≠ w.job j) :
    j = k ∧ ∃ row, w.job k = some row ∧ cond row := by
  rw [job_updateWhere hid] at h
  by_cases hj : j = k
  · subst hj
    rw [if_pos rfl] at h
    refine ⟨rfl, ?_⟩
    cases hrow : w.job j with
    | none =>
      rw [hrow] at h
      exact absurd rfl h
    | some row =>
      refine ⟨row, rfl, ?_⟩
      rw [hrow, map_some] at h
      by_contra hc
      rw [if_neg hc] at h
      exact h rfl
  · rw [if_neg hj] at h
    exact absurd rfl h

/-- A write under an identity changes its own job only, whose row carries that identity. -/
theorem identity_columns {j : Nat} {worker : String} (hid : o.identity = some (k, worker, a))
    (h : (jobExec w o).1.job j ≠ w.job j) :
    j = k ∧ ∃ row, w.job k = some row ∧ row.workerId = some worker ∧ row.attempt = a := by
  have hrow : ∀ {c : Claimant} {l : Nat} {st : List JobStatus} {f : JobRow → JobRow},
      (∀ row, (f row).id = row.id) → c.identity.map (fun p => (l, p)) = some (k, worker, a) →
      (w.updateWhere l (fun row => row.status ∈ st && c.admits row) f).1.job j ≠ w.job j →
      j = k ∧ ∃ row, w.job k = some row ∧ row.workerId = some worker ∧ row.attempt = a := by
    intro c l st f hf hc hchange
    obtain ⟨p, hp, he⟩ := map_eq_some_iff.mp hc
    cases he
    obtain ⟨rfl, row, hrow, hcond⟩ := changed_updateWhere hf hchange
    rw [Bool.and_eq_true] at hcond
    exact ⟨rfl, row, hrow, admits_identity hp hcond.2⟩
  cases o with
  | update u => exact hrow (fun _ => rfl : ∀ r, (u.fields.apply u.target r).id = r.id) hid h
  | updateProgress l p c now => exact hrow (fun _ => rfl : ∀ r, (p.apply now r).id = r.id) hid h
  | heartbeat l c now => exact hrow (fun _ => rfl : ∀ r, (JobRow.beat now r).id = r.id) hid h
  | _ => cases hid

/-- The call changes a row under an identity only while that is the current claim. -/
def Fenced (d : JobCall) (earlier : List JobCall) : Prop :=
  ∀ k w a, d.op.identity = some (k, w, a) → ∀ j, Changes d j → j = k ∧ LatestClaim earlier k w a

theorem Held.fenced (hs : Held s) (i : Nat) (e : Unit) (o : JobOp) :
    Fenced ⟨i, e, s.state, o⟩ s.log := by
  intro k w a hid j hchange
  obtain ⟨hj, row, hrow, hw, rfl⟩ := identity_columns hid hchange
  exact ⟨hj, hs.claim hrow hw⟩

/-! ## Completed jobs -/

/-- The result in a completed row came with the completing write; if that was made under an
    identity, this was the current claim. -/
def CompletedBy (log : List JobCall) (k : Nat) (row : JobRow) : Prop :=
  ∃ newer d older result ref message c now, log = newer ++ d :: older ∧
    d.op = .update (succeededStmt k result ref message c now) ∧
    row.resultSummary = result ∧ row.resultRef = (ref.filter (· ≠ "")).map (clip 512) ∧
    ∀ w a, c.identity = some (w, a) → LatestClaim older k w a

theorem CompletedBy.later {row' : JobRow} (d : JobCall) (h : CompletedBy log k row)
    (hs : row'.resultSummary = row.resultSummary) (hr : row'.resultRef = row.resultRef) :
    CompletedBy (d :: log) k row' := by
  obtain ⟨newer, c, older, result, ref, message, who, now, rfl, hop, hsum, href, hclaim⟩ := h
  exact ⟨d :: newer, c, older, result, ref, message, who, now, rfl, hop, hs.trans hsum,
    hr.trans href, hclaim⟩

theorem StoreStmt.completes (h : StoreStmt u) (ht : u.target = JobStatus.completed) :
    ∃ result ref message c now, u = succeededStmt u.jobId result ref message c now := by
  cases h with
  | succeeded k result ref message c now => exact ⟨result, ref, message, c, now, rfl⟩
  | _ => cases ht

theorem frozen_step (ho : StoreOp o) (hrow : w.job k = some row)
    (hst : row.status ∈ immutableStatuses) :
    ∃ row', (jobExec w o).1.job k = some row' ∧ row'.status = row.status ∧
      row'.resultSummary = row.resultSummary ∧ row'.resultRef = row.resultRef ∧
      row'.progress = row.progress ∧ row'.progressMessage = row.progressMessage := by
  obtain ⟨row', hrow', hstep⟩ := jobExec_row w o hrow
  refine ⟨row', hrow', ?_⟩
  cases hstep with
  | kept _ hk =>
    have hprogress := hk.progress (not_mem_activeStatuses hst)
    exact ⟨hk.status, hk.resultSummary, hk.resultRef, hprogress.1, hprogress.2⟩
  | moved u hou hk hadm heq =>
    subst hou
    exact absurd (StoreStmt.source ho hadm.status) (not_mem_sourcesFor hst u.target)

/-- What the history says of the claims, the writes and the results. -/
structure Fencing (s : JobPast) : Prop where
  held : Held s
  fenced : Always Fenced s.log
  completed : ∀ {k row}, s.state.job k = some row → row.status = completed →
    CompletedBy s.log k row

theorem Fencing.init : Fencing JobPast.init := ⟨Held.init, trivial, fun h => (by cases h)⟩

theorem Fencing.step (hs : Fencing s) (ho : StoreOp o) (i : Nat) (e : Unit) :
    Fencing (jobRun i e s o).1 where
  held := hs.held.step ho i e
  fenced := ⟨hs.held.fenced i e o, hs.fenced⟩
  completed {k row'} hrow' hst := by
    cases hrow : s.state.job k with
    | none =>
      have hnew := (jobExec_new s.state o hrow hrow').status
      rw [hnew] at hst
      cases hst
    | some row =>
      obtain ⟨row2, hrow2, hstep⟩ := jobExec_row s.state o hrow
      obtain rfl : row2 = row' := some.inj (hrow2.symm.trans hrow')
      cases hstep with
      | kept _ hk =>
        exact (hs.completed hrow (hk.status ▸ hst)).later _ hk.resultSummary hk.resultRef
      | moved u hou hk hadm heq =>
        subst hou hk heq
        obtain ⟨result, ref, message, c, now, hu⟩ := StoreStmt.completes ho hst
        refine ⟨[], _, s.log, result, ref, message, c, now, rfl, by rw [← hu], ?_, ?_, ?_⟩
        · rw [hu]
          rfl
        · rw [hu]
          rfl
        · intro w a hid
          have hclaimant : u.claimant = c := by rw [hu]; rfl
          obtain ⟨hw, rfl⟩ := admits_identity hid (hclaimant ▸ hadm.claimant)
          exact hs.held.claim hrow hw

/-- **Attempt fencing.** In every run, a write under an identity changes a row only while that
    identity is the job's current claim; the result of a completed job came with such a write,
    if it was made under an identity; and from any state that is reached on, a job that is
    completed or cancelled keeps its status, result and progress. -/
theorem attempt_fencing {α : Type} {P Q : Pool JobOp JobRes α JobPast} (hP : JobRuns noJobs P)
    (hQ : JobRuns P Q) :
    (∀ later d earlier, P.shared.log = later ++ d :: earlier → ∀ k w a,
      d.op.identity = some (k, w, a) → ∀ j, Changes d j → j = k ∧ LatestClaim earlier k w a) ∧
    (∀ k row, P.shared.state.job k = some row → row.status = completed →
      CompletedBy P.shared.log k row) ∧
    ∀ k row, P.shared.state.job k = some row → row.status ∈ immutableStatuses →
      ∃ row', Q.shared.state.job k = some row' ∧ row'.status = row.status ∧
        row'.resultSummary = row.resultSummary ∧ row'.resultRef = row.resultRef ∧
        row'.progress = row.progress ∧ row'.progressMessage = row.progressMessage := by
  obtain ⟨hfencing, huses⟩ := hP.keeps (I := Fencing) (fun i e _ _ ho _ hs => hs.step ho i e)
    (fun _ _ hp => by cases hp) Fencing.init
  refine ⟨fun later d earlier hlog => ?_, fun k row => hfencing.completed, fun k row hrow hst => ?_⟩
  · have hall := hfencing.fenced
    rw [hlog] at hall
    exact hall.split
  · -- each step keeps the columns, so they are those of `row` throughout
    refine (hQ.keeps (I := fun s => ∃ row', s.state.job k = some row' ∧
      row'.status = row.status ∧ row'.resultSummary = row.resultSummary ∧
      row'.resultRef = row.resultRef ∧ row'.progress = row.progress ∧
      row'.progressMessage = row.progressMessage) ?_ huses
      ⟨row, hrow, rfl, rfl, rfl, rfl, rfl⟩).1
    rintro i e s o ho - ⟨row1, hrow1, h1, h2, h3, h4, h5⟩
    obtain ⟨row2, hrow2, g1, g2, g3, g4, g5⟩ := frozen_step ho hrow1 (h1 ▸ hst)
    exact ⟨row2, hrow2, g1.trans h1, g2.trans h2, g3.trans h3, g4.trans h4, g5.trans h5⟩

/-- A worker falls silent, its job is retried and claimed by a second worker, the first one
    reports its result after all, and the second one completes the job. -/
def superseded : List (Pool.Move JobOp JobRes Unit Unit) :=
  solo 0 2 () (createJob 3 (some (.obj [("task", .str "ndvi")])) none).discard ++
    solo 1 2 () (markRunning 1 "host:1").discard ++
    solo 2 1 () (tick (2 * defaultStaleAfter)).discard ++
    solo 3 4 () (sweepStale defaultStaleAfter 100).discard ++
    solo 4 3 () (startRetry 1).discard ++
    solo 5 2 () (markRunning 1 "host:2").discard ++
    solo 6 3 () (markSucceeded 1 none (some "old") none ⟨some "host:1", some 1⟩).discard ++
    solo 7 2 () (markSucceeded 1 none (some "new") none ⟨some "host:2", some 2⟩).discard

theorem superseded_runs : JobRuns noJobs (play jobRun noJobs superseded) := by
  refine play_runs jobRun _ _ fun m hm p hp => ?_
  simp only [superseded, List.mem_append] at hm
  rcases hm with ((((((hm | hm) | hm) | hm) | hm) | hm) | hm) | hm <;>
    rw [starts_solo hm hp] <;> refine discard_storeOp ?_
  · exact storeOp_of_unswept (createJob_unswept _ _ _)
  · exact storeOp_of_unswept (markRunning_unswept _ _)
  · exact ⟨trivial, fun _ => trivial⟩
  · exact sweepStale_storeOp _ _
  · exact storeOp_of_unswept (startRetry_unswept _)
  · exact storeOp_of_unswept (markRunning_unswept _ _)
  · exact storeOp_of_unswept (markSucceeded_unswept _ _ _ _ _)
  · exact storeOp_of_unswept (markSucceeded_unswept _ _ _ _ _)

/-- The first worker fails once more, late. -/
def lateFailure : List (Pool.Move JobOp JobRes Unit Unit) :=
  solo 8 2 () (markFailed 1 (some "boom") none ⟨some "host:1", some 1⟩).discard

theorem lateFailure_runs (P : Pool JobOp JobRes Unit JobPast) :
    JobRuns P (play jobRun P lateFailure) := by
  refine play_runs jobRun _ _ fun m hm p hp => ?_
  rw [starts_solo hm hp]
  exact discard_storeOp (storeOp_of_unswept (markFailed_unswept _ _ _ _))

/-- What the last call of `superseded` was, and that it changed the row. -/
theorem superseded_last :
    ((play jobRun noJobs superseded).shared.log.head?.map fun d =>
      (d.op.identity, ((jobExec d.before d.op).1.job 1).map (fun row => row.status),
        (d.before.job 1).map fun row => row.status)) =
      some (some (1, "host:2", 2), some completed, some running) := by
  decide +kernel

theorem superseded_row :
    ((play jobRun noJobs superseded).shared.state.job 1).map
      (fun row => (row.status, row.resultRef)) = some (completed, some "new") := by
  decide +kernel

theorem attempt_fencing_of_superseded :
    ∃ (P Q : Pool JobOp JobRes Unit JobPast) (d : JobCall) (earlier : List JobCall)
      (row row' : JobRow), JobRuns noJobs P ∧ JobRuns P Q ∧ P.shared.log = d :: earlier ∧
      Changes d 1 ∧ LatestClaim earlier 1 "host:2" 2 ∧ P.shared.state.job 1 = some row ∧
      row.resultRef = some "new" ∧ CompletedBy P.shared.log 1 row ∧
      Q.shared.state.job 1 = some row' ∧ row'.status = completed ∧
      row'.resultRef = some "new" := by
  have hfence := attempt_fencing superseded_runs (lateFailure_runs _)
  have hlast := superseded_last
  have hrow := superseded_row
  have hruns := superseded_runs
  generalize play jobRun noJobs superseded = P at *
  obtain ⟨row, hfound, hpair⟩ := map_eq_some_iff.mp hrow
  have hst : row.status = completed := congrArg Prod.fst hpair
  have href : row.resultRef = some "new" := congrArg Prod.snd hpair
  obtain ⟨row', hrow', hst', -, href', -⟩ := hfence.2.2 1 row hfound (by rw [hst]; decide)
  cases hlog : P.shared.log with
  | nil =>
    rw [hlog] at hlast
    cases hlast
  | cons d earlier =>
    rw [hlog] at hlast
    have hd := some.inj hlast
    have hchange : Changes d 1 := by
      intro he
      have hafter := congrArg (fun p => p.2.1) hd
      have hbefore := congrArg (fun p => p.2.2) hd
      simp only [he] at hafter hbefore
      rw [hafter] at hbefore
      cases hbefore
    have hclaim := hfence.1 [] d earlier hlog 1 "host:2" 2 (congrArg Prod.fst hd) 1 hchange
    exact ⟨P, _, d, earlier, row, row', hruns, lateFailure_runs P, hlog, hchange, hclaim.2,
      hfound, href, hlog ▸ hfence.2.1 1 row hfound hst, hrow', hst'.trans hst,
      href'.trans href⟩

end WebGis.Jobs
