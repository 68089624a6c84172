/-
  What one statement of the job store can do to a row.

  `StoreOp` lists the updates that the operations send, and every operation keeps to them.
  For one row there are then two cases (`RowStep`): a transition whose guard admits the row
  is carried out, or the row keeps its status, claim and result.
-/
import WebGis.Jobs.Store

namespace WebGis.Jobs

open Data Conc JobStatus Option Prog

/-! ## The statements of the operations -/

/-- The transitions that the operations send. -/
inductive StoreStmt : TransitionStmt → Prop
  | queued (k : Nat) (celery : Option String) (now : Nat) : StoreStmt (queuedStmt k celery now)
  | running (k : Nat) (worker : String) (now : Nat) : StoreStmt (runningStmt k worker now)
  | succeeded (k : Nat) (result : Option Json) (ref message : Option String) (c : Claimant)
      (now : Nat) : StoreStmt (succeededStmt k result ref message c now)
  | failed (k : Nat) (error message : Option String) (c : Claimant) (now : Nat) :
      StoreStmt (failedStmt k error message c now)
  | cancelling (k now : Nat) : StoreStmt (cancellingStmt k now)
  | cancelled (k : Nat) (message : Option String) (c : Claimant) (now : Nat) :
      StoreStmt (cancelledStmt k message c now)
  | stale (k now : Nat) : StoreStmt (staleStmt k now)
  | orphaned (k now : Nat) : StoreStmt (orphanedStmt k now)
  | retry (k : Nat) (seen : JobRow) (now : Nat) : StoreStmt (retryStmt k seen now)

/-- The statements of the store: every one but a transition that no operation sends. -/
def StoreOp : JobOp → Prop
  | .update u => StoreStmt u
  | _ => True

/-- Whether the update is one of a sweep's: a move to `stale`, or the failure of a job that
    was never picked up. -/
def TransitionStmt.bySweep (u : TransitionStmt) : Bool :=
  u.target = stale || (u.target = failed && u.expected = some [pending, queued])

/-- The statements of the store without the updates of the sweeps. -/
def Unswept : JobOp → Prop
  | .update u => StoreStmt u ∧ u.bySweep = false
  | _ => True

theorem Unswept.storeOp {o : JobOp} (h : Unswept o) : StoreOp o := by
  cases o with
  | update u => exact h.1
  | _ => exact h

theorem storeOp_of_unswept {α : Type} {p : JobProgram α} (h : p.Uses Unswept) : p.Uses StoreOp :=
  h.mono fun _ ho => ho.storeOp

section Operations

variable {α : Type}

theorem utcnow_unswept : utcnow.Uses Unswept := ⟨trivial, fun _ => trivial⟩

variable {u : TransitionStmt}

theorem transition_unswept (h : StoreStmt u) (hsweep : u.bySweep = false) :
    (transition u).Uses Unswept := ⟨⟨h, hsweep⟩, fun _ => trivial⟩

theorem utcnow_storeOp : utcnow.Uses StoreOp := storeOp_of_unswept utcnow_unswept

theorem transition_storeOp (h : StoreStmt u) : (transition u).Uses StoreOp := ⟨h, fun _ => trivial⟩

theorem statusAndStartedAt_unswept (k : Nat) : (statusAndStartedAt k).Uses Unswept := by
  refine ⟨trivial, fun found => ?_⟩
  cases found <;> trivial

theorem createJob_unswept (m : Nat) (spec : Option Json) (celery : Option String) :
    (createJob m spec celery).Uses Unswept := ⟨trivial, fun _ => ⟨trivial, fun _ => trivial⟩⟩

section

variable (k : Nat)
include k

theorem markQueued_unswept (celery : Option String) :
    (markQueued k celery).Uses Unswept :=
  uses_bind utcnow_unswept fun now => transition_unswept (.queued k celery now) rfl

theorem markRunning_unswept (worker : String) : (markRunning k worker).Uses Unswept :=
  uses_bind utcnow_unswept fun now => transition_unswept (.running k worker now) rfl

theorem confirmCancelled_unswept (message : Option String) (c : Claimant) :
    (confirmCancelled k message c).Uses Unswept :=
  uses_bind utcnow_unswept fun now => transition_unswept (.cancelled k message c now) rfl

theorem markFailed_unswept (error message : Option String) (c : Claimant) :
    (markFailed k error message c).Uses Unswept :=
  uses_bind utcnow_unswept fun now => transition_unswept (.failed k error message c now) rfl

theorem markSucceeded_unswept (result : Option Json) (ref message : Option String)
    (c : Claimant) : (markSucceeded k result ref message c).Uses Unswept := by
  refine uses_bind utcnow_unswept fun now => ?_
  refine uses_bind (transition_unswept (.succeeded k result ref message c now) rfl) fun ok => ?_
  split
  · trivial
  refine uses_bind (statusAndStartedAt_unswept k) fun current => ?_
  split
  · exact uses_bind (confirmCancelled_unswept k _ c) fun _ =>
      uses_bind (statusAndStartedAt_unswept k) fun _ => trivial
  · trivial

theorem requestCancel_unswept : (requestCancel k).Uses Unswept := by
  refine uses_bind utcnow_unswept fun now => ?_
  refine uses_bind (transition_unswept (.cancelling k now) rfl) fun changed => ?_
  refine uses_bind (statusAndStartedAt_unswept k) fun current => ?_
  split
  · refine uses_bind (confirmCancelled_unswept k _ _) fun confirmed => ?_
    split <;> trivial
  · trivial

theorem updateProgress_unswept (p : JobProgress) (c : Claimant) :
    (updateProgress k p c).Uses Unswept := ⟨trivial, fun _ => ⟨trivial, fun _ => trivial⟩⟩

theorem heartbeat_unswept (c : Claimant) : (heartbeat k c).Uses Unswept :=
  ⟨trivial, fun _ => ⟨trivial, fun _ => trivial⟩⟩

theorem attachCeleryTask_unswept (t : String) : (attachCeleryTask k t).Uses Unswept := by
  unfold attachCeleryTask
  split
  · trivial
  · exact ⟨trivial, fun _ => trivial⟩

theorem startRetry_unswept : (startRetry k).Uses Unswept := by
  refine ⟨trivial, fun found => ?_⟩
  cases found with
  | none => trivial
  | some job =>
    dsimp only [Prog.bind]
    split
    · trivial
    exact uses_bind utcnow_unswept fun now =>
      uses_bind (transition_unswept (.retry k job now) rfl) fun ok => trivial

end

theorem sweepStale_storeOp (staleAfter limit : Nat) : (sweepStale staleAfter limit).Uses StoreOp := by
  refine uses_bind utcnow_storeOp fun now => ⟨trivial, fun jobs => ?_⟩
  refine uses_foldEach fun swept job _ => ?_
  unfold sweepStaleJob
  split
  · exact uses_bind (storeOp_of_unswept (confirmCancelled_unswept _ _ _)) fun ok => trivial
  · exact uses_bind utcnow_storeOp fun now =>
      uses_bind (transition_storeOp (.stale _ now)) fun ok => trivial

theorem sweepOrphans_storeOp (after limit : Nat) : (sweepOrphans after limit).Uses StoreOp := by
  refine uses_bind utcnow_storeOp fun now => ⟨trivial, fun jobs => ?_⟩
  refine uses_foldEach fun swept job _ => ?_
  exact uses_bind utcnow_storeOp fun now =>
    uses_bind (transition_storeOp (.orphaned _ now)) fun ok => trivial

end Operations

variable {u : TransitionStmt}

theorem StoreStmt.source (h : StoreStmt u) {st : JobStatus} (hst : st ∈ u.allowed) :
    st ∈ sourcesFor u.target := by
  cases h with
  | queued k celery now =>
    rw [List.mem_singleton.mp hst]
    show pending ∈ sourcesFor JobStatus.queued
    decide
  | orphaned k now =>
    have hsources : ∀ s ∈ [JobStatus.pending, JobStatus.queued], s ∈ sourcesFor JobStatus.failed := by decide
    exact hsources st hst
  | retry k seen now =>
    have hsources : ∀ s ∈ [JobStatus.failed, JobStatus.stale], s ∈ sourcesFor JobStatus.queued := by decide
    exact hsources st hst
  | _ => exact hst

/-! ## One row -/

/-- What a statement leaves of a row when it carries out no transition of it. -/
structure Kept (row row' : JobRow) : Prop where
  status : row'.status = row.status
  attempt : row'.attempt = row.attempt
  workerId : row'.workerId = row.workerId
  cancelRequestedAt : row'.cancelRequestedAt = row.cancelRequestedAt
  resultSummary : row'.resultSummary = row.resultSummary
  resultRef : row'.resultRef = row.resultRef
  progress : row.status ∉ activeStatuses → row'.progress = row.progress ∧
    row'.progressMessage = row.progressMessage

theorem Kept.refl (row : JobRow) : Kept row row :=
  ⟨rfl, rfl, rfl, rfl, rfl, rfl, fun _ => ⟨rfl, rfl⟩⟩

/-- The transition `u` finds `row`, whose status and claim it admits. -/
structure Admitted (u : TransitionStmt) (row : JobRow) : Prop where
  status : row.status ∈ u.allowed
  claimant : u.claimant.admits row = true

variable {w : JobWorld} {row : JobRow}

theorem hit_eq_some : w.hit u = some row ↔ w.job u.jobId = some row ∧ Admitted u row := by
  rw [JobWorld.hit, filter_eq_some_iff, Bool.and_eq_true, decide_eq_true_eq]
  exact and_congr_right fun _ => ⟨fun h => ⟨h.1, h.2⟩, fun h => ⟨h.status, h.claimant⟩⟩

/-- What the statement `o` makes of the row of job `k`. -/
inductive RowStep (o : JobOp) (k : Nat) (row row' : JobRow) : Prop
  | moved (u : TransitionStmt) (ho : o = .update u) (hk : u.jobId = k) (hadm : Admitted u row)
      (heq : row' = u.fields.apply u.target row)
  | kept (hno : ∀ u, o = .update u → u.jobId = k → ¬ Admitted u row) (h : Kept row row')

/-- A row as `create` writes it. -/
structure Created (row : JobRow) : Prop where
  status : row.status = pending
  attempt : row.attempt = 1
  workerId : row.workerId = none
  cancelRequestedAt : row.cancelRequestedAt = none

variable {f : JobRow → JobRow} {cond : JobRow → Bool} {k : Nat}

theorem job_updateWhere (hid : ∀ row, (f row).id = row.id) (j : Nat) :
    (w.updateWhere k cond f).1.job j =
      if j = k then (w.job k).map fun row => if cond row then f row else row else w.job j := by
  unfold JobWorld.updateWhere
  cases hrow : w.job k with
  | none =>
    by_cases hj : j = k
    · rw [if_pos hj, hj]
      exact hrow
    · rw [if_neg hj]
  | some row =>
    have hkey : row.id = k := Table.get_key hrow
    dsimp only
    split
    · rename_i hc
      have hf : (f row).id = k := (hid row).trans hkey
      have hfound : w.jobs.get (f row).id = some row := by rw [hf]; exact hrow
      show (w.jobs.put (f row)).get j = _
      rw [Table.get_put hfound, hf]
      by_cases hj : j = k
      · rw [if_pos hj.symm, if_pos hj, map_some, if_pos hc]
      rw [if_neg (Ne.symm hj), if_neg hj]
      rfl
    · rename_i hc
      by_cases hj : j = k
      · rw [if_pos hj, hj, map_some, if_neg hc]
        exact hrow
      · rw [if_neg hj]

theorem kept_updateWhere {j : Nat} (hid : ∀ row, (f row).id = row.id)
    (hf : ∀ row, cond row → Kept row (f row)) (hrow : w.job j = some row) :
    ∃ row', (w.updateWhere k cond f).1.job j = some row' ∧ Kept row row' := by
  rw [job_updateWhere hid]
  by_cases hj : j = k
  · subst hj
    rw [if_pos rfl, hrow, map_some]
    refine ⟨_, rfl, ?_⟩
    split
    · rename_i hc
      exact hf row hc
    · exact Kept.refl row
  · rw [if_neg hj]
    exact ⟨row, hrow, Kept.refl row⟩

theorem insertJob_job {m : Nat} {spec : Option Json} {celery : Option String} {now : Nat}
    (hrow : w.job k = some row) : (w.insertJob m spec celery now).1.job k = some row := by
  unfold JobWorld.insertJob
  dsimp only
  split
  · rename_i jobs hins
    exact Table.get_insert_some hins hrow
  · exact hrow

theorem kept_progress (row : JobRow) (p : JobProgress) (now : Nat)
    (hst : row.status ∈ activeStatuses) : Kept row (p.apply now row) :=
  ⟨rfl, rfl, rfl, rfl, rfl, rfl, fun hno => absurd hst hno⟩

theorem kept_beat (row : JobRow) (now : Nat) : Kept row (row.beat now) :=
  ⟨rfl, rfl, rfl, rfl, rfl, rfl, fun _ => ⟨rfl, rfl⟩⟩

theorem kept_attach (row : JobRow) (t : String) : Kept row (row.attach t) :=
  ⟨rfl, rfl, rfl, rfl, rfl, rfl, fun _ => ⟨rfl, rfl⟩⟩

theorem jobExec_row (w : JobWorld) (o : JobOp) (hrow : w.job k = some row) :
    ∃ row', (jobExec w o).1.job k = some row' ∧ RowStep o k row row' := by
  have hkept : (∀ u, o ≠ .update u) →
      (∃ row', (jobExec w o).1.job k = some row' ∧ Kept row row') →
      ∃ row', (jobExec w o).1.job k = some row' ∧ RowStep o k row row' := by
    rintro hno ⟨row', hrow', h⟩
    exact ⟨row', hrow', .kept (fun u hu => absurd hu (hno u)) h⟩
  cases o with
  | update u =>
    show ∃ row', (w.updateWhere u.jobId _ _).1.job k = some row' ∧ _
    have hid : ∀ r, (u.fields.apply u.target r).id = r.id := fun _ => rfl
    rw [job_updateWhere hid]
    by_cases hk : k = u.jobId
    · rw [if_pos hk, ← hk, hrow, map_some]
      refine ⟨_, rfl, ?_⟩
      split
      · rename_i hc
        rw [Bool.and_eq_true, decide_eq_true_eq] at hc
        exact .moved u rfl hk.symm ⟨hc.1, hc.2⟩ rfl
      · rename_i hc
        refine .kept (fun v hv _ hadm => hc ?_) (Kept.refl row)
        cases hv
        rw [Bool.and_eq_true, decide_eq_true_eq]
        exact ⟨hadm.status, hadm.claimant⟩
    · rw [if_neg hk]
      refine ⟨row, hrow, .kept (fun v hv hvk _ => ?_) (Kept.refl row)⟩
      cases hv
      exact hk hvk.symm
  | updateProgress j p c now =>
    have hid : ∀ r, (p.apply now r).id = r.id := fun _ => rfl
    refine hkept (fun _ => JobOp.noConfusion) (kept_updateWhere hid (fun r hc => ?_) hrow)
    rw [Bool.and_eq_true, decide_eq_true_eq] at hc
    exact kept_progress r p now hc.1
  | heartbeat j c now =>
    have hid : ∀ r, (JobRow.beat now r).id = r.id := fun _ => rfl
    exact hkept (fun _ => JobOp.noConfusion)
      (kept_updateWhere hid (fun r _ => kept_beat r now) hrow)
  | setCeleryTaskId j t =>
    have hid : ∀ r, (JobRow.attach t r).id = r.id := fun _ => rfl
    exact hkept (fun _ => JobOp.noConfusion)
      (kept_updateWhere hid (fun r _ => kept_attach r t) hrow)
  | insertJob m spec celery now => exact ⟨row, insertJob_job hrow, .kept (fun _ => JobOp.noConfusion) (Kept.refl row)⟩
  | _ => exact ⟨row, hrow, .kept (fun _ => JobOp.noConfusion) (Kept.refl row)⟩

theorem jobExec_hit (h : w.hit u = some row) :
    (jobExec w (.update u)).1.job u.jobId = some (u.fields.apply u.target row) := by
  obtain ⟨hrow, hadm⟩ := hit_eq_some.mp h
  have hid : ∀ r, (u.fields.apply u.target r).id = r.id := fun _ => rfl
  have hcond : (decide (row.status ∈ u.allowed) && u.claimant.admits row) := by
    simp [hadm.status, hadm.claimant]
  show (w.updateWhere u.jobId _ _).1.job u.jobId = _
  rw [job_updateWhere hid, if_pos rfl, hrow, map_some, if_pos hcond]

theorem jobExec_new (w : JobWorld) (o : JobOp) (hn : w.job k = none)
    (hrow : (jobExec w o).1.job k = some row) : Created row := by
  have hno : ∀ {f : JobRow → JobRow} {j : Nat} {cond : JobRow → Bool},
      (∀ row, (f row).id = row.id) → (w.updateWhere j cond f).1.job k ≠ some row := by
    intro f j cond hid hsome
    rw [job_updateWhere hid] at hsome
    by_cases hk : k = j
    · rw [if_pos hk, ← hk, hn] at hsome
      cases hsome
    · rw [if_neg hk, hn] at hsome
      cases hsome
  cases o with
  | update u => exact absurd hrow (hno fun _ => rfl)
  | updateProgress j p c now => exact absurd hrow (hno fun _ => rfl)
  | heartbeat j c now => exact absurd hrow (hno fun _ => rfl)
  | setCeleryTaskId j t => exact absurd hrow (hno fun _ => rfl)
  | insertJob m spec celery now =>
    change (w.insertJob m spec celery now).1.job k = some row at hrow
    unfold JobWorld.insertJob at hrow
    dsimp only at hrow
    split at hrow
    · rename_i jobs hins
      obtain ⟨hmem, -⟩ := Table.get_insert_none hins hn hrow
      rw [List.mem_singleton.mp hmem]
      exact ⟨rfl, rfl, rfl, rfl⟩
    · rw [hn] at hrow
      cases hrow
  | _ =>
    have hsame : w.job k = some row := hrow
    rw [hn] at hsame
    cases hsame

/-! ## Runs -/

/-- `Q` is reached from `P` by programs made of the operations of the store. -/
abbrev JobRuns {α : Type} (P Q : Pool JobOp JobRes α JobPast) : Prop :=
  Pool.Runs jobRun (Prog.Uses StoreOp) Pool.free P Q

/-- The pool before any job. -/
def noJobs {α : Type} : Pool JobOp JobRes α JobPast := ⟨JobPast.init, []⟩

end WebGis.Jobs
