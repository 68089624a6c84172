/-
  What one statement of the run store can do to a run.

  For one row there are two cases (`RunStep`): an update whose condition admits it and whose
  reservation is not refused is carried out, or the row stays as it is. `effect` reads the
  update that a call carried out on a run, and none for every other call.
-/
import WebGis.Cluster.Store

namespace WebGis.Cluster

open Data Conc ClusterRunStatus Option Table RunWorld

/-! ## Writes -/

namespace RunWrite

/-- The statuses that `finish_run` lets through. -/
def Lawful : RunWrite → Prop
  | .finish _ _ status _ _ => status ∈ terminalStatuses ∨ status = preempted
  | _ => True

@[simp] theorem apply_runId (write : RunWrite) (reserved : Option Amounts) (row : RunRow) :
    (write.apply reserved row).runId = row.runId := by
  cases write <;> rfl

@[simp] theorem apply_id (write : RunWrite) (reserved : Option Amounts) (row : RunRow) :
    (write.apply reserved row).id = row.id := by
  cases write <;> rfl

@[simp] theorem apply_scopeKeys (write : RunWrite) (reserved : Option Amounts) (row : RunRow) :
    (write.apply reserved row).scopeKeys = row.scopeKeys := by
  cases write <;> rfl

/-- The epoch that a claim gives. -/
def claimEpoch : RunWrite → Option Nat
  | .claim seen _ _ _ => some (seen.leaseEpoch + 1)
  | _ => none

/-- The epoch of the lease that a finish or a reclaim ends. -/
def endEpoch : RunWrite → Option Nat
  | .finish _ epoch _ _ _ => some epoch
  | .reclaim seen _ _ _ => some seen.leaseEpoch
  | _ => none

/-- The epoch that an operation of a holder carries. -/
def carriedEpoch : RunWrite → Option Nat
  | .start epoch _ => some epoch
  | .beat epoch _ _ => some epoch
  | .finish _ epoch _ _ _ => some epoch
  | .requeue epoch => some epoch
  | _ => none

theorem apply_leaseEpoch {write : RunWrite} {row : RunRow} (h : write.admits row)
    (reserved : Option Amounts) : (write.apply reserved row).leaseEpoch =
      if write.claimEpoch.isSome then row.leaseEpoch + 1 else row.leaseEpoch := by
  cases write with
  | claim seen co ttl now =>
    simp only [admits, Bool.and_eq_true, decide_eq_true_eq] at h
    show seen.leaseEpoch + 1 = row.leaseEpoch + 1
    rw [h.1.2]
  | _ => rfl

/-- A run that has ended takes only the flag of a yield request. -/
theorem status_of_terminal {write : RunWrite} {row : RunRow} (h : write.admits row)
    (ht : row.Terminal) (reserved : Option Amounts) :
    (write.apply reserved row).status = row.status := by
  have hleased : row.status ∉ leasedStatuses := fun hl => not_terminal_of_leased hl ht
  have hdisp : row.status ∉ dispatchableStatuses := fun hd => not_terminal_of_dispatchable hd ht
  cases write with
  | requestYield seen now => rfl
  | requestCancel seen now => rfl
  | beat epoch ttl now => rfl
  | start epoch now =>
    simp only [admits, Bool.and_eq_true, decide_eq_true_eq] at h
    exact absurd (show row.status ∈ leasedStatuses by rw [h.2]; decide) hleased
  | requeue epoch =>
    simp only [admits, Bool.and_eq_true, decide_eq_true_eq] at h
    exact absurd (show row.status ∈ dispatchableStatuses by rw [h.2]; decide) hdisp
  | _ => simp_all [admits]

end RunWrite

/-! ## Updates -/

section Updates

variable {w : RunWorld} {k : String} {write : RunWrite} {ledger : Option ClusterLedger}

variable {u : Usages} {row : RunRow} {reserved : Option Amounts}

theorem hit_eq_some :
    w.hit k write ledger = some (row, u, reserved) ↔
      w.run k = some row ∧ write.admits row ∧
        write.settle w.usages ledger = .ok (u, reserved) := by
  unfold hit
  constructor
  · intro h
    split at h
    · rename_i row' u' reserved' hrow hsettle
      cases h
      obtain ⟨hget, hadm⟩ := filter_eq_some_iff.mp hrow
      exact ⟨hget, hadm, hsettle⟩
    · cases h
  · rintro ⟨hrow, hadm, hsettle⟩
    have hfilter : (w.run k).filter write.admits = some row :=
      filter_eq_some_iff.mpr ⟨hrow, hadm⟩
    rw [hfilter, hsettle]

theorem update_of_hit (h : w.hit k write ledger = some (row, u, reserved)) :
    w.update k write ledger =
      ({ w with runs := w.runs.put (write.apply reserved row), usages := u }, .done) := by
  obtain ⟨hrow, hadm, hsettle⟩ := hit_eq_some.mp h
  have hfilter : (w.run k).filter write.admits = some row :=
    filter_eq_some_iff.mpr ⟨hrow, hadm⟩
  unfold update
  rw [hfilter]
  simp only [hsettle]

theorem update_of_miss (h : w.hit k write ledger = none) :
    (w.update k write ledger).1 = w ∧ (w.update k write ledger).2 ≠ .done := by
  unfold hit at h
  unfold update
  split
  · exact ⟨rfl, WriteResult.noConfusion⟩
  rename_i row hrow
  split
  · exact ⟨rfl, WriteResult.noConfusion⟩
  · rename_i u reserved hsettle
    simp only [hrow, hsettle] at h
    cases h

theorem run_update_ne {k' : String} (h : k ≠ k') :
    (w.update k write ledger).1.run k' = w.run k' := by
  cases hhit : w.hit k write ledger with
  | none => rw [(update_of_miss hhit).1]
  | some hit =>
    obtain ⟨row, u, reserved⟩ := hit
    rw [update_of_hit hhit]
    have hkey : row.runId = k := get_key (hit_eq_some.mp hhit).1
    refine get_put_ne ?_
    rw [RunWrite.apply_runId, hkey]
    exact h

theorem run_update_self (h : w.hit k write ledger = some (row, u, reserved)) :
    (w.update k write ledger).1.run k = some (write.apply reserved row) := by
  have hrow : w.runs.get k = some row := (hit_eq_some.mp h).1
  have hkey : (write.apply reserved row).runId = k := by
    rw [RunWrite.apply_runId]
    exact get_key hrow
  rw [update_of_hit h]
  have hold : w.runs.get (write.apply reserved row).runId = some row := by
    rw [hkey]
    exact hrow
  have hself := get_put_self hold
  rw [hkey] at hself
  exact hself

end Updates

/-! ## Steps -/

/-- What the statement `o` makes of the row of the run `k`. -/
inductive RunStep (w : RunWorld) (o : RunOp) (k : String) (row : RunRow) : RunRow → Prop
  | kept : (∀ write ledger, o = .update k write ledger → w.hit k write ledger = none) →
      RunStep w o k row row
  | written {write : RunWrite} {ledger : Option ClusterLedger} {u : Usages}
      {reserved : Option Amounts} : o = .update k write ledger →
      w.hit k write ledger = some (row, u, reserved) → RunStep w o k row (write.apply reserved row)

theorem run_insertRun (w : RunWorld) (spec : RunSpec) (m n : Nat) :
    (w.insertRun spec m n).1.runs = w.runs ∨
      ∃ row, w.runs.insert [row] = some (w.insertRun spec m n).1.runs ∧ row.id = w.nextId ∧
        row.runId = spec.runId ∧ row.status = queued ∧ row.leaseEpoch = 0 ∧ row.reserved = 0 ∧
        row.yieldRequestedAt = none ∧ row.dispatchSeq = none ∧
        (w.insertRun spec m n).1.nextId = w.nextId + 1 := by
  unfold insertRun
  dsimp only
  split
  · exact .inl rfl
  split
  · exact .inl rfl
  split
  · rename_i runs hruns
    exact .inr ⟨_, hruns, rfl, rfl, rfl, rfl, rfl, rfl, rfl, rfl⟩
  · exact .inl rfl

theorem usages_insertRun (w : RunWorld) (spec : RunSpec) (m n : Nat) :
    (w.insertRun spec m n).1.usages = w.usages := by
  unfold insertRun
  split
  · rfl
  split
  · rfl
  dsimp only
  split <;> rfl

variable {row : RunRow}

/-- A run that is there is written by its own updates only. -/
theorem runExec_row (w : RunWorld) (o : RunOp) {k : String} (hrow : w.run k = some row) :
    ∃ row', (runExec w o).1.run k = some row' ∧ RunStep w o k row row' := by
  cases o with
  | update k' write ledger =>
    by_cases hk : k' = k
    · subst hk
      cases hhit : w.hit k' write ledger with
      | none =>
        refine ⟨row, ?_, .kept fun write' ledger' ho => ?_⟩
        · show (w.update k' write ledger).1.run k' = some row
          rw [(update_of_miss hhit).1, hrow]
        · cases ho
          exact hhit
      | some hit =>
        obtain ⟨row', u, reserved⟩ := hit
        have hsame : row' = row :=
          some.inj ((hit_eq_some.mp hhit).1.symm.trans hrow)
        subst hsame
        exact ⟨_, run_update_self hhit, .written rfl hhit⟩
    · refine ⟨row, ?_, .kept fun write' ledger' ho => ?_⟩
      · show (w.update k' write ledger).1.run k = some row
        rw [run_update_ne hk, hrow]
      · cases ho
        exact absurd rfl hk
  | insertRun spec m n =>
    refine ⟨row, ?_, .kept fun _ _ ho => by cases ho⟩
    show (w.insertRun spec m n).1.runs.get k = some row
    rcases run_insertRun w spec m n with h | ⟨row', hins, -⟩
    · rw [h]
      exact hrow
    · exact get_insert_some hins hrow
  | _ => exact ⟨row, hrow, .kept fun _ _ ho => by cases ho⟩

/-- A run as it is created. -/
structure Created (w : RunWorld) (k : String) (row : RunRow) : Prop where
  id : row.id = w.nextId
  runId : row.runId = k
  status : row.status = queued
  leaseEpoch : row.leaseEpoch = 0
  reserved : row.reserved = 0
  yieldRequestedAt : row.yieldRequestedAt = none
  dispatchSeq : row.dispatchSeq = none

theorem runExec_new (w : RunWorld) (o : RunOp) {k : String} (hn : w.run k = none)
    (hrow : (runExec w o).1.run k = some row) : Created w k row := by
  cases o with
  | update k' write ledger =>
    by_cases hk : k' = k
    · subst hk
      have hmiss : w.hit k' write ledger = none := by
        unfold hit
        rw [hn]
        rfl
      change (w.update k' write ledger).1.run k' = some row at hrow
      rw [(update_of_miss hmiss).1, hn] at hrow
      cases hrow
    · change (w.update k' write ledger).1.run k = some row at hrow
      rw [run_update_ne hk, hn] at hrow
      cases hrow
  | insertRun spec m n =>
    change (w.insertRun spec m n).1.runs.get k = some row at hrow
    rcases run_insertRun w spec m n with h | ⟨row', hins, h1, h2, h3, h4, h5, h6, h7, -⟩
    · rw [h] at hrow
      change w.runs.get k = none at hn
      rw [hn] at hrow
      cases hrow
    · obtain ⟨hmem, hkey⟩ := get_insert_none hins hn hrow
      rw [List.mem_singleton] at hmem
      subst hmem
      exact ⟨h1, hkey, h3, h4, h5, h6, h7⟩
  | _ =>
    change w.run k = some row at hrow
    rw [hn] at hrow
    cases hrow

/-! ## Effects of the history -/

/-- The update that the call carried out on the run `k`. -/
def effect (d : RunCall) (k : String) : Option RunWrite :=
  match d.op with
  | .update k' write ledger =>
    if k' = k then (d.before.hit k' write ledger).map fun _ => write else none
  | _ => none

theorem effect_eq_some {d : RunCall} {k : String} {write : RunWrite} :
    effect d k = some write ↔ ∃ ledger row u reserved, d.op = .update k write ledger ∧
      d.before.hit k write ledger = some (row, u, reserved) := by
  unfold effect
  constructor
  · intro h
    split at h
    · rename_i k' write' ledger hop
      split at h
      · rename_i hk
        subst hk
        obtain ⟨⟨row, u, reserved⟩, hhit, rfl⟩ := map_eq_some_iff.mp h
        exact ⟨ledger, row, u, reserved, hop, hhit⟩
      · cases h
    · cases h
  · rintro ⟨ledger, row, u, reserved, hop, hhit⟩
    rw [hop]
    simp only [if_true, hhit, map_some]

theorem run_after {w : RunWorld} {k : String} (i : Nat) (e : Unit) (o : RunOp)
    (hrow : w.run k = some row) :
    (effect ⟨i, e, w, o⟩ k = none ∧ (runExec w o).1.run k = some row) ∨
    ∃ write reserved, effect ⟨i, e, w, o⟩ k = some write ∧ write.admits row ∧
      (runExec w o).1.run k = some (write.apply reserved row) := by
  obtain ⟨row', hrow', hstep⟩ := runExec_row w o hrow
  cases hstep with
  | kept hno =>
    refine .inl ⟨?_, hrow'⟩
    by_contra hne
    obtain ⟨write, hw⟩ := ne_none_iff_exists'.mp hne
    obtain ⟨ledger, row1, u, reserved, hop, hhit⟩ := effect_eq_some.mp hw
    rw [hno write ledger hop] at hhit
    cases hhit
  | @written write ledger u reserved hop hhit =>
    refine .inr ⟨write, reserved, effect_eq_some.mpr ⟨ledger, row, u, reserved, hop, hhit⟩, ?_,
      hrow'⟩
    exact (hit_eq_some.mp hhit).2.1

theorem run_of_effect {d : RunCall} {k : String} {write : RunWrite} (h : effect d k = some write) :
    ∃ row, d.before.run k = some row ∧ write.admits row := by
  obtain ⟨ledger, row, u, reserved, hop, hhit⟩ := effect_eq_some.mp h
  obtain ⟨hrow, hadm, -⟩ := hit_eq_some.mp hhit
  exact ⟨row, hrow, hadm⟩

end WebGis.Cluster
