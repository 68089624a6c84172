/-
  The lease of a run, as the history tells it, and its fencing.

  `leaseOf` folds the updates that were carried out on a run into the epoch of its latest
  claim and what became of that lease. `Matches` is the invariant: the row of the run says the
  same. A holder that carries an epoch is let through only while that epoch's lease is held;
  the one operation that needs an ended lease is the requeue after a preemption
  (`run_lease_fencing`, `requeue_after_lease`).

  `reclaim_expired` lists the expired leases and takes them back one by one; the update looks
  at the epoch and the status, which a heartbeat leaves alone. A lease that is still the one
  that was listed has expired (`reclaim_spares_renewed`); one that was renewed in between is
  taken back all the same (`renewed_lease_reclaimed`).
-/
import WebGis.Cluster.Clients

namespace WebGis.Cluster

open Data Conc ClusterRunStatus List Option RunWrite Pool RunPast

/-! ## Leases of the history -/

/-- What became of a lease: it is held, it was given up by a preemption that was not requeued
    yet, or it is over. -/
inductive LeaseStage where
  | over | held | preempted
  deriving DecidableEq, Repr

/-- The epoch of the latest claim of a run, and how that lease stands. -/
structure Lease where
  epoch : Nat := 0
  stage : LeaseStage := .over
  deriving DecidableEq, Repr

/-- A lease after an update of its run. -/
def Lease.after (l : Lease) : RunWrite → Lease
  | .claim seen _ _ _ => ⟨seen.leaseEpoch + 1, .held⟩
  | .finish seen _ status _ _ =>
    { l with stage := if finishStatus seen status = preempted then .preempted else .over }
  | .requeue _ => { l with stage := .over }
  | .reclaim _ _ _ _ => { l with stage := .over }
  | .cancel _ _ => { l with stage := .over }
  | _ => l

/-- The lease of the run `k` after the calls of the log. -/
def leaseOf (k : String) : List RunCall → Lease
  | [] => {}
  | d :: earlier =>
    match effect d k with
    | some write => (leaseOf k earlier).after write
    | none => leaseOf k earlier

/-- The epoch that the call's claim of the run `k` gave. -/
def claimedEpoch (d : RunCall) (k : String) : Option Nat := (effect d k).bind claimEpoch

/-- The epoch whose lease of the run `k` the call finished or reclaimed. -/
def endedEpoch (d : RunCall) (k : String) : Option Nat := (effect d k).bind endEpoch

theorem Lease.after_epoch (l : Lease) (write : RunWrite) :
    (l.after write).epoch = write.claimEpoch.getD l.epoch := by
  cases write <;> rfl

theorem leaseOf_cons_some {d : RunCall} {k : String} {write : RunWrite}
    (h : effect d k = some write) (earlier : List RunCall) :
    leaseOf k (d :: earlier) = (leaseOf k earlier).after write := by
  rw [leaseOf, h]

theorem leaseOf_cons_none {d : RunCall} {k : String} (h : effect d k = none)
    (earlier : List RunCall) : leaseOf k (d :: earlier) = leaseOf k earlier := by
  rw [leaseOf, h]

/-! ## Rows and leases -/

/-- The row says of the lease what the history says. -/
structure Matches (row : RunRow) (l : Lease) : Prop where
  epoch : row.leaseEpoch = l.epoch
  held : row.Leased ↔ l.stage = .held
  preempted : row.status = .preempted ↔ l.stage = .preempted

variable {w : RunWorld}

theorem Matches.created {k : String} {row : RunRow} (h : Created w k row) : Matches row {} where
  epoch := h.leaseEpoch
  held := by
    unfold RunRow.Leased
    rw [h.status]
    decide
  preempted := by
    rw [h.status]
    decide

theorem Matches.apply {row : RunRow} {l : Lease} {write : RunWrite} (h : Matches row l)
    (hlawful : write.Lawful) (hadm : write.admits row) (reserved : Option Amounts) :
    Matches (write.apply reserved row) (l.after write) := by
  have hepoch : (write.apply reserved row).leaseEpoch = (l.after write).epoch := by
    rw [apply_leaseEpoch hadm, Lease.after_epoch]
    cases write with
    | claim seen co ttl now =>
      simp only [RunWrite.admits, Bool.and_eq_true, decide_eq_true_eq] at hadm
      show row.leaseEpoch + 1 = seen.leaseEpoch + 1
      rw [hadm.1.2]
    | _ => exact h.epoch
  refine ⟨hepoch, ?_, ?_⟩
  · cases hend : write.endEpoch with
    | some e =>
      have hno : ¬ (write.apply reserved row).Leased :=
        not_leased_of_end hlawful (by rw [hend]; rfl) reserved row
      refine iff_of_false hno ?_
      cases write with
      | finish seen epoch status errorCode now =>
        show (if _ then LeaseStage.preempted else .over) ≠ .held
        split <;> decide
      | reclaim => exact LeaseStage.noConfusion
      | _ => cases hend
    | none =>
      cases hclaim : write.claimEpoch with
      | some e =>
        cases write with
        | claim => exact iff_of_true (show leased ∈ leasedStatuses by decide) rfl
        | _ => cases hclaim
      | none =>
        rw [leased_iff_of_plain hadm hclaim hend, h.held]
        cases write with
        | claim => cases hclaim
        | finish => cases hend
        | reclaim => cases hend
        | requeue epoch =>
          simp only [RunWrite.admits, Bool.and_eq_true, decide_eq_true_eq] at hadm
          have hstage := h.preempted.mp hadm.2
          exact iff_of_false (by rw [hstage]; decide) LeaseStage.noConfusion
        | cancel seen now =>
          simp only [RunWrite.admits, Bool.and_eq_true, decide_eq_true_eq] at hadm
          have hno : l.stage ≠ .held := fun hs =>
            not_leased_of_dispatchable hadm.2 (h.held.mpr hs)
          exact iff_of_false hno LeaseStage.noConfusion
        | _ => exact Iff.rfl
  · cases write with
    | claim => exact iff_of_false ClusterRunStatus.noConfusion LeaseStage.noConfusion
    | start epoch now =>
      simp only [RunWrite.admits, Bool.and_eq_true, decide_eq_true_eq] at hadm
      have hstage : l.stage = .held := by
        refine h.held.mp ?_
        unfold RunRow.Leased
        rw [hadm.2]
        decide
      refine iff_of_false ClusterRunStatus.noConfusion ?_
      show l.stage ≠ .preempted
      rw [hstage]
      decide
    | finish seen epoch status errorCode now =>
      show finishStatus seen status = .preempted ↔ (if _ then _ else _) = _
      by_cases hst : finishStatus seen status = .preempted
      · rw [if_pos hst]
        exact iff_of_true hst rfl
      · rw [if_neg hst]
        exact iff_of_false hst LeaseStage.noConfusion
    | requeue => exact iff_of_false ClusterRunStatus.noConfusion LeaseStage.noConfusion
    | reclaim seen now maxAttempts forced =>
      refine iff_of_false ?_ LeaseStage.noConfusion
      show (if _ then failed else queued) ≠ .preempted
      split <;> decide
    | cancel => exact iff_of_false ClusterRunStatus.noConfusion LeaseStage.noConfusion
    | _ => exact h.preempted

/-! ## Fencing -/

/-- The stage in which a holder's operation finds the lease. -/
def RunWrite.neededStage : RunWrite → LeaseStage
  | .requeue _ => .preempted
  | _ => .held

/-- What is promised of one call and the calls before it. -/
structure Fenced (k : String) (c : RunCall) (earlier : List RunCall) : Prop where
  claimed : ∀ e, claimedEpoch c k = some e →
    ∀ d ∈ earlier, ∀ e', claimedEpoch d k = some e' → e' < e
  carried : ∀ write e, effect c k = some write → write.carriedEpoch = some e →
    leaseOf k earlier = ⟨e, write.neededStage⟩
  ended : ∀ e, endedEpoch c k = some e → ∀ d ∈ earlier, endedEpoch d k ≠ some e

/-- A run that has ended in the first state has the same status in the second. -/
def EndKept (k : String) (w w' : RunWorld) : Prop :=
  ∀ row, w.run k = some row → row.Terminal →
    ∃ row', w'.run k = some row' ∧ row'.status = row.status

theorem endKept_runExec {k : String} {w' : RunWorld} (h : EndKept k w w') (o : RunOp) :
    EndKept k w (runExec w' o).1 := by
  intro row hrow hterm
  obtain ⟨row', hrow', hst⟩ := h row hrow hterm
  have hterm' : row'.Terminal := by
    unfold RunRow.Terminal
    rw [hst]
    exact hterm
  rcases run_after 0 () o hrow' with ⟨-, hafter⟩ | ⟨write, res, -, hadm, hafter⟩
  · exact ⟨row', hafter, hst⟩
  · exact ⟨_, hafter, (status_of_terminal hadm hterm' res).trans hst⟩

/-- What the history says of the leases. -/
structure Leases (s : RunPast) : Prop where
  row : ∀ {k row}, s.state.run k = some row → Matches row (leaseOf k s.log)
  missing : ∀ {k}, s.state.run k = none → leaseOf k s.log = {}
  claims : ∀ {k d e}, d ∈ s.log → claimedEpoch d k = some e → e ≤ (leaseOf k s.log).epoch
  ends : ∀ {k d e}, d ∈ s.log → endedEpoch d k = some e → e ≤ (leaseOf k s.log).epoch ∧
    ((leaseOf k s.log).stage = .held → e ≠ (leaseOf k s.log).epoch)
  fenced : Always (fun c earlier => ∀ k, Fenced k c earlier) s.log
  kept : ∀ k, s.states.Pairwise fun w' w => EndKept k w w'

theorem Leases.init : Leases init where
  row h := by cases h
  missing _ := rfl
  claims h := by cases h
  ends h := by cases h
  fenced := trivial
  kept _ := pairwise_singleton _ _

section Step

variable {s : RunPast} {o : RunOp} (hs : Leases s) (ho : LawfulOp o) (i : Nat) (e : Unit)
  {k : String} {write : RunWrite}

include hs

theorem Leases.found (heff : effect ⟨i, e, s.state, o⟩ k = some write) :
    ∃ row, s.state.run k = some row ∧ write.admits row ∧ Matches row (leaseOf k s.log) := by
  obtain ⟨row, hrow, hadm⟩ := run_of_effect heff
  exact ⟨row, hrow, hadm, hs.row hrow⟩

variable {epoch : Nat}

theorem Leases.carried (heff : effect ⟨i, e, s.state, o⟩ k = some write)
    (hc : write.carriedEpoch = some epoch) : leaseOf k s.log = ⟨epoch, write.neededStage⟩ := by
  obtain ⟨row, -, hadm, hm⟩ := hs.found i e heff
  have hlease : row.leaseEpoch = epoch → (leaseOf k s.log).stage = write.neededStage →
      leaseOf k s.log = ⟨epoch, write.neededStage⟩ := by
    intro hep hst
    rw [← hep, hm.epoch, ← hst]
  cases write with
  | start epoch' now =>
    cases hc
    simp only [RunWrite.admits, Bool.and_eq_true, decide_eq_true_eq] at hadm
    refine hlease hadm.1 (hm.held.mp ?_)
    unfold RunRow.Leased
    rw [hadm.2]
    decide
  | beat epoch' ttl now =>
    cases hc
    simp only [RunWrite.admits, Bool.and_eq_true, decide_eq_true_eq] at hadm
    exact hlease hadm.1 (hm.held.mp hadm.2)
  | finish seen epoch' status errorCode now =>
    cases hc
    simp only [RunWrite.admits, Bool.and_eq_true, decide_eq_true_eq] at hadm
    exact hlease hadm.1.2 (hm.held.mp hadm.2)
  | requeue epoch' =>
    cases hc
    simp only [RunWrite.admits, Bool.and_eq_true, decide_eq_true_eq] at hadm
    exact hlease hadm.1 (hm.preempted.mp hadm.2)
  | _ => cases hc

theorem Leases.ending (heff : effect ⟨i, e, s.state, o⟩ k = some write)
    (hend : write.endEpoch = some epoch) : leaseOf k s.log = ⟨epoch, .held⟩ := by
  cases write with
  | finish seen epoch' status errorCode now =>
    cases hend
    exact hs.carried i e heff rfl
  | reclaim seen now maxAttempts forced =>
    cases hend
    obtain ⟨row, -, hadm, hm⟩ := hs.found i e heff
    simp only [RunWrite.admits, Bool.and_eq_true, decide_eq_true_eq] at hadm
    have hstage := hm.held.mp hadm.1.2
    rw [← hadm.2, hm.epoch, ← hstage]
  | _ => cases hend

theorem Leases.fencedStep (k : String) : Fenced k ⟨i, e, s.state, o⟩ s.log where
  claimed epoch hclaim d hd epoch' hd' := by
    obtain ⟨write, heff, hw⟩ := bind_eq_some_iff.mp hclaim
    have hle := hs.claims hd hd'
    obtain ⟨row, -, hadm, hm⟩ := hs.found i e heff
    cases write with
    | claim seen co ttl now =>
      cases hw
      simp only [RunWrite.admits, Bool.and_eq_true, decide_eq_true_eq] at hadm
      have hep : seen.leaseEpoch = (leaseOf k s.log).epoch := hadm.1.2.symm.trans hm.epoch
      omega
    | _ => cases hw
  carried write epoch heff hc := hs.carried i e heff hc
  ended epoch hend d hd hd' := by
    obtain ⟨write, heff, hw⟩ := bind_eq_some_iff.mp hend
    have hlease := hs.ending i e heff hw
    have hne := (hs.ends hd hd').2 (by rw [hlease])
    rw [hlease] at hne
    exact hne rfl

theorem Leases.epochs {d : RunCall} (hd : d ∈ (runRun i e s o).1.log) :
    (claimedEpoch d k = some epoch → epoch ≤ (leaseOf k (runRun i e s o).1.log).epoch) ∧
    (endedEpoch d k = some epoch → epoch ≤ (leaseOf k (runRun i e s o).1.log).epoch ∧
      ((leaseOf k (runRun i e s o).1.log).stage = .held →
        epoch ≠ (leaseOf k (runRun i e s o).1.log).epoch)) := by
  rw [traced_log] at hd ⊢
  cases heff : effect ⟨i, e, s.state, o⟩ k with
  | none =>
    rw [leaseOf_cons_none heff]
    rcases mem_cons.mp hd with rfl | hd
    · simp [claimedEpoch, endedEpoch, heff]
    · exact ⟨hs.claims hd, hs.ends hd⟩
  | some write =>
    rw [leaseOf_cons_some heff]
    obtain ⟨row, -, hadm, hm⟩ := hs.found i e heff
    have hclaims : ∀ c, write.claimEpoch = some c → (leaseOf k s.log).epoch < c := by
      intro c hc
      cases write with
      | claim seen co ttl now =>
        cases hc
        simp only [RunWrite.admits, Bool.and_eq_true, decide_eq_true_eq] at hadm
        have hep : seen.leaseEpoch = (leaseOf k s.log).epoch := hadm.1.2.symm.trans hm.epoch
        omega
      | _ => cases hc
    rcases mem_cons.mp hd with rfl | hd
    · refine ⟨fun hc => ?_, fun hend => ?_⟩
      · have hw : write.claimEpoch = some epoch := by simpa [claimedEpoch, heff] using hc
        rw [Lease.after_epoch, hw]
        exact le_refl _
      · have hw : write.endEpoch = some epoch := by simpa [endedEpoch, heff] using hend
        have hlease := hs.ending i e heff hw
        cases write with
        | finish seen epoch' status errorCode now =>
          refine ⟨by simp [Lease.after, hlease], fun hheld => ?_⟩
          simp only [Lease.after] at hheld
          split at hheld <;> cases hheld
        | reclaim seen now maxAttempts forced =>
          exact ⟨by simp [Lease.after, hlease], fun hheld => by cases hheld⟩
        | _ => cases hw
    · cases hw : write.claimEpoch with
      | some c =>
        have hlt := hclaims c hw
        have hep : ((leaseOf k s.log).after write).epoch = c := by
          rw [Lease.after_epoch, hw]
          rfl
        rw [hep]
        refine ⟨fun hc => ?_, fun hend => ?_⟩
        · have hle := hs.claims hd hc
          omega
        · have hle := (hs.ends hd hend).1
          exact ⟨by omega, fun _ => by omega⟩
      | none =>
        have hep : ((leaseOf k s.log).after write).epoch = (leaseOf k s.log).epoch := by
          rw [Lease.after_epoch, hw]
          rfl
        rw [hep]
        refine ⟨hs.claims hd, fun hend => ⟨(hs.ends hd hend).1, fun hheld => ?_⟩⟩
        refine (hs.ends hd hend).2 ?_
        cases write with
        | claim => cases hw
        | finish seen epoch' status errorCode now =>
          simp only [Lease.after] at hheld
          split at hheld <;> cases hheld
        | requeue => cases hheld
        | reclaim => cases hheld
        | cancel => cases hheld
        | _ => exact hheld

include ho

theorem Leases.rowStep {row' : RunRow} (hrow' : (runRun i e s o).1.state.run k = some row') :
    Matches row' (leaseOf k (runRun i e s o).1.log) := by
  rw [traced_log]
  cases hrow : s.state.run k with
  | none =>
    have heff : effect ⟨i, e, s.state, o⟩ k = none := by
      by_contra hne
      obtain ⟨write, hw⟩ := ne_none_iff_exists'.mp hne
      obtain ⟨row, hrow2, -⟩ := run_of_effect hw
      rw [hrow] at hrow2
      cases hrow2
    rw [leaseOf_cons_none heff, hs.missing hrow]
    exact Matches.created (runExec_new s.state o hrow hrow')
  | some row =>
    rcases run_after i e o hrow with ⟨heff, hafter⟩ | ⟨write, res, heff, hadm, hafter⟩
    · obtain rfl : row = row' := some.inj (hafter.symm.trans hrow')
      rw [leaseOf_cons_none heff]
      exact hs.row hrow
    · obtain rfl : write.apply res row = row' := some.inj (hafter.symm.trans hrow')
      rw [leaseOf_cons_some heff]
      obtain ⟨ledger, -, -, -, hop, -⟩ := effect_eq_some.mp heff
      change o = .update k write ledger at hop
      rw [hop] at ho
      exact (hs.row hrow).apply ho hadm res

theorem Leases.step : Leases (runRun i e s o).1 where
  row hrow' := hs.rowStep ho i e hrow'
  missing {k} hnone := by
    have hno : s.state.run k = none := by
      by_contra hne
      obtain ⟨row, hrow⟩ := ne_none_iff_exists'.mp hne
      obtain ⟨row', hrow', -⟩ := runExec_row s.state o hrow
      rw [traced_state, hrow'] at hnone
      cases hnone
    have heff : effect ⟨i, e, s.state, o⟩ k = none := by
      by_contra hne
      obtain ⟨write, hw⟩ := ne_none_iff_exists'.mp hne
      obtain ⟨row, hrow, -⟩ := run_of_effect hw
      rw [hno] at hrow
      cases hrow
    rw [traced_log, leaseOf_cons_none heff]
    exact hs.missing hno
  claims hd := (hs.epochs i e hd).1
  ends hd := (hs.epochs i e hd).2
  fenced := ⟨fun k => hs.fencedStep i e k, hs.fenced⟩
  kept k := by
    rw [states_traced]
    refine List.Pairwise.cons (fun w hw => ?_) (hs.kept k)
    refine endKept_runExec ?_ o
    rcases mem_cons.mp hw with rfl | hw
    · exact fun row hrow _ => ⟨row, hrow, rfl⟩
    · exact rel_of_pairwise_cons (hs.kept k) hw

end Step

/-- **Run lease fencing.** In every run and for every cluster run `k`: a claim gives a larger
    epoch than all claims before it; an operation that carries an epoch is carried out only
    while this is the epoch of the latest claim, with the lease held, or for a requeue, given up
    by a preemption; no epoch is finished or reclaimed twice; and a run that has ended keeps
    its status. -/
theorem run_lease_fencing {α : Type} {Q : Pool RunOp RunRes α RunPast}
    (h : ClusterRuns anyLedger Pool.free Q) (k : String) :
    (∀ later c earlier, Q.shared.log = later ++ c :: earlier → Fenced k c earlier) ∧
      Q.shared.states.Pairwise fun w' w => EndKept k w w' := by
  have hinv : Leases Q.shared :=
    h.inv Leases.init fun hI hg _ => hI.step hg.lawful _ _
  refine ⟨fun later c earlier hlog => ?_, hinv.kept k⟩
  have hall := hinv.fenced
  rw [hlog] at hall
  exact hall.split k

/-! ## A preemption -/

/-- A run without nodes, submitted without a tenant. -/
def plainSpec (runId : String) : RunSpec := { runId := runId, planSnapshot := {} }

/-- A run is created, claimed, started, preempted and put back into the queue. -/
def preemptedOnce : List (Pool.Move RunOp RunRes Unit Unit) :=
  Pool.solo 0 2 () (createRun (plainSpec "gexec-1") 32 256).discard ++
    Pool.solo 1 3 () (claimLease "gexec-1" "coord-a" 30 3 none).discard ++
    Pool.solo 2 2 () (markRunning "gexec-1" 1).discard ++
    Pool.solo 3 3 () (finishRun "gexec-1" 1 preempted none none).discard ++
    Pool.solo 4 1 () (requeuePreempted "gexec-1" 1).discard

variable {Lg : Option ClusterLedger → Prop}

theorem Client.discard {α : Type} {p : RunProgram α} (hp : p.Uses Plain) : Client Lg p.discard :=
  .of_plain (Prog.uses_bind hp fun _ => trivial)

theorem preemptedOnce_runs :
    ClusterRuns anyLedger Pool.free (Pool.play runRun ⟨init, []⟩ preemptedOnce) := by
  refine play_runs runRun _ _ fun m hm p hp => ?_
  simp only [preemptedOnce, mem_append] at hm
  rcases hm with (((hm | hm) | hm) | hm) | hm <;> rw [starts_solo hm hp]
  · exact .discard (createRun_plain _ _ _)
  · exact .claimLease trivial fun _ => .done ()
  · exact .discard (markRunning_plain _ _)
  · exact .finishRun trivial fun _ => .done ()
  · exact .discard (requeuePreempted_plain _ _)

/-- The last call of `preemptedOnce`: what it carried, and the lease it found. -/
theorem preemptedOnce_last :
    (match (Pool.play runRun ⟨init, []⟩ preemptedOnce).shared.log with
      | [] => none
      | c :: earlier =>
        (effect c "gexec-1").bind fun write =>
          write.carriedEpoch.map fun e => (e, leaseOf "gexec-1" earlier)) =
      some (1, ⟨1, .preempted⟩) := by
  decide +kernel

/-- A requeue is carried out although the lease whose epoch it carries was finished. -/
theorem requeue_after_lease :
    ∃ (Q : Pool RunOp RunRes Unit RunPast) (c : RunCall) (earlier : List RunCall)
      (write : RunWrite), ClusterRuns anyLedger Pool.free Q ∧ Q.shared.log = c :: earlier ∧
      effect c "gexec-1" = some write ∧ write.carriedEpoch = some 1 ∧
      (leaseOf "gexec-1" earlier).stage ≠ .held := by
  have hruns := preemptedOnce_runs
  have hlast := preemptedOnce_last
  generalize Pool.play runRun ⟨init, []⟩ preemptedOnce = Q at *
  cases hlog : Q.shared.log with
  | nil =>
    rw [hlog] at hlast
    cases hlast
  | cons c earlier =>
    rw [hlog] at hlast
    obtain ⟨write, heff, hmap⟩ := bind_eq_some_iff.mp hlast
    obtain ⟨e, hcarried, hpair⟩ := map_eq_some_iff.mp hmap
    obtain ⟨rfl, hlease⟩ := Prod.mk.inj hpair
    refine ⟨Q, c, earlier, write, hruns, hlog, heff, hcarried, ?_⟩
    rw [hlease]
    decide

theorem run_lease_fencing_of_preemptedOnce :
    ∃ (Q : Pool RunOp RunRes Unit RunPast) (c : RunCall) (earlier : List RunCall),
      ClusterRuns anyLedger Pool.free Q ∧ Q.shared.log = c :: earlier ∧
      Fenced "gexec-1" c earlier ∧ leaseOf "gexec-1" earlier = ⟨1, .preempted⟩ := by
  have hruns := preemptedOnce_runs
  have hlast := preemptedOnce_last
  have hfence := run_lease_fencing hruns "gexec-1"
  generalize Pool.play runRun ⟨init, []⟩ preemptedOnce = Q at *
  cases hlog : Q.shared.log with
  | nil =>
    rw [hlog] at hlast
    cases hlast
  | cons c earlier =>
    rw [hlog] at hlast
    obtain ⟨write, -, hmap⟩ := bind_eq_some_iff.mp hlast
    obtain ⟨e, -, hpair⟩ := map_eq_some_iff.mp hmap
    exact ⟨Q, c, earlier, hruns, hlog, hfence.1 [] c earlier hlog, (Prod.mk.inj hpair).2⟩

/-- The runs that the call reclaimed had leases that lay before its reference time. -/
def ReclaimedExpired (c : RunCall) : Prop :=
  ∀ k seen now maxAttempts, effect c k = some (.reclaim seen now maxAttempts false) →
    ∃ row, c.before.run k = some row ∧ RunWorld.expired now row = true

/-- The lease that a reclaim takes back is the one it listed: no heartbeat has renewed it. -/
def Unrenewed (w : RunWorld) : RunOp → Prop
  | .update k (.reclaim seen now maxAttempts false) _ =>
    ∀ row ∈ (w.run k).filter (RunWrite.reclaim seen now maxAttempts false).admits,
      row.leaseExpiresAt = seen.leaseExpiresAt
  | _ => True

instance (w : RunWorld) (o : RunOp) : Decidable (Unrenewed w o) := by
  unfold Unrenewed
  split <;> exact inferInstance

/-- The steps that reclaim no renewed lease. -/
abbrev unrenewed : Nat → Unit → RunPast → RunOp → Prop := fun _ _ s o => Unrenewed s.state o

theorem reclaimedExpired_of_unrenewed {o : RunOp} (ho : FollowsRead Lg w o) (hguard : Unrenewed w o)
    (i : Nat) (e : Unit) : ReclaimedExpired ⟨i, e, w, o⟩ := by
  intro k seen now maxAttempts heff
  obtain ⟨ledger, row, u, res, hop, hhit⟩ := effect_eq_some.mp heff
  subst hop
  obtain ⟨hrow, hadm, -⟩ := hit_eq_some.mp hhit
  have hsame := hguard row (filter_eq_some_iff.mpr ⟨hrow, hadm⟩)
  have hlisted : RunWorld.expired now seen := ho.1.checked
  refine ⟨row, hrow, ?_⟩
  unfold RunWorld.expired at hlisted ⊢
  rw [hsame]
  exact hlisted

/-- **A reclaim spares renewed leases** in every run in which no heartbeat comes between its
    listing and its update: the run is requeued or failed only if its lease lies before the
    reference time at the moment of the update. -/
theorem reclaim_spares_renewed {α : Type} {Q : Pool RunOp RunRes α RunPast}
    (h : ClusterRuns anyLedger unrenewed Q) (later earlier : List RunCall) (c : RunCall)
    (hlog : Q.shared.log = later ++ c :: earlier) : ReclaimedExpired c := by
  have hinv : Always (fun c _ => ReclaimedExpired c) Q.shared.log := by
    refine h.inv (I := fun s => Always (fun c _ => ReclaimedExpired c) s.log) trivial
      fun hI ho hguard => ?_
    exact ⟨reclaimedExpired_of_unrenewed ho hguard _ _, hI⟩
  rw [hlog] at hinv
  exact hinv.split

/-- A run is claimed and started, and its lease expires. -/
def leaseExpired : List (Pool.Move RunOp RunRes Unit Unit) :=
  Pool.solo 0 2 () (createRun (plainSpec "gexec-1") 32 256).discard ++
    Pool.solo 1 3 () (claimLease "gexec-1" "coord-a" 30 3 none).discard ++
    Pool.solo 2 1 () (tick 60).discard ++
    -- the reclaim reads the clock and lists the lease
    Pool.solo 3 2 () (reclaimExpired none 16 3 none).discard

/-- The reclaim goes on at once. -/
def reclaimedAtOnce : List (Pool.Move RunOp RunRes Unit Unit) := leaseExpired ++ [.step 3 ()]

/-- The coordinator renews the lease before the reclaim goes on. -/
def renewedMeanwhile : List (Pool.Move RunOp RunRes Unit Unit) :=
  leaseExpired ++ Pool.solo 4 2 () (heartbeatRun "gexec-1" 1 30).discard ++ [.step 3 ()]

variable {m : Pool.Move RunOp RunRes Unit Unit}

theorem leaseExpired_starts (hm : m ∈ leaseExpired) {p : RunProgram Unit} (hp : m.starts = some p) :
    Client anyLedger p := by
  simp only [leaseExpired, mem_append] at hm
  rcases hm with ((hm | hm) | hm) | hm <;> rw [starts_solo hm hp]
  · exact .discard (createRun_plain _ _ _)
  · exact .claimLease trivial fun _ => .done ()
  · exact .discard ⟨trivial, fun _ => trivial⟩
  · exact .reclaimExpired trivial fun _ => .done ()

theorem reclaimedAtOnce_starts (hm : m ∈ reclaimedAtOnce) (p : RunProgram Unit)
    (hp : m.starts = some p) : Client anyLedger p := by
  rcases mem_append.mp hm with hm | hm
  · exact leaseExpired_starts hm hp
  · rw [mem_singleton.mp hm] at hp
    cases hp

theorem renewedMeanwhile_starts (hm : m ∈ renewedMeanwhile) (p : RunProgram Unit)
    (hp : m.starts = some p) : Client anyLedger p := by
  simp only [renewedMeanwhile, mem_append] at hm
  rcases hm with (hm | hm) | hm
  · exact leaseExpired_starts hm hp
  · rw [starts_solo hm hp]
    exact .discard (heartbeatRun_plain _ _ _)
  · rw [mem_singleton.mp hm] at hp
    cases hp

/-- What the last call of a schedule took back: the reference time, and the expiry of the lease
    at that moment. -/
def lastReclaim (ms : List (Pool.Move RunOp RunRes Unit Unit)) : Option (Nat × Option Nat) :=
  match (Pool.play runRun ⟨init, []⟩ ms).shared.log with
  | [] => none
  | c :: _ =>
    match effect c "gexec-1", c.before.run "gexec-1" with
    | some (.reclaim _ now _ false), some row => some (now, row.leaseExpiresAt)
    | _, _ => none

theorem lastReclaim_spec {ms : List (Pool.Move RunOp RunRes Unit Unit)} {now : Nat}
    {expiry : Option Nat} (h : lastReclaim ms = some (now, expiry)) :
    ∃ c earlier seen maxAttempts row,
      (Pool.play runRun ⟨init, []⟩ ms).shared.log = c :: earlier ∧
      effect c "gexec-1" = some (.reclaim seen now maxAttempts false) ∧
      c.before.run "gexec-1" = some row ∧ row.leaseExpiresAt = expiry := by
  unfold lastReclaim at h
  split at h
  · cases h
  rename_i c earlier hlog
  split at h
  · rename_i seen now' maxAttempts row heff hrow
    obtain ⟨rfl, hexp⟩ := Prod.mk.inj (some.inj h)
    exact ⟨c, earlier, seen, maxAttempts, row, hlog, heff, hrow, hexp⟩
  · cases h

theorem reclaim_spares_renewed_of_reclaimedAtOnce :
    ∃ (Q : Pool RunOp RunRes Unit RunPast) (c : RunCall) (earlier : List RunCall)
      (seen : RunRow) (maxAttempts : Nat), ClusterRuns anyLedger unrenewed Q ∧
      Q.shared.log = c :: earlier ∧
      effect c "gexec-1" = some (.reclaim seen 60 maxAttempts false) ∧ ReclaimedExpired c := by
  have hruns : ClusterRuns anyLedger unrenewed
      (Pool.play runRun ⟨init, []⟩ reclaimedAtOnce) :=
    Pool.play_guarded runRun _ _ (fun m hm => reclaimedAtOnce_starts hm)
      (respects_sound runRun (by decide +kernel))
  have hlast : lastReclaim reclaimedAtOnce = some (60, some 30) := by decide +kernel
  obtain ⟨c, earlier, seen, maxAttempts, row, hlog, heff, -, -⟩ := lastReclaim_spec hlast
  exact ⟨_, c, earlier, seen, maxAttempts, hruns, hlog, heff,
    reclaim_spares_renewed hruns [] earlier c hlog⟩

/-- The lease lies after the reference time when it is taken back. -/
theorem renewed_lease_reclaimed :
    ∃ (Q : Pool RunOp RunRes Unit RunPast) (c : RunCall) (earlier : List RunCall),
      ClusterRuns anyLedger Pool.free Q ∧ Q.shared.log = c :: earlier ∧
      ¬ ReclaimedExpired c := by
  have hruns : ClusterRuns anyLedger Pool.free
      (Pool.play runRun ⟨init, []⟩ renewedMeanwhile) :=
    play_runs runRun _ _ fun m hm => renewedMeanwhile_starts hm
  have hlast : lastReclaim renewedMeanwhile = some (60, some 90) := by decide +kernel
  obtain ⟨c, earlier, seen, maxAttempts, row, hlog, heff, hrow, hexp⟩ := lastReclaim_spec hlast
  refine ⟨_, c, earlier, hruns, hlog, fun hall => ?_⟩
  obtain ⟨row', hrow', hexpired⟩ := hall "gexec-1" seen 60 maxAttempts heff
  rw [hrow] at hrow'
  cases hrow'
  rw [RunWorld.expired, hexp] at hexpired
  exact absurd hexpired (by decide)

end WebGis.Cluster
