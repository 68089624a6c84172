/-
  Requests to yield.

  The flag of a request stays on the row until a requeue after a preemption clears it; no other
  way back into the queue does. When no request lands on a queued run, no lease is taken back
  while the flag is set, and no flagged run is claimed straight from its preemption, a claimed
  run starts without the flag, and there is a request between any two preemptions
  (`yield_consumed_once`). A lease that expires after a request breaks that
  (`flag_after_reclaim`).
-/
import WebGis.Cluster.Leases

namespace WebGis.Cluster

open Data Conc ClusterRunStatus List Option Pool RunWrite RunPast

/-! ## Requests and preemptions of the history -/

/-- The call wrote the flag of a request. -/
def YieldAccepted (d : RunCall) (k : String) : Prop :=
  ∃ seen now, effect d k = some (.requestYield seen now)

/-- The call preempted a run whose flag was set. -/
def YieldPreempted (d : RunCall) (k : String) : Prop :=
  ∃ seen epoch errorCode now row, effect d k = some (.finish seen epoch preempted errorCode now) ∧
    d.before.run k = some row ∧ row.yieldRequestedAt.isSome = true

/-- The claims of the call start without the flag. -/
def ClaimsUnflagged (c : RunCall) : Prop :=
  ∀ k epoch, claimedEpoch c k = some epoch →
    ∃ row, (runExec c.before c.op).1.run k = some row ∧ row.yieldRequestedAt = none

/-- Between the preemption of the call and any earlier one there was a request. -/
def RequestBetween (c : RunCall) (earlier : List RunCall) : Prop :=
  ∀ k, YieldPreempted c k → ∀ mid d older, earlier = mid ++ d :: older → YieldPreempted d k →
    ∃ r ∈ mid, YieldAccepted r k

/-! ## The condition -/

/-- The flag is not left behind: no request lands on a queued run, no run goes back into the
    queue by a reclaim with the flag set, and none is claimed with it from a preemption. -/
def FlagSpent (w : RunWorld) : RunOp → Prop
  | .update k write _ => ∀ row ∈ (w.run k).filter write.admits,
      match write with
      | .requestYield _ _ => row.status ≠ queued
      | .reclaim seen _ maxAttempts _ =>
        (runErrorForReclaim (seen.attempts + 1) maxAttempts).isSome = true ∨
          row.yieldRequestedAt = none
      | .claim _ _ _ _ => row.status = preempted → row.yieldRequestedAt = none
      | _ => True
  | _ => True

instance (w : RunWorld) (o : RunOp) : Decidable (FlagSpent w o) := by
  unfold FlagSpent
  split
  · rename_i k write _
    cases write <;> exact inferInstance
  · exact isTrue trivial

/-- The steps that leave no flag behind. -/
abbrev flagSpent : Nat → Unit → RunPast → RunOp → Prop := fun _ _ s o => FlagSpent s.state o

/-! ## The invariant -/

/-- A queued run has no flag. -/
def QueuedUnflagged (w : RunWorld) : Prop :=
  ∀ k row, w.run k = some row → row.status = queued → row.yieldRequestedAt = none

/-- The requests of the past are used up. -/
structure Spent (s : RunPast) : Prop where
  queued : QueuedUnflagged s.state
  claims : Always (fun c _ => ClaimsUnflagged c) s.log
  between : Always RequestBetween s.log
  preempted : ∀ k mid d older, s.log = mid ++ d :: older → YieldPreempted d k →
    (∀ r ∈ mid, ¬ YieldAccepted r k) →
    ∃ row, s.state.run k = some row ∧ (row.yieldRequestedAt = none ∨ ¬ row.Leased)

theorem Spent.init : Spent init where
  queued _ _ h := by cases h
  claims := trivial
  between := trivial
  preempted k mid d older h := by
    cases mid <;> cases h

theorem unflagged_of_claim {w : RunWorld} (hw : QueuedUnflagged w) {k : String}
    {seen row : RunRow} {co : String} {ttl now : Nat} {ledger : Option ClusterLedger}
    (hguard : FlagSpent w (.update k (.claim seen co ttl now) ledger))
    (hrow : w.run k = some row) (hadm : (claim seen co ttl now).admits row) :
    row.yieldRequestedAt = none := by
  have hdisp : row.status ∈ dispatchableStatuses := by
    simp only [admits, Bool.and_eq_true, decide_eq_true_eq] at hadm
    exact hadm.1.1.2
  have hstatus : row.status = .queued ∨ row.status = .preempted := by
    simpa [dispatchableStatuses] using hdisp
  rcases hstatus with hq | hp
  · exact hw k row hrow hq
  · exact hguard row (filter_eq_some_iff.mpr ⟨hrow, hadm⟩) hp

theorem flag_apply {write : RunWrite} (row : RunRow) (res : Option Amounts)
    (hyield : ∀ seen now, write ≠ .requestYield seen now) :
    (write.apply res row).yieldRequestedAt = row.yieldRequestedAt ∨
      (write.apply res row).yieldRequestedAt = none := by
  cases write with
  | requestYield seen now => exact absurd rfl (hyield seen now)
  | requeue epoch => exact .inr rfl
  | _ => exact .inl rfl

theorem QueuedUnflagged.step {w : RunWorld} (hw : QueuedUnflagged w) {o : RunOp}
    (ho : LawfulOp o) (hguard : FlagSpent w o) : QueuedUnflagged (runExec w o).1 := by
  intro k row' hrow' hst
  cases hrow : w.run k with
  | none => exact (runExec_new w o hrow hrow').yieldRequestedAt
  | some row =>
    obtain ⟨row2, hrow2, hstep⟩ := runExec_row w o hrow
    obtain rfl : row2 = row' := some.inj (hrow2.symm.trans hrow')
    cases hstep with
    | kept _ => exact hw k row hrow hst
    | @written write ledger u res hop hhit =>
      subst hop
      obtain ⟨-, hadm, -⟩ := hit_eq_some.mp hhit
      have hfilter : row ∈ (w.run k).filter write.admits :=
        filter_eq_some_iff.mpr ⟨hrow, hadm⟩
      have hg := hguard row hfilter
      cases write with
      | claim => cases hst
      | start => cases hst
      | beat epoch ttl now => exact hw k row hrow hst
      | requeue => rfl
      | cancel => cases hst
      | requestCancel seen now => exact hw k row hrow hst
      | requestYield seen now => exact absurd hst hg
      | finish seen epoch status errorCode now =>
        change finishStatus seen status = .queued at hst
        unfold finishStatus at hst
        split at hst
        · cases hst
        rcases (ho : status ∈ terminalStatuses ∨ status = .preempted) with h | h
        · rw [hst] at h
          exact absurd h (by decide)
        · rw [hst] at h
          cases h
      | reclaim seen now maxAttempts forced =>
        rcases hg with hfail | hnone
        · have hfailed : (apply (.reclaim seen now maxAttempts forced) res
              row).status = .failed := if_pos hfail
          rw [hfailed] at hst
          cases hst
        · exact hnone

section Step

variable {s : RunPast} {o : RunOp} (hs : Spent s) (ho : LawfulOp o) (hguard : FlagSpent s.state o)
  (i : Nat) (e : Unit)

include hs

theorem Spent.claimStep (hguard : FlagSpent s.state o) : ClaimsUnflagged ⟨i, e, s.state, o⟩ := by
  intro k epoch hclaim
  obtain ⟨write, heff, hw⟩ := bind_eq_some_iff.mp hclaim
  cases write with
  | claim seen co ttl now =>
    obtain ⟨ledger, row, u, res, hop, hhit⟩ := effect_eq_some.mp heff
    subst hop
    obtain ⟨hrow, hadm, -⟩ := hit_eq_some.mp hhit
    have hnone : row.yieldRequestedAt = none :=
      unflagged_of_claim hs.queued hguard hrow hadm
    exact ⟨_, run_update_self hhit, hnone⟩
  | _ => cases hw

theorem Spent.betweenStep : RequestBetween ⟨i, e, s.state, o⟩ s.log := by
  intro k hpre mid d older hlog hd
  by_contra hno
  push Not at hno
  obtain ⟨row, hrow, hcase⟩ := hs.preempted k mid d older hlog hd hno
  obtain ⟨seen, epoch, errorCode, now, row2, heff, hrow2, hflag⟩ := hpre
  obtain rfl : row = row2 := some.inj (hrow.symm.trans hrow2)
  obtain ⟨row3, hrow3, hadm⟩ := run_of_effect heff
  obtain rfl : row = row3 := some.inj (hrow.symm.trans hrow3)
  simp only [admits, Bool.and_eq_true, decide_eq_true_eq] at hadm
  rcases hcase with hnone | hleased
  · rw [hnone] at hflag
    cases hflag
  · exact hleased hadm.2

include hguard ho

theorem Spent.preemptedStep (k : String) (mid : List RunCall) (d : RunCall)
    (older : List RunCall) (hlog : (runRun i e s o).1.log = mid ++ d :: older)
    (hd : YieldPreempted d k) (hno : ∀ r ∈ mid, ¬ YieldAccepted r k) :
    ∃ row, (runRun i e s o).1.state.run k = some row ∧
      (row.yieldRequestedAt = none ∨ ¬ row.Leased) := by
  rw [traced_log] at hlog
  cases mid with
  | nil =>
    -- the preemption itself: the run is not leased any more
    obtain ⟨rfl, rfl⟩ := List.cons.inj hlog
    obtain ⟨seen, epoch, errorCode, now, row, heff, -, -⟩ := hd
    obtain ⟨ledger, row', u, res, hop, hhit⟩ := effect_eq_some.mp heff
    subst hop
    have hlawful : (finish seen epoch .preempted errorCode now).Lawful := ho
    exact ⟨_, run_update_self hhit, .inr (not_leased_of_end hlawful rfl res row')⟩
  | cons c mid =>
    obtain ⟨rfl, hrest⟩ := List.cons.inj hlog
    obtain ⟨row, hrow, hcase⟩ := hs.preempted k mid d older hrest hd fun r hr =>
      hno r (mem_cons_of_mem _ hr)
    rcases run_after i e o hrow with ⟨-, hafter⟩ | ⟨write, res, heff, hadm, hafter⟩
    · exact ⟨row, hafter, hcase⟩
    refine ⟨_, hafter, ?_⟩
    have hyield : ∀ seen now, write ≠ .requestYield seen now := fun seen now he =>
      hno _ mem_cons_self ⟨seen, now, he ▸ heff⟩
    rcases hcase with hnone | hleased
    · rcases flag_apply row res hyield with h | h
      · exact .inl (h.trans hnone)
      · exact .inl h
    · cases hend : write.endEpoch with
      | some epoch =>
        obtain ⟨ledger, -, -, -, hop, -⟩ := effect_eq_some.mp heff
        change o = _ at hop
        rw [hop] at ho
        exact .inr (not_leased_of_end ho (by rw [hend]; rfl) res row)
      | none =>
        cases hclaim : write.claimEpoch with
        | none =>
          rw [leased_iff_of_plain hadm hclaim hend]
          exact .inr hleased
        | some epoch =>
          cases write with
          | claim seen co ttl now =>
            obtain ⟨ledger, -, -, -, hop, -⟩ := effect_eq_some.mp heff
            change o = _ at hop
            rw [hop] at hguard
            have hnone : row.yieldRequestedAt = none :=
              unflagged_of_claim hs.queued hguard hrow hadm
            exact .inl hnone
          | _ => cases hclaim

theorem Spent.step : Spent (runRun i e s o).1 where
  queued := hs.queued.step ho hguard
  claims := ⟨hs.claimStep i e hguard, hs.claims⟩
  between := ⟨hs.betweenStep i e, hs.between⟩
  preempted k mid d older := hs.preemptedStep ho hguard i e k mid d older

end Step

/-! ## Runs -/

/-- **A request to yield is consumed by one attempt** in every run that leaves no flag behind:
    a claimed run starts without the flag, and there is a request between any two
    preemptions of a flagged run. -/
theorem yield_consumed_once {α : Type} {Q : Pool RunOp RunRes α RunPast}
    (h : ClusterRuns anyLedger flagSpent Q) (later earlier : List RunCall) (c : RunCall)
    (hlog : Q.shared.log = later ++ c :: earlier) :
    ClaimsUnflagged c ∧ RequestBetween c earlier := by
  have hinv : Spent Q.shared :=
    h.inv Spent.init fun hI hg hguard => hI.step hg.lawful hguard _ _
  have hclaims := hinv.claims
  have hbetween := hinv.between
  rw [hlog] at hclaims hbetween
  exact ⟨hclaims.split, hbetween.split⟩

/-- A run is created, claimed, started and asked to yield. -/
def askedToYield : List (Pool.Move RunOp RunRes Unit Unit) :=
  Pool.solo 0 2 () (createRun (plainSpec "gexec-1") 32 256).discard ++
    Pool.solo 1 3 () (claimLease "gexec-1" "coord-a" 30 3 none).discard ++
    Pool.solo 2 2 () (markRunning "gexec-1" 1).discard ++
    Pool.solo 3 3 () (requestYield "gexec-1").discard

/-- It yields, goes back into the queue and is claimed again. -/
def yielded : List (Pool.Move RunOp RunRes Unit Unit) :=
  askedToYield ++
    Pool.solo 4 3 () (finishRun "gexec-1" 1 preempted none none).discard ++
    Pool.solo 5 1 () (requeuePreempted "gexec-1" 1).discard ++
    Pool.solo 6 3 () (claimLease "gexec-1" "coord-b" 30 3 none).discard

/-- Its coordinator is lost instead, the lease expires, and it is claimed again. -/
def lostAfterRequest : List (Pool.Move RunOp RunRes Unit Unit) :=
  askedToYield ++
    Pool.solo 4 1 () (tick 60).discard ++
    Pool.solo 5 3 () (reclaimExpired none 16 3 none).discard ++
    Pool.solo 6 3 () (claimLease "gexec-1" "coord-b" 30 3 none).discard

variable {m : Pool.Move RunOp RunRes Unit Unit}

theorem askedToYield_starts (hm : m ∈ askedToYield) {p : RunProgram Unit} (hp : m.starts = some p) :
    Client anyLedger p := by
  simp only [askedToYield, mem_append] at hm
  rcases hm with ((hm | hm) | hm) | hm <;> rw [starts_solo hm hp]
  · exact .discard (createRun_plain _ _ _)
  · exact .claimLease trivial fun _ => .done ()
  · exact .discard (markRunning_plain _ _)
  · exact .requestYield fun _ => .done ()

theorem yielded_starts (hm : m ∈ yielded) (p : RunProgram Unit) (hp : m.starts = some p) :
    Client anyLedger p := by
  simp only [yielded, mem_append] at hm
  rcases hm with ((hm | hm) | hm) | hm
  · exact askedToYield_starts hm hp
  · rw [starts_solo hm hp]
    exact .finishRun trivial fun _ => .done ()
  · rw [starts_solo hm hp]
    exact .discard (requeuePreempted_plain _ _)
  · rw [starts_solo hm hp]
    exact .claimLease trivial fun _ => .done ()

theorem lostAfterRequest_starts (hm : m ∈ lostAfterRequest) (p : RunProgram Unit)
    (hp : m.starts = some p) : Client anyLedger p := by
  simp only [lostAfterRequest, mem_append] at hm
  rcases hm with ((hm | hm) | hm) | hm
  · exact askedToYield_starts hm hp
  · rw [starts_solo hm hp]
    exact .discard ⟨trivial, fun _ => trivial⟩
  · rw [starts_solo hm hp]
    exact .reclaimExpired trivial fun _ => .done ()
  · rw [starts_solo hm hp]
    exact .claimLease trivial fun _ => .done ()

/-- What the last call of a schedule claimed, and the flag the run started with. -/
def lastClaim (ms : List (Pool.Move RunOp RunRes Unit Unit)) : Option (Nat × Bool) :=
  match (Pool.play runRun ⟨init, []⟩ ms).shared.log with
  | [] => none
  | c :: _ => (claimedEpoch c "gexec-1").bind fun e =>
    ((runExec c.before c.op).1.run "gexec-1").map fun row => (e, row.yieldRequestedAt.isSome)

theorem yield_consumed_once_of_yielded :
    ∃ (Q : Pool RunOp RunRes Unit RunPast) (c : RunCall) (earlier : List RunCall),
      ClusterRuns anyLedger flagSpent Q ∧ Q.shared.log = c :: earlier ∧
      claimedEpoch c "gexec-1" = some 2 ∧ ClaimsUnflagged c ∧ RequestBetween c earlier := by
  have hruns : ClusterRuns anyLedger flagSpent (Pool.play runRun ⟨init, []⟩ yielded) :=
    Pool.play_guarded runRun _ _ (fun m hm => yielded_starts hm)
      (respects_sound runRun (by decide +kernel))
  have hlast : lastClaim yielded = some (2, false) := by decide +kernel
  unfold lastClaim at hlast
  generalize Pool.play runRun ⟨init, []⟩ yielded = Q at *
  cases hlog : Q.shared.log with
  | nil =>
    rw [hlog] at hlast
    cases hlast
  | cons c earlier =>
    rw [hlog] at hlast
    obtain ⟨e, hclaim, hmap⟩ := bind_eq_some_iff.mp hlast
    obtain ⟨row, -, hpair⟩ := map_eq_some_iff.mp hmap
    obtain ⟨rfl, -⟩ := Prod.mk.inj hpair
    obtain ⟨hunflagged, hbetween⟩ := yield_consumed_once hruns [] earlier c hlog
    exact ⟨Q, c, earlier, hruns, hlog, hclaim, hunflagged, hbetween⟩

/-- The second attempt starts with the flag of the request to the first. -/
theorem flag_after_reclaim :
    ∃ (Q : Pool RunOp RunRes Unit RunPast) (c : RunCall) (earlier : List RunCall),
      ClusterRuns anyLedger Pool.free Q ∧ Q.shared.log = c :: earlier ∧ ¬ ClaimsUnflagged c := by
  have hruns : ClusterRuns anyLedger Pool.free
      (Pool.play runRun ⟨init, []⟩ lostAfterRequest) :=
    play_runs runRun _ _ fun m hm => lostAfterRequest_starts hm
  have hlast : lastClaim lostAfterRequest = some (2, true) := by decide +kernel
  unfold lastClaim at hlast
  generalize Pool.play runRun ⟨init, []⟩ lostAfterRequest = Q at *
  cases hlog : Q.shared.log with
  | nil =>
    rw [hlog] at hlast
    cases hlast
  | cons c earlier =>
    rw [hlog] at hlast
    obtain ⟨e, hclaim, hmap⟩ := bind_eq_some_iff.mp hlast
    obtain ⟨row, hrow, hpair⟩ := map_eq_some_iff.mp hmap
    obtain ⟨rfl, hflag⟩ := Prod.mk.inj hpair
    refine ⟨Q, c, earlier, hruns, hlog, fun hall => ?_⟩
    obtain ⟨row', hrow', hnone⟩ := hall "gexec-1" 2 hclaim
    rw [hrow] at hrow'
    cases hrow'
    rw [hnone] at hflag
    cases hflag

end WebGis.Cluster
