/-
  What an operation knows of a run that it has read.

  Between the read and the update others act on the run, but a run only goes forward: its
  scopes stay, its epoch does not fall, and as long as the epoch is the one that was read a
  run that is leased was leased then, with the same reservation. `leases` is the protocol of
  programs whose updates follow their own reads, and every operation of the store keeps to it.

  Each operation keeps to the protocol of reads, and `Client Lg` are the programs that are
  made of the operations, with accounts that go to the ledgers `Lg`.
-/
import WebGis.Cluster.Steps

open List

namespace WebGis.Cluster

open Data Conc ClusterRunStatus Prog

/-! ## Runs go forward -/

/-- `b` is the row of a run at or after the time when it was `a`. -/
structure Later (a b : RunRow) : Prop where
  id : a.id = b.id
  runId : a.runId = b.runId
  tenantKey : a.tenantKey = b.tenantKey
  projectKey : a.projectKey = b.projectKey
  leaseEpoch : a.leaseEpoch ≤ b.leaseEpoch
  held : a.leaseEpoch = b.leaseEpoch → b.Leased → a.Leased ∧ a.reserved = b.reserved

theorem Later.refl (a : RunRow) : Later a a := ⟨rfl, rfl, rfl, rfl, le_refl _, fun _ h => ⟨h, rfl⟩⟩

theorem Later.trans {a b c : RunRow} (h : Later a b) (h' : Later b c) : Later a c where
  id := h.id.trans h'.id
  runId := h.runId.trans h'.runId
  tenantKey := h.tenantKey.trans h'.tenantKey
  projectKey := h.projectKey.trans h'.projectKey
  leaseEpoch := h.leaseEpoch.trans h'.leaseEpoch
  held he hc := by
    have hab : a.leaseEpoch = b.leaseEpoch :=
      Nat.le_antisymm h.leaseEpoch (he ▸ h'.leaseEpoch)
    obtain ⟨hb, hbc⟩ := h'.held (hab.symm.trans he) hc
    obtain ⟨ha, hab'⟩ := h.held hab hb
    exact ⟨ha, hab'.trans hbc⟩

theorem Later.scopeKeys {a b : RunRow} (h : Later a b) : a.scopeKeys = b.scopeKeys := by
  unfold RunRow.scopeKeys
  rw [h.tenantKey, h.projectKey]

namespace RunWrite

variable {write : RunWrite}

theorem not_leased_of_end (hlawful : write.Lawful) (hend : write.endEpoch.isSome)
    (reserved : Option Amounts) (row : RunRow) : ¬ (write.apply reserved row).Leased := by
  cases write with
  | finish seen epoch status errorCode now =>
    show finishStatus seen status ∉ leasedStatuses
    unfold finishStatus
    split
    · decide
    · rcases hlawful with h | h
      · exact fun hl => not_terminal_of_leased hl h
      · rw [h]
        decide
  | reclaim seen now maxAttempts forced =>
    show (if _ then failed else queued) ∉ leasedStatuses
    split <;> decide
  | _ => cases hend

theorem settle_plain (hclaim : write.claimEpoch = none) (hend : write.endEpoch = none) (u : Usages)
    (ledger : Option ClusterLedger) : write.settle u ledger = .ok (u, none) := by
  cases write with
  | claim => cases hclaim
  | finish => cases hend
  | reclaim => cases hend
  | _ => cases ledger <;> rfl

theorem settle_none (write : RunWrite) (u : Usages) : write.settle u none = .ok (u, none) := by
  cases write <;> rfl

theorem leased_iff_of_plain {row : RunRow} (h : write.admits row)
    (hclaim : write.claimEpoch = none) (hend : write.endEpoch = none) (reserved : Option Amounts) :
    (write.apply reserved row).Leased ↔ row.Leased := by
  unfold RunRow.Leased
  cases write with
  | claim => cases hclaim
  | finish => cases hend
  | reclaim => cases hend
  | start epoch now =>
    simp only [admits, Bool.and_eq_true, decide_eq_true_eq] at h
    rw [h.2]
    exact iff_of_true (show running ∈ leasedStatuses by decide) (by decide)
  | requeue epoch =>
    simp only [admits, Bool.and_eq_true, decide_eq_true_eq] at h
    rw [h.2]
    exact iff_of_false (show queued ∉ leasedStatuses by decide) (by decide)
  | cancel seen now =>
    simp only [admits, Bool.and_eq_true, decide_eq_true_eq] at h
    exact iff_of_false (show cancelled ∉ leasedStatuses by decide) (not_leased_of_dispatchable h.2)
  | _ => exact Iff.rfl

theorem later_apply {row : RunRow} {w : RunWorld} {k : String} {ledger : Option ClusterLedger}
    {u : Usages} {reserved : Option Amounts} (hlawful : write.Lawful)
    (hhit : w.hit k write ledger = some (row, u, reserved)) :
    Later row (write.apply reserved row) := by
  obtain ⟨-, hadm, hsettle⟩ := hit_eq_some.mp hhit
  have hepoch := apply_leaseEpoch hadm reserved
  refine ⟨(apply_id write reserved row).symm, (apply_runId write reserved row).symm, ?_, ?_, ?_, ?_⟩
  · cases write <;> rfl
  · cases write <;> rfl
  · rw [hepoch]
    split <;> omega
  · intro he hl
    have hclaim : write.claimEpoch = none := by
      by_contra hne
      rw [hepoch, if_pos (Option.isSome_iff_ne_none.mpr hne)] at he
      omega
    have hend : write.endEpoch = none := by
      by_contra hne
      exact not_leased_of_end hlawful (Option.isSome_iff_ne_none.mpr hne) reserved row hl
    rw [settle_plain hclaim hend] at hsettle
    cases hsettle
    refine ⟨(leased_iff_of_plain hadm hclaim hend none).mp hl, ?_⟩
    cases write <;> rfl

end RunWrite

/-- An update the store sends. -/
def LawfulOp : RunOp → Prop
  | .update _ write _ => write.Lawful
  | _ => True

variable {w : RunWorld} {o : RunOp}

theorem later_runExec (ho : LawfulOp o) {k : String} {row : RunRow} (hrow : w.run k = some row) :
    ∃ row', (runExec w o).1.run k = some row' ∧ Later row row' := by
  obtain ⟨row', hrow', hstep⟩ := runExec_row w o hrow
  refine ⟨row', hrow', ?_⟩
  cases hstep with
  | kept _ => exact Later.refl row
  | written hop hhit =>
    subst hop
    exact RunWrite.later_apply ho hhit

/-! ## The protocol -/

/-- The row that the write was decided on. -/
def RunWrite.seen : RunWrite → Option RunRow
  | .claim seen _ _ _ => some seen
  | .finish seen _ _ _ _ => some seen
  | .reclaim seen _ _ _ => some seen
  | .requestCancel seen _ => some seen
  | .cancel seen _ => some seen
  | .requestYield seen _ => some seen
  | _ => none

/-- `seen` was the row of the run `k` some time ago. -/
def SeenAt (w : RunWorld) (k : String) (seen : RunRow) : Prop :=
  ∃ row, w.run k = some row ∧ Later seen row

/-- What the operation checked of the row that it read: a finish its epoch, and a reclaim that
    is not forced that the lease is expired. -/
def RunWrite.Checked : RunWrite → Prop
  | .finish seen epoch _ _ _ => seen.leaseEpoch = epoch
  | .reclaim seen now _ false => RunWorld.expired now seen = true
  | _ => True

/-- The ledgers a write may be given: those of `Lg` where it accounts for anything. -/
def RunWrite.Accounts (Lg : Option ClusterLedger → Prop) (ledger : Option ClusterLedger)
    (write : RunWrite) : Prop :=
  write.claimEpoch.isSome = true ∨ write.endEpoch.isSome = true → Lg ledger

/-- The promise about an update, as far as the state does not matter for it. -/
structure Sent (Lg : Option ClusterLedger → Prop) (write : RunWrite)
    (ledger : Option ClusterLedger) : Prop where
  lawful : write.Lawful
  checked : write.Checked
  ledger : write.Accounts Lg ledger

/-- An update follows a read of its row. -/
def FollowsRead (Lg : Option ClusterLedger → Prop) (w : RunWorld) : RunOp → Prop
  | .update k write ledger => Sent Lg write ledger ∧ ∀ seen ∈ write.seen, SeenAt w k seen
  | _ => True

theorem FollowsRead.lawful {Lg : Option ClusterLedger → Prop} (h : FollowsRead Lg w o) :
    LawfulOp o := by
  cases o with
  | update k write ledger => exact h.1.lawful
  | _ => trivial

theorem SeenAt.step {k : String} {seen : RunRow} (h : SeenAt w k seen) (ho : LawfulOp o) :
    SeenAt (runExec w o).1 k seen := by
  obtain ⟨row, hrow, hl⟩ := h
  obtain ⟨row', hrow', hl'⟩ := later_runExec ho hrow
  exact ⟨row', hrow', hl.trans hl'⟩

/-- Programs whose updates follow their reads, and whose accounts go to the ledgers `Lg`. -/
def leases (Lg : Option ClusterLedger → Prop) : Protocol runRun where
  inv s := Always (fun d _ => FollowsRead Lg d.before d.op) s.log
  rely _ s t := ∀ k seen, SeenAt s.state k seen → SeenAt t.state k seen
  guar _ s o := FollowsRead Lg s.state o
  guard := Pool.free
  rely_refl _ _ _ _ h := h
  rely_trans h h' k seen hs := h' k seen (h k seen hs)
  inv_step hs hg _ := ⟨hg, hs⟩
  rely_step _ _ hg _ _ _ hs := hs.step hg.lawful

/-! ## The operations -/

section Operations

variable {Lg : Option ClusterLedger → Prop} {α : Type}

/-- The statements that need no read before them. -/
def Plain : RunOp → Prop
  | .update _ write _ => write.seen = none
  | _ => True

theorem Plain.followsRead {o : RunOp} (ho : Plain o) (w : RunWorld) : FollowsRead Lg w o := by
  cases o with
  | update k write ledger =>
    have hseen : write.seen = none := ho
    have hplain : write.claimEpoch = none ∧ write.endEpoch = none ∧ write.Lawful ∧
        write.Checked := by
      cases write <;> first | exact ⟨rfl, rfl, trivial, trivial⟩ | cases hseen
    obtain ⟨hclaim, hend, hlawful, hchecked⟩ := hplain
    refine ⟨⟨hlawful, hchecked, ?_⟩, fun seen hs => ?_⟩
    · rintro (h | h)
      · rw [hclaim] at h
        cases h
      · rw [hend] at h
        cases h
    · rw [hseen] at hs
      cases hs
  | _ => trivial

variable {p : RunProgram α}

theorem ok_of_plain (hp : p.Uses Plain) : (leases Lg).Ok p := by
  induction p with
  | ret a => exact .ret a
  | act o k ih => exact .act (fun _ s _ => hp.1.followsRead s.state) fun r => ih r (hp.2 r)

/-- The rows that a process has read, as they were or later. -/
def Reads (rows : List RunRow) (s : RunPast) : Prop := ∀ row ∈ rows, SeenAt s.state row.runId row

/-- The statements that may follow when `rows` have been read. -/
def AfterReading (Lg : Option ClusterLedger → Prop) (rows : List RunRow) : RunOp → Prop
  | .update k write ledger =>
    Sent Lg write ledger ∧ ∀ seen ∈ write.seen, seen ∈ rows ∧ seen.runId = k
  | _ => True

theorem safe_of_afterReading {i : Nat} {rows : List RunRow} (hp : p.Uses (AfterReading Lg rows))
    {s : RunPast} (hs : Reads rows s) : (leases Lg).Safe i Protocol.anyEnd p s := by
  refine (Protocol.safe_of_fact (Reads rows) ?_ ?_ ?_ hp hs).anyEnd
  · intro s t hrely hF row hrow
    exact hrely row.runId row (hF row hrow)
  · intro s o _ hF ho
    cases o with
    | update k write ledger =>
      refine ⟨ho.1, fun seen hs => ?_⟩
      obtain ⟨hmem, hk⟩ := ho.2 seen hs
      exact hk ▸ hF seen hmem
    | _ => trivial
  · intro e s o hF ho row hrow
    refine (hF row hrow).step ?_
    cases o with
    | update k write ledger => exact ho.1.lawful
    | _ => trivial

theorem seenAt_self {w : RunWorld} {k : String} {row : RunRow} (h : w.run k = some row) :
    SeenAt w k row := ⟨row, h, Later.refl row⟩

theorem ok_of_getRun {k : String} {f : Option RunRow → RunProgram α} (hnone : (leases Lg).Ok (f none))
    (hsome : ∀ row, row.runId = k → (f (some row)).Uses (AfterReading Lg [row])) :
    (leases Lg).Ok (getRun k >>= f) := by
  intro i s _ s1 _ hi
  refine ⟨trivial, fun e _ => ?_⟩
  show (leases Lg).Safe i Protocol.anyEnd (f (s1.state.run k)) _
  cases hrow : s1.state.run k with
  | none => exact hnone i _ ((leases Lg).inv_step hi trivial trivial)
  | some row =>
    have hkey : row.runId = k := Table.get_key hrow
    refine safe_of_afterReading (hsome row hkey) fun row' hmem => ?_
    rw [mem_singleton.mp hmem, hkey]
    exact seenAt_self hrow

theorem ok_of_select {o : RunOp} {f : RunRes o → RunProgram α} (ho : Plain o)
    (rowsOf : RunRes o → List RunRow) (P : RunRow → Prop)
    (hrows : ∀ w, ∀ row ∈ rowsOf (runExec w o).2, row ∈ w.runs.rows ∧ P row)
    (hworld : ∀ w, (runExec w o).1 = w)
    (hf : ∀ r, (∀ row ∈ rowsOf r, P row) → (f r).Uses (AfterReading Lg (rowsOf r))) :
    (leases Lg).Ok ((Prog.lift o : RunProgram (RunRes o)) >>= f) := by
  intro i s _ s1 _ _
  refine ⟨ho.followsRead s1.state, fun e _ => ?_⟩
  refine safe_of_afterReading (hf _ fun row hrow => (hrows s1.state row hrow).2) fun row hrow => ?_
  show SeenAt (runExec s1.state o).1 row.runId row
  rw [hworld]
  exact seenAt_self (Table.get_of_mem (hrows s1.state row hrow).1)

end Operations

variable {Lg : Option ClusterLedger → Prop} {ledger : Option ClusterLedger} {α : Type}

/-! ## Operations without a read -/

theorem ensureScopes_plain (L : ClusterLedger) (keys : List String) :
    (ensureScopes L keys).Uses Plain := by
  refine uses_forEach (fun k => ?_) keys
  exact ⟨trivial, fun _ => trivial⟩

theorem ensureScopesOf_plain (ledger : Option ClusterLedger) (runId : String) :
    (ensureScopesOf ledger runId).Uses Plain := by
  cases ledger with
  | none => trivial
  | some L =>
    refine ⟨trivial, fun found => ?_⟩
    cases found with
    | none => trivial
    | some internal => exact ensureScopes_plain L _

theorem referenceTime_plain (reference : Option Nat) : (referenceTime reference).Uses Plain := by
  cases reference with
  | none => exact ⟨trivial, fun _ => trivial⟩
  | some t => trivial

theorem ensureLeasedScopes_plain (ledger : Option ClusterLedger) (limit : Nat) :
    (ensureLeasedScopes ledger limit).Uses Plain := by
  cases ledger with
  | none => trivial
  | some L => exact ⟨trivial, fun _ => ensureScopes_plain L _⟩

theorem createRun_plain (spec : RunSpec) (m n : Nat) : (createRun spec m n).Uses Plain := by
  unfold createRun
  split
  · trivial
  split
  · trivial
  · exact ⟨trivial, fun _ => ⟨trivial, fun _ => trivial⟩⟩

theorem markRunning_plain (runId : String) (epoch : Nat) : (markRunning runId epoch).Uses Plain :=
  ⟨trivial, fun _ => ⟨rfl, fun _ => trivial⟩⟩

theorem heartbeatRun_plain (runId : String) (epoch ttl : Nat) :
    (heartbeatRun runId epoch ttl).Uses Plain := ⟨trivial, fun _ => ⟨rfl, fun _ => trivial⟩⟩

theorem requeuePreempted_plain (runId : String) (epoch : Nat) :
    (requeuePreempted runId epoch).Uses Plain := ⟨rfl, fun _ => trivial⟩

theorem putScopeLimits_plain (scopeKey : String) (limit : Dimension → Option Nat) :
    (putScopeLimits scopeKey limit).Uses Plain := ⟨trivial, fun _ => trivial⟩

/-! ## Operations that read first -/

theorem utcnow_afterReading (rows : List RunRow) : utcnow.Uses (AfterReading Lg rows) :=
  ⟨trivial, fun _ => trivial⟩

variable {write : RunWrite}

theorem updateRun_afterReading {rows : List RunRow} {k : String} (hsent : Sent Lg write ledger)
    (hseen : ∀ seen ∈ write.seen, seen ∈ rows ∧ seen.runId = k) :
    (updateRun k write ledger).Uses (AfterReading Lg rows) :=
  ⟨⟨hsent, hseen⟩, fun _ => trivial⟩

theorem accounts_none (hclaim : write.claimEpoch = none) (hend : write.endEpoch = none) :
    write.Accounts Lg none := by
  intro h
  rw [hclaim, hend] at h
  rcases h with h | h <;> cases h

theorem claimLease_ok (hL : Lg ledger) (runId coordinatorId : String) (ttl maxAttempts : Nat) :
    (leases Lg).Ok (claimLease runId coordinatorId ttl maxAttempts ledger) := by
  refine (ok_of_plain (ensureScopesOf_plain ledger runId)).bind fun _ => ?_
  refine ok_of_getRun (.ret _) fun row hk => ?_
  show (if _ then _ else _ : RunProgram ClaimResult).Uses _
  split
  · trivial
  refine uses_bind (utcnow_afterReading _) fun now => ?_
  refine uses_bind (updateRun_afterReading ⟨trivial, trivial, fun _ => hL⟩ ?_) fun r => ?_
  · rintro seen ⟨⟩
    exact ⟨mem_singleton_self row, hk⟩
  · cases r <;> trivial

theorem finishRun_ok (hL : Lg ledger) (runId : String) (epoch : Nat) (status : ClusterRunStatus)
    (errorCode : Option String) :
    (leases Lg).Ok (finishRun runId epoch status errorCode ledger) := by
  unfold finishRun
  split
  · exact .ret _
  rename_i hstatus
  refine (ok_of_plain (ensureScopesOf_plain ledger runId)).bind fun _ => ?_
  refine ok_of_getRun (.ret _) fun row hk => ?_
  show (if _ then _ else _ : RunProgram Bool).Uses _
  split
  · trivial
  rename_i hepoch
  have hlawful : status ∈ terminalStatuses ∨ status = preempted := by
    by_contra hno
    exact hstatus (not_or.mp hno)
  refine uses_bind (utcnow_afterReading _) fun now => ?_
  refine uses_bind (updateRun_afterReading ⟨hlawful, not_not.mp hepoch, fun _ => hL⟩ ?_)
    fun r => trivial
  rintro seen ⟨⟩
  exact ⟨mem_singleton_self row, hk⟩

theorem forceRequeue_ok (hL : Lg ledger) (runId : String) (maxAttempts : Nat)
    (requireExpired : Bool) :
    (leases Lg).Ok (forceRequeue runId maxAttempts ledger requireExpired) := by
  refine ok_of_getRun (.ret _) fun row hk => ?_
  show (if _ then _ else _ : RunProgram (Option ReclaimOutcome)).Uses _
  split
  · trivial
  refine uses_bind (utcnow_afterReading _) fun now => ?_
  split
  · trivial
  refine uses_bind (utcnow_afterReading _) fun now => ?_
  refine uses_bind (updateRun_afterReading ⟨trivial, trivial, fun _ => hL⟩ ?_)
    fun r => trivial
  rintro seen ⟨⟩
  exact ⟨mem_singleton_self row, hk⟩

theorem requestCancel_ok (runId : String) : (leases Lg).Ok (requestCancel runId) := by
  refine ok_of_getRun (.ret _) fun row hk => ?_
  show (if _ then _ else _ : RunProgram (Bool × Option ClusterRunStatus)).Uses _
  split
  · trivial
  refine uses_bind (utcnow_afterReading _) fun now => ?_
  refine uses_bind (updateRun_afterReading ⟨trivial, trivial, accounts_none rfl rfl⟩ ?_)
    fun r => trivial
  rintro seen ⟨⟩
  exact ⟨mem_singleton_self row, hk⟩

theorem requestYield_ok (runId : String) : (leases Lg).Ok (requestYield runId) := by
  refine ok_of_getRun (.ret _) fun row hk => ?_
  show (if _ then _ else _ : RunProgram Bool).Uses _
  split
  · trivial
  refine uses_bind (utcnow_afterReading _) fun now => ?_
  refine uses_bind (updateRun_afterReading ⟨trivial, trivial, accounts_none rfl rfl⟩ ?_)
    fun r => trivial
  rintro seen ⟨⟩
  exact ⟨mem_singleton_self row, hk⟩

theorem mem_withStatus {w : RunWorld} {statuses : List ClusterRunStatus} {row : RunRow} :
    row ∈ w.withStatus statuses ↔ row ∈ w.runs.rows ∧ row.status ∈ statuses := by
  unfold RunWorld.withStatus
  rw [mem_filter, decide_eq_true_eq]

theorem cancelFlagged_ok (limit : Nat) : (leases Lg).Ok (cancelFlagged limit) := by
  refine ok_of_select trivial id (fun _ => True) (fun w row hrow => ⟨?_, trivial⟩) (fun w => rfl)
    fun rows _ => ?_
  · exact (mem_withStatus.mp (mem_filter.mp (mem_of_mem_take hrow)).1).1
  · refine uses_bind (utcnow_afterReading _) fun now => ?_
    refine uses_foldEach fun cancelled row hrow => ?_
    refine uses_bind (updateRun_afterReading ⟨trivial, trivial, accounts_none rfl rfl⟩ ?_)
      fun r => trivial
    rintro seen ⟨⟩
    exact ⟨hrow, rfl⟩

theorem mem_selectExpired {w : RunWorld} {now limit : Nat} {row : RunRow}
    (h : row ∈ w.selectExpired now limit) :
    row ∈ w.runs.rows ∧ row.Leased ∧ RunWorld.expired now row := by
  have hsorted := mem_of_mem_take h
  rw [mem_insertionSort] at hsorted
  obtain ⟨hstatus, hexpired⟩ := mem_filter.mp hsorted
  obtain ⟨hrow, hleased⟩ := mem_withStatus.mp hstatus
  exact ⟨hrow, hleased, hexpired⟩

theorem reclaimExpired_ok (hL : Lg ledger) (reference : Option Nat) (limit maxAttempts : Nat) :
    (leases Lg).Ok (reclaimExpired reference limit maxAttempts ledger) := by
  refine (ok_of_plain (referenceTime_plain reference)).bind fun now => ?_
  refine (ok_of_plain (ensureLeasedScopes_plain ledger limit)).bind fun _ => ?_
  refine ok_of_select trivial id (fun row => RunWorld.expired now row)
    (fun w row hrow => ?_) (fun w => rfl) fun rows hrows => ?_
  · obtain ⟨hmem, -, hexpired⟩ := mem_selectExpired hrow
    exact ⟨hmem, hexpired⟩
  · refine uses_foldEach fun outcomes row hrow => ?_
    refine uses_bind (updateRun_afterReading ⟨trivial, hrows row hrow, fun _ => hL⟩ ?_)
      fun r => trivial
    rintro seen ⟨⟩
    exact ⟨hrow, rfl⟩

/-! ## The programs -/

/-- Programs made of the operations of the store, with accounts that go to the ledgers `Lg`. -/
inductive Client (Lg : Option ClusterLedger → Prop) {α : Type} : RunProgram α → Prop
  | done (a : α) : Client Lg (.ret a)
  | statement {o : RunOp} {k : RunRes o → RunProgram α} :
      Plain o → (∀ r, Client Lg (k r)) → Client Lg (.act o k)
  | claimLease {runId coordinatorId : String} {ttl maxAttempts : Nat}
      {ledger : Option ClusterLedger} {k : ClaimResult → RunProgram α} :
      Lg ledger → (∀ r, Client Lg (k r)) →
      Client Lg (claimLease runId coordinatorId ttl maxAttempts ledger >>= k)
  | finishRun {runId : String} {epoch : Nat} {status : ClusterRunStatus}
      {errorCode : Option String} {ledger : Option ClusterLedger} {k : Bool → RunProgram α} :
      Lg ledger → (∀ r, Client Lg (k r)) →
      Client Lg (finishRun runId epoch status errorCode ledger >>= k)
  | reclaimExpired {reference : Option Nat} {limit maxAttempts : Nat}
      {ledger : Option ClusterLedger} {k : List (String × ReclaimOutcome) → RunProgram α} :
      Lg ledger → (∀ r, Client Lg (k r)) →
      Client Lg (reclaimExpired reference limit maxAttempts ledger >>= k)
  | forceRequeue {runId : String} {maxAttempts : Nat} {ledger : Option ClusterLedger}
      {requireExpired : Bool} {k : Option ReclaimOutcome → RunProgram α} :
      Lg ledger → (∀ r, Client Lg (k r)) →
      Client Lg (forceRequeue runId maxAttempts ledger requireExpired >>= k)
  | requestCancel {runId : String} {k : Bool × Option ClusterRunStatus → RunProgram α} :
      (∀ r, Client Lg (k r)) → Client Lg (requestCancel runId >>= k)
  | cancelFlagged {limit : Nat} {k : List String → RunProgram α} :
      (∀ r, Client Lg (k r)) → Client Lg (cancelFlagged limit >>= k)
  | requestYield {runId : String} {k : Bool → RunProgram α} :
      (∀ r, Client Lg (k r)) → Client Lg (requestYield runId >>= k)

variable {p : RunProgram α}

theorem Client.of_plain (hp : p.Uses Plain) : Client Lg p := by
  induction p with
  | ret a => exact .done a
  | act o k ih => exact .statement hp.1 fun r => ih r (hp.2 r)

theorem Client.ok (hp : Client Lg p) : (leases Lg).Ok p := by
  induction hp with
  | done a => exact .ret a
  | statement ho _ ih => exact .act (fun _ s _ => ho.followsRead s.state) ih
  | claimLease hL _ ih => exact (claimLease_ok hL _ _ _ _).bind ih
  | finishRun hL _ ih => exact (finishRun_ok hL _ _ _ _).bind ih
  | reclaimExpired hL _ ih => exact (reclaimExpired_ok hL _ _ _).bind ih
  | forceRequeue hL _ ih => exact (forceRequeue_ok hL _ _ _).bind ih
  | requestCancel _ ih => exact (requestCancel_ok _).bind ih
  | cancelFlagged _ ih => exact (cancelFlagged_ok _).bind ih
  | requestYield _ ih => exact (requestYield_ok _).bind ih

/-- `Q` is reached from a database without runs by programs of the store's operations, each
    step of which meets `guard`. -/
abbrev ClusterRuns {α : Type} (Lg : Option ClusterLedger → Prop)
    (guard : Nat → Unit → RunPast → RunOp → Prop) (Q : Pool RunOp RunRes α RunPast) : Prop :=
  Pool.Runs runRun (Client Lg) guard ⟨RunPast.init, []⟩ Q

/-- Any ledger, or none. -/
def anyLedger : Option ClusterLedger → Prop := fun _ => True

/-- What holds initially and is kept by every step that follows its read holds after every
    run. -/
theorem ClusterRuns.inv {guard : Nat → Unit → RunPast → RunOp → Prop} {I : RunPast → Prop}
    (hinit : I RunPast.init)
    (hstep : ∀ {i e s o}, I s → FollowsRead Lg s.state o → guard i e s o → I (runRun i e s o).1)
    {Q : Pool RunOp RunRes α RunPast} (h : ClusterRuns Lg guard Q) : I Q.shared := by
  let C := (leases Lg).strengthen I guard fun _ hI hg _ hgd => hstep hI hg hgd
  have hall : C.inv Q.shared :=
    C.runs_inv (h.mono (fun _ hp => hp) fun _ _ _ _ hgd => ⟨trivial, hgd⟩)
      (fun p hp => hp.ok.strengthen) ⟨trivial, hinit⟩
  exact hall.2

end WebGis.Cluster
