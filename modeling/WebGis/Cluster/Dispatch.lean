/-
  The dispatch loop of a coordinator, one free slot at a time, and whom it serves.

  The loop is one process of a pool; the others submit runs, finish them, cancel them and take
  leases back, but claim nothing. Between two rounds the position of the rotation is read back
  from the dispatch numbers of the runs that have not ended, and a run's dispatch number is the
  number of its submission. When some tenant that waits is behind the tenant served last by
  those numbers, no tenant is served twice in a row (`tenants_alternate`). Once the run served
  last has ended its tenant may be served again (`served_twice`).
-/
import WebGis.Cluster.Fairness
import WebGis.Cluster.Leases

namespace WebGis.Cluster

open Data Conc ClusterRunStatus List Option Prog Protocol Pool

/-! ## The loop -/

def scanDispatchable (limit : Nat) : RunProgram (List RunRow) :=
  Prog.lift (RunOp.scanDispatchable limit)

def tenantLastDispatch : RunProgram (Dict String Nat) := Prog.lift RunOp.tenantLastDispatch

/-- What a coordinator dispatches with. -/
structure Coordinator where
  coordinatorId : String
  leaseTtl : Nat := 30
  maxRunAttempts : Nat := defaultMaxRunAttempts
  batchSize : Nat := 32
  ledger : Option ClusterLedger := none

/-- The claim of a picked run and its start. A run that cannot be started has failed. -/
def dispatchRun (c : Coordinator) (row : RunRow) : RunProgram Unit := do
  match ← claimLease row.runId c.coordinatorId c.leaseTtl c.maxRunAttempts c.ledger with
  | .claimed epoch =>
    let started ← markRunning row.runId epoch
    if started then return ()
    else (finishRun row.runId epoch failed (some "CLAIM_RACE") c.ledger).discard
  | .refused _ => return ()
  | .lost => return ()

/-- `_dispatch`, where every candidate has a worker. -/
def dispatch (c : Coordinator) (free : Int) (within : RunRow → RunRow → Prop)
    [DecidableRel within] : RunProgram Unit := do
  if free ≤ 0 then return ()
  else
    let candidates ← scanDispatchable c.batchSize
    let last ← tenantLastDispatch
    Prog.forEach (fairPick candidates free last within) (dispatchRun c)

/-- Rounds of `_dispatch`, each with one free slot. -/
def dispatchLoop (c : Coordinator) (within : RunRow → RunRow → Prop) [DecidableRel within] :
    Nat → RunProgram Unit
  | 0 => return ()
  | n + 1 => do
      dispatch c 1 within
      dispatchLoop c within n

/-! ## Dispatches of the history -/

/-- The tenant whose run the call claimed. -/
def dispatchedTenant (d : RunCall) : Option String :=
  match d.op with
  | .update k (.claim seen co ttl now) ledger =>
    (d.before.hit k (.claim seen co ttl now) ledger).map fun hit => hit.1.tenant
  | _ => none

/-- The tenant that was dispatched last. -/
def lastDispatched (log : List RunCall) : Option String := log.findSome? dispatchedTenant

/-- What the loop scanned with the call. -/
def scannedBy (d : RunCall) : Option (List RunRow) :=
  match d.op with
  | .scanDispatchable limit => if d.who = 0 then some (d.before.scanDispatchable limit) else none
  | _ => none

/-- The candidates of the loop's latest scan. -/
def lastScanned (log : List RunCall) : List RunRow := (log.findSome? scannedBy).getD []

/-- The call does not dispatch `A` or `B` when that tenant was dispatched last. -/
def Alternates (A B : String) (d : RunCall) (earlier : List RunCall) : Prop :=
  ∀ t, dispatchedTenant d = some t → t = A ∨ t = B → lastDispatched earlier ≠ some t

/-- Both tenants have candidates, all of one priority. -/
def BothWait (A B : String) (s : RunPast) : Prop :=
  (∃ row ∈ lastScanned s.log, row.tenantKey = some A) ∧
  (∃ row ∈ lastScanned s.log, row.tenantKey = some B) ∧
  ∀ row ∈ lastScanned s.log, ∀ row' ∈ lastScanned s.log, row.tenant = A ∨ row.tenant = B →
    row'.tenant = A ∨ row'.tenant = B → row.priority = row'.priority

/-! ## The condition -/

/-- A run of `a` that has not ended has a greater dispatch number than all those of `t`; of two
    tenants without any the greater name counts as served. -/
def Overtakes (w : RunWorld) (t a : String) : Prop :=
  ∃ row ∈ w.runs.rows, row.tenantKey = some a ∧ ¬ row.Terminal ∧
    ∀ row' ∈ w.runs.rows, row'.tenantKey = some t → ¬ row'.Terminal →
      toLex (row'.dispatchSeq.getD 0, t) < toLex (row.dispatchSeq.getD 0, a)

instance (w : RunWorld) (t a : String) : Decidable (Overtakes w t a) := by
  unfold Overtakes
  exact inferInstance

/-- If `A` or `B` was dispatched last, a tenant that waits is behind it. -/
def TurnKept (A B : String) (s : RunPast) : Prop :=
  ∀ a ∈ lastDispatched s.log, a = A ∨ a = B →
    ∃ row ∈ lastScanned s.log, row.tenant ≠ a ∧ Overtakes s.state row.tenant a

/-- `P` holds whenever the loop reads the rotation. -/
def AtPick (P : RunPast → Prop) (i : Nat) (s : RunPast) : RunOp → Prop
  | .tenantLastDispatch => i = 0 → P s
  | _ => True

instance (P : RunPast → Prop) [DecidablePred P] (i : Nat) (s : RunPast) (o : RunOp) :
    Decidable (AtPick P i s o) := by
  unfold AtPick
  split <;> exact inferInstance

instance (A B : String) : DecidablePred (TurnKept A B) := fun s => by
  unfold TurnKept
  exact inferInstance

instance (A B : String) : DecidablePred (BothWait A B) := fun s => by
  unfold BothWait
  exact inferInstance

/-- The statements that claim nothing. -/
def NoClaim : RunOp → Prop
  | .update _ (.claim _ _ _ _) _ => False
  | _ => True

/-- `Q` is reached from a database without runs by the loop and programs that claim nothing,
    and `P` holds whenever the loop reads the rotation. -/
abbrev DispatchRuns (c : Coordinator) (within : RunRow → RunRow → Prop) [DecidableRel within]
    (n : Nat) (P : RunPast → Prop) (Q : Pool RunOp RunRes Unit RunPast) : Prop :=
  Pool.Runs runRun (Prog.Uses NoClaim) (fun i _ s o => AtPick P i s o)
    ⟨RunPast.init, [dispatchLoop c within n]⟩ Q

/-! ## The rotation that is read back -/

/-- The fold of `tenant_last_dispatch`, one run at a time. -/
def noteDispatch (last : Dict String Nat) (row : RunRow) : Dict String Nat :=
  match row.tenantKey with
  | none => last
  | some t => last.set t (max (last.getD t 0) (row.dispatchSeq.getD 0))

theorem tenantLastDispatch_eq (w : RunWorld) : w.tenantLastDispatch =
    (w.runs.rows.filter fun row => row.status ∉ terminalStatuses).foldl noteDispatch Dict.empty :=
  rfl

theorem find_noteDispatch (last : Dict String Nat) (row : RunRow) (t : String) :
    (noteDispatch last row).find t =
      if row.tenantKey = some t then some (max (last.getD t 0) (row.dispatchSeq.getD 0))
      else last.find t := by
  unfold noteDispatch
  cases htenant : row.tenantKey with
  | none => exact (if_neg (some_ne_none t).symm).symm
  | some t' =>
    rw [Dict.find_set]
    by_cases h : t' = t
    · rw [if_pos h, if_pos (congrArg some h), h]
    · rw [if_neg h, if_neg fun he => h (some.inj he)]

theorem find_foldl_noteDispatch (rows : List RunRow) (last : Dict String Nat) (t : String) :
    (∀ m, last.find t = some m → ∃ n, (rows.foldl noteDispatch last).find t = some n ∧ m ≤ n) ∧
    (∀ row ∈ rows, row.tenantKey = some t →
      ∃ n, (rows.foldl noteDispatch last).find t = some n ∧ row.dispatchSeq.getD 0 ≤ n) ∧
    (∀ n, (rows.foldl noteDispatch last).find t = some n → last.find t = some n ∨
      ∃ row ∈ rows, row.tenantKey = some t ∧ n = row.dispatchSeq.getD 0) := by
  induction rows generalizing last with
  | nil => exact ⟨fun m h => ⟨m, h, le_refl m⟩, fun _ h => absurd h not_mem_nil,
      fun _ h => .inl h⟩
  | cons row rows ih =>
    obtain ⟨hold, hrows, hval⟩ := ih (noteDispatch last row)
    have hfind := find_noteDispatch last row t
    rw [foldl_cons]
    refine ⟨fun m hm => ?_, fun row' hrow' ht => ?_, fun n hn => ?_⟩
    · by_cases ht : row.tenantKey = some t
      · rw [if_pos ht] at hfind
        obtain ⟨n, hn, hle⟩ := hold _ hfind
        have hm' : last.getD t 0 = m := by
          unfold Dict.getD
          rw [hm]
          rfl
        exact ⟨n, hn, by omega⟩
      · rw [if_neg ht, hm] at hfind
        exact hold m hfind
    · rcases mem_cons.mp hrow' with rfl | hrow'
      · rw [if_pos ht] at hfind
        obtain ⟨n, hn, hle⟩ := hold _ hfind
        exact ⟨n, hn, by omega⟩
      · exact hrows row' hrow' ht
    · rcases hval n hn with h | ⟨row', hrow', ht, hn'⟩
      · by_cases ht : row.tenantKey = some t
        · rw [if_pos ht] at hfind
          have hmax : max (last.getD t 0) (row.dispatchSeq.getD 0) = n :=
            some.inj (hfind.symm.trans h)
          cases hlast : last.find t with
          | none =>
            have hzero : last.getD t 0 = 0 := by
              unfold Dict.getD
              rw [hlast]
              rfl
            exact .inr ⟨row, mem_cons_self, ht, by omega⟩
          | some m =>
            have hm : last.getD t 0 = m := by
              unfold Dict.getD
              rw [hlast]
              rfl
            rcases Nat.le_total (row.dispatchSeq.getD 0) m with hle | hle
            · exact .inl (by rw [← hmax, hm, Nat.max_eq_left hle])
            · exact .inr ⟨row, mem_cons_self, ht, by omega⟩
        · rw [if_neg ht] at hfind
          exact .inl (hfind.symm.trans h)
      · exact .inr ⟨row', mem_cons_of_mem _ hrow', ht, hn'⟩

variable {w : RunWorld}

theorem mem_tenantLastDispatch {row : RunRow} {a : String} (hrow : row ∈ w.runs.rows)
    (ha : row.tenantKey = some a) (hlive : ¬ row.Terminal) :
    ∃ n, w.tenantLastDispatch.find a = some n ∧ row.dispatchSeq.getD 0 ≤ n := by
  rw [tenantLastDispatch_eq]
  refine (find_foldl_noteDispatch _ Dict.empty a).2.1 row ?_ ha
  exact mem_filter.mpr ⟨hrow, decide_eq_true hlive⟩

variable {t : String}

theorem of_find_tenantLastDispatch {n : Nat} (h : w.tenantLastDispatch.find t = some n) :
    ∃ row ∈ w.runs.rows, row.tenantKey = some t ∧ ¬ row.Terminal ∧
      n = row.dispatchSeq.getD 0 := by
  rw [tenantLastDispatch_eq] at h
  rcases (find_foldl_noteDispatch _ Dict.empty t).2.2 n h with h | ⟨row, hrow, ht, hn⟩
  · cases h
  obtain ⟨hmem, hlive⟩ := mem_filter.mp hrow
  exact ⟨row, hmem, ht, of_decide_eq_true hlive, hn⟩

theorem Overtakes.turn_lt {a : String} (h : Overtakes w t a) :
    turn w.tenantLastDispatch t < turn w.tenantLastDispatch a := by
  obtain ⟨row, hrow, ha, hlive, hall⟩ := h
  obtain ⟨n, hn, hle⟩ := mem_tenantLastDispatch hrow ha hlive
  unfold turn
  rw [hn, Prod.Lex.toLex_lt_toLex]
  cases ht : w.tenantLastDispatch.find t with
  | none =>
    refine .inl ?_
    show (-1 : Int) < n
    omega
  | some m =>
    obtain ⟨row', hrow', htenant, hlive', rfl⟩ := of_find_tenantLastDispatch ht
    have hlt := Prod.Lex.toLex_lt_toLex.mp (hall row' hrow' htenant hlive')
    show ((row'.dispatchSeq.getD 0 : Nat) : Int) < n ∨
      ((row'.dispatchSeq.getD 0 : Nat) : Int) = n ∧ t < a
    rcases hlt with hlt | ⟨heq, hname⟩
    · left
      have hlt' : row'.dispatchSeq.getD 0 < row.dispatchSeq.getD 0 := hlt
      omega
    · have heq' : row'.dispatchSeq.getD 0 = row.dispatchSeq.getD 0 := heq
      rcases Nat.lt_or_ge (row'.dispatchSeq.getD 0) n with h | h
      · exact .inl (by omega)
      · exact .inr ⟨by omega, hname⟩

/-! ## The protocol -/

/-- Every run stays, with its tenant. -/
def SameTenants (w w' : RunWorld) : Prop :=
  ∀ k row, w.run k = some row → ∃ row', w'.run k = some row' ∧ row'.tenant = row.tenant

theorem sameTenants_runExec (w : RunWorld) (o : RunOp) : SameTenants w (runExec w o).1 := by
  intro k row hrow
  obtain ⟨row', hrow', hstep⟩ := runExec_row w o hrow
  refine ⟨row', hrow', ?_⟩
  cases hstep with
  | kept _ => rfl
  | @written write ledger u reserved _ _ => cases write <;> rfl

variable {d : RunCall}

theorem dispatchedTenant_of_noClaim (h : NoClaim d.op) : dispatchedTenant d = none := by
  unfold dispatchedTenant
  split
  · rename_i hop
    rw [hop] at h
    exact h.elim
  · rfl

theorem lastDispatched_cons (h : NoClaim d.op) (log : List RunCall) :
    lastDispatched (d :: log) = lastDispatched log := by
  unfold lastDispatched
  rw [findSome?_cons, dispatchedTenant_of_noClaim h]

theorem scannedBy_of_ne (h : d.who ≠ 0) : scannedBy d = none := by
  unfold scannedBy
  split
  · exact if_neg h
  · rfl

theorem lastScanned_cons (h : d.who ≠ 0) (log : List RunCall) :
    lastScanned (d :: log) = lastScanned log := by
  unfold lastScanned
  rw [findSome?_cons, scannedBy_of_ne h]

/-- Only the loop claims, and it does not claim for the tenant it served last. -/
def dispatching (A B : String) : Protocol runRun where
  inv s := Always (Alternates A B) s.log
  rely i s t := SameTenants s.state t.state ∧ (i = 0 →
    lastDispatched t.log = lastDispatched s.log ∧ lastScanned t.log = lastScanned s.log)
  guar i s o := (i ≠ 0 → NoClaim o) ∧ Alternates A B ⟨i, (), s.state, o⟩ s.log
  guard i _ s o := AtPick (TurnKept A B) i s o
  rely_refl _ _ := ⟨fun _ row h => ⟨row, h, rfl⟩, fun _ => ⟨rfl, rfl⟩⟩
  rely_trans h h' := by
    refine ⟨fun k row hrow => ?_, fun hi => ?_⟩
    · obtain ⟨row', hrow', he⟩ := h.1 k row hrow
      obtain ⟨row'', hrow'', he'⟩ := h'.1 k row' hrow'
      exact ⟨row'', hrow'', he'.trans he⟩
    · exact ⟨(h'.2 hi).1.trans (h.2 hi).1, (h'.2 hi).2.trans (h.2 hi).2⟩
  inv_step hs hg _ := ⟨hg.2, hs⟩
  rely_step hij _ hg _ := by
    refine ⟨sameTenants_runExec _ _, ?_⟩
    rintro rfl
    exact ⟨lastDispatched_cons (hg.1 (Ne.symm hij)) _, lastScanned_cons (Ne.symm hij) _⟩

section Safety

variable {A B : String} {α : Type}

theorem alternates_of_noClaim {d : RunCall} (h : NoClaim d.op) (earlier : List RunCall) :
    Alternates A B d earlier := by
  intro t ht
  rw [dispatchedTenant_of_noClaim h] at ht
  cases ht

theorem guar_of_noClaim {o : RunOp} (ho : NoClaim o) (i : Nat) (s : RunPast) :
    (dispatching A B).guar i s o := ⟨fun _ => ho, alternates_of_noClaim ho _⟩

variable {p : RunProgram α}

theorem ok_of_noClaim (hp : p.Uses NoClaim) : (dispatching A B).Ok p := by
  induction p with
  | ret a => exact .ret a
  | act o k ih => exact .act (fun i s _ => guar_of_noClaim hp.1 i s) fun r => ih r (hp.2 r)

theorem noClaim_of_plain (hp : p.Uses Plain) : p.Uses NoClaim := by
  refine hp.mono fun o ho => ?_
  cases o with
  | update k write ledger =>
    cases write with
    | claim => cases ho
    | _ => trivial
  | _ => trivial

theorem finishRun_noClaim (runId : String) (epoch : Nat) (status : ClusterRunStatus)
    (errorCode : Option String) (ledger : Option ClusterLedger) :
    (finishRun runId epoch status errorCode ledger).Uses NoClaim := by
  unfold finishRun
  split
  · trivial
  refine uses_bind (noClaim_of_plain (ensureScopesOf_plain ledger runId)) fun _ => ?_
  refine ⟨trivial, fun found => ?_⟩
  cases found with
  | none => trivial
  | some row =>
    show (if _ then _ else _ : RunProgram Bool).Uses _
    split
    · trivial
    · exact ⟨trivial, fun _ => ⟨trivial, fun _ => trivial⟩⟩

/-- The run `k` is one of tenant `t`, and it is not `t` that has to wait. -/
def MayServe (A B k t : String) (s : RunPast) : Prop :=
  (∃ row, s.state.run k = some row ∧ row.tenant = t) ∧
    ∀ a, lastDispatched s.log = some a → a = A ∨ a = B → t ≠ a

variable {k t : String} {s : RunPast}

theorem MayServe.later {s' : RunPast} (h : MayServe A B k t s)
    (hr : (dispatching A B).rely 0 s s') : MayServe A B k t s' := by
  obtain ⟨⟨row, hrow, ht⟩, hfair⟩ := h
  obtain ⟨row', hrow', ht'⟩ := hr.1 k row hrow
  refine ⟨⟨row', hrow', ht'.trans ht⟩, ?_⟩
  rw [(hr.2 rfl).1]
  exact hfair

theorem MayServe.own (h : MayServe A B k t s) {o : RunOp} (ho : NoClaim o) (i : Nat) (e : Unit) :
    MayServe A B k t (runRun i e s o).1 := by
  obtain ⟨⟨row, hrow, ht⟩, hfair⟩ := h
  obtain ⟨row', hrow', ht'⟩ := sameTenants_runExec s.state o k row hrow
  refine ⟨⟨row', hrow', ht'.trans ht⟩, ?_⟩
  rw [traced_log, lastDispatched_cons ho]
  exact hfair

theorem MayServe.alternates (h : MayServe A B k t s) (i : Nat) (e : Unit) (write : RunWrite)
    (ledger : Option ClusterLedger) :
    Alternates A B ⟨i, e, s.state, .update k write ledger⟩ s.log := by
  obtain ⟨⟨row, hrow, ht⟩, hfair⟩ := h
  intro t' hdisp hAB hlast
  cases write with
  | claim seen co ttl now =>
    obtain ⟨⟨row', u, reserved⟩, hhit, rfl⟩ := map_eq_some_iff.mp hdisp
    have hsame : row' = row := some.inj ((hit_eq_some.mp hhit).1.symm.trans hrow)
    subst hsame
    exact hfair _ hlast hAB ht.symm
  | _ => cases hdisp

theorem claimLease_safe (hs : (dispatching A B).inv s) (h : MayServe A B k t s) (co : String)
    (ttl maxAttempts : Nat) (ledger : Option ClusterLedger) :
    (dispatching A B).Safe 0 Protocol.anyEnd (claimLease k co ttl maxAttempts ledger) s := by
  have hscopes : (dispatching A B).Safe 0 (fun _ s' => MayServe A B k t s')
      (ensureScopesOf ledger k) s :=
    safe_of_fact _ (fun _ _ hr hF => hF.later hr)
      (fun s' _ _ _ ho => guar_of_noClaim ho 0 s')
      (fun _ _ _ hF ho => hF.own ho _ _) (noClaim_of_plain (ensureScopesOf_plain ledger k)) h
  refine hscopes.bind hs fun _ s1 hs1 h1 => ?_
  intro s2 hr2 hs2
  have h2 := (h1.later hr2).own (o := .getRun k) trivial 0 ()
  refine ⟨guar_of_noClaim (o := .getRun k) trivial 0 s2, fun e _ => ?_⟩
  generalize (runRun 0 e s2 (.getRun k)).2 = found
  cases found with
  | none => exact safe_ret _ _
  | some row =>
    show (dispatching A B).Safe 0 Protocol.anyEnd (if _ then _ else _ : RunProgram ClaimResult) _
    split
    · exact safe_ret _ _
    intro s3 hr3 hs3
    refine ⟨guar_of_noClaim (o := .utcnow) trivial 0 s3, fun e' _ => ?_⟩
    intro s4 hr4 hs4
    have h4 := ((h2.later hr3).own (o := .utcnow) trivial 0 e').later hr4
    refine ⟨⟨fun hne => absurd rfl hne, h4.alternates _ _ _ _⟩, fun e'' _ => ?_⟩
    generalize (runRun 0 e'' s4 _).2 = r
    cases r <;> exact safe_ret _ _

theorem dispatchRun_safe {row : RunRow} (hs : (dispatching A B).inv s)
    (h : MayServe A B row.runId row.tenant s) (c : Coordinator) :
    (dispatching A B).Safe 0 Protocol.anyEnd (dispatchRun c row) s := by
  refine (claimLease_safe hs h _ _ _ _).bind hs fun r s' hs' _ => ?_
  refine ok_of_noClaim ?_ 0 s' hs'
  cases r with
  | claimed epoch =>
    refine uses_bind (noClaim_of_plain (markRunning_plain _ _)) fun started => ?_
    split
    · trivial
    · exact uses_bind (finishRun_noClaim _ _ _ _ _) fun _ => trivial
  | refused why => trivial
  | lost => trivial

theorem mem_scanDispatchable {w : RunWorld} {limit : Nat} {row : RunRow}
    (h : row ∈ w.scanDispatchable limit) : w.run row.runId = some row := by
  have hsorted := mem_of_mem_take h
  rw [mem_insertionSort] at hsorted
  exact Table.get_of_mem (mem_withStatus.mp hsorted).1

theorem dispatch_safe (c : Coordinator) (within : RunRow → RunRow → Prop) [DecidableRel within]
    (s : RunPast) :
    (dispatching A B).Safe 0 Protocol.anyEnd (dispatch c 1 within) s := by
  unfold dispatch
  rw [if_neg (by decide)]
  intro s1 _ _
  refine ⟨guar_of_noClaim (o := .scanDispatchable _) trivial 0 s1, fun e _ => ?_⟩
  -- the candidates, and what is known of them from now on
  have hscanned : lastScanned (runRun 0 e s1 (.scanDispatchable c.batchSize)).1.log =
      s1.state.scanDispatchable c.batchSize := rfl
  intro s2 hr2 hs2
  have hscanned2 := (hr2.2 rfl).2.trans hscanned
  refine ⟨guar_of_noClaim (o := .tenantLastDispatch) trivial 0 s2, fun e' hturn => ?_⟩
  show (dispatching A B).Safe 0 Protocol.anyEnd
    (Prog.forEach (fairPick (s1.state.scanDispatchable c.batchSize) 1 s2.state.tenantLastDispatch
      within) (dispatchRun c)) (runRun 0 e' s2 .tenantLastDispatch).1
  have hlength := length_fairPick (s1.state.scanDispatchable c.batchSize) 1
    s2.state.tenantLastDispatch within
  have hpick : ∀ row ∈ fairPick (s1.state.scanDispatchable c.batchSize) 1
      s2.state.tenantLastDispatch within,
      MayServe A B row.runId row.tenant (runRun 0 e' s2 .tenantLastDispatch).1 := by
    intro row hrow
    obtain ⟨hmem, hfirst⟩ := fairPick_one hrow
    obtain ⟨row2, hrow2, htenant⟩ := hr2.1 row.runId row (mem_scanDispatchable hmem)
    refine MayServe.own (o := .tenantLastDispatch)
      ⟨⟨row2, hrow2, htenant⟩, fun a hlast hAB he => ?_⟩ trivial 0 e'
    obtain ⟨row', hrow', -, hover⟩ := hturn rfl a hlast hAB
    rw [hscanned2] at hrow'
    have hle := hfirst row' hrow'
    rw [he] at hle
    exact absurd hover.turn_lt (not_lt.mpr hle)
  have hs3 : (dispatching A B).inv (runRun 0 e' s2 .tenantLastDispatch).1 :=
    (dispatching A B).inv_step hs2 (guar_of_noClaim (o := .tenantLastDispatch) trivial 0 s2) hturn
  cases hpicks : fairPick (s1.state.scanDispatchable c.batchSize) 1 s2.state.tenantLastDispatch
      within with
  | nil => exact safe_ret _ _
  | cons row rest =>
    rw [hpicks] at hlength hpick
    have hrest : rest = [] := by
      rw [length_cons, show (1 : Int).toNat = 1 from rfl] at hlength
      exact length_eq_zero_iff.mp (by omega)
    rw [hrest]
    exact (dispatchRun_safe hs3 (hpick row mem_cons_self) c).bind hs3
      fun _ _ _ _ => safe_ret _ _

theorem dispatchLoop_safe (c : Coordinator) (within : RunRow → RunRow → Prop) [DecidableRel within]
    (n : Nat) (hs : (dispatching A B).inv s) :
    (dispatching A B).Safe 0 Protocol.anyEnd (dispatchLoop c within n) s := by
  induction n generalizing s with
  | zero => exact safe_ret _ _
  | succ n ih => exact (dispatch_safe c within s).bind hs fun _ _ ht _ => ih ht

end Safety

/-! ## Runs -/

/-- **Tenants take turns** in every run in which, whenever the loop reads the rotation, a tenant
    that waits is behind the one of `A` and `B` that was served last: neither is dispatched
    twice in a row. -/
theorem tenants_alternate {A B : String} {c : Coordinator} {within : RunRow → RunRow → Prop}
    [DecidableRel within] {n : Nat} {Q : Pool RunOp RunRes Unit RunPast}
    (h : DispatchRuns c within n (TurnKept A B) Q) (later earlier : List RunCall) (d : RunCall)
    (hlog : Q.shared.log = later ++ d :: earlier) : Alternates A B d earlier := by
  have hinit : (dispatching A B).inv RunPast.init := trivial
  have hinv : (dispatching A B).inv Q.shared := by
    refine ((dispatching A B).runs_safe h (fun p hp => ok_of_noClaim hp) hinit ?_).1
    intro i p hp
    cases i with
    | zero =>
      cases hp
      exact dispatchLoop_safe c within n hinit
    | succ i => cases hp
  have hall : Always (Alternates A B) Q.shared.log := hinv
  rw [hlog] at hall
  exact hall.split

/-- A run of a tenant. -/
def waitingSpec (runId tenantKey : String) : RunSpec :=
  { plainSpec runId with tenantKey := some tenantKey }

/-- A coordinator with two rounds to go. -/
def twoRounds : Pool RunOp RunRes Unit RunPast :=
  ⟨RunPast.init, [dispatchLoop { coordinatorId := "coord-a" } defaultOrder 2]⟩

/-- Two runs of the first tenant and one of the second wait; a run of the first is dispatched. -/
def servedFirst : List (Pool.Move RunOp RunRes Unit Unit) :=
  Pool.solo 1 2 () (createRun (waitingSpec "gexec-1" "t:a") 32 256).discard ++
    Pool.solo 2 2 () (createRun (waitingSpec "gexec-2" "t:a") 32 256).discard ++
    Pool.solo 3 2 () (createRun (waitingSpec "gexec-3" "t:b") 32 256).discard ++
    List.replicate 7 (.step 0 ())

/-- The next round comes while that run is going on. -/
def servedInTurn : List (Pool.Move RunOp RunRes Unit Unit) :=
  servedFirst ++ List.replicate 5 (.step 0 ())

/-- That run completes before the next round. -/
def servedAgain : List (Pool.Move RunOp RunRes Unit Unit) :=
  servedFirst ++ Pool.solo 4 3 () (finishRun "gexec-1" 1 completed none none).discard ++
    List.replicate 5 (.step 0 ())

variable {m : Pool.Move RunOp RunRes Unit Unit}

theorem servedFirst_starts (hm : m ∈ servedFirst) {p : RunProgram Unit} (hp : m.starts = some p) :
    p.Uses NoClaim := by
  have hcreate : ∀ spec, (createRun spec 32 256).discard.Uses NoClaim := fun spec =>
    noClaim_of_plain (uses_bind (createRun_plain spec 32 256) fun _ => trivial)
  simp only [servedFirst, mem_append] at hm
  rcases hm with ((hm | hm) | hm) | hm
  · rw [starts_solo hm hp]
    exact hcreate _
  · rw [starts_solo hm hp]
    exact hcreate _
  · rw [starts_solo hm hp]
    exact hcreate _
  · obtain ⟨-, rfl⟩ := mem_replicate.mp hm
    cases hp

theorem servedInTurn_starts (hm : m ∈ servedInTurn) (p : RunProgram Unit) (hp : m.starts = some p) :
    p.Uses NoClaim := by
  rcases mem_append.mp hm with hm | hm
  · exact servedFirst_starts hm hp
  · obtain ⟨-, rfl⟩ := mem_replicate.mp hm
    cases hp

theorem servedAgain_starts (hm : m ∈ servedAgain) (p : RunProgram Unit) (hp : m.starts = some p) :
    p.Uses NoClaim := by
  simp only [servedAgain, mem_append] at hm
  rcases hm with (hm | hm) | hm
  · exact servedFirst_starts hm hp
  · rw [starts_solo hm hp]
    exact uses_bind (finishRun_noClaim _ _ _ _ _) fun _ => trivial
  · obtain ⟨-, rfl⟩ := mem_replicate.mp hm
    cases hp

/-- The tenants of the last dispatch of a schedule and of the one before it. -/
def lastTwo (ms : List (Pool.Move RunOp RunRes Unit Unit)) : Option (String × Option String) :=
  match (Pool.play runRun twoRounds ms).shared.log with
  | [] => none
  | d :: earlier => (dispatchedTenant d).map fun t => (t, lastDispatched earlier)

theorem lastTwo_spec {ms : List (Pool.Move RunOp RunRes Unit Unit)} {before : Option String}
    (h : lastTwo ms = some (t, before)) :
    ∃ d earlier, (Pool.play runRun twoRounds ms).shared.log = d :: earlier ∧
      dispatchedTenant d = some t ∧ lastDispatched earlier = before := by
  unfold lastTwo at h
  split at h
  · cases h
  rename_i d earlier hlog
  obtain ⟨t', ht, he⟩ := map_eq_some_iff.mp h
  obtain ⟨rfl, rfl⟩ := Prod.mk.inj he
  exact ⟨d, earlier, hlog, ht, rfl⟩

theorem tenants_alternate_of_servedInTurn :
    ∃ (Q : Pool RunOp RunRes Unit RunPast) (d : RunCall) (earlier : List RunCall),
      DispatchRuns { coordinatorId := "coord-a" } defaultOrder 2 (TurnKept "t:a" "t:b") Q ∧
      Q.shared.log = d :: earlier ∧ dispatchedTenant d = some "t:b" ∧
      lastDispatched earlier = some "t:a" ∧ Alternates "t:a" "t:b" d earlier := by
  have hruns : DispatchRuns { coordinatorId := "coord-a" } defaultOrder 2 (TurnKept "t:a" "t:b")
      (Pool.play runRun twoRounds servedInTurn) :=
    Pool.play_guarded runRun _ _ (fun m hm => servedInTurn_starts hm)
      (respects_sound runRun (by decide +kernel))
  have hlast : lastTwo servedInTurn = some ("t:b", some "t:a") := by decide +kernel
  obtain ⟨d, earlier, hlog, hnow, hbefore⟩ := lastTwo_spec hlast
  exact ⟨_, d, earlier, hruns, hlog, hnow, hbefore, tenants_alternate hruns [] earlier d hlog⟩

/-- The first tenant is served twice in a row while the second waits. -/
theorem served_twice :
    ∃ (Q : Pool RunOp RunRes Unit RunPast) (d : RunCall) (earlier : List RunCall),
      DispatchRuns { coordinatorId := "coord-a" } defaultOrder 2 (BothWait "t:a" "t:b") Q ∧
      Q.shared.log = d :: earlier ∧ ¬ Alternates "t:a" "t:b" d earlier := by
  have hruns : DispatchRuns { coordinatorId := "coord-a" } defaultOrder 2 (BothWait "t:a" "t:b")
      (Pool.play runRun twoRounds servedAgain) :=
    Pool.play_guarded runRun _ _ (fun m hm => servedAgain_starts hm)
      (respects_sound runRun (by decide +kernel))
  have hlast : lastTwo servedAgain = some ("t:a", some "t:a") := by decide +kernel
  obtain ⟨d, earlier, hlog, hnow, hbefore⟩ := lastTwo_spec hlast
  exact ⟨_, d, earlier, hruns, hlog, fun h => h "t:a" hnow (.inl rfl) hbefore⟩

end WebGis.Cluster
