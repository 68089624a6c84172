/-
  The sweeps as a protocol.

  A sweep lists rows under a cutoff in one statement and updates them in later ones; the
  update looks at the status only. `sweeps` is the protocol of programs whose sweep updates
  follow their own listing: every such update is of a job that the listing had, so what the
  listing looked for is known of the job, at the time of the listing.
-/
import WebGis.Jobs.Cancel

namespace WebGis.Jobs

open Data Conc JobStatus List Prog

/-! ## Sweeps of the history -/

inductive Sweep where
  | stale | orphans
  deriving DecidableEq

namespace Sweep

/-- The cutoff of a listing. -/
def cutoff : Sweep → JobOp → Option Nat
  | .stale, .selectStale c _ => some c
  | .orphans, .selectOrphans c _ => some c
  | _, _ => none

/-- What the listing looks for. -/
def takes : Sweep → Nat → JobRow → Bool
  | .stale => JobWorld.isStale
  | .orphans => JobWorld.isOrphan

/-- Whether the update is one of this sweep's. -/
def sends : Sweep → TransitionStmt → Bool
  | .stale, u => u.target = JobStatus.stale
  | .orphans, u => u.target = failed && u.expected = some [pending, queued]

/-- A listing of process `i`. -/
def listedBy (kind : Sweep) (i : Nat) (d : JobCall) : Bool := d.who = i && (kind.cutoff d.op).isSome

/-- The last listing of process `i`. -/
def listing (kind : Sweep) (i : Nat) (log : List JobCall) : Option JobCall :=
  log.find? (kind.listedBy i)

/-- The calls since that listing, newest first. -/
def since (kind : Sweep) (i : Nat) (log : List JobCall) : List JobCall :=
  log.takeWhile fun d => !kind.listedBy i d

/-- The cutoff of the last listing. -/
def lastCutoff (kind : Sweep) (i : Nat) (log : List JobCall) : Option Nat :=
  (kind.listing i log).bind fun d => kind.cutoff d.op

/-- The last listing of process `i`, with the cutoff `c`, looks for the row of job `k`. -/
def Listed (kind : Sweep) (i : Nat) (log : List JobCall) (k c : Nat) : Prop :=
  ∃ d row, kind.listing i log = some d ∧ kind.cutoff d.op = some c ∧ d.before.job k = some row ∧
    kind.takes c row = true

variable {kind : Sweep} {i k c : Nat} {log : List JobCall} {d : JobCall}

theorem bySweep_of_sends {u : TransitionStmt} (h : kind.sends u) : u.bySweep := by
  unfold TransitionStmt.bySweep
  cases kind
  · simp only [sends, decide_eq_true_eq] at h
    simp [h]
  · simp only [sends] at h
    simp [h]

theorem Listed.lastCutoff (h : kind.Listed i log k c) : kind.lastCutoff i log = some c := by
  obtain ⟨d, row, hd, hc, -, -⟩ := h
  rw [Sweep.lastCutoff, hd, Option.bind_some, hc]

theorem listing_cons_of_not (h : kind.listedBy i d = false) :
    kind.listing i (d :: log) = kind.listing i log :=
  find?_cons_of_neg (by simp [h])

theorem since_cons_of_not (h : kind.listedBy i d = false) :
    kind.since i (d :: log) = d :: kind.since i log :=
  takeWhile_cons_of_pos (by simp [h])

theorem listing_cons_self (h : kind.listedBy i d) : kind.listing i (d :: log) = some d :=
  find?_cons_of_pos h

theorem Listed.later (h : kind.Listed i log k c) (hd : kind.listedBy i d = false) :
    kind.Listed i (d :: log) k c := by
  unfold Listed
  rw [listing_cons_of_not hd]
  exact h

theorem Listed.earlier (h : kind.Listed i (d :: log) k c) (hd : kind.listedBy i d = false) :
    kind.Listed i log k c := by
  unfold Listed at h
  rw [listing_cons_of_not hd] at h
  exact h

theorem Listed.fresh (h : kind.Listed i (d :: log) k c) (hd : kind.listedBy i d) :
    kind.cutoff d.op = some c ∧ ∃ row, d.before.job k = some row ∧ kind.takes c row := by
  obtain ⟨d', row, hlist, hc, hrow, htakes⟩ := h
  rw [listing_cons_self hd] at hlist
  cases hlist
  exact ⟨hc, row, hrow, htakes⟩

theorem not_listedBy_of_op (h : kind.cutoff d.op = none) : kind.listedBy i d = false := by
  simp [listedBy, h]

theorem not_listedBy_of_who (h : d.who ≠ i) : kind.listedBy i d = false := by
  simp [listedBy, h]

theorem exec_of_listedBy (h : kind.listedBy i d) : (jobExec d.before d.op).1 = d.before := by
  obtain ⟨who, env, w, o⟩ := d
  cases o with
  | selectStale c limit => rfl
  | selectOrphans c limit => rfl
  | _ => cases kind <;> simp [listedBy, cutoff] at h

end Sweep

open Sweep

/-! ## The protocol -/

/-- The update of a sweep is of a job that the sweep has listed. -/
def FollowsListing (i : Nat) (log : List JobCall) : JobOp → Prop
  | .update u => ∀ kind : Sweep, kind.sends u = true → ∃ c, kind.Listed i log u.jobId c
  | _ => True

/-- Programs that send the updates of a sweep after its listing. -/
def sweeps : Protocol jobRun where
  inv s := Always (fun d earlier => FollowsListing d.who earlier d.op) s.log
  rely i s t := ∀ (kind : Sweep) k c, kind.Listed i s.log k c → kind.Listed i t.log k c
  guar i s o := StoreOp o ∧ FollowsListing i s.log o
  guard := Pool.free
  rely_refl _ _ _ _ _ h := h
  rely_trans h h' kind k c hl := h' kind k c (h kind k c hl)
  inv_step hs hg _ := ⟨hg.2, hs⟩
  rely_step hij _ _ _ _ _ _ h := h.later (not_listedBy_of_who hij.symm)

/-- The jobs of a listing, as the process that made it knows them. -/
def JobsListed (kind : Sweep) (i : Nat) (jobs : List JobRow) (s : JobPast) : Prop :=
  ∀ job ∈ jobs, ∃ c, kind.Listed i s.log job.id c

variable {jobs : List JobRow}

theorem jobsListed_of_select {kind : Sweep} {i c : Nat} {e : Unit} {s : JobPast} {o : JobOp}
    (ho : kind.cutoff o = some c)
    (hjobs : ∀ job ∈ jobs, job ∈ s.state.jobs.rows ∧ kind.takes c job) :
    JobsListed kind i jobs (jobRun i e s o).1 := by
  intro job hjob
  obtain ⟨hrow, htakes⟩ := hjobs job hjob
  have hlist : kind.listedBy i ⟨i, e, s.state, o⟩ := by simp [listedBy, ho]
  exact ⟨c, _, job, listing_cons_self hlist, ho, Table.get_of_mem hrow, htakes⟩

/-- The statements of a sweep after its listing `jobs`. -/
def AfterListing (kind : Sweep) (jobs : List JobRow) (o : JobOp) : Prop :=
  StoreOp o ∧ (∀ kind' : Sweep, kind'.cutoff o = none) ∧
    ∀ u, o = .update u → ∀ kind' : Sweep, kind'.sends u = true →
      kind' = kind ∧ ∃ job ∈ jobs, u.jobId = job.id

variable {α : Type} {p : JobProgram α}

theorem safe_of_afterListing {kind : Sweep} {i : Nat} (hp : p.Uses (AfterListing kind jobs))
    {s : JobPast} (hs : JobsListed kind i jobs s) : sweeps.Safe i Protocol.anyEnd p s := by
  refine (Protocol.safe_of_fact (JobsListed kind i jobs) ?_ ?_ ?_ hp hs).anyEnd
  · intro s t hrely hF job hjob
    obtain ⟨c, hc⟩ := hF job hjob
    exact ⟨c, hrely kind job.id c hc⟩
  · rintro s o - hF ⟨hstore, -, hupdate⟩
    refine ⟨hstore, ?_⟩
    cases o with
    | update u =>
      intro kind' hsends
      obtain ⟨rfl, job, hjob, hk⟩ := hupdate u rfl kind' hsends
      rw [hk]
      exact hF job hjob
    | _ => exact True.intro
  · rintro e s o hF ⟨-, hcut, -⟩ job hjob
    obtain ⟨c, hc⟩ := hF job hjob
    exact ⟨c, hc.later (not_listedBy_of_op (hcut kind))⟩

theorem utcnow_afterListing (kind : Sweep) (jobs : List JobRow) :
    utcnow.Uses (AfterListing kind jobs) := by
  refine ⟨⟨True.intro, fun kind' => ?_, fun u hu => ?_⟩, fun _ => True.intro⟩
  · cases kind' <;> rfl
  · cases hu

theorem transition_afterListing {kind : Sweep} {u : TransitionStmt} (hstore : StoreStmt u)
    (hsends : ∀ kind' : Sweep, kind'.sends u →
      kind' = kind ∧ ∃ job ∈ jobs, u.jobId = job.id) :
    (transition u).Uses (AfterListing kind jobs) := by
  refine ⟨⟨hstore, fun kind' => ?_, fun v hv => ?_⟩, fun _ => True.intro⟩
  · cases kind' <;> rfl
  · cases hv
    exact hsends

theorem sweepStale_ok (staleAfter limit : Nat) : sweeps.Ok (sweepStale staleAfter limit) := by
  intro i s _ s1 _ _
  refine ⟨⟨True.intro, True.intro⟩, fun e1 _ => ?_⟩
  intro s2 _ _
  refine ⟨⟨True.intro, True.intro⟩, fun e2 _ => ?_⟩
  have hlisted : JobsListed .stale i
      ((s2.state.jobs.rows.filter (JobWorld.isStale (s1.state.clock - staleAfter))).take limit)
      (jobRun i e2 s2 (.selectStale (s1.state.clock - staleAfter) limit)).1 :=
    jobsListed_of_select rfl fun job hjob => mem_filter.mp (mem_of_mem_take hjob)
  refine safe_of_afterListing ?_ hlisted
  refine uses_foldEach fun swept job hjob => ?_
  unfold sweepStaleJob
  split
  · refine uses_bind (uses_bind (utcnow_afterListing _ _) fun now => ?_) fun ok => trivial
    refine transition_afterListing (.cancelled _ _ _ _) fun kind hsends => ?_
    cases kind <;> simp [sends, cancelledStmt] at hsends
  · refine uses_bind (utcnow_afterListing _ _) fun now => ?_
    refine uses_bind (transition_afterListing (.stale _ _) fun kind hsends => ?_) fun ok => trivial
    cases kind with
    | stale => exact ⟨rfl, job, hjob, rfl⟩
    | orphans => simp [sends, staleStmt] at hsends

theorem sweepOrphans_ok (orphanAfter limit : Nat) : sweeps.Ok (sweepOrphans orphanAfter limit) := by
  intro i s _ s1 _ _
  refine ⟨⟨True.intro, True.intro⟩, fun e1 _ => ?_⟩
  intro s2 _ _
  refine ⟨⟨True.intro, True.intro⟩, fun e2 _ => ?_⟩
  have hlisted : JobsListed .orphans i
      ((s2.state.jobs.rows.filter (JobWorld.isOrphan (s1.state.clock - orphanAfter))).take limit)
      (jobRun i e2 s2 (.selectOrphans (s1.state.clock - orphanAfter) limit)).1 :=
    jobsListed_of_select rfl fun job hjob => mem_filter.mp (mem_of_mem_take hjob)
  refine safe_of_afterListing ?_ hlisted
  refine uses_foldEach fun swept job hjob => ?_
  refine uses_bind (utcnow_afterListing _ _) fun now => ?_
  refine uses_bind (transition_afterListing (.orphaned _ _) fun kind hsends => ?_) fun ok => trivial
  cases kind with
  | stale => simp [sends, orphanedStmt] at hsends
  | orphans => exact ⟨rfl, job, hjob, rfl⟩

/-! ## The programs -/

/-- Programs of the store's operations: the updates of a sweep occur in sweeps only. -/
inductive Sweeper {α : Type} : JobProgram α → Prop
  | done (a : α) : Sweeper (.ret a)
  | statement {o : JobOp} {k : JobRes o → JobProgram α} :
      Unswept o → (∀ r, Sweeper (k r)) → Sweeper (.act o k)
  | stale {staleAfter limit : Nat} {k : Nat → JobProgram α} :
      (∀ n, Sweeper (k n)) → Sweeper (sweepStale staleAfter limit >>= k)
  | orphans {orphanAfter limit : Nat} {k : Nat → JobProgram α} :
      (∀ n, Sweeper (k n)) → Sweeper (sweepOrphans orphanAfter limit >>= k)

theorem Sweeper.of_unswept (hp : p.Uses Unswept) : Sweeper p := by
  induction p with
  | ret a => exact .done a
  | act o k ih => exact .statement hp.1 fun r => ih r (hp.2 r)

theorem Sweeper.ok (hp : Sweeper p) : sweeps.Ok p := by
  induction hp with
  | done a => exact .ret a
  | @statement o k ho _ ih =>
    refine .act (fun i s _ => ⟨ho.storeOp, ?_⟩) ih
    cases o with
    | update u =>
      intro kind hsends
      have hno : u.bySweep = false := ho.2
      rw [bySweep_of_sends hsends] at hno
      cases hno
    | _ => exact True.intro
  | stale _ ih => exact (sweepStale_ok _ _).bind ih
  | orphans _ ih => exact (sweepOrphans_ok _ _).bind ih

end WebGis.Jobs
