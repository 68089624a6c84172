/-
  The registry of workers and coordinators, and the election of a leader.

  A coordinator leads while the lease on its own row has not expired. An election and a renewal
  each read the clock first and then send one conditional update that looks at the rows of all
  other coordinators; statements are carried out one after another. Columns that no function
  here reads are left out (profiles, capability, info, `started_at`). Times are microseconds of
  one clock that moves only by `tick`.

  An election and a renewal see no other lease that lasts to the time they have read. That time
  is not in the future, so no other lease lasts to the present either, and afterwards the row
  written is the only one that can lead (`single_leader`). The epoch that a renewal carries is
  the one that the latest election of its row gave, counted from the row's insertion.
-/
import WebGis.Conc.History
import WebGis.Data.Table

namespace WebGis.Cluster.Registry

open Data Conc Option Table

/-! ## Rows -/

inductive WorkerRole where
  | coordinator | worker
  deriving DecidableEq, Repr

structure WorkerRow where
  workerId : String
  role : WorkerRole := .worker
  heartbeatAt : Int
  leaseEpoch : Nat := 0
  leaseExpiresAt : Option Int := none

/-- A coordinator whose lease has not expired at the time `t`. -/
def WorkerRow.Leads (row : WorkerRow) (t : Int) : Prop :=
  row.role = .coordinator ∧ row.leaseExpiresAt.any (t ≤ ·) = true

instance (row : WorkerRow) (t : Int) : Decidable (row.Leads t) :=
  inferInstanceAs (Decidable (_ ∧ _))

/-- The registry and the clock. -/
structure WorkerWorld where
  workers : Table WorkerRow String WorkerRow.workerId := Table.empty
  clock : Int := 0

namespace WorkerWorld

variable (w : WorkerWorld)

def worker (k : String) : Option WorkerRow := w.workers.get k

def otherLeader (k : String) (now : Int) : Bool :=
  w.workers.rows.any fun row => row.workerId ≠ k && decide (row.Leads now)

end WorkerWorld

/-! ## Statements -/

/-- The updates of one row. -/
inductive WorkerWrite where
  | beat (now : Int)
  | elect (ttl now : Int)
  | renew (epoch : Nat) (now expires heartbeat : Int)

namespace WorkerWrite

/-- The condition of the update. -/
def admits (w : WorkerWorld) : WorkerWrite → WorkerRow → Bool
  | .beat _, _ => true
  | .elect _ now, row =>
    row.role = .coordinator && row.leaseExpiresAt.all (· < now) &&
      !w.otherLeader row.workerId now
  | .renew epoch now _ _, row =>
    row.role = .coordinator && row.leaseEpoch = epoch && !w.otherLeader row.workerId now

/-- The row after the update. -/
def apply : WorkerWrite → WorkerRow → WorkerRow
  | .beat now, row => { row with heartbeatAt := now }
  | .elect ttl now, row =>
    { row with
      leaseEpoch := row.leaseEpoch + 1, leaseExpiresAt := some (now + ttl), heartbeatAt := now }
  | .renew _ _ expires heartbeat, row =>
    { row with leaseExpiresAt := some expires, heartbeatAt := heartbeat }

end WorkerWrite

/-- The statements. -/
inductive WorkerOp where
  | utcnow
  | tick (d : Nat)
  | find (k : String)
  | insertCoordinator (k : String) (now : Int)
  | update (k : String) (write : WorkerWrite)
  | selectStale (role : WorkerRole) (cutoff : Int)
  | deleteStale (ids : List String) (cutoff : Int)

/-- The type of each statement's answer. -/
def WorkerRes : WorkerOp → Type
  | .utcnow => Int
  | .tick _ => Unit
  | .find _ => Option WorkerRow
  | .insertCoordinator _ _ => Bool
  | .update _ _ => Bool
  | .selectStale _ _ => List String
  | .deleteStale _ _ => Nat

namespace WorkerWorld

variable (w : WorkerWorld)

/-- The row that an update is carried out on. -/
def hit (k : String) (write : WorkerWrite) : Option WorkerRow :=
  (w.worker k).filter (write.admits w)

def update (k : String) (write : WorkerWrite) : WorkerWorld × Bool :=
  match w.hit k write with
  | some row => ({ w with workers := w.workers.put (write.apply row) }, true)
  | none => (w, false)

/-- The INSERT of a coordinator, which a row of that name refuses. -/
def insertCoordinator (k : String) (now : Int) : WorkerWorld × Bool :=
  match w.workers.insert [{ workerId := k, role := .coordinator, heartbeatAt := now }] with
  | some workers => ({ w with workers := workers }, true)
  | none => (w, false)

/-- The row is one of `ids` and has not been heard of since `cutoff`. -/
def doomed (ids : List String) (cutoff : Int) (row : WorkerRow) : Bool :=
  row.workerId ∈ ids && row.heartbeatAt < cutoff

end WorkerWorld

/-- What a statement does. -/
def workerExec (w : WorkerWorld) : (o : WorkerOp) → WorkerWorld × WorkerRes o
  | .utcnow => (w, w.clock)
  | .tick d => ({ w with clock := w.clock + d }, ())
  | .find k => (w, w.worker k)
  | .insertCoordinator k now => w.insertCoordinator k now
  | .update k write => w.update k write
  | .selectStale role cutoff =>
    (w, (w.workers.rows.filter fun row => row.heartbeatAt < cutoff && row.role = role).map
      WorkerRow.workerId)
  | .deleteStale ids cutoff =>
    ({ w with workers := w.workers.delete (WorkerWorld.doomed ids cutoff) },
      (w.workers.rows.filter (WorkerWorld.doomed ids cutoff)).length)

/-- A registry with the calls that led to it. -/
abbrev WorkerPast : Type := Traced WorkerOp Unit WorkerWorld

/-- A call of the history. -/
abbrev WorkerCall : Type := Call WorkerOp Unit WorkerWorld

/-- The statements, with the history kept. -/
abbrev workerRun : Exec WorkerOp WorkerRes Unit WorkerPast := traced fun _ => workerExec

abbrev WorkerProgram (α : Type) : Type := Prog WorkerOp WorkerRes α

/-! ## Operations -/

def utcnow : WorkerProgram Int := Prog.lift WorkerOp.utcnow

def tick (d : Nat) : WorkerProgram Unit := Prog.lift (WorkerOp.tick d)

def findWorker (k : String) : WorkerProgram (Option WorkerRow) := Prog.lift (WorkerOp.find k)

def insertCoordinator (k : String) (now : Int) : WorkerProgram Bool :=
  Prog.lift (WorkerOp.insertCoordinator k now)

def updateWorker (k : String) (write : WorkerWrite) : WorkerProgram Bool :=
  Prog.lift (WorkerOp.update k write)

def selectStale (role : WorkerRole) (cutoff : Int) : WorkerProgram (List String) :=
  Prog.lift (WorkerOp.selectStale role cutoff)

def deleteStale (ids : List String) (cutoff : Int) : WorkerProgram Nat :=
  Prog.lift (WorkerOp.deleteStale ids cutoff)

/-- The first transaction of `acquire_leadership`: the coordinator's row is there and fresh. -/
def registerCoordinator (coordinatorId : String) : WorkerProgram Bool := do
  let now ← utcnow
  match ← findWorker coordinatorId with
  | none => insertCoordinator coordinatorId now
  | some _ =>
    let _ ← updateWorker coordinatorId (.beat now)
    return true

def acquireLeadership (coordinatorId : String) (ttl : Int) : WorkerProgram (Option Nat) := do
  let registered ← registerCoordinator coordinatorId
  if registered then
    let now ← utcnow
    let elected ← updateWorker coordinatorId (.elect ttl now)
    if elected then
      let row ← findWorker coordinatorId
      return row.map WorkerRow.leaseEpoch
    else return none
  else return none

def renewLeadership (coordinatorId : String) (epoch : Nat) (ttl : Int) : WorkerProgram Bool := do
  let now ← utcnow
  let later ← utcnow
  let heartbeat ← utcnow
  updateWorker coordinatorId (.renew epoch now (later + ttl) heartbeat)

/-- The time before which `prune_workers` takes a row for dead. -/
def pruneCutoff (cutoff ttl : Option Int) : WorkerProgram Int :=
  match ttl, cutoff with
  | some ttl, _ => do
      let now ← utcnow
      return now - max 5000000 ttl
  | none, some cutoff => return cutoff
  | none, none => do
      let now ← utcnow
      return now - 180000000

def pruneWorkers (cutoff ttl : Option Int) : WorkerProgram (List String) := do
  let cutoff ← pruneCutoff cutoff ttl
  let doomed ← selectStale .worker cutoff
  let doomedCoordinators ← selectStale .coordinator cutoff
  if doomed ++ doomedCoordinators = [] then return []
  else
    let deleted ← deleteStale (doomed ++ doomedCoordinators) cutoff
    return if deleted = 0 then [] else doomed ++ doomedCoordinators

/-! ## Statements -/

section Statements

variable {w : WorkerWorld} {k : String} {write : WorkerWrite}

@[simp] theorem apply_workerId (write : WorkerWrite) (row : WorkerRow) :
    (write.apply row).workerId = row.workerId := by
  cases write <;> rfl

variable {row : WorkerRow}

theorem hit_eq_some :
    w.hit k write = some row ↔ w.worker k = some row ∧ write.admits w row :=
  filter_eq_some_iff

theorem update_of_hit (h : w.hit k write = some row) :
    w.update k write = ({ w with workers := w.workers.put (write.apply row) }, true) := by
  unfold WorkerWorld.update
  rw [h]

theorem update_of_miss (h : w.hit k write = none) : w.update k write = (w, false) := by
  unfold WorkerWorld.update
  rw [h]

/-- After an update that is carried out, the row of `k` is the new one and the others stay. -/
theorem worker_update (h : w.hit k write = some row) (k' : String) :
    (w.update k write).1.worker k' = if k = k' then some (write.apply row) else w.worker k' := by
  have hrow : w.workers.get k = some row := (hit_eq_some.mp h).1
  have hkey : (write.apply row).workerId = k := by
    rw [apply_workerId]
    exact get_key hrow
  have hold : w.workers.get (write.apply row).workerId = some row := by
    rw [hkey]
    exact hrow
  have hput := get_put hold k'
  rw [hkey] at hput
  rw [update_of_hit h]
  exact hput

theorem worker_insertCoordinator (w : WorkerWorld) (k : String) (now : Int) (k' : String) :
    (w.insertCoordinator k now).1.worker k' =
      (w.worker k').or (if k = k' then
        some { workerId := k, role := .coordinator, heartbeatAt := now } else none) := by
  unfold WorkerWorld.insertCoordinator
  split
  · rename_i workers hins
    show workers.get k' = _
    rw [get_insert hins]
    by_cases hk : k = k' <;> simp [hk, WorkerWorld.worker]
  · rename_i hins
    by_cases hk : k = k'
    · -- the name is taken
      have htaken : w.worker k' ≠ none := by
        intro hnone
        refine absurd hins (isSome_iff_ne_none.mp (insert_isSome ?_))
        rw [← hk] at hnone
        exact hnone
      obtain ⟨row, hrow⟩ := ne_none_iff_exists'.mp htaken
      rw [hrow]
      rfl
    · rw [if_neg hk, or_none]

theorem worker_deleteStale (w : WorkerWorld) (ids : List String) (cutoff : Int) (k : String) :
    (workerExec w (.deleteStale ids cutoff)).1.worker k =
      (w.worker k).filter fun row => !WorkerWorld.doomed ids cutoff row :=
  get_delete _ _ _

end Statements

/-! ## One leader -/

/-- At most one coordinator leads. -/
def SingleLeader (w : WorkerWorld) : Prop :=
  ∀ k k' row row', w.worker k = some row → w.worker k' = some row' → row.Leads w.clock →
    row'.Leads w.clock → k = k'

variable {row : WorkerRow}

theorem WorkerRow.Leads.earlier {t t' : Int} (h : row.Leads t') (ht : t ≤ t') : row.Leads t := by
  obtain ⟨hrole, hlease⟩ := h
  obtain ⟨e, he, hle⟩ := (Option.any_eq_true _ _).mp hlease
  refine ⟨hrole, (Option.any_eq_true _ _).mpr ⟨e, he, ?_⟩⟩
  have hle' : t' ≤ e := of_decide_eq_true hle
  exact decide_eq_true (by omega)

/-- Where no other row led at the time `now`, none leads later. -/
theorem not_leads_of_otherLeader {w : WorkerWorld} {k : String} {now t : Int}
    (h : w.otherLeader k now = false) (ht : now ≤ t) {k' : String} (hrow : w.worker k' = some row)
    (hne : k' ≠ k) : ¬ row.Leads t := by
  intro hleads
  have hkey : row.workerId = k' := get_key hrow
  have hmem : row ∈ w.workers.rows := mem_of_get hrow
  have hno := List.any_eq_false.mp h row hmem
  refine hno ?_
  rw [Bool.and_eq_true, decide_eq_true_eq, decide_eq_true_eq, hkey]
  exact ⟨hne, hleads.earlier ht⟩

/-- The time that an arbitration carries is not in the future. -/
def Timely (w : WorkerWorld) : WorkerOp → Prop
  | .update _ (.elect _ now) => now ≤ w.clock
  | .update _ (.renew _ now _ _) => now ≤ w.clock
  | _ => True

theorem SingleLeader.arbitrate {w : WorkerWorld} {k : String} {write : WorkerWrite}
    (hhit : w.hit k write = some row)
    (hother : ∀ k' row', w.worker k' = some row' → k' ≠ k → ¬ row'.Leads w.clock) :
    SingleLeader (w.update k write).1 := by
  have hclock : (w.update k write).1.clock = w.clock := by rw [update_of_hit hhit]
  have honly : ∀ k' row', (w.update k write).1.worker k' = some row' → row'.Leads w.clock →
      k' = k := by
    intro k' row' hrow' hleads
    by_contra hne
    rw [worker_update hhit, if_neg (Ne.symm hne)] at hrow'
    exact hother k' row' hrow' hne hleads
  intro k1 k2 row1 row2 h1 h2 hl1 hl2
  rw [hclock] at hl1 hl2
  rw [honly k1 row1 h1 hl1, honly k2 row2 h2 hl2]

theorem SingleLeader.update {w : WorkerWorld} (hw : SingleLeader w) {k : String}
    {write : WorkerWrite} (ho : Timely w (.update k write)) : SingleLeader (w.update k write).1 := by
  cases hhit : w.hit k write with
  | none =>
    rw [update_of_miss hhit]
    exact hw
  | some row =>
    obtain ⟨hrow, hadm⟩ := hit_eq_some.mp hhit
    have hkey : row.workerId = k := get_key hrow
    cases write with
    | beat now =>
      have hclock : (w.update k (.beat now)).1.clock = w.clock := by rw [update_of_hit hhit]
      have hback : ∀ k' row', (w.update k (.beat now)).1.worker k' = some row' →
          ∃ row0, w.worker k' = some row0 ∧ (row'.Leads w.clock → row0.Leads w.clock) := by
        intro k' row' hrow'
        rw [worker_update hhit] at hrow'
        split at hrow'
        · rename_i hk
          obtain rfl := some.inj hrow'
          exact ⟨row, hk ▸ hrow, id⟩
        · exact ⟨row', hrow', id⟩
      intro k1 k2 row1 row2 h1 h2 hl1 hl2
      rw [hclock] at hl1 hl2
      obtain ⟨row1', h1', hb1⟩ := hback k1 row1 h1
      obtain ⟨row2', h2', hb2⟩ := hback k2 row2 h2
      exact hw k1 k2 row1' row2' h1' h2' (hb1 hl1) (hb2 hl2)
    | elect ttl now =>
      simp only [WorkerWrite.admits, Bool.and_eq_true, Bool.not_eq_true', hkey] at hadm
      exact .arbitrate hhit fun k' row' hrow' hne =>
        not_leads_of_otherLeader hadm.2 ho hrow' hne
    | renew epoch now expires heartbeat =>
      simp only [WorkerWrite.admits, Bool.and_eq_true, Bool.not_eq_true', hkey] at hadm
      exact .arbitrate hhit fun k' row' hrow' hne =>
        not_leads_of_otherLeader hadm.2 ho hrow' hne

theorem SingleLeader.step {w : WorkerWorld} (hw : SingleLeader w) {o : WorkerOp}
    (ho : Timely w o) : SingleLeader (workerExec w o).1 := by
  cases o with
  | update k write => exact hw.update ho
  | tick d =>
    intro k1 k2 row1 row2 h1 h2 hl1 hl2
    have hle : w.clock ≤ w.clock + d := by omega
    exact hw k1 k2 row1 row2 h1 h2 (hl1.earlier hle) (hl2.earlier hle)
  | insertCoordinator k now =>
    have hclock : (w.insertCoordinator k now).1.clock = w.clock := by
      unfold WorkerWorld.insertCoordinator
      split <;> rfl
    have hold : ∀ k' row', (w.insertCoordinator k now).1.worker k' = some row' →
        row'.Leads w.clock → w.worker k' = some row' := by
      intro k' row' hrow' hleads
      rw [worker_insertCoordinator, or_eq_some_iff] at hrow'
      rcases hrow' with h | ⟨-, h⟩
      · exact h
      split at h
      · obtain rfl := some.inj h
        exact absurd hleads.2 Bool.false_ne_true
      · cases h
    intro k1 k2 row1 row2 h1 h2 hl1 hl2
    change row1.Leads (w.insertCoordinator k now).1.clock at hl1
    change row2.Leads (w.insertCoordinator k now).1.clock at hl2
    rw [hclock] at hl1 hl2
    exact hw k1 k2 row1 row2 (hold k1 row1 h1 hl1) (hold k2 row2 h2 hl2) hl1 hl2
  | deleteStale ids cutoff =>
    intro k1 k2 row1 row2 h1 h2 hl1 hl2
    rw [worker_deleteStale] at h1 h2
    exact hw k1 k2 row1 row2 (filter_eq_some_iff.mp h1).1
      (filter_eq_some_iff.mp h2).1 hl1 hl2
  | _ => exact hw

theorem clock_le_workerExec (w : WorkerWorld) (o : WorkerOp) : w.clock ≤ (workerExec w o).1.clock := by
  cases o with
  | tick d =>
    show w.clock ≤ w.clock + d
    omega
  | update k write =>
    show _ ≤ (w.update k write).1.clock
    unfold WorkerWorld.update
    split <;> exact Int.le_refl _
  | insertCoordinator k now =>
    show _ ≤ (w.insertCoordinator k now).1.clock
    unfold WorkerWorld.insertCoordinator
    split <;> exact Int.le_refl _
  | _ => exact Int.le_refl _

/-! ## Epochs -/

/-- The epoch of the row of `k` by the history: an insertion starts at 0, every election adds
    one, and a deletion leaves none. -/
def latestEpoch (start : Option Nat) (k : String) : List WorkerCall → Option Nat
  | [] => start
  | d :: earlier =>
    match d.op with
    | .insertCoordinator k' _ =>
      if k' = k ∧ d.before.worker k = none then some 0 else latestEpoch start k earlier
    | .update k' (.elect ttl now) =>
      if k' = k ∧ (d.before.hit k (.elect ttl now)).isSome then
        (latestEpoch start k earlier).map (· + 1)
      else latestEpoch start k earlier
    | .deleteStale ids cutoff =>
      if (d.before.worker k).any (WorkerWorld.doomed ids cutoff) then none
      else latestEpoch start k earlier
    | _ => latestEpoch start k earlier

/-- The rows hold the epochs of the history. -/
def EpochsMatch (w0 : WorkerWorld) (s : WorkerPast) : Prop :=
  ∀ k, latestEpoch ((w0.worker k).map WorkerRow.leaseEpoch) k s.log =
    (s.state.worker k).map WorkerRow.leaseEpoch

/-- The epoch of `k` in the history after an update: that of its row. -/
theorem latestEpoch_update {start : Option Nat} {k k' : String} {write : WorkerWrite}
    {w : WorkerWorld} {log : List WorkerCall}
    (hlog : latestEpoch start k log = (w.worker k).map WorkerRow.leaseEpoch) (i : Nat) (e : Unit) :
    latestEpoch start k (⟨i, e, w, .update k' write⟩ :: log) =
      ((w.update k' write).1.worker k).map WorkerRow.leaseEpoch := by
  cases hhit : w.hit k' write with
  | none =>
    rw [update_of_miss hhit, ← hlog]
    cases write with
    | elect ttl now =>
      refine if_neg ?_
      rintro ⟨rfl, hsome⟩
      rw [hhit] at hsome
      cases hsome
    | _ => rfl
  | some row =>
    have hrow := (hit_eq_some.mp hhit).1
    rw [worker_update hhit]
    by_cases hk : k' = k
    · subst hk
      rw [if_pos rfl]
      rw [hrow] at hlog
      cases write with
      | elect ttl now =>
        have hgiven : k' = k' ∧ (w.hit k' (.elect ttl now)).isSome :=
          ⟨rfl, by rw [hhit]; rfl⟩
        refine (if_pos hgiven).trans ?_
        rw [hlog]
        rfl
      | _ => exact hlog
    · rw [if_neg hk, ← hlog]
      cases write with
      | elect ttl now => exact if_neg fun h => hk h.1
      | _ => rfl

/-- A renewal that the call let through carries the latest epoch of its row. -/
def RenewHolds (w0 : WorkerWorld) (c : WorkerCall) (earlier : List WorkerCall) : Prop :=
  ∀ k epoch now expires heartbeat, c.op = .update k (.renew epoch now expires heartbeat) →
    (c.before.update k (.renew epoch now expires heartbeat)).2 = true →
      latestEpoch ((w0.worker k).map WorkerRow.leaseEpoch) k earlier = some epoch

variable {s : WorkerPast}

theorem EpochsMatch.step {w0 : WorkerWorld} (hs : EpochsMatch w0 s) (i : Nat) (e : Unit)
    (o : WorkerOp) : EpochsMatch w0 (workerRun i e s o).1 := by
  intro k
  rw [traced_log, traced_state]
  cases o with
  | insertCoordinator k' now =>
    show (if k' = k ∧ s.state.worker k = none then some 0 else _) =
      ((s.state.insertCoordinator k' now).1.worker k).map WorkerRow.leaseEpoch
    rw [worker_insertCoordinator, hs k]
    cases hrow : s.state.worker k with
    | none => by_cases hk : k' = k <;> simp [hk]
    | some row => simp
  | deleteStale ids cutoff =>
    show (if (s.state.worker k).any (WorkerWorld.doomed ids cutoff) then none else _) = _
    rw [worker_deleteStale, hs k]
    cases hrow : s.state.worker k with
    | none => simp
    | some row =>
      rw [filter_some]
      cases hd : WorkerWorld.doomed ids cutoff row <;> simp [hd]
  | update k' write => exact latestEpoch_update (hs k) i e
  | _ => exact hs k

theorem EpochsMatch.renewHolds {w0 : WorkerWorld} (hs : EpochsMatch w0 s) (i : Nat) (e : Unit)
    (o : WorkerOp) : RenewHolds w0 ⟨i, e, s.state, o⟩ s.log := by
  intro k epoch now expires heartbeat hop hdone
  cases hhit : s.state.hit k (.renew epoch now expires heartbeat) with
  | none =>
    rw [update_of_miss hhit] at hdone
    cases hdone
  | some row =>
    obtain ⟨hrow, hadm⟩ := hit_eq_some.mp hhit
    simp only [WorkerWrite.admits, Bool.and_eq_true, decide_eq_true_eq] at hadm
    rw [hs k, hrow, map_some, hadm.1.2]

/-! ## Runs -/

/-- Arbitrations that carry a time not in the future, on a clock that does not go back. -/
def arbitration (w0 : WorkerWorld) : Protocol workerRun where
  inv s := SingleLeader s.state ∧ EpochsMatch w0 s ∧ Always (RenewHolds w0) s.log
  rely _ s t := s.state.clock ≤ t.state.clock
  guar _ s o := Timely s.state o
  guard := Pool.free
  rely_refl _ _ := Int.le_refl _
  rely_trans h h' := Int.le_trans h h'
  inv_step hs ho _ := ⟨hs.1.step ho, hs.2.1.step _ _ _, hs.2.1.renewHolds _ _ _, hs.2.2⟩
  rely_step _ _ _ _ := clock_le_workerExec _ _

section Operations

variable {w0 : WorkerWorld} {α : Type}

/-- The statements without a time that must not lie in the future. -/
def Timeless : WorkerOp → Prop
  | .update _ (.beat _) => True
  | .update _ _ => False
  | _ => True

/-- The statements that may follow when the clock was read as `now`. -/
def TimedBy (now : Int) : WorkerOp → Prop
  | .update _ (.elect _ now') => now' = now
  | .update _ (.renew _ now' _ _) => now' = now
  | _ => True

theorem ok_of_timeless {p : WorkerProgram α} (hp : p.Uses Timeless) : (arbitration w0).Ok p := by
  induction p with
  | ret a => exact .ret a
  | act o k ih =>
    refine .act (fun _ s _ => ?_) fun r => ih r (hp.2 r)
    have ho := hp.1
    cases o with
    | update k' write =>
      cases write with
      | beat now => trivial
      | elect ttl now => exact ho.elim
      | renew epoch now expires heartbeat => exact ho.elim
    | _ => trivial

theorem ok_of_now {f : Int → WorkerProgram α} (hf : ∀ now, (f now).Uses (TimedBy now)) :
    (arbitration w0).Ok (utcnow >>= f) := by
  intro i s _ s1 _ _
  refine ⟨trivial, fun e _ => ?_⟩
  refine (Protocol.safe_of_fact (fun t => s1.state.clock ≤ t.state.clock) ?_ ?_ ?_
    (hf s1.state.clock) (Int.le_refl _)).anyEnd
  · exact fun _ _ hr h => Int.le_trans h hr
  · intro t o _ hle ho
    cases o with
    | update k write =>
      cases write with
      | beat now => trivial
      | elect ttl now => exact (show now ≤ t.state.clock from ho ▸ hle)
      | renew epoch now expires heartbeat => exact (show now ≤ t.state.clock from ho ▸ hle)
    | _ => trivial
  · exact fun e t o hle _ => Int.le_trans hle (clock_le_workerExec _ _)

theorem tick_ok (d : Nat) : (arbitration w0).Ok (tick d) :=
  ok_of_timeless (p := tick d) ⟨trivial, fun _ => trivial⟩

theorem registerCoordinator_timeless (k : String) : (registerCoordinator k).Uses Timeless := by
  refine ⟨trivial, fun now => ⟨trivial, fun found => ?_⟩⟩
  cases found with
  | none => exact ⟨trivial, fun _ => trivial⟩
  | some row => exact ⟨trivial, fun _ => trivial⟩

theorem acquireLeadership_ok (k : String) (ttl : Int) :
    (arbitration w0).Ok (acquireLeadership k ttl) := by
  refine (ok_of_timeless (registerCoordinator_timeless k)).bind fun registered => ?_
  cases registered with
  | false => exact .ret _
  | true =>
    refine ok_of_now fun now => ⟨rfl, fun elected => ?_⟩
    cases elected with
    | false => trivial
    | true => exact ⟨trivial, fun _ => trivial⟩

theorem renewLeadership_ok (k : String) (epoch : Nat) (ttl : Int) :
    (arbitration w0).Ok (renewLeadership k epoch ttl) :=
  ok_of_now fun _ => ⟨trivial, fun _ => ⟨trivial, fun _ => ⟨rfl, fun _ => trivial⟩⟩⟩

theorem pruneCutoff_timeless (cutoff ttl : Option Int) :
    (pruneCutoff cutoff ttl).Uses Timeless := by
  unfold pruneCutoff
  split
  · exact ⟨trivial, fun _ => trivial⟩
  · trivial
  · exact ⟨trivial, fun _ => trivial⟩

theorem pruneWorkers_ok (cutoff ttl : Option Int) :
    (arbitration w0).Ok (pruneWorkers cutoff ttl) := by
  refine ok_of_timeless (Prog.uses_bind (pruneCutoff_timeless cutoff ttl) fun cutoff => ?_)
  refine ⟨trivial, fun doomed => ⟨trivial, fun doomedCoordinators => ?_⟩⟩
  show (if _ then _ else _ : WorkerProgram (List String)).Uses _
  split
  · trivial
  · exact ⟨trivial, fun _ => trivial⟩

end Operations

/-- Programs made of the operations of a coordinator, and of time that passes. -/
inductive Coordinates {α : Type} : WorkerProgram α → Prop
  | done (a : α) : Coordinates (.ret a)
  | tick {d : Nat} {k : Unit → WorkerProgram α} : (∀ r, Coordinates (k r)) →
      Coordinates (tick d >>= k)
  | acquireLeadership {coordinatorId : String} {ttl : Int} {k : Option Nat → WorkerProgram α} :
      (∀ r, Coordinates (k r)) → Coordinates (acquireLeadership coordinatorId ttl >>= k)
  | renewLeadership {coordinatorId : String} {epoch : Nat} {ttl : Int}
      {k : Bool → WorkerProgram α} : (∀ r, Coordinates (k r)) →
      Coordinates (renewLeadership coordinatorId epoch ttl >>= k)
  | pruneWorkers {cutoff ttl : Option Int} {k : List String → WorkerProgram α} :
      (∀ r, Coordinates (k r)) → Coordinates (pruneWorkers cutoff ttl >>= k)

theorem Coordinates.ok {w0 : WorkerWorld} {α : Type} {p : WorkerProgram α} (hp : Coordinates p) :
    (arbitration w0).Ok p := by
  induction hp with
  | done a => exact .ret a
  | tick _ ih => exact (tick_ok _).bind ih
  | acquireLeadership _ ih => exact (acquireLeadership_ok _ _).bind ih
  | renewLeadership _ ih => exact (renewLeadership_ok _ _ _).bind ih
  | pruneWorkers _ ih => exact (pruneWorkers_ok _ _).bind ih

/-- **Single leader**: in every interleaving of elections, renewals and prunings that starts
    with at most one leader there is at most one leader at any time, and a renewal that
    succeeds carries the latest epoch of its row. -/
theorem single_leader {α : Type} {w0 : WorkerWorld} (h0 : SingleLeader w0)
    {Q : Pool WorkerOp WorkerRes α WorkerPast}
    (h : Pool.Runs workerRun Coordinates Pool.free ⟨⟨w0, []⟩, []⟩ Q) :
    SingleLeader Q.shared.state ∧
      ∀ later c earlier, Q.shared.log = later ++ c :: earlier → RenewHolds w0 c earlier := by
  have hinit : (arbitration w0).inv ⟨w0, []⟩ := ⟨h0, fun _ => rfl, trivial⟩
  have hinv : (arbitration w0).inv Q.shared := (arbitration w0).runs_inv h (fun _ hp => hp.ok) hinit
  refine ⟨hinv.1, fun later c earlier hlog => ?_⟩
  have hall := hinv.2.2
  rw [hlog] at hall
  exact hall.split

/-- A coordinator is elected, another one stands by, and the first renews its lease. -/
def electedThenRenewed : List (Pool.Move WorkerOp WorkerRes Unit Unit) :=
  Pool.solo 0 6 () (acquireLeadership "coord-a" 15).discard ++
    Pool.solo 1 5 () (acquireLeadership "coord-b" 15).discard ++
    Pool.solo 2 1 () (tick 10).discard ++
    Pool.solo 3 4 () (renewLeadership "coord-a" 1 15).discard

theorem electedThenRenewed_starts {m : Pool.Move WorkerOp WorkerRes Unit Unit}
    (hm : m ∈ electedThenRenewed) (p : WorkerProgram Unit) (hp : m.starts = some p) :
    Coordinates p := by
  simp only [electedThenRenewed, List.mem_append] at hm
  rcases hm with ((hm | hm) | hm) | hm <;> rw [Pool.starts_solo hm hp]
  · exact .acquireLeadership fun _ => .done ()
  · exact .acquireLeadership fun _ => .done ()
  · exact .tick fun _ => .done ()
  · exact .renewLeadership fun _ => .done ()

/-- The coordinator and the epoch of the renewal that a call let through. -/
def renewedBy (c : WorkerCall) : Option (String × Nat) :=
  match c.op with
  | .update k (.renew epoch now expires heartbeat) =>
    if (c.before.update k (.renew epoch now expires heartbeat)).2 then some (k, epoch) else none
  | _ => none

theorem single_leader_of_electedThenRenewed :
    ∃ (Q : Pool WorkerOp WorkerRes Unit WorkerPast) (c : WorkerCall) (earlier : List WorkerCall),
      Pool.Runs workerRun Coordinates Pool.free ⟨⟨{}, []⟩, []⟩ Q ∧ Q.shared.log = c :: earlier ∧
      renewedBy c = some ("coord-a", 1) ∧
      (Q.shared.state.worker "coord-a").any (·.Leads Q.shared.state.clock) = true ∧
      SingleLeader Q.shared.state ∧ RenewHolds {} c earlier := by
  have hruns : Pool.Runs workerRun Coordinates Pool.free ⟨⟨{}, []⟩, []⟩
      (Pool.play workerRun ⟨⟨{}, []⟩, []⟩ electedThenRenewed) :=
    Pool.play_runs workerRun _ _ fun m hm => electedThenRenewed_starts hm
  have hempty : SingleLeader {} := fun _ _ _ _ hrow => by cases hrow
  have hleads : ((Pool.play workerRun ⟨⟨{}, []⟩, []⟩ electedThenRenewed).shared.state.worker
      "coord-a").any (·.Leads (Pool.play workerRun ⟨⟨{}, []⟩, []⟩
        electedThenRenewed).shared.state.clock) = true := by decide +kernel
  have hlast : (Pool.play workerRun ⟨⟨{}, []⟩, []⟩ electedThenRenewed).shared.log.head?.bind
      renewedBy = some ("coord-a", 1) := by decide +kernel
  obtain ⟨c, hc, hrenewed⟩ := bind_eq_some_iff.mp hlast
  obtain ⟨earlier, hlog⟩ := List.head?_eq_some_iff.mp hc
  obtain ⟨hsingle, hepochs⟩ := single_leader hempty hruns
  exact ⟨_, c, earlier, hruns, hlog, hrenewed, hleads, hsingle, hepochs [] c earlier hlog⟩

end WebGis.Cluster.Registry
