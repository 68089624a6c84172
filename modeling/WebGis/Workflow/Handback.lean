/-
  How a process gives back what it holds: by the queue, or by a decision.

  Both are a write to the row of the instance with three attempts, each with a fresh read of the
  row. In a recoverable run the last attempt goes through, so that the process holds nothing
  afterwards.
-/
import WebGis.Workflow.Deferred

namespace WebGis.Workflow

open Data Conc NodeState List Option Hand

/-! ## Hands from call to call -/

/-- What the process holds, if anything, satisfies `φ`. -/
def Holds (iid : String) (i : Nat) (φ : Hand → Prop) (s : Past) : Prop :=
  ∀ h, hand iid i s.log = some h → φ h

section Holds

variable {A : ChangeApplier} {iid : String} {dag : WorkflowDAG} {i : Nat} {s t : Past}
  {φ ψ : Hand → Prop}

theorem Holds.imp (h : Holds iid i φ s) (himp : ∀ held, φ held → ψ held) : Holds iid i ψ s :=
  fun held hheld => himp held (h held hheld)

theorem Holds.rely (h : Holds iid i φ s) (hr : (custody A iid dag).rely i s t) :
    Holds iid i φ t := by
  intro held hheld
  rw [hand_of_own_eq hr.1] at hheld
  exact h held hheld

theorem Holds.pushed {calls : List Done} (h : Holds iid i φ s)
    (hhand : hand iid i t.log = (hand iid i s.log).map (Hand.push calls))
    (hpush : ∀ held, φ held → ψ (held.push calls)) : Holds iid i ψ t := by
  intro held hheld
  rw [hhand] at hheld
  obtain ⟨held', hheld', rfl⟩ := map_eq_some_iff.mp hheld
  exact hpush held' (h held' hheld')

theorem hand_unwritten {busy : Bool} {o : Op} (hw : written iid ⟨i, busy, s.state, o⟩ = none) :
    hand iid i (run i busy s o).1.log =
      (hand iid i s.log).map (Hand.push [⟨i, busy, s.state, o⟩]) := by
  rw [hand_run, after_of_unwritten hw]

end Holds

/-- The row was read for the owner of the applier. -/
structure Seen (A : ChangeApplier) (iid : String) (row : InstanceRow) (s : Past) : Prop where
  was : WasInstance s iid row
  owner : row.ownerScope = A.ownerScope

section Seen

variable {A : ChangeApplier} {iid : String} {row : InstanceRow} {s t : Past}

theorem Seen.later (h : Seen A iid row s) (hst : ∀ w ∈ s.states, w ∈ t.states) :
    Seen A iid row t := by
  obtain ⟨w, hw, hrow⟩ := h.was
  exact ⟨⟨w, hst w hw, hrow⟩, h.owner⟩

theorem seen_of_answer (h : s.state.instanceOf iid (some A.ownerScope) = some row) :
    Seen A iid row s := by
  obtain ⟨hrow, ho⟩ := instanceOf_eq_some h
  exact ⟨⟨s.state, mem_cons_self, hrow⟩, ho _ rfl⟩

theorem Seen.present (h : Seen A iid row s) (hs : RowsFollowed s) :
    ∃ row', s.state.instanceOf iid (some A.ownerScope) = some row' ∧ Follows row row' := by
  obtain ⟨w, hw, hrow⟩ := h.was
  obtain ⟨row', hrow', hf⟩ := hs w hw iid row hrow
  refine ⟨row', ?_, hf⟩
  rw [World.instanceOf, hrow', filter_eq_some_iff]
  refine ⟨rfl, ?_⟩
  simp [hf.owner, h.owner]

end Seen

/-! ## A write to the row of the instance -/

/-- The calls of a write that did not go through. -/
structure Begun (iid : String) (calls : List Done) : Prop where
  begun : calls.countP (begins iid) = 1
  others : ∀ d ∈ calls, reads iid d = false ∧ lists iid d = false

/-- How a write to the row of the instance ends: it went through, or another attempt is left. -/
def WriteEnd (iid : String) (i : Nat) (fields : InstancePatch) (row : InstanceRow) (s : Past)
    (answer : Option InstanceRow) (t : Past) : Prop :=
  (∀ w ∈ s.states, w ∈ t.states) ∧
    match answer with
    | none => ∃ calls, Begun iid calls ∧
        hand iid i t.log = (hand iid i s.log).map (Hand.push calls) ∧
        Holds iid i (fun h => h.tries iid < maxCasAttempts) t
    | some _ => ∃ d ∈ t.log, d.who = i ∧ written iid d = some fields ∧
        d.before.queueOf iid = row.pendingChanges ∧ ∃ held g, reads iid g = true ∧
        hand iid i t.log = (Hand.after iid d held).map (Hand.push [g])

section Write

variable {A : ChangeApplier} {iid : String} {dag : WorkflowDAG} {i : Nat} {s : Past}

variable {fields : InstancePatch}

theorem WriteEnd.rely {row : InstanceRow} {answer : Option InstanceRow} {t u : Past}
    (h : WriteEnd iid i fields row s answer t) (hr : (custody A iid dag).rely i t u) :
    WriteEnd iid i fields row s answer u := by
  obtain ⟨hst, hend⟩ := h
  have hhand := hand_of_own_eq hr.1 iid
  refine ⟨fun w hw => hr.2 w (hst w hw), ?_⟩
  cases answer with
  | none =>
    obtain ⟨calls, hb, hh, htries⟩ := hend
    exact ⟨calls, hb, hhand.trans hh, htries.rely hr⟩
  | some row' =>
    obtain ⟨d, hd, hi, hw, hq, held, g, hg, hh⟩ := hend
    have hown : d ∈ own i u.log := by
      rw [hr.1]
      exact mem_filter.mpr ⟨hd, decide_eq_true hi⟩
    exact ⟨d, (mem_filter.mp hown).1, hi, hw, hq, held, g, hg, hhand.trans hh⟩

variable {d : Done}

theorem written_miss {rev : Nat} (hop : d.op = .updateInstance iid rev fields)
    (h : d.env ∨ d.before.revisionOf iid ≠ some rev) : written iid d = none := by
  unfold written
  rw [hop]
  refine if_neg ?_
  rintro ⟨henv, -, hany⟩
  rcases h with hbusy | hne
  · rw [hbusy] at henv
    cases henv
  · obtain ⟨row, hrow, hrev⟩ := (Option.any_eq_true _ _).mp hany
    rw [World.revisionOf, hrow, map_some, of_decide_eq_true hrev] at hne
    exact hne rfl

theorem written_hit {rev : Nat} (hop : d.op = .updateInstance iid rev fields) (henv : d.env = false)
    (h : d.before.revisionOf iid = some rev) : written iid d = some fields := by
  obtain ⟨row, hrow, hrev⟩ := map_eq_some_iff.mp h
  unfold written
  rw [hop]
  refine if_pos ⟨henv, rfl, ?_⟩
  rw [hrow]
  simpa using hrev

theorem updateInstance_answer (w : World) (rev : Nat) (fields : InstancePatch) :
    (w.updateInstance iid rev fields).2 = decide (w.revisionOf iid = some rev) := by
  unfold World.updateInstance World.revisionOf
  cases w.instances.get iid with
  | none => simp
  | some row =>
    by_cases hrev : row.revision = rev
    · simp [hrev]
    · simp [hrev]

/-- What an attempt may rely on: the row it compares with, and that the write is in time. -/
def InTime (iid : String) (row : InstanceRow) (h : Hand) : Prop :=
  h.tries iid < maxCasAttempts ∧ (h.lastRow iid).map InstanceRow.revision = some row.revision

theorem WriteEnd.failed {row : InstanceRow} {t : Past} {calls : List Done}
    (hst : ∀ w ∈ s.states, w ∈ t.states) (hb : Begun iid calls)
    (hhand : hand iid i t.log = (hand iid i s.log).map (Hand.push calls))
    (htries : Holds iid i (fun h => h.tries iid + 1 < maxCasAttempts) s) :
    WriteEnd iid i fields row s none t := by
  refine ⟨hst, calls, hb, hhand, htries.pushed hhand fun h hh => ?_⟩
  have hcount : (h.push calls).tries iid = calls.countP (begins iid) + h.tries iid :=
    countP_append
  rw [hcount, hb.begun]
  omega

/-- The compare-and-set of a write whose row was selected by the call `d`. -/
theorem cas_safe {row : InstanceRow} {u : Past} (hseen : Seen A iid row s)
    (htime : Holds iid i (InTime iid row) s) (hst : ∀ w ∈ s.states, w ∈ u.states)
    (hd : begins iid d) (hreads : reads iid d = false) (hlists : lists iid d = false)
    (hhand : hand iid i u.log = (hand iid i s.log).map (Hand.push [d]))
    (hguar : ∀ t, (∀ w ∈ s.states, w ∈ t.states) →
      hand iid i t.log = (hand iid i s.log).map (Hand.push [d]) →
      Careful A iid dag i t (.updateInstance iid row.revision fields)) :
    (custody A iid dag).Safe i (WriteEnd iid i fields row s)
      (casInstance iid row.revision fields >>= fun answer => match answer with
        | .busy => .ret none
        | .done false => .ret none
        | .done true => getInstance iid (some A.ownerScope)) u := by
  have hret : ∀ {answer : Option InstanceRow} {t : Past}, WriteEnd iid i fields row s answer t →
      (custody A iid dag).Safe i (WriteEnd iid i fields row s) (.ret answer) t :=
    fun h t' hr _ => h.rely hr
  intro s1 h1 hi1
  have hhand1 := (hand_of_own_eq h1.1 iid).trans hhand
  have hst1 : ∀ w ∈ s.states, w ∈ s1.states := fun w hw => h1.2 w (hst w hw)
  refine ⟨hguar s1 hst1 hhand1, fun e1 he1 => ?_⟩
  have hst2 : ∀ w ∈ s.states,
      w ∈ (run i e1 s1 (.updateInstance iid row.revision fields)).1.states :=
    fun w hw => states_subset_traced exec i e1 s1 _ w (hst1 w hw)
  -- an attempt that does not go through is not the last one
  have hfail : (e1 ∨ s1.state.revisionOf iid ≠ some row.revision) →
      WriteEnd iid i fields row s none
        (run i e1 s1 (.updateInstance iid row.revision fields)).1 := by
    intro hor
    have hw : written iid ⟨i, e1, s1.state, .updateInstance iid row.revision fields⟩ = none :=
      written_miss rfl hor
    have hhand2 := hand_unwritten hw
    rw [hhand1, Option.map_map, push_comp] at hhand2
    refine WriteEnd.failed hst2 ⟨?_, ?_⟩ hhand2 fun h hh => ?_
    · have hself : begins iid ⟨i, e1, s1.state, .updateInstance iid row.revision fields⟩ = false :=
        rfl
      simp [hd, hself]
    · intro d' hd'
      rcases mem_cons.mp hd' with rfl | hd'
      · exact ⟨rfl, rfl⟩
      · rw [mem_singleton.mp hd']
        exact ⟨hreads, hlists⟩
    · have hheld : hand iid i s1.log = some (h.push [d]) := by
        rw [hhand1, hh]
        rfl
      have hguard := he1 _ hheld rfl
      have hcount : (h.push [d]).tries iid = h.tries iid + 1 := by
        simp [Hand.tries, hd]
      have htries := (htime h hh).1
      by_contra hlt
      obtain ⟨hfree, hsame⟩ := hguard (by omega)
      rcases hor with hbusy | hne
      · rw [hbusy] at hfree
        cases hfree
      · exact hne hsame
  obtain ⟨row1, hrow1, hf⟩ := (hseen.later hst1).present hi1.1
  have hget1 := (instanceOf_eq_some hrow1).1
  cases e1 with
  | true => exact hret (hfail (.inl rfl))
  | false =>
    have hanswer : (run i false s1 (.updateInstance iid row.revision fields)).2 =
        Answer.done (decide (s1.state.revisionOf iid = some row.revision)) :=
      congrArg Answer.done (updateInstance_answer s1.state row.revision fields)
    rw [hanswer]
    by_cases hrev : s1.state.revisionOf iid = some row.revision
    · rw [decide_eq_true hrev]
      -- the write went through; the row is read back
      have hwritten : written iid
          ⟨i, false, s1.state, .updateInstance iid row.revision fields⟩ = some fields :=
        written_hit rfl rfl hrev
      have hqueue : s1.state.queueOf iid = row.pendingChanges := by
        rw [World.revisionOf, hget1] at hrev
        rw [World.queueOf, hget1]
        exact hf.same (some.inj hrev)
      have hhand2 := hand_run iid i false s1 (.updateInstance iid row.revision fields)
      intro s3 h3 hi3
      refine ⟨trivial, fun e3 _ => ?_⟩
      obtain ⟨row3, hrow3, -⟩ := (hseen.later fun w hw => h3.2 w (hst2 w hw)).present hi3.1
      have hanswer3 : (run i e3 s3 (.getInstance iid (some A.ownerScope))).2 = some row3 := hrow3
      rw [hanswer3]
      have hget : written iid ⟨i, e3, s3.state, .getInstance iid (some A.ownerScope)⟩ = none :=
        rfl
      have hhand4 := hand_unwritten hget
      rw [hand_of_own_eq h3.1 iid, hhand2] at hhand4
      refine hret ⟨fun w hw => states_subset_traced exec i e3 s3 _ w (h3.2 w (hst2 w hw)),
        ⟨i, false, s1.state, .updateInstance iid row.revision fields⟩, ?_, rfl, hwritten, hqueue,
        hand iid i s1.log, _, ?_, hhand4⟩
      · have hown : (⟨i, false, s1.state, .updateInstance iid row.revision fields⟩ : Done) ∈
            own i s3.log := by
          rw [h3.1]
          exact mem_filter.mpr ⟨mem_cons_self, decide_eq_true rfl⟩
        exact mem_cons_of_mem _ (mem_filter.mp hown).1
      · simp [reads]
    · rw [decide_eq_false hrev]
      exact hret (hfail (.inr hrev))

theorem write_safe {row : InstanceRow} (hseen : Seen A iid row s)
    (htime : Holds iid i (InTime iid row) s)
    (hguar : ∀ t d, begins iid d → (∀ w ∈ s.states, w ∈ t.states) →
      hand iid i t.log = (hand iid i s.log).map (Hand.push [d]) →
      Careful A iid dag i t (.updateInstance iid row.revision fields)) :
    (custody A iid dag).Safe i (WriteEnd iid i fields row s)
      (updateInstance iid (some A.ownerScope) (some row.revision) fields) s := by
  have hret : ∀ {t : Past}, WriteEnd iid i fields row s none t →
      (custody A iid dag).Safe i (WriteEnd iid i fields row s) (.ret none) t :=
    fun h t' hr _ => h.rely hr
  intro s1 h1 hi1
  refine ⟨trivial, fun e1 he1 => ?_⟩
  have hhand1 := hand_of_own_eq h1.1 iid
  -- the row is selected
  have hsel : written iid ⟨i, e1, s1.state, .selectInstance iid (some A.ownerScope)⟩ = none := rfl
  have hbegun : begins iid ⟨i, e1, s1.state, .selectInstance iid (some A.ownerScope)⟩ := by
    simp [begins]
  have hhand2 := hand_unwritten hsel
  rw [hhand1] at hhand2
  have hst2 : ∀ w ∈ s.states, w ∈ (run i e1 s1
      (.selectInstance iid (some A.ownerScope))).1.states :=
    fun w hw => states_subset_traced exec i e1 s1 _ w (h1.2 w hw)
  -- an attempt that stops here is not the last one
  have hstop : (e1 ∨ s1.state.revisionOf iid ≠ some row.revision) →
      WriteEnd iid i fields row s none
        (run i e1 s1 (.selectInstance iid (some A.ownerScope))).1 := by
    intro hor
    refine WriteEnd.failed hst2 ⟨?_, ?_⟩ hhand2 fun h hh => ?_
    · simp [hbegun]
    · intro d hd
      rw [mem_singleton.mp hd]
      exact ⟨rfl, rfl⟩
    · obtain ⟨htries, hrev⟩ := htime h hh
      have hguard := he1 h (hhand1.trans hh) rfl
      by_contra hlt
      obtain ⟨hfree, hsame⟩ := hguard (by omega)
      rcases hor with hbusy | hne
      · rw [hbusy] at hfree
        cases hfree
      · exact hne (hsame.trans hrev)
  cases e1 with
  | true => exact hret (hstop (.inl rfl))
  | false =>
    obtain ⟨row1, hrow1, -⟩ := (hseen.later h1.2).present hi1.1
    have hget1 := (instanceOf_eq_some hrow1).1
    have hanswer : (run i false s1 (.selectInstance iid (some A.ownerScope))).2 =
        Answer.done (some row1) := congrArg Answer.done hrow1
    rw [hanswer]
    show (custody A iid dag).Safe i _ (if _ then _ else _) _
    by_cases hrev : row1.revision = row.revision
    · rw [if_neg (by simpa using hrev.symm), hrev]
      exact cas_safe hseen htime hst2 hbegun rfl rfl hhand2 fun t hst hh =>
        hguar t _ hbegun hst hh
    · rw [if_pos (by simpa using fun he => hrev he.symm)]
      refine hret (hstop (.inr ?_))
      rw [World.revisionOf, hget1]
      exact fun he => hrev (some.inj he)

end Write

/-! ## Reading the row again -/

section Read

variable {A : ChangeApplier} {iid : String} {dag : WorkflowDAG} {i : Nat} {s : Past}

/-- The call `g` read the row, and it is part of the hand since. -/
structure ReadBy (iid : String) (i : Nat) (row : InstanceRow) (s t : Past) (g : Done) : Prop where
  reads : reads iid g = true
  found : g.before.instances.get iid = some row
  states : ∀ w ∈ s.states, w ∈ t.states
  hand : hand iid i t.log = (hand iid i s.log).map (Hand.push [g])
  room : Holds iid i (fun h => h.sawRunning iid = true → Room row.pendingChanges h) s
  bound : row.pendingChanges.length ≤ maxPendingChanges

theorem begins_of_reads {g : Done} (h : reads iid g) :
    begins iid g = false ∧ lists iid g = false := by
  obtain ⟨who, env, before, o⟩ := g
  cases o with
  | getInstance j owner => exact ⟨rfl, rfl⟩
  | _ => cases h

namespace ReadBy

variable {row : InstanceRow} {t : Past} {g : Done} (h : ReadBy iid i row s t g) (held : Hand)

include h

theorem tries : (held.push [g]).tries iid = held.tries iid := by
  simp [Hand.tries, (begins_of_reads h.reads).1]

theorem sawRunning : (held.push [g]).sawRunning iid = held.sawRunning iid := by
  simp [Hand.sawRunning, (begins_of_reads h.reads).2]

theorem lastRow : (held.push [g]).lastRow iid = some row := by
  simp [Hand.lastRow, h.reads, h.found]

end ReadBy

theorem fetch_safe {α : Type} {Post : α → Past → Prop} {k : Option InstanceRow → Program α}
    (hnone : ∀ t, (¬ ∃ row, Seen A iid row s) →
      (hand iid i s.log = none → hand iid i t.log = none) →
      (custody A iid dag).Safe i Post (k none) t)
    (hk : ∀ t row g, (custody A iid dag).inv t → Seen A iid row t → ReadBy iid i row s t g →
      (custody A iid dag).Safe i Post (k (some row)) t) :
    (custody A iid dag).Safe i Post (getInstance iid (some A.ownerScope) >>= k) s := by
  intro s1 h1 hi1
  have hg1 : (custody A iid dag).guar i s1 (.getInstance iid (some A.ownerScope)) := trivial
  refine ⟨hg1, fun e1 he1 => ?_⟩
  have hunwritten : written iid ⟨i, e1, s1.state, .getInstance iid (some A.ownerScope)⟩ = none :=
    rfl
  have hhand1 := hand_of_own_eq h1.1 iid
  have hhand := hand_unwritten hunwritten
  rw [hhand1] at hhand
  cases hrow : s1.state.instanceOf iid (some A.ownerScope) with
  | none =>
    have hanswer : (run i e1 s1 (.getInstance iid (some A.ownerScope))).2 = none := hrow
    rw [hanswer]
    refine hnone _ ?_ fun hh => by rw [hhand, hh]; rfl
    rintro ⟨row, hseen⟩
    obtain ⟨row1, hrow1, -⟩ := (hseen.later h1.2).present hi1.1
    rw [hrow] at hrow1
    cases hrow1
  | some row1 =>
    have hget1 := (instanceOf_eq_some hrow).1
    have hanswer : (run i e1 s1 (.getInstance iid (some A.ownerScope))).2 = some row1 := hrow
    rw [hanswer]
    have hst := states_subset_traced exec i e1 s1 (.getInstance iid (some A.ownerScope))
    have hqueue : s1.state.queueOf iid = row1.pendingChanges := by
      rw [World.queueOf, hget1]
      rfl
    refine hk _ row1 _ ((custody A iid dag).inv_step hi1 hg1 he1)
      ((seen_of_answer hrow).later hst)
      ⟨?_, hget1, fun w hw => hst w (h1.2 w hw), hhand, ?_, hqueue ▸ hi1.2.1⟩
    · simp [reads]
    · intro h hh hran
      have hroom := he1 h (hhand1.trans hh) rfl hran
      exact hqueue ▸ hroom

end Read

/-! ## Giving back -/

/-- The changes were queued by a write of process `i`. -/
def QueuedBy (iid : String) (i : Nat) (source : String) (changes : List PendingChange)
    (d : Done) : Prop :=
  d.who = i ∧ ∃ f queue, written iid d = some f ∧ f.pendingChanges = some queue ∧
    ∀ ch ∈ changes, ch.queued source ∈ queue

/-- A change was handled: its process holds nothing, and what was deferred was queued. -/
def Handled (iid : String) (i : Nat) (source : String) (changes : List PendingChange)
    (r : ChangeResult) (t : Past) : Prop :=
  hand iid i t.log = none ∧
    (r.deferred = true → ∃ d ∈ t.log, QueuedBy iid i source changes d)

/-- With `n` attempts left, the process can queue the changes that it holds. -/
structure Returning (iid : String) (changes : List PendingChange) (n : Nat) (row : InstanceRow)
    (h : Hand) : Prop where
  changes : h.changes = changes
  left : n ≠ 0
  tries : h.tries iid + n = maxCasAttempts
  last : (h.lastRow iid).map InstanceRow.revision = some row.revision
  running : h.sawRunning iid = true
  room : Room row.pendingChanges h

section Give

variable {A : ChangeApplier} {iid : String} {dag : WorkflowDAG} {i : Nat} {s : Past}
  {changes : List PendingChange} {source : String}

theorem none_of_holds {φ : Hand → Prop} (h : Holds iid i φ s) (hφ : ∀ held, ¬ φ held) :
    hand iid i s.log = none := by
  cases hh : hand iid i s.log with
  | none => rfl
  | some held => exact absurd (h held hh) (hφ held)

theorem handled_ret {r : ChangeResult} (h : hand iid i s.log = none) (hr : r.deferred = false) :
    (custody A iid dag).Safe i (Handled iid i source changes) (.ret r) s := by
  intro t ht _
  refine ⟨(hand_of_own_eq ht.1 iid).trans h, fun hd => ?_⟩
  rw [hr] at hd
  cases hd

theorem after_settled {d : Done} {f : InstancePatch} (hw : written iid d = some f)
    (hs : (f.pendingChanges.isSome || f.decisions.isSome))
    (ht : f.pendingChanges = some [] → d.before.queueOf iid = []) (held : Option Hand) :
    Hand.after iid d held = none := by
  have htakes : takes iid d = false := by
    simp only [takes, hw, any_some, Bool.and_eq_false_iff, decide_eq_false_iff_not]
    by_cases hp : f.pendingChanges = some []
    · exact .inr (not_not_intro (ht hp))
    · exact .inl hp
  have hsettles : settles iid d := by
    rw [settles, hw]
    exact hs
  simp [Hand.after, htakes, hsettles]

theorem tries_push {calls : List Done} (hb : Begun iid calls) (h : Hand) :
    (h.push calls).tries iid = h.tries iid + 1 := by
  have hcount : (h.push calls).tries iid = calls.countP (begins iid) + h.tries iid :=
    countP_append
  rw [hcount, hb.begun]
  omega

theorem sawRunning_push (calls : List Done) {h : Hand} (hran : h.sawRunning iid) :
    (h.push calls).sawRunning iid := by
  unfold Hand.sawRunning at hran ⊢
  rw [push_calls, any_append, hran, Bool.or_true]

theorem deferRounds_safe (n : Nat) {row : InstanceRow} (hs : (custody A iid dag).inv s)
    (hseen : Seen A iid row s) (hhold : Holds iid i (Returning iid changes n row) s) :
    (custody A iid dag).Safe i (Handled iid i source changes)
      (A.deferRounds iid changes source n row) s := by
  induction n generalizing row s with
  | zero => exact handled_ret (none_of_holds hhold fun _ h => h.left rfl) rfl
  | succ n ih =>
    unfold ChangeApplier.deferRounds
    split
    · rename_i hfull
      refine handled_ret (none_of_holds hhold fun h hret => ?_) rfl
      have hroom : row.pendingChanges.length + h.changes.length ≤ maxPendingChanges := hret.room
      rw [hret.changes] at hroom
      omega
    · rename_i hroom
      have htime : Holds iid i (InTime iid row) s := hhold.imp fun h hret => by
        have htries := hret.tries
        exact ⟨by omega, hret.last⟩
      refine (write_safe hseen htime ?_).bind hs fun answer t ht hend => ?_
      · intro t d _ hst hhand _
        refine ⟨fun queue hq => ?_, fun ds hds => by cases hds⟩
        cases hq
        refine ⟨?_, .inr ⟨row, (hseen.later hst).was, rfl, subset_append_left _ _, ?_⟩⟩
        · rw [length_append, length_map]
          omega
        · intro h hh
          have hsame : Holds iid i (fun h => h.changes = changes) t :=
            hhold.pushed hhand fun _ hret => hret.changes
          have hall : contents (row.pendingChanges ++ changes.map (·.queued source)) =
              contents row.pendingChanges ++ contents changes := by
            rw [← contents_queued source changes]
            exact map_append
          rw [hsame h hh, hall]
          exact subset_append_right _ _
      · cases answer with
        | some row' =>
          intro u hu _
          obtain ⟨-, d, hd, hi, hw, hq, held, g, -, hhand⟩ := hend.rely hu
          rw [after_settled hw rfl (fun he => ?_)] at hhand
          · exact ⟨hhand, fun _ => ⟨d, hd, hi, _, _, hw, rfl, fun ch hch =>
              mem_append_right _ (List.mem_map_of_mem hch)⟩⟩
          · rw [hq]
            exact (append_eq_nil_iff.mp (some.inj he)).1
        | none =>
          obtain ⟨hst, calls, hb, hhand, hleft⟩ := hend
          refine fetch_safe (fun u hno => absurd ⟨row, hseen.later hst⟩ hno)
            fun u row' g hu hseen' hread => ?_
          refine ih hu hseen' fun h hh => ?_
          rw [hread.hand, hhand] at hh
          obtain ⟨h1, hh1, rfl⟩ := map_eq_some_iff.mp hh
          obtain ⟨h0, hh0, rfl⟩ := map_eq_some_iff.mp hh1
          have hret := hhold h0 hh0
          have hheld : hand iid i t.log = some (h0.push calls) := by rw [hhand, hh0]; rfl
          have hran := sawRunning_push calls hret.running
          have htries := hret.tries
          have hleft' : (h0.push calls).tries iid < maxCasAttempts := hleft _ hheld
          rw [tries_push hb] at hleft'
          have hroom := hread.room _ hheld hran
          refine ⟨hret.changes, by omega, ?_, ?_, ?_, hroom⟩
          · rw [hread.tries, tries_push hb]
            omega
          · rw [hread.lastRow]
            rfl
          · rw [hread.sawRunning]
            exact hran

end Give

/-! ## Deciding -/

theorem PlanMarked.push {iid : String} {plan : RecomputePlan} {marked : List String}
    {calls : List Done} (h : PlanMarked iid plan marked calls) (later : List Done) :
    PlanMarked iid plan marked (later ++ calls) := by
  refine h.imp_right ?_
  rintro ⟨newer, d, older, hcalls, hlist, hquiet, hall⟩
  refine ⟨later ++ newer, d, older, by rw [hcalls, append_assoc], hlist, hquiet, ?_⟩
  intro n hn hm
  simp only [any_append, Bool.or_eq_true]
  exact (hall n hn hm).imp (fun h => ⟨h.1, .inr h.2⟩) .inr

/-- With `n` attempts left, the process can record the decision about the changes it holds. -/
structure Deciding (iid : String) (dag : WorkflowDAG) (changes : List PendingChange)
    (marked : List String) (n : Nat) (row : InstanceRow) (h : Hand) : Prop where
  same : h.changes = changes
  left : n ≠ 0
  tries : h.tries iid + n = maxCasAttempts
  last : (h.lastRow iid).map InstanceRow.revision = some row.revision
  plan : PlanMarked iid (planForChanges dag changes) marked h.calls

section Decide

variable {A : ChangeApplier} {iid : String} {dag : WorkflowDAG} {i : Nat} {s : Past}
  {changes : List PendingChange} {marked : List String}

theorem appendRounds_safe (seq n : Nat) {row : InstanceRow} (hs : (custody A iid dag).inv s)
    (hseen : Seen A iid row s) (hhold : Holds iid i (Deciding iid dag changes marked n row) s) :
    (custody A iid dag).Safe i (fun _ t => hand iid i t.log = none)
      (A.appendRounds iid (A.decisionOf (planForChanges dag changes) changes seq marked) n row)
      s := by
  induction n generalizing row s with
  | zero =>
    intro t ht _
    exact (hand_of_own_eq ht.1 iid).trans (none_of_holds hhold fun _ h => h.left rfl)
  | succ n ih =>
    have htime : Holds iid i (InTime iid row) s := hhold.imp fun h hdec => by
      have htries := hdec.tries
      exact ⟨by omega, hdec.last⟩
    refine (write_safe hseen htime ?_).bind hs fun answer t ht hend => ?_
    · intro t d _ _ hhand _
      refine ⟨fun queue hq => (by cases hq), fun ds hds h hh => ?_⟩
      cases hds
      rw [hhand] at hh
      obtain ⟨h0, hh0, rfl⟩ := map_eq_some_iff.mp hh
      have hdec := hhold h0 hh0
      refine ⟨row.decisions, seq, marked, ?_, ?_⟩
      · rw [push_changes, hdec.same]
        exact hdec.plan.push [d]
      · rw [push_changes, hdec.same]
    · cases answer with
      | some row' =>
        intro u hu _
        obtain ⟨-, d, -, -, hw, -, held, g, -, hhand⟩ := hend.rely hu
        rw [after_settled hw rfl (fun he => by cases he)] at hhand
        exact hhand
      | none =>
        obtain ⟨hst, calls, hb, hhand, hleft⟩ := hend
        refine fetch_safe (fun u hno => absurd ⟨row, hseen.later hst⟩ hno)
          fun u row' g hu hseen' hread => ?_
        refine ih hu hseen' fun h hh => ?_
        rw [hread.hand, hhand] at hh
        obtain ⟨h1, hh1, rfl⟩ := map_eq_some_iff.mp hh
        obtain ⟨h0, hh0, rfl⟩ := map_eq_some_iff.mp hh1
        have hdec := hhold h0 hh0
        have hheld : hand iid i t.log = some (h0.push calls) := by rw [hhand, hh0]; rfl
        have htries := hdec.tries
        have hleft' : (h0.push calls).tries iid < maxCasAttempts := hleft _ hheld
        rw [tries_push hb] at hleft'
        refine ⟨hdec.same, by omega, ?_, ?_, (hdec.plan.push calls).push [g]⟩
        · rw [hread.tries, tries_push hb]
          omega
        · rw [hread.lastRow]
          rfl

end Decide

end WebGis.Workflow
