/-
  Each plan writes the dataset at most once, and only where the payload is the one that it was built
  from; a call that raises writes nothing.

  The journals are no part of the argument: they can lose every key. A commit writes only at the
  revision that its plan expects, and every overwrite raises the revision.
-/
import WebGis.Edit.Executor
import WebGis.Edit.Ordered

namespace WebGis.Edit

open Data Json List

/-- What happens to a dataset and to the journals of its session. -/
inductive Action where
  | commit (plan : Plan) (actor origin : String) (idempotencyKey : Option String) (r : Replies)
  | undo (actor origin : String) (r : Replies)
  | redo (actor origin : String) (r : Replies)
  | overwrite (p : Payload)
  | drop (name : String) (n : Nat)
  | evict (name : String)

variable (K : Kit) (ref : String)

/-- The calls, with how they end. -/
def call (s : Session) : Action → Option (Outcome × Session)
  | .commit plan actor origin key r => some (commitPlan K ref s plan actor origin key r)
  | .undo actor origin r => some (applyUndo K ref s actor origin r)
  | .redo actor origin r => some (applyRedo K ref s actor origin r)
  | _ => none

/-- A journal without its oldest entries. -/
def dropEntries (journals : Dict String EditJournal) (name : String) (n : Nat) :
    Dict String EditJournal :=
  match journals.find name with
  | none => journals
  | some j => journals.set name { j with entries := j.entries.drop n, dropped := j.dropped + n }

/-- One action. -/
def act (s : Session) (a : Action) : Session :=
  match call K ref s a with
  | some (_, s') => s'
  | none =>
    match a with
    | .overwrite p => { s with payload := some p, revision := s.revision + 1 }
    | .drop name n => { s with journals := dropEntries s.journals name n }
    | .evict name => { s with journals := Table.delete s.journals fun kj => kj.1 = name }
    | _ => s

/-- The session after some actions. -/
def actAll (s : Session) (as : List Action) : Session := as.foldl (act K ref) s

/-- The plan that an action writes. -/
def writesPlan (s : Session) : Action → Option Plan
  | .commit plan actor origin key r =>
    if (commitPlan K ref s plan actor origin key r).1.isWritten then some plan else none
  | _ => none

/-- The plans that are written, each with the session that it was written to. -/
def writes (s : Session) : List Action → List (Plan × Session)
  | [] => []
  | a :: as =>
    ((writesPlan K ref s a).map fun plan => (plan, s)).toList ++ writes (act K ref s a) as

variable {K ref}

/-! ## What a call does -/

/-- A call leaves everything as it was, or overwrites the payload. -/
def Writes (s : Session) (o : Outcome × Session) : Prop :=
  (o.1.isWritten = false ∧ o.2 = s) ∨
    (o.1.isWritten = true ∧ o.1.isRaised = false ∧ o.2.revision = s.revision + 1)

theorem writes_kept (s : Session) {o : Outcome} (h : o.isWritten = false) : Writes s (o, s) :=
  .inl ⟨h, rfl⟩

theorem writeEntry_writes (r : Replies) (s : Session) (p : Payload)
    (journals : Dict String EditJournal) (entry : JournalEntry) :
    Writes s (writeEntry K ref r s p journals entry) := by
  unfold writeEntry
  split
  · exact .inr ⟨rfl, rfl, rfl⟩
  · exact writes_kept s rfl

theorem applyInverse_writes (s : Session) (r : Replies) (p : Payload) (effect : JournalEntry) :
    Writes s (applyInverse K ref s r p effect) := by
  unfold applyInverse
  split
  · exact writes_kept s rfl
  · dsimp only
    split
    · exact writes_kept s rfl
    · exact writeEntry_writes _ _ _ _ _

theorem applyUndo_writes (s : Session) (actor origin : String) (r : Replies) :
    Writes s (applyUndo K ref s actor origin r) := by
  unfold applyUndo
  split
  · dsimp only
    split
    · exact writes_kept s rfl
    split
    · exact writes_kept s rfl
    split
    · exact writes_kept s rfl
    · split
      · exact writes_kept s rfl
      · exact applyInverse_writes _ _ _ _
  · exact writes_kept s rfl

theorem applyRedo_writes (s : Session) (actor origin : String) (r : Replies) :
    Writes s (applyRedo K ref s actor origin r) := by
  unfold applyRedo
  split
  · dsimp only
    split
    · exact writes_kept s rfl
    split
    · exact writes_kept s rfl
    split
    · exact writes_kept s rfl
    split
    · exact writes_kept s rfl
    · split
      · exact writes_kept s rfl
      · exact applyInverse_writes _ _ _ _
  · exact writes_kept s rfl

theorem commitFresh_writes (s : Session) (plan : Plan) (actor origin key : String) (r : Replies)
    (p : Payload) (c : Collection) :
    Writes s (commitFresh K ref s plan actor origin key r p c) := by
  unfold commitFresh
  split
  · exact writes_kept s rfl
  dsimp only
  split
  · exact writes_kept s rfl
  · split
    · exact writes_kept s rfl
    · exact writeEntry_writes _ _ _ _ _

/-- A commit writes only where the plan is not stale. -/
theorem commitPlan_writes (s : Session) (plan : Plan) (actor origin : String)
    (idempotencyKey : Option String) (r : Replies) :
    Writes s (commitPlan K ref s plan actor origin idempotencyKey r) ∧
      ((commitPlan K ref s plan actor origin idempotencyKey r).1.isWritten →
        ∃ p, s.payload = some p ∧ ¬ isStale K r s plan p) := by
  unfold commitPlan
  split
  · rename_i p hp _
    dsimp only
    split
    · exact ⟨writes_kept s rfl, nofun⟩
    split
    · exact ⟨writes_kept s rfl, nofun⟩
    · rename_i hfresh
      split
      · exact ⟨writes_kept s rfl, nofun⟩
      · exact ⟨commitFresh_writes _ _ _ _ _ _ _ _, fun _ => ⟨p, hp, hfresh⟩⟩
  · exact ⟨writes_kept s rfl, nofun⟩

variable {s : Session}

theorem call_writes {a : Action} {o : Outcome × Session} (h : call K ref s a = some o) :
    Writes s o := by
  cases a with
  | commit plan actor origin key r =>
    cases h
    exact (commitPlan_writes s plan actor origin key r).1
  | undo actor origin r =>
    cases h
    exact applyUndo_writes s actor origin r
  | redo actor origin r =>
    cases h
    exact applyRedo_writes s actor origin r
  | overwrite p => cases h
  | drop name n => cases h
  | evict name => cases h

theorem revision_le_act (s : Session) (a : Action) : s.revision ≤ (act K ref s a).revision := by
  unfold act
  cases hcall : call K ref s a with
  | some o =>
    rcases call_writes hcall with ⟨-, hkept⟩ | ⟨-, -, hrevision⟩
    · exact Nat.le_of_eq (congrArg Session.revision hkept).symm
    · exact Nat.le_of_lt (Nat.lt_of_lt_of_eq (Nat.lt_succ_self _) hrevision.symm)
  | none =>
    cases a with
    | overwrite p => exact Nat.le_succ _
    | _ => exact Nat.le_refl _

/-- A plan is written at the revision that it expects, to a payload with its fingerprint, and the
revision rises. -/
theorem writesPlan_spec {a : Action} {plan : Plan} (h : writesPlan K ref s a = some plan) :
    plan.expectedContentRevision = s.revision ∧
    (act K ref s a).revision = s.revision + 1 ∧
    ∃ p, s.payload = some p ∧ plan.expectedFingerprint = computePayloadFingerprint K p := by
  cases a with
  | commit plan' actor origin key r =>
    rw [writesPlan] at h
    split at h
    · rename_i hwritten
      cases h
      obtain ⟨hwrites, hfresh⟩ : Writes s (commitPlan K ref s plan actor origin key r) ∧ _ :=
        commitPlan_writes s plan actor origin key r
      obtain ⟨p, hp, hstale⟩ := hfresh hwritten
      have hrevision : plan.expectedContentRevision = s.revision := by
        unfold isStale currentRevision at hstale
        grind
      have hfingerprint : plan.expectedFingerprint = computePayloadFingerprint K p := by
        by_contra hne
        exact hstale (.inr (.inr hne))
      refine ⟨hrevision, ?_, p, hp, hfingerprint⟩
      rcases hwrites with ⟨hnot, -⟩ | ⟨-, -, hraised⟩
      · rw [hwritten] at hnot
        cases hnot
      · exact hraised
    · cases h
  | _ => cases h

/-! ## Runs -/

theorem writes_cons (s : Session) (a : Action) (as : List Action) :
    writes K ref s (a :: as) =
      ((writesPlan K ref s a).map fun plan => (plan, s)).toList ++ writes K ref (act K ref s a) as :=
  rfl

variable {as : List Action} {w : Plan × Session}

theorem revision_le_writes (h : w ∈ writes K ref s as) :
    s.revision ≤ w.1.expectedContentRevision := by
  induction as generalizing s with
  | nil => cases h
  | cons a as ih =>
    rw [writes_cons, mem_append] at h
    rcases h with h | h
    · obtain ⟨plan, hplan, rfl⟩ := Option.map_eq_some_iff.mp (Option.mem_toList.mp h)
      exact Nat.le_of_eq (writesPlan_spec hplan).1.symm
    · exact (revision_le_act s a).trans (ih h)

theorem writes_rise (s : Session) (as : List Action) :
    (writes K ref s as).Pairwise fun v w =>
      v.1.expectedContentRevision < w.1.expectedContentRevision := by
  induction as generalizing s with
  | nil => exact .nil
  | cons a as ih =>
    rw [writes_cons]
    cases hplan : writesPlan K ref s a with
    | none => exact ih _
    | some plan =>
      obtain ⟨hexpected, hrevision, -⟩ := writesPlan_spec hplan
      refine pairwise_cons.mpr ⟨fun w hw => ?_, ih _⟩
      have hle := revision_le_writes hw
      dsimp only
      omega

theorem writes_fit (h : w ∈ writes K ref s as) :
    ∃ p, w.2.payload = some p ∧ w.1.expectedFingerprint = computePayloadFingerprint K p := by
  induction as generalizing s with
  | nil => cases h
  | cons a as ih =>
    rw [writes_cons, mem_append] at h
    rcases h with h | h
    · obtain ⟨plan, hplan, rfl⟩ := Option.map_eq_some_iff.mp (Option.mem_toList.mp h)
      exact (writesPlan_spec hplan).2.2
    · exact ih h

/-- The plan was built from the payload. -/
def Plan.BuiltFrom (K : Kit) (plan : Plan) (p : Payload) : Prop :=
  ∃ token refId ops opSummaries requested selection revision targets,
    (buildPlan K token refId p ops opSummaries requested selection revision targets).1 = some plan

theorem Plan.BuiltFrom.fingerprint {plan : Plan} {p : Payload} (h : plan.BuiltFrom K p) :
    plan.expectedFingerprint = computePayloadFingerprint K p := by
  obtain ⟨token, refId, ops, opSummaries, requested, selection, revision, targets, h⟩ := h
  unfold buildPlan at h
  split at h
  · cases h
  split at h
  · cases h
  split at h
  · cases h
  cases h
  rfl

/-- In every run no plan is written twice, each one only to the payload that it was built from; and
a call that raises leaves the session as it was. -/
theorem plans_write_once (hsha : Function.Injective K.sha256) (s : Session) (as : List Action) :
    ((writes K ref s as).map Prod.fst).Nodup ∧
    (∀ w ∈ writes K ref s as, ∀ built, w.1.BuiltFrom K built →
      ∃ p, w.2.payload = some p ∧ p.Same built) ∧
    ∀ done a rest o s', as = done ++ a :: rest →
      call K ref (actAll K ref s done) a = some (o, s') → o.isRaised →
      s' = actAll K ref s done := by
  refine ⟨?_, ?_, ?_⟩
  · rw [List.Nodup, pairwise_map]
    refine (writes_rise s as).imp fun {v w} hlt heq => ?_
    rw [heq] at hlt
    exact Nat.lt_irrefl _ hlt
  · intro w hw built hbuilt
    obtain ⟨p, hp, hfingerprint⟩ := writes_fit hw
    have heq : computePayloadFingerprint K p = computePayloadFingerprint K built :=
      hfingerprint.symm.trans hbuilt.fingerprint
    exact ⟨p, hp, dumps_inj (hsha heq)⟩
  · intro done a rest o s' _ hcall hraised
    rcases call_writes hcall with ⟨-, hkept⟩ | ⟨-, hnot, -⟩
    · exact hkept
    · rw [hraised] at hnot
      cases hnot

/-! ## A plan that is committed twice -/

def plainKit : Kit := ⟨default, id, still⟩

/-- The store answers everything. -/
def answered : Replies where
  found := true
  described := true
  journalsRead := true
  targets := .empty
  overwritten := true
  describedAfter := true
  recorded := true
  now := 0

def surveyed : Session := ⟨some (.bare measured), 1, .empty⟩

def alignedPlan : Plan where
  token := "1"
  refId := "ref:a"
  ops := aligned
  opSummaries := .arr []
  targetWfids := ["w1"]
  needsMaterialization := false
  expectedContentRevision := 1
  expectedFingerprint := computePayloadFingerprint plainKit (.bare measured)

/-- The second commit has lost the journal and another key. -/
def retried : List Action :=
  [.commit alignedPlan "user" "user" none answered, .evict "ref:a",
    .commit alignedPlan "user" "user" (some "again") answered]

theorem retried_writes_once :
    ((writes plainKit "ref:a" surveyed retried).map Prod.fst).Nodup ∧
    (∀ w ∈ writes plainKit "ref:a" surveyed retried, ∀ built, w.1.BuiltFrom plainKit built →
      ∃ p, w.2.payload = some p ∧ p.Same built) ∧
    ∀ done a rest o s', retried = done ++ a :: rest →
      call plainKit "ref:a" (actAll plainKit "ref:a" surveyed done) a = some (o, s') →
      o.isRaised → s' = actAll plainKit "ref:a" surveyed done :=
  plans_write_once Function.injective_id surveyed retried

example : (writes plainKit "ref:a" surveyed retried).length = 1 := by decide +kernel

end WebGis.Edit
