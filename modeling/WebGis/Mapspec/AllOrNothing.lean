/-
  What a merge leaves of a proposal.

  An intent that fails after it has begun to write is undone by the engine, and that moves the
  revision on by one. The merge does not know: its rollback expects the old revision, takes the
  difference for another writer, and the intents before stay (`half_merged`). In the runs in which
  no intent fails so, is a no-op, is stale to its handler or was committed before, and in which the
  rollback finds its checkpoint (`careful`), a merge is all or nothing, and touches nothing once
  another writer has committed (`merge_safe`).
-/
import WebGis.Mapspec.Merge
import WebGis.Data.Play

namespace WebGis.Mapspec

open Data Data.Json Option MutationCall Session MergeConfig Envelope

/-! ## Calls that stop before they write, or commit -/

/-- The intent is refused, or committed. -/
def Verdict.calm (fates : Fates) : Verdict → Bool
  | .ends .refused => true
  | .ends _ => false
  | .commits _ _ => !fates.save.fails

/-- A call that gets past its beginning is refused or committed, and none is known from before. -/
def Opening.calm (o : Opening) (goesOn : Session → Bool) : Bool :=
  match o with
  | .closed _ outcome => outcome ≠ .duplicate
  | .opened s => goesOn s

section Calls

variable (sha256 : String → String) (R : FloatRepr)

def MutationCall.calm (call : MutationCall) (s : Session) : Bool :=
  !call.passes || (s.opening call.toEnvelope).calm fun s' =>
    !call.raises sha256 R s' && (call.course s').verdict.calm call.fates

def BatchCall.calm (call : BatchCall) (s : Session) : Bool :=
  (s.opening call.toEnvelope).calm fun s' => (call.course s').verdict.calm call.fates

end Calls

/-- The same specification and revision. -/
structure Session.Unmoved (s s' : Session) : Prop where
  mapspec : s'.getMapspec = s.getMapspec
  revision : s'.revision = s.revision

/-- How a calm call ends. -/
inductive Answered (e : Envelope) (verdict : Verdict) (s : Session) : Session × Outcome → Prop
  | refused (s' : Session) (unmoved : s.Unmoved s') : Answered e verdict s (s', .failed)
  | stale (s' : Session) (unmoved : s.Unmoved s') (r : Int) (expected : e.expectedRevision = some r)
      (other : r ≠ (s.revision : Int)) : Answered e verdict s (s', .superseded)
  | committed (s' : Session) (mapspec : Json) (layers : Option LayerWrite)
      (commits : verdict = .commits mapspec layers)
      (current : ∀ r, e.expectedRevision = some r → r = (s.revision : Int))
      (written : s'.getMapspec = shown mapspec) (revision : s'.revision = s.revision + 1) :
      Answered e verdict s (s', .committed)

section Answers

variable {sha256 : String → String} {R : FloatRepr} {s s' s₀ : Session} {e : Envelope}
  {call : MutationCall}

theorem getMapspec_of_state {m : Json} (h : s.state.mapspec = some m) : s.getMapspec = shown m := by
  have hnot : s.expired = false := by simp [expired, h]
  rw [getMapspec, revived_of_not hnot, h]
  cases m <;> rfl

theorem unmoved_revived (s : Session) : s.Unmoved s.revived :=
  ⟨(same_revived s).mapspec, (same_revived s).revision⟩

theorem getMapspec_checkpoints (s : Session) (c : CheckpointStore) :
    getMapspec { s with checkpoints := c } = s.getMapspec := by
  have hstate : (revived { s with checkpoints := c }).state = s.revived.state := by
    unfold revived expired
    split <;> rfl
  rw [getMapspec, hstate, getMapspec]

theorem Session.Unmoved.trans (h : s₀.Unmoved s) (h' : s.Unmoved s') : s₀.Unmoved s' :=
  ⟨h'.mapspec.trans h.mapspec, h'.revision.trans h.revision⟩

theorem unmoved_checkpoints (s : Session) (c : CheckpointStore) :
    s.Unmoved { s with checkpoints := c } :=
  ⟨getMapspec_checkpoints s c, revision_checkpoints s c⟩

theorem saved_state {m : Json} {revision : Nat} {layers : Option LayerWrite}
    {dedup : Option MutationDedupIndex} {fate : SaveFate} (h : fate.fails = false) :
    (s.saveMapspec m revision layers dedup fate).1.state =
      (s.commitMapspecState m revision layers dedup).state := by
  rw [saveMapspec_state, h]
  rfl

theorem conclude_answered {course : Course} (checkpointId : Option String)
    (hu : s₀.Unmoved s) (hcalm : course.verdict.calm e.fates)
    (hcurrent : ∀ r, e.expectedRevision = some r → r = (s₀.revision : Int)) :
    Answered e course.verdict s₀ (e.conclude course s checkpointId) := by
  unfold conclude
  cases hv : course.verdict with
  | ends ending =>
    rw [hv] at hcalm
    cases ending with
    | refused => exact .refused s hu
    | superseded | unchanged | raised => cases hcalm
  | commits m layers =>
    rw [hv] at hcalm
    have hfails : e.fates.save.fails = false := by simpa [Verdict.calm] using hcalm
    dsimp only
    rw [saveMapspec_snd, hfails, Bool.not_false, if_pos rfl]
    have hmapspec : (s.saveMapspec m (s.revision + 1) layers
        (dedupCommitFields s.state.mutationDedup e.mutationId (s.revision + 1) e.origin)
        e.fates.save).1.state.mapspec = some m := by
      rw [saved_state hfails]
      rfl
    refine .committed _ m layers rfl hcurrent (getMapspec_of_state hmapspec) ?_
    rw [revision_of_mapspec hmapspec, saved_state hfails, ← hu.revision]
    rfl

theorem opening_stale (h : s.opening e = .closed s' .superseded) :
    s' = s.revived ∧ ∃ r, e.expectedRevision = some r ∧ r ≠ (s.revision : Int) := by
  unfold opening at h
  split at h
  · cases h
  split at h
  · cases h
  split at h
  · cases h
  split at h
  · rename_i hany
    cases h
    refine ⟨rfl, ?_⟩
    obtain ⟨r, hr, hne⟩ := (Option.any_eq_true _ _).mp hany
    exact ⟨r, hr, of_decide_eq_true hne⟩
  · cases h

theorem opening_current (h : s.opening e = .opened s') :
    s' = s.revived ∧ ∀ r, e.expectedRevision = some r → r = (s.revision : Int) := by
  rcases opening_cases s e with ho | ho | ho | ⟨ho, -, hcurrent⟩
  all_goals rw [ho] at h
  · cases h
  · cases h
  · cases h
  · cases h
    exact ⟨rfl, hcurrent⟩

variable {outcome : Outcome}

theorem opening_over (h : s.opening e = .closed s' outcome) :
    s.Unmoved s' ∧ (outcome = .failed ∨ outcome = .duplicate ∨ outcome = .superseded) := by
  rcases opening_cases s e with ho | ho | ho | ⟨ho, -, -⟩
  all_goals rw [ho] at h
  all_goals cases h
  · exact ⟨⟨rfl, rfl⟩, .inl rfl⟩
  · exact ⟨unmoved_revived s, .inr (.inl rfl)⟩
  · exact ⟨unmoved_revived s, .inr (.inr rfl)⟩

theorem closed_answered (verdict : Verdict) (h : s.opening e = .closed s' outcome)
    (hnew : outcome ≠ .duplicate) : Answered e verdict s (s', outcome) := by
  obtain ⟨hu, rfl | rfl | rfl⟩ := opening_over h
  · exact .refused s' hu
  · exact absurd rfl hnew
  · obtain ⟨-, r, hr, hne⟩ := opening_stale h
    exact .stale s' hu r hr hne

theorem run_answered (hcalm : call.raises sha256 R s = false)
    (hverdict : (call.course s).verdict.calm call.fates) (hu : s₀.Unmoved s)
    (hcurrent : ∀ r, call.expectedRevision = some r → r = (s₀.revision : Int)) :
    Answered call.toEnvelope (call.course s).verdict s₀
      (call.run sha256 R (call.course s) s) := by
  unfold run
  cases htake : (call.course s).take with
  | none => exact conclude_answered none hu hverdict hcurrent
  | some taking =>
    obtain ⟨mapspec, checkpointId⟩ := taking
    dsimp only
    split
    · rename_i err herr
      rw [raises, htake] at hcalm
      simp [herr, Except.toBool] at hcalm
    · exact conclude_answered _ (hu.trans (unmoved_checkpoints s _)) hverdict hcurrent

theorem applyMutation_answered (hcalm : call.calm sha256 R s) :
    Answered call.toEnvelope (call.course s.revived).verdict s (applyMutation sha256 R s call) := by
  unfold applyMutation
  split
  · exact .refused s ⟨rfl, rfl⟩
  rename_i hpasses
  rw [not_not] at hpasses
  unfold calm at hcalm
  rw [hpasses, Bool.not_true, Bool.false_or] at hcalm
  cases hopen : s.opening call.toEnvelope with
  | closed s' outcome =>
    rw [hopen] at hcalm
    exact closed_answered _ hopen (of_decide_eq_true hcalm)
  | opened s' =>
    rw [hopen] at hcalm
    obtain ⟨rfl, hcurrent⟩ := opening_current hopen
    simp only [Opening.calm, Bool.and_eq_true, Bool.not_eq_true'] at hcalm
    exact run_answered hcalm.1 hcalm.2 (unmoved_revived s) hcurrent

theorem applyPresentationBatch_answered {call : BatchCall} (hcalm : call.calm s) :
    Answered call.toEnvelope (call.course s.revived).verdict s
      (applyPresentationBatch s call) := by
  unfold applyPresentationBatch
  unfold BatchCall.calm at hcalm
  cases hopen : s.opening call.toEnvelope with
  | closed s' outcome =>
    rw [hopen] at hcalm
    exact closed_answered _ hopen (of_decide_eq_true hcalm)
  | opened s' =>
    rw [hopen] at hcalm
    obtain ⟨rfl, hcurrent⟩ := opening_current hopen
    exact conclude_answered none (unmoved_revived s) hcalm hcurrent

end Answers

/-! ## The directory of the checkpoint -/

section Directory

variable {sha256 : String → String} {R : FloatRepr} {D : SessionData} {now : Nat}
  {store : CheckpointStore} {mapspec : Json} {checkpointId : Option String} {k : String}
  {c : Checkpoint}

theorem prepare_id {p : Prepared} (h : prepare sha256 R D now store mapspec checkpointId = .ok p) :
    p.id = idFor checkpointId now := by
  unfold prepare at h
  dsimp only at h
  split at h
  · cases h
  split at h
  · cases h
  split at h
  · cases h
  · rw [← Except.ok.inj h]

theorem find_of_snapshot (hname : idFor checkpointId now ≠ k)
    (h : (snapshot sha256 R D now store mapspec checkpointId).store.dirs.find k = some c) :
    store.dirs.find k = some c := by
  unfold snapshot at h
  cases hp : prepare sha256 R D now store mapspec checkpointId with
  | error err =>
    rw [hp] at h
    exact h
  | ok p =>
    rw [hp] at h
    have hdirs := (prepare_dirs hp).1
    cases took p checkpointId with
    | reused existing found hstore =>
      rw [hstore, hdirs] at h
      exact h
    | same new records hsame =>
      rw [hsame, hdirs] at h
      exact h
    | blocked hstore =>
      rw [hstore, hdirs] at h
      exact h
    | written new other hwritten =>
      rcases hwritten k c h with ⟨hid, -⟩ | ⟨-, hold⟩
      · exact absurd (hid.trans (prepare_id hp)).symm hname
      · rwa [hdirs] at hold

/-- The snapshot of this document takes no other under the name for its own. -/
def findsOwn (sha256 : String → String) (R : FloatRepr) (D : SessionData) (now : Nat)
    (store : CheckpointStore) (mapspec : Json) (id : String) : Bool :=
  match prepare sha256 R D now store mapspec (some id) with
  | .ok p =>
    !p.store.records p.id p.checkpoint.descriptor.contentHash ||
      (store.dirs.find id).all fun c => c.mapspec = mapspec
  | .error _ => true

theorem snapshot_own (hname : idFor (some k) now = k)
    (hown : findsOwn sha256 R D now store mapspec k) {taken : Taken}
    (hok : (snapshot sha256 R D now store mapspec (some k)).result = .ok taken)
    (h : (snapshot sha256 R D now store mapspec (some k)).store.dirs.find k = some c) :
    c.mapspec = mapspec := by
  unfold snapshot at h hok
  unfold findsOwn at hown
  cases hp : prepare sha256 R D now store mapspec (some k) with
  | error err =>
    rw [hp] at hok
    cases hok
  | ok p =>
    rw [hp] at h hok hown
    dsimp only at h hok hown
    obtain ⟨hdirs, hmapspec⟩ := prepare_dirs hp
    cases took p (some k) with
    | reused existing found => cases found
    | same new records hsame =>
      rw [hsame, hdirs] at h
      rw [records, h] at hown
      simpa using hown
    | blocked hstore wrote result => exact absurd hok (result taken)
    | written new other hwritten =>
      rcases hwritten k c h with ⟨-, rfl⟩ | ⟨hne, -⟩
      · exact hmapspec
      · exact absurd ((prepare_id hp).trans hname).symm hne

variable {s : Session} {e : Envelope} {call : MutationCall}

theorem conclude_calm_checkpoints {course : Course} (taken : Option String)
    (hcalm : course.verdict.calm e.fates) :
    (e.conclude course s taken).1.checkpoints = s.checkpoints := by
  unfold conclude
  cases hv : course.verdict with
  | ends ending =>
    rw [hv] at hcalm
    cases ending with
    | refused => rfl
    | superseded | unchanged | raised => cases hcalm
  | commits m layers =>
    rw [hv] at hcalm
    have hfails : e.fates.save.fails = false := by simpa [Verdict.calm] using hcalm
    dsimp only
    rw [saveMapspec_snd, hfails, Bool.not_false, if_pos rfl]
    exact saveMapspec_checkpoints _ _ _ _ _ _

/-- The checkpoints after a calm call are those before, or those after its snapshot. -/
theorem applyMutation_checkpoints (hcalm : call.calm sha256 R s) :
    ((applyMutation sha256 R s call).1.checkpoints = s.checkpoints ∧
        ((applyMutation sha256 R s call).2 = .committed → (call.course s.revived).take = none)) ∨
      ∃ mapspec checkpointId taken, (call.course s.revived).take = some (mapspec, checkpointId) ∧
        (snapshot sha256 R call.data call.now s.checkpoints mapspec checkpointId).result =
          .ok taken ∧
        (applyMutation sha256 R s call).1.checkpoints =
          (snapshot sha256 R call.data call.now s.checkpoints mapspec checkpointId).store := by
  unfold applyMutation
  split
  · exact .inl ⟨rfl, fun h => by cases h⟩
  rename_i hpasses
  rw [not_not] at hpasses
  unfold calm at hcalm
  rw [hpasses, Bool.not_true, Bool.false_or] at hcalm
  cases hopen : s.opening call.toEnvelope with
  | closed s' outcome =>
    left
    refine ⟨?_, fun h => ?_⟩
    · rcases opening_closed hopen with rfl | rfl
      · rfl
      · exact revived_checkpoints s
    · rcases (opening_over hopen).2 with rfl | rfl | rfl <;> cases h
  | opened s' =>
    rw [hopen] at hcalm
    obtain rfl := opening_opened hopen
    simp only [Opening.calm, Bool.and_eq_true, Bool.not_eq_true'] at hcalm
    obtain ⟨hraises, hverdict⟩ := hcalm
    dsimp only
    unfold run
    cases htake : (call.course s.revived).take with
    | none =>
      left
      refine ⟨?_, fun _ => rfl⟩
      rw [conclude_calm_checkpoints none hverdict, revived_checkpoints]
    | some taking =>
      obtain ⟨mapspec, checkpointId⟩ := taking
      dsimp only
      split
      · rename_i err herr
        rw [raises, htake] at hraises
        simp [herr, Except.toBool] at hraises
      · rename_i taken hok
        right
        rw [revived_checkpoints] at hok
        refine ⟨mapspec, checkpointId, taken, rfl, hok, ?_⟩
        rw [conclude_calm_checkpoints _ hverdict, revived_checkpoints]

theorem find_of_applyMutation (hcalm : call.calm sha256 R s)
    (hname : ∀ mapspec checkpointId, (call.course s.revived).take = some (mapspec, checkpointId) →
      idFor checkpointId call.now ≠ k)
    (h : (applyMutation sha256 R s call).1.checkpoints.dirs.find k = some c) :
    s.checkpoints.dirs.find k = some c := by
  rcases applyMutation_checkpoints hcalm with
    ⟨hsame, -⟩ | ⟨mapspec, checkpointId, taken, htake, -, hsnap⟩
  · rwa [hsame] at h
  · rw [hsnap] at h
    exact find_of_snapshot (hname mapspec checkpointId htake) h

theorem applyPresentationBatch_checkpoints {call : BatchCall} (hcalm : call.calm s) :
    (applyPresentationBatch s call).1.checkpoints = s.checkpoints := by
  unfold applyPresentationBatch
  unfold BatchCall.calm at hcalm
  cases hopen : s.opening call.toEnvelope with
  | closed s' outcome =>
    rcases opening_closed hopen with rfl | rfl
    · rfl
    · exact revived_checkpoints s
  | opened s' =>
    rw [hopen] at hcalm
    obtain rfl := opening_opened hopen
    rw [conclude_calm_checkpoints none hcalm, revived_checkpoints]

end Directory

/-! ## What a call commits -/

section Courses

variable {s : Session} {call : MutationCall} {m : Json} {layers : Option LayerWrite}

theorem holding_ok {e : Envelope} {finished : Except Objection Json}
    (h : e.holding finished = .ok m) : finished = .ok m := by
  unfold holding at h
  split at h
  · split at h
    · cases h
    · exact h
  · cases h

theorem commitsOver_of_course (hreq : ∀ id, call.request ≠ .rollback id)
    (h : (call.course s).verdict = .commits m layers) :
    call.commitsOver s.getMapspec s.revision = some m := by
  unfold course at h
  unfold commitsOver drafted
  dsimp only at h
  cases hguard : call.guard s.getMapspec with
  | error ending =>
    rw [hguard] at h
    cases h
  | ok allowed =>
    rw [hguard] at h
    cases hrequest : call.request with
    | checkpoint id =>
      rw [hrequest] at h
      dsimp only [bind_some] at h ⊢
      cases hheld : call.holding (call.finish (orSkeleton s.getMapspec)) with
      | error ending =>
        rw [hheld] at h
        cases h
      | ok mapspec =>
        rw [hheld] at h
        cases h
        rw [holding_ok hheld]
    | rollback id => exact absurd hrequest (hreq id)
    | initProject | edit =>
      rw [hrequest] at h
      cases hhandled : call.handle (call.loadedFor s.getMapspec) with
      | error ending =>
        rw [hhandled] at h
        cases h
      | ok candidate =>
        rw [hhandled] at h
        dsimp only [bind_some] at h ⊢
        cases hheld : call.holding (call.finish candidate.mapspec) with
        | error ending =>
          rw [hheld] at h
          cases h
        | ok mapspec =>
          rw [hheld] at h
          cases h
          rw [holding_ok hheld]

theorem take_of_edit (hedits : call.request = .initProject ∨ call.request = .edit)
    {mapspec : Json} {checkpointId : Option String}
    (h : (call.course s).take = some (mapspec, checkpointId)) : checkpointId = none := by
  unfold course at h
  dsimp only at h
  split at h
  · cases h
  split at h
  · rename_i hrequest
    rw [hrequest] at hedits
    rcases hedits with hedits | hedits <;> cases hedits
  · rename_i hrequest
    rw [hrequest] at hedits
    rcases hedits with hedits | hedits <;> cases hedits
  all_goals
    split at h
    · cases h
    split at h
    · cases h
    split at h
    · cases h
      rfl
    · cases h

theorem take_of_checkpoint {id : Option String} (hrequest : call.request = .checkpoint id)
    (h : (call.course s).verdict = .commits m layers) :
    (call.course s).take = some (orSkeleton s.getMapspec, id) := by
  unfold course at h ⊢
  dsimp only at h ⊢
  split at h
  · cases h
  · rw [hrequest]

theorem take_of_rollback {id : String} (hrequest : call.request = .rollback id) :
    (call.course s).take = none := by
  unfold course
  dsimp only
  split
  · rfl
  rw [hrequest]
  dsimp only
  split
  · rfl
  split
  · rfl
  · split <;> rfl

end Courses

/-! ## A checkpoint that fails -/

/-- The rollback of the engine goes through. -/
def Envelope.undoes (e : Envelope) (restores : Option Json) : Bool :=
  match restores with
  | some _ => !e.fates.rollback.fails
  | none => e.fates.discard.unlinked && e.fates.discard.mapspec

section Failures

variable (sha256 : String → String) (R : FloatRepr)

/-- The call fails after it has begun to write, and the engine puts back what it has found. -/
def MutationCall.undone (call : MutationCall) (s : Session) : Bool :=
  (call.raises sha256 R s ||
    match (call.course s).verdict with
    | .ends ending => ending = .raised
    | .commits _ _ => call.fates.save.fails) &&
  ((call.course s).restores = s.getMapspec && call.undoes (call.course s).restores)

variable {sha256 R} {s before : Session} {e : Envelope} {call : MutationCall}

theorem shown_getMapspec (s : Session) : s.getMapspec.bind shown = s.getMapspec := by
  unfold getMapspec
  split
  · rfl
  rename_i hnot
  cases hv : s.revived.state.mapspec with
  | none => rfl
  | some v =>
    cases v with
    | null => exact absurd hv (by simpa using hnot)
    | _ => rfl

theorem abort_getMapspec {restores : Option Json} (checkpointId : Option String)
    (h : e.undoes restores) :
    (e.abort before s restores checkpointId).getMapspec = restores.bind shown := by
  have hstrip : ∀ t : Session, (t.dedupStrip e.mutationId e.fates.strip).state.mapspec =
      t.state.mapspec := by
    intro t
    unfold dedupStrip
    split
    · split <;> rfl
    · rfl
  have hstate : (e.abort before s restores checkpointId).state.mapspec =
      (s.rollbackToSnapshot restores before.state.layers (before.revision + 1) e.fates.rollback
        e.fates.discard).state.mapspec := by
    rw [abort_state, hstrip]
  cases restores with
  | some m =>
    have hfails : e.fates.rollback.fails = false := by simpa [undoes] using h
    have hsaved : (s.saveMapspec m (before.revision + 1) (some fun _ => before.state.layers) none
        e.fates.rollback).1.state.mapspec = some m := by
      rw [saved_state hfails]
      rfl
    exact getMapspec_of_state (hstate.trans hsaved)
  | none =>
    simp only [undoes, Bool.and_eq_true] at h
    refine getMapspec_of_state (m := .null) (hstate.trans ?_)
    show (s.discardMapspec e.fates.discard).state.mapspec = some .null
    unfold discardMapspec
    rw [if_pos h.1]
    rw [if_pos h.2]

theorem run_undone (h : call.undone sha256 R s) :
    (call.run sha256 R (call.course s) s).2 = .failed ∧
      (call.run sha256 R (call.course s) s).1.getMapspec = s.getMapspec := by
  unfold undone at h
  simp only [Bool.and_eq_true, decide_eq_true_eq] at h
  obtain ⟨hfails, hrestores, hundoes⟩ := h
  have haborted : ∀ (before t : Session) (taken : Option String),
      (call.abort before t (call.course s).restores taken).getMapspec = s.getMapspec := by
    intro before t taken
    rw [abort_getMapspec taken hundoes, hrestores, shown_getMapspec]
  have hconclude : ∀ (t : Session) (taken : Option String), call.raises sha256 R s = false →
      (call.conclude (call.course s) t taken).2 = .failed ∧
        (call.conclude (call.course s) t taken).1.getMapspec = s.getMapspec := by
    intro t taken hraises
    rw [hraises, Bool.false_or] at hfails
    unfold conclude
    cases hv : (call.course s).verdict with
    | ends ending =>
      rw [hv] at hfails
      obtain rfl := of_decide_eq_true hfails
      exact ⟨rfl, haborted t t taken⟩
    | commits m layers =>
      rw [hv] at hfails
      dsimp only at hfails ⊢
      rw [saveMapspec_snd, hfails, Bool.not_true, if_neg Bool.false_ne_true]
      exact ⟨rfl, haborted t _ taken⟩
  unfold run
  cases htake : (call.course s).take with
  | none =>
    have hraises : call.raises sha256 R s = false := by simp [raises, htake]
    exact hconclude s none hraises
  | some taking =>
    obtain ⟨mapspec, checkpointId⟩ := taking
    dsimp only
    split
    · exact ⟨rfl, haborted _ _ none⟩
    · rename_i taken hok
      have hraises : call.raises sha256 R s = false := by
        simp [raises, htake, hok, Except.toBool]
      exact hconclude _ _ hraises

end Failures

/-! ## Runs -/

namespace MergeWorld

section Conditions

variable (cfg : MergeConfig) (w : MergeWorld)

/-- The checkpoint is refused or taken, and under its name no other document stands for it; or it
    fails and is undone. -/
def mayCheckpoint (current : Nat) : Bool :=
  let call := cfg.asCheckpoint current
  (call.calm cfg.sha256 cfg.floats w.session &&
      findsOwn cfg.sha256 cfg.floats call.data call.now w.session.checkpoints
        (orSkeleton w.session.getMapspec) cfg.checkpointId) ||
    (call.passes &&
      match w.session.opening call.toEnvelope with
      | .closed _ _ => false
      | .opened s => call.undone cfg.sha256 cfg.floats s)

/-- The rollback finds the checkpoint of a session that had a document, and commits it as it is. -/
def mayRollBack (p : Progress) : Bool :=
  let call := cfg.asRollback p.rev
  call.passes &&
    match w.session.opening call.toEnvelope with
    | .closed _ outcome => outcome = .superseded
    | .opened s =>
      w.before.any truthy && !call.fates.save.fails &&
        match (call.course s).verdict, rollback call.data s.checkpoints cfg.checkpointId with
        | .commits mapspec _, some restored => mapspec = restored
        | _, _ => false

/-- The intents of the merge and the calls of others are refused or committed, and were not
    committed before; nobody takes a checkpoint under the name of the merge. -/
def careful (move : MergeMove) : Bool :=
  match move, w.stage with
  | .call, .checkpoint current => w.mayCheckpoint cfg current
  | .call, .replay p index (some intent :: _) =>
    (cfg.asIntent intent.call p.rev index).calm cfg.sha256 cfg.floats w.session
  | .call, .rollback p _ => w.mayRollBack cfg p
  | .foreign call, _ =>
    call.calm cfg.sha256 cfg.floats w.session &&
      (call.course w.session.revived).take.all fun taking => taking.2 ≠ some cfg.checkpointId
  | .foreignBatch call, _ => call.calm w.session
  | _, _ => true

end Conditions

variable {cfg : MergeConfig} {w w' : MergeWorld} {rev : Nat}

/-- The session has come as far as the merge knows, and further once others have committed. -/
structure Follows (w : MergeWorld) (rev : Nat) : Prop where
  reached : rev ≤ w.session.revision
  passed : w.foreign ≠ 0 → rev < w.session.revision

/-- The checkpoint, as long as it is there, has the document of before. -/
def Held (cfg : MergeConfig) (w : MergeWorld) : Prop :=
  ∀ c, w.session.checkpoints.dirs.find cfg.checkpointId = some c → c.mapspec = orSkeleton w.before

/-- Without others, all of the proposal is there or nothing; with `ok`, there were none. -/
structure AllOrNothing (cfg : MergeConfig) (w : MergeWorld) (outcome : MergeOutcome) : Prop where
  alone : w.foreign = 0 →
    (outcome.ok = true ∧ cfg.merged w.before = some w.session.getMapspec) ∨
      (outcome.ok = false ∧ w.session.getMapspec = w.before)
  others : outcome.ok = true → w.foreign = 0

def Sound (cfg : MergeConfig) (w : MergeWorld) : Prop :=
  match w.stage with
  | .start => True
  | .checkpoint current =>
    current = cfg.proposal.baseRevision ∧ Follows w current ∧
      (w.foreign = 0 → w.session.getMapspec = w.before)
  | .replay p _ left =>
    Follows w p.rev ∧ (w.foreign = 0 → w.session.revision = p.rev ∧ Held cfg w ∧
      cfg.merged w.before = applyIntents left w.session.getMapspec p.rev)
  | .rollback p _ =>
    Follows w p.rev ∧ (w.foreign = 0 → w.session.revision = p.rev ∧ Held cfg w)
  | .returned outcome => AllOrNothing cfg w outcome

/-! ### Names -/

theorem autoId_ne (now : Nat) : autoId now ≠ cfg.checkpointId := by
  intro h
  have hhead := congrArg (fun name : String => name.toList.head?) h
  simp [autoId, autoPrefix, checkpointId] at hhead

theorem idFor_checkpointId (now : Nat) : idFor (some cfg.checkpointId) now = cfg.checkpointId := by
  have hne : cfg.checkpointId ≠ "" := by
    intro h
    have hhead := congrArg (fun name : String => name.toList.head?) h
    simp [checkpointId] at hhead
  rw [idFor, if_neg hne]

theorem idFor_ne {checkpointId : Option String} (now : Nat)
    (h : checkpointId ≠ some cfg.checkpointId) : idFor checkpointId now ≠ cfg.checkpointId := by
  unfold idFor
  split
  · rename_i id
    split
    · exact autoId_ne now
    · exact fun heq => h (congrArg some heq)
  · exact autoId_ne now

/-! ### Others -/

theorem Follows.alone (h : Follows w rev) (hcurrent : w.session.revision = rev) : w.foreign = 0 := by
  by_contra hne
  have hlt := h.passed hne
  omega

theorem Sound.unmoved (hs : Sound cfg w) {s : Session} (hu : w.session.Unmoved s)
    (hdirs : ∀ c, s.checkpoints.dirs.find cfg.checkpointId = some c →
      w.session.checkpoints.dirs.find cfg.checkpointId = some c) :
    Sound cfg { w with session := s } := by
  have hfollows : ∀ rev, Follows w rev → Follows { w with session := s } rev := by
    intro rev h
    refine ⟨?_, fun hne => ?_⟩
    · rw [hu.revision]
      exact h.reached
    · rw [hu.revision]
      exact h.passed hne
  have hheld : Held cfg w → Held cfg { w with session := s } := fun h c hc => h c (hdirs c hc)
  unfold Sound at hs ⊢
  split
  · trivial
  · rename_i current hstage
    rw [hstage] at hs
    obtain ⟨hbase, hf, hmapspec⟩ := hs
    exact ⟨hbase, hfollows _ hf, fun hz => hu.mapspec.trans (hmapspec hz)⟩
  · rename_i p index left hstage
    rw [hstage] at hs
    obtain ⟨hf, hknown⟩ := hs
    refine ⟨hfollows _ hf, fun hz => ?_⟩
    obtain ⟨hrevision, hh, hmerged⟩ := hknown hz
    exact ⟨hu.revision.trans hrevision, hheld hh, hu.mapspec ▸ hmerged⟩
  · rename_i p failure hstage
    rw [hstage] at hs
    obtain ⟨hf, hknown⟩ := hs
    refine ⟨hfollows _ hf, fun hz => ?_⟩
    obtain ⟨hrevision, hh⟩ := hknown hz
    exact ⟨hu.revision.trans hrevision, hheld hh⟩
  · rename_i outcome hstage
    rw [hstage] at hs
    refine ⟨fun hz => ?_, hs.others⟩
    have halone := hs.alone hz
    rw [← hu.mapspec] at halone
    exact halone

theorem Sound.overtaken (hs : Sound cfg w) {s : Session}
    (hrevision : s.revision = w.session.revision + 1)
    (hrunning : ∀ outcome, w.stage ≠ .returned outcome) :
    Sound cfg { w with session := s, foreign := w.foreign + 1 } := by
  have hfollows : ∀ rev, Follows w rev →
      Follows { w with session := s, foreign := w.foreign + 1 } rev := by
    intro rev h
    have hreached := h.reached
    have hlt : rev < s.revision := by omega
    exact ⟨hlt.le, fun _ => hlt⟩
  have hsome : ∀ {P : Prop}, w.foreign + 1 = 0 → P := fun h => absurd h (Nat.succ_ne_zero _)
  unfold Sound at hs ⊢
  split
  · trivial
  · rename_i current hstage
    rw [hstage] at hs
    exact ⟨hs.1, hfollows _ hs.2.1, hsome⟩
  · rename_i p index left hstage
    rw [hstage] at hs
    exact ⟨hfollows _ hs.1, hsome⟩
  · rename_i p failure hstage
    rw [hstage] at hs
    exact ⟨hfollows _ hs.1, hsome⟩
  · rename_i outcome hstage
    exact absurd hstage (hrunning outcome)

theorem Sound.foreign (hs : Sound cfg w) {e : Envelope} {verdict : Verdict}
    {out : Session × Outcome} (ha : Answered e verdict w.session out)
    (hdirs : ∀ c, out.1.checkpoints.dirs.find cfg.checkpointId = some c →
      w.session.checkpoints.dirs.find cfg.checkpointId = some c)
    (hrunning : ∀ outcome, w.stage ≠ .returned outcome) :
    Sound cfg { w with
      session := out.1, foreign := w.foreign + if out.2 = .committed then 1 else 0 } := by
  cases ha with
  | refused s' hu => exact hs.unmoved hu hdirs
  | stale s' hu => exact hs.unmoved hu hdirs
  | committed s' m layers hcommits hcurrent hwritten hrevision =>
    exact hs.overtaken hrevision hrunning

/-! ### Calls of the merge -/

theorem expected_current {e : Envelope} {s : Session} {n : Nat} (he : e.expectedRevision = some (n : Int))
    (h : ∀ r, e.expectedRevision = some r → r = (s.revision : Int)) : s.revision = n := by
  have hn := h n he
  omega

variable {left : List (Option ProposedIntent)} {p : Progress}

theorem sound_proceed {s : Session} (index : Nat) (hz : w.foreign = 0)
    (hrevision : s.revision = p.rev) (hheld : Held cfg { w with session := s })
    (hmerged : cfg.merged w.before = applyIntents left s.getMapspec p.rev) :
    Sound cfg { w with session := s, stage := p.proceed index left } := by
  cases left with
  | nil => exact ⟨fun _ => .inl ⟨rfl, hmerged⟩, fun _ => hz⟩
  | cons intent rest =>
    refine ⟨⟨hrevision.ge, fun hne => absurd hz hne⟩, fun _ => ⟨hrevision, hheld, hmerged⟩⟩

theorem revisionOr_succ (n other : Nat) : revisionOr (n + 1) other = n + 1 := if_neg (Nat.succ_ne_zero n)

theorem Sound.takeCheckpoint {current : Nat} (hs : Sound cfg w) (hstage : w.stage = .checkpoint current)
    (hmay : w.mayCheckpoint cfg current) : Sound cfg (w.takeCheckpoint cfg current) := by
  unfold Sound at hs
  rw [hstage] at hs
  obtain ⟨rfl, hf, hmapspec⟩ := hs
  unfold mayCheckpoint at hmay
  rw [Bool.or_eq_true] at hmay
  rcases hmay with hmay | hmay
  · rw [Bool.and_eq_true] at hmay
    obtain ⟨hcalm, hown⟩ := hmay
    have ha := applyMutation_answered hcalm
    have hdirs := applyMutation_checkpoints hcalm
    unfold MergeWorld.takeCheckpoint apply
    generalize hout : applyMutation cfg.sha256 cfg.floats w.session
      (cfg.asCheckpoint cfg.proposal.baseRevision) = out at ha hdirs ⊢
    cases ha with
    | refused s' hu =>
      exact ⟨fun hz => .inr ⟨rfl, hu.mapspec.trans (hmapspec hz)⟩, fun hok => by cases hok⟩
    | stale s' hu =>
      exact ⟨fun hz => .inr ⟨rfl, hu.mapspec.trans (hmapspec hz)⟩, fun hok => by cases hok⟩
    | committed s' m layers hcommits hcurrent hwritten hrevision =>
      have hnow : w.session.revision = cfg.proposal.baseRevision := expected_current rfl hcurrent
      have hz : w.foreign = 0 := hf.alone hnow
      have hrev : s'.revision = cfg.proposal.baseRevision + 1 := by rw [hrevision, hnow]
      have hover := commitsOver_of_course (fun id h => by cases h) hcommits
      rw [(unmoved_revived w.session).mapspec, (unmoved_revived w.session).revision, hmapspec hz,
        hnow] at hover
      dsimp only [resultRevision]
      rw [hrev, revisionOr_succ]
      refine sound_proceed 0 hz hrev (fun c hc => ?_) ?_
      · have htake := take_of_checkpoint rfl hcommits
        rcases hdirs with ⟨-, hnone⟩ | ⟨mapspec, checkpointId, taken, htake', hok, hstore⟩
        · rw [hnone rfl] at htake
          cases htake
        · rw [htake] at htake'
          cases htake'
          rw [(unmoved_revived w.session).mapspec] at hok hstore
          rw [hstore] at hc
          rw [snapshot_own (idFor_checkpointId _) hown hok hc, hmapspec hz]
      · unfold merged
        dsimp only
        rw [hover, bind_some, hwritten]
  · rw [Bool.and_eq_true] at hmay
    obtain ⟨hpasses, hmay⟩ := hmay
    unfold MergeWorld.takeCheckpoint apply applyMutation
    rw [hpasses, if_neg (not_not.mpr rfl)]
    cases hopen : w.session.opening (cfg.asCheckpoint cfg.proposal.baseRevision).toEnvelope with
    | closed s' outcome =>
      rw [hopen] at hmay
      cases hmay
    | opened s' =>
      rw [hopen] at hmay
      obtain ⟨rfl, -⟩ := opening_current hopen
      obtain ⟨hfailed, hsame⟩ := run_undone hmay
      dsimp only
      rw [hfailed]
      refine ⟨fun hz => .inr ⟨rfl, ?_⟩, fun hok => by cases hok⟩
      exact hsame.trans ((unmoved_revived _).mapspec.trans (hmapspec hz))

theorem Sound.replayIntent {index : Nat} {intent : ProposedIntent} (hs : Sound cfg w)
    (hstage : w.stage = .replay p index (some intent :: left))
    (hcalm : (cfg.asIntent intent.call p.rev index).calm cfg.sha256 cfg.floats w.session) :
    Sound cfg (w.replayIntent cfg p index intent left) := by
  unfold Sound at hs
  rw [hstage] at hs
  obtain ⟨hf, hknown⟩ := hs
  have hdirs : ∀ c, (applyMutation cfg.sha256 cfg.floats w.session
      (cfg.asIntent intent.call p.rev index)).1.checkpoints.dirs.find cfg.checkpointId = some c →
        w.session.checkpoints.dirs.find cfg.checkpointId = some c := by
    intro c hc
    refine find_of_applyMutation hcalm (fun mapspec checkpointId htake => ?_) hc
    rw [take_of_edit intent.edits htake]
    exact autoId_ne _
  have ha := applyMutation_answered hcalm
  unfold MergeWorld.replayIntent apply
  generalize hout : applyMutation cfg.sha256 cfg.floats w.session
    (cfg.asIntent intent.call p.rev index) = out at ha hdirs ⊢
  cases ha with
  | refused s' hu =>
    refine ⟨⟨hu.revision ▸ hf.reached, fun hne => hu.revision ▸ hf.passed hne⟩, fun hz => ?_⟩
    obtain ⟨hrevision, hheld, -⟩ := hknown hz
    exact ⟨hu.revision.trans hrevision, fun c hc => hheld c (hdirs c hc)⟩
  | stale s' hu r hr hne =>
    refine ⟨fun hz => ?_, fun hok => by cases hok⟩
    obtain ⟨hrevision, -, -⟩ := hknown hz
    cases hr
    exact absurd (congrArg Int.ofNat hrevision.symm) hne
  | committed s' m layers hcommits hcurrent hwritten hrevision =>
    have hnow : w.session.revision = p.rev := expected_current rfl hcurrent
    have hz : w.foreign = 0 := hf.alone hnow
    obtain ⟨-, hheld, hmerged⟩ := hknown hz
    have hrev : s'.revision = p.rev + 1 := by rw [hrevision, hnow]
    have hedits : ∀ id, (cfg.asIntent intent.call p.rev index).request ≠ .rollback id := by
      intro id h
      rcases intent.edits with hedit | hedit
      · exact absurd (hedit.symm.trans h) (by simp)
      · exact absurd (hedit.symm.trans h) (by simp)
    have hover := commitsOver_of_course hedits hcommits
    rw [(unmoved_revived w.session).mapspec, (unmoved_revived w.session).revision, hnow] at hover
    have hlanded : applyIntents (some intent :: left) w.session.getMapspec p.rev =
        applyIntents left (shown m) (p.rev + 1) := by
      have hsame : intent.call.commitsOver w.session.getMapspec p.rev = some m := hover
      rw [applyIntents, hsame, bind_some]
    dsimp only [Progress.answer, resultRevision]
    rw [hrev, revisionOr_succ]
    refine sound_proceed (index + 1) hz hrev (fun c hc => hheld c (hdirs c hc)) ?_
    rw [hmerged, hlanded, hwritten]
    rfl

theorem calm_of_mayRollBack (hmay : w.mayRollBack cfg p) :
    (cfg.asRollback p.rev).calm cfg.sha256 cfg.floats w.session := by
  unfold mayRollBack at hmay
  rw [Bool.and_eq_true] at hmay
  obtain ⟨hpasses, hmay⟩ := hmay
  unfold calm
  rw [hpasses, Bool.not_true, Bool.false_or]
  split at hmay
  · rename_i s outcome hopen
    rw [hopen, of_decide_eq_true hmay]
    rfl
  · rename_i s hopen
    rw [hopen]
    simp only [Bool.and_eq_true, Bool.not_eq_true'] at hmay
    obtain ⟨⟨-, hfails⟩, hcommits⟩ := hmay
    have hraises : (cfg.asRollback p.rev).raises cfg.sha256 cfg.floats s = false := by
      rw [raises, take_of_rollback rfl]
    dsimp only [Opening.calm]
    rw [hraises, Bool.not_false, Bool.true_and]
    split at hcommits
    · rename_i mapspec layers restored hv hrestored
      rw [hv, Verdict.calm, hfails, Bool.not_false]
    · cases hcommits

theorem Sound.rollBack {failure : String} (hs : Sound cfg w)
    (hstage : w.stage = .rollback p failure) (hmay : w.mayRollBack cfg p) :
    Sound cfg (w.rollBack cfg p failure) := by
  unfold Sound at hs
  rw [hstage] at hs
  obtain ⟨hf, hknown⟩ := hs
  have ha := applyMutation_answered (calm_of_mayRollBack hmay)
  -- Without others the call is not stale, and its rollback has been found.
  have hback : w.foreign = 0 → (cfg.apply w.session (cfg.asRollback p.rev)).2 = .committed ∧
      ∀ m layers, ((cfg.asRollback p.rev).course w.session.revived).verdict = .commits m layers →
        shown m = w.before := by
    intro hz
    obtain ⟨hrevision, hheld⟩ := hknown hz
    unfold mayRollBack at hmay
    rw [Bool.and_eq_true] at hmay
    obtain ⟨hpasses, hmay⟩ := hmay
    split at hmay
    · rename_i s outcome hopen
      rw [of_decide_eq_true hmay] at hopen
      obtain ⟨-, r, hr, hne⟩ := opening_stale hopen
      cases hr
      exact absurd (congrArg Int.ofNat hrevision.symm) hne
    · rename_i s hopen
      obtain ⟨rfl, -⟩ := opening_current hopen
      simp only [Bool.and_eq_true, Bool.not_eq_true'] at hmay
      obtain ⟨⟨hbefore, hfails⟩, hcommits⟩ := hmay
      split at hcommits
      · rename_i mapspec layers restored hv hrestored
        obtain rfl := of_decide_eq_true hcommits
        constructor
        · unfold apply applyMutation run
          rw [hpasses, if_neg (not_not.mpr rfl), hopen]
          dsimp only
          rw [take_of_rollback rfl]
          dsimp only [conclude]
          rw [hv]
          dsimp only
          rw [saveMapspec_snd, hfails, Bool.not_false, if_pos rfl]
        · intro m layers' hv'
          rw [hv] at hv'
          cases hv'
          obtain ⟨c, hc, rfl⟩ := rollback_eq_some hrestored
          rw [revived_checkpoints] at hc
          rw [hheld c hc]
          obtain ⟨v, hv, htrue⟩ := (Option.any_eq_true _ _).mp hbefore
          rw [hv, orSkeleton, filter_some_pos htrue, getD_some]
          cases v with
          | null => cases htrue
          | _ => rfl
      · cases hcommits
  unfold MergeWorld.rollBack
  unfold apply at hback ⊢
  generalize hout : applyMutation cfg.sha256 cfg.floats w.session (cfg.asRollback p.rev) = out
    at ha hback ⊢
  cases ha with
  | refused s' hu =>
    refine ⟨fun hz => ?_, fun hok => by cases hok⟩
    cases (hback hz).1
  | stale s' hu =>
    refine ⟨fun hz => ?_, fun hok => by cases hok⟩
    cases (hback hz).1
  | committed s' m layers hcommits hcurrent hwritten hrevision =>
    refine ⟨fun hz => .inr ⟨rfl, ?_⟩, fun hok => by cases hok⟩
    exact hwritten.trans ((hback hz).2 m layers hcommits)

/-! ### Every run -/

variable {move : MergeMove}

theorem Sound.step (hs : Sound cfg w) (hcareful : w.careful cfg move)
    (h : step cfg w move = some w') : Sound cfg w' := by
  unfold MergeWorld.step at h
  split at h
  · cases h
    by_cases hbase : w.session.state.mutationRevision = cfg.proposal.baseRevision
    · rw [if_pos hbase]
      have hle := le_revision w.session
      exact ⟨hbase, ⟨hle, fun hne => absurd rfl hne⟩, fun _ => rfl⟩
    · rw [if_neg hbase]
      exact ⟨fun _ => .inr ⟨rfl, rfl⟩, fun hok => by cases hok⟩
  · rename_i current hstage
    cases h
    unfold careful at hcareful
    rw [hstage] at hcareful
    exact hs.takeCheckpoint hstage hcareful
  · rename_i p index intent left hstage
    cases h
    unfold careful at hcareful
    rw [hstage] at hcareful
    exact hs.replayIntent hstage hcareful
  · rename_i p index left hstage
    cases h
    unfold Sound at hs
    rw [hstage] at hs
    obtain ⟨hf, hknown⟩ := hs
    exact ⟨⟨hf.reached, hf.passed⟩, fun hz => ⟨(hknown hz).1, (hknown hz).2.1⟩⟩
  · rename_i p failure hstage
    cases h
    unfold careful at hcareful
    rw [hstage] at hcareful
    exact hs.rollBack hstage hcareful
  · cases h
  · rename_i call hrunning
    cases h
    have hboth : call.calm cfg.sha256 cfg.floats w.session ∧
        ((call.course w.session.revived).take.all fun t => t.2 ≠ some cfg.checkpointId) := by
      unfold careful at hcareful
      rwa [Bool.and_eq_true] at hcareful
    refine hs.foreign (applyMutation_answered hboth.1) (fun c hc => ?_) hrunning
    refine find_of_applyMutation hboth.1 (fun mapspec checkpointId htake => ?_) hc
    have hother := hboth.2
    rw [htake] at hother
    exact idFor_ne _ (of_decide_eq_true hother)
  · cases h
  · rename_i call hrunning
    cases h
    have hcalm : call.calm w.session := hcareful
    refine hs.foreign (applyPresentationBatch_answered hcalm) (fun c hc => ?_) hrunning
    rw [← applyPresentationBatch_checkpoints hcalm]
    exact hc
  · cases h

theorem sound_init (s : Session) : Sound cfg { session := s } := trivial

theorem Sound.spares (hs : Sound cfg w) (hcareful : w.careful cfg move)
    (hown : move = .read ∨ move = .call) (h : MergeWorld.step cfg w move = some w')
    (hne : w.foreign ≠ 0) : w'.session.getMapspec = w.session.getMapspec := by
  have hanswered : ∀ {call : MutationCall} {rev : Nat}, Follows w rev →
      call.expectedRevision = some (rev : Int) → call.calm cfg.sha256 cfg.floats w.session →
        (cfg.apply w.session call).1.getMapspec = w.session.getMapspec := by
    intro call rev hf hexpected hcalm
    have ha := applyMutation_answered hcalm
    unfold apply
    generalize applyMutation cfg.sha256 cfg.floats w.session call = out at ha ⊢
    cases ha with
    | refused s' hu => exact hu.mapspec
    | stale s' hu => exact hu.mapspec
    | committed s' m layers hcommits hcurrent hwritten hrevision =>
      exact absurd (hf.alone (expected_current hexpected hcurrent)) hne
  unfold MergeWorld.step at h
  unfold Sound at hs
  split at h
  · cases h
    rfl
  · rename_i current hstage
    cases h
    unfold careful at hcareful
    rw [hstage] at hcareful hs
    obtain ⟨-, hf, -⟩ := hs
    have hmay : w.mayCheckpoint cfg current := hcareful
    unfold mayCheckpoint at hmay
    rw [Bool.or_eq_true, Bool.and_eq_true, Bool.and_eq_true] at hmay
    rcases hmay with ⟨hcalm, -⟩ | ⟨-, hundone⟩
    · exact hanswered hf rfl hcalm
    split at hundone
    · cases hundone
    rename_i s hopen
    obtain ⟨-, hcurrent⟩ := opening_current hopen
    exact absurd (hf.alone (expected_current rfl hcurrent)) hne
  · rename_i p index intent left hstage
    cases h
    unfold careful at hcareful
    rw [hstage] at hcareful hs
    exact hanswered hs.1 rfl hcareful
  · cases h
    rfl
  · rename_i p failure hstage
    cases h
    unfold careful at hcareful
    rw [hstage] at hcareful hs
    exact hanswered hs.1 rfl (calm_of_mayRollBack hcareful)
  · cases h
  · rcases hown with hown | hown <;> cases hown
  · cases h
  · rcases hown with hown | hown <;> cases hown
  · cases h

/-- A merge that has returned is all or nothing, and none undoes what others have committed. -/
structure MergeSafe (cfg : MergeConfig) (allowed : MergeWorld → MergeMove → Bool) (w : MergeWorld) :
    Prop where
  whole : ∀ outcome, w.stage = .returned outcome → AllOrNothing cfg w outcome
  spares : ∀ move w', move = .read ∨ move = .call → allowed w move = true →
    step cfg w move = some w' → w.foreign ≠ 0 → w'.session.getMapspec = w.session.getMapspec

/-- Where no call fails after it has begun to write, none is a no-op or known from before, and the
    rollback finds the checkpoint of a document, a merge is all or nothing among other writers. -/
theorem merge_safe (cfg : MergeConfig) (s : Session)
    (hrun : Relation.ReflTransGen (Step (step cfg) (careful cfg)) { session := s } w) :
    MergeSafe cfg (careful cfg) w := by
  have hs : Sound cfg w := run_induction (fun hs hcareful hstep => Sound.step hs hcareful hstep)
    (sound_init s) hrun
  refine ⟨fun outcome hstage => ?_, fun move w' hown hcareful hstep hne =>
    hs.spares hcareful hown hstep hne⟩
  unfold Sound at hs
  rwa [hstage] at hs

/-! ### A failure that is taken for another writer -/

/-- An intent that gives the map a title. -/
def retitle (title : String) (fates : Fates) : ProposedIntent where
  call := { request := .edit, handle := fun _ => .ok { mapspec := titled title }, data := noRefs
            fates := fates }
  edits := .inr rfl

/-- A proposal at revision 5 with these two titles. -/
def twoTitles (fates : Fates) : MergeConfig where
  sha256 := someDigests
  floats := default
  proposal :=
    { proposalId := "p", baseRevision := 5
      mutationIntents := [some (retitle "two" {}), some (retitle "three" fates)] }
  checkpointCall := { request := .edit, handle := fun _ => .error .refused, data := noRefs }
  rollbackCall := { request := .edit, handle := fun _ => .error .refused, data := noRefs }

/-- The `ok` of a merge that has returned. -/
def returnedOk (w : MergeWorld) : Option Bool :=
  match w.stage with
  | .returned outcome => some outcome.ok
  | _ => none

/-- The second save is refused, and undone: the rollback is stale, and the first title stays. -/
theorem half_merged : ¬ ∀ w,
    Relation.ReflTransGen
      (Step (step (twoTitles { save := { commit := .rejected } })) fun _ _ => true)
      { session := savedAt 5 } w →
        MergeSafe (twoTitles { save := { commit := .rejected } }) (fun _ _ => true) w := by
  intro hall
  have hleft : (play (step (twoTitles { save := { commit := .rejected } })) (fun _ _ => true)
      { session := savedAt 5 } [.read, .call, .call, .call, .call]).map (fun w =>
        (w.foreign, returnedOk w, decide (w.session.getMapspec = w.before))) =
          some (0, some false, false) := by
    decide +kernel
  obtain ⟨w, hw, hfacts⟩ := map_eq_some_iff.mp hleft
  simp only [Prod.mk.injEq, decide_eq_false_iff_not] at hfacts
  obtain ⟨hforeign, hreturned, hspec⟩ := hfacts
  unfold returnedOk at hreturned
  split at hreturned
  · rename_i outcome hstage
    rcases ((hall w (run_of_play hw)).whole outcome hstage).alone hforeign with ⟨hok, -⟩ | ⟨-, hsame⟩
    · rw [hok] at hreturned
      cases hreturned
    · exact hspec hsame
  · cases hreturned

theorem both_merged : ∃ w, play (step (twoTitles {})) (careful (twoTitles {}))
    { session := savedAt 5 } [.read, .call, .call, .call] = some w ∧
      MergeSafe (twoTitles {}) (careful (twoTitles {})) w := by
  have hplays : (play (step (twoTitles {})) (careful (twoTitles {})) { session := savedAt 5 }
      [.read, .call, .call, .call]).isSome = true := by decide +kernel
  obtain ⟨w, hw⟩ := isSome_iff_exists.mp hplays
  exact ⟨w, hw, merge_safe (twoTitles {}) (savedAt 5) (run_of_play hw)⟩

end MergeWorld

end WebGis.Mapspec
