/-
  Revisions and mutation ids over a run of calls on one session.

  A history keeps, beside the session, the ids of the committed calls, the latest first; they are
  forgotten when the map state expires, as the index that the engine keeps is lost with it. `Lawful`
  is what one call may do. `run_lawful` is that every call of a run is lawful, in every run in which
  a failure puts back a specification or finds the revision at zero, a commit that is reported as
  failed although it took place is stripped from an index that has room for it, and the map state
  expires only when the disk has its revision.
-/
import WebGis.Mapspec.Fidelity
import WebGis.Mapspec.Transaction

namespace WebGis.Mapspec

open Data Data.Json List Option Dict Session Envelope

/-! ## What a call may do -/

/-- The same specification, revision, layers and index, on the same disk. -/
structure Session.Same (s s' : Session) : Prop where
  mapspec : s'.getMapspec = s.getMapspec
  revision : s'.revision = s.revision
  layers : s'.state.layers = s.state.layers
  dedup : s'.state.mutationDedup = s.state.mutationDedup
  disk : s'.disk = s.disk
  checkpoints : s'.checkpoints = s.checkpoints

/-- A session and the ids that were committed on it. -/
structure History where
  session : Session
  committed : List String := []

/-- The ids that count as committed. -/
def History.recent (h : History) : List String := h.committed.take mutationDedupLimit

structure Lawful (h : History) (e : Envelope) (outcome : Outcome) (s' : Session) : Prop where
  monotone : h.session.revision ≤ s'.revision
  counted : outcome = .committed → s'.revision = h.session.revision + 1
  still : outcome ≠ .committed → outcome ≠ .failed → h.session.Same s'
  stale : ∀ r, e.expectedRevision = some r → r ≠ (h.session.revision : Int) → h.session.Same s'
  once : ∀ id, e.mutationId = some id → id ∈ h.recent → h.session.Same s'
  failed : outcome = .failed → ∀ id, dedupHit h.session.state.mutationDedup id = none →
    dedupHit s'.state.mutationDedup id = none

/-! ### Revival -/

section Sessions

variable {s s' : Session}

theorem revived_of_not (h : s.expired = false) : s.revived = s := by
  rw [revived, if_neg (by rw [h]; exact Bool.false_ne_true)]

theorem revived_revived (s : Session) : s.revived.revived = s.revived := by
  cases h : s.expired with
  | false => rw [revived_of_not h, revived_of_not h]
  | true =>
    apply revived_of_not
    have hdisk : s.disk.mapspec.isSome := by
      simp only [expired, Bool.and_eq_true] at h
      exact h.2
    rw [revived, if_pos h, expired]
    simp [isNone_eq_false_iff.mpr hdisk]

theorem Session.Same.refl (s : Session) : s.Same s := ⟨rfl, rfl, rfl, rfl, rfl, rfl⟩

theorem same_revived (s : Session) : s.Same s.revived := by
  refine ⟨?_, ?_, ?_, ?_, ?_, ?_⟩
  · rw [getMapspec, revived_revived, getMapspec]
  · rw [revision, revived_revived, revision]
  all_goals
    unfold revived
    split <;> rfl

theorem Session.Same.revision_le (h : s.Same s') : s.revision ≤ s'.revision :=
  h.revision.symm.le

theorem le_revision (s : Session) : s.state.mutationRevision ≤ s.revision := by
  unfold revision revived
  split
  · dsimp only
    split <;> omega
  · exact le_rfl

theorem revision_revived (h : s.revived = s) : s.state.mutationRevision = s.revision := by
  rw [revision, h]

theorem revision_of_mapspec {m : Json} (h : s.state.mapspec = some m) :
    s.revision = s.state.mutationRevision := by
  have hnot : s.expired = false := by simp [expired, h]
  rw [revision, revived_of_not hnot]

end Sessions

/-! ### The index -/

section Index

variable {index : MutationDedupIndex} {id : String}

variable {mutationId : Option String}

theorem dedupHit_eq_none :
    dedupHit index mutationId = none ↔
      ∀ id ∈ givenId mutationId, ∀ entry, index.find id = some entry → entry.committed = false := by
  rw [dedupHit, bind_eq_none_iff]
  refine forall₂_congr fun id _ => ?_
  rw [filter_eq_none_iff]
  simp

theorem dedupHit_delete (h : dedupHit index mutationId = none) :
    dedupHit (index.delete (·.1 = id)) mutationId = none := by
  rw [dedupHit_eq_none] at h ⊢
  intro k hk entry hentry
  rw [Dict.find_delete] at hentry
  exact h k hk entry (filter_eq_some_iff.mp hentry).1

theorem keys_delete (index : MutationDedupIndex) (p : String → Bool) :
    Dict.keys (index.delete fun e => p e.1) = index.keys.filter fun k => !p k := by
  show (index.rows.filter _).map Prod.fst = (index.rows.map Prod.fst).filter _
  rw [List.filter_map]
  rfl

theorem keys_set_delete (index : MutationDedupIndex) (id : String) (entry : MutationDedupEntry) :
    (Dict.set (index.delete (·.1 = id)) id entry).keys =
      (index.keys.filter fun k => !decide (k = id)) ++ [id] := by
  have hnot : id ∉ Dict.keys (index.delete (·.1 = id)) := by
    rw [keys_delete index fun k => decide (k = id)]
    simp
  rw [Dict.keys, items_set_of_not_mem _ hnot, map_append]
  exact congrArg (· ++ [id]) (keys_delete index fun k => decide (k = id))

theorem keys_recordCommit (index : MutationDedupIndex) (id : String) (entry : MutationDedupEntry) :
    (recordCommit index id entry).keys =
      ((index.keys.filter fun k => !decide (k = id)) ++ [id]).drop
        ((index.keys.filter fun k => !decide (k = id)).length + 1 - mutationDedupLimit) := by
  have hkeys := keys_set_delete index id entry
  show (List.drop _ (Dict.set (index.delete (·.1 = id)) id entry).rows).map Prod.fst = _
  rw [map_drop]
  show List.drop _ (Dict.set (index.delete (·.1 = id)) id entry).keys = _
  rw [hkeys, length_append, length_singleton]

theorem recordCommit_delete {entry : MutationDedupEntry}
    (h : (Dict.keys (index.delete (·.1 = id))).length < mutationDedupLimit) :
    (recordCommit index id entry).delete (·.1 = id) = index.delete (·.1 = id) := by
  have hnot : id ∉ Dict.keys (index.delete (·.1 = id)) := by
    rw [keys_delete index fun k => decide (k = id)]
    simp
  have hrows : (Dict.set (index.delete (·.1 = id)) id entry).rows =
      (index.delete (·.1 = id)).rows ++ [(id, entry)] := items_set_of_not_mem entry hnot
  have hlength : (Dict.set (index.delete (·.1 = id)) id entry).keys.length ≤ mutationDedupLimit := by
    rw [Dict.keys, Dict.items, hrows, map_append, length_append]
    exact h
  apply Table.eq_of_rows
  show (List.drop _ (Dict.set (index.delete (·.1 = id)) id entry).rows).filter _ = _
  rw [Nat.sub_eq_zero_of_le hlength, drop_zero, hrows, filter_append]
  show List.filter _ (List.filter _ index.rows) ++ _ = List.filter _ index.rows
  simp [List.filter_filter]

end Index

/-! ## Runs -/

section Runs

variable (sha256 : String → String) (R : FloatRepr)

inductive Event where
  | mutation (call : MutationCall)
  | batch (call : BatchCall)
  | expire

/-- The ids after a call with this outcome. -/
def Envelope.commit (e : Envelope) (outcome : Outcome) (committed : List String) : List String :=
  if outcome = .committed then (givenId e.mutationId).toList ++ committed else committed

/-- The history after an event. -/
def History.step (h : History) : Event → History
  | .mutation call =>
    let out := applyMutation sha256 R h.session call
    { session := out.1, committed := call.commit out.2 h.committed }
  | .batch call =>
    let out := applyPresentationBatch h.session call
    { session := out.1, committed := call.commit out.2 h.committed }
  | .expire => { session := h.session.expire }

/-- The event obeys the law. -/
def History.Obeys (h : History) : Event → Prop
  | .mutation call =>
    let out := applyMutation sha256 R h.session call
    Lawful h call.toEnvelope out.2 out.1
  | .batch call =>
    let out := applyPresentationBatch h.session call
    Lawful h call.toEnvelope out.2 out.1
  | .expire => h.session.revision ≤ h.session.expire.revision

def SaveFate.fails (f : SaveFate) : Bool := f.disk ≠ .complete ∨ f.commit ≠ .accepted

/-- The save takes place and is reported as failed. -/
def SaveFate.lost (f : SaveFate) : Bool := f.disk = .complete ∧ f.commit = .lost

/-- A failure has a specification to put back, or finds the revision at zero. -/
def Course.Recovers (course : Course) (s : Session) : Prop :=
  course.restores = none → s.revision = 0

/-- The entry of the call is stripped, and had room in the index. -/
def Envelope.Strips (e : Envelope) (s : Session) : Prop :=
  ∀ id ∈ givenId e.mutationId, e.fates.strip ∧
    (Dict.keys (s.state.mutationDedup.delete (·.1 = id))).length < mutationDedupLimit

/-- What the law asks of a call once its checkpoint is taken. -/
def Envelope.Covered (e : Envelope) (course : Course) (s : Session) : Prop :=
  match course.verdict with
  | .ends .raised => course.Recovers s
  | .ends _ => True
  | .commits _ _ =>
    (e.fates.save.fails → course.Recovers s) ∧ (e.fates.save.lost → e.Strips s)

/-- The snapshot of the call raises. -/
def MutationCall.raises (call : MutationCall) (s : Session) : Bool :=
  match (call.course s).take with
  | none => false
  | some (mapspec, id) =>
    !(snapshot sha256 R call.data call.now s.checkpoints mapspec id).result.toBool

/-- The condition on an event where it happens. -/
def History.Covered (h : History) : Event → Prop
  | .mutation call =>
    let s := h.session.revived
    if call.raises sha256 R s then (call.course s).Recovers s
    else call.toEnvelope.Covered (call.course s) s
  | .batch call =>
    let s := h.session.revived
    call.toEnvelope.Covered (call.course s) s
  | .expire => h.session.revision ≤ if h.session.disk.mapspec.isSome then h.session.disk.rev.getD 0 else 0

end Runs

/-! ## What one call does -/

section Calls

variable {s before : Session} {e : Envelope}

theorem saveMapspec_snd (s : Session) (mapspec : Json) (revision : Nat)
    (layers : Option LayerWrite) (dedup : Option MutationDedupIndex) (fate : SaveFate) :
    (s.saveMapspec mapspec revision layers dedup fate).2 = !fate.fails := by
  unfold saveMapspec SaveFate.fails
  by_cases hd : fate.disk = .complete
  · cases fate.commit <;> simp [hd]
  · simp [hd]

theorem saveMapspec_state (s : Session) (mapspec : Json) (revision : Nat)
    (layers : Option LayerWrite) (dedup : Option MutationDedupIndex) (fate : SaveFate) :
    (s.saveMapspec mapspec revision layers dedup fate).1.state =
      if fate.fails && !fate.lost then s.state
      else (s.commitMapspecState mapspec revision layers dedup).state := by
  unfold saveMapspec SaveFate.fails SaveFate.lost
  by_cases hd : fate.disk = .complete
  · cases fate.commit <;> simp [hd, commitMapspecState]
  · simp [hd]

variable {revision : Nat}

theorem rollbackToSnapshot_le {old : Option Json} {oldLayers : List Json} (save : SaveFate)
    (discard : DiscardFate) (h : old = none → revision = 0)
    (hle : revision ≤ s.state.mutationRevision) :
    revision ≤
      (s.rollbackToSnapshot old oldLayers (revision + 1) save discard).state.mutationRevision := by
  cases old with
  | none =>
    rw [h rfl]
    exact Nat.zero_le _
  | some m =>
    show revision ≤ (s.saveMapspec m (revision + 1) _ none save).1.state.mutationRevision
    rw [saveMapspec_state]
    split
    · exact hle
    · exact Nat.le_succ revision

theorem rollbackToSnapshot_dedup (s : Session) (old : Option Json) (oldLayers : List Json)
    (revision : Nat) (save : SaveFate) (discard : DiscardFate) :
    (s.rollbackToSnapshot old oldLayers revision save discard).state.mutationDedup =
      s.state.mutationDedup := by
  cases old with
  | none =>
    show (s.discardMapspec discard).state.mutationDedup = _
    unfold discardMapspec
    split <;> rfl
  | some m =>
    show (s.saveMapspec m revision _ none save).1.state.mutationDedup = _
    rw [saveMapspec_state]
    split <;> rfl

theorem dedupStrip_revision (s : Session) (mutationId : Option String) (written : Bool) :
    (s.dedupStrip mutationId written).state.mutationRevision = s.state.mutationRevision := by
  unfold dedupStrip
  split
  · split <;> rfl
  · rfl

/-- The index without the id of the call. -/
def Envelope.stripped (e : Envelope) (index : MutationDedupIndex) : MutationDedupIndex :=
  match givenId e.mutationId with
  | some id => index.delete (·.1 = id)
  | none => index

theorem dedupStrip_dedup (s : Session) (e : Envelope) (written : Bool) :
    (s.dedupStrip e.mutationId written).state.mutationDedup =
      if written then e.stripped s.state.mutationDedup else s.state.mutationDedup := by
  unfold dedupStrip stripped
  cases givenId e.mutationId <;> cases written <;> rfl

theorem abort_state (e : Envelope) (before s : Session) (restores : Option Json)
    (checkpointId : Option String) :
    (e.abort before s restores checkpointId).state =
      ((s.rollbackToSnapshot restores before.state.layers (before.revision + 1) e.fates.rollback
        e.fates.discard).dedupStrip e.mutationId e.fates.strip).state := by
  cases checkpointId <;> rfl

/-- A call that fails after its beginning: the revision stays up, and the index has lost the id of
    the call at most. -/
structure Undone (e : Envelope) (before s : Session) : Prop where
  revision : before.revision ≤ s.state.mutationRevision
  dedup : s.state.mutationDedup = before.state.mutationDedup ∨
    s.state.mutationDedup = e.stripped before.state.mutationDedup

variable {course : Course}

theorem abort_undone {checkpointId : Option String} (hr : course.Recovers before)
    (hle : before.revision ≤ s.state.mutationRevision)
    (hd : s.state.mutationDedup = before.state.mutationDedup ∨ e.fates.strip ∧
        e.stripped s.state.mutationDedup = e.stripped before.state.mutationDedup) :
    Undone e before (e.abort before s course.restores checkpointId) := by
  constructor
  · rw [abort_state, dedupStrip_revision]
    exact rollbackToSnapshot_le _ _ hr hle
  · rw [abort_state, dedupStrip_dedup, rollbackToSnapshot_dedup]
    rcases hd with hd | ⟨hstrip, hd⟩
    · rw [hd]
      split
      · exact .inr rfl
      · exact .inl rfl
    · rw [if_pos hstrip]
      exact .inr hd

theorem stripped_commit {origin : Origin} (hs : e.Strips before) :
    e.stripped ((dedupCommitFields before.state.mutationDedup e.mutationId revision origin).getD
      before.state.mutationDedup) = e.stripped before.state.mutationDedup := by
  unfold dedupCommitFields stripped
  cases hid : givenId e.mutationId with
  | none => rfl
  | some id => exact recordCommit_delete (hs id hid).2

/-- How a call ends that gets past its beginning on the session `s`. -/
inductive Ended (e : Envelope) (s : Session) : Session × Outcome → Prop
  | committed (s' : Session) (revision : s'.revision = s.revision + 1)
      (dedup : s'.state.mutationDedup =
        (dedupCommitFields s.state.mutationDedup e.mutationId (s.revision + 1) e.origin).getD
          s.state.mutationDedup) : Ended e s (s', .committed)
  | left (outcome : Outcome) (hc : outcome ≠ .committed) (hf : outcome ≠ .failed) :
      Ended e s (s, outcome)
  | failed (s' : Session) (undone : Undone e s s') : Ended e s (s', .failed)

theorem Undone.refl (e : Envelope) (h : s.revived = s) : Undone e s s :=
  ⟨(revision_revived h).ge, .inl rfl⟩

theorem conclude_ended (checkpointId : Option String) (hs : s.revived = s)
    (hc : e.Covered course s) : Ended e s (e.conclude course s checkpointId) := by
  unfold conclude
  unfold Envelope.Covered at hc
  cases hv : course.verdict with
  | ends ending =>
    rw [hv] at hc
    cases ending with
    | refused => exact .failed s (Undone.refl e hs)
    | superseded => exact .left _ (by simp) (by simp)
    | unchanged => exact .left _ (by simp) (by simp)
    | raised => exact .failed _ (abort_undone hc (revision_revived hs).ge (.inl rfl))
  | commits mapspec layers =>
    rw [hv] at hc
    obtain ⟨hrecovers, hstrips⟩ := hc
    have hstate := saveMapspec_state s mapspec (s.revision + 1) layers
      (dedupCommitFields s.state.mutationDedup e.mutationId (s.revision + 1) e.origin) e.fates.save
    dsimp only
    rw [saveMapspec_snd]
    by_cases hf : e.fates.save.fails
    · rw [hf] at hstate ⊢
      refine .failed _ (abort_undone (hrecovers hf) ?_ ?_)
      · rw [hstate]
        split
        · exact (revision_revived hs).ge
        · exact Nat.le_succ _
      · rw [hstate]
        by_cases hl : e.fates.save.lost
        · rw [hl]
          cases hid : givenId e.mutationId with
          | none =>
            left
            simp [dedupCommitFields, hid, commitMapspecState]
          | some id =>
            exact .inr ⟨((hstrips hl) id hid).1, stripped_commit (hstrips hl)⟩
        · rw [Bool.eq_false_iff.mpr hl]
          exact .inl rfl
    · rw [Bool.eq_false_iff.mpr hf] at hstate ⊢
      refine .committed _ ?_ ?_
      · rw [revision_of_mapspec (by rw [hstate]; rfl), hstate]
        rfl
      · rw [hstate]
        rfl

theorem revision_checkpoints (s : Session) (c : CheckpointStore) :
    Session.revision { s with checkpoints := c } = s.revision := by
  unfold Session.revision Session.revived Session.expired
  split <;> rfl

theorem revived_with_checkpoints (hs : s.revived = s) (c : CheckpointStore) :
    revived { s with checkpoints := c } = { s with checkpoints := c } := by
  unfold revived expired at hs ⊢
  split
  · rename_i h
    rw [if_pos h] at hs
    exact congrArg (fun t : Session => { t with checkpoints := c }) hs
  · rfl

/-- A verdict that leaves the session as it is while the call counts as handled. -/
def Verdict.leavesBe (verdict : Verdict) : Bool :=
  match verdict with
  | .ends .superseded | .ends .unchanged => true
  | _ => false

theorem Objection.not_leavesBe (objection : Objection) :
    (Verdict.ends objection.ending).leavesBe = false := by
  cases objection <;> rfl

variable {call : MutationCall}

theorem MutationCall.course_take (hc : call.course s = course) (h : course.take ≠ none) :
    course.verdict.leavesBe = false := by
  unfold MutationCall.course at hc
  dsimp only at hc
  split at hc
  · subst hc
    exact absurd rfl h
  · split at hc
    · subst hc
      split
      · exact Objection.not_leavesBe _
      · rfl
    · split at hc
      · subst hc
        exact absurd rfl h
      · split at hc
        · subst hc
          exact absurd rfl h
        · split at hc <;> subst hc <;> exact absurd rfl h
    all_goals
      split at hc
      · subst hc
        exact absurd rfl h
      · split at hc
        · subst hc
          exact absurd rfl h
        · subst hc
          rfl

variable {c : CheckpointStore}

/-- Another store of checkpoints changes nothing about how a call ends, unless it leaves the
    session as it is. -/
theorem Ended.of_checkpoints {out : Session × Outcome} (h : Ended e { s with checkpoints := c } out)
    (hne : out.2 = .committed ∨ out.2 = .failed) : Ended e s out := by
  cases h with
  | committed s' revision dedup => exact .committed s' (revision_checkpoints s c ▸ revision) (revision_checkpoints s c ▸ dedup)
  | left outcome hcm hf => simp [hcm, hf] at hne
  | failed s' undone => exact .failed s' ⟨revision_checkpoints s c ▸ undone.revision, undone.dedup⟩

theorem conclude_outcome (checkpointId : Option String) (h : course.verdict.leavesBe = false) :
    (e.conclude course s checkpointId).2 = .committed ∨
      (e.conclude course s checkpointId).2 = .failed := by
  unfold conclude
  cases hv : course.verdict with
  | ends ending =>
    rw [hv] at h
    cases ending with
    | refused | raised => exact .inr rfl
    | superseded | unchanged => cases h
  | commits mapspec layers =>
    dsimp only
    split
    · exact .inl rfl
    · exact .inr rfl

theorem recovers_checkpoints (h : course.Recovers s) :
    course.Recovers { s with checkpoints := c } :=
  fun hr => (revision_checkpoints s c).trans (h hr)

theorem covered_checkpoints (h : e.Covered course s) :
    e.Covered course { s with checkpoints := c } := by
  unfold Envelope.Covered at h ⊢
  split
  · rename_i hv
    rw [hv] at h
    exact recovers_checkpoints h
  · trivial
  · rename_i hv
    rw [hv] at h
    exact ⟨fun hf => recovers_checkpoints (h.1 hf), h.2⟩

theorem MutationCall.run_ended (sha256 : String → String) (R : FloatRepr) (hs : s.revived = s)
    (hc : if call.raises sha256 R s then (call.course s).Recovers s
      else call.toEnvelope.Covered (call.course s) s) :
    Ended call.toEnvelope s (call.run sha256 R (call.course s) s) := by
  unfold MutationCall.run
  cases htake : (call.course s).take with
  | none =>
    have hraises : ¬ call.raises sha256 R s := by simp [MutationCall.raises, htake]
    rw [if_neg hraises] at hc
    exact conclude_ended none hs hc
  | some taking =>
    obtain ⟨mapspec, checkpointId⟩ := taking
    dsimp only
    cases hout : (snapshot sha256 R call.data call.now s.checkpoints mapspec checkpointId).result with
    | error err =>
      have hraises : call.raises sha256 R s := by
        simp [MutationCall.raises, htake, hout, Except.toBool]
      rw [if_pos hraises] at hc
      have hs' := revived_with_checkpoints hs
        (snapshot sha256 R call.data call.now s.checkpoints mapspec checkpointId).store
      refine .failed _ ?_
      have hundone : Undone call.toEnvelope _ (call.abort _ _ (call.course s).restores none) :=
        abort_undone (recovers_checkpoints hc) (revision_revived hs').ge (.inl rfl)
      exact ⟨revision_checkpoints s _ ▸ hundone.revision, hundone.dedup⟩
    | ok taken =>
      have hraises : ¬ call.raises sha256 R s := by
        simp [MutationCall.raises, htake, hout, Except.toBool]
      rw [if_neg hraises] at hc
      have htaken : (call.course s).take ≠ none := by simp [htake]
      exact (conclude_ended _ (revived_with_checkpoints hs _) (covered_checkpoints hc)).of_checkpoints
        (conclude_outcome _ (course_take rfl htaken))

/-- How a call ends on the session `s`. -/
inductive Called (e : Envelope) (s : Session) (out : Session × Outcome) : Prop
  | refused (h : out = (s, .failed))
  | closed (h : out.1 = s.revived) (hc : out.2 ≠ .committed) (hf : out.2 ≠ .failed)
  | ran (hit : dedupHit s.state.mutationDedup e.mutationId = none)
      (current : ∀ r, e.expectedRevision = some r → r = (s.revision : Int))
      (ended : Ended e s.revived out)

theorem opening_cases (s : Session) (e : Envelope) :
    s.opening e = .closed s .failed ∨ s.opening e = .closed s.revived .duplicate ∨
      s.opening e = .closed s.revived .superseded ∨
      s.opening e = .opened s.revived ∧ dedupHit s.state.mutationDedup e.mutationId = none ∧
        ∀ r, e.expectedRevision = some r → r = (s.revision : Int) := by
  unfold opening
  split
  · exact .inl rfl
  split
  · exact .inr (.inl rfl)
  rename_i hhit
  split
  · exact .inl rfl
  split
  · exact .inr (.inr (.inl rfl))
  · rename_i hcurrent
    refine .inr (.inr (.inr ⟨rfl, by simpa using hhit, fun r hr => ?_⟩))
    rw [hr] at hcurrent
    simpa using hcurrent

theorem applyMutation_called (sha256 : String → String) (R : FloatRepr) {h : History}
    (hc : h.Covered sha256 R (.mutation call)) :
    Called call.toEnvelope h.session (applyMutation sha256 R h.session call) := by
  unfold applyMutation
  split
  · exact .refused rfl
  rcases opening_cases h.session call.toEnvelope with ho | ho | ho | ⟨ho, hhit, hcurrent⟩
  all_goals rw [ho]
  · exact .refused rfl
  · exact .closed rfl (by simp) (by simp)
  · exact .closed rfl (by simp) (by simp)
  · exact .ran hhit hcurrent (call.run_ended sha256 R (revived_revived _) hc)

theorem applyPresentationBatch_called (sha256 : String → String) (R : FloatRepr) {h : History}
    {call : BatchCall} (hc : h.Covered sha256 R (.batch call)) :
    Called call.toEnvelope h.session (applyPresentationBatch h.session call) := by
  unfold applyPresentationBatch
  rcases opening_cases h.session call.toEnvelope with ho | ho | ho | ⟨ho, hhit, hcurrent⟩
  all_goals rw [ho]
  · exact .refused rfl
  · exact .closed rfl (by simp) (by simp)
  · exact .closed rfl (by simp) (by simp)
  · exact .ran hhit hcurrent (conclude_ended none (revived_revived _) hc)

end Calls

/-! ## The ids that count -/

section Tracking

variable {h : History} {e : Envelope} {out : Session × Outcome}

/-- The ids that count come last in the index, the latest at its end, and their entries stand for
    commits. -/
structure History.Tracked (h : History) : Prop where
  last : ∃ older, h.session.state.mutationDedup.keys = older ++ h.recent.reverse
  hits : ∀ id ∈ h.recent, dedupHit h.session.state.mutationDedup (some id) ≠ none

theorem not_mem_recent (ht : h.Tracked) {id : String} (hid : e.mutationId = some id)
    (hhit : dedupHit h.session.state.mutationDedup e.mutationId = none) : id ∉ h.recent :=
  fun hmem => ht.hits id hmem (hid ▸ hhit)

theorem Called.lawful (ht : h.Tracked) (hc : Called e h.session out) :
    Lawful h e out.2 out.1 := by
  have hsame := same_revived h.session
  have hrevision : h.session.revived.revision = h.session.revision := hsame.revision
  cases hc with
  | refused hout =>
    subst hout
    have hrefl := Session.Same.refl h.session
    exact ⟨le_rfl, nofun, fun _ hf => absurd rfl hf, fun _ _ _ => hrefl, fun _ _ _ => hrefl,
      fun _ _ hn => hn⟩
  | closed hout hc hf =>
    have hsame' : h.session.Same out.1 := hout ▸ hsame
    exact ⟨hsame'.revision_le, fun h => absurd h hc, fun _ _ => hsame', fun _ _ _ => hsame',
      fun _ _ _ => hsame', fun h => absurd h hf⟩
  | ran hhit hcurrent hended =>
    have hstale : ∀ {P : Prop} (r : Int), e.expectedRevision = some r →
        r ≠ (h.session.revision : Int) → P := fun r hr hne => absurd (hcurrent r hr) hne
    have honce : ∀ {P : Prop} (id : String), e.mutationId = some id → id ∈ h.recent → P :=
      fun id hid hmem => absurd hmem (not_mem_recent ht hid hhit)
    cases hended with
    | committed s' revision dedup =>
      rw [hrevision] at revision
      exact ⟨by rw [revision]; omega, fun _ => revision, fun hc => absurd rfl hc, hstale, honce,
        nofun⟩
    | left outcome hc hf =>
      exact ⟨hsame.revision_le, fun h => absurd h hc, fun _ _ => hsame, hstale, honce,
        fun h => absurd h hf⟩
    | failed s' undone =>
      refine ⟨?_, nofun, fun _ hf => absurd rfl hf, hstale, honce, fun _ id hn => ?_⟩
      · calc h.session.revision = h.session.revived.revision := hrevision.symm
          _ ≤ s'.state.mutationRevision := undone.revision
          _ ≤ s'.revision := le_revision s'
      · rw [← hsame.dedup] at hn
        rcases undone.dedup with hd | hd
        · rw [hd]
          exact hn
        · rw [hd, stripped]
          split
          · exact dedupHit_delete hn
          · exact hn

theorem dedupHit_congr {index index' : MutationDedupIndex} {id : String}
    (h : index.find id = index'.find id) :
    dedupHit index (some id) = dedupHit index' (some id) := by
  unfold dedupHit givenId
  cases hid : Option.filter (· ≠ "") (some id) with
  | none => rfl
  | some k =>
    obtain ⟨rfl, -⟩ : id = k ∧ _ := by simpa using filter_eq_some_iff.mp hid
    simp only [bind_some, h]

theorem find_drop {index : MutationDedupIndex} {n : Nat} {id : String}
    (h : id ∈ (Dict.drop index n).keys) : (Dict.drop index n).find id = index.find id := by
  obtain ⟨entry, hentry⟩ := mem_keys_iff.mp h
  rw [hentry]
  have hmem : (id, entry) ∈ index.items := mem_of_mem_drop (find_eq_some.mp hentry)
  exact (find_eq_some.mpr hmem).symm

theorem drop_append_short {xs ys : List String} {n limit : Nat} (hn : n = (xs ++ ys).length)
    (hy : ys.length ≤ limit) : (xs ++ ys).drop (n - limit) = xs.drop (n - limit) ++ ys := by
  apply drop_append_of_le_length
  rw [hn, length_append]
  omega

theorem filter_last {older recent : List String} {id : String} (h : id ∉ recent) :
    (older ++ recent.reverse).filter (fun k => !decide (k = id)) =
      older.filter (fun k => !decide (k = id)) ++ recent.reverse := by
  rw [filter_append]
  congr 1
  refine filter_eq_self.mpr fun k hk => ?_
  have hne : k ≠ id := fun he => h (he ▸ mem_reverse.mp hk)
  simp [hne]

theorem tracked_commit (ht : h.Tracked) {id : String} (hid : id ≠ "") (hnew : id ∉ h.recent)
    {entry : MutationDedupEntry} (hentry : entry.committed) {s' : Session}
    (hs' : s'.state.mutationDedup = recordCommit h.session.state.mutationDedup id entry) :
    History.Tracked { session := s', committed := id :: h.committed } := by
  obtain ⟨older, hkeys⟩ := ht.last
  have hrecent : History.recent { session := s', committed := id :: h.committed } =
      id :: h.committed.take 63 := rfl
  -- the id that stops to count is at the front of those that counted
  have hsplit : h.recent.reverse = ((h.committed.take 64).drop 63).reverse ++
      (h.committed.take 63).reverse := by
    have htake : (h.committed.take 64).take 63 = h.committed.take 63 := take_take
    rw [← reverse_append, ← htake, take_append_drop]
    rfl
  have hlast : ∃ older', (recordCommit h.session.state.mutationDedup id entry).keys =
      older' ++ (id :: h.committed.take 63).reverse := by
    rw [keys_recordCommit, hkeys, filter_last hnew, hsplit, reverse_cons, ← append_assoc,
      append_assoc _ _ [id]]
    refine ⟨_, drop_append_short ?_ ?_⟩
    · simp only [length_append, length_singleton]
      omega
    · rw [length_append, length_reverse, length_take, length_singleton, mutationDedupLimit]
      omega
  refine ⟨hs' ▸ hrecent ▸ hlast, fun k hk => ?_⟩
  rw [hrecent] at hk
  obtain ⟨older', hlast⟩ := hlast
  have hmem : k ∈ (recordCommit h.session.state.mutationDedup id entry).keys := by
    rw [hlast]
    exact mem_append_right _ (mem_reverse.mpr hk)
  have hfind := find_drop hmem
  rw [hs']
  rcases mem_cons.mp hk with rfl | hold
  · have hkept : (recordCommit h.session.state.mutationDedup k entry).find k = some entry :=
      hfind.trans (find_set_self _ _ _)
    simp [dedupHit, givenId, Option.filter, hid, hkept, hentry]
  · have hcount : k ∈ h.recent := take_subset_take_left h.committed (by decide : 63 ≤ 64) hold
    have hne : id ≠ k := fun he => hnew (he ▸ hcount)
    have hkept : (recordCommit h.session.state.mutationDedup id entry).find k =
        h.session.state.mutationDedup.find k := by
      refine hfind.trans ((find_set_ne _ _ hne).trans ?_)
      rw [Dict.find_delete]
      cases Dict.find h.session.state.mutationDedup k <;> simp [Option.filter, Ne.symm hne]
    rw [dedupHit_congr hkept]
    exact ht.hits k hcount

theorem tracked_stripped (ht : h.Tracked) {s' : Session}
    (hhit : dedupHit h.session.state.mutationDedup e.mutationId = none)
    (hs' : s'.state.mutationDedup = e.stripped h.session.state.mutationDedup) :
    History.Tracked { session := s', committed := h.committed } := by
  unfold stripped at hs'
  cases hgiven : givenId e.mutationId with
  | none =>
    rw [hgiven] at hs'
    exact ⟨hs' ▸ ht.last, hs' ▸ ht.hits⟩
  | some id =>
    rw [hgiven] at hs'
    have hid : e.mutationId = some id := (filter_eq_some_iff.mp hgiven).1
    have hnew := not_mem_recent ht hid hhit
    obtain ⟨older, hkeys⟩ := ht.last
    refine ⟨⟨older.filter fun k => !decide (k = id), ?_⟩, fun k hk => ?_⟩
    · rw [hs', keys_delete _ fun k => decide (k = id), hkeys]
      exact filter_last hnew
    · have hne : k ≠ id := fun he => hnew (he ▸ hk)
      have hkept : Dict.find (h.session.state.mutationDedup.delete (·.1 = id)) k =
          h.session.state.mutationDedup.find k := by
        rw [Dict.find_delete]
        cases Dict.find h.session.state.mutationDedup k <;> simp [Option.filter, hne]
      rw [hs', dedupHit_congr hkept]
      exact ht.hits k hk

theorem Called.tracked (ht : h.Tracked) (hc : Called e h.session out) :
    History.Tracked { session := out.1, committed := e.commit out.2 h.committed } := by
  have hsame : h.session.revived.state.mutationDedup = h.session.state.mutationDedup :=
    (same_revived h.session).dedup
  have hstill : ∀ outcome : Outcome, outcome ≠ .committed → e.commit outcome h.committed =
      h.committed := fun outcome hne => if_neg hne
  have hkept : ∀ s' : Session, s'.state.mutationDedup = h.session.state.mutationDedup →
      History.Tracked { session := s', committed := h.committed } :=
    fun s' hs' => ⟨hs' ▸ ht.last, hs' ▸ ht.hits⟩
  cases hc with
  | refused hout =>
    subst hout
    exact ht
  | closed hout hc hf =>
    rw [hstill _ hc, hout]
    exact hkept _ hsame
  | ran hhit hcurrent hended =>
    cases hended with
    | left outcome hc hf =>
      rw [hstill _ hc]
      exact hkept _ hsame
    | failed s' undone =>
      rw [hstill .failed (by simp)]
      have hd := undone.dedup
      rw [hsame] at hd
      rcases hd with hd | hd
      · exact hkept _ hd
      · exact tracked_stripped ht hhit hd
    | committed s' revision dedup =>
      rw [hsame] at dedup
      unfold commit
      rw [if_pos rfl]
      cases hgiven : givenId e.mutationId with
      | none =>
        simp only [dedupCommitFields, hgiven, map_none, getD_none] at dedup
        exact hkept _ dedup
      | some id =>
        obtain ⟨hid, hne⟩ := filter_eq_some_iff.mp hgiven
        simp only [dedupCommitFields, hgiven, map_some, getD_some] at dedup
        exact tracked_commit ht (of_decide_eq_true hne) (not_mem_recent ht hid hhit) rfl dedup

end Tracking

/-! ## Every run -/

section Laws

variable (sha256 : String → String) (R : FloatRepr)

/-- Every event of a run meets its condition where it happens. -/
def History.CoveredRun : History → List Event → Prop
  | _, [] => True
  | h, event :: events =>
    h.Covered sha256 R event ∧ History.CoveredRun (h.step sha256 R event) events

/-- Every event of a run obeys the law where it happens. -/
def History.LawfulRun : History → List Event → Prop
  | _, [] => True
  | h, event :: events =>
    h.Obeys sha256 R event ∧ History.LawfulRun (h.step sha256 R event) events

variable {sha256 R}

theorem History.Tracked.step {h : History} (ht : h.Tracked) {event : Event}
    (hc : h.Covered sha256 R event) : (h.step sha256 R event).Tracked ∧ h.Obeys sha256 R event := by
  cases event with
  | mutation call =>
    have hcalled := applyMutation_called sha256 R hc
    exact ⟨hcalled.tracked ht, hcalled.lawful ht⟩
  | batch call =>
    have hcalled := applyPresentationBatch_called sha256 R hc
    exact ⟨hcalled.tracked ht, hcalled.lawful ht⟩
  | expire =>
    refine ⟨⟨⟨_, (append_nil _).symm⟩, fun _ hmem => absurd hmem not_mem_nil⟩, ?_⟩
    refine hc.trans ?_
    unfold expire revision revived expired
    cases h.session.disk.mapspec with
    | none => simp
    | some m =>
      simp only [isSome_some, isNone_none, Bool.not_false, Bool.and_self, if_true]
      split <;> omega

theorem History.Tracked.run {h : History} (ht : h.Tracked) {events : List Event}
    (hc : h.CoveredRun sha256 R events) : h.LawfulRun sha256 R events := by
  induction events generalizing h with
  | nil => trivial
  | cons event events ih =>
    obtain ⟨htracked, hobeys⟩ := ht.step hc.1
    exact ⟨hobeys, ih htracked hc.2⟩

/-- In a run of covered events, whatever session it starts from, every event obeys the law. -/
theorem run_lawful {s : Session} {events : List Event}
    (hc : History.CoveredRun sha256 R { session := s } events) :
    History.LawfulRun sha256 R { session := s } events := by
  have ht : History.Tracked { session := s } :=
    ⟨⟨_, (append_nil _).symm⟩, fun _ hmem => absurd hmem not_mem_nil⟩
  exact ht.run hc

/-! ### A failure with nothing to put back -/

def savedAt (revision : Nat) : Session where
  state := { mapspec := some (titled "one"), mutationRevision := revision }
  disk := { mapspec := some (titled "one"), rev := some revision }

/-- A call that the cache refuses. -/
def refusedCall (request : Request) : MutationCall where
  request := request
  handle := fun _ => .ok { mapspec := titled "two" }
  data := noRefs
  mutationId := some "second"
  fates := { save := { commit := .rejected } }

/-- A project that is initialised again loses its specification, and its revision with it. -/
theorem run_lawful_initProject :
    ¬ History.LawfulRun someDigests default { session := savedAt 5 }
      [.mutation (refusedCall .initProject)] :=
  fun h => absurd h.1.monotone (by decide +kernel)

/-- A call that is accepted. -/
def acceptedCall : MutationCall where
  request := .edit
  handle := fun _ => .ok { mapspec := titled "two" }
  data := noRefs
  mutationId := some "first"

theorem run_lawful_retried :
    History.LawfulRun someDigests default { session := savedAt 5 }
      [.mutation acceptedCall, .mutation acceptedCall, .mutation (refusedCall .edit), .expire] := by
  refine run_lawful ⟨?_, ?_, ?_, ?_, trivial⟩
  · exact ⟨fun hf => absurd hf (by decide), fun hl => absurd hl (by decide)⟩
  · exact ⟨fun hf => absurd hf (by decide), fun hl => absurd hl (by decide)⟩
  · exact ⟨fun _ hr => absurd (congrArg isSome hr) (by decide +kernel),
      fun hl => absurd hl (by decide)⟩
  · unfold History.Covered
    decide +kernel

end Laws

end WebGis.Mapspec
