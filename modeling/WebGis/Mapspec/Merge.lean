/-
  `merge_proposal_intents` on the state of a session, with other writers between its calls.

  The merge keeps a revision of its own, that of its last call, and every further call expects it.
  Calls hold the lock of the session, so that others come in between and not within. What the
  engine makes of the calls for the checkpoint and for the rollback comes along with the merge, as
  the handlers of its intents do.
-/
import WebGis.Mapspec.Undo
import WebGis.Mapspec.Revisions

namespace WebGis.Mapspec

open Data Data.Json

/-- The call for an intent of a proposal. -/
structure ProposedIntent where
  call : MutationCall
  /-- No body stands for a checkpoint or a rollback. -/
  edits : call.request = .initProject ∨ call.request = .edit

/-- An intent is absent where `body_to_intent` raises. -/
structure ReviewProposal where
  proposalId : String
  baseRevision : Nat
  mutationIntents : List (Option ProposedIntent)

/-- `MergeAppliedStep` -/
structure AppliedStep where
  index : Nat
  revision : Nat
  deriving DecidableEq

/-- `MergeOutcome`, with what its evidence says of the steps. -/
structure MergeOutcome where
  ok : Bool
  conflict : Bool := false
  interleaved : Bool := false
  rolledBack : Bool := false
  failure : Option String := none
  mergedRevision : Nat := 0
  applied : List AppliedStep := []
  mutationIds : List String := []

/-- The steps that a merge has behind it. -/
structure Progress where
  rev : Nat
  applied : List AppliedStep := []
  mutationIds : List String := []

inductive MergeStage where
  | start
  | checkpoint (current : Nat)
  /-- Before the first of the intents that are left. -/
  | replay (progress : Progress) (index : Nat) (left : List (Option ProposedIntent))
  | rollback (progress : Progress) (failure : String)
  | returned (outcome : MergeOutcome)

structure MergeConfig where
  sha256 : String → String
  floats : FloatRepr
  proposal : ReviewProposal
  /-- What the engine makes of the checkpoint and of the rollback. -/
  checkpointCall : MutationCall
  rollbackCall : MutationCall

structure MergeWorld where
  session : Session
  stage : MergeStage := .start
  /-- The specification at the first read. -/
  before : Option Json := none
  /-- How often others have committed since. -/
  foreign : Nat := 0

inductive MergeMove where
  /-- `read_current_revision` -/
  | read
  /-- The next call of the merge, or its end. -/
  | call
  | foreign (call : MutationCall)
  | foreignBatch (call : BatchCall)

/-- `mutation_revision` of the result of a call that leaves the session so. -/
def Session.resultRevision (s : Session) : Outcome → Nat
  | .committed | .duplicate | .superseded => s.revision
  | .unchanged | .failed => 0

/-- `int(revision or other)` -/
def revisionOr (revision other : Nat) : Nat := if revision = 0 then other else revision

namespace MergeConfig

variable (cfg : MergeConfig)

/-- `f"mr_{pid}"[:120]` -/
def checkpointId : String := String.ofList (("mr_" ++ cfg.proposal.proposalId).toList.take 120)

/-- `f"merge:{pid}:{base}:{i}"` -/
def mutationId (i : Nat) : String :=
  "merge:" ++ cfg.proposal.proposalId ++ ":" ++ toString cfg.proposal.baseRevision ++ ":" ++
    toString i

def asCheckpoint (current : Nat) : MutationCall :=
  { cfg.checkpointCall with
    request := .checkpoint (some cfg.checkpointId), origin := .system
    expectedRevision := some current }

def asIntent (call : MutationCall) (rev i : Nat) : MutationCall :=
  { call with
    origin := .system, expectedRevision := some rev, mutationId := some (cfg.mutationId i) }

def asRollback (rev : Nat) : MutationCall :=
  { cfg.rollbackCall with
    request := .rollback cfg.checkpointId, origin := .system, expectedRevision := some rev }

def apply (s : Session) (call : MutationCall) : Session × Outcome :=
  applyMutation cfg.sha256 cfg.floats s call

end MergeConfig

namespace Progress

variable (p : Progress)

/-- An intent has landed, at this revision. -/
def land (index rev : Nat) : Progress :=
  { p with rev := rev, applied := p.applied ++ [{ index := index, revision := rev }] }

def outcome (failure : Option String) : MergeOutcome where
  ok := failure.isNone
  failure := failure
  mergedRevision := p.rev
  applied := p.applied
  mutationIds := p.mutationIds

/-- The next intent, or the end. -/
def proceed (index : Nat) (left : List (Option ProposedIntent)) : MergeStage :=
  match left with
  | [] => .returned (p.outcome none)
  | intent :: rest => .replay p index (intent :: rest)

/-- What the result of an intent leads to. -/
def answer (s : Session) (index : Nat) (left : List (Option ProposedIntent)) (mutationId : String)
    (outcome : Outcome) : MergeStage :=
  let listed := { p with mutationIds := p.mutationIds ++ [mutationId] }
  match outcome with
  | .superseded =>
    .returned { p.outcome (some "superseded_mid_merge") with interleaved := true }
  | .duplicate =>
    (listed.land index (revisionOr (s.resultRevision outcome) p.rev)).proceed (index + 1) left
  | .failed => .rollback listed ("intent_failed:" ++ toString index)
  | .committed | .unchanged =>
    (listed.land index (revisionOr (s.resultRevision outcome) (p.rev + 1))).proceed (index + 1)
      left

end Progress

namespace MergeWorld

variable (cfg : MergeConfig)

/-- The call for the checkpoint. -/
def takeCheckpoint (w : MergeWorld) (current : Nat) : MergeWorld :=
  let (s, outcome) := cfg.apply w.session (cfg.asCheckpoint current)
  { w with
    session := s
    stage :=
      match outcome with
      | .superseded =>
        .returned { ok := false, conflict := true, failure := some "base_revision_drift" }
      | .failed =>
        .returned { ok := false, failure := some "checkpoint_failed", mergedRevision := current }
      | _ =>
        Progress.proceed { rev := revisionOr (s.resultRevision outcome) (current + 1) } 0
          cfg.proposal.mutationIntents }

/-- The call for an intent. -/
def replayIntent (w : MergeWorld) (p : Progress) (index : Nat) (intent : ProposedIntent)
    (left : List (Option ProposedIntent)) : MergeWorld :=
  let (s, outcome) := cfg.apply w.session (cfg.asIntent intent.call p.rev index)
  { w with session := s, stage := p.answer s index left (cfg.mutationId index) outcome }

/-- The call that puts the checkpoint back. -/
def rollBack (w : MergeWorld) (p : Progress) (failure : String) : MergeWorld :=
  let (s, outcome) := cfg.apply w.session (cfg.asRollback p.rev)
  { w with
    session := s
    stage :=
      match outcome with
      | .superseded =>
        .returned
          { p.outcome (some (failure ++ "+interleaved_before_rollback")) with interleaved := true }
      | .failed => .returned (p.outcome (some (failure ++ "+rollback_failed")))
      | _ => .returned { p.outcome (some failure) with rolledBack := true } }

def step (w : MergeWorld) (move : MergeMove) : Option MergeWorld :=
  match move, w.stage with
  | .read, .start =>
    let current := w.session.state.mutationRevision
    some { w with
      before := w.session.getMapspec
      foreign := 0
      stage :=
        if current = cfg.proposal.baseRevision then .checkpoint current
        else
          .returned { ok := false, conflict := true, failure := some "base_revision_drift"
                      mergedRevision := current } }
  | .call, .checkpoint current => some (w.takeCheckpoint cfg current)
  | .call, .replay p index (some intent :: left) => some (w.replayIntent cfg p index intent left)
  | .call, .replay p index (none :: _) =>
    some { w with stage := .rollback p ("intent_invalid:" ++ toString index) }
  | .call, .rollback p failure => some (w.rollBack cfg p failure)
  | .foreign _, .returned _ => none
  | .foreign call, _ =>
    let (s, outcome) := cfg.apply w.session call
    some { w with session := s, foreign := w.foreign + if outcome = .committed then 1 else 0 }
  | .foreignBatch _, .returned _ => none
  | .foreignBatch call, _ =>
    let (s, outcome) := applyPresentationBatch w.session call
    some { w with session := s, foreign := w.foreign + if outcome = .committed then 1 else 0 }
  | _, _ => none

end MergeWorld

/-! ## All of the intents -/

/-- The document as it is read. -/
def shown (mapspec : Json) : Option Json :=
  match mapspec with
  | .null => none
  | v => some v

namespace MutationCall

variable (call : MutationCall)

/-- What a handler that is reached makes of the document. -/
def drafted (loaded : Option Json) : Option Json :=
  match call.request with
  | .checkpoint _ => some (orSkeleton loaded)
  | .rollback _ => none
  | .initProject | .edit =>
    match call.handle (call.loadedFor loaded) with
    | .ok candidate => some candidate.mapspec
    | .error _ => none

/-- The document that the call commits over this one, if it is let through. -/
def commitsOver (loaded : Option Json) (revision : Nat) : Option Json :=
  match call.guard loaded with
  | .error _ => none
  | .ok () =>
    (call.drafted loaded).bind fun draft =>
      match call.finish draft with
      | .ok mapspec => some (stampRev (revision + 1) mapspec)
      | .error _ => none

end MutationCall

/-- The intents one after the other, from this document and revision on. -/
def applyIntents : List (Option ProposedIntent) → Option Json → Nat → Option (Option Json)
  | [], loaded, _ => some loaded
  | none :: _, _, _ => none
  | some intent :: left, loaded, revision =>
    (intent.call.commitsOver loaded revision).bind fun mapspec =>
      applyIntents left (shown mapspec) (revision + 1)

/-- What the whole proposal makes of a document: its checkpoint commits that, and then the intents
    follow. -/
def MergeConfig.merged (cfg : MergeConfig) (before : Option Json) : Option (Option Json) :=
  let base := cfg.proposal.baseRevision
  ((cfg.asCheckpoint base).commitsOver before base).bind fun mapspec =>
    applyIntents cfg.proposal.mutationIntents (shown mapspec) (base + 1)

end WebGis.Mapspec
