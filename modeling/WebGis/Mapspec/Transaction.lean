/-
  The state of a session and how the store writes it: `get_mapspec`, `save_mapspec`,
  `discard_mapspec` and the index of committed mutations.

  A specification lies on the disk and, with its revision, the running layers and the index, in
  the fields of the map state. The fields can expire, the disk stays. What becomes of each write
  is part of the input: it takes place, it fails, or it takes place and is reported as failed.

  `apply_mutation` and `apply_presentation_batch` on the state of a session.

  What a handler, the guards, the review and the validation make of an intent is a function that
  the call brings along. Here is what the engine does around them: the index of committed
  mutations, the comparison of revisions, the checkpoint, the save, and what it undoes when that
  fails. Calls on one session hold its lock, so that they run one after the other.
-/
import WebGis.Mapspec.Checkpoint
import WebGis.Mapspec.Intents

namespace WebGis.Mapspec

open Data Data.Json

structure MutationDedupEntry where
  revision : Nat
  origin : Origin
  committed : Bool
  deriving DecidableEq, Repr

abbrev MutationDedupIndex := Dict String MutationDedupEntry

/-- The fields of the map state that a mutation reads and writes. A field `mapspec` that is there
    can be `null`, and a revision that is absent counts as zero. -/
structure MapState where
  cartographicDeleted : Bool := false
  mapspec : Option Json := none
  mutationRevision : Nat := 0
  layers : List Json := []
  mutationDedup : MutationDedupIndex := Dict.empty

/-- `mapspec.json` and `mapspec.json.rev` -/
structure Disk where
  mapspec : Option Json := none
  rev : Option Nat := none

structure Session where
  state : MapState := {}
  disk : Disk := {}
  checkpoints : CheckpointStore := { dirs := Dict.empty, blobs := Dict.empty, manifest := none }

/-! ## Reading -/

namespace Session

variable (s : Session)

/-- A specification that is not in the map state is on the disk. -/
def expired : Bool :=
  !s.state.cartographicDeleted && s.state.mapspec.isNone && s.disk.mapspec.isSome

/-- What `get_mapspec` leaves: a specification that is found on the disk comes back into the map
    state, with the revision beside it when that is higher. -/
def revived : Session :=
  if s.expired then
    { s with
      state :=
        { s.state with
          mapspec := s.disk.mapspec
          mutationRevision :=
            if s.state.mutationRevision < s.disk.rev.getD 0 then s.disk.rev.getD 0
            else s.state.mutationRevision } }
  else s

/-- What `get_mapspec` returns. -/
def getMapspec : Option Json :=
  match s.revived.state.mapspec with
  | some .null => none
  | v => v

/-- The revision that a call finds. -/
def revision : Nat := s.revived.state.mutationRevision

/-- The map state expires. -/
def expire : Session := { s with state := {} }

end Session

/-! ## The index of committed mutations -/

def mutationDedupLimit : Nat := 64

/-- `if mutation_id`, when there is one. -/
def givenId (mutationId : Option String) : Option String := mutationId.filter (· ≠ "")

def dedupHit (index : MutationDedupIndex) (mutationId : Option String) :
    Option MutationDedupEntry :=
  (givenId mutationId).bind fun id => (index.find id).filter (·.committed)

/-- The entry comes last, and the oldest go. -/
def recordCommit (index : MutationDedupIndex) (id : String) (entry : MutationDedupEntry) :
    MutationDedupIndex :=
  let index := Dict.set (index.delete (·.1 = id)) id entry
  Dict.drop index (index.keys.length - mutationDedupLimit)

def dedupCommitFields (index : MutationDedupIndex) (mutationId : Option String) (revision : Nat)
    (origin : Origin) : Option MutationDedupIndex :=
  (givenId mutationId).map fun id =>
    recordCommit index id { revision := revision, origin := origin, committed := true }

/-! ## Writing -/

/-- How far the write to the disk comes. -/
inductive DiskFate where
  | nothing | spec | rev | complete
  deriving DecidableEq, Repr

/-- The write to the map state: it can take place and be reported as failed. -/
inductive CommitFate where
  | accepted | rejected | lost
  deriving DecidableEq, Repr

/-- What becomes of a save. -/
structure SaveFate where
  /-- The specification that the process remembers from its last save. -/
  remembered : Option Json := none
  disk : DiskFate := .complete
  commit : CommitFate := .accepted
  /-- How far the disk is put back after a write to the map state that failed. -/
  restore : DiskFate := .complete

/-- Which writes of `discard_mapspec` and of the layers after it take place. -/
structure DiscardFate where
  unlinked : Bool := true
  mapspec : Bool := true
  revision : Bool := true
  layers : Bool := true

/-- A change of the running layers. -/
abbrev LayerWrite := List Json → List Json

namespace Disk

variable (d : Disk)

/-- `_persist_disk_sync` -/
def persist (mapspec : Json) (revision : Nat) : DiskFate → Disk
  | .nothing => d
  | .spec => { d with mapspec := some mapspec }
  | .rev | .complete => { mapspec := some mapspec, rev := some revision }

/-- `_restore_disk_after_cache_failure` -/
def restoreTo (previous : Disk) : DiskFate → Disk
  | .nothing => d
  | .spec => { d with mapspec := previous.mapspec }
  | .rev | .complete =>
    { mapspec := previous.mapspec, rev := previous.mapspec.bind fun _ => previous.rev }

end Disk

namespace Session

variable (s : Session)

def commitMapspecState (mapspec : Json) (revision : Nat) (layers : Option LayerWrite)
    (dedup : Option MutationDedupIndex) : Session :=
  { s with
    state :=
      { s.state with
        mapspec := some mapspec
        mutationRevision := revision
        layers := layers.getD id s.state.layers
        mutationDedup := dedup.getD s.state.mutationDedup } }

/-- `save_mapspec`, and whether it returns. -/
def saveMapspec (mapspec : Json) (revision : Nat) (layers : Option LayerWrite)
    (dedup : Option MutationDedupIndex) (fate : SaveFate) : Session × Bool :=
  let written := { s with disk := s.disk.persist mapspec revision fate.disk }
  let restored := written.disk.restoreTo
    { s.disk with mapspec := fate.remembered.or s.disk.mapspec } fate.restore
  -- only a write to the map state that fails puts the disk back
  if fate.disk ≠ .complete then (written, false)
  else
    match fate.commit with
    | .accepted => (written.commitMapspecState mapspec revision layers dedup, true)
    | .rejected => ({ written with disk := restored }, false)
    | .lost => ({ written.commitMapspecState mapspec revision layers dedup with disk := restored },
        false)

/-- `discard_mapspec`; the revision beside the specification stays. -/
def discardMapspec (fate : DiscardFate) : Session :=
  if fate.unlinked then
    { s with
      disk := { s.disk with mapspec := none }
      state :=
        { s.state with
          mapspec := if fate.mapspec then some .null else s.state.mapspec
          mutationRevision := if fate.revision then 0 else s.state.mutationRevision } }
  else s

def rollbackToSnapshot (oldMapspec : Option Json) (oldLayers : List Json) (revision : Nat)
    (save : SaveFate) (discard : DiscardFate) : Session :=
  match oldMapspec with
  | some old => (s.saveMapspec old revision (some fun _ => oldLayers) none save).1
  | none =>
    let discarded := s.discardMapspec discard
    { discarded with
      state :=
        { discarded.state with
          layers := if discard.unlinked && discard.layers then oldLayers
            else discarded.state.layers } }

/-- `_dedup_strip`, which is skipped where the write fails. -/
def dedupStrip (mutationId : Option String) (written : Bool) : Session :=
  match givenId mutationId with
  | some id =>
    if written then
      { s with
        state := { s.state with mutationDedup := s.state.mutationDedup.delete (·.1 = id) } }
    else s
  | none => s

end Session

/-- How an intent ends before its commit. -/
inductive Ending where
  | refused | superseded | unchanged | raised
  deriving DecidableEq, Repr

/-- How the guard, the review and the validation end an intent. -/
inductive Objection where
  | refused | raised
  deriving DecidableEq, Repr

def Objection.ending : Objection → Ending
  | .refused => .refused
  | .raised => .raised

/-- What a handler makes of an intent. -/
structure Candidate where
  mapspec : Json
  autoCheckpoint : Bool := false
  layers : Option LayerWrite := none

inductive Request where
  | initProject
  | checkpoint (checkpointId : Option String)
  | rollback (checkpointId : String)
  /-- Any other intent, registered or not. -/
  | edit

/-- What becomes of the writes of a call. -/
structure Fates where
  save : SaveFate := {}
  rollback : SaveFate := {}
  discard : DiscardFate := {}
  strip : Bool := true

/-- What both kinds of calls carry. -/
structure Envelope where
  origin : Origin := .agent
  expectedRevision : Option Int := none
  mutationId : Option String := none
  lockLost : Bool := false
  fates : Fates := {}

structure MutationCall extends Envelope where
  request : Request
  /-- The spatial guardrails let the intent through. -/
  passes : Bool := true
  /-- The guard on locks and `pre_commit_check` -/
  guard : Option Json → Except Objection Unit := fun _ => .ok ()
  /-- The handler of an intent other than a checkpoint or a rollback -/
  handle : Option Json → Except Ending Candidate
  /-- Stripping, review and validation of a candidate -/
  finish : Json → Except Objection Json := .ok
  now : Nat := 0
  data : SessionData

structure BatchCall extends Envelope where
  /-- The candidate that the intents add up to; unchanged where no intent applies -/
  patch : Json → Except Ending Json
  finish : Json → Except Objection Json := .ok

inductive Outcome where
  | failed | superseded | duplicate | unchanged | committed
  deriving DecidableEq, Repr

/-- The document of a session without one. -/
def skeletonDoc : Json :=
  .obj
    [("version", .str "1.0"), ("view", .obj []), ("sources", .obj []), ("layers", .arr []),
      ("layout", .obj
        [("legend", .obj [("visible", .bool true), ("position", .str "top-right")]),
          ("controls",
            .arr [.obj [("type", .str "navigation"), ("position", .str "top-right")]])]),
      ("thresholds", .obj [("maxFeatures", .int 50000), ("timeoutMs", .int 30000)])]

/-- `loaded`, or the skeleton if that is empty. -/
def orSkeleton (loaded : Option Json) : Json := (loaded.filter truthy).getD skeletonDoc

/-- `_rev` of the workbench, where it waits for the revision of the commit. -/
def stampRev (revision : Nat) (mapspec : Json) : Json :=
  match mapspec with
  | .obj fs =>
    match field "workbench" fs with
    | some (.obj w) =>
      match field "_rev" w with
      | some .null => .obj (setField fs "workbench" (.obj (setField w "_rev" (.int revision))))
      | _ => mapspec
    | _ => mapspec
  | _ => mapspec

/-! ## The beginning of a call -/

/-- Before anything is written, a call can be over. -/
inductive Opening where
  | closed (s : Session) (outcome : Outcome)
  | opened (s : Session)

/-- The checks that a call starts with, in their order. -/
def Session.opening (s : Session) (e : Envelope) : Opening :=
  if s.state.cartographicDeleted then .closed s .failed
  else if (dedupHit s.state.mutationDedup e.mutationId).isSome then .closed s.revived .duplicate
  else if e.origin = .user ∧ e.expectedRevision = none then .closed s .failed
  else if e.expectedRevision.any fun r => r ≠ (s.revision : Int) then .closed s.revived .superseded
  else .opened s.revived

/-! ## From the candidate to the commit -/

/-- What a call comes to once its intent is handled. -/
inductive Verdict where
  | ends (ending : Ending)
  | commits (mapspec : Json) (layers : Option LayerWrite)

/-- A call after its beginning: the checkpoint it takes, what it comes to, and what a failure puts
    back. -/
structure Course where
  take : Option (Json × Option String) := none
  verdict : Verdict
  restores : Option Json

/-- The lock is held still when a candidate is to be committed. -/
def Envelope.holding (e : Envelope) (finished : Except Objection Json) : Except Objection Json :=
  match finished with
  | .ok mapspec => if e.lockLost then .error .refused else .ok mapspec
  | .error objection => .error objection

/-- The call fails after it has begun to write. -/
def Envelope.abort (e : Envelope) (before s : Session) (restores : Option Json)
    (checkpointId : Option String) : Session :=
  let undone :=
    (s.rollbackToSnapshot restores before.state.layers (before.revision + 1) e.fates.rollback
      e.fates.discard).dedupStrip e.mutationId e.fates.strip
  match checkpointId with
  | some id => { undone with checkpoints := (discardCheckpoint undone.checkpoints id).1 }
  | none => undone

/-- What is left of a call after its checkpoint. -/
def Envelope.conclude (e : Envelope) (course : Course) (s : Session)
    (checkpointId : Option String) : Session × Outcome :=
  match course.verdict with
  | .ends .refused => (s, .failed)
  | .ends .superseded => (s, .superseded)
  | .ends .unchanged => (s, .unchanged)
  | .ends .raised => (e.abort s s course.restores checkpointId, .failed)
  | .commits mapspec layers =>
    let saved := s.saveMapspec mapspec (s.revision + 1) layers
      (dedupCommitFields s.state.mutationDedup e.mutationId (s.revision + 1) e.origin)
      e.fates.save
    if saved.2 then (saved.1, .committed)
    else (e.abort s saved.1 course.restores checkpointId, .failed)

namespace MutationCall

variable (call : MutationCall)

/-- What a failure puts back once the intent is being handled. -/
def baseline (loaded : Option Json) : Option Json :=
  match loaded, call.request with
  | none, _ => none
  | some _, .initProject => none
  | some m, .rollback _ => some m
  | some m, _ => some (orSkeleton (some m))

/-- The handler is given the document that is there, or the skeleton. -/
def loadedFor (loaded : Option Json) : Option Json :=
  match call.request with
  | .initProject => loaded
  | _ => some (orSkeleton loaded)

/-- The layers of a specification that is rolled back to. -/
def replaceLayers (mapspec : Json) : LayerWrite := fun _ =>
  match mapspec.get? "layers" with
  | some (.arr layers) => layers
  | _ => []

/-- What becomes of the intent up to its checkpoint. -/
def course (s : Session) : Course :=
  let loaded := s.getMapspec
  match call.guard loaded with
  | .error objection => { verdict := .ends objection.ending, restores := loaded }
  | .ok () =>
    let restores := call.baseline loaded
    let ends (ending : Ending) : Course := { verdict := .ends ending, restores := restores }
    let stamped := stampRev (s.revision + 1)
    match call.request with
    | .checkpoint id =>
      -- the snapshot is part of the handler, and comes before the review
      { take := some (orSkeleton loaded, id)
        verdict :=
          match call.holding (call.finish (orSkeleton loaded)) with
          | .error objection => .ends objection.ending
          | .ok mapspec => .commits (stamped mapspec) none
        restores := restores }
    | .rollback id =>
      if ¬ isSafeId id then ends .raised
      else
        match rollback call.data s.checkpoints id with
        | none => ends .refused
        | some restored =>
          match call.holding (call.finish restored) with
          | .error objection => ends objection.ending
          | .ok mapspec =>
            { verdict := .commits (stamped mapspec) (some (replaceLayers mapspec))
              restores := restores }
    | .initProject | .edit =>
      match call.handle (call.loadedFor loaded) with
      | .error ending => ends ending
      | .ok candidate =>
        match call.holding (call.finish candidate.mapspec) with
        | .error objection => ends objection.ending
        | .ok mapspec =>
          { take := if candidate.autoCheckpoint then some (mapspec, none) else none
            verdict := .commits (stamped mapspec) candidate.layers
            restores := restores }

end MutationCall

/-- What becomes of the intents of a batch. It takes no checkpoint. -/
def BatchCall.course (call : BatchCall) (s : Session) : Course :=
  let loaded := s.getMapspec
  let restores := loaded.map fun m => orSkeleton (some m)
  match call.patch (orSkeleton loaded) with
  | .error ending => { verdict := .ends ending, restores := restores }
  | .ok candidate =>
    match call.holding (call.finish candidate) with
    | .error objection => { verdict := .ends objection.ending, restores := restores }
    | .ok mapspec => { verdict := .commits mapspec none, restores := restores }

section Engine

variable (sha256 : String → String) (R : FloatRepr)

/-- The call from its checkpoint to its end. -/
def MutationCall.run (call : MutationCall) (course : Course) (s : Session) : Session × Outcome :=
  match course.take with
  | none => call.conclude course s none
  | some (mapspec, checkpointId) =>
    let out := snapshot sha256 R call.data call.now s.checkpoints mapspec checkpointId
    let s' := { s with checkpoints := out.store }
    match out.result with
    | .error _ => (call.abort s' s' course.restores none, .failed)
    | .ok taken => call.conclude course s' (some taken.checkpointId)

def applyMutation (s : Session) (call : MutationCall) : Session × Outcome :=
  if ¬ call.passes then (s, .failed)
  else
    match s.opening call.toEnvelope with
    | .closed s' outcome => (s', outcome)
    | .opened s' => call.run sha256 R (call.course s') s'

end Engine

def applyPresentationBatch (s : Session) (call : BatchCall) : Session × Outcome :=
  match s.opening call.toEnvelope with
  | .closed s' outcome => (s', outcome)
  | .opened s' => call.conclude (call.course s') s' none

end WebGis.Mapspec
