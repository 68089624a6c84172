/-
  `services/feature_edit/journal.py`: the journal of a dataset.

  A journal is a list of entries with rising numbers. Appending drops the oldest entries where there
  are too many or where the text of the journal gets too long; the newest one stays.

  `services/feature_edit/executor.py`: committing a plan, undoing and redoing.

  All calls hold the edit lock of the session, so each is one step on the payload of the dataset, its
  revision and the journals. What the store answers to the single reads and writes of a call is
  given with the call: a read can miss, an overwrite can be refused, a journal can stay unwritten.
-/
import WebGis.Edit.Plans
import WebGis.Edit.Preview

namespace WebGis.Edit

open Data Json

/-! ## Entries -/

inductive EntryKind where
  | apply
  | undo
  | redo
  deriving DecidableEq

structure JournalEntry where
  kind : EntryKind
  seq : Nat
  undoOfSeq : Option Nat
  idempotencyKey : String
  actor : String
  origin : String
  refId : String
  deltas : List FeatureDelta
  schemaOps : List RenameField
  opSummary : Fields
  fingerprintBefore : String
  fingerprintAfter : String
  contentRevisionBefore : Nat
  contentRevisionAfter : Nat
  createdAt : Rat

structure EditJournal where
  entries : List JournalEntry
  headSeq : Nat
  dropped : Nat

def newJournal : EditJournal := ⟨[], 0, 0⟩

def headEntry (j : EditJournal) : Option JournalEntry := j.entries.getLast?

/-- `entry_for_idempotency_key`: the newest one -/
def entryForIdempotencyKey (j : EditJournal) (key : String) : Option JournalEntry :=
  j.entries.reverse.find? fun e => e.idempotencyKey = key

/-! ## Texts -/

def EntryKind.text : EntryKind → String
  | apply => "apply"
  | undo => "undo"
  | redo => "redo"

/-- The change of a field as it is stored: an inverse says of both values whether they are absent. -/
def FieldChange.toJson (kind : EntryKind) (change : FieldChange) : Json :=
  .obj ([("before", change.before), ("after", change.after),
    ("before_absent", .bool change.beforeAbsent)] ++
      if kind = .undo then [("after_absent", .bool change.afterAbsent)] else [])

def FeatureDelta.toJson (kind : EntryKind) (delta : FeatureDelta) : Json :=
  .obj ([("wfid", .str delta.wfid)] ++
    (match delta.fields with
      | some fields => [("fields", .obj (fields.items.map fun nc => (nc.1, nc.2.toJson kind)))]
      | none => []) ++
    (match delta.geometryBefore, delta.geometryAfter with
      | none, none => []
      | before, after =>
        [("geometry_before", before.getD .null), ("geometry_after", after.getD .null)]))

def RenameField.toJson (op : RenameField) : Json :=
  .obj [("op", .str "rename_field"), ("from", .str op.src), ("to", .str op.dst)]

def JournalEntry.toJson (e : JournalEntry) : Json :=
  .obj ((match e.undoOfSeq with
      | some seq => [("undo_of_seq", .int seq)]
      | none => []) ++
    [("kind", .str e.kind.text), ("seq", .int e.seq), ("idempotency_key", .str e.idempotencyKey),
      ("actor", .str e.actor), ("origin", .str e.origin), ("ref_id", .str e.refId),
      ("deltas", .arr (e.deltas.map (FeatureDelta.toJson e.kind))),
      ("schema_ops", .arr (e.schemaOps.map RenameField.toJson)),
      ("op_summary", .obj e.opSummary), ("fingerprint_before", .str e.fingerprintBefore),
      ("fingerprint_after", .str e.fingerprintAfter),
      ("content_revision_before", .int e.contentRevisionBefore),
      ("content_revision_after", .int e.contentRevisionAfter), ("created_at", .float e.createdAt)])

def EditJournal.toJson (j : EditJournal) : Json :=
  .obj [("entries", .arr (j.entries.map JournalEntry.toJson)), ("head_seq", .int j.headSeq),
    ("dropped", .int j.dropped)]

def journalBytes (R : FloatRepr) (j : EditJournal) : Nat := (dumps R j.toJson).length

/-! ## Appending -/

def maxUndoHistory : Nat := 128

def journalByteBudget : Nat := 64 * 1024

/-- The journal is too long in entries or in its text. -/
def overBudget (R : FloatRepr) (j : EditJournal) : Prop :=
  j.entries.length > maxUndoHistory ∨
    (j.entries.length > 1 ∧ journalBytes R j > journalByteBudget)

instance (R : FloatRepr) (j : EditJournal) : Decidable (overBudget R j) := by
  unfold overBudget
  infer_instance

/-- The loop of `append_entry` that drops the oldest entries. -/
def dropOldest (R : FloatRepr) (headSeq : Nat) : Nat → List JournalEntry → EditJournal
  | dropped, [] => ⟨[], headSeq, dropped⟩
  | dropped, e :: es =>
    if overBudget R ⟨e :: es, headSeq, dropped⟩ then dropOldest R headSeq (dropped + 1) es
    else ⟨e :: es, headSeq, dropped⟩

def appendEntry (R : FloatRepr) (j : EditJournal) (entry : JournalEntry) : EditJournal :=
  dropOldest R (j.headSeq + 1) j.dropped (j.entries ++ [{ entry with seq := j.headSeq + 1 }])

/-- A change of the newest entry. -/
def EditJournal.modifyHead (j : EditJournal) (f : JournalEntry → JournalEntry) : EditJournal :=
  { j with entries := j.entries.modifyLast f }

/-- `invert_entry`, as `apply_undo` completes it -/
def invertEntry (e : JournalEntry) : JournalEntry :=
  { e with
    kind := .undo
    undoOfSeq := some e.seq
    deltas := invertDeltas e.deltas
    schemaOps := invertSchemaOps e.schemaOps
    opSummary :=
      [("summary", .str ("inverse of seq=" ++ toString e.seq)),
        ("ops", (field "ops" e.opSummary).getD (.arr []))]
    fingerprintBefore := e.fingerprintAfter
    fingerprintAfter := e.fingerprintBefore
    contentRevisionBefore := e.contentRevisionAfter
    contentRevisionAfter := e.contentRevisionBefore }

/-! ## Sessions -/

/-- One dataset of a session, and all journals of the session. -/
structure Session where
  payload : Option Payload
  revision : Nat
  journals : Dict String EditJournal

/-- What the store answers to a call, and the time. -/
structure Replies where
  found : Bool
  described : Bool
  journalsRead : Bool
  targets : Targets
  overwritten : Bool
  describedAfter : Bool
  recorded : Bool
  now : Rat

/-- `FeatureEditBlocked` and `FeatureEditConflict` -/
inductive EditError where
  | blocked (code message : String)
  | conflict (code : String)

/-- How a call ends. -/
inductive Outcome where
  | raised (e : EditError)
  | replayed (entry : JournalEntry)
  | noChanges (revision : Nat)
  | written (entry : JournalEntry)

def Outcome.isRaised : Outcome → Bool
  | raised _ => true
  | _ => false

def Outcome.isWritten : Outcome → Bool
  | written _ => true
  | _ => false

/-! ## Reading and writing -/

def maxJournalsPerSession : Nat := 4

def loadJournals (r : Replies) (s : Session) : Dict String EditJournal :=
  if r.journalsRead then s.journals else Dict.empty

/-- The revision that the descriptor shows. -/
def currentRevision (described : Bool) (s : Session) : Nat := if described then s.revision else 0

def lastTs (j : EditJournal) : Rat := ((headEntry j).map JournalEntry.createdAt).getD 0

/-- The journals that are not written any longer, the ones that rest longest. -/
def evicted (journals : Dict String EditJournal) : List String :=
  ((journals.items.mergeSort fun a b => lastTs a.2 ≤ lastTs b.2).map Prod.fst).take
    (journals.items.length - maxJournalsPerSession)

def saveJournal (journals : Dict String EditJournal) : Dict String EditJournal :=
  Table.delete journals fun kj => kj.1 ∈ evicted journals

/-- The overwrite of the payload and the writing of the journal with its new entry. -/
def writeEntry (K : Kit) (ref : String) (r : Replies) (s : Session) (p : Payload)
    (journals : Dict String EditJournal) (entry : JournalEntry) : Outcome × Session :=
  let journal := appendEntry K.floats ((journals.find ref).getD newJournal) entry
  if r.overwritten then
    let s := { s with payload := some p, revision := s.revision + 1 }
    let revisionAfter :=
      if currentRevision r.describedAfter s = 0 then
        entry.contentRevisionBefore + 1
      else currentRevision r.describedAfter s
    let journal := journal.modifyHead fun e => { e with contentRevisionAfter := revisionAfter }
    (.written ((headEntry journal).getD entry), { s with
        journals :=
          if r.recorded then saveJournal (journals.set ref journal) else s.journals })
  else (.raised (.blocked "dataset_not_found" "ref disappeared during commit"), s)

/-! ## Committing -/

def prefetchTargetRefs (ops : List EditOp) : List String :=
  ops.filterMap fun
    | .geometry (.snapToRef refId _) => some refId
    | _ => none

/-- The key under which a commit is entered. -/
def commitKey (plan : Plan) (idempotencyKey : Option String) : String :=
  match idempotencyKey with
  | some key => if key = "" then "plan:" ++ plan.planId else key ++ ":" ++ plan.planId
  | none => "plan:" ++ plan.planId

/-- The plan does not fit the dataset as it is now. -/
def isStale (K : Kit) (r : Replies) (s : Session) (plan : Plan) (p : Payload) : Prop :=
  plan.expectedContentRevision = 0 ∨
    plan.expectedContentRevision ≠ currentRevision r.described s ∨
    plan.expectedFingerprint ≠ computePayloadFingerprint K p

instance (K : Kit) (r : Replies) (s : Session) (plan : Plan) (p : Payload) :
    Decidable (isStale K r s plan p) := by
  unfold isStale
  infer_instance

/-- The collection is given ids before the plan is applied. -/
def materializes (plan : Plan) (c : Collection) : Bool :=
  plan.needsMaterialization && !hasWfids c.features

/-- The features that the plan is applied to. -/
def planFeatures (K : Kit) (plan : Plan) (p : Payload) (c : Collection) : List Feature :=
  if materializes plan c then
    materializeWfids K.sha256 (computePayloadFingerprint K p) c.features
  else c.features

/-- The part of `commit_plan` after the checks against a stale plan. -/
def commitFresh (K : Kit) (ref : String) (s : Session) (plan : Plan) (actor origin key : String)
    (r : Replies) (p : Payload) (c : Collection) : Outcome × Session :=
  if ¬ ∀ target ∈ prefetchTargetRefs plan.ops, (r.targets.find target).isSome then
    (.raised (.blocked "dataset_not_found" "ref not resolvable in this session"), s)
  else
    let features := planFeatures K plan p c
    let changes := deriveChanges K.shapes { c with features := features } plan.ops
      plan.targetWfids r.targets
    if changes.findings ≠ [] then (.raised (.conflict "stale_revision"), s)
    else
      let p' := p.withFeatures (commitFeatures changes features)
      let before := computePayloadFingerprint K (p.withFeatures features)
      let after := computePayloadFingerprint K p'
      if materializes plan c = false ∧ changes.schemaOps = [] ∧ after = before then
        (.noChanges (currentRevision r.described s), s)
      else
        writeEntry K ref r s p' (loadJournals r s)
          { kind := .apply
            seq := 0
            undoOfSeq := none
            idempotencyKey := key
            actor := actor
            origin := origin
            refId := ref
            deltas := changes.deltas
            schemaOps := changes.schemaOps
            opSummary :=
              [("ops", plan.opSummaries), ("materialized", .bool (materializes plan c)),
                ("plan_id", .str plan.planId)]
            fingerprintBefore := before
            fingerprintAfter := after
            contentRevisionBefore := currentRevision r.described s
            contentRevisionAfter := currentRevision r.described s
            createdAt := r.now }

def commitPlan (K : Kit) (ref : String) (s : Session) (plan : Plan) (actor origin : String)
    (idempotencyKey : Option String) (r : Replies) : Outcome × Session :=
  match s.payload, r.found with
  | some p, true =>
    let journal := ((loadJournals r s).find ref).getD newJournal
    match entryForIdempotencyKey journal (commitKey plan idempotencyKey) with
    | some hit => (.replayed hit, s)
    | none =>
      if isStale K r s plan p then (.raised (.conflict "stale_revision"), s)
      else
        match extractFc p with
        | none =>
          (.raised (.blocked "dataset_not_editable"
            "payload is not an editable FeatureCollection"), s)
        | some c =>
          commitFresh K ref s plan actor origin (commitKey plan idempotencyKey) r p c
  | _, _ => (.raised (.blocked "dataset_not_found" "ref not resolvable in this session"), s)

/-! ## Undoing and redoing -/

/-- `_apply_inverse_locked` -/
def applyInverse (K : Kit) (ref : String) (s : Session) (r : Replies) (p : Payload)
    (effect : JournalEntry) : Outcome × Session :=
  match extractFc p with
  | none =>
    (.raised (.blocked "dataset_not_editable" "payload is not an editable FeatureCollection"), s)
  | some c =>
    let p' := p.withFeatures (applySchemaOpsToFeatures
      (applyDeltasToFeatures c.features effect.deltas).1 effect.schemaOps).1
    let after := computePayloadFingerprint K p'
    if effect.fingerprintAfter ≠ "" ∧ after ≠ effect.fingerprintAfter then
      (.raised (.conflict "fingerprint_mismatch"), s)
    else
      writeEntry K ref r s p' (loadJournals r s)
        { effect with
          fingerprintBefore := computePayloadFingerprint K p
          fingerprintAfter := after
          contentRevisionBefore := currentRevision r.described s
          contentRevisionAfter := currentRevision r.described s
          createdAt := r.now }

def applyUndo (K : Kit) (ref : String) (s : Session) (actor origin : String) (r : Replies) :
    Outcome × Session :=
  match s.payload, r.found with
  | some p, true =>
    let journal := ((loadJournals r s).find ref).getD newJournal
    match headEntry journal with
    | none =>
      (.raised (.blocked "undo_unavailable" "no undoable entry at journal head"), s)
    | some head =>
      if head.kind = .undo then
        (.raised (.blocked "undo_unavailable" "no undoable entry at journal head"), s)
      else
        let key := "undo:" ++ toString head.seq
        match entryForIdempotencyKey journal key with
        | some hit => (.replayed hit, s)
        | none =>
          if computePayloadFingerprint K p ≠ head.fingerprintAfter then
            (.raised (.conflict "stale_revision"), s)
          else
            applyInverse K ref s r p
              { invertEntry head with
                idempotencyKey := key, actor := actor, origin := origin, refId := ref }
  | _, _ => (.raised (.blocked "dataset_not_found" "ref not resolvable in this session"), s)

/-- The entry of a redo. -/
def redoEntry (target : JournalEntry) (key actor origin ref : String) : JournalEntry :=
  { target with
    kind := .redo
    undoOfSeq := some target.seq
    idempotencyKey := key
    actor := actor
    origin := origin
    refId := ref
    opSummary :=
      [("ops", (field "ops" target.opSummary).getD (.arr [])),
        ("redo_of_seq", .int target.seq)] }

def applyRedo (K : Kit) (ref : String) (s : Session) (actor origin : String) (r : Replies) :
    Outcome × Session :=
  match s.payload, r.found with
  | some p, true =>
    let journal := ((loadJournals r s).find ref).getD newJournal
    match headEntry journal with
    | none => (.raised (.blocked "undo_unavailable" "journal head is not an undo entry"), s)
    | some head =>
      if head.kind ≠ .undo then
        (.raised (.blocked "undo_unavailable" "journal head is not an undo entry"), s)
      else
        match journal.entries.find? fun e => some e.seq = head.undoOfSeq with
        | none =>
          (.raised (.blocked "undo_unavailable"
            "undone entry no longer in journal (FIFO dropped)"), s)
        | some target =>
          let key := "redo:" ++ toString target.seq
          match entryForIdempotencyKey journal key with
          | some hit => (.replayed hit, s)
          | none =>
            if computePayloadFingerprint K p ≠ head.fingerprintAfter then
              (.raised (.conflict "stale_revision"), s)
            else applyInverse K ref s r p (redoEntry target key actor origin ref)
  | _, _ => (.raised (.blocked "dataset_not_found" "ref not resolvable in this session"), s)

end WebGis.Edit
