/-
  The rows of the event ledger, and what its statements do to them.

  A row is appended as `pending`, claimed by a worker, and settled; a settled row is open again
  when it is queued once more (`requeue_event`) or claimed by a forced replay. Times are seconds of
  one clock. Columns that no function here reads are left out.
-/
import WebGis.Data.Entries

namespace WebGis.Events

open Data

inductive EventKind where
  | mapMutationApplied
  | artifactRevisionCommitted
  | datasetVersionChanged
  | jobCompleted
  | jobFailed
  | jobCancelled
  | simulationCompleted
  | mapproductVersionRecorded
  | observationSpatial
  deriving DecidableEq

inductive EventPriority where
  | interactive
  | normal
  | batch
  deriving DecidableEq

inductive EventStatus where
  | pending
  | processing
  | processed
  | failed
  | coalesced
  | skipped
  deriving DecidableEq

structure EventRow where
  eventId : String
  orgId : String
  kind : EventKind
  subjectKey : String
  sessionId : Option String := none
  projectId : Option String := none
  occurredAt : Nat
  priority : EventPriority := .normal
  dedupeKey : Option String := none
  status : EventStatus := .pending
  attempts : Nat := 0
  collapsedCount : Nat := 0
  claimedBy : Option String := none
  claimedAt : Nat := 0
  nextAttemptAt : Option Nat := none

/-- The rows under their ids. -/
abbrev EventTable : Type := Dict Nat EventRow

/-- `pending` or `processing`, the statuses that hold the cursor back. -/
def EventStatus.isOpen : EventStatus → Bool
  | pending => true
  | processing => true
  | _ => false

/-- `_PRIORITY_SQL` -/
def EventPriority.rank : EventPriority → Nat
  | interactive => 0
  | normal => 1
  | batch => 2

namespace EventRow

/-- What the watches of a row are chosen by. -/
def subject (row : EventRow) : String × EventKind × String × Option String × Option String :=
  (row.orgId, row.kind, row.subjectKey, row.sessionId, row.projectId)

/-- Its back-off is over. -/
def due (row : EventRow) (now : Nat) : Bool := row.nextAttemptAt.all (· ≤ now)

/-- The row is claimed by the worker. -/
def claimedFor (row : EventRow) (worker : String) : Bool :=
  row.status = .processing && row.claimedBy = some worker

def claim (worker : String) (now : Nat) (row : EventRow) : EventRow :=
  { row with
    status := .processing, claimedBy := some worker, claimedAt := now
    attempts := row.attempts + 1 }

def processed (row : EventRow) : EventRow := { row with status := .processed, claimedBy := none }

def skipped (row : EventRow) : EventRow := { row with status := .skipped, claimedBy := none }

/-- The end of `mark_failed`, for a row that was read with `attempts`. -/
def failed (terminal deferred : Bool) (attempts : Nat) (nextAt : Nat) (row : EventRow) : EventRow :=
  { row with
    status := if terminal then .failed else .pending
    attempts := if deferred then attempts - 1 else attempts
    claimedBy := none
    nextAttemptAt := if terminal then none else some nextAt }

/-- Back in the queue without a back-off. -/
def requeued (row : EventRow) : EventRow :=
  { row with status := .pending, claimedBy := none, nextAttemptAt := none }

end EventRow

namespace EventTable

variable (events : EventTable)

/-! ## Claims -/

/-- Order of `claim_batch`. -/
def before (a b : Nat × EventRow) : Bool :=
  a.2.priority.rank < b.2.priority.rank ||
    (a.2.priority.rank = b.2.priority.rank && a.1 ≤ b.1)

/-- The candidates that `claim_batch` selects. -/
def candidates (now limit : Nat) : List Nat :=
  (((events.items.filter fun kv => kv.2.status = .pending && kv.2.due now).insertionSort fun a b =>
    before a b).take
    (max 1 (min limit 256))).map Prod.fst

/-- The UPDATE of `claim_batch`. -/
def claimBatch (worker : String) (now : Nat) (cand : List Nat) : EventTable :=
  events.updateWhere (fun id row => id ∈ cand && row.status = .pending) (.claim worker now)

def markProcessed (rowId : Nat) (worker : String) : EventTable :=
  events.updateWhere (fun id row => id = rowId && row.claimedFor worker) .processed

def markSkipped (rowId : Nat) (worker : String) : EventTable :=
  events.updateWhere (fun id row => id = rowId && row.claimedFor worker) .skipped

/-- The UPDATE of `mark_failed`. -/
def markFailed (rowId : Nat) (worker : String) (terminal deferred : Bool) (attempts nextAt : Nat) :
    EventTable :=
  events.updateWhere (fun id row => id = rowId && row.claimedFor worker)
    (.failed terminal deferred attempts nextAt)

def renewClaims (rowIds : List Nat) (worker : String) (now : Nat) : EventTable :=
  events.updateWhere (fun id row => id ∈ rowIds && row.claimedFor worker)
    fun row => { row with claimedAt := now }

def claimReplay (rowId : Nat) (orgId worker : String) (now : Nat) : EventTable :=
  events.updateWhere
    (fun id row => id = rowId && row.orgId = orgId && row.status ≠ .processing)
    (.claim worker now)

def requeueStaleProcessing (olderThan now : Nat) : EventTable :=
  events.updateWhere
    (fun _ row => row.status = .processing && row.claimedAt + olderThan ≤ now) .requeued

def requeueEvent (rowId : Nat) : EventTable :=
  events.updateWhere
    (fun id row => id = rowId &&
      (row.status = .pending || row.status = .failed || row.status = .coalesced)) .requeued

/-! ## Coalescing -/

/-- Of the kinds that `coalesce_pending` names, the one that the vocabulary has. -/
def coalescible (kind : EventKind) : Bool := kind = .datasetVersionChanged

def coalesceScanCap : Nat := 1000

/-- The rows that `coalesce_pending` reads, by id. -/
def coalesceRows (now : Nat) (orgId : Option String) : List (Nat × EventRow) :=
  ((events.items.filter fun kv =>
    kv.2.status = .pending && coalescible kv.2.kind && kv.2.due now &&
      orgId.all (· = kv.2.orgId)).insertionSort fun a b => a.1 ≤ b.1).take coalesceScanCap

/-- `(org, kind, subject_key, dedupe_key, session_id, project_id)` -/
def groupKey (row : EventRow) : String × EventKind × String × String × String × String :=
  (row.orgId, row.kind, row.subjectKey, row.dedupeKey.getD "", row.sessionId.getD "",
    row.projectId.getD "")

def groups (rows : List (Nat × EventRow)) :
    Dict (String × EventKind × String × String × String × String) (List (Nat × EventRow)) :=
  rows.foldl (fun d kv => d.push (groupKey kv.2) kv) Dict.empty

/-- Order of a group, the last of which stays. -/
def older (a b : Nat × EventRow) : Bool :=
  a.2.occurredAt < b.2.occurredAt || (a.2.occurredAt = b.2.occurredAt && a.1 ≤ b.1)

/-- The first of the members with the best priority. -/
def bestPriority : List (Nat × EventRow) → EventPriority
  | [] => .normal
  | kv :: rest =>
    rest.foldl
      (fun best kv => if kv.2.priority.rank < best.rank then kv.2.priority else best)
      kv.2.priority

/-- The UPDATEs for one group. `passed` are the rows whose own UPDATE found them claimed. -/
def coalesceGroup (passed : List Nat) (members : List (Nat × EventRow)) : EventTable :=
  match (members.insertionSort fun a b => older a b).reverse with
  | keeper :: loser :: losers =>
    let gone := ((loser :: losers).map Prod.fst).filter fun id => id ∉ passed ∧
      (events.find id).any fun row => row.status = .pending
    let raised := events.updateWhere
      (fun id row => id = keeper.1 && id ∉ passed && row.status = .pending)
      fun row => { row with priority := bestPriority members }
    let dropped := raised.updateWhere (fun id _ => id ∈ gone)
      fun row => { row with status := .coalesced }
    dropped.updateWhere (fun id _ => id = keeper.1)
      fun row => { row with collapsedCount := row.collapsedCount + gone.length }
  | _ => events

/-- The writing transaction of `coalesce_pending`. -/
def coalesce (passed : List Nat) (rows : List (Nat × EventRow)) : EventTable :=
  (groups rows).items.foldl (fun events group => coalesceGroup events passed group.2) events

/-- What coalescing leaves of a row. -/
structure Merged (row row' : EventRow) : Prop where
  subject : row'.subject = row.subject
  claimedBy : row'.claimedBy = row.claimedBy
  status : row'.status = row.status ∨ row'.status = .coalesced

theorem Merged.refl (row : EventRow) : Merged row row := ⟨rfl, rfl, .inl rfl⟩

variable {row row' : EventRow}

theorem Merged.trans {row'' : EventRow} (h : Merged row row') (h' : Merged row' row'') :
    Merged row row'' where
  subject := h'.subject.trans h.subject
  claimedBy := h'.claimedBy.trans h.claimedBy
  status := h'.status.elim (fun heq => heq ▸ h.status) .inr

/-- The tables have the same ids, and each row of the second is merged from that of the first. -/
def MergedTable (events events' : EventTable) : Prop :=
  ∀ id, Option.Rel Merged (events.find id) (events'.find id)

theorem MergedTable.refl (events : EventTable) : MergedTable events events := by
  intro id
  cases events.find id with
  | none => exact .none
  | some row => exact .some (Merged.refl row)

variable {e e' : EventTable}

theorem MergedTable.updateWhere (h : MergedTable e e') (p : Nat → EventRow → Bool)
    {f : EventRow → EventRow} (hf : ∀ row, Merged row (f row)) :
    MergedTable e (Dict.updateWhere e' p f) := by
  intro id
  have hid := h id
  rw [Dict.find_updateWhere]
  cases he : e.find id <;> cases he' : e'.find id <;> rw [he, he'] at hid <;> cases hid
  · exact .none
  · rename_i hrow
    refine .some (hrow.trans ?_)
    dsimp only
    split
    · exact hf _
    · exact Merged.refl _

theorem mergedTable_coalesceGroup (h : MergedTable e e') (passed : List Nat)
    (members : List (Nat × EventRow)) : MergedTable e (e'.coalesceGroup passed members) := by
  unfold coalesceGroup
  split
  · refine ((h.updateWhere _ ?_).updateWhere _ ?_).updateWhere _ ?_
    · exact fun _ => ⟨rfl, rfl, .inl rfl⟩
    · exact fun _ => ⟨rfl, rfl, .inr rfl⟩
    · exact fun _ => ⟨rfl, rfl, .inl rfl⟩
  · exact h

theorem mergedTable_coalesce (events : EventTable) (passed : List Nat)
    (rows : List (Nat × EventRow)) : MergedTable events (events.coalesce passed rows) := by
  unfold coalesce
  generalize (groups rows).items = groups
  suffices h : ∀ e, MergedTable events e →
      MergedTable events (groups.foldl (fun events group => coalesceGroup events passed group.2) e)
    from h events (MergedTable.refl events)
  induction groups with
  | nil => exact fun _ h => h
  | cons group rest ih => exact fun e h => ih _ (mergedTable_coalesceGroup h passed group.2)

theorem MergedTable.back (h : MergedTable e e') {id : Nat} (hrow : e'.find id = some row') :
    ∃ row, e.find id = some row ∧ Merged row row' := by
  have hid := h id
  rw [hrow] at hid
  cases he : e.find id <;> rw [he] at hid <;> cases hid
  rename_i hmerged
  exact ⟨_, rfl, hmerged⟩

theorem MergedTable.forth (h : MergedTable e e') {id : Nat} (hrow : e.find id = some row) :
    ∃ row', e'.find id = some row' ∧ Merged row row' := by
  have hid := h id
  rw [hrow] at hid
  cases he : e'.find id <;> rw [he] at hid <;> cases hid
  rename_i hmerged
  exact ⟨_, rfl, hmerged⟩

/-! ## Watermark -/

/-- `min(id)` of the open rows. -/
def minOpen : Option Nat :=
  ((events.items.filter fun kv => kv.2.status.isOpen).map Prod.fst).min?

def maxId : Nat := (events.items.map Prod.fst).max?.getD 0

end EventTable

end WebGis.Events
