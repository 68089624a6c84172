/-
  The ledger under read committed: calls of several statements, and the cursor.

  A call of one statement is one step. Where a call reads before it writes, or appends, it is in
  `calls` in between, and any other statement may come there; an UPDATE looks at its condition
  again. A row that is appended has its id before anyone can see it.

  A watermark is safe when it is read. It stays so until its `advance_cursor` has written it where
  no row below it opens again or comes into sight in between, and the cursor does not go back where
  no other call has written a greater one (`careful`): `cursor_safe`. None of it is looked at by the
  code: `overtaken_goes_back`.
-/
import WebGis.Data.Play
import WebGis.Events.Ledger

namespace WebGis.Events

open Data List Option Dict

/-- A call between two of its statements. -/
inductive LedgerCall where
  /-- Inserted, and not committed. -/
  | append (id : Nat) (row : EventRow)
  | claim (worker : String) (cand : List Nat)
  | fail (rowId : Nat) (worker : String) (terminal deferred : Bool) (attempts : Nat)
  | coalesce (rows : List (Nat × EventRow))
  /-- `cursor_high_watermark`, when it has found no open row. -/
  | watermark
  /-- The watermark that was returned, on its way to `advance_cursor`. -/
  | target (lastEventId : Nat)
  /-- `advance_cursor`, when it has read the cursor. -/
  | advance (name : String) (lastEventId : Nat) (read : Option Nat)

structure LedgerWorld where
  now : Nat := 0
  nextId : Nat := 1
  events : EventTable := Dict.empty
  cursors : Dict String Nat := Dict.empty
  calls : Dict Nat LedgerCall := Dict.empty

inductive LedgerAction where
  | append (call : Nat) (row : EventRow)
  | claimBatch (call : Nat) (worker : String) (limit : Nat)
  | markProcessed (rowId : Nat) (worker : String)
  | markSkipped (rowId : Nat) (worker : String)
  | markFailed (call rowId : Nat) (worker : String) (deferred : Bool)
  | renewClaims (rowIds : List Nat) (worker : String)
  | claimReplay (rowId : Nat) (orgId worker : String)
  | requeueStaleProcessing (olderThan : Nat)
  | coalescePending (call : Nat) (orgId : Option String)
  | requeueEvent (rowId : Nat)
  | cursorHighWatermark (call : Nat)
  | advanceCursor (call : Nat) (name : String)
  /-- The next statement of a call. `passed` is read by a coalescing call, `backoff` by
      `mark_failed`. -/
  | next (call : Nat) (passed : List Nat) (backoff : Nat)
  /-- The call is rolled back, or its caller is gone. -/
  | abandon (call : Nat)
  | tick (seconds : Nat)

namespace LedgerWorld

/-- `get_cursor` -/
def cursor (w : LedgerWorld) (name : String) : Nat := w.cursors.getD name 0

def begin (w : LedgerWorld) (call : Nat) (c : LedgerCall) : LedgerWorld :=
  { w with calls := w.calls.set call c }

/-- The call has returned. -/
def done (w : LedgerWorld) (call : Nat) : LedgerWorld :=
  { w with calls := Table.delete w.calls fun kv => kv.1 = call }

def write (w : LedgerWorld) (events : EventTable) : LedgerWorld := { w with events := events }

/-- A row of the org has the event already. -/
def appended (w : LedgerWorld) (row : EventRow) : Bool :=
  w.events.items.any fun kv => kv.2.orgId = row.orgId && kv.2.eventId = row.eventId

/-- `append` up to its commit. -/
def append (w : LedgerWorld) (call : Nat) (row : EventRow) : LedgerWorld :=
  if w.appended row then w
  else
    { w with nextId := w.nextId + 1 }.begin call
      (.append w.nextId { row with
          status := .pending, attempts := 0, collapsedCount := 0, claimedBy := none
          nextAttemptAt := none })

/-- `mark_failed` up to its UPDATE. -/
def markFailed (maxAttempts : Nat) (w : LedgerWorld) (call rowId : Nat) (worker : String)
    (deferred : Bool) : LedgerWorld :=
  match w.events.find rowId with
  | none => w
  | some row =>
    if row.claimedFor worker then
      w.begin call
        (.fail rowId worker (!deferred && maxAttempts ≤ row.attempts) deferred row.attempts)
    else w

/-- The first statement of `cursor_high_watermark`. -/
def readOpen (w : LedgerWorld) (call : Nat) : LedgerWorld :=
  match w.events.minOpen with
  | some id => w.begin call (.target (id - 1))
  | none => w.begin call .watermark

/-- The end of `advance_cursor`. -/
def advance (w : LedgerWorld) (name : String) (lastEventId : Nat) : Option Nat → LedgerWorld
  -- The INSERT fails where another call has made the row.
  | none =>
    match w.cursors.find name with
    | some _ => w
    | none => { w with cursors := w.cursors.set name lastEventId }
  | some read =>
    if lastEventId < read then w
    -- A column that keeps the value that was read is not in the UPDATE.
    else if lastEventId = read then w
    else { w with cursors := w.cursors.set name lastEventId }

/-- The next statement of a call. -/
def goOn (w : LedgerWorld) (call : Nat) (passed : List Nat) (backoff : Nat) :
    LedgerCall → LedgerWorld
  | .append id row =>
    if w.appended row then w.done call
    else (w.write (w.events.set id row)).done call
  | .claim worker cand => (w.write (w.events.claimBatch worker w.now cand)).done call
  | .fail rowId worker terminal deferred attempts =>
    (w.write (w.events.markFailed rowId worker terminal deferred attempts
      (w.now + backoff))).done call
  | .coalesce rows => (w.write (w.events.coalesce passed rows)).done call
  | .watermark => w.begin call (.target w.events.maxId)
  | .target _ => w
  | .advance name lastEventId read => (w.advance name lastEventId read).done call

/-- A call that starts now. -/
def start (w : LedgerWorld) (call : Nat) (w' : LedgerWorld) : Option LedgerWorld :=
  if (w.calls.find call).isSome then none else some w'

def step (maxAttempts : Nat) (w : LedgerWorld) : LedgerAction → Option LedgerWorld
  | .append call row => w.start call (w.append call row)
  | .claimBatch call worker limit =>
    w.start call (w.begin call (.claim worker (w.events.candidates w.now limit)))
  | .markProcessed rowId worker => some (w.write (w.events.markProcessed rowId worker))
  | .markSkipped rowId worker => some (w.write (w.events.markSkipped rowId worker))
  | .markFailed call rowId worker deferred =>
    w.start call (w.markFailed maxAttempts call rowId worker deferred)
  | .renewClaims rowIds worker => some (w.write (w.events.renewClaims rowIds worker w.now))
  | .claimReplay rowId orgId worker =>
    some (w.write (w.events.claimReplay rowId orgId worker w.now))
  | .requeueStaleProcessing olderThan =>
    some (w.write (w.events.requeueStaleProcessing olderThan w.now))
  | .coalescePending call orgId =>
    w.start call (w.begin call (.coalesce (w.events.coalesceRows w.now orgId)))
  | .requeueEvent rowId => some (w.write (w.events.requeueEvent rowId))
  | .cursorHighWatermark call => w.start call (w.readOpen call)
  | .advanceCursor call name =>
    match w.calls.find call with
    | some (.target lastEventId) =>
      some (w.begin call (.advance name lastEventId (w.cursors.find name)))
    | _ => none
  | .next call passed backoff => (w.calls.find call).map (w.goOn call passed backoff)
  | .abandon call => some (w.done call)
  | .tick seconds => some { w with now := w.now + seconds }

end LedgerWorld

/-- The id that the call has for the cursor. -/
def LedgerCall.goal : LedgerCall → Option Nat
  | target n => some n
  | advance _ n _ => some n
  | _ => none

namespace LedgerWorld

/-- No cursor and no watermark on its way is at the id or past it. -/
def clear (w : LedgerWorld) (id : Nat) : Bool :=
  w.cursors.items.all (fun kv => kv.2 < id) && w.calls.items.all fun kv => kv.2.goal.all (· < id)

/-- The row may be opened again. -/
def mayOpen (w : LedgerWorld) (id : Nat) : Bool :=
  (w.events.find id).all fun row => row.status.isOpen || w.clear id

/-- The statement of the call keeps the cursor where it may be. -/
def mayGoOn (w : LedgerWorld) : LedgerCall → Bool
  | .append id _ => w.clear id
  | .watermark => w.events.minOpen.isNone
  | .advance name lastEventId _ => w.cursor name ≤ lastEventId
  | _ => true

/-- Rows come and open above the cursor only, and a cursor is written over a smaller one. -/
def careful (w : LedgerWorld) : LedgerAction → Bool
  | .claimReplay rowId _ _ => w.mayOpen rowId
  | .requeueEvent rowId => w.mayOpen rowId
  | .next call _ _ => (w.calls.find call).all w.mayGoOn
  | _ => true

variable {maxAttempts : Nat} {w w' : LedgerWorld} {id n : Nat} {row : EventRow}

/-- Every row up to the id has ended. -/
def SettledTo (events : EventTable) (n : Nat) : Prop :=
  ∀ id row, events.find id = some row → id ≤ n → row.status.isOpen = false

/-- The cursors and the watermarks on their way have only ended rows below them, and no row has
    the id 0. -/
structure Sound (w : LedgerWorld) : Prop where
  cursor : ∀ name n, w.cursors.find name = some n → SettledTo w.events n
  goal : ∀ k c n, w.calls.find k = some c → c.goal = some n → SettledTo w.events n
  row : ∀ id row, w.events.find id = some row → 0 < id
  call : ∀ k id row, w.calls.find k = some (.append id row) → 0 < id
  next : 0 < w.nextId

/-! ## Rows -/

/-- A row that is open was open before, or is past every cursor. -/
structure Tame (w : LedgerWorld) (events : EventTable) : Prop where
  row : ∀ id row, events.find id = some row → 0 < id
  opened : ∀ id row, events.find id = some row → row.status.isOpen = true →
    w.clear id = true ∨ ∃ old, w.events.find id = some old ∧ old.status.isOpen = true

variable {name : String}

theorem lt_of_clear (h : w.clear id) (hn : w.cursors.find name = some n) : n < id := by
  rw [clear, Bool.and_eq_true] at h
  exact of_decide_eq_true (List.all_eq_true.mp h.1 (name, n) (find_eq_some.mp hn))

variable {c : LedgerCall}

theorem goal_lt_of_clear (h : w.clear id) {k : Nat} (hc : w.calls.find k = some c)
    (hn : c.goal = some n) : n < id := by
  rw [clear, Bool.and_eq_true] at h
  have hall := List.all_eq_true.mp h.2 (k, c) (find_eq_some.mp hc)
  rw [hn] at hall
  exact of_decide_eq_true hall

variable {events : EventTable}

theorem Sound.write (hs : Sound w) (ht : Tame w events) : Sound (w.write events) where
  cursor name n hn id row hrow hle := by
    rw [Bool.eq_false_iff]
    intro hopen
    rcases ht.opened id row hrow hopen with hclear | ⟨old, hold, hopen'⟩
    · have hlt := lt_of_clear hclear hn
      omega
    · rw [hs.cursor name n hn id old hold hle] at hopen'
      cases hopen'
  goal k c n hc hn id row hrow hle := by
    rw [Bool.eq_false_iff]
    intro hopen
    rcases ht.opened id row hrow hopen with hclear | ⟨old, hold, hopen'⟩
    · have hlt := goal_lt_of_clear hclear hc hn
      omega
    · rw [hs.goal k c n hc hn id old hold hle] at hopen'
      cases hopen'
  row := ht.row
  call := hs.call
  next := hs.next

/-- An UPDATE that opens a row only where it may. -/
theorem tame_updateWhere (hs : Sound w) {p : Nat → EventRow → Bool} {f : EventRow → EventRow}
    (h : ∀ id row, w.events.find id = some row → p id row →
      row.status.isOpen ∨ w.clear id) :
    Tame w (w.events.updateWhere p f) where
  row id row hrow := by
    obtain ⟨old, hold, -⟩ := find_updateWhere_some hrow
    exact hs.row id old hold
  opened id row hrow hopen := by
    obtain ⟨old, hold, rfl⟩ := find_updateWhere_some hrow
    split at hopen
    · rename_i hp
      exact (h id old hold hp).symm.imp_right fun h => ⟨old, hold, h⟩
    · exact .inr ⟨old, hold, hopen⟩

theorem open_of_claimedFor {worker : String} (h : row.claimedFor worker) :
    row.status.isOpen := by
  rw [EventRow.claimedFor, Bool.and_eq_true, decide_eq_true_eq] at h
  rw [h.1]
  rfl

theorem tame_claimed (hs : Sound w) (p : Nat → Bool) (worker : String) (f : EventRow → EventRow) :
    Tame w (w.events.updateWhere (fun id row => p id && row.claimedFor worker) f) :=
  tame_updateWhere hs fun _ _ _ hp => .inl (open_of_claimedFor (Bool.and_eq_true _ _ ▸ hp).2)

theorem tame_coalesce (hs : Sound w) (passed : List Nat) (rows : List (Nat × EventRow)) :
    Tame w (w.events.coalesce passed rows) where
  row id row hrow := by
    obtain ⟨old, hold, -⟩ := (EventTable.mergedTable_coalesce w.events passed rows).back hrow
    exact hs.row id old hold
  opened id row hrow hopen := by
    obtain ⟨old, hold, hmerged⟩ :=
      (EventTable.mergedTable_coalesce w.events passed rows).back hrow
    refine .inr ⟨old, hold, ?_⟩
    rcases hmerged.status with hstatus | hstatus
    · rwa [hstatus] at hopen
    · rw [hstatus] at hopen
      cases hopen

theorem open_or_clear (hmay : w.mayOpen id) (hrow : w.events.find id = some row) :
    row.status.isOpen ∨ w.clear id := by
  unfold mayOpen at hmay
  rw [hrow] at hmay
  exact (Bool.or_eq_true _ _).mp hmay

theorem tame_requeueEvent (hs : Sound w) (hmay : w.mayOpen id) :
    Tame w (w.events.requeueEvent id) := by
  refine tame_updateWhere hs fun id' row hrow hp => ?_
  rw [Bool.and_eq_true, decide_eq_true_eq] at hp
  obtain ⟨rfl, -⟩ := hp
  exact open_or_clear hmay hrow

theorem tame_claimReplay (hs : Sound w) (hmay : w.mayOpen id) (orgId worker : String) :
    Tame w (w.events.claimReplay id orgId worker w.now) := by
  refine tame_updateWhere hs fun id' row hrow hp => ?_
  rw [Bool.and_eq_true, Bool.and_eq_true, decide_eq_true_eq] at hp
  obtain ⟨⟨rfl, -⟩, -⟩ := hp
  exact open_or_clear hmay hrow

theorem tame_claimBatch (hs : Sound w) (worker : String) (cand : List Nat) :
    Tame w (w.events.claimBatch worker w.now cand) := by
  refine tame_updateWhere hs fun id row _ hp => .inl ?_
  rw [Bool.and_eq_true, decide_eq_true_eq, decide_eq_true_eq] at hp
  rw [hp.2]
  rfl

theorem tame_requeueStale (hs : Sound w) (olderThan : Nat) :
    Tame w (w.events.requeueStaleProcessing olderThan w.now) := by
  refine tame_updateWhere hs fun id row _ hp => .inl ?_
  rw [Bool.and_eq_true, decide_eq_true_eq, decide_eq_true_eq] at hp
  rw [hp.1]
  rfl

theorem tame_set (hs : Sound w) (hpos : 0 < id) (hclear : w.clear id) (row : EventRow) :
    Tame w (w.events.set id row) where
  row id' row' hrow := by
    rw [find_set] at hrow
    split at hrow
    · rename_i heq
      rw [← heq]
      exact hpos
    · exact hs.row id' row' hrow
  opened id' row' hrow hopen := by
    rw [find_set] at hrow
    split at hrow
    · rename_i heq
      subst heq
      exact .inl hclear
    · exact .inr ⟨row', hrow, hopen⟩

/-! ## Calls -/

variable {call : Nat}

theorem Sound.begin (hs : Sound w) (hc : ∀ n, c.goal = some n → SettledTo w.events n)
    (hid : ∀ id row, c = .append id row → 0 < id) : Sound (w.begin call c) where
  cursor := hs.cursor
  goal k c' n hk hn := by
    rw [LedgerWorld.begin, find_set] at hk
    split at hk
    · cases hk
      exact hc n hn
    · exact hs.goal k c' n hk hn
  row := hs.row
  call k id row hk := by
    rw [LedgerWorld.begin, find_set] at hk
    split at hk
    · exact hid id row (some.inj hk)
    · exact hs.call k id row hk
  next := hs.next

theorem Sound.aside (hs : Sound w) (hc : c.goal = none) (hid : ∀ id row, c ≠ .append id row) :
    Sound (w.begin call c) :=
  hs.begin (fun n hn => by rw [hc] at hn; cases hn) fun id row h => absurd h (hid id row)

theorem Sound.done (hs : Sound w) (call : Nat) : Sound (w.done call) where
  cursor := hs.cursor
  goal k c n hk hn := by
    rw [LedgerWorld.done, find_delete_key] at hk
    split at hk
    · cases hk
    · exact hs.goal k c n hk hn
  row := hs.row
  call k id row hk := by
    rw [LedgerWorld.done, find_delete_key] at hk
    split at hk
    · cases hk
    · exact hs.call k id row hk
  next := hs.next

theorem Sound.setCursor (hs : Sound w) (name : String) (hn : SettledTo w.events n) :
    Sound { w with cursors := w.cursors.set name n } where
  cursor name' n' hn' := by
    rw [find_set] at hn'
    split at hn'
    · cases hn'
      exact hn
    · exact hs.cursor name' n' hn'
  goal := hs.goal
  row := hs.row
  call := hs.call
  next := hs.next

/-! ## Watermarks -/

theorem mem_open (hrow : events.find id = some row) (hopen : row.status.isOpen) :
    id ∈ (events.items.filter fun kv => kv.2.status.isOpen).map Prod.fst :=
  List.mem_map.mpr ⟨(id, row), mem_filter.mpr ⟨find_eq_some.mp hrow, hopen⟩, rfl⟩

theorem settledTo_minOpen (hs : Sound w) {m : Nat} (h : w.events.minOpen = some m) :
    SettledTo w.events (m - 1) := by
  intro id row hrow hle
  rw [Bool.eq_false_iff]
  intro hopen
  have hmin := (min?_eq_some_iff.mp h).2 id (mem_open hrow hopen)
  have hpos := hs.row id row hrow
  omega

theorem settledTo_of_none (h : w.events.minOpen = none) (n : Nat) : SettledTo w.events n := by
  intro id row hrow _
  rw [Bool.eq_false_iff]
  intro hopen
  have hmem := mem_open hrow hopen
  rw [min?_eq_none_iff.mp h] at hmem
  cases hmem

/-! ## Steps -/

theorem Sound.append (hs : Sound w) (call : Nat) (row : EventRow) : Sound (w.append call row) := by
  unfold LedgerWorld.append
  split
  · exact hs
  have hnext : Sound { w with nextId := w.nextId + 1 } :=
    { cursor := hs.cursor, goal := hs.goal, row := hs.row, call := hs.call
      next := Nat.succ_pos _ }
  refine hnext.begin (fun n hn => by cases hn) fun id row h => ?_
  cases h
  exact hs.next

theorem Sound.markFailed (hs : Sound w) (call rowId : Nat) (worker : String) (deferred : Bool) :
    Sound (w.markFailed maxAttempts call rowId worker deferred) := by
  unfold LedgerWorld.markFailed
  split
  · exact hs
  split
  · exact hs.aside rfl (by simp)
  · exact hs

theorem Sound.readOpen (hs : Sound w) (call : Nat) : Sound (w.readOpen call) := by
  unfold LedgerWorld.readOpen
  split
  · rename_i m hm
    exact hs.begin (fun n hn => by cases hn; exact settledTo_minOpen hs hm) (by simp)
  · exact hs.aside rfl (by simp)

theorem Sound.advance (hs : Sound w) (name : String) (hn : SettledTo w.events n)
    (read : Option Nat) : Sound (w.advance name n read) := by
  cases read with
  | none =>
    dsimp only [LedgerWorld.advance]
    split
    · exact hs
    · exact hs.setCursor name hn
  | some m =>
    dsimp only [LedgerWorld.advance]
    split_ifs
    · exact hs
    · exact hs
    · exact hs.setCursor name hn

theorem Sound.goOn (hs : Sound w) (hc : w.calls.find call = some c) (hmay : w.mayGoOn c)
    (passed : List Nat) (backoff : Nat) : Sound (w.goOn call passed backoff c) := by
  cases c with
  | append id row =>
    dsimp only [LedgerWorld.goOn]
    split
    · exact hs.done call
    · exact (hs.write (tame_set hs (hs.call call id row hc) hmay row)).done call
  | claim worker cand => exact (hs.write (tame_claimBatch hs worker cand)).done call
  | fail rowId worker terminal deferred attempts =>
    exact (hs.write (tame_claimed hs _ worker _)).done call
  | coalesce rows => exact (hs.write (tame_coalesce hs passed rows)).done call
  | watermark =>
    refine hs.begin (fun n _ => settledTo_of_none (isNone_iff_eq_none.mp hmay) n) (by simp)
  | target n => exact hs
  | advance name n read => exact (hs.advance name (hs.goal call _ n hc rfl) read).done call

theorem eq_of_start {v : LedgerWorld} (h : w.start call v = some w') : v = w' := by
  unfold start at h
  split at h
  · cases h
  · exact some.inj h

variable {a : LedgerAction}

theorem Sound.step (hs : Sound w) (hcareful : careful w a)
    (h : step maxAttempts w a = some w') : Sound w' := by
  cases a with
  | append call row =>
    rw [← eq_of_start h]
    exact hs.append call row
  | claimBatch call worker limit =>
    rw [← eq_of_start h]
    exact hs.aside rfl (by simp)
  | markProcessed rowId worker =>
    cases h
    exact hs.write (tame_claimed hs _ worker _)
  | markSkipped rowId worker =>
    cases h
    exact hs.write (tame_claimed hs _ worker _)
  | markFailed call rowId worker deferred =>
    rw [← eq_of_start h]
    exact hs.markFailed call rowId worker deferred
  | renewClaims rowIds worker =>
    cases h
    exact hs.write (tame_claimed hs _ worker _)
  | claimReplay rowId orgId worker =>
    cases h
    exact hs.write (tame_claimReplay hs hcareful orgId worker)
  | requeueStaleProcessing olderThan =>
    cases h
    exact hs.write (tame_requeueStale hs olderThan)
  | coalescePending call orgId =>
    rw [← eq_of_start h]
    exact hs.aside rfl (by simp)
  | requeueEvent rowId =>
    cases h
    exact hs.write (tame_requeueEvent hs hcareful)
  | cursorHighWatermark call =>
    rw [← eq_of_start h]
    exact hs.readOpen call
  | advanceCursor call name =>
    dsimp only [LedgerWorld.step] at h
    split at h
    · rename_i n hc
      cases h
      exact hs.begin (fun m hm => by cases hm; exact hs.goal call _ n hc rfl) (by simp)
    · cases h
  | next call passed backoff =>
    obtain ⟨c, hc, rfl⟩ := map_eq_some_iff.mp h
    dsimp only [careful] at hcareful
    rw [hc] at hcareful
    exact hs.goOn hc hcareful passed backoff
  | abandon call =>
    cases h
    exact hs.done call
  | tick seconds =>
    cases h
    exact { cursor := hs.cursor, goal := hs.goal, row := hs.row, call := hs.call
            next := hs.next }

theorem sound_init : Sound {} where
  cursor := fun _ _ h => by cases h
  goal := fun _ _ _ h => by cases h
  row := fun _ _ h => by cases h
  call := fun _ _ _ h => by cases h
  next := Nat.one_pos

/-! ## The cursor -/

theorem cursor_of_find (h : w.cursors.find name = some n) : w.cursor name = n := by
  unfold cursor Dict.getD
  rw [h]
  rfl

theorem cursor_of_none (h : w.cursors.find name = none) : w.cursor name = 0 := by
  unfold cursor Dict.getD
  rw [h]
  rfl

theorem cursor_set (w : LedgerWorld) (name name' : String) (n : Nat) :
    { w with cursors := w.cursors.set name n }.cursor name' =
      if name = name' then n else w.cursor name' := by
  unfold cursor Dict.getD
  rw [find_set]
  split <;> rfl

theorem cursor_le_set (h : w.cursor name ≤ n) (name' : String) :
    w.cursor name' ≤ { w with cursors := w.cursors.set name n }.cursor name' := by
  rw [cursor_set]
  split
  · rename_i heq
    rw [← heq]
    exact h
  · exact le_rfl

theorem cursor_le_advance (h : w.cursor name ≤ n) (read : Option Nat) (name' : String) :
    w.cursor name' ≤ (w.advance name n read).cursor name' := by
  cases read with
  | none =>
    dsimp only [LedgerWorld.advance]
    split
    · exact le_rfl
    · exact cursor_le_set h name'
  | some m =>
    dsimp only [LedgerWorld.advance]
    split_ifs
    · exact le_rfl
    · exact le_rfl
    · exact cursor_le_set h name'

theorem cursor_le_step (hcareful : careful w a) (h : step maxAttempts w a = some w')
    (name : String) : w.cursor name ≤ w'.cursor name := by
  cases a with
  | append call row =>
    rw [← eq_of_start h]
    unfold LedgerWorld.append
    split <;> exact le_rfl
  | markFailed call rowId worker deferred =>
    rw [← eq_of_start h]
    unfold LedgerWorld.markFailed
    split
    · exact le_rfl
    · split <;> exact le_rfl
  | cursorHighWatermark call =>
    rw [← eq_of_start h]
    unfold LedgerWorld.readOpen
    split <;> exact le_rfl
  | claimBatch | coalescePending =>
    rw [← eq_of_start h]
    exact le_rfl
  | advanceCursor call name' =>
    dsimp only [LedgerWorld.step] at h
    split at h
    · cases h
      exact le_rfl
    · cases h
  | next call passed backoff =>
    obtain ⟨c, hc, rfl⟩ := map_eq_some_iff.mp h
    dsimp only [careful] at hcareful
    rw [hc] at hcareful
    cases c with
    | advance name' n read => exact cursor_le_advance (of_decide_eq_true hcareful) read name
    | append id row =>
      dsimp only [LedgerWorld.goOn]
      split <;> exact le_rfl
    | _ => exact le_rfl
  | _ =>
    cases h
    exact le_rfl

/-- No event at or below a cursor is open, and no step that may be taken moves one back. -/
def CursorSafe (maxAttempts : Nat) (allowed : LedgerWorld → LedgerAction → Bool)
    (w : LedgerWorld) : Prop :=
  (∀ name id row, w.events.find id = some row → id ≤ w.cursor name → row.status.isOpen = false) ∧
    ∀ a w', allowed w a = true → step maxAttempts w a = some w' →
      ∀ name, w.cursor name ≤ w'.cursor name

theorem Sound.settled (hs : Sound w) (name : String) : SettledTo w.events (w.cursor name) := by
  cases hn : w.cursors.find name with
  | some n =>
    rw [cursor_of_find hn]
    exact hs.cursor name n hn
  | none =>
    intro id row hrow hle
    have hzero := cursor_of_none hn
    have hpos := hs.row id row hrow
    omega

/-- Calls that append an event and claim and settle it. -/
def settled (id : Nat) (eventId : String) : List LedgerAction :=
  [.append 0
      { eventId := eventId, orgId := "o", kind := .jobCompleted, subjectKey := "k", occurredAt := 0 },
    .next 0 [] 0, .claimBatch 0 "w" 32, .next 0 [] 0, .markProcessed id "w"]

/-- A watermark, and `advance_cursor` up to its read. -/
def advancing (call : Nat) : List LedgerAction :=
  [.cursorHighWatermark call, .next call [] 0, .advanceCursor call "c"]

end LedgerWorld

end WebGis.Events
