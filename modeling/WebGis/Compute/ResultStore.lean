/-
  The results of nodes that a process keeps, and the calls of its threads.

  A store has an order of use, a bound on its entries and a bound on the bytes they are recorded
  with. A payload beyond the whole budget goes to the exchange and the store keeps a stub of it. A
  `get` that comes upon a stub reads the exchange outside the lock, and then puts the payload back
  in a section of its own. An action is one locked section; what happens outside the lock, and
  fails there, comes with the action. A put that writes an entry has a number, and an entry
  remembers the number of the put that its payload is of.
-/
import WebGis.Data.Evict

namespace WebGis.Compute

open Data

/-! ## The store -/

/-- The arguments of `NodeResultStore`; `exchange` is whether there is one that is enabled. -/
structure StoreSettings where
  maxEntries : Nat := 256
  maxBytes : Nat := 128 * 1024 * 1024
  exchange : Bool := true

def spilledStubBytes : Nat := 512

/-- `MAX_LOGICAL_BYTES` of the exchange -/
def maxLogicalBytes : Nat := 256 * 1024 * 1024

/-- What a store does with a payload. -/
structure Codec (π : Type) where
  /-- `_measure` -/
  measure : π → Nat
  /-- Without the keys of the store's own. -/
  clean : π → π
  /-- `json.loads(json.dumps(payload, default=str))` -/
  reread : π → π

/-- The payload of an entry; that of a stub is what the exchange has under its handle. -/
inductive Body (π : Type) where
  | resident (payload : π)
  | spilled (payload : π) (sizeBytes : Nat)
  deriving DecidableEq

structure StoreEntry (π : Type) where
  /-- `__size__` -/
  size : Nat
  /-- `__owner_scope__` -/
  owner : String
  body : Body π
  number : Nat
  deriving DecidableEq

structure NodeResultStore (κ π : Type) where
  entries : Dict κ (StoreEntry π) := Dict.empty
  bytes : Int := 0

variable {ι κ π : Type} [DecidableEq ι] [DecidableEq κ]

def StoreSettings.stubSize (L : StoreSettings) : Nat := min spilledStubBytes L.maxBytes

/-- The stub of a payload that `_spill` has written. -/
def Codec.stub (C : Codec π) (payload : π) : Body π :=
  .spilled (C.clean payload) (C.measure (C.clean payload))

namespace NodeResultStore

/-- An entry takes the place of the one that is there, and the eviction follows. -/
def replace (L : StoreSettings) (s : NodeResultStore κ π) (key : κ) (e : StoreEntry π) :
    NodeResultStore κ π :=
  let old := (s.entries.find key).elim 0 StoreEntry.size
  let entries := s.entries.moveToEnd key e
  let r := Dict.evict StoreEntry.size L.maxEntries L.maxBytes entries.items.length entries
    (s.bytes - old + e.size)
  { entries := r.1, bytes := r.2 }

/-- `self._entries.pop(key, None)` -/
def pop (s : NodeResultStore κ π) (key : κ) : NodeResultStore κ π :=
  { s with entries := s.entries.erase key }

theorem find_replace {L : StoreSettings} {s : NodeResultStore κ π} {key k : κ}
    {e e' : StoreEntry π} (hk : (s.replace L key e).entries.find k = some e') :
    k = key ∧ e' = e ∨ k ≠ key ∧ s.entries.find k = some e' := by
  have hleft : (s.entries.moveToEnd key e).find k = some e' := Dict.find_evict hk
  unfold Dict.moveToEnd at hleft
  rw [Dict.find_set] at hleft
  split at hleft
  · rename_i heq
    cases hleft
    exact .inl ⟨heq.symm, rfl⟩
  · rename_i hne
    rw [Dict.find_erase_ne _ (Ne.symm hne)] at hleft
    exact .inr ⟨Ne.symm hne, hleft⟩

theorem find_pop {s : NodeResultStore κ π} {key k : κ} {e : StoreEntry π}
    (hk : (s.pop key).entries.find k = some e) : s.entries.find k = some e := by
  change (s.entries.erase key).find k = some e at hk
  rw [Dict.find_erase] at hk
  split at hk
  · cases hk
  · exact hk

/-- The entry that a `put` writes; `spills` is whether the exchange takes the payload. -/
def entryOf (L : StoreSettings) (C : Codec π) (owner : String) (payload : π) (spills : Bool)
    (number : Nat) : Option (StoreEntry π) :=
  let measured := C.measure payload
  let size := min measured (L.maxBytes + 1)
  if L.exchange ∧ maxLogicalBytes < measured then none
  else if L.maxBytes < size then
    if L.exchange && spills then
      some { size := L.stubSize, owner := owner, body := C.stub payload, number := number }
    else none
  else some { size := size, owner := owner, body := .resident (C.clean payload), number := number }

/-- The size of a payload that was read back. -/
def rereadSize (L : StoreSettings) (C : Codec π) (clean : π) (sizeBytes : Nat) : Nat :=
  min (if C.measure clean = 0 then sizeBytes else C.measure clean) (L.maxBytes + 1)

end NodeResultStore

/-! ## Calls -/

/-- Where a `get` stands that came upon a stub. -/
inductive GetPhase (π : Type) where
  /-- It reads the exchange; so many puts were done when it left the lock. -/
  | reading (entry : StoreEntry π) (since : Nat)
  /-- The payload is back, and the entry is about to be looked up again. -/
  | stored

structure GetCall (κ π : Type) where
  key : κ
  phase : GetPhase π

/-- The store, the calls of `get` outside the lock, and the keys of the puts so far. -/
structure StoreWorld (ι κ π : Type) where
  store : NodeResultStore κ π := {}
  calls : Dict ι (GetCall κ π) := Dict.empty
  puts : List κ := []

/-- What a call of `get` returns. -/
inductive Found (π : Type) where
  | miss
  /-- The dictionary of the entry. -/
  | entry (e : StoreEntry π)
  /-- A copy of the payload alone. -/
  | copy (payload : π)

inductive StoreAction (ι κ π : Type) where
  | put (key : κ) (owner : String) (payload : π) (spills : Bool)
  | get (id : ι) (key : κ) (owner : String)
  /-- The exchange could not be read. -/
  | fail (id : ι)
  /-- The payload was read; `spills` is whether the exchange takes it again. -/
  | putBack (id : ι) (spills : Bool)
  | lookUp (id : ι)

namespace StoreWorld

/-- The locked section of `put`. -/
def put (L : StoreSettings) (C : Codec π) (w : StoreWorld ι κ π) (key : κ) (owner : String)
    (payload : π) (spills : Bool) : StoreWorld ι κ π :=
  match NodeResultStore.entryOf L C owner payload spills w.puts.length with
  | none => w
  | some e => { w with store := w.store.replace L key e, puts := w.puts ++ [key] }

/-- The locked section of `get`. -/
def get (w : StoreWorld ι κ π) (id : ι) (key : κ) (owner : String) :
    StoreWorld ι κ π × Option (Found π) :=
  match w.store.entries.find key with
  | none => (w, some .miss)
  | some e =>
    if e.owner ≠ owner then (w, some .miss)
    else
      let store := { w.store with entries := w.store.entries.moveToEnd key e }
      match e.body with
      | .resident _ => ({ w with store := store }, some (.entry e))
      | .spilled _ _ =>
        ({ w with
            store := store
            calls := w.calls.set id { key := key, phase := .reading e w.puts.length } },
          none)

/-- The locked section of `_rehydrate`. -/
def putBack (L : StoreSettings) (C : Codec π) (w : StoreWorld ι κ π) (id : ι) (key : κ)
    (e : StoreEntry π) (payload : π) (sizeBytes : Nat) (spills : Bool) :
    StoreWorld ι κ π × Option (Found π) :=
  let clean := C.clean (C.reread payload)
  let size := NodeResultStore.rereadSize L C clean sizeBytes
  if L.maxBytes < size then
    if L.exchange && spills then
      ({ w with
          store := w.store.replace L key { e with size := L.stubSize, body := C.stub clean }
          calls := w.calls.erase id },
        some (.copy clean))
    else ({ w with store := w.store.pop key, calls := w.calls.erase id }, some .miss)
  else
    ({ w with
        store := w.store.replace L key { e with size := size, body := .resident clean }
        calls := w.calls.set id { key := key, phase := .stored } },
      none)

/-- What an action does, and what the call returns that ends by it. -/
def step (L : StoreSettings) (C : Codec π) (w : StoreWorld ι κ π) :
    StoreAction ι κ π → Option (StoreWorld ι κ π × Option (Found π))
  | .put key owner payload spills => some (w.put L C key owner payload spills, none)
  | .get id key owner =>
    match w.calls.find id with
    | some _ => none
    | none => some (w.get id key owner)
  | .fail id => do
      let c ← w.calls.find id
      match c.phase with
      | .reading _ _ => some ({ w with calls := w.calls.erase id }, some .miss)
      | .stored => none
  | .putBack id spills => do
      let c ← w.calls.find id
      match c.phase with
      | .reading e _ =>
        match e.body with
        | .spilled payload sizeBytes =>
          some (w.putBack L C id c.key e payload sizeBytes spills)
        | .resident _ => none
      | .stored => none
  | .lookUp id => do
      let c ← w.calls.find id
      match c.phase with
      | .stored =>
        some ({ w with calls := w.calls.erase id },
          some ((w.store.entries.find c.key).elim .miss .entry))
      | .reading _ _ => none

/-- The worlds after actions that meet a condition. -/
inductive Run (L : StoreSettings) (C : Codec π)
    (ok : StoreWorld ι κ π → StoreAction ι κ π → Prop) : StoreWorld ι κ π → Prop where
  | start : Run L C ok {}
  | step {w w' : StoreWorld ι κ π} {a : StoreAction ι κ π} {found : Option (Found π)} :
      Run L C ok w → ok w a → w.step L C a = some (w', found) → Run L C ok w'

end StoreWorld

end WebGis.Compute
