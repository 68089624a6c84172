/-
  The cache of spatial indexes, and the builds that its callers share.

  A world has the cache under its lock, the flights of the single-flight under theirs, and every
  call of `get_or_build` with the place where it stands. An action is one locked section, or the
  beginning or the end of a build. The clock counts the actions; an entry remembers when its build
  began and a call when its key was last invalidated before it.

  The books of the cache: its total of bytes, its bounds, and the epochs of its keys.
-/
import WebGis.Data.Dict
import WebGis.Data.Entries

namespace WebGis.Tiles

open Data List Dict

/-- The session and the reference. -/
abbrev CacheKey : Type := String × String

/-- A spatial index, with the instant at which its build began. -/
structure IndexEntry where
  key : CacheKey
  estimatedBytes : Nat
  built : Nat
  deriving DecidableEq

/-- The bounds of a cache. -/
structure Bounds where
  maxRefs : Nat := 256
  maxBytes : Nat := 256 * 1024 * 1024
  maxEntryBytes : Nat := 64 * 1024 * 1024

/-- `_max_entry_bytes` -/
def Bounds.entryBytes (L : Bounds) : Nat := min L.maxEntryBytes L.maxBytes

/-! ## The cache -/

/-- What the lock of the cache guards; the entry used longest ago comes first. -/
structure Cache where
  entries : Dict CacheKey IndexEntry := Dict.empty
  totalBytes : Int := 0
  epochs : Dict CacheKey (Nat × Rat) := Dict.empty
  globalGen : Nat := 0
  building : Dict CacheKey Nat := Dict.empty

/-- `d` without a key. -/
def without {ν : Type} (d : Dict CacheKey ν) (key : CacheKey) : Dict CacheKey ν :=
  Table.delete d fun kv => kv.1 = key

namespace Cache

/-- The epoch that a call captures. -/
def epoch (c : Cache) (key : CacheKey) : Nat × Nat :=
  (c.globalGen, ((c.epochs.find key).map Prod.fst).getD 0)

/-- `self._entries.move_to_end(key)` -/
def touch (c : Cache) (key : CacheKey) (e : IndexEntry) : Cache :=
  { c with entries := (without c.entries key).set key e }

/-- `self._building[key] += 1` -/
def enter (c : Cache) (key : CacheKey) : Cache :=
  { c with building := c.building.set key (c.building.getD key 0 + 1) }

/-- `self._building[key] -= 1`, and none of a key is not written. -/
def leave (c : Cache) (key : CacheKey) : Cache :=
  let n := c.building.getD key 0 - 1
  { c with building := if n = 0 then without c.building key else c.building.set key n }

/-- `_EPOCH_PRUNE_GRACE_S` -/
def pruneGrace : Rat := 60

/-- `_prune_epochs_locked` -/
def pruneEpochs (L : Bounds) (c : Cache) (now : Rat) : Cache :=
  let old := fun kv : CacheKey × Nat × Rat =>
    (c.entries.find kv.1).isNone && (c.building.find kv.1).isNone &&
      decide (pruneGrace ≤ now - kv.2.2)
  if c.epochs.items.length ≤ L.maxRefs * 4 then c
  else { c with epochs := Table.delete c.epochs old }

/-- The eviction loop. -/
def evict (L : Bounds) : Nat → Dict CacheKey IndexEntry → Int → Dict CacheKey IndexEntry × Int
  | 0, entries, total => (entries, total)
  | fuel + 1, entries, total =>
    match entries.items with
    | [] => (entries, total)
    | (_, e) :: _ =>
      if L.maxRefs < entries.items.length ∨ (L.maxBytes : Int) < total then
        evict L fuel (entries.drop 1) (total - e.estimatedBytes)
      else (entries, total)

/-- An entry of a key that has none. -/
def insert (L : Bounds) (c : Cache) (key : CacheKey) (e : IndexEntry) (now : Rat) : Cache :=
  let c := pruneEpochs L { c with entries := c.entries.set key e } now
  let (entries, total) :=
    evict L c.entries.items.length c.entries (c.totalBytes + e.estimatedBytes)
  { c with entries := entries, totalBytes := total }

/-- The last section of `get_or_build`: what it returns, `none` when it raises. -/
def settle (L : Bounds) (c : Cache) (key : CacheKey) (captured : Nat × Nat) (e : IndexEntry)
    (now : Rat) : Option IndexEntry × Cache :=
  let c := c.leave key
  if c.epoch key ≠ captured then (none, pruneEpochs L c now)
  else
    match c.entries.find key with
    | some existing => (some existing, c)
    | none =>
      if L.entryBytes < e.estimatedBytes then (some e, c)
      else (some e, c.insert L key e now)

/-- An entry leaves the cache. -/
def drop (c : Cache) (key : CacheKey) : Cache :=
  match c.entries.find key with
  | some e =>
    { c with entries := without c.entries key, totalBytes := c.totalBytes - e.estimatedBytes }
  | none => c

/-- The epoch of a key goes up. -/
def bump (c : Cache) (key : CacheKey) (now : Rat) : Cache :=
  { c with epochs := c.epochs.set key (((c.epochs.find key).map Prod.fst).getD 0 + 1, now) }

def invalidateRef (c : Cache) (key : CacheKey) (now : Rat) : Cache := (c.bump key now).drop key

/-- The keys of the session that are known. -/
def affected (c : Cache) (sid : String) : List CacheKey :=
  ((c.epochs.keys ++ c.entries.keys ++ c.building.keys).filter fun key => key.1 = sid).dedup

def invalidateSession (c : Cache) (sid : String) (now : Rat) : Cache :=
  let removed := c.entries.keys.filter fun key => key.1 = sid
  removed.foldl drop ((c.affected sid).foldl (fun c key => c.bump key now) c)

def clear (c : Cache) : Cache :=
  { c with
    entries := Dict.empty
    totalBytes := 0
    epochs := Dict.empty
    globalGen := c.globalGen + 1 }

end Cache

/-! ## Calls -/

/-- Where a call of `get_or_build` stands. -/
inductive Phase where
  /-- The epoch is captured. -/
  | captured
  /-- A build of its own is to begin; as the leader of a flight or directly. -/
  | idle (leader : Bool)
  /-- The build runs. -/
  | building (leader : Bool) (since : Nat)
  /-- The leader's build has ended, and its flight is still registered. -/
  | landed (since : Nat) (result : Option IndexEntry)
  /-- The call waits for the flight of another. -/
  | waiting (leader : Nat)
  /-- The single-flight has returned, or raised. -/
  | ready (result : Option IndexEntry)
  | over
  deriving DecidableEq

/-- A call; `shared` is what its flight has for those who wait, once it is done. -/
structure Call where
  key : CacheKey
  floor : Nat
  captured : Nat × Nat
  phase : Phase
  shared : Option (Option IndexEntry) := none

/-- The cache, the single-flight and the calls. -/
structure World where
  cache : Cache := {}
  inflight : Dict CacheKey Nat := Dict.empty
  calls : Dict Nat Call := Dict.empty
  clock : Nat := 1
  invalidated : CacheKey → Nat := fun _ => 0

/-- `max_inflight` of the single-flight -/
def maxInflight : Nat := 128

inductive Action where
  /-- The first section of `get_or_build`. -/
  | call (id : Nat) (key : CacheKey)
  /-- The first section of `SingleFlight.run`. -/
  | enter (id : Nat)
  | start (id : Nat)
  /-- The builder ends, with the size of its entry or an exception. -/
  | finish (id : Nat) (bytes : Option Nat)
  /-- The leader takes its flight back and wakes those who wait. -/
  | publish (id : Nat)
  | wake (id : Nat)
  | timeout (id : Nat)
  /-- The last section of `get_or_build`. -/
  | settle (id : Nat) (now : Rat)
  | invalidateRef (key : CacheKey) (now : Rat)
  | invalidateSession (sid : String) (now : Rat)
  | clear

namespace World

def put (w : World) (id : Nat) (c : Call) : World := { w with calls := w.calls.set id c }

/-- The keys are invalidated now. -/
def invalidate (w : World) (cache : Cache) (keys : CacheKey → Bool) : World :=
  { w with
    cache := cache
    invalidated := fun key => if keys key then w.clock else w.invalidated key }

/-- What an action does, and the call that returns an entry by it. -/
def act (L : Bounds) (w : World) : Action → Option (World × Option (Nat × IndexEntry))
  | .call id key =>
    match w.calls.find id with
    | some _ => none
    | none =>
      let c : Call := {
        key := key
        floor := w.invalidated key
        captured := w.cache.epoch key
        phase := .captured }
      match w.cache.entries.find key with
      | some e =>
        some ({ w with cache := w.cache.touch key e }.put id { c with phase := .over },
          some (id, e))
      | none => some ({ w with cache := w.cache.enter key }.put id c, none)
  | .enter id => do
      let c ← w.calls.find id
      match c.phase with
      | .captured =>
        match w.inflight.find c.key with
        | some leader => some (w.put id { c with phase := .waiting leader }, none)
        | none =>
          if maxInflight ≤ w.inflight.items.length then
            some (w.put id { c with phase := .idle false }, none)
          else some ({ w with inflight := w.inflight.set c.key id }.put id
            { c with phase := .idle true }, none)
      | _ => none
  | .start id => do
      let c ← w.calls.find id
      match c.phase with
      | .idle leader => some (w.put id { c with phase := .building leader w.clock }, none)
      | _ => none
  | .finish id bytes => do
      let c ← w.calls.find id
      match c.phase with
      | .building leader since =>
        let result := bytes.map fun n =>
          ({ key := c.key, estimatedBytes := n, built := since } : IndexEntry)
        if leader then some (w.put id { c with phase := .landed since result }, none)
        else some (w.put id { c with phase := .ready result }, none)
      | _ => none
  | .publish id => do
      let c ← w.calls.find id
      match c.phase with
      | .landed _ result =>
        some ({ w with inflight := without w.inflight c.key }.put id
          { c with phase := .ready result, shared := some result }, none)
      | _ => none
  | .wake id => do
      let c ← w.calls.find id
      match c.phase with
      | .waiting leader => do
          let l ← w.calls.find leader
          let result ← l.shared
          some (w.put id { c with phase := .ready result }, none)
      | _ => none
  | .timeout id => do
      let c ← w.calls.find id
      match c.phase with
      | .waiting leader => do
          let l ← w.calls.find leader
          if l.shared.isSome then none
          else some (w.put id { c with phase := .idle false }, none)
      | _ => none
  | .settle id now => do
      let c ← w.calls.find id
      match c.phase with
      | .ready none => some ({ w with cache := w.cache.leave c.key }.put id
          { c with phase := .over }, none)
      | .ready (some e) =>
        let (returned, cache) := w.cache.settle L c.key c.captured e now
        some ({ w with cache := cache }.put id { c with phase := .over },
          returned.map fun e => (id, e))
      | _ => none
  | .invalidateRef key now =>
    some (w.invalidate (w.cache.invalidateRef key now) fun k => k = key, none)
  | .invalidateSession sid now =>
    some (w.invalidate (w.cache.invalidateSession sid now) fun k => k.1 = sid, none)
  | .clear => some (w.invalidate w.cache.clear fun _ => true, none)

/-- One action, and the clock goes on. -/
def step (L : Bounds) (w : World) (a : Action) : Option (World × Option (Nat × IndexEntry)) :=
  (w.act L a).map fun (w', returned) => ({ w' with clock := w'.clock + 1 }, returned)

end World

/-- The total is the sum over the entries, and both bounds hold. -/
structure Booked (L : Bounds) (c : Cache) : Prop where
  total : c.totalBytes = (Dict.total IndexEntry.estimatedBytes c.entries : Int)
  refs : c.entries.items.length ≤ L.maxRefs
  bytes : c.totalBytes ≤ L.maxBytes

namespace Cache

variable {L : Bounds} {c : Cache} {key : CacheKey} {e : IndexEntry} {now : Rat}

/-! ## Entries -/

theorem find_touch (h : c.entries.find key = some e) (k : CacheKey) :
    (c.touch key e).entries.find k = c.entries.find k := by
  change ((without c.entries key).set key e).find k = _
  rw [find_set]
  split
  · rename_i hk
    rw [← hk, h]
  · rename_i hk
    exact Dict.find_delete_ne c.entries (Ne.symm hk)

theorem booked_touch (hb : Booked L c) (h : c.entries.find key = some e) :
    Booked L (c.touch key e) := by
  have hnone : (without c.entries key).find key = none := Dict.find_delete_self c.entries key
  have htotal := total_delete IndexEntry.estimatedBytes h
  have hlength := length_delete h
  refine ⟨?_, ?_, hb.bytes⟩
  · change c.totalBytes = ((Dict.total _ ((without c.entries key).set key e) : Nat) : Int)
    rw [total_set_new _ hnone, hb.total]
    exact congrArg Nat.cast htotal.symm
  · change ((without c.entries key).set key e).items.length ≤ _
    rw [length_set_new hnone]
    exact hlength.le.trans hb.refs

theorem find_drop (c : Cache) (key k : CacheKey) :
    (c.drop key).entries.find k = if k = key then none else c.entries.find k := by
  unfold drop
  by_cases hk : k = key
  · rw [if_pos hk, hk]
    cases h : c.entries.find key with
    | none => exact h
    | some e => exact Dict.find_delete_self c.entries key
  · rw [if_neg hk]
    cases c.entries.find key with
    | none => rfl
    | some e => exact Dict.find_delete_ne c.entries hk

theorem booked_drop (hb : Booked L c) : Booked L (c.drop key) := by
  unfold drop
  cases h : c.entries.find key with
  | none => exact hb
  | some e =>
    have htotal := total_delete IndexEntry.estimatedBytes h
    have hlength := length_delete h
    have hsum := hb.total
    have hrefs := hb.refs
    have hbytes := hb.bytes
    refine ⟨?_, ?_, ?_⟩
    · change c.totalBytes - (e.estimatedBytes : Int) = _
      change _ = ((Dict.total IndexEntry.estimatedBytes
        (Table.delete c.entries fun kv => kv.1 = key) : Nat) : Int)
      omega
    · change (Dict.items (Table.delete c.entries fun kv => kv.1 = key)).length ≤ _
      omega
    · change c.totalBytes - (e.estimatedBytes : Int) ≤ _
      omega

theorem evict_spec (fuel : Nat) (entries : Dict CacheKey IndexEntry)
    (hfuel : entries.items.length ≤ fuel) :
    let r := evict L fuel entries (Dict.total IndexEntry.estimatedBytes entries : Nat)
    r.2 = (Dict.total IndexEntry.estimatedBytes r.1 : Int) ∧ r.1.items.length ≤ L.maxRefs ∧
      r.2 ≤ L.maxBytes ∧ ∀ k e, r.1.find k = some e → entries.find k = some e := by
  induction fuel generalizing entries with
  | zero =>
    have hempty : entries.items = [] := eq_nil_of_length_eq_zero (by omega)
    have hzero : Dict.total IndexEntry.estimatedBytes entries = 0 := by
      unfold Dict.total
      rw [hempty]
      rfl
    dsimp only [evict]
    rw [hzero, hempty]
    exact ⟨rfl, Nat.zero_le _, Int.natCast_nonneg _, fun _ _ h => h⟩
  | succ fuel ih =>
    dsimp only
    unfold evict
    cases hitems : entries.items with
    | nil =>
      have hzero : Dict.total IndexEntry.estimatedBytes entries = 0 := by
        unfold Dict.total
        rw [hitems]
        rfl
      rw [hzero, hitems]
      exact ⟨rfl, Nat.zero_le _, Int.natCast_nonneg _, fun _ _ h => h⟩
    | cons kv rest =>
      obtain ⟨k, e⟩ := kv
      dsimp only
      rw [← hitems]
      have hdrop : (entries.drop 1).items = rest := by
        change entries.items.drop 1 = rest
        rw [hitems]
        rfl
      have htotal : (Dict.total IndexEntry.estimatedBytes entries : Int) - e.estimatedBytes =
          (Dict.total IndexEntry.estimatedBytes (entries.drop 1) : Nat) := by
        unfold Dict.total
        rw [hdrop, hitems, map_cons, sum_cons]
        dsimp only
        omega
      split
      · rw [htotal]
        have hlen : (entries.drop 1).items.length ≤ fuel := by
          rw [hitems, length_cons] at hfuel
          rw [hdrop]
          omega
        obtain ⟨hsum, hrefs, hbytes, hsub⟩ := ih (entries.drop 1) hlen
        exact ⟨hsum, hrefs, hbytes, fun k e h => find_drop_one (hsub k e h)⟩
      · rename_i hbound
        rw [not_or, not_lt, not_lt] at hbound
        exact ⟨rfl, hbound.1, hbound.2, fun _ _ h => h⟩

theorem pruneEpochs_entries (c : Cache) : (pruneEpochs L c now).entries = c.entries := by
  unfold pruneEpochs
  split <;> rfl

theorem pruneEpochs_totalBytes (c : Cache) : (pruneEpochs L c now).totalBytes = c.totalBytes := by
  unfold pruneEpochs
  split <;> rfl

theorem pruneEpochs_building (c : Cache) : (pruneEpochs L c now).building = c.building := by
  unfold pruneEpochs
  split <;> rfl

variable (e now) in
theorem insert_spec (hb : Booked L c) (h : c.entries.find key = none) :
    Booked L (c.insert L key e now) ∧ ∀ k e', (c.insert L key e now).entries.find k = some e' →
      (k = key ∧ e' = e) ∨ c.entries.find k = some e' := by
  have hsum : c.totalBytes + (e.estimatedBytes : Int) =
      (Dict.total IndexEntry.estimatedBytes (c.entries.set key e) : Nat) := by
    rw [total_set_new _ h, hb.total]
    omega
  obtain ⟨htotal, hrefs, hbytes, hsub⟩ := evict_spec (L := L) _ (c.entries.set key e) le_rfl
  rw [← hsum] at htotal hrefs hbytes hsub
  unfold insert
  dsimp only
  rw [pruneEpochs_entries, pruneEpochs_totalBytes]
  refine ⟨⟨htotal, hrefs, hbytes⟩, fun k e' he' => ?_⟩
  have hfind := hsub k e' he'
  rw [find_set] at hfind
  split at hfind
  · rename_i hk
    exact .inl ⟨hk.symm, (Option.some.inj hfind).symm⟩
  · exact .inr hfind

/-! ## Epochs -/

theorem epoch_of_epochs {c c' : Cache} (hgen : c'.globalGen = c.globalGen)
    (hepochs : c'.epochs.find key = c.epochs.find key) : c'.epoch key = c.epoch key := by
  unfold epoch
  rw [hgen, hepochs]

variable (L now) in
theorem epoch_pruneEpochs (c : Cache) (h : c.building.find key ≠ none) :
    (pruneEpochs L c now).epoch key = c.epoch key := by
  unfold pruneEpochs
  split
  · rfl
  refine epoch_of_epochs rfl ?_
  rw [Dict.find_delete]
  have hsome : (c.building.find key).isNone = false := by
    cases hk : c.building.find key with
    | none => exact absurd hk h
    | some n => rfl
  cases c.epochs.find key with
  | none => rfl
  | some v => simp [Option.filter, hsome]

theorem epoch_insert (h : c.building.find key ≠ none) (k : CacheKey) (e : IndexEntry) :
    (c.insert L k e now).epoch key = c.epoch key := by
  exact epoch_pruneEpochs L now { c with entries := c.entries.set k e } h

theorem insert_building (k : CacheKey) (e : IndexEntry) :
    (c.insert L k e now).building = c.building := by
  unfold insert
  rw [pruneEpochs_building]

theorem epoch_drop (c : Cache) (key k : CacheKey) : (c.drop key).epoch k = c.epoch k := by
  unfold drop
  cases c.entries.find key <;> rfl

theorem drop_building (c : Cache) (key : CacheKey) : (c.drop key).building = c.building := by
  unfold drop
  cases c.entries.find key <;> rfl

theorem epoch_bump_self (c : Cache) (key : CacheKey) (now : Rat) :
    (c.bump key now).epoch key = (c.globalGen, (c.epoch key).2 + 1) := by
  unfold epoch bump
  rw [find_set_self]
  rfl

theorem epoch_bump_ne (c : Cache) {key k : CacheKey} (h : k ≠ key) (now : Rat) :
    (c.bump key now).epoch k = c.epoch k := by
  refine epoch_of_epochs rfl ?_
  exact find_set_ne c.epochs _ (Ne.symm h)

/-! ## Many keys -/

theorem bumps_fields (keys : List CacheKey) (c : Cache) (now : Rat) :
    let c' := keys.foldl (fun c key => c.bump key now) c
    c'.entries = c.entries ∧ c'.totalBytes = c.totalBytes ∧ c'.building = c.building ∧
      c'.globalGen = c.globalGen := by
  induction keys generalizing c with
  | nil => exact ⟨rfl, rfl, rfl, rfl⟩
  | cons key keys ih => exact ih (c.bump key now)

theorem epoch_bumps (keys : List CacheKey) (c : Cache) (now : Rat) (k : CacheKey) :
    let c' := keys.foldl (fun c key => c.bump key now) c
    (c.epoch k).2 ≤ (c'.epoch k).2 ∧ (k ∈ keys → (c.epoch k).2 < (c'.epoch k).2) ∧
      (k ∉ keys → c'.epoch k = c.epoch k) := by
  induction keys generalizing c with
  | nil => exact ⟨le_rfl, fun h => absurd h not_mem_nil, fun _ => rfl⟩
  | cons key keys ih =>
    obtain ⟨hle, hlt, heq⟩ := ih (c.bump key now)
    dsimp only [foldl_cons] at hle hlt heq ⊢
    by_cases hk : k = key
    · subst hk
      have hself := congrArg Prod.snd (epoch_bump_self c k now)
      exact ⟨by omega, fun _ => by omega, fun h => absurd mem_cons_self h⟩
    · have hne := epoch_bump_ne c hk now
      rw [hne] at hle hlt heq
      refine ⟨hle, fun h => hlt ((mem_cons.mp h).resolve_left hk), fun h => heq fun hmem => ?_⟩
      exact h (mem_cons_of_mem key hmem)

theorem drops_fields (keys : List CacheKey) (c : Cache) :
    let c' := keys.foldl drop c
    (∀ k, c'.epoch k = c.epoch k) ∧ c'.building = c.building ∧
      (∀ k, c'.entries.find k = if k ∈ keys then none else c.entries.find k) ∧
      (Booked L c → Booked L c') := by
  induction keys generalizing c with
  | nil => exact ⟨fun _ => rfl, rfl, fun k => by simp, id⟩
  | cons key keys ih =>
    obtain ⟨hepoch, hbuilding, hfind, hbooked⟩ := ih (c.drop key)
    dsimp only [foldl_cons] at hepoch hbuilding hfind hbooked ⊢
    refine ⟨fun k => (hepoch k).trans (epoch_drop c key k), hbuilding.trans (drop_building c key),
      fun k => ?_, fun hb => hbooked (booked_drop hb)⟩
    rw [hfind, find_drop]
    by_cases hk : k = key
    · simp [hk]
    · simp [hk]

end Cache

end WebGis.Tiles
