/-
  `lib/data-plane/cache.ts`: collections by their references, the least recently used first, within
  a budget of bytes and of entries.

  An entry is written without a pin, so overwriting a pinned one gives it up (`overwrite_unpins`);
  and what is too large is not written, which leaves the older payload. As long as no such call is
  made, the cache keeps what it promises (`cache_kept`).
-/
import Mathlib.Data.Rat.Floor
import WebGis.Data.Evict
import WebGis.Data.Play

namespace WebGis.Workbench

open Data List Option Dict

variable {α : Type}

structure RefCacheEntry (α : Type) where
  fc : α
  etag : Option String
  bytes : Nat
  pinned : Bool
  fetchedAt : Int

/-- The entries, the least recently used first. Sizes are exact numbers. -/
structure RefDataCache (α : Type) where
  entries : Dict String (RefCacheEntry α)
  totalBytes : Int

namespace RefDataCache

def empty : RefDataCache α := ⟨.empty, 0⟩

def get (c : RefDataCache α) (key : String) : RefDataCache α :=
  match c.entries.find key with
  | none => c
  | some entry => { c with entries := c.entries.moveToEnd key entry }

def delete (c : RefDataCache α) (key : String) : RefDataCache α :=
  match c.entries.find key with
  | none => c
  | some entry =>
    { entries := c.entries.erase key, totalBytes := c.totalBytes - entry.bytes }

section Limits

variable (maxBytes maxEntries : Nat)

def within (c : RefDataCache α) : Bool :=
  c.totalBytes ≤ maxBytes && c.entries.items.length ≤ maxEntries

/-- What `evictLocked` does with one key. -/
def evictKey (just : String) (c : RefDataCache α) (key : String) : RefDataCache α :=
  if c.within maxBytes maxEntries ∨ key = just then c
  else if (c.entries.find key).any (!·.pinned) then c.delete key
  else c

def evictLocked (just : String) (c : RefDataCache α) : RefDataCache α :=
  c.entries.keys.foldl (evictKey maxBytes maxEntries just) c

def insert (c : RefDataCache α) (key : String) (entry : RefCacheEntry α) : RefDataCache α :=
  { entries := c.entries.set key entry, totalBytes := c.totalBytes + entry.bytes }

def set (c : RefDataCache α) (key : String) (fc : α) (etag : Option String) (bytes : Rat)
    (now : Int) : RefDataCache α :=
  if maxBytes < ⌊bytes⌋₊ then c
  else ((c.delete key).insert key ⟨fc, etag, ⌊bytes⌋₊, false, now⟩).evictLocked maxBytes
    maxEntries key

def setPinned (c : RefDataCache α) (key : String) (pinned : Bool) : RefDataCache α :=
  match c.entries.find key with
  | none => c
  | some entry =>
    let c := { c with entries := c.entries.set key { entry with pinned := pinned } }
    if pinned then c else c.evictLocked maxBytes maxEntries key

end Limits

end RefDataCache

/-! ## Eviction -/

section Evicts

variable {maxBytes maxEntries : Nat} {just key : String} {c c' c'' : RefDataCache α}

def Exact (c : RefDataCache α) : Prop := c.totalBytes = (Dict.total (·.bytes) c.entries : Nat)

/-- What eviction leaves is as it was, with the pinned entries and the one just written. -/
structure Evicts (just : String) (c c' : RefDataCache α) : Prop where
  exact : Exact c → Exact c'
  old : ∀ k e, c'.entries.find k = some e → c.entries.find k = some e
  kept : ∀ k e, c.entries.find k = some e → k = just ∨ e.pinned → c'.entries.find k = some e

theorem exact_delete (h : Exact c) : Exact (c.delete key) := by
  have hsum := total_erase (fun e : RefCacheEntry α => e.bytes) c.entries key
  unfold Exact at *
  rw [RefDataCache.delete]
  split
  · exact h
  rename_i entry hfind
  rw [hfind, elim_some] at hsum
  change c.totalBytes - entry.bytes = (Dict.total (·.bytes) (c.entries.erase key) : Nat)
  omega

theorem find_delete (c : RefDataCache α) (key k : String) :
    (c.delete key).entries.find k = if k = key then none else c.entries.find k := by
  rw [RefDataCache.delete]
  split
  · rename_i hnone
    split
    · rename_i hk
      rw [hk, hnone]
    · rfl
  · exact find_erase c.entries key k

theorem evicts_evictKey (just : String) (c : RefDataCache α) (key : String) :
    Evicts just c (c.evictKey maxBytes maxEntries just key) := by
  rw [RefDataCache.evictKey]
  split
  · exact ⟨id, fun _ _ h => h, fun _ _ h _ => h⟩
  split
  · rename_i hkey hfree
    refine ⟨exact_delete, ?_, ?_⟩
    · intro k e h
      rw [find_delete] at h
      exact (ite_none_left_eq_some.mp h).2
    · intro k e h hkeep
      rw [find_delete, if_neg, h]
      rintro rfl
      rw [h, any_some] at hfree
      rcases hkeep with hk | hpin
      · exact hkey (.inr hk)
      · rw [hpin] at hfree
        cases hfree
  · exact ⟨id, fun _ _ h => h, fun _ _ h _ => h⟩

theorem Evicts.trans (h : Evicts just c c') (h' : Evicts just c' c'') : Evicts just c c'' where
  exact := h'.exact ∘ h.exact
  old := fun k e hfind => h.old k e (h'.old k e hfind)
  kept := fun k e hfind hkeep => h'.kept k e (h.kept k e hfind hkeep) hkeep

/-- Within the limits, or what may go is among these keys. -/
def Left (maxBytes maxEntries : Nat) (just : String) (c : RefDataCache α) (ks : List String) :
    Prop :=
  c.within maxBytes maxEntries ∨
    ∀ k e, c.entries.find k = some e → k = just ∨ e.pinned ∨ k ∈ ks

theorem Left.limits (h : Left maxBytes maxEntries just c []) : c.within maxBytes maxEntries ∨
    ∀ k e, c.entries.find k = some e → k ≠ just → e.pinned :=
  h.imp_right fun hpins k e he hk =>
    ((hpins k e he).resolve_left hk).resolve_right not_mem_nil

theorem left_evictKey {ks : List String} (h : Left maxBytes maxEntries just c (key :: ks)) :
    Left maxBytes maxEntries just (c.evictKey maxBytes maxEntries just key) ks := by
  by_cases hin : c.within maxBytes maxEntries
  · rw [RefDataCache.evictKey, if_pos (.inl hin)]
    exact .inl hin
  · refine .inr fun k e hfind => ?_
    have hold := (evicts_evictKey just c key).old k e hfind
    rcases h.resolve_left hin k e hold with hk | hpin | hmem
    · exact .inl hk
    · exact .inr (.inl hpin)
    · rcases mem_cons.mp hmem with rfl | hmem
      · by_cases hk : k = just
        · exact .inl hk
        by_cases hpin : e.pinned
        · exact .inr (.inl hpin)
        · -- the key itself has been evicted
          rw [RefDataCache.evictKey, if_neg (not_or.mpr ⟨hin, hk⟩), hold, any_some,
            if_pos (by simpa using hpin), find_delete, if_pos rfl] at hfind
          cases hfind
      · exact .inr (.inr hmem)

theorem evict_foldl (ks : List String) (h : Left maxBytes maxEntries just c ks) :
    Evicts just c (ks.foldl (RefDataCache.evictKey maxBytes maxEntries just) c) ∧
      Left maxBytes maxEntries just
        (ks.foldl (RefDataCache.evictKey maxBytes maxEntries just) c) [] := by
  induction ks generalizing c with
  | nil => exact ⟨⟨id, fun _ _ h => h, fun _ _ h _ => h⟩, h⟩
  | cons key ks ih =>
    obtain ⟨hevicts, hleft⟩ := ih (left_evictKey h)
    exact ⟨(evicts_evictKey just c key).trans hevicts, hleft⟩

theorem evictLocked_spec (maxBytes maxEntries : Nat) (just : String) (c : RefDataCache α) :
    Evicts just c (c.evictLocked maxBytes maxEntries just) ∧
      Left maxBytes maxEntries just (c.evictLocked maxBytes maxEntries just) [] :=
  evict_foldl _ (.inr fun _ e hfind => .inr (.inr (mem_keys_iff.mpr ⟨e, hfind⟩)))

end Evicts

/-! ## Runs -/

inductive CacheAction (α : Type) where
  | set (key : String) (fc : α) (etag : Option String) (bytes : Rat) (now : Int)
  | get (key : String)
  | setPinned (key : String) (pinned : Bool)
  | delete (key : String)

/-- The cache, the keys pinned last, the payload last set under each key, and the key that the last
    call was about if it was a `set` or released a pin. -/
structure CacheWorld (α : Type) where
  cache : RefDataCache α
  pins : List String
  latest : String → Option α
  touched : Option String

section Runs

variable (maxBytes maxEntries : Nat)

def cacheStep (w : CacheWorld α) : CacheAction α → Option (CacheWorld α)
  | .set key fc etag bytes now => some {
      cache := w.cache.set maxBytes maxEntries key fc etag bytes now
      pins := w.pins
      latest := fun k => if k = key then some fc else w.latest k
      touched := some key }
  | .get key => some { w with cache := w.cache.get key, touched := none }
  | .setPinned key pinned => some (match w.cache.entries.find key with
    | none => { w with touched := none }
    | some _ => {
      cache := w.cache.setPinned maxBytes maxEntries key pinned
      pins := if pinned then key :: w.pins else w.pins.filter (· ≠ key)
      latest := w.latest
      touched := if pinned then none else some key })
  | .delete key => some {
      cache := w.cache.delete key
      pins := w.pins.filter (· ≠ key)
      latest := w.latest
      touched := none }

/-- No `set` is about a pinned key. One that is too large is about a key without an entry, with the
    limits kept or nothing left to evict. -/
def careful (w : CacheWorld α) : CacheAction α → Bool
  | .set key _ _ bytes _ =>
    if maxBytes < ⌊bytes⌋₊ then
      (w.cache.entries.find key).isNone &&
        (w.cache.within maxBytes maxEntries || w.cache.entries.items.all (·.2.pinned))
    else (w.cache.entries.find key).all (!·.pinned)
  | _ => true

/-- What the cache promises. -/
structure Kept (w : CacheWorld α) : Prop where
  exact : Exact w.cache
  pinned : ∀ k ∈ w.pins, ∃ e, w.cache.entries.find k = some e ∧ e.pinned
  latest : ∀ k e, w.cache.entries.find k = some e → w.latest k = some e.fc
  limits : ∀ key, w.touched = some key → w.cache.within maxBytes maxEntries ∨
    ∀ k e, w.cache.entries.find k = some e → k ≠ key → e.pinned

variable {maxBytes maxEntries} {w : CacheWorld α} {key : String}

section

variable (h : Kept maxBytes maxEntries w)
include h

theorem Kept.write {fc : α} {etag : Option String} {bytes : Rat}
    {now : Int} (hsmall : ¬ maxBytes < ⌊bytes⌋₊)
    (hfree : (w.cache.entries.find key).all (!·.pinned)) {w' : CacheWorld α}
    (hstep : cacheStep maxBytes maxEntries w (.set key fc etag bytes now) = some w') :
    Kept maxBytes maxEntries w' := by
  obtain rfl := some.inj hstep
  rw [RefDataCache.set, if_neg hsmall]
  set c := (w.cache.delete key).insert key ⟨fc, etag, ⌊bytes⌋₊, false, now⟩ with hc
  obtain ⟨hevicts, hleft⟩ := evictLocked_spec maxBytes maxEntries key c
  have hnone : (w.cache.delete key).entries.find key = none := by rw [find_delete, if_pos rfl]
  have hfind : ∀ k, k ≠ key → c.entries.find k = w.cache.entries.find k := by
    intro k hk
    rw [hc, RefDataCache.insert, find_set_ne _ _ (Ne.symm hk), find_delete, if_neg hk]
  refine ⟨hevicts.exact ?_, ?_, ?_, ?_⟩
  · have hexact : Exact (w.cache.delete key) := exact_delete h.exact
    have hsum := total_set_new (fun e : RefCacheEntry α => e.bytes) hnone
      ⟨fc, etag, ⌊bytes⌋₊, false, now⟩
    unfold Exact at *
    rw [hc, RefDataCache.insert, hexact, hsum]
    rfl
  · intro k hk
    obtain ⟨e, he, hpin⟩ := h.pinned k hk
    refine ⟨e, hevicts.kept k e ?_ (.inr hpin), hpin⟩
    rw [hfind k, he]
    rintro rfl
    rw [he, all_some, hpin] at hfree
    cases hfree
  · intro k e he
    have hold := hevicts.old k e he
    dsimp only
    split
    · rename_i hk
      rw [hc, hk, RefDataCache.insert, find_set_self] at hold
      exact congrArg (fun e => some e.fc) (some.inj hold)
    · rename_i hk
      exact h.latest k e (hfind k hk ▸ hold)
  · intro key' hkey
    obtain rfl := some.inj hkey
    exact hleft.limits

theorem Kept.pin {pinned : Bool} {w' : CacheWorld α}
    (hstep : cacheStep maxBytes maxEntries w (.setPinned key pinned) = some w') :
    Kept maxBytes maxEntries w' := by
  obtain rfl := some.inj hstep
  cases hentry : w.cache.entries.find key with
  | none => exact ⟨h.exact, h.pinned, h.latest, fun _ hkey => by cases hkey⟩
  | some entry =>
    rw [RefDataCache.setPinned, hentry]
    set d := w.cache.entries.set key { entry with pinned := pinned } with hd
    have hexact : Exact { w.cache with entries := d } := by
      have hsum := Dict.sum_set (fun e : RefCacheEntry α => e.bytes) hentry
        { entry with pinned := pinned }
      exact h.exact.trans (congrArg Nat.cast (Nat.add_right_cancel hsum).symm)
    have hlatest : ∀ k e, d.find k = some e → w.latest k = some e.fc := by
      intro k e he
      rw [hd, find_set] at he
      split at he
      · rename_i hk
        obtain rfl := some.inj he
        exact h.latest k entry (hk ▸ hentry)
      · exact h.latest k e he
    have hpinned : ∀ k ∈ w.pins, k ≠ key → ∃ e, d.find k = some e ∧ e.pinned := by
      intro k hk hne
      rw [hd, find_set_ne _ _ (Ne.symm hne)]
      exact h.pinned k hk
    cases pinned with
    | true =>
      refine ⟨hexact, ?_, hlatest, fun _ hkey => by cases hkey⟩
      intro k hk
      by_cases hkey : k = key
      · exact ⟨_, by rw [hkey]; exact find_set_self _ _ _, rfl⟩
      · exact hpinned k ((mem_cons.mp hk).resolve_left hkey) hkey
    | false =>
      obtain ⟨hevicts, hleft⟩ :=
        evictLocked_spec maxBytes maxEntries key { w.cache with entries := d }
      refine ⟨hevicts.exact hexact, ?_, fun k e he => hlatest k e (hevicts.old k e he), ?_⟩
      · intro k hk
        obtain ⟨hk, hne⟩ := mem_filter.mp hk
        obtain ⟨e, he, hpin⟩ := hpinned k hk (by simpa using hne)
        exact ⟨e, hevicts.kept k e he (.inr hpin), hpin⟩
      · intro key' hkey
        obtain rfl := some.inj hkey
        exact hleft.limits

theorem Kept.step {a : CacheAction α} {w' : CacheWorld α}
    (hcareful : careful maxBytes maxEntries w a)
    (hstep : cacheStep maxBytes maxEntries w a = some w') : Kept maxBytes maxEntries w' := by
  cases a with
  | set key fc etag bytes now =>
    rw [careful] at hcareful
    split at hcareful
    · rename_i hlarge
      rw [Bool.and_eq_true, isNone_iff_eq_none, Bool.or_eq_true, List.all_eq_true]
        at hcareful
      obtain rfl := some.inj hstep
      rw [RefDataCache.set, if_pos hlarge]
      refine ⟨h.exact, h.pinned, ?_, ?_⟩
      · intro k e he
        dsimp only
        rw [if_neg, h.latest k e he]
        rintro rfl
        rw [hcareful.1] at he
        cases he
      · intro key' _
        exact hcareful.2.imp_right fun hall k e he _ => hall (k, e) (find_eq_some.mp he)
    · exact h.write ‹_› hcareful hstep
  | get key =>
    obtain rfl := some.inj hstep
    rw [RefDataCache.get]
    split
    · exact ⟨h.exact, h.pinned, h.latest, fun _ hkey => by cases hkey⟩
    rename_i entry hentry
    have hfind := find_moveToEnd hentry
    have hsum := total_moveToEnd (fun e : RefCacheEntry α => e.bytes) w.cache.entries key
      entry
    rw [hentry, elim_some] at hsum
    refine ⟨h.exact.trans (congrArg Nat.cast (Nat.add_right_cancel hsum).symm), ?_, ?_, fun _ hkey => by cases hkey⟩
    · intro k hk
      obtain ⟨e, he, hpin⟩ := h.pinned k hk
      exact ⟨e, (hfind k).trans he, hpin⟩
    · intro k e he
      exact h.latest k e ((hfind k).symm.trans he)
  | setPinned key pinned => exact h.pin hstep
  | delete key =>
    obtain rfl := some.inj hstep
    refine ⟨exact_delete h.exact, ?_, ?_, fun _ hkey => by cases hkey⟩
    · intro k hk
      obtain ⟨hk, hne⟩ := mem_filter.mp hk
      obtain ⟨e, he, hpin⟩ := h.pinned k hk
      exact ⟨e, by rw [find_delete, if_neg (by simpa using hne), he], hpin⟩
    · intro k e he
      rw [find_delete] at he
      exact h.latest k e (ite_none_left_eq_some.mp he).2

end

end Runs

def emptyWorld : CacheWorld α := ⟨.empty, [], fun _ => none, none⟩

theorem kept_empty {maxBytes maxEntries : Nat} :
    Kept maxBytes maxEntries (emptyWorld : CacheWorld α) where
  exact := rfl
  pinned := fun _ hk => by cases hk
  latest := fun _ _ he => by cases he
  limits := fun _ hkey => by cases hkey

theorem cache_kept {maxBytes maxEntries : Nat} {w : CacheWorld α}
    (hrun : Relation.ReflTransGen (Step (cacheStep maxBytes maxEntries)
      (careful maxBytes maxEntries)) emptyWorld w) : Kept maxBytes maxEntries w :=
  run_induction (fun h hcareful hstep => h.step hcareful hstep) kept_empty hrun

/-- A pinned entry stays when another takes the last place. -/
theorem cache_kept_pinned : ∃ w : CacheWorld Nat, Kept 10 1 w ∧ w.pins = ["a"] := by
  obtain ⟨w, hw⟩ : ∃ w, play (cacheStep 10 1) (careful 10 1) (emptyWorld : CacheWorld Nat)
      [.set "a" 1 none 4 0, .setPinned "a" true, .set "b" 2 none 4 1] = some w := ⟨_, rfl⟩
  have hpins : w.pins = ["a"] := by
    obtain rfl := some.inj hw
    rfl
  exact ⟨w, cache_kept (run_of_play hw), hpins⟩

/-- Overwritten, the pinned entry is not pinned any more and is evicted for the next one. -/
theorem overwrite_unpins : ¬ ∀ (maxBytes maxEntries : Nat) (w : CacheWorld Nat),
    Relation.ReflTransGen (Step (cacheStep maxBytes maxEntries) fun _ _ => true) emptyWorld w →
      Kept maxBytes maxEntries w := by
  intro h
  obtain ⟨w, hw⟩ : ∃ w, play (cacheStep 10 1) (fun _ _ => true) (emptyWorld : CacheWorld Nat)
      [.set "a" 1 none 4 0, .setPinned "a" true, .set "a" 2 none 4 1, .set "b" 3 none 4 2] =
        some w := ⟨_, rfl⟩
  obtain ⟨e, he, -⟩ := (h 10 1 w (run_of_play hw)).pinned "a" (by
    obtain rfl := some.inj hw
    exact mem_singleton_self "a")
  obtain rfl := some.inj hw
  cases he

end WebGis.Workbench
