/-
  The accounts of the result store over any order of puts and gets.

  A `get` that reads the exchange and puts the payload back does not look at what has happened to
  the key since. `Undisturbed` says that nothing has: no put of the key was done in between, and
  where the payload is too large and does not go to the exchange again, the key has no entry that
  counts. In a run of such actions the total is right, both limits hold, and the number of an
  entry does not go down (`undisturbed_kept`).
-/
import WebGis.Compute.ResultStore

namespace WebGis.Compute

open Data List Option Dict NodeResultStore StoreEntry StoreWorld

/-! ## The last put of a key -/

section

variable {κ : Type}

/-- Put number `n` is one of the key, and there is none of it afterwards. -/
structure LastPut (puts : List κ) (key : κ) (n : Nat) : Prop where
  put : puts[n]? = some key
  last : key ∉ puts.drop (n + 1)

namespace LastPut

variable {puts rest : List κ} {key : κ} {n m : Nat}

theorem lt (h : LastPut puts key n) : n < puts.length := (List.getElem?_eq_some_iff.mp h.put).1

theorem unique (h : LastPut puts key n) (h' : LastPut puts key m) : n = m := by
  have hle : ∀ {n m : Nat}, LastPut puts key n → LastPut puts key m → m ≤ n := by
    intro n m h h'
    by_contra hlt
    refine h.last (mem_of_getElem? (i := m - (n + 1)) ?_)
    rw [getElem?_drop]
    have hm : n + 1 + (m - (n + 1)) = m := by omega
    rw [hm]
    exact h'.put
  exact le_antisymm (hle h' h) (hle h h')

theorem append (h : LastPut puts key n) (hrest : key ∉ rest) : LastPut (puts ++ rest) key n := by
  have hlt := h.lt
  refine ⟨?_, ?_⟩
  · rw [getElem?_append_left hlt]
    exact h.put
  · rw [drop_append_of_le_length (by omega), mem_append]
    exact fun hmem => hmem.elim h.last hrest

theorem self (puts : List κ) (key : κ) : LastPut (puts ++ [key]) key puts.length := by
  refine ⟨getElem?_concat_length, ?_⟩
  rw [drop_eq_nil_of_le (by simp)]
  exact not_mem_nil

end LastPut

end

variable {ι κ π : Type} [DecidableEq ι] [DecidableEq κ] {L : StoreSettings} {C : Codec π}

/-! ## The total and the limits -/

/-- The total is the sum of the recorded sizes, and both limits hold. -/
structure Accounted (L : StoreSettings) (s : NodeResultStore κ π) : Prop where
  total : s.bytes = (Dict.total size s.entries : Int)
  entries : s.entries.items.length ≤ L.maxEntries
  bytes : s.bytes ≤ L.maxBytes

section

variable {s : NodeResultStore κ π} {key : κ} {e : StoreEntry π}

theorem accounted_replace (h : Accounted L s) : Accounted L (s.replace L key e) := by
  have hmoved := total_moveToEnd size s.entries key e
  have htotal : s.bytes - ((s.entries.find key).elim 0 size : Nat) + e.size =
      (Dict.total size (s.entries.moveToEnd key e) : Nat) := by
    rw [h.total]
    omega
  have hevicted : Dict.Evicted size L.maxEntries L.maxBytes
      ((s.replace L key e).entries, (s.replace L key e).bytes) := by
    unfold NodeResultStore.replace
    dsimp only
    rw [htotal]
    exact evicted_evict _ _ le_rfl
  obtain ⟨htotal, hlength, hbounded⟩ := hevicted
  exact ⟨htotal, hlength, hbounded⟩

theorem accounted_touch (h : Accounted L s) (hfind : s.entries.find key = some e) :
    Accounted L { s with entries := s.entries.moveToEnd key e } := by
  have hmoved := total_moveToEnd size s.entries key e
  rw [hfind, elim_some] at hmoved
  have htotal := h.total
  refine ⟨?_, ?_, h.bytes⟩
  · change s.bytes = (Dict.total size (s.entries.moveToEnd key e) : Nat)
    omega
  · change (s.entries.moveToEnd key e).items.length ≤ L.maxEntries
    rw [length_moveToEnd hfind]
    exact h.entries

theorem accounted_pop (h : Accounted L s)
    (hfree : ∀ old, s.entries.find key = some old → old.size = 0) : Accounted L (s.pop key) := by
  have herase := total_erase size s.entries key
  have hzero : (s.entries.find key).elim 0 size = 0 := by
    cases hfind : s.entries.find key with
    | none => rfl
    | some old => exact hfree old hfind
  have htotal := h.total
  refine ⟨?_, (Dict.length_erase_le s.entries key).trans h.entries, h.bytes⟩
  change s.bytes = (Dict.total size (s.entries.erase key) : Nat)
  omega

end

/-! ## Runs -/

/-- What holds of a world whose gets were undisturbed. -/
structure Sound (L : StoreSettings) (w : StoreWorld ι κ π) : Prop where
  accounted : Accounted L w.store
  numbered : ∀ key e, w.store.entries.find key = some e → LastPut w.puts key e.number
  reads : ∀ id c e since, w.calls.find id = some c → c.phase = .reading e since →
    since ≤ w.puts.length ∧ LastPut (w.puts.take since) c.key e.number

/-- What an action makes of the store: the accounts are right, and no entry gives place to one of
    an older put. -/
structure Kept (L : StoreSettings) (w w' : StoreWorld ι κ π) : Prop where
  accounted : Accounted L w'.store
  newest : ∀ key e e', w.store.entries.find key = some e → w'.store.entries.find key = some e' →
    e.number ≤ e'.number

/-- Nothing has happened to a key whose payload comes back: no put of it was done since the stub
    was read, and no entry that counts is dropped. -/
def Undisturbed (L : StoreSettings) (C : Codec π) (w : StoreWorld ι κ π) : StoreAction ι κ π → Prop
  | .putBack id spills => ∀ c e since payload sizeBytes, w.calls.find id = some c →
      c.phase = .reading e since → e.body = .spilled payload sizeBytes →
      let size := rereadSize L C (C.clean (C.reread payload)) sizeBytes
      if L.maxBytes < size ∧ (L.exchange && spills) = false then
        ∀ old, w.store.entries.find c.key = some old → old.size = 0
      else c.key ∉ w.puts.drop since
  | _ => True

section

variable {w w' : StoreWorld ι κ π} {a : StoreAction ι κ π} {found : Option (Found π)}

section

variable (hs : Sound L w)
include hs

theorem newest_of_numbered (h : ∀ key e', w'.store.entries.find key = some e' →
      w.store.entries.find key = some e' ∨ w.puts.length ≤ e'.number ∨
        LastPut w.puts key e'.number) :
    ∀ key e e', w.store.entries.find key = some e → w'.store.entries.find key = some e' →
      e.number ≤ e'.number := by
  intro key e e' hfind hfind'
  have hlast := hs.numbered key e hfind
  rcases h key e' hfind' with hold | hnew | hsame
  · cases hfind.symm.trans hold
    exact le_rfl
  · exact hlast.lt.le.trans hnew
  · exact (hlast.unique hsame).le

theorem sound_put (key : κ) (owner : String) (payload : π) (spills : Bool) :
    Sound L (w.put L C key owner payload spills) ∧
      Kept L w (w.put L C key owner payload spills) := by
  unfold put
  cases hentry : NodeResultStore.entryOf L C owner payload spills w.puts.length with
  | none => exact ⟨hs, hs.accounted, newest_of_numbered hs fun _ _ h => .inl h⟩
  | some e =>
    have hnumber : e.number = w.puts.length := by
      unfold NodeResultStore.entryOf at hentry
      dsimp only at hentry
      split at hentry
      · cases hentry
      split at hentry
      · split at hentry
        · cases hentry
          rfl
        · cases hentry
      · cases hentry
        rfl
    have haccounted : Accounted L (w.store.replace L key e) := accounted_replace hs.accounted
    refine ⟨⟨haccounted, ?_, ?_⟩, haccounted, newest_of_numbered hs ?_⟩
    · intro k e' hk
      rcases find_replace hk with ⟨hkey, he⟩ | ⟨hne, hold⟩
      · rw [hkey, he, hnumber]
        exact LastPut.self w.puts key
      · refine (hs.numbered k e' hold).append ?_
        rw [mem_singleton]
        exact hne
    · intro id c e' since hcall hphase
      obtain ⟨hsince, hread⟩ := hs.reads id c e' since hcall hphase
      refine ⟨hsince.trans (by simp), ?_⟩
      rw [take_append_of_le_length hsince]
      exact hread
    · intro k e' hk
      rcases find_replace hk with ⟨hkey, he⟩ | ⟨hne, hold⟩
      · rw [he, hnumber]
        exact .inr (.inl le_rfl)
      · exact .inl hold

theorem reads_erase (id : ι) : ∀ id' c e since,
    (w.calls.erase id).find id' = some c → c.phase = .reading e since →
      since ≤ w.puts.length ∧ LastPut (w.puts.take since) c.key e.number := by
  intro id' c e since hcall
  rw [find_erase] at hcall
  split at hcall
  · cases hcall
  · exact hs.reads id' c e since hcall

theorem reads_set {id : ι} {call : GetCall κ π} (hnew : ∀ e since, call.phase = .reading e since →
      since ≤ w.puts.length ∧ LastPut (w.puts.take since) call.key e.number) :
    ∀ id' c e since, (w.calls.set id call).find id' = some c → c.phase = .reading e since →
      since ≤ w.puts.length ∧ LastPut (w.puts.take since) c.key e.number := by
  intro id' c e since hcall
  rw [find_set] at hcall
  split at hcall
  · cases hcall
    exact hnew e since
  · exact hs.reads id' c e since hcall

theorem sound_get (id : ι) (key : κ) (owner : String) :
    Sound L (w.get id key owner).1 ∧ Kept L w (w.get id key owner).1 := by
  unfold StoreWorld.get
  cases hfind : w.store.entries.find key with
  | none => exact ⟨hs, hs.accounted, newest_of_numbered hs fun _ _ h => .inl h⟩
  | some e =>
    dsimp only
    split
    · exact ⟨hs, hs.accounted, newest_of_numbered hs fun _ _ h => .inl h⟩
    have haccounted := accounted_touch hs.accounted hfind
    have hmoved : ∀ k e', (w.store.entries.moveToEnd key e).find k = some e' →
        w.store.entries.find k = some e' := by
      intro k e' hk
      rw [find_moveToEnd hfind] at hk
      exact hk
    cases e.body with
    | resident payload =>
      refine ⟨⟨haccounted, ?_, hs.reads⟩, haccounted, newest_of_numbered hs ?_⟩
      · exact fun k e' hk => hs.numbered k e' (hmoved k e' hk)
      · exact fun k e' hk => .inl (hmoved k e' hk)
    | spilled payload sizeBytes =>
      refine ⟨⟨haccounted, ?_, reads_set hs ?_⟩, haccounted, newest_of_numbered hs ?_⟩
      · exact fun k e' hk => hs.numbered k e' (hmoved k e' hk)
      · intro e' since hphase
        cases hphase
        rw [take_length]
        exact ⟨le_rfl, hs.numbered key e hfind⟩
      · exact fun k e' hk => .inl (hmoved k e' hk)

theorem sound_calls {calls : Dict ι (GetCall κ π)}
    (hreads : ∀ id c e since, calls.find id = some c → c.phase = .reading e since →
      since ≤ w.puts.length ∧ LastPut (w.puts.take since) c.key e.number) :
    Sound L { w with calls := calls } ∧ Kept L w { w with calls := calls } :=
  ⟨⟨hs.accounted, hs.numbered, hreads⟩, hs.accounted, newest_of_numbered hs fun _ _ h => .inl h⟩

theorem sound_replace {key : κ} {e : StoreEntry π}
    (hlast : LastPut w.puts key e.number) {calls : Dict ι (GetCall κ π)}
    (hreads : ∀ id c e since, calls.find id = some c → c.phase = .reading e since →
      since ≤ w.puts.length ∧ LastPut (w.puts.take since) c.key e.number) :
    Sound L { w with store := w.store.replace L key e, calls := calls } ∧
      Kept L w { w with store := w.store.replace L key e, calls := calls } := by
  have haccounted : Accounted L (w.store.replace L key e) := accounted_replace hs.accounted
  refine ⟨⟨haccounted, ?_, hreads⟩, haccounted, newest_of_numbered hs ?_⟩
  · intro k e' hk
    rcases find_replace hk with ⟨hkey, he⟩ | ⟨-, hold⟩
    · rw [hkey, he]
      exact hlast
    · exact hs.numbered k e' hold
  · intro k e' hk
    rcases find_replace hk with ⟨hkey, he⟩ | ⟨-, hold⟩
    · rw [hkey, he]
      exact .inr (.inr hlast)
    · exact .inl hold

theorem sound_putBack {id : ι} {c : GetCall κ π} {e : StoreEntry π}
    {since : Nat} {payload : π} {sizeBytes : Nat} {spills : Bool}
    (hcall : w.calls.find id = some c) (hphase : c.phase = .reading e since)
    (hbody : e.body = .spilled payload sizeBytes) (hok : Undisturbed L C w (.putBack id spills)) :
    Sound L (w.putBack L C id c.key e payload sizeBytes spills).1 ∧
      Kept L w (w.putBack L C id c.key e payload sizeBytes spills).1 := by
  have hquiet := hok c e since payload sizeBytes hcall hphase hbody
  obtain ⟨hsince, hread⟩ := hs.reads id c e since hcall hphase
  have hlast : c.key ∉ w.puts.drop since → LastPut w.puts c.key e.number := by
    intro hnone
    have happend := hread.append hnone
    rw [take_append_drop] at happend
    exact happend
  unfold putBack
  dsimp only
  split
  · rename_i hlarge
    cases hspills : L.exchange && spills with
    | true =>
      rw [if_pos rfl]
      rw [if_neg (fun h => by rw [hspills] at h; cases h.2)] at hquiet
      refine sound_replace hs ?_ (reads_erase hs id)
      exact hlast hquiet
    | false =>
      rw [if_neg Bool.false_ne_true]
      rw [if_pos ⟨hlarge, hspills⟩] at hquiet
      have haccounted := accounted_pop hs.accounted hquiet
      refine ⟨⟨haccounted, ?_, reads_erase hs id⟩, haccounted, newest_of_numbered hs ?_⟩
      · exact fun k e' hk => hs.numbered k e' (find_pop hk)
      · exact fun k e' hk => .inl (find_pop hk)
  · rename_i hfits
    rw [if_neg (fun h => hfits h.1)] at hquiet
    refine sound_replace hs ?_ (reads_set hs ?_)
    · exact hlast hquiet
    · intro e' since' hstored
      cases hstored

theorem sound_step (hok : Undisturbed L C w a)
    (h : w.step L C a = some (w', found)) : Sound L w' ∧ Kept L w w' := by
  cases a with
  | put key owner payload spills =>
    cases h
    exact sound_put hs key owner payload spills
  | get id key owner =>
    rw [step] at h
    cases hcall : w.calls.find id with
    | some c =>
      rw [hcall] at h
      cases h
    | none =>
      rw [hcall] at h
      have heq : (w.get id key owner).1 = w' := congrArg Prod.fst (some.inj h)
      rw [← heq]
      exact sound_get hs id key owner
  | fail id =>
    obtain ⟨c, hcall, h⟩ := bind_eq_some_iff.mp h
    cases hphase : c.phase with
    | reading e since =>
      rw [hphase] at h
      cases h
      exact sound_calls hs (reads_erase hs id)
    | stored =>
      rw [hphase] at h
      cases h
  | putBack id spills =>
    obtain ⟨c, hcall, h⟩ := bind_eq_some_iff.mp h
    cases hphase : c.phase with
    | reading e since =>
      rw [hphase] at h
      dsimp only at h
      cases hbody : e.body with
      | spilled payload sizeBytes =>
        rw [hbody] at h
        have heq : (w.putBack L C id c.key e payload sizeBytes spills).1 = w' :=
          congrArg Prod.fst (some.inj h)
        rw [← heq]
        exact sound_putBack hs hcall hphase hbody hok
      | resident payload =>
        rw [hbody] at h
        cases h
    | stored =>
      rw [hphase] at h
      cases h
  | lookUp id =>
    obtain ⟨c, hcall, h⟩ := bind_eq_some_iff.mp h
    cases hphase : c.phase with
    | reading e since =>
      rw [hphase] at h
      cases h
    | stored =>
      rw [hphase] at h
      cases h
      exact sound_calls hs (reads_erase hs id)

end

theorem sound_start (L : StoreSettings) : Sound L ({} : StoreWorld ι κ π) where
  accounted := ⟨rfl, Nat.zero_le _, Int.natCast_nonneg _⟩
  numbered := fun _ _ h => by cases h
  reads := fun _ _ _ _ h => by cases h

theorem sound_of_run (hrun : StoreWorld.Run L C (Undisturbed L C) w) : Sound L w := by
  induction hrun with
  | start => exact sound_start L
  | step _ hok hstep ih => exact (sound_step ih hok hstep).1

/-- In a run whose gets are undisturbed, every action leaves the accounts right and gives no entry
    an older payload. -/
theorem undisturbed_kept (hrun : StoreWorld.Run L C (Undisturbed L C) w)
    (hok : Undisturbed L C w a) (h : w.step L C a = some (w', found)) : Kept L w w' :=
  (sound_step (sound_of_run hrun) hok h).2

end

/-! ## Gets that are disturbed -/

/-- Actions one after the other. -/
def StoreWorld.play (L : StoreSettings) (C : Codec π) (w : StoreWorld ι κ π) :
    List (StoreAction ι κ π) → Option (StoreWorld ι κ π)
  | [] => some w
  | a :: rest => (w.step L C a).bind fun r => play L C r.1 rest

theorem run_play {w : StoreWorld ι κ π} (hrun : StoreWorld.Run L C (fun _ _ => True) w) :
    ∀ {w' : StoreWorld ι κ π} {actions : List (StoreAction ι κ π)}, w.play L C actions = some w' →
      StoreWorld.Run L C (fun _ _ => True) w' := by
  intro w' actions
  induction actions generalizing w with
  | nil =>
    intro h
    cases h
    exact hrun
  | cons a rest ih =>
    intro h
    obtain ⟨⟨w₁, found⟩, hstep, h⟩ := bind_eq_some_iff.mp h
    exact ih (hrun.step trivial hstep) h

/-- A store of a thousand bytes. -/
def smallStore : StoreSettings := { maxBytes := 1000 }

/-- Payloads of which only the size is known. -/
def sizes : Codec Nat := { measure := id, clean := id, reread := id }

/-- A large payload is read back, and the exchange does not take it again. -/
def dropped : List (StoreAction Nat String Nat) :=
  [.put "k" "u" 2000 true, .get 1 "k" "u", .putBack 1 false]

/-- A payload is put while a `get` reads an older one. -/
def overtaken : List (StoreAction Nat String Nat) :=
  [.put "k" "u" 2000 true, .get 1 "k" "u", .put "k" "u" 30 false]

/-- The stub that is dropped is still counted, and the older payload comes back. -/
theorem gets_disturbed :
    (¬ ∀ (L : StoreSettings) (C : Codec Nat) (w : StoreWorld Nat String Nat),
      StoreWorld.Run L C (fun _ _ => True) w → Accounted L w.store) ∧
    ¬ ∀ (L : StoreSettings) (C : Codec Nat) (w w' : StoreWorld Nat String Nat)
      (a : StoreAction Nat String Nat) (found : Option (Found Nat)),
      StoreWorld.Run L C (fun _ _ => True) w → w.step L C a = some (w', found) → Kept L w w' := by
  refine ⟨fun hall => ?_, fun hall => ?_⟩
  · obtain ⟨w, hw⟩ : ∃ w, play smallStore sizes {} dropped = some w := ⟨_, rfl⟩
    have htotal := (hall smallStore sizes w (run_play .start hw)).total
    cases hw
    exact absurd htotal (by decide)
  · obtain ⟨w, hw⟩ : ∃ w, play smallStore sizes {} overtaken = some w := ⟨_, rfl⟩
    obtain ⟨⟨w', found⟩, hstep⟩ :
        ∃ r, w.step smallStore sizes (.putBack 1 true) = some r := by
      cases hw
      exact ⟨_, rfl⟩
    have hnewest := (hall smallStore sizes w w' _ found (run_play .start hw) hstep).newest "k"
    cases hw
    cases hstep
    exact absurd (hnewest _ _ rfl rfl) (by decide)

/-- A `get` that reads the exchange while nothing is put. -/
theorem undisturbed_alone : ∃ w w' found,
    play smallStore sizes {} [.put "k" "u" 2000 true, .get 1 "k" "u"] = some w ∧
      w.step smallStore sizes (.putBack 1 true) = some (w', found) ∧ Kept smallStore w w' := by
  have hrun : StoreWorld.Run smallStore sizes (Undisturbed smallStore sizes)
    ({} : StoreWorld Nat String Nat) := .start
  have hrun := hrun.step (a := .put "k" "u" 2000 true) trivial rfl
  have hrun := hrun.step (a := .get 1 "k" "u") trivial rfl
  refine ⟨_, _, _, rfl, rfl, undisturbed_kept (a := .putBack 1 true) hrun ?_ rfl⟩
  intro c e since payload sizeBytes hcall hphase hbody
  cases hcall
  cases hphase
  cases hbody
  decide

end WebGis.Compute
