/-
  What the result store holds under its keys, and what its calls return.

  A property of a key and a payload that the reserved keys and the way through the exchange do not
  touch is true of all that the store holds, when it is true of all that is put (`holds_step`). The
  actions of one call leave the other calls as they are.
-/
import WebGis.Compute.ResultStore

namespace WebGis.Compute

open Data Option Dict StoreWorld NodeResultStore

variable {ι κ π : Type} [DecidableEq ι] [DecidableEq κ] {L : StoreSettings} {C : Codec π}

/-- The payload that an entry stands for. -/
def Body.content : Body π → π
  | .resident payload => payload
  | .spilled payload _ => payload

/-- All that the store holds, and all that its calls have read, is of a kind. -/
structure Holds (P : κ → π → Prop) (w : StoreWorld ι κ π) : Prop where
  entries : ∀ key e, w.store.entries.find key = some e → P key e.body.content
  reads : ∀ id c e since, w.calls.find id = some c → c.phase = .reading e since →
    P c.key e.body.content

/-- The call that an action is of. -/
def StoreAction.caller : StoreAction ι κ π → Option ι
  | .put _ _ _ _ => none
  | .get id _ _ => some id
  | .fail id => some id
  | .putBack id _ => some id
  | .lookUp id => some id

section

variable {w w' : StoreWorld ι κ π} {a : StoreAction ι κ π} {found : Option (Found π)} {id : ι}
  {key : κ} {owner : String} {spills : Bool}

omit [DecidableEq ι] in
theorem put_calls (w : StoreWorld ι κ π) (key : κ) (owner : String) (payload : π)
    (spills : Bool) : (w.put L C key owner payload spills).calls = w.calls := by
  unfold put
  cases entryOf L C owner payload spills w.puts.length <;> rfl

theorem get_eq_some (h : w.step L C (.get id key owner) = some (w', found)) :
    w.get id key owner = (w', found) := by
  rw [step] at h
  cases hcall : w.calls.find id with
  | some c =>
    rw [hcall] at h
    cases h
  | none =>
    rw [hcall] at h
    exact some.inj h

theorem fail_eq_some (h : w.step L C (.fail id) = some (w', found)) :
    w' = { w with calls := w.calls.erase id } ∧ found = some .miss := by
  obtain ⟨c, hcall, h⟩ := bind_eq_some_iff.mp h
  cases hphase : c.phase with
  | reading e since =>
    rw [hphase] at h
    cases h
    exact ⟨rfl, rfl⟩
  | stored =>
    rw [hphase] at h
    cases h

theorem putBack_eq_some (h : w.step L C (.putBack id spills) = some (w', found)) :
    ∃ c e since payload sizeBytes, w.calls.find id = some c ∧ c.phase = .reading e since ∧
      e.body = .spilled payload sizeBytes ∧
      w.putBack L C id c.key e payload sizeBytes spills = (w', found) := by
  obtain ⟨c, hcall, h⟩ := bind_eq_some_iff.mp h
  cases hphase : c.phase with
  | reading e since =>
    rw [hphase] at h
    dsimp only at h
    cases hbody : e.body with
    | spilled payload sizeBytes =>
      rw [hbody] at h
      exact ⟨c, e, since, payload, sizeBytes, hcall, hphase, hbody, some.inj h⟩
    | resident payload =>
      rw [hbody] at h
      cases h
  | stored =>
    rw [hphase] at h
    cases h

theorem lookUp_eq_some (h : w.step L C (.lookUp id) = some (w', found)) :
    ∃ c, w.calls.find id = some c ∧ w' = { w with calls := w.calls.erase id } ∧
      found = some ((w.store.entries.find c.key).elim .miss .entry) := by
  obtain ⟨c, hcall, h⟩ := bind_eq_some_iff.mp h
  cases hphase : c.phase with
  | reading e since =>
    rw [hphase] at h
    cases h
  | stored =>
    rw [hphase] at h
    cases h
    exact ⟨c, hcall, rfl, rfl⟩

theorem step_calls_ne (h : w.step L C a = some (w', found)) {other : ι}
    (hne : a.caller ≠ some other) : w'.calls.find other = w.calls.find other := by
  have hother : ∀ {id : ι}, some id ≠ some other → other ≠ id := fun hne heq => hne (by rw [heq])
  cases a with
  | put key owner payload spills =>
    cases h
    rw [put_calls]
  | get id key owner =>
    have hget := get_eq_some h
    unfold StoreWorld.get at hget
    cases hfind : w.store.entries.find key with
    | none =>
      rw [hfind] at hget
      cases hget
      rfl
    | some e =>
      rw [hfind] at hget
      dsimp only at hget
      split at hget
      · cases hget
        rfl
      · cases hbody : e.body with
        | resident payload =>
          rw [hbody] at hget
          cases hget
          rfl
        | spilled payload sizeBytes =>
          rw [hbody] at hget
          cases hget
          exact find_set_ne _ _ (Ne.symm (hother hne))
  | fail id =>
    rw [(fail_eq_some h).1]
    exact Dict.find_erase_ne _ (hother hne)
  | putBack id spills =>
    obtain ⟨c, e, since, payload, sizeBytes, hcall, hphase, hbody, hback⟩ := putBack_eq_some h
    unfold putBack at hback
    dsimp only at hback
    split at hback
    · split at hback
      · cases hback
        exact Dict.find_erase_ne _ (hother hne)
      · cases hback
        exact Dict.find_erase_ne _ (hother hne)
    · cases hback
      exact find_set_ne _ _ (Ne.symm (hother hne))
  | lookUp id =>
    obtain ⟨c, hcall, hw', hfound⟩ := lookUp_eq_some h
    rw [hw']
    exact Dict.find_erase_ne _ (hother hne)

/-- An entry that `get` returns at once is not a stub. -/
theorem get_entry {e : StoreEntry π} (h : w.get id key owner = (w', some (.entry e))) :
    w.store.entries.find key = some e ∧ e.owner = owner ∧ ∃ payload, e.body = .resident payload := by
  unfold StoreWorld.get at h
  cases hfind : w.store.entries.find key with
  | none =>
    rw [hfind] at h
    cases h
  | some e' =>
    rw [hfind] at h
    dsimp only at h
    split at h
    · cases h
    rename_i howner
    cases hbody : e'.body with
    | resident payload =>
      rw [hbody] at h
      cases h
      exact ⟨rfl, not_not.mp howner, payload, hbody⟩
    | spilled payload sizeBytes =>
      rw [hbody] at h
      cases h

/-- A `get` that goes on is a call of its key. -/
theorem get_pending (h : w.get id key owner = (w', none)) :
    ∃ c, w'.calls.find id = some c ∧ c.key = key := by
  unfold StoreWorld.get at h
  cases hfind : w.store.entries.find key with
  | none =>
    rw [hfind] at h
    cases h
  | some e =>
    rw [hfind] at h
    dsimp only at h
    split at h
    · cases h
    cases hbody : e.body with
    | resident payload =>
      rw [hbody] at h
      cases h
    | spilled payload sizeBytes =>
      rw [hbody] at h
      cases h
      exact ⟨_, find_set_self _ _ _, rfl⟩

theorem putBack_found {e : StoreEntry π} {payload : π} {sizeBytes : Nat}
    (h : w.putBack L C id key e payload sizeBytes spills = (w', found)) :
    (∀ e', found ≠ some (.entry e')) ∧
      (found = none → ∃ c, w'.calls.find id = some c ∧ c.key = key) := by
  unfold putBack at h
  dsimp only at h
  split at h
  · split at h
    · cases h
      exact ⟨fun e' heq => (by cases heq), fun heq => (by cases heq)⟩
    · cases h
      exact ⟨fun e' heq => (by cases heq), fun heq => (by cases heq)⟩
  · cases h
    exact ⟨fun e' heq => (by cases heq), fun _ => ⟨_, find_set_self _ _ _, rfl⟩⟩

end

/-! ## What the store holds -/

section

variable {P : κ → π → Prop} {w w' : StoreWorld ι κ π} {a : StoreAction ι κ π}
  {found : Option (Found π)}

theorem holds_calls (h : Holds P w) {calls : Dict ι (GetCall κ π)}
    (hreads : ∀ id c e since, calls.find id = some c → c.phase = .reading e since →
      P c.key e.body.content) : Holds P { w with calls := calls } :=
  ⟨h.entries, hreads⟩

theorem reads_of_erase (h : Holds P w) (id : ι) : ∀ id' c e since,
    (w.calls.erase id).find id' = some c → c.phase = .reading e since → P c.key e.body.content := by
  intro id' c e since hcall
  rw [find_erase] at hcall
  split at hcall
  · cases hcall
  · exact h.reads id' c e since hcall

theorem reads_of_set (h : Holds P w) {id : ι} {call : GetCall κ π}
    (hnew : ∀ e since, call.phase = .reading e since → P call.key e.body.content) :
    ∀ id' c e since, (w.calls.set id call).find id' = some c → c.phase = .reading e since →
      P c.key e.body.content := by
  intro id' c e since hcall
  rw [find_set] at hcall
  split at hcall
  · cases hcall
    exact hnew e since
  · exact h.reads id' c e since hcall

theorem entries_of_replace (h : Holds P w) {key : κ} {e : StoreEntry π}
    (hnew : P key e.body.content) : ∀ k e', (w.store.replace L key e).entries.find k = some e' →
      P k e'.body.content := by
  intro k e' hk
  rcases find_replace hk with ⟨hkey, he⟩ | ⟨-, hold⟩
  · rw [hkey, he]
    exact hnew
  · exact h.entries k e' hold

variable (hclean : ∀ key payload, P key payload → P key (C.clean payload))
  (hreread : ∀ key payload, P key payload → P key (C.reread payload))

include hclean in
theorem holds_put (h : Holds P w) {key : κ} {payload : π} (hnew : P key payload) (owner : String)
    (spills : Bool) : Holds P (w.put L C key owner payload spills) := by
  unfold put
  cases hentry : entryOf L C owner payload spills w.puts.length with
  | none => exact h
  | some e =>
    have hcontent : e.body.content = C.clean payload := by
      unfold entryOf at hentry
      dsimp only at hentry
      split at hentry
      · cases hentry
      split at hentry
      · split at hentry
        · cases hentry
          rfl
        · cases hentry
      · cases hentry
        rfl
    refine ⟨entries_of_replace h ?_, h.reads⟩
    rw [hcontent]
    exact hclean key payload hnew

theorem holds_get (h : Holds P w) (id : ι) (key : κ) (owner : String) :
    Holds P (w.get id key owner).1 := by
  unfold StoreWorld.get
  cases hfind : w.store.entries.find key with
  | none => exact h
  | some e =>
    dsimp only
    split
    · exact h
    have hmoved : ∀ k e', (w.store.entries.moveToEnd key e).find k = some e' →
        P k e'.body.content := by
      intro k e' hk
      rw [find_moveToEnd hfind] at hk
      exact h.entries k e' hk
    have hread : P key e.body.content := h.entries key e hfind
    cases hbody : e.body with
    | resident payload => exact ⟨hmoved, h.reads⟩
    | spilled payload sizeBytes =>
      refine ⟨hmoved, reads_of_set h ?_⟩
      intro e' since hphase
      cases hphase
      exact hread

include hclean hreread in
theorem holds_step (h : Holds P w)
    (hput : ∀ key owner payload spills, a = .put key owner payload spills → P key payload)
    (hstep : w.step L C a = some (w', found)) : Holds P w' := by
  cases a with
  | put key owner payload spills =>
    cases hstep
    exact holds_put hclean h (hput key owner payload spills rfl) owner spills
  | get id key owner =>
    have heq : (w.get id key owner).1 = w' := congrArg Prod.fst (get_eq_some hstep)
    rw [← heq]
    exact holds_get h id key owner
  | fail id =>
    rw [(fail_eq_some hstep).1]
    exact holds_calls h (reads_of_erase h id)
  | putBack id spills =>
    obtain ⟨c, e, since, payload, sizeBytes, hcall, hphase, hbody, hback⟩ :=
      putBack_eq_some hstep
    have hread := h.reads id c e since hcall hphase
    rw [hbody] at hread
    have hback' : P c.key (C.clean (C.reread payload)) :=
      hclean _ _ (hreread _ _ hread)
    unfold putBack at hback
    dsimp only at hback
    split at hback
    · split at hback
      · cases hback
        exact ⟨entries_of_replace h (hclean _ _ hback'), reads_of_erase h id⟩
      · cases hback
        exact ⟨fun k e' hk => h.entries k e' (find_pop hk), reads_of_erase h id⟩
    · cases hback
      refine ⟨entries_of_replace h hback', reads_of_set h ?_⟩
      intro e' since' hstored
      cases hstored
  | lookUp id =>
    obtain ⟨c, hcall, hw', hfound⟩ := lookUp_eq_some hstep
    rw [hw']
    exact holds_calls h (reads_of_erase h id)

end

end WebGis.Compute
