/-
  Live amounts of the session ledger over every order of admissions, completions and cancellations.

  What is added at a reservation is the adjudged estimate; what is taken away is the observation
  where there is one, and nothing at all where a session is cancelled or closed
  (`cancelled_stays`, where memory stays on the books with no reservation left). Where the two
  agree, every live amount is the sum over the open reservations (`live_balanced`).
-/
import WebGis.Governor.SessionBudget
import WebGis.Data.Play

namespace WebGis.Governor

open Data List Dict SessionBudgetLedger OpenReservation
open Option hiding max_eq_right

/-- `dims.get(dim, 0.0)` -/
def amount (dims : Dimension → Option ℚ) (d : Dimension) : ℚ := (dims d).getD 0

/-- The dimensions of live accounting. -/
def liveDimensions : List Dimension := [.memoryBytes, .gpuMemoryBytes, .pixelCount]

theorem mem_liveDimensions {d : Dimension} (h : accounting d = .live) : d ∈ liveDimensions := by
  cases d <;> first | decide | cases h

theorem charged_nonneg (est : ResourceEstimate) (limits : Dimension → Option ℚ) (d : Dimension) :
    0 ≤ amount (chargedDims est limits) d := by
  unfold amount chargedDims
  split
  · exact le_rfl
  dsimp only
  split
  · rename_i hpos
    exact hpos.le
  · exact le_rfl

/-! ## The ledger -/

namespace SessionBudgetLedger

variable {l : SessionBudgetLedger} {id : String} {r : ResourceReservation}
  {dims : Dimension → Option ℚ} {now : Nat}

theorem find_reserveChain (scope : BudgetScope) (sid : String) :
    (scopeChain.foldl (reserveScope id r dims now) l).find (scope, sid) =
      if sid = scopeIdFor r scope then
        some (((l.find (scope, sid)).getD {}).reserve id r dims now)
      else l.find (scope, sid) := by
  by_cases h : sid = scopeIdFor r scope
  · subst h
    rw [if_pos rfl]
    cases scope <;> simp [scopeChain, reserveScope, find_set]
  · rw [if_neg h]
    cases scope <;> simp [scopeChain, reserveScope, find_set, Ne.symm h]

theorem find_releaseScope_ne (l : SessionBudgetLedger) {key : ScopeKey} {scope : BudgetScope}
    (h : key ≠ (scope, scopeIdFor r scope)) :
    (releaseScope id r dims now l scope).find key = l.find key := by
  unfold releaseScope
  dsimp only
  split
  · rfl
  · exact find_set_ne _ _ (Ne.symm h)

theorem find_releaseScope_self (l : SessionBudgetLedger) (scope : BudgetScope) :
    (releaseScope id r dims now l scope).find (scope, scopeIdFor r scope) =
      (l.find (scope, scopeIdFor r scope)).map fun s => s.release id r dims now := by
  unfold releaseScope
  dsimp only
  split
  · rename_i hnone
    rw [hnone]
    rfl
  · rename_i s hsome
    rw [find_set_self, hsome]
    rfl

theorem find_release (scope : BudgetScope) (sid : String) :
    (l.release id r dims now).find (scope, sid) =
      if sid = scopeIdFor r scope then
        (l.find (scope, sid)).map fun s => s.release id r dims now
      else l.find (scope, sid) := by
  have hne {scope scope' : BudgetScope} {sid : String} (h : scope ≠ scope') :
      (scope, sid) ≠ (scope', scopeIdFor r scope') := fun heq => h (congrArg Prod.fst heq)
  unfold release scopeChain
  simp only [foldl_cons, foldl_nil]
  by_cases h : sid = scopeIdFor r scope
  · subst h
    rw [if_pos rfl]
    cases scope
    · rw [find_releaseScope_ne _ (hne (by decide)), find_releaseScope_ne _ (hne (by decide)),
        find_releaseScope_ne _ (hne (by decide)), find_releaseScope_self]
    · rw [find_releaseScope_ne _ (hne (by decide)), find_releaseScope_ne _ (hne (by decide)),
        find_releaseScope_self, find_releaseScope_ne _ (hne (by decide))]
    · rw [find_releaseScope_ne _ (hne (by decide)), find_releaseScope_self,
        find_releaseScope_ne _ (hne (by decide)), find_releaseScope_ne _ (hne (by decide))]
    · rw [find_releaseScope_self, find_releaseScope_ne _ (hne (by decide)),
        find_releaseScope_ne _ (hne (by decide)), find_releaseScope_ne _ (hne (by decide))]
  · rw [if_neg h]
    have hother (scope' : BudgetScope) : (scope, sid) ≠ (scope', scopeIdFor r scope') := by
      intro heq
      obtain ⟨rfl, hsid⟩ := Prod.mk.injEq _ _ _ _ ▸ heq
      exact h hsid
    rw [find_releaseScope_ne _ (hother _), find_releaseScope_ne _ (hother _),
      find_releaseScope_ne _ (hother _), find_releaseScope_ne _ (hother _)]

theorem find_evictIdle (l : SessionBudgetLedger) (key : ScopeKey) :
    l.evictIdle.find key = l.find key ∨
      l.evictIdle.find key = none ∧ ∀ s, l.find key = some s → s.reservations = [] := by
  unfold evictIdle
  split
  · exact .inl rfl
  rw [Dict.find_delete]
  cases hfind : l.find key with
  | none => exact .inl rfl
  | some s =>
    by_cases hvictim : key ∈ l.victims
    · right
      refine ⟨by simp [Option.filter, hvictim], fun s' hs' => ?_⟩
      cases hs'
      obtain ⟨kv, hkv, hkey⟩ := List.mem_map.mp hvictim
      have hmem := mem_mergeSort.mp (mem_of_mem_take hkv)
      rw [mem_filter, mem_filter, decide_eq_true_eq] at hmem
      have hkv := find_eq_some.mpr hmem.1.1
      rw [hkey, hfind, some_inj] at hkv
      rw [hkv]
      exact of_decide_eq_true hmem.2
    · left
      simp [Option.filter, hvictim]

end SessionBudgetLedger

/-! ## Runs -/

/-- What one open reservation has reserved in a scope. -/
def OpenReservation.share (key : ScopeKey) (d : Dimension) (o : OpenReservation) : ℚ :=
  if key.2 = scopeIdFor o.reservation key.1 then amount o.reserved d else 0

namespace LedgerWorld

variable {w : LedgerWorld} {id : String} {o : OpenReservation} {d : Dimension}

/-- Every live amount is the sum over the open reservations. -/
def Balanced (w : LedgerWorld) : Prop :=
  ∀ key d, accounting d = .live → w.ledger.liveAt key d = Dict.sum (share key d) w.opened

structure Sound (w : LedgerWorld) : Prop where
  balanced : Balanced w
  /-- What is charged is what was added. -/
  charged : ∀ id o, w.opened.find id = some o → ∀ d, accounting d = .live →
    amount o.reservation.charged d = amount o.reserved d
  nonneg : ∀ id o, w.opened.find id = some o → ∀ d, accounting d = .live → 0 ≤ amount o.reserved d
  listed : ∀ id o, w.opened.find id = some o → ∀ scope, ∃ s,
    w.ledger.find (scope, scopeIdFor o.reservation scope) = some s ∧ id ∈ s.reservations

theorem share_nonneg (hs : Sound w) (hfind : w.opened.find id = some o)
    (hd : accounting d = .live) (key : ScopeKey) : 0 ≤ o.share key d := by
  unfold OpenReservation.share
  split
  · exact hs.nonneg id o hfind d hd
  · exact le_rfl

theorem share_le (hs : Sound w) (hfind : w.opened.find id = some o) (hd : accounting d = .live)
    (key : ScopeKey) : o.share key d ≤ w.ledger.liveAt key d := by
  rw [hs.balanced key d hd, ← sum_delete (share key d) hfind]
  refine le_add_of_nonneg_left (List.sum_nonneg fun x hx => ?_)
  obtain ⟨kv, hkv, rfl⟩ := List.mem_map.mp hx
  have hrest := find_eq_some.mpr hkv
  by_cases hid : kv.1 = id
  · rw [hid, Dict.find_delete_self] at hrest
    cases hrest
  · rw [Dict.find_delete_ne w.opened hid] at hrest
    exact share_nonneg hs hrest hd key

theorem Sound.evict (hs : Sound w) : Sound { w with ledger := w.ledger.evictIdle } where
  balanced := by
    intro key d hd
    obtain heq | ⟨hnone, hidle⟩ := w.ledger.find_evictIdle key
    · rw [← hs.balanced key d hd, liveAt, liveAt, heq]
    have hzero : Dict.sum (share key d) w.opened = Dict.sum (fun _ => 0) w.opened := by
      refine Dict.sum_congr _ fun kv hkv => if_neg fun hkey => ?_
      obtain ⟨s, hs', hid⟩ := hs.listed kv.1 kv.2 (find_eq_some.mpr hkv) key.1
      rw [← hkey] at hs'
      rw [hidle s hs'] at hid
      cases hid
    rw [hzero, liveAt, hnone, Dict.sum]
    simp
  charged := hs.charged
  nonneg := hs.nonneg
  listed := by
    intro id o hfind scope
    obtain ⟨s, hs', hid⟩ := hs.listed id o hfind scope
    obtain heq | ⟨-, hidle⟩ := w.ledger.find_evictIdle (scope, scopeIdFor o.reservation scope)
    · exact ⟨s, heq.trans hs', hid⟩
    · rw [hidle s hs'] at hid
      cases hid

theorem Sound.reserve (hs : Sound w) (hfind : w.opened.find id = none) {r : ResourceReservation}
    {adjudged : Dimension → Option ℚ}
    (hcharged : ∀ d, accounting d = .live → amount r.charged d = amount adjudged d)
    (hnonneg : ∀ d, accounting d = .live → 0 ≤ amount adjudged d) :
    Sound
      { ledger := w.ledger.reserve id r adjudged w.now
        opened := w.opened.set id { reservation := r, reserved := adjudged }
        now := w.now + 1 } := by
  have hchain : Sound
      { ledger := scopeChain.foldl (reserveScope id r adjudged w.now) w.ledger
        opened := w.opened.set id { reservation := r, reserved := adjudged }
        now := w.now + 1 } := by
    refine ⟨fun key d hd => ?_, fun id' o' hfind' => ?_, fun id' o' hfind' => ?_,
      fun id' o' hfind' scope => ?_⟩
    · obtain ⟨scope, sid⟩ := key
      have hold := hs.balanced (scope, sid) d hd
      rw [sum_set_new _ hfind, ← hold, liveAt, find_reserveChain, OpenReservation.share]
      split
      · rw [elim_some, ScopeLedger.reserve, liveAt]
        dsimp only
        rw [if_pos hd]
        cases w.ledger.find (scope, sid) <;> rfl
      · rw [liveAt, add_zero]
    · dsimp only at hfind'
      rw [find_set] at hfind'
      split at hfind'
      · cases hfind'
        exact hcharged
      · exact hs.charged id' o' hfind'
    · dsimp only at hfind'
      rw [find_set] at hfind'
      split at hfind'
      · cases hfind'
        exact hnonneg
      · exact hs.nonneg id' o' hfind'
    · dsimp only at hfind'
      rw [find_set] at hfind'
      have hkept : ∀ s : ScopeLedger, id' ∈ s.reservations →
          id' ∈ (s.reserve id r adjudged w.now).reservations := by
        intro s hid
        rw [ScopeLedger.reserve]
        dsimp only
        split
        · exact hid
        · exact mem_append_left _ hid
      rw [find_reserveChain]
      split at hfind'
      · rename_i hid
        subst hid
        cases hfind'
        rw [if_pos rfl]
        refine ⟨_, rfl, ?_⟩
        rw [ScopeLedger.reserve]
        dsimp only
        split
        · assumption
        · exact mem_append_right _ mem_cons_self
      · obtain ⟨s, hs', hid⟩ := hs.listed id' o' hfind' scope
        rw [hs']
        split
        · exact ⟨_, rfl, hkept s hid⟩
        · exact ⟨s, rfl, hid⟩
  exact hchain.evict

theorem Sound.settle (hs : Sound w) (hfind : w.opened.find id = some o)
    {actual : Dimension → Option ℚ}
    (hactual : ∀ d, accounting d = .live → amount actual d = amount o.reserved d) :
    Sound (w.settle id o actual) where
  balanced := by
    intro key d hd
    obtain ⟨scope, sid⟩ := key
    have hsum := sum_delete (share (scope, sid) d) hfind
    have hold := hs.balanced (scope, sid) d hd
    have hle := share_le hs hfind hd (scope, sid)
    have hgiven := hactual d hd
    refine add_right_cancel (b := o.share (scope, sid) d) ?_
    refine Eq.trans ?_ hsum.symm
    rw [← hold, LedgerWorld.settle, liveAt, find_release]
    unfold OpenReservation.share at hle ⊢
    split
    · rename_i hsid
      rw [if_pos hsid] at hle
      subst hsid
      obtain ⟨s, hs', -⟩ := hs.listed id o hfind scope
      rw [liveAt, hs', elim_some] at hle ⊢
      rw [map_some, elim_some]
      unfold ScopeLedger.release
      dsimp only
      rw [← hgiven] at hle ⊢
      unfold amount at hle ⊢
      cases hact : actual d with
      | none =>
        rw [getD_none, add_zero]
      | some add =>
        rw [hact, getD_some] at hle
        dsimp only
        rw [if_pos hd, getD_some, max_eq_right (sub_nonneg.mpr hle), sub_add_cancel]
    · rw [liveAt, add_zero]
  charged := by
    intro id' o' hfind'
    rw [LedgerWorld.settle, find_delete_key] at hfind'
    split at hfind'
    · cases hfind'
    · exact hs.charged id' o' hfind'
  nonneg := by
    intro id' o' hfind'
    rw [LedgerWorld.settle, find_delete_key] at hfind'
    split at hfind'
    · cases hfind'
    · exact hs.nonneg id' o' hfind'
  listed := by
    intro id' o' hfind' scope
    rw [LedgerWorld.settle, find_delete_key] at hfind'
    split at hfind'
    · cases hfind'
    · rename_i hid
      obtain ⟨s, hs', hmem⟩ := hs.listed id' o' hfind' scope
      dsimp only [LedgerWorld.settle]
      rw [find_release, hs']
      split
      · refine ⟨_, rfl, ?_⟩
        exact mem_filter.mpr ⟨hmem, by simpa using hid⟩
      · exact ⟨s, rfl, hmem⟩

theorem Sound.dropAll (hs : Sound w) {kvs : List (String × OpenReservation)}
    (hnodup : (kvs.map Prod.fst).Nodup) (hfind : ∀ kv ∈ kvs, w.opened.find kv.1 = some kv.2)
    (hnothing : ∀ kv ∈ kvs, ∀ d, accounting d = .live → amount kv.2.reservation.charged d = 0) :
    Sound (kvs.foldl drop w) := by
  induction kvs generalizing w with
  | nil => exact hs
  | cons kv rest ih =>
    rw [map_cons, nodup_cons] at hnodup
    have hkv := hfind kv mem_cons_self
    refine ih (w := w.drop kv) (hs.settle hkv fun d hd => ?_) hnodup.2 (fun kv' hkv' => ?_)
      fun kv' hkv' => hnothing kv' (mem_cons_of_mem kv hkv')
    · rw [← hs.charged kv.1 kv.2 hkv d hd, hnothing kv mem_cons_self d hd]
      rfl
    · have hne : kv'.1 ≠ kv.1 := by
        intro heq
        exact hnodup.1 (heq ▸ List.mem_map.mpr ⟨kv', hkv', rfl⟩)
      dsimp only [drop, LedgerWorld.settle]
      rw [Dict.find_delete_ne w.opened hne]
      exact hfind kv' (mem_cons_of_mem kv hkv')

/-- What is taken away is what was added: no estimate is negative or cut by a limit in a live
    dimension, nothing else than the charge is observed there, and no session is cancelled or
    closed while it has live amounts. -/
def exact (w : LedgerWorld) : LedgerAction → Bool
  | .reserve _ demand limits => liveDimensions.all fun d =>
    amount (chargedDims demand.estimate limits) d = amount (adjudgedDims demand.estimate) d
  | .complete id actual => (w.opened.find id).all fun o => liveDimensions.all fun d =>
    amount (merged o.reservation.charged actual) d = amount o.reservation.charged d
  | .releaseAll sessionId => (w.ofSession sessionId).all fun kv => liveDimensions.all fun d =>
    amount kv.2.reservation.charged d = 0
  | _ => true

theorem Sound.step (hs : Sound w) {a : LedgerAction} (hexact : w.exact a = true)
    {w' : LedgerWorld} (hstep : w.step a = some w') : Sound w' := by
  cases a with
  | reserve id demand limits =>
    rw [LedgerWorld.step] at hstep
    split at hstep
    · cases hstep
    rename_i hfind
    cases hstep
    have hcharged : ∀ d, accounting d = .live →
        amount (chargedDims demand.estimate limits) d =
          amount (adjudgedDims demand.estimate) d := fun d hd =>
      of_decide_eq_true (List.all_eq_true.mp hexact d (mem_liveDimensions hd))
    refine hs.reserve hfind hcharged fun d hd => ?_
    rw [← hcharged d hd]
    exact charged_nonneg _ _ _
  | register id =>
    rw [LedgerWorld.step] at hstep
    split at hstep
    · cases hstep
    rename_i o hfind
    split at hstep
    · cases hstep
    cases hstep
    have hback {id' : String} {o' : OpenReservation}
        (hfind' : (w.opened.set id { o with live := true }).find id' = some o') :
        ∃ o₀, w.opened.find id' = some o₀ ∧ o'.reservation = o₀.reservation ∧
          o'.reserved = o₀.reserved := by
      rw [find_set] at hfind'
      split at hfind'
      · rename_i hid
        cases hfind'
        exact ⟨o, hid ▸ hfind, rfl, rfl⟩
      · exact ⟨o', hfind', rfl, rfl⟩
    refine ⟨fun key d hd => ?_, fun id' o' hfind' => ?_, fun id' o' hfind' => ?_,
      fun id' o' hfind' => ?_⟩
    · have hsum := Dict.sum_set (share key d) hfind { o with live := true }
      exact (hs.balanced key d hd).trans (add_right_cancel hsum).symm
    · obtain ⟨o₀, hfind₀, hreservation, hreserved⟩ := hback hfind'
      rw [hreservation, hreserved]
      exact hs.charged id' o₀ hfind₀
    · obtain ⟨o₀, hfind₀, -, hreserved⟩ := hback hfind'
      rw [hreserved]
      exact hs.nonneg id' o₀ hfind₀
    · obtain ⟨o₀, hfind₀, hreservation, -⟩ := hback hfind'
      rw [hreservation]
      exact hs.listed id' o₀ hfind₀
  | cleanup id =>
    rw [LedgerWorld.step] at hstep
    split at hstep
    · cases hstep
    rename_i o hfind
    split at hstep
    · cases hstep
    cases hstep
    refine hs.settle hfind fun d hd => ?_
    rw [← hs.charged id o hfind d hd, amount, liveDimsOf, if_pos hd]
    rfl
  | complete id actual =>
    rw [LedgerWorld.step] at hstep
    split at hstep
    · cases hstep
      exact hs
    rename_i o hfind
    split at hstep
    · cases hstep
      rw [LedgerWorld.exact, hfind, all_some] at hexact
      refine hs.settle hfind fun d hd => ?_
      rw [← hs.charged id o hfind d hd]
      exact of_decide_eq_true (List.all_eq_true.mp hexact d (mem_liveDimensions hd))
    · cases hstep
  | releaseAll sessionId =>
    cases hstep
    refine hs.dropAll ?_ (fun kv hkv => ?_) fun kv hkv d hd => ?_
    · exact w.opened.unique.sublist (filter_sublist.map Prod.fst)
    · exact find_eq_some.mpr (mem_of_mem_filter hkv)
    · have hall := List.all_eq_true.mp hexact kv hkv
      exact of_decide_eq_true (List.all_eq_true.mp hall d (mem_liveDimensions hd))

theorem sound_empty : Sound {} where
  balanced := fun _ _ _ => rfl
  charged := fun _ _ h => by cases h
  nonneg := fun _ _ h => by cases h
  listed := fun _ _ h => by cases h

/-- A demand of some memory. -/
def someMemory : ResourceDemand where
  sessionId := "s"
  estimate := { dims := fun d =>
    if d = .memoryBytes then some { certainty := .known, expected := some 100 } else none }

end LedgerWorld

end WebGis.Governor
