/-
  What the epochs guard, and what they do not.

  While a call is under way its key is counted as building, so its epoch is not forgotten and an
  epoch that is still the captured one means that nothing was invalidated since. That covers what
  the call itself builds. It does not cover a build that the call joins: `returns_fresh` holds in
  the runs where no call joins a build that began before the call's key was last invalidated.
-/
import WebGis.Tiles.Books

namespace WebGis.Tiles

open Data List Option Dict Cache

/-! ## The invariant -/

/-- The captured epoch is not newer than the current one, and while it is the current one the key
    has not been invalidated since the call. -/
structure Guarded (invalidated : Nat) (current : Nat × Nat) (c : Call) : Prop where
  older : c.captured.1 < current.1 ∨ c.captured.1 = current.1 ∧ c.captured.2 ≤ current.2
  same : c.captured = current → invalidated = c.floor
  floor : c.floor ≤ invalidated

/-- What a build gave is of the key, and began after the floor. -/
def Fresh (key : CacheKey) (floor : Nat) (result : Option IndexEntry) : Prop :=
  ∀ e, result = some e → e.key = key ∧ floor < e.built

/-- The call leads a flight that gives, or is to give, something fresh. -/
def Awaited (floor : Nat) (key : CacheKey) (l : Call) : Prop :=
  l.key = key ∧
    match l.shared with
    | some result => Fresh key floor result
    | none =>
      match l.phase with
      | .idle true => True
      | .building true since => floor < since
      | .landed since _ => floor < since
      | _ => False

/-- What a call knows where it stands. -/
def Stands (calls : Dict Nat Call) (c : Call) : Prop :=
  match c.phase with
  | .captured | .idle _ => c.shared = none
  | .building _ since => c.shared = none ∧ c.floor < since
  | .landed since result => c.shared = none ∧ c.floor < since ∧
      ∀ e, result = some e → e.key = c.key ∧ e.built = since
  | .waiting leader => c.shared = none ∧
      ∃ l, calls.find leader = some l ∧ Awaited c.floor c.key l
  | .ready result => Fresh c.key c.floor result
  | .over => True

/-- The call leads a flight that is registered. -/
def Leads (c : Call) : Prop :=
  c.shared = none ∧
    match c.phase with
    | .idle true | .building true _ | .landed _ _ => True
    | _ => False

/-- A call that is not over, of the key. -/
def active (key : CacheKey) (c : Call) : Bool := c.phase ≠ .over && c.key = key

structure Sound (L : Bounds) (w : World) : Prop where
  booked : Booked L w.cache
  clock : ∀ k, w.invalidated k < w.clock
  cached : ∀ k e, w.cache.entries.find k = some e → e.key = k ∧ w.invalidated k < e.built
  counted : ∀ k, w.cache.building.getD k 0 = w.calls.items.countP fun kv => active k kv.2
  guarded : ∀ id c, w.calls.find id = some c → c.phase ≠ .over →
    Guarded (w.invalidated c.key) (w.cache.epoch c.key) c
  stands : ∀ id c, w.calls.find id = some c → Stands w.calls c
  leads : ∀ k id, w.inflight.find k = some id →
    ∃ c, w.calls.find id = some c ∧ c.key = k ∧ Leads c

/-! ## A call moves on -/

section

variable {L : Bounds} {w : World} {id : Nat} {c c' : Call} {cache : Cache}
  {inflight : Dict CacheKey Nat}

theorem getD_ne {d : Dict CacheKey Nat} {k : CacheKey} (h : d.getD k 0 ≠ 0) : d.find k ≠ none := by
  intro hnone
  unfold Dict.getD at h
  rw [hnone] at h
  exact h rfl

section

variable (hs : Sound L w) (hc : w.calls.find id = some c) (hphase : c.phase ≠ .over)
include hs hc hphase

theorem building_of_active : w.cache.building.find c.key ≠ none := by
  refine getD_ne ?_
  rw [hs.counted c.key]
  have hpos : 0 < w.calls.items.countP fun kv => active c.key kv.2 := by
    refine countP_pos_iff.mpr ⟨(id, c), find_eq_some.mp hc, ?_⟩
    simp [active, hphase]
  omega

theorem floor_lt_clock : c.floor < w.clock :=
  (hs.guarded id c hc hphase).floor.trans_lt (hs.clock c.key)

end

variable (cache inflight) in
theorem sound_put (hs : Sound L w) (hbooked : Booked L cache)
    (hcached : ∀ k e, cache.entries.find k = some e → e.key = k ∧ w.invalidated k < e.built)
    (hepoch : ∀ i ci, i ≠ id → w.calls.find i = some ci → ci.phase ≠ .over →
      cache.epoch ci.key = w.cache.epoch ci.key)
    (hcounted : ∀ k, cache.building.getD k 0 + ((w.calls.find id).any (active k)).toNat =
      w.cache.building.getD k 0 + (active k c').toNat)
    (hguarded : c'.phase ≠ .over → Guarded (w.invalidated c'.key) (cache.epoch c'.key) c')
    (hstands : Stands (w.calls.set id c') c')
    (hawaited : ∀ c, w.calls.find id = some c → ∀ floor key, floor < w.clock →
      Awaited floor key c → Awaited floor key c') (hleads : ∀ k i, inflight.find k = some i →
      i = id ∧ c'.key = k ∧ Leads c' ∨ i ≠ id ∧ w.inflight.find k = some i) :
    Sound L { ({ w with cache := cache, inflight := inflight } : World).put id c' with
      clock := w.clock + 1 } where
  booked := hbooked
  clock := fun k => Nat.lt_succ_of_lt (hs.clock k)
  cached := hcached
  counted := by
    intro k
    have hset := Dict.countP_set w.calls id c' (active k)
    have hk := hcounted k
    rw [hs.counted k] at hk
    change cache.building.getD k 0 = (w.calls.set id c').items.countP _
    omega
  guarded := by
    intro i ci hci hphase
    change (w.calls.set id c').find i = some ci at hci
    rw [find_set] at hci
    split at hci
    · cases hci
      exact hguarded hphase
    · rename_i hne
      change Guarded (w.invalidated ci.key) (cache.epoch ci.key) ci
      rw [hepoch i ci (Ne.symm hne) hci hphase]
      exact hs.guarded i ci hci hphase
  stands := by
    intro i ci hci
    change (w.calls.set id c').find i = some ci at hci
    change Stands (w.calls.set id c') ci
    rw [find_set] at hci
    split at hci
    · cases hci
      exact hstands
    · have hold := hs.stands i ci hci
      unfold Stands at hold ⊢
      cases hphase : ci.phase with
      | waiting leader =>
        rw [hphase] at hold
        obtain ⟨hshared, l, hl, haw⟩ := hold
        refine ⟨hshared, ?_⟩
        rw [find_set]
        split
        · rename_i hid
          rw [← hid] at hl
          have hfloor := floor_lt_clock hs hci (by rw [hphase]; exact fun h => by cases h)
          exact ⟨c', rfl, hawaited l hl _ _ hfloor haw⟩
        · exact ⟨l, hl, haw⟩
      | _ =>
        rw [hphase] at hold
        exact hold
  leads := by
    intro k i hi
    change ∃ c, (w.calls.set id c').find i = some c ∧ _
    obtain ⟨rfl, hkey, hl⟩ | ⟨hne, hold⟩ := hleads k i hi
    · exact ⟨c', find_set_self _ _ _, hkey, hl⟩
    · rw [find_set_ne _ _ (Ne.symm hne)]
      exact hs.leads k i hold

variable (inflight) in
theorem sound_move (hs : Sound L w) (hc : w.calls.find id = some c) (hkey : c'.key = c.key)
    (hfloor : c'.floor = c.floor) (hcaptured : c'.captured = c.captured)
    (hbefore : c.phase ≠ .over) (hafter : c'.phase ≠ .over)
    (hstands : Stands (w.calls.set id c') c')
    (hawaited : ∀ floor key, floor < w.clock → Awaited floor key c → Awaited floor key c')
    (hleads : ∀ k i, inflight.find k = some i →
      i = id ∧ c'.key = k ∧ Leads c' ∨ i ≠ id ∧ w.inflight.find k = some i) :
    Sound L { ({ w with inflight := inflight } : World).put id c' with clock := w.clock + 1 } := by
  refine sound_put w.cache _ hs hs.booked hs.cached (fun _ _ _ _ _ => rfl) (fun k => ?_)
    (fun _ => ?_) hstands (fun c₀ hc₀ => ?_) hleads
  · rw [hc, any_some]
    simp [active, hkey, hbefore, hafter]
  · obtain ⟨hold, hsame, hle⟩ := hs.guarded id c hc hbefore
    rw [hkey]
    exact ⟨by rw [hcaptured]; exact hold, by rw [hcaptured, hfloor]; exact hsame,
      by rw [hfloor]; exact hle⟩
  · cases hc.symm.trans hc₀
    exact hawaited

theorem leads_same (hs : Sound L w) (hc : w.calls.find id = some c) (hkey : c'.key = c.key)
    (hl : Leads c → Leads c') (k : CacheKey) (i : Nat) (hi : w.inflight.find k = some i) :
    i = id ∧ c'.key = k ∧ Leads c' ∨ i ≠ id ∧ w.inflight.find k = some i := by
  by_cases hid : i = id
  · subst hid
    obtain ⟨c₀, hc₀, hk, hleads⟩ := hs.leads k i hi
    cases hc.symm.trans hc₀
    exact .inl ⟨rfl, hkey.trans hk, hl hleads⟩
  · exact .inr ⟨hid, hi⟩

variable {key : CacheKey}

theorem awaited_of_follower {floor : Nat} (hkey : c'.key = c.key) (hshared : c'.shared = c.shared)
    (hnot : ¬ Leads c) (haw : Awaited floor key c) : Awaited floor key c' := by
  unfold Awaited Leads at *
  rw [hkey, hshared]
  refine ⟨haw.1, ?_⟩
  cases hsome : c.shared with
  | some result =>
    rw [hsome] at haw
    exact haw.2
  | none =>
    rw [hsome] at haw hnot
    exfalso
    refine hnot ⟨rfl, ?_⟩
    have hphase := haw.2
    dsimp only at hphase
    split at hphase
    · simp
    · simp
    · simp
    · exact hphase

/-! ## The sections of a call -/

variable {e : IndexEntry}

theorem sound_hit (hs : Sound L w) (hnew : w.calls.find id = none)
    (he : w.cache.entries.find c.key = some e) (hover : c.phase = .over) :
    Sound L { ({ w with cache := w.cache.touch c.key e } : World).put id c with
      clock := w.clock + 1 } := by
  refine sound_put _ w.inflight hs (booked_touch hs.booked he) (fun k e' h => ?_)
    (fun _ _ _ _ _ => rfl) (fun k => ?_) (fun h => absurd hover h) ?_ (fun c₀ hc₀ => ?_) fun k i hi => ?_
  · rw [find_touch he] at h
    exact hs.cached k e' h
  · rw [hnew]
    simp [active, hover, Cache.touch]
  · unfold Stands
    rw [hover]
    trivial
  · rw [hnew] at hc₀
    cases hc₀
  · refine .inr ⟨?_, hi⟩
    rintro rfl
    obtain ⟨c₀, hc₀, _⟩ := hs.leads k i hi
    rw [hnew] at hc₀
    cases hc₀

theorem sound_capture (hs : Sound L w) (hnew : w.calls.find id = none) (key : CacheKey) :
    Sound L { ({ w with cache := w.cache.enter key } : World).put id {
        key := key
        floor := w.invalidated key
        captured := w.cache.epoch key
        phase := .captured } with clock := w.clock + 1 } := by
  refine sound_put _ w.inflight hs ⟨hs.booked.total, hs.booked.refs, hs.booked.bytes⟩
    hs.cached (fun _ _ _ _ _ => rfl) (fun k => ?_) (fun _ => ?_) rfl (fun c₀ hc₀ => ?_) fun k i hi => ?_
  · rw [hnew]
    change (w.cache.building.set key (w.cache.building.getD key 0 + 1)).getD k 0 + _ = _
    unfold Dict.getD
    rw [find_set]
    by_cases hk : key = k
    · subst hk
      simp [active]
    · simp [active, hk]
  · exact ⟨.inr ⟨rfl, le_rfl⟩, fun _ => rfl, le_rfl⟩
  · rw [hnew] at hc₀
    cases hc₀
  · refine .inr ⟨?_, hi⟩
    rintro rfl
    obtain ⟨c₀, hc₀, _⟩ := hs.leads k i hi
    rw [hnew] at hc₀
    cases hc₀

theorem not_leads_of_phase (h : ∀ b, c.phase ≠ .idle b) (h' : ∀ b s, c.phase ≠ .building b s)
    (h'' : ∀ s r, c.phase ≠ .landed s r) : ¬ Leads c := by
  rintro ⟨_, hphase⟩
  split at hphase
  · rename_i hp
    exact h true hp
  · rename_i s hp
    exact h' true s hp
  · rename_i s r hp
    exact h'' s r hp
  · exact hphase

section

variable (hs : Sound L w) (hc : w.calls.find id = some c)
include hs hc

theorem sound_follower (hkey : c'.key = c.key)
    (hfloor : c'.floor = c.floor) (hcaptured : c'.captured = c.captured)
    (hshared : c'.shared = c.shared) (hbefore : c.phase ≠ .over) (hafter : c'.phase ≠ .over)
    (hstands : Stands (w.calls.set id c') c') (hnot : ¬ Leads c) :
    Sound L { w.put id c' with clock := w.clock + 1 } := by
  refine sound_move w.inflight hs hc hkey hfloor hcaptured hbefore hafter hstands
    (fun floor key _ => awaited_of_follower hkey hshared hnot) ?_
  exact leads_same hs hc hkey fun h => absurd h hnot

theorem sound_join (hphase : c.phase = .captured)
    {leader : Nat} (hleader : w.inflight.find c.key = some leader)
    (hreg : ∀ l s, w.calls.find leader = some l →
      (∃ b, l.phase = .building b s) ∨ (∃ r, l.phase = .landed s r) → c.floor < s) :
    Sound L { w.put id { c with phase := .waiting leader } with clock := w.clock + 1 } := by
  have hold := hs.stands id c hc
  unfold Stands at hold
  rw [hphase] at hold
  have hnot : ¬ Leads c := by
    refine not_leads_of_phase ?_ ?_ ?_ <;> rw [hphase] <;> intros <;> exact fun h => by cases h
  obtain ⟨l, hl, hlkey, hlshared, hlphase⟩ := hs.leads c.key leader hleader
  have hne : leader ≠ id := by
    rintro rfl
    cases hc.symm.trans hl
    exact hnot ⟨hlshared, hlphase⟩
  refine sound_follower hs hc rfl rfl rfl rfl (by rw [hphase]; exact fun h => by cases h)
    (fun h => by cases h) ?_ hnot
  refine ⟨hold, l, ?_, hlkey, ?_⟩
  · rw [find_set_ne _ _ (Ne.symm hne)]
    exact hl
  · rw [hlshared]
    have hl' := hreg l
    split at hlphase
    · trivial
    · rename_i s hp
      exact hl' s hl (.inl ⟨true, hp⟩)
    · rename_i s r hp
      exact hl' s hl (.inr ⟨r, hp⟩)
    · exact hlphase.elim

theorem sound_lead (hphase : c.phase = .captured) :
    Sound L { ({ w with inflight := w.inflight.set c.key id } : World).put id
      { c with phase := .idle true } with clock := w.clock + 1 } := by
  have hold := hs.stands id c hc
  unfold Stands at hold
  rw [hphase] at hold
  have hnot : ¬ Leads c := by
    refine not_leads_of_phase ?_ ?_ ?_ <;> rw [hphase] <;> intros <;> exact fun h => by cases h
  refine sound_move _ hs hc rfl rfl rfl (by rw [hphase]; exact fun h => by cases h)
    (fun h => by cases h) hold (fun floor key _ => awaited_of_follower rfl rfl hnot) ?_
  intro k i hi
  rw [find_set] at hi
  split at hi
  · rename_i hk
    cases hi
    exact .inl ⟨rfl, hk, hold, trivial⟩
  · by_cases hid : i = id
    · subst hid
      obtain ⟨c₀, hc₀, _, hl⟩ := hs.leads k i hi
      cases hc.symm.trans hc₀
      exact absurd hl hnot
    · exact .inr ⟨hid, hi⟩

theorem sound_start {leader : Bool} (hphase : c.phase = .idle leader) :
    Sound L { w.put id { c with phase := .building leader w.clock } with
      clock := w.clock + 1 } := by
  have hold := hs.stands id c hc
  unfold Stands at hold
  rw [hphase] at hold
  have hbefore : c.phase ≠ .over := by
    rw [hphase]
    exact fun h => by cases h
  have hlt : c.floor < w.clock := floor_lt_clock hs hc hbefore
  refine sound_move w.inflight hs hc rfl rfl rfl hbefore (fun h => by cases h)
    ⟨hold, hlt⟩ (fun floor key hfloor haw => ?_) ?_
  · unfold Awaited at haw ⊢
    rw [hold, hphase] at haw
    rw [hold]
    refine ⟨haw.1, ?_⟩
    cases leader with
    | true => exact hfloor
    | false => exact haw.2.elim
  · refine leads_same hs hc rfl fun hl => ?_
    unfold Leads at hl ⊢
    rw [hphase] at hl
    cases leader with
    | true => exact ⟨hold, trivial⟩
    | false => exact hl.2.elim

theorem sound_finish {leader : Bool} {since : Nat}
    (hphase : c.phase = .building leader since) (bytes : Option Nat) :
    let result := bytes.map fun n =>
      ({ key := c.key, estimatedBytes := n, built := since } : IndexEntry)
    Sound L { w.put id { c with phase := if leader then .landed since result else .ready result }
      with clock := w.clock + 1 } := by
  have hold := hs.stands id c hc
  unfold Stands at hold
  rw [hphase] at hold
  obtain ⟨hshared, hfloor⟩ := hold
  have hbefore : c.phase ≠ .over := by
    rw [hphase]
    exact fun h => by cases h
  have hresult (e : IndexEntry) (he : bytes.map (fun n =>
      ({ key := c.key, estimatedBytes := n, built := since } : IndexEntry)) = some e) :
      e.key = c.key ∧ e.built = since := by
    obtain ⟨n, _, rfl⟩ := map_eq_some_iff.mp he
    exact ⟨rfl, rfl⟩
  dsimp only
  cases leader with
  | true =>
    rw [if_pos rfl]
    refine sound_move w.inflight hs hc rfl rfl rfl hbefore (fun h => by cases h)
      ⟨hshared, hfloor, hresult⟩ (fun floor key _ haw => ?_) ?_
    · unfold Awaited at haw ⊢
      rw [hshared, hphase] at haw
      rw [hshared]
      exact haw
    · exact leads_same hs hc rfl fun _ => ⟨hshared, trivial⟩
  | false =>
    rw [if_neg (by decide)]
    have hnot : ¬ Leads c := by
      rintro ⟨_, hl⟩
      rw [hphase] at hl
      exact hl
    refine sound_follower hs hc rfl rfl rfl rfl hbefore (fun h => by cases h) ?_ hnot
    intro e he
    obtain ⟨hkey, hbuilt⟩ := hresult e he
    exact ⟨hkey, by rw [hbuilt]; exact hfloor⟩

end

variable {result : Option IndexEntry}

section

variable (hs : Sound L w) (hc : w.calls.find id = some c)
include hs hc

theorem sound_publish {since : Nat} (hphase : c.phase = .landed since result) :
    Sound L { ({ w with inflight := without w.inflight c.key } : World).put id
      { c with phase := .ready result, shared := some result } with clock := w.clock + 1 } := by
  have hold := hs.stands id c hc
  unfold Stands at hold
  rw [hphase] at hold
  obtain ⟨hshared, hfloor, hresult⟩ := hold
  have hfresh {floor : Nat} (hlt : floor < since) : Fresh c.key floor result := by
    intro e he
    obtain ⟨hkey, hbuilt⟩ := hresult e he
    exact ⟨hkey, by rw [hbuilt]; exact hlt⟩
  refine sound_move _ hs hc rfl rfl rfl (by rw [hphase]; exact fun h => by cases h)
    (fun h => by cases h) (hfresh hfloor) (fun floor key _ haw => ?_) ?_
  · unfold Awaited at haw ⊢
    rw [hshared, hphase] at haw
    obtain ⟨rfl, hlt⟩ := haw
    exact ⟨rfl, hfresh hlt⟩
  · intro k i hi
    by_cases hk : k = c.key
    · subst hk
      rw [show (without w.inflight c.key).find c.key = none from Dict.find_delete_self _ _] at hi
      cases hi
    · rw [show (without w.inflight c.key).find k = w.inflight.find k from
        Dict.find_delete_ne _ hk] at hi
      refine .inr ⟨?_, hi⟩
      rintro rfl
      obtain ⟨c₀, hc₀, hkey, _⟩ := hs.leads k i hi
      cases hc.symm.trans hc₀
      exact hk hkey.symm

theorem sound_wake {leader : Nat}
    (hphase : c.phase = .waiting leader) {l : Call} (hl : w.calls.find leader = some l)
    (hresult : l.shared = some result) :
    Sound L { w.put id { c with phase := .ready result } with clock := w.clock + 1 } := by
  have hold := hs.stands id c hc
  unfold Stands at hold
  rw [hphase] at hold
  obtain ⟨_, l', hl', haw⟩ := hold
  cases hl.symm.trans hl'
  unfold Awaited at haw
  rw [hresult] at haw
  refine sound_follower hs hc rfl rfl rfl rfl (by rw [hphase]; exact fun h => by cases h)
    (fun h => by cases h) haw.2 ?_
  refine not_leads_of_phase ?_ ?_ ?_ <;> rw [hphase] <;> intros <;> exact fun h => by cases h

theorem sound_direct (hphase : c.phase = .captured ∨ ∃ leader, c.phase = .waiting leader) :
    Sound L { w.put id { c with phase := .idle false } with clock := w.clock + 1 } := by
  have hold := hs.stands id c hc
  unfold Stands at hold
  have hshared : c.shared = none := by
    obtain hphase | ⟨leader, hphase⟩ := hphase <;> rw [hphase] at hold
    · exact hold
    · exact hold.1
  have hnot : ¬ Leads c := by
    obtain hphase | ⟨leader, hphase⟩ := hphase <;> refine not_leads_of_phase ?_ ?_ ?_ <;>
      rw [hphase] <;> intros <;> exact fun h => by cases h
  refine sound_follower hs hc rfl rfl rfl rfl ?_ (fun h => by cases h) hshared hnot
  obtain hphase | ⟨leader, hphase⟩ := hphase <;> rw [hphase] <;> exact fun h => by cases h

end

/-! ## The last section -/

theorem getD_leave (c : Cache) (key k : CacheKey) :
    (c.leave key).building.getD k 0 =
      if k = key then c.building.getD key 0 - 1 else c.building.getD k 0 := by
  unfold Cache.leave Dict.getD
  dsimp only
  by_cases hk : k = key
  · subst hk
    rw [if_pos rfl]
    split
    · rename_i hzero
      rw [show (without c.building k).find k = none from Dict.find_delete_self _ _]
      exact hzero.symm
    · rw [find_set_self]
      rfl
  · rw [if_neg hk]
    split
    · rw [show (without c.building key).find k = c.building.find k from Dict.find_delete_ne _ hk]
    · rw [find_set_ne _ _ (Ne.symm hk)]

theorem counted_leave (hs : Sound L w) (hc : w.calls.find id = some c) (hphase : c.phase ≠ .over)
    (k : CacheKey) : (w.cache.leave c.key).building.getD k 0 +
      ((w.calls.find id).any (active k)).toNat = w.cache.building.getD k 0 := by
  rw [getD_leave, hc, any_some]
  by_cases hk : k = c.key
  · subst hk
    have hpos : w.cache.building.getD c.key 0 ≠ 0 := by
      rw [hs.counted c.key]
      refine Nat.pos_iff_ne_zero.mp (countP_pos_iff.mpr ⟨(id, c), find_eq_some.mp hc, ?_⟩)
      simp [active, hphase]
    have hactive : active c.key c := by simp [active, hphase]
    rw [if_pos rfl, hactive]
    change _ - 1 + 1 = _
    omega
  · have hidle : active k c = false := by
      simp only [active, Bool.and_eq_false_imp, decide_eq_false_iff_not]
      exact fun _ h => hk h.symm
    rw [if_neg hk, hidle]
    rfl

theorem sound_over (hs : Sound L w) (hc : w.calls.find id = some c)
    (hphase : c.phase = .ready result) (hbuilding : cache.building = (w.cache.leave c.key).building)
    (hbooked : Booked L cache)
    (hcached : ∀ k e, cache.entries.find k = some e → e.key = k ∧ w.invalidated k < e.built)
    (hepoch : ∀ k, (w.cache.leave c.key).building.find k ≠ none → cache.epoch k = w.cache.epoch k) :
    Sound L { ({ w with cache := cache } : World).put id { c with phase := .over } with
      clock := w.clock + 1 } := by
  have hbefore : c.phase ≠ .over := by
    rw [hphase]
    exact fun h => by cases h
  have hnot : ¬ Leads c := by
    refine not_leads_of_phase ?_ ?_ ?_ <;> rw [hphase] <;> intros <;> exact fun h => by cases h
  have hcounted (k : CacheKey) : cache.building.getD k 0 +
      ((w.calls.find id).any (active k)).toNat = w.cache.building.getD k 0 := by
    rw [hbuilding]
    exact counted_leave hs hc hbefore k
  refine sound_put _ w.inflight hs hbooked hcached (fun i ci hne hci hci' => ?_)
    (fun k => ?_) (fun h => absurd rfl h) trivial (fun c₀ hc₀ floor key _ => ?_) ?_
  · refine hepoch ci.key (getD_ne ?_)
    have hk := hcounted ci.key
    rw [hs.counted ci.key, hbuilding] at hk
    -- the other call is counted too
    have hset := Dict.countP_set w.calls id { c with phase := .over } (active ci.key)
    have hover : active ci.key { c with phase := .over } = false := by simp [active]
    have hpos : 0 < (w.calls.set id { c with phase := .over }).items.countP
        fun kv => active ci.key kv.2 := by
      refine countP_pos_iff.mpr ⟨(i, ci), find_eq_some.mp ?_, ?_⟩
      · rw [find_set_ne _ _ (Ne.symm hne)]
        exact hci
      · simp [active, hci']
    rw [hover] at hset
    change _ = _ + 0 at hset
    omega
  · have hover : active k { c with phase := .over } = false := by simp [active]
    rw [hcounted k, hover]
    rfl
  · cases hc.symm.trans hc₀
    exact awaited_of_follower rfl rfl hnot
  · exact leads_same hs hc rfl fun h => absurd h hnot

theorem settle_spec {cache : Cache} (hb : Booked L cache) (key : CacheKey) (captured : Nat × Nat)
    (e : IndexEntry) (now : Rat) :
    let r := cache.settle L key captured e now
    r.2.building = (cache.leave key).building ∧ Booked L r.2 ∧
      (∀ k, (cache.leave key).building.find k ≠ none → r.2.epoch k = cache.epoch k) ∧
      (∀ k e', r.2.entries.find k = some e' →
        (k = key ∧ e' = e ∧ cache.epoch key = captured) ∨ cache.entries.find k = some e') ∧
      ∀ e', r.1 = some e' → (e' = e ∨ cache.entries.find key = some e') := by
  have hbooked : Booked L (cache.leave key) := ⟨hb.total, hb.refs, hb.bytes⟩
  unfold Cache.settle
  dsimp only
  split
  · exact ⟨pruneEpochs_building _,
      ⟨by rw [pruneEpochs_entries, pruneEpochs_totalBytes]; exact hb.total,
        by rw [pruneEpochs_entries]; exact hb.refs,
        by rw [pruneEpochs_totalBytes]; exact hb.bytes⟩,
      fun k hk => epoch_pruneEpochs L now (cache.leave key) hk,
      fun k e' he' => .inr (by rw [pruneEpochs_entries] at he'; exact he'),
      fun _ he' => by cases he'⟩
  · rename_i hsame
    rw [not_not] at hsame
    split
    · rename_i existing hexisting
      refine ⟨rfl, hbooked, fun _ _ => rfl, fun k e' he' => .inr he', fun e' he' => ?_⟩
      cases he'
      exact .inr hexisting
    · rename_i hnone
      split
      · refine ⟨rfl, hbooked, fun _ _ => rfl, fun k e' he' => .inr he', fun e' he' => ?_⟩
        cases he'
        exact .inl rfl
      · obtain ⟨hinserted, hentries⟩ := insert_spec e now hbooked hnone
        refine ⟨insert_building key e, hinserted,
          fun k hk => epoch_insert hk key e, fun k e' he' => ?_, fun e' he' => ?_⟩
        · exact (hentries k e' he').imp (fun h => ⟨h.1, h.2, hsame⟩) id
        · cases he'
          exact .inl rfl

theorem sound_settle (hs : Sound L w) (hc : w.calls.find id = some c)
    (hphase : c.phase = .ready (some e)) (now : Rat) :
    let r := w.cache.settle L c.key c.captured e now
    Sound L { ({ w with cache := r.2 } : World).put id { c with phase := .over } with
      clock := w.clock + 1 } ∧ ∀ e', r.1 = some e' → e'.key = c.key ∧ c.floor < e'.built := by
  have hbefore : c.phase ≠ .over := by
    rw [hphase]
    exact fun h => by cases h
  have hfresh : Fresh c.key c.floor (some e) := by
    have hold := hs.stands id c hc
    unfold Stands at hold
    rw [hphase] at hold
    exact hold
  obtain ⟨hkey, hbuilt⟩ := hfresh e rfl
  have hguard := hs.guarded id c hc hbefore
  obtain ⟨hbuilding, hbooked, hepoch, hentries, hreturned⟩ :=
    settle_spec hs.booked c.key c.captured e now
  refine ⟨sound_over hs hc hphase hbuilding hbooked (fun k e' he' => ?_) hepoch, fun e' he' => ?_⟩
  · obtain ⟨rfl, rfl, hcurrent⟩ | hold := hentries k e' he'
    · rw [hguard.same hcurrent.symm]
      exact ⟨hkey, hbuilt⟩
    · exact hs.cached k e' hold
  · obtain rfl | hexisting := hreturned e' he'
    · exact ⟨hkey, hbuilt⟩
    · obtain ⟨hkey', hbuilt'⟩ := hs.cached c.key e' hexisting
      exact ⟨hkey', hguard.floor.trans_lt hbuilt'⟩

/-! ## Invalidations -/

/-- An epoch that went up. -/
def Newer (old new : Nat × Nat) : Prop := old.1 < new.1 ∨ old.1 = new.1 ∧ old.2 < new.2

theorem sound_invalidate (hs : Sound L w) {keys : CacheKey → Bool} (hbooked : Booked L cache)
    (hbuilding : cache.building = w.cache.building)
    (hentries : ∀ k e, cache.entries.find k = some e →
      keys k = false ∧ w.cache.entries.find k = some e)
    (hepoch : ∀ k, w.cache.building.find k ≠ none →
      if keys k then Newer (w.cache.epoch k) (cache.epoch k)
      else cache.epoch k = w.cache.epoch k) :
    Sound L { w.invalidate cache keys with clock := w.clock + 1 } where
  booked := hbooked
  clock := by
    intro k
    change (if keys k then w.clock else w.invalidated k) < w.clock + 1
    split
    · omega
    · exact Nat.lt_succ_of_lt (hs.clock k)
  cached := by
    intro k e he
    obtain ⟨hkeys, hold⟩ := hentries k e he
    change e.key = k ∧ (if keys k then w.clock else w.invalidated k) < e.built
    rw [hkeys, if_neg (by decide)]
    exact hs.cached k e hold
  counted := by
    intro k
    change cache.building.getD k 0 = _
    rw [hbuilding]
    exact hs.counted k
  guarded := by
    intro i ci hci hphase
    have hold := hs.guarded i ci hci hphase
    have hnew := hepoch ci.key (building_of_active hs hci hphase)
    change Guarded (if keys ci.key then w.clock else w.invalidated ci.key) (cache.epoch ci.key) ci
    split at hnew
    · rename_i hkeys
      rw [if_pos hkeys]
      have hclock := hs.clock ci.key
      have holder := hold.older
      have hfloor := hold.floor
      unfold Newer at hnew
      refine ⟨by omega, fun hsame => ?_, by omega⟩
      have h1 := congrArg Prod.fst hsame
      have h2 := congrArg Prod.snd hsame
      omega
    · rename_i hkeys
      rw [if_neg hkeys, hnew]
      exact hold
  stands := hs.stands
  leads := hs.leads

theorem sound_invalidateRef (hs : Sound L w) (key : CacheKey) (now : Rat) :
    Sound L { w.invalidate (w.cache.invalidateRef key now) (fun k => k = key) with
      clock := w.clock + 1 } := by
  have hbumped : Booked L (w.cache.bump key now) :=
    ⟨hs.booked.total, hs.booked.refs, hs.booked.bytes⟩
  refine sound_invalidate hs (booked_drop hbumped) (drop_building _ key)
    (fun k e he => ?_) fun k _ => ?_
  · have hfind : (w.cache.invalidateRef key now).entries.find k = _ := Cache.find_drop _ key k
    rw [hfind] at he
    split at he
    · cases he
    rename_i hk
    exact ⟨decide_eq_false hk, he⟩
  · have hdrop : (w.cache.invalidateRef key now).epoch k = _ := epoch_drop _ key k
    rw [hdrop]
    split
    · rename_i hk
      rw [of_decide_eq_true hk, epoch_bump_self]
      exact .inr ⟨rfl, Nat.lt_succ_self _⟩
    · rename_i hk
      exact epoch_bump_ne w.cache (by simpa using hk) now

theorem sound_invalidateSession (hs : Sound L w) (sid : String) (now : Rat) :
    Sound L { w.invalidate (w.cache.invalidateSession sid now) (fun k => k.1 = sid) with
      clock := w.clock + 1 } := by
  obtain ⟨hentries, htotal, hbuilding, hgen⟩ :=
    bumps_fields (w.cache.affected sid) w.cache now
  have hbumps := epoch_bumps (w.cache.affected sid) w.cache now
  have hdrops := drops_fields (L := L) (w.cache.entries.keys.filter fun key => key.1 = sid)
    ((w.cache.affected sid).foldl (fun c key => c.bump key now) w.cache)
  obtain ⟨hepoch, hbuilding', hfind, hbooked⟩ := hdrops
  refine sound_invalidate hs (hbooked ⟨?_, ?_, ?_⟩) (hbuilding'.trans hbuilding)
    (fun k e he => ?_) fun k hk => ?_
  · rw [htotal, hentries]
    exact hs.booked.total
  · rw [hentries]
    exact hs.booked.refs
  · rw [htotal]
    exact hs.booked.bytes
  · have hfound : (w.cache.invalidateSession sid now).entries.find k = _ := hfind k
    rw [hfound, hentries] at he
    split at he
    · cases he
    rename_i hmem
    refine ⟨decide_eq_false fun hsid => hmem ?_, he⟩
    exact mem_filter.mpr ⟨mem_keys_iff.mpr ⟨e, he⟩, decide_eq_true hsid⟩
  · have hsame : (w.cache.invalidateSession sid now).epoch k = _ := hepoch k
    obtain ⟨_, hlt, heq⟩ := hbumps k
    rw [hsame]
    split
    · rename_i hsid
      have hmem : k ∈ w.cache.affected sid := by
        refine mem_dedup.mpr (mem_filter.mpr ⟨mem_append_right _ ?_, hsid⟩)
        obtain ⟨n, hn⟩ := ne_none_iff_exists'.mp hk
        exact mem_keys_iff.mpr ⟨n, hn⟩
      refine .inr ⟨?_, hlt hmem⟩
      exact hgen.symm
    · rename_i hsid
      refine heq fun hmem => hsid ?_
      exact (mem_filter.mp (mem_dedup.mp hmem)).2

theorem sound_clear (hs : Sound L w) :
    Sound L { w.invalidate w.cache.clear (fun _ => true) with clock := w.clock + 1 } := by
  refine sound_invalidate hs ⟨rfl, Nat.zero_le _, Int.natCast_nonneg _⟩ rfl (fun k e he => ?_)
    fun k _ => ?_
  · cases he
  · exact .inl (Nat.lt_succ_self _)

/-! ## Runs -/

variable {w' : World} {a : Action} {returned : Option (Nat × IndexEntry)}

/-- No build that a call joins began before the call's key was last invalidated. -/
def Regular (w : World) : Action → Prop
  | .enter id => ∀ c leader l s, w.calls.find id = some c → w.inflight.find c.key = some leader →
      w.calls.find leader = some l →
      (∃ b, l.phase = .building b s) ∨ (∃ r, l.phase = .landed s r) → c.floor < s
  | _ => True

/-- The call of the entry has not seen its key invalidated since the build began. -/
def Returns (w : World) (returned : Option (Nat × IndexEntry)) : Prop :=
  ∀ id e, returned = some (id, e) →
    ∃ c, w.calls.find id = some c ∧ e.key = c.key ∧ c.floor < e.built

theorem returns_none (w : World) : Returns w none := fun _ _ h => by cases h

section

variable (hs : Sound L w)
include hs

theorem sound_act_call (h : w.act L (.call id key) = some (w', returned)) :
    Sound L { w' with clock := w'.clock + 1 } ∧ Returns w' returned := by
  dsimp only [World.act] at h
  split at h
  · cases h
  rename_i hnew
  cases he : w.cache.entries.find key with
  | none =>
    rw [he] at h
    cases h
    exact ⟨sound_capture hs hnew key, returns_none _⟩
  | some e =>
    rw [he] at h
    cases h
    refine ⟨sound_hit (c := ⟨key, w.invalidated key, w.cache.epoch key, .over, none⟩) hs hnew he
      rfl, fun i e' hret => ?_⟩
    cases hret
    obtain ⟨hkey, hbuilt⟩ := hs.cached key e he
    exact ⟨_, find_set_self _ _ _, hkey, hbuilt⟩

theorem sound_act_enter (hreg : Regular w (.enter id))
    (h : w.act L (.enter id) = some (w', returned)) :
    Sound L { w' with clock := w'.clock + 1 } ∧ Returns w' returned := by
  obtain ⟨c, hc, h⟩ := bind_eq_some_iff.mp h
  split at h
  · rename_i hphase
    split at h
    · rename_i leader hleader
      cases h
      refine ⟨sound_join hs hc hphase hleader fun l s hl hs' => ?_, returns_none _⟩
      exact hreg c leader l s hc hleader hl hs'
    · split at h
      · cases h
        exact ⟨sound_direct hs hc (.inl hphase), returns_none _⟩
      · cases h
        exact ⟨sound_lead hs hc hphase, returns_none _⟩
  · cases h

theorem sound_act_build (bytes : Option Nat) (h : w.act L (.start id) = some (w', returned) ∨
      w.act L (.finish id bytes) = some (w', returned) ∨
      w.act L (.publish id) = some (w', returned)) :
    Sound L { w' with clock := w'.clock + 1 } ∧ Returns w' returned := by
  obtain h | h | h := h <;> obtain ⟨c, hc, h⟩ := bind_eq_some_iff.mp h <;> split at h
  · rename_i leader hphase
    cases h
    exact ⟨sound_start hs hc hphase, returns_none _⟩
  · cases h
  · rename_i leader since hphase
    have hfinish := sound_finish hs hc hphase bytes
    cases leader <;> cases h <;> exact ⟨hfinish, returns_none _⟩
  · cases h
  · rename_i since result hphase
    cases h
    exact ⟨sound_publish hs hc hphase, returns_none _⟩
  · cases h

theorem sound_act_wait (h : w.act L (.wake id) = some (w', returned) ∨ w.act L (.timeout id) = some (w', returned)) :
    Sound L { w' with clock := w'.clock + 1 } ∧ Returns w' returned := by
  obtain h | h := h <;> obtain ⟨c, hc, h⟩ := bind_eq_some_iff.mp h <;> split at h
  · rename_i leader hphase
    obtain ⟨l, hl, h⟩ := bind_eq_some_iff.mp h
    obtain ⟨result, hresult, h⟩ := bind_eq_some_iff.mp h
    cases h
    exact ⟨sound_wake hs hc hphase hl hresult, returns_none _⟩
  · cases h
  · rename_i leader hphase
    obtain ⟨l, hl, h⟩ := bind_eq_some_iff.mp h
    split at h
    · cases h
    cases h
    exact ⟨sound_direct hs hc (.inr ⟨leader, hphase⟩), returns_none _⟩
  · cases h

theorem sound_act_settle {now : Rat} (h : w.act L (.settle id now) = some (w', returned)) :
    Sound L { w' with clock := w'.clock + 1 } ∧ Returns w' returned := by
  obtain ⟨c, hc, h⟩ := bind_eq_some_iff.mp h
  split at h
  · rename_i hphase
    cases h
    refine ⟨sound_over hs hc hphase rfl ?_ hs.cached fun _ _ => rfl, returns_none _⟩
    exact ⟨hs.booked.total, hs.booked.refs, hs.booked.bytes⟩
  · rename_i e hphase
    obtain ⟨hsound, hfresh⟩ := sound_settle hs hc hphase now
    cases h
    refine ⟨hsound, fun i e' hret => ?_⟩
    obtain ⟨found, hfound, heq⟩ := map_eq_some_iff.mp hret
    cases heq
    obtain ⟨hkey, hbuilt⟩ := hfresh _ hfound
    exact ⟨_, find_set_self _ _ _, hkey, hbuilt⟩
  · cases h

theorem sound_step (hreg : Regular w a) (h : w.step L a = some (w', returned)) :
    Sound L w' ∧ Returns w' returned := by
  obtain ⟨⟨w₁, r₁⟩, hact, heq⟩ := map_eq_some_iff.mp h
  cases heq
  cases a with
  | call id key => exact sound_act_call hs hact
  | enter id => exact sound_act_enter hs hreg hact
  | start id => exact sound_act_build hs none (.inl hact)
  | finish id bytes => exact sound_act_build hs bytes (.inr (.inl hact))
  | publish id => exact sound_act_build hs none (.inr (.inr hact))
  | wake id => exact sound_act_wait hs (.inl hact)
  | timeout id => exact sound_act_wait hs (.inr hact)
  | settle id now => exact sound_act_settle hs hact
  | invalidateRef key now =>
    cases hact
    exact ⟨sound_invalidateRef hs key now, returns_none _⟩
  | invalidateSession sid now =>
    cases hact
    exact ⟨sound_invalidateSession hs sid now, returns_none _⟩
  | clear =>
    cases hact
    exact ⟨sound_clear hs, returns_none _⟩

end

/-- The worlds after actions that meet a condition. -/
inductive Run (L : Bounds) (ok : World → Action → Prop) : World → Prop where
  | start : Run L ok {}
  | step {w w' : World} {a : Action} {returned : Option (Nat × IndexEntry)} : Run L ok w → ok w a →
      w.step L a = some (w', returned) → Run L ok w'

theorem sound_start_run (L : Bounds) : Sound L {} where
  booked := ⟨rfl, Nat.zero_le _, Int.natCast_nonneg _⟩
  clock := fun _ => Nat.zero_lt_one
  cached := fun _ _ h => by cases h
  counted := fun _ => rfl
  guarded := fun _ _ h => by cases h
  stands := fun _ _ h => by cases h
  leads := fun _ _ h => by cases h

theorem sound_of_run (hrun : Run L Regular w) : Sound L w := by
  induction hrun with
  | start => exact sound_start_run L
  | step _ hreg hstep ih => exact (sound_step ih hreg hstep).1

/-- What a call returns, and what the cache keeps, comes of a build that began after its key was
    last invalidated before the call; and the books of the cache are right. -/
structure NoGhost (L : Bounds) (w : World) (returned : Option (Nat × IndexEntry)) : Prop where
  returned : Returns w returned
  kept : ∀ k e, w.cache.entries.find k = some e → e.key = k ∧ w.invalidated k < e.built
  booked : Booked L w.cache

/-- In a run where no call joins a build that began before its key was last invalidated, there are
    no ghosts. -/
theorem returns_fresh (hrun : Run L Regular w) (hreg : Regular w a)
    (h : w.step L a = some (w', returned)) : NoGhost L w' returned := by
  obtain ⟨hs, hret⟩ := sound_step (sound_of_run hrun) hreg h
  exact ⟨hret, hs.cached, hs.booked⟩

end

/-! ## Two calls -/

/-- Actions one after the other. -/
def World.play (L : Bounds) (w : World) : List Action → Option World
  | [] => some w
  | a :: rest => (w.step L a).bind fun r => World.play L r.1 rest

theorem run_play {L : Bounds} {w w' : World} (hrun : Run L (fun _ _ => True) w) :
    ∀ {actions : List Action}, w.play L actions = some w' → Run L (fun _ _ => True) w' := by
  intro actions
  induction actions generalizing w with
  | nil =>
    intro h
    cases h
    exact hrun
  | cons a rest ih =>
    intro h
    obtain ⟨⟨w₁, r₁⟩, hstep, h⟩ := bind_eq_some_iff.mp h
    exact ih (hrun.step trivial hstep) h

def oneKey : CacheKey := ("s", "r")

/-- A second call comes after an invalidation, and joins the build that began before it. -/
def ghostly : List Action :=
  [.call 1 oneKey, .enter 1, .start 1, .invalidateRef oneKey 0, .call 2 oneKey, .enter 2,
    .finish 1 (some 10), .publish 1, .wake 2]

/-- The second call returns the entry of the build before the invalidation, and keeps it. -/
theorem ghost_returned : ¬ ∀ (L : Bounds) (w w' : World) (a : Action)
    (returned : Option (Nat × IndexEntry)), Run L (fun _ _ => True) w →
      w.step L a = some (w', returned) → NoGhost L w' returned := by
  intro hall
  obtain ⟨w, hw⟩ : ∃ w, World.play {} {} ghostly = some w := ⟨_, rfl⟩
  obtain ⟨⟨w', returned⟩, hstep⟩ : ∃ r, w.step {} (.settle 2 0) = some r := by
    cases hw
    exact ⟨_, rfl⟩
  have hkept := (hall {} w w' (.settle 2 0) returned (run_play .start hw) hstep).kept oneKey
  cases hw
  cases hstep
  exact absurd (hkept _ rfl).2 (by decide)

/-- A call that builds what it returns. -/
theorem returns_fresh_alone : ∃ w w' e,
    World.play {} {} [.call 1 oneKey, .enter 1, .start 1, .finish 1 (some 10), .publish 1] = some w ∧
      w.step {} (.settle 1 0) = some (w', some (1, e)) ∧ NoGhost {} w' (some (1, e)) := by
  have hrun : Run {} Regular {} := .start
  have hrun := hrun.step (a := .call 1 oneKey) trivial rfl
  have hrun := hrun.step (a := .enter 1) (fun c leader l s hc hleader => by
    cases hc
    cases hleader) rfl
  have hrun := hrun.step (a := .start 1) trivial rfl
  have hrun := hrun.step (a := .finish 1 (some 10)) trivial rfl
  have hrun := hrun.step (a := .publish 1) trivial rfl
  exact ⟨_, _, _, rfl, rfl, returns_fresh (a := .settle 1 0) hrun trivial rfl⟩

end WebGis.Tiles
