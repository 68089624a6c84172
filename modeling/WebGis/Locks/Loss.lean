/-
  The loss of a key is noticed by the renewer, and by nobody else.

  The scripts compare the token, so a key of another owner is neither deleted nor extended
  (`Spares`). But the answer of the release script is not looked at: a block whose key ran out and
  was taken by another owner ends without an exception if the renewer has not come to it
  (`stalled_unreported`). Where a block is left with its own key or with `lost` set (`noticed`), it
  does not (`loss_reported`).
-/
import WebGis.Locks.Registry
import WebGis.Data.Play

namespace WebGis.Locks

open Data Option Dict SessionLock

/-- The block has not been left, or not without an exception. -/
def SessionLock.warned (l : SessionLock) : Bool :=
  match l.phase with
  | .inside => true
  | .releasing (.block raised) => raised || l.lost
  | .releasing .call => true
  | .raised _ => true
  | .released => true
  | _ => false

namespace LockWorld

/-- A lock that fails on a loss leaves its block with `lost` set or with its key. -/
def noticed (w : LockWorld) : LockAction → Bool
  | .exit id false => (w.locks.find id).all fun l =>
    l.mode ≠ .redis || !l.failOnLost || l.lost || w.owned l
  | _ => true

/-- The key of the session has the token of another owner. -/
def Intruded (w : LockWorld) (l : SessionLock) : Prop :=
  ∃ t, w.owner l.session = some t ∧ l.token ≠ some t

/-- A block under which another owner had the key is not left without an exception. -/
def Reported (allowed : LockWorld → LockAction → Bool) (w : LockWorld) : Prop :=
  ∀ id l, w.locks.find id = some l → l.held = true → l.mode = .redis → l.failOnLost = true →
    w.Intruded l → ∀ w', Relation.ReflTransGen (Step step allowed) w w' →
      ∀ l', w'.locks.find id = some l' → l'.phase ≠ .returned

/-- No lock touches a key that has the token of another. -/
def Spares (w : LockWorld) : Prop :=
  ∀ a w' id l, step w a = some w' → actor a = some id → w.locks.find id = some l →
    ∀ session s, w.keys.find session = some s → w.now ≤ s.expiry → l.token ≠ some s.token →
      w'.keys.find session = some s

variable {w w' : LockWorld} {id : Nat} {l l' : SessionLock}

variable {session : String}

theorem owner_of_live {s : Stored} (hs : w.keys.find session = some s) (hlive : w.now ≤ s.expiry) :
    w.owner session = some s.token := by
  unfold owner
  rw [hs]
  simp [Option.filter, hlive]

/-- What a step of a lock does to the keys: one set where there was none, or its own set again or
    deleted. -/
inductive Touches (w : LockWorld) (id : Nat) (l : SessionLock) (keys : Dict String Stored) : Prop
  | none (h : keys = w.keys)
  | sets (s : Stored) (hs : s.token = id)
      (hfree : w.owner l.session = .none ∧ l.phase.early = true ∨ w.owned l = true)
      (h : keys = w.keys.set l.session s)
  | deletes (howned : w.owned l = true)
      (h : keys = Table.delete w.keys fun kv => kv.1 = l.session)

/-- The step changes one lock and at most its key. -/
structure Acts (w w' : LockWorld) (id : Nat) (l l' : SessionLock) : Prop where
  now : w'.now = w.now
  next : w'.nextLock = w.nextLock
  keys : Touches w id l w'.keys
  locks : ∀ j, w'.locks.find j = if id = j then some l' else w.locks.find j
  session : l'.session = l.session
  token : ∀ t, l'.token = some t → t = id ∨ l.token = some t

theorem acts_put (hsession : l'.session = l.session)
    (htoken : ∀ t, l'.token = some t → t = id ∨ l.token = some t) :
    Acts w (w.put id l') id l l' where
  now := rfl
  next := rfl
  keys := .none rfl
  locks _ := find_set _ _ _ _
  session := hsession
  token := htoken

theorem Acts.mutexes (h : Acts w w' id l l') (mutexes : Dict Nat Mutex) :
    Acts w { w' with mutexes := mutexes } id l l' where
  now := h.now
  next := h.next
  keys := h.keys
  locks := h.locks
  session := h.session
  token := h.token

theorem acts_phase (w : LockWorld) (id : Nat) (l : SessionLock) (phase : Phase) :
    Acts w (w.put id { l with phase := phase }) id l { l with phase := phase } :=
  acts_put rfl fun _ => .inr

theorem acts_seat (w : LockWorld) (id : Nat) (l : SessionLock) (m : Nat) (mutex : Mutex)
    (phase : Phase) :
    Acts w ((w.putMutex m mutex).put id { l with phase := phase }) id l { l with phase := phase } :=
  (acts_phase w id l phase).mutexes _

theorem acts_self (hfind : w.locks.find id = some l) : Acts w w id l l where
  now := rfl
  next := rfl
  keys := .none rfl
  locks j := by
    split
    · rename_i heq
      rw [← heq, hfind]
    · rfl
  session := rfl
  token _ := .inr

variable {keys : Dict String Stored}

theorem Acts.rekeyed (h : Acts w w' id l l') (hkeys : Touches w id l keys) :
    Acts w { w' with keys := keys } id l l' where
  now := h.now
  next := h.next
  keys := hkeys
  locks := h.locks
  session := h.session
  token := h.token

theorem acts_setNx (w : LockWorld) (id : Nat) (deadline : Nat) (hearly : l.phase.early) :
    ∃ ok, Acts w (w.setNx id l deadline) id l { l with phase := .answered deadline ok } := by
  have hput : ∀ ok, Acts w (w.put id { l with phase := .answered deadline ok }) id l
      { l with phase := .answered deadline ok } := fun ok => acts_put rfl fun _ => .inr
  unfold setNx
  split
  · exact ⟨false, hput false⟩
  · rename_i hnone
    exact ⟨true, (hput true).rekeyed (.sets _ rfl (.inl ⟨hnone, hearly⟩) rfl)⟩

theorem acts_renew (w : LockWorld) (id : Nat) (l : SessionLock) (failures : Nat) :
    ∃ ok, Acts w (w.renew id l failures) id l { l with renewer := .answered ok failures } := by
  have hput : ∀ ok, Acts w (w.put id { l with renewer := .answered ok failures }) id l
      { l with renewer := .answered ok failures } := fun ok => acts_put rfl fun _ => .inr
  unfold renew
  split
  · rename_i howned
    exact ⟨true, (hput true).rekeyed (.sets _ rfl (.inr howned) rfl)⟩
  · exact ⟨false, hput false⟩

theorem acts_del (hfind : w.locks.find id = some l) : Acts w (w.del l) id l l := by
  unfold del
  split
  · rename_i howned
    exact (acts_self hfind).rekeyed (.deletes howned rfl)
  · exact acts_self hfind

/-! ## Once intruded on -/

/-- The lock is past its entry, by its key, and whatever it comes to is not a silent end. -/
structure Alarmed (l : SessionLock) : Prop where
  warned : l.warned = true
  mode : l.mode = .redis
  fails : l.failOnLost = true

/-- What a step leaves of a lock that is past its entry. -/
def Follows (l l' : SessionLock) : Prop := Alarmed l → Alarmed l' ∧ l'.token = l.token

theorem follows_phase {phase : Phase}
    (h : l.warned → warned { l with phase := phase }) :
    Follows l { l with phase := phase } :=
  fun ha => ⟨⟨h ha.warned, ha.mode, ha.fails⟩, rfl⟩

theorem Alarmed.late (ha : Alarmed l) : l.phase.early = false := by
  have hwarned := ha.warned
  unfold SessionLock.warned at hwarned
  cases hphase : l.phase <;> rw [hphase] at hwarned <;> first | rfl | cases hwarned

theorem follows_early (h : l.phase.early) : Follows l l' := by
  intro ha
  rw [ha.late] at h
  cases h

theorem follows_exit {raised : Bool} (hout : w.owned l = false)
    (hnoticed : noticed w (.exit id raised)) (hfind : w.locks.find id = some l) :
    Follows l { l with phase := .releasing (.block raised) } := by
  refine fun ha => ⟨⟨?_, ha.mode, ha.fails⟩, rfl⟩
  cases raised with
  | true => rfl
  | false =>
    dsimp only [noticed] at hnoticed
    rw [hfind] at hnoticed
    simpa [warned, hout, ha.mode, ha.fails] using hnoticed

theorem follows_finished {how : Leave} (hphase : l.phase = .releasing how) :
    Follows l (finished l how) := by
  cases how with
  | call => exact follows_phase fun _ => rfl
  | block raised =>
    refine fun ha => ⟨⟨?_, ha.mode, ha.fails⟩, rfl⟩
    have hwarned := ha.warned
    rw [warned, hphase] at hwarned
    cases raised with
    | true => rfl
    | false =>
      have hlost : l.lost := hwarned
      simp [finished, warned, leftBlock, hlost, ha.fails]

variable {renewer : Renewer}

theorem follows_lost (hphase : l.phase = .inside) :
    Follows l { l with lost := true, renewer := renewer } :=
  fun ha => ⟨⟨by simp [warned, hphase], ha.mode, ha.fails⟩, rfl⟩

theorem follows_renewer : Follows l { l with renewer := renewer } :=
  fun ha => ⟨⟨ha.warned, ha.mode, ha.fails⟩, rfl⟩

variable {a : LockAction}

theorem acts_of_lockStep (ha : actor a = some id) (hfind : w.locks.find id = some l)
    (h : w.lockStep id l a = some w') :
    ∃ l', Acts w w' id l l' ∧ (w.owned l = false → noticed w a → Follows l l') := by
  cases a <;> dsimp only [LockWorld.lockStep] at h
  case lock | tick | forget => cases ha
  case enter =>
    obtain ⟨hphase, hw⟩ := ite_none_right_eq_some.mp h
    cases hw
    refine ⟨_, acts_put ?_ ?_, fun _ _ => follows_early (by rw [hphase]; rfl)⟩
    · unfold enter
      split_ifs <;> rfl
    · unfold enter
      split_ifs <;> intro t ht
      · exact .inl (some.inj ht).symm
      all_goals exact .inr ht
  case set =>
    split at h
    · rename_i hphase
      cases h
      have hearly : l.phase.early := by rw [hphase]; rfl
      obtain ⟨ok, hacts⟩ := acts_setNx w id _ hearly
      exact ⟨_, hacts, fun _ _ => follows_early hearly⟩
    · cases h
  case setFails _ timeout =>
    have hset : Acts w (w.put id (setFailed l timeout)) id l (setFailed l timeout) := by
      refine acts_put ?_ ?_
      · unfold setFailed
        split_ifs <;> rfl
      · unfold setFailed
        split_ifs <;> intro t ht
        · exact .inr ht
        · exact .inr ht
        · cases ht
    split at h
    · rename_i hphase
      cases h
      exact ⟨_, hset, fun _ _ => follows_early (by rw [hphase]; rfl)⟩
    · rename_i hphase
      cases h
      exact ⟨_, hset, fun _ _ => follows_early (by rw [hphase]; rfl)⟩
    · cases h
  case answer =>
    split at h
    · rename_i hphase
      cases h
      refine ⟨_, acts_put ?_ ?_, fun _ _ => follows_early (by rw [hphase]; rfl)⟩
      · unfold answered
        split_ifs <;> rfl
      · unfold answered
        split_ifs <;> exact fun _ => .inr
    · cases h
  case takeFallback =>
    obtain ⟨hphase, hw⟩ := ite_none_right_eq_some.mp h
    cases hw
    have hearly : l.phase.early := by rw [hphase]; rfl
    split
    · exact ⟨_, acts_seat .., fun _ _ => follows_early hearly⟩
    · exact ⟨_, acts_seat .., fun _ _ => follows_early hearly⟩
  case wake =>
    obtain ⟨⟨hphase, -⟩, hw⟩ := ite_none_right_eq_some.mp h
    cases hw
    exact ⟨_, acts_seat .., fun _ _ => follows_early (by rw [hphase]; rfl)⟩
  case giveUp =>
    split at h
    · cases h
      exact ⟨_, acts_put rfl fun _ => .inr, fun _ _ => follows_phase fun _ => rfl⟩
    · cases h
      exact ⟨_, acts_put rfl fun _ => .inr, fun _ _ => follows_phase fun _ => rfl⟩
    · cases h
      exact ⟨_, acts_seat .., fun _ _ => follows_phase fun _ => rfl⟩
    · cases h
      exact ⟨_, acts_put rfl fun _ => .inr, fun _ _ => follows_phase fun _ => rfl⟩
    · cases h
  case exit _ raised =>
    cases ha
    obtain ⟨hphase, hw⟩ := ite_none_right_eq_some.mp h
    cases hw
    unfold exit
    split
    · exact ⟨_, acts_put rfl fun _ => .inr, fun hout hnoticed => follows_exit hout hnoticed hfind⟩
    · rename_i hmode
      split
      · exact ⟨_, acts_seat .., fun _ _ ha => absurd ha.mode hmode⟩
      · exact ⟨_, acts_put rfl fun _ => .inr, fun _ _ ha => absurd ha.mode hmode⟩
  case release =>
    have hrelease : ∃ l', Acts w (w.release id l) id l l' ∧ Follows l l' := by
      unfold release
      split
      · exact ⟨_, acts_put rfl fun _ => .inr, follows_phase fun _ => rfl⟩
      rename_i hmode
      dsimp only
      split
      · split
        · exact ⟨_, acts_seat .., fun ha => absurd ha.mode hmode⟩
        · exact ⟨_, (acts_self hfind).mutexes _, fun ha => absurd ha.mode hmode⟩
      · split
        · exact ⟨_, acts_put rfl fun _ => .inr, fun ha => absurd ha.mode hmode⟩
        · exact ⟨_, acts_self hfind, fun ha => absurd ha.mode hmode⟩
    obtain ⟨l', hacts, hfollows⟩ := hrelease
    split at h
    any_goals
      cases h
      exact ⟨l', hacts, fun _ _ => hfollows⟩
    cases h
  case releaseScript =>
    split at h
    · obtain ⟨-, hw⟩ := ite_none_left_eq_some.mp h
      cases hw
      exact ⟨l, acts_del hfind, fun _ _ ha => ⟨ha, rfl⟩⟩
    · cases h
  case finish =>
    split at h
    · rename_i how hphase
      cases h
      refine ⟨_, acts_put ?_ ?_, fun _ _ => follows_finished hphase⟩
      · cases how <;> rfl
      · cases how <;> exact fun _ => .inr
    · cases h
  case renewWake =>
    split at h
    · obtain ⟨-, hw⟩ := ite_none_right_eq_some.mp h
      cases hw
      exact ⟨_, acts_put rfl fun _ => .inr, fun _ _ => follows_renewer⟩
    · cases h
  case renewScript =>
    split at h
    · cases h
      obtain ⟨ok, hacts⟩ := acts_renew w id l _
      exact ⟨_, hacts, fun _ _ => follows_renewer⟩
    · cases h
  case renewFails =>
    obtain ⟨hphase, h⟩ := ite_none_right_eq_some.mp h
    have hfailed : ∀ failures, ∃ l', Acts w (w.put id (w.renewFailed l failures)) id l l' ∧
        Follows l l' := by
      intro failures
      unfold renewFailed
      split
      · exact ⟨_, acts_put rfl fun _ => .inr, follows_lost hphase⟩
      · exact ⟨_, acts_put rfl fun _ => .inr, follows_renewer⟩
    split at h
    · cases h
      obtain ⟨l', hacts, hfollows⟩ := hfailed _
      exact ⟨l', hacts, fun _ _ => hfollows⟩
    · cases h
      obtain ⟨l', hacts, hfollows⟩ := hfailed _
      exact ⟨l', hacts, fun _ _ => hfollows⟩
    · cases h
  case renewed =>
    obtain ⟨hphase, h⟩ := ite_none_right_eq_some.mp h
    split at h
    · cases h
      unfold renewAnswered
      split
      · exact ⟨_, acts_put rfl fun _ => .inr, fun _ _ => follows_renewer⟩
      · exact ⟨_, acts_put rfl fun _ => .inr, fun _ _ => follows_lost hphase⟩
    · cases h

/-! ## Runs -/

structure Named (w : LockWorld) : Prop where
  fresh : ∀ id l, w.locks.find id = some l → id < w.nextLock
  token : ∀ id l, w.locks.find id = some l → ∀ t, l.token = some t → t = id

theorem Named.acts (hn : Named w) (hfind : w.locks.find id = some l) (h : Acts w w' id l l') :
    Named w' where
  fresh j k hk := by
    rw [h.next]
    rw [h.locks] at hk
    split at hk
    · rename_i heq
      rw [← heq]
      exact hn.fresh id l hfind
    · exact hn.fresh j k hk
  token j k hk t ht := by
    rw [h.locks] at hk
    split at hk
    · rename_i heq
      cases hk
      rw [← heq]
      exact (h.token t ht).elim (fun h => h) (hn.token id l hfind t)
    · exact hn.token j k hk t ht

/-- The lock is alarmed, and does not have its key. -/
structure Beaten (w : LockWorld) (id : Nat) (l : SessionLock) : Prop where
  find : w.locks.find id = some l
  alarmed : Alarmed l
  out : w.owned l = false

theorem owned_eq_true : w.owned l ↔ ∃ t, l.token = some t ∧ w.owner l.session = some t := by
  unfold owned
  rw [Bool.and_eq_true, decide_eq_true_eq, isSome_iff_exists]
  constructor
  · rintro ⟨⟨t, ht⟩, howner⟩
    exact ⟨t, ht, howner.trans ht⟩
  · rintro ⟨t, ht, howner⟩
    exact ⟨⟨t, ht⟩, howner.trans ht.symm⟩

theorem out_of_owners (hout : w.owned l = false) (htoken : l'.token = l.token)
    (hsession : l'.session = l.session)
    (howner : ∀ t, w'.owner l.session = some t → w.owner l.session = some t ∨ l.token ≠ some t) :
    w'.owned l' = false := by
  rw [Bool.eq_false_iff] at hout ⊢
  rintro howned
  obtain ⟨t, ht, hkey⟩ := owned_eq_true.mp howned
  rw [htoken] at ht
  rw [hsession] at hkey
  rcases howner t hkey with h | h
  · exact hout (owned_eq_true.mpr ⟨t, ht, h⟩)
  · exact h ht

variable {t : Nat} {session' : String}

theorem owner_set_some {s : Stored}
    (h : { w with keys := w.keys.set session s }.owner session' = some t) :
    session = session' ∧ s.token = t ∨ w.owner session' = some t := by
  unfold owner at h ⊢
  rw [find_set] at h
  split at h
  · rename_i heq
    by_cases hlive : w.now ≤ s.expiry
    · simp [Option.filter, hlive] at h
      exact .inl ⟨heq, h⟩
    · simp [Option.filter, hlive] at h
  · exact .inr h

theorem owner_delete_some
    (h : { w with keys := Table.delete w.keys fun kv => kv.1 = session }.owner session' = some t) :
    w.owner session' = some t := by
  unfold owner at h ⊢
  rw [find_delete_key] at h
  split at h
  · cases h
  · exact h

theorem owner_congr (hnow : w'.now = w.now) (hkeys : w'.keys = keys) :
    w'.owner session = { w with keys := keys }.owner session := by
  unfold owner
  rw [hkeys, hnow]

theorem Beaten.acts (hb : Beaten w id l) (hn : Named w) {id' : Nat} {k k' : SessionLock}
    (hfind : w.locks.find id' = some k) (h : Acts w w' id' k k')
    (hfollows : w.owned k = false → Follows k k') : ∃ l', Beaten w' id l' := by
  by_cases hid : id' = id
  · subst hid
    rw [hb.find] at hfind
    cases hfind
    obtain ⟨halarmed, htoken⟩ := hfollows hb.out hb.alarmed
    refine ⟨k', by rw [h.locks, if_pos rfl], halarmed, ?_⟩
    refine out_of_owners hb.out htoken h.session fun t ht => ?_
    rcases h.keys with hkeys | ⟨s, -, hfree, hkeys⟩ | ⟨howned, hkeys⟩
    · rw [owner_congr h.now hkeys] at ht
      exact .inl ht
    · rcases hfree with ⟨-, hearly⟩ | howned
      · rw [hb.alarmed.late] at hearly
        cases hearly
      · rw [hb.out] at howned
        cases howned
    · rw [hb.out] at howned
      cases howned
  · refine ⟨l, by rw [h.locks, if_neg hid, hb.find], hb.alarmed, ?_⟩
    refine out_of_owners hb.out rfl rfl fun t ht => ?_
    rcases h.keys with hkeys | ⟨s, hs, -, hkeys⟩ | ⟨-, hkeys⟩
    · rw [owner_congr h.now hkeys] at ht
      exact .inl ht
    · rw [owner_congr h.now hkeys] at ht
      rcases owner_set_some ht with ⟨-, rfl⟩ | hold
      · refine .inr fun htoken => hid ?_
        rw [← hs, hn.token id l hb.find _ htoken]
      · exact .inl hold
    · rw [owner_congr h.now hkeys] at ht
      exact .inl (owner_delete_some ht)

theorem owner_tick {ms : Nat} (h : { w with now := w.now + ms }.owner session = some t) :
    w.owner session = some t := by
  unfold owner at h ⊢
  cases hfind : w.keys.find session with
  | none => simp [hfind] at h
  | some s =>
    rw [hfind] at h
    by_cases hlive : w.now + ms ≤ s.expiry
    · have hnow : w.now ≤ s.expiry := by omega
      simpa [Option.filter, hlive, hnow] using h
    · simp [Option.filter, hlive] at h

theorem fallbackLock_keeps (w : LockWorld) (loop : Nat) (session : String) :
    (w.fallbackLock loop session).2.locks = w.locks ∧
      (w.fallbackLock loop session).2.nextLock = w.nextLock ∧
      (w.fallbackLock loop session).2.keys = w.keys ∧
      (w.fallbackLock loop session).2.now = w.now := by
  unfold fallbackLock
  split <;> exact ⟨rfl, rfl, rfl, rfl⟩

/-- A new lock comes to the others, and Redis is not asked. -/
structure Adds (w w' : LockWorld) (k : SessionLock) : Prop where
  token : k.token = none
  locks : w'.locks = w.locks.set w.nextLock k
  next : w'.nextLock = w.nextLock + 1
  keys : w'.keys = w.keys
  now : w'.now = w.now

theorem adds_handOut (w : LockWorld) (loop : Nat) (session : String) (client configured : Bool)
    (ttlMs acquireTimeoutMs : Nat) (failOnDegraded failOnLost : Option Bool) :
    ∃ k, Adds w (w.handOut loop session client configured ttlMs acquireTimeoutMs failOnDegraded
      failOnLost) k := by
  obtain ⟨hlocks, hnext, hkeys, hnow⟩ := fallbackLock_keeps w loop session
  refine ⟨newLock loop session client configured (w.fallbackLock loop session).1 ttlMs
    acquireTimeoutMs (failOnDegraded.getD configured) (failOnLost.getD configured), rfl, ?_, ?_,
    hkeys, hnow⟩
  · unfold handOut
    dsimp only
    rw [hlocks, hnext]
  · unfold handOut
    dsimp only
    rw [hnext]

theorem Named.step (hn : Named w) (h : step w a = some w') : Named w' := by
  cases ha : actor a with
  | some id =>
    obtain ⟨l, hfind, hstep⟩ := step_of_actor ha h
    obtain ⟨l', hacts, -⟩ := acts_of_lockStep ha hfind hstep
    exact hn.acts hfind hacts
  | none =>
    cases a with
    | lock loop session client configured ttlMs acquireTimeoutMs failOnDegraded failOnLost =>
      cases h
      obtain ⟨k, hadds⟩ := adds_handOut w loop session client configured ttlMs acquireTimeoutMs
        failOnDegraded failOnLost
      refine ⟨fun j l hl => ?_, fun j l hl t ht => ?_⟩
      · rw [hadds.locks, find_set] at hl
        rw [hadds.next]
        split at hl
        · omega
        · exact Nat.lt_succ_of_lt (hn.fresh j l hl)
      · rw [hadds.locks, find_set] at hl
        split at hl
        · cases hl
          rw [hadds.token] at ht
          cases ht
        · exact hn.token j l hl t ht
    | tick | forget =>
      cases h
      exact ⟨hn.fresh, hn.token⟩
    | _ => cases ha

theorem Beaten.step (hb : Beaten w id l) (hn : Named w) (hnoticed : noticed w a)
    (h : step w a = some w') : ∃ l', Beaten w' id l' := by
  cases ha : actor a with
  | some id' =>
    obtain ⟨k, hfind, hstep⟩ := step_of_actor ha h
    obtain ⟨k', hacts, hfollows⟩ := acts_of_lockStep ha hfind hstep
    exact hb.acts hn hfind hacts fun hout => hfollows hout hnoticed
  | none =>
    cases a with
    | lock loop session client configured ttlMs acquireTimeoutMs failOnDegraded failOnLost =>
      cases h
      obtain ⟨k, hadds⟩ := adds_handOut w loop session client configured ttlMs acquireTimeoutMs
        failOnDegraded failOnLost
      have hne : w.nextLock ≠ id := (hn.fresh id l hb.find).ne'
      refine ⟨l, by rw [hadds.locks, find_set_ne _ _ hne, hb.find], hb.alarmed, ?_⟩
      refine out_of_owners hb.out rfl rfl fun t ht => ?_
      rw [owner_congr hadds.now hadds.keys] at ht
      exact .inl ht
    | tick ms =>
      cases h
      exact ⟨l, hb.find, hb.alarmed, out_of_owners hb.out rfl rfl fun t ht => .inl (owner_tick ht)⟩
    | forget session =>
      cases h
      exact ⟨l, hb.find, hb.alarmed,
        out_of_owners hb.out rfl rfl fun t ht => .inl (owner_delete_some ht)⟩
    | _ => cases ha

theorem beaten_of_intruded (hfind : w.locks.find id = some l) (hin : l.held)
    (hmode : l.mode = .redis) (hfails : l.failOnLost) (h : w.Intruded l) : Beaten w id l where
  find := hfind
  alarmed := by
    refine ⟨?_, hmode, hfails⟩
    rw [warned, of_decide_eq_true hin]
  out := by
    obtain ⟨t, howner, hne⟩ := h
    rw [Bool.eq_false_iff]
    intro howned
    obtain ⟨t', ht', howner'⟩ := owned_eq_true.mp howned
    rw [howner] at howner'
    cases howner'
    exact hne ht'

theorem Named.reported (hn : Named w) : Reported noticed w := by
  intro id l hfind hin hmode hfails hintruded w' hrun l' hfind' hphase
  have hboth : Named w' ∧ ∃ l', Beaten w' id l' :=
    run_induction (I := fun w => Named w ∧ ∃ l, Beaten w id l)
      (fun ⟨hn, _, hb⟩ hnoticed hstep => ⟨hn.step hstep, hb.step hn hnoticed hstep⟩)
      ⟨hn, l, beaten_of_intruded hfind hin hmode hfails hintruded⟩ hrun
  obtain ⟨k, hb⟩ := hboth.2
  rw [hb.find] at hfind'
  cases hfind'
  have hwarned := hb.alarmed.warned
  rw [warned, hphase] at hwarned
  cases hwarned

theorem spares (w : LockWorld) : Spares w := by
  intro a w' id l h ha hfind session s hs hlive hne
  obtain ⟨k, hfind', hstep⟩ := step_of_actor ha h
  rw [hfind] at hfind'
  cases hfind'
  obtain ⟨l', hacts, -⟩ := acts_of_lockStep ha hfind hstep
  have howner := owner_of_live hs hlive
  have hother : w.owner l.session = none ∨ w.owned l → session ≠ l.session := by
    rintro hfree rfl
    rcases hfree with hnone | howned
    · rw [howner] at hnone
      cases hnone
    · obtain ⟨t, ht, howner'⟩ := owned_eq_true.mp howned
      rw [howner] at howner'
      cases howner'
      exact hne ht
  rcases hacts.keys with hkeys | ⟨s', -, hfree, hkeys⟩ | ⟨howned, hkeys⟩
  · rw [hkeys, hs]
  · rw [hkeys, find_set_ne _ _ (hother (hfree.imp_left And.left)).symm, hs]
  · rw [hkeys, Dict.find_delete_ne _ (hother (.inr howned)), hs]

theorem named_init : Named {} where
  fresh := fun _ _ h => by cases h
  token := fun _ _ h => by cases h

/-- In every run in which a block is left with its key or with `lost` set, a loss is reported, and
    no key of another owner is touched. -/
theorem loss_reported (hrun : Relation.ReflTransGen (Step step noticed) {} w) :
    Reported noticed w ∧ Spares w :=
  ⟨(run_induction (fun hn _ hstep => Named.step hn hstep) named_init hrun).reported, spares w⟩

/-- A holder and, `later` milliseconds on, another one in another process. -/
def taken (later : Nat) : List LockAction :=
  [.lock 0 "s" true true 30000 30000 none none, .enter 0, .set 0, .answer 0, .tick later,
    .lock 1 "s" true true 30000 30000 none none, .enter 1, .set 1, .answer 1]

/-- The loop of the first holder stalls for longer than its key lives. -/
theorem stalled_unreported : ¬ ∀ w,
    Relation.ReflTransGen (Step step fun _ _ => true) {} w →
      Reported (fun _ _ => true) w ∧ Spares w := by
  intro hall
  obtain ⟨w, hw⟩ : ∃ w, play step (fun _ _ => true) {} (taken 30001) = some w := ⟨_, rfl⟩
  obtain ⟨w', hw'⟩ : ∃ w', play step (fun _ _ => true) w
      [.exit 0 false, .releaseScript 0, .finish 0] = some w' := by
    cases hw
    exact ⟨_, rfl⟩
  have hreported := (hall w (run_of_play hw)).1
  have hrun := run_of_play hw'
  cases hw
  cases hw'
  exact hreported 0 _ rfl rfl rfl rfl ⟨1, rfl, by decide⟩ _ hrun _ rfl rfl

theorem renewer_reports : ∃ w, play step noticed {} (taken 30001) = some w ∧
    Reported noticed w ∧ Spares w := by
  obtain ⟨w, hw⟩ : ∃ w, play step noticed {} (taken 30001) = some w := ⟨_, rfl⟩
  exact ⟨w, hw, loss_reported (run_of_play hw)⟩

end LockWorld

end WebGis.Locks
