/-
  Two tasks in the section of one session.

  A task is inside by its key in Redis or by the lock in the process, as Redis answered its own
  `SET`, and neither keeps the other out; the bucket can drop a lock that was handed out and not
  taken yet; and a key can run out under its owner. Where none of this happens (`exclusive`), two
  tasks of a loop are inside only where one of them knows that it has lost the key
  (`inside_excluded`).
-/
import WebGis.Locks.Registry
import WebGis.Data.Play

namespace WebGis.Locks

open Data Option Dict SessionLock LockWorld

/-- Inside by its key, and not known to have lost it. -/
def SessionLock.byKey (l : SessionLock) : Bool := l.held && l.mode = .redis && !l.lost

/-- Inside by the lock in the process. -/
def SessionLock.byMutex (l : SessionLock) : Bool := l.held && l.mode ≠ .redis

/-- The locks are of one session on one loop. -/
def SessionLock.rivals (l l' : SessionLock) : Bool := l.loop = l'.loop && l.session = l'.session

/-- The answer is that the key was set. -/
def Phase.granted : Phase → Bool
  | answered _ ok => ok
  | _ => false

namespace LockWorld

/-- A rival of the lock is inside, in the way `p` says. -/
def rivalInside (w : LockWorld) (p : SessionLock → Bool) (l : SessionLock) : Bool :=
  w.locks.items.any fun kv => kv.2.rivals l && p kv.2

/-- The bucket still has the lock that was handed out. -/
def registered (w : LockWorld) (l : SessionLock) : Bool :=
  (w.bucket l.loop).find l.session = some l.fallback

/-- Who is inside by a key has it. -/
def keyed (w : LockWorld) : Bool :=
  w.locks.items.all fun kv => !kv.2.byKey || w.owner kv.2.session = some kv.1

def mayEnter (w : LockWorld) (id : Nat) (l : SessionLock) : Bool :=
  !l.phase.granted || (w.owner l.session = some id && !w.rivalInside byMutex l)

def maySeize (w : LockWorld) (id : Nat) (l : SessionLock) : Bool :=
  !w.free l.fallback id || (w.registered l && !w.rivalInside byKey l)

def mayRelease (w : LockWorld) (l : SessionLock) : Bool :=
  l.held || l.mode = .redis || !w.locked l.fallback

/-- No task enters by one protection while a rival is inside by the other, the lock in the process
    is the one of the bucket and is given back by its holder, and no key goes under a task inside
    that does not know it. -/
def exclusive (w : LockWorld) : LockAction → Bool
  | .answer id => (w.locks.find id).all (w.mayEnter id)
  | .takeFallback id => (w.locks.find id).all (w.maySeize id)
  | .wake id => (w.locks.find id).all (w.maySeize id)
  | .release id => (w.locks.find id).all w.mayRelease
  | .tick ms => { w with now := w.now + ms }.keyed
  | .forget session => { w with keys := Table.delete w.keys fun kv => kv.1 = session }.keyed
  | _ => true

variable {w : LockWorld} {id : Nat} {l l' : SessionLock}

/-- Whoever is inside has what it is inside by, and the two ways do not meet. -/
structure Sound (w : LockWorld) : Prop where
  fresh : ∀ id l, w.locks.find id = some l → id < w.nextLock
  pooled : ∀ loop sid m, (w.bucket loop).find sid = some m → m < w.nextMutex
  token : ∀ id l, w.locks.find id = some l → ∀ t, l.token = some t → t = id
  early : ∀ id l, w.locks.find id = some l → l.phase.early = true → l.mode ≠ .redis
  keyed : ∀ id l, w.locks.find id = some l → l.byKey = true → w.owner l.session = some id
  seated : ∀ id l, w.locks.find id = some l → l.byMutex = true →
    (∃ mutex, w.mutexes.find l.fallback = some mutex ∧ mutex.holder = some id) ∧
      (w.bucket l.loop).find l.session = some l.fallback
  apart : ∀ id l id' l', w.locks.find id = some l → w.locks.find id' = some l' →
    l.byKey = true → l'.byMutex = true → l'.rivals l = false

/-- The step leaves the lock what it is, and does not take it inside. -/
structure Quiet (id : Nat) (l l' : SessionLock) : Prop where
  loop : l'.loop = l.loop
  session : l'.session = l.session
  fallback : l'.fallback = l.fallback
  token : ∀ t, l'.token = some t → t = id
  early : l'.phase.early = true → l'.mode ≠ .redis
  key : l'.byKey = true → l.byKey = true
  mutex : l'.byMutex = true → l.byMutex = true

theorem rivals_of_quiet (h : Quiet id l l') (k : SessionLock) : l'.rivals k = l.rivals k := by
  unfold rivals
  rw [h.loop, h.session]

theorem quiet_rivals (h : Quiet id l l') (k : SessionLock) : k.rivals l' = k.rivals l := by
  unfold rivals
  rw [h.loop, h.session]

theorem find_put {j : Nat} {k : SessionLock} (hk : (w.put id l').locks.find j = some k) :
    j = id ∧ k = l' ∨ j ≠ id ∧ w.locks.find j = some k := by
  rw [put, find_set] at hk
  split at hk
  · rename_i hj
    exact .inl ⟨hj.symm, (some.inj hk).symm⟩
  · rename_i hj
    exact .inr ⟨Ne.symm hj, hk⟩

theorem Sound.put (hs : Sound w) (hfind : w.locks.find id = some l) (hq : Quiet id l l') :
    Sound (w.put id l') where
  fresh j k hk := by
    obtain ⟨rfl, rfl⟩ | ⟨-, hk⟩ := find_put hk
    · exact hs.fresh j l hfind
    · exact hs.fresh j k hk
  pooled := hs.pooled
  token j k hk := by
    obtain ⟨rfl, rfl⟩ | ⟨-, hk⟩ := find_put hk
    · exact hq.token
    · exact hs.token j k hk
  early j k hk := by
    obtain ⟨rfl, rfl⟩ | ⟨-, hk⟩ := find_put hk
    · exact hq.early
    · exact hs.early j k hk
  keyed j k hk hkey := by
    obtain ⟨rfl, rfl⟩ | ⟨-, hk⟩ := find_put hk
    · rw [hq.session]
      exact hs.keyed j l hfind (hq.key hkey)
    · exact hs.keyed j k hk hkey
  seated j k hk hmutex := by
    obtain ⟨rfl, rfl⟩ | ⟨-, hk⟩ := find_put hk
    · rw [hq.fallback, hq.loop, hq.session]
      exact hs.seated j l hfind (hq.mutex hmutex)
    · exact hs.seated j k hk hmutex
  apart j k j' k' hk hk' hkey hmutex := by
    have old : ∀ i m, (w.put id l').locks.find i = some m →
        ∃ m', w.locks.find i = some m' ∧ (m.byKey → m'.byKey) ∧
          (m.byMutex → m'.byMutex) ∧ (∀ n, m.rivals n = m'.rivals n) ∧
          ∀ n, rivals n m = n.rivals m' := by
      intro i m hm
      obtain ⟨rfl, rfl⟩ | ⟨-, hm⟩ := find_put hm
      · exact ⟨l, hfind, hq.key, hq.mutex, rivals_of_quiet hq, quiet_rivals hq⟩
      · exact ⟨m, hm, fun h => h, fun h => h, fun _ => rfl, fun _ => rfl⟩
    obtain ⟨m, hm, hmkey, -, -, hmr⟩ := old j k hk
    obtain ⟨m', hm', -, hmmutex, hmr', -⟩ := old j' k' hk'
    rw [hmr, hmr']
    exact hs.apart j m j' m' hm hm' (hmkey hkey) (hmmutex hmutex)

theorem Sound.keys (hs : Sound w) {now : Nat} {keys : Dict String Stored}
    (hkeyed : ∀ id l, w.locks.find id = some l → l.byKey →
      { w with now := now, keys := keys }.owner l.session = some id) :
    Sound { w with now := now, keys := keys } where
  fresh := hs.fresh
  pooled := hs.pooled
  token := hs.token
  early := hs.early
  keyed := hkeyed
  seated := hs.seated
  apart := hs.apart

variable {m : Nat} {mutex : Mutex}

theorem Sound.putMutex (hs : Sound w)
    (hholder : ∀ id l, w.locks.find id = some l → l.byMutex → l.fallback = m →
      mutex.holder = some id) : Sound (w.putMutex m mutex) where
  fresh := hs.fresh
  pooled := hs.pooled
  token := hs.token
  early := hs.early
  keyed := hs.keyed
  seated j k hk hmutex := by
    obtain ⟨⟨mx, hfind, hmx⟩, hbucket⟩ := hs.seated j k hk hmutex
    refine ⟨?_, hbucket⟩
    rw [LockWorld.putMutex, find_set]
    split
    · rename_i heq
      exact ⟨mutex, rfl, hholder j k hk hmutex heq.symm⟩
    · exact ⟨mx, hfind, hmx⟩
  apart := hs.apart

variable {p : SessionLock → Bool}

theorem rivals_of_not_inside (h : w.rivalInside p l = false) {j : Nat} {k : SessionLock}
    (hk : w.locks.find j = some k) (hp : p k) : k.rivals l = false := by
  have hany := List.any_eq_false.mp h (j, k) (find_eq_some.mp hk)
  simpa [hp] using hany

theorem rivals_comm (l l' : SessionLock) : l.rivals l' = l'.rivals l := by
  unfold rivals
  simp only [eq_comm]

/-- The lock goes inside, by what `Sound` wants of it. -/
theorem Sound.goIn (hs : Sound w) (hfind : w.locks.find id = some l)
    (hphase : l'.phase = .inside) (htoken : l'.token = l.token)
    (hkeyed : l'.byKey → w.owner l'.session = some id) (hseated : l'.byMutex →
      (∃ mutex, w.mutexes.find l'.fallback = some mutex ∧ mutex.holder = some id) ∧
        (w.bucket l'.loop).find l'.session = some l'.fallback)
    (hkey : l'.byKey → w.rivalInside byMutex l' = false)
    (hmutex : l'.byMutex → w.rivalInside byKey l' = false) :
    Sound (w.put id l') where
  fresh j k hk := by
    obtain ⟨rfl, rfl⟩ | ⟨-, hk⟩ := find_put hk
    · exact hs.fresh j l hfind
    · exact hs.fresh j k hk
  pooled := hs.pooled
  token j k hk := by
    obtain ⟨rfl, rfl⟩ | ⟨-, hk⟩ := find_put hk
    · rw [htoken]
      exact hs.token j l hfind
    · exact hs.token j k hk
  early j k hk hearly := by
    obtain ⟨rfl, rfl⟩ | ⟨-, hk⟩ := find_put hk
    · rw [hphase] at hearly
      cases hearly
    · exact hs.early j k hk hearly
  keyed j k hk := by
    obtain ⟨rfl, rfl⟩ | ⟨-, hk⟩ := find_put hk
    · exact hkeyed
    · exact hs.keyed j k hk
  seated j k hk := by
    obtain ⟨rfl, rfl⟩ | ⟨-, hk⟩ := find_put hk
    · exact hseated
    · exact hs.seated j k hk
  apart j k j' k' hk hk' hbyKey hbyMutex := by
    rw [LockWorld.put, find_set] at hk hk'
    split at hk <;> split at hk'
    · cases hk
      cases hk'
      simp [byKey, byMutex] at hbyKey hbyMutex
      exact absurd hbyKey.1.2 hbyMutex.2
    · cases hk
      exact rivals_of_not_inside (hkey hbyKey) hk' hbyMutex
    · cases hk'
      rw [rivals_comm]
      exact rivals_of_not_inside (hmutex hbyMutex) hk hbyKey
    · exact hs.apart j k j' k' hk hk' hbyKey hbyMutex

/-! ## Keys -/

theorem owner_set (w : LockWorld) (session session' : String) (s : Stored) :
    { w with keys := w.keys.set session s }.owner session' =
      if session = session' then (if w.now ≤ s.expiry then some s.token else none)
      else w.owner session' := by
  unfold owner
  rw [find_set]
  by_cases h : session = session'
  · by_cases he : w.now ≤ s.expiry <;> simp [h, Option.filter, he]
  · simp [h]

theorem owner_delete_ne (w : LockWorld) {session session' : String} (h : session' ≠ session) :
    { w with keys := Table.delete w.keys fun kv => kv.1 = session }.owner session' =
      w.owner session' := by
  unfold owner
  rw [Dict.find_delete_ne _ h]

theorem Sound.owner_of_owned (hs : Sound w) (hfind : w.locks.find id = some l)
    (howned : w.owned l) : w.owner l.session = some id := by
  unfold owned at howned
  simp only [Bool.and_eq_true, decide_eq_true_eq] at howned
  obtain ⟨t, ht⟩ := isSome_iff_exists.mp howned.1
  rw [howned.2, ht, hs.token id l hfind t ht]

variable {deadline : Nat}

section

variable (hs : Sound w) (hfind : w.locks.find id = some l)
include hs hfind

theorem Sound.setNx (hphase : l.phase = .trying deadline) : Sound (w.setNx id l deadline) := by
  have hq : ∀ ok, Quiet id l { l with phase := .answered deadline ok } := fun ok =>
    { loop := rfl, session := rfl, fallback := rfl
      token := hs.token id l hfind
      early := fun _ => hs.early id l hfind (by rw [hphase]; rfl)
      key := by simp [byKey, held]
      mutex := by simp [byMutex, held] }
  unfold LockWorld.setNx
  split
  · exact hs.put hfind (hq false)
  rename_i hnone
  refine Sound.put (Sound.keys hs fun j k hk hkey => ?_) hfind (hq true)
  have howner := hs.keyed j k hk hkey
  rw [owner_set, if_neg ?_]
  · exact howner
  · intro hsame
    rw [← hsame, hnone] at howner
    cases howner

theorem Sound.renew (failures : Nat) :
    Sound (w.renew id l failures) := by
  have hq : ∀ ok, Quiet id l { l with renewer := .answered ok failures } := fun ok =>
    { loop := rfl, session := rfl, fallback := rfl
      token := hs.token id l hfind
      early := hs.early id l hfind
      key := fun h => h
      mutex := fun h => h }
  unfold LockWorld.renew
  split
  · rename_i howned
    refine Sound.put (Sound.keys hs fun j k hk hkey => ?_) hfind (hq true)
    have howner := hs.keyed j k hk hkey
    rw [owner_set]
    split
    · rename_i hsame
      rw [← hsame, hs.owner_of_owned hfind howned] at howner
      rw [if_pos (Nat.le_add_right _ _)]
      exact howner
    · exact howner
  · exact hs.put hfind (hq false)

theorem Sound.del (hout : l.byKey = false) :
    Sound (w.del l) := by
  unfold LockWorld.del
  split
  · rename_i howned
    refine Sound.keys hs fun j k hk hkey => ?_
    have howner := hs.keyed j k hk hkey
    rw [owner_delete_ne]
    · exact howner
    · intro hsame
      rw [hsame, hs.owner_of_owned hfind howned] at howner
      cases howner
      rw [hfind] at hk
      cases hk
      exact absurd hkey (by simp [hout])
  · exact hs

end

/-! ## The locks in the process -/

theorem holder_of_free (h : w.free m id) (hm : w.mutexes.find m = some mutex) :
    mutex.holder = none := by
  unfold free at h
  rw [hm] at h
  simp only [Bool.and_eq_true, isNone_iff_eq_none] at h
  exact h.1

theorem Sound.seize (hs : Sound w) (hfind : w.locks.find id = some l)
    (hearly : l.phase.early) (hfree : w.free l.fallback id)
    (hreg : w.registered l) (hno : w.rivalInside byKey l = false) :
    Sound (w.seize id l) := by
  have hmode := hs.early id l hfind hearly
  have hnotKey : byKey { l with phase := .inside } = false := by
    simp [byKey, hmode]
  refine Sound.goIn (Sound.putMutex hs fun j k hk hmutex heq => ?_) hfind rfl
    rfl (fun h => ?_) (fun _ => ⟨⟨_, find_set_self _ _ _, rfl⟩, ?_⟩) (fun h => ?_) fun _ => hno
  · obtain ⟨⟨mutex, hm, hholder⟩, -⟩ := hs.seated j k hk hmutex
    rw [heq] at hm
    rw [holder_of_free hfree hm] at hholder
    cases hholder
  · exact absurd h (by simp [hnotKey])
  · exact of_decide_eq_true hreg
  · exact absurd h (by simp [hnotKey])

theorem getD_known (hs : Sound w) (hfind : w.locks.find id = some l) (hm : l.byMutex) :
    w.mutexes.find l.fallback = some (w.mutexes.getD l.fallback {}) ∧
      (w.mutexes.getD l.fallback {}).holder = some id := by
  obtain ⟨⟨mutex, hmutex, hholder⟩, -⟩ := hs.seated id l hfind hm
  unfold Dict.getD
  rw [hmutex]
  exact ⟨rfl, hholder⟩

theorem Sound.putWaiters (hs : Sound w) (m : Nat) (waiters : List Nat) :
    Sound (w.putMutex m { w.mutexes.getD m {} with waiters := waiters }) := by
  refine hs.putMutex fun j k hk hmutex heq => ?_
  have hknown := (getD_known hs hk hmutex).2
  rw [heq] at hknown
  exact hknown

theorem Sound.unlock (hs : Sound w)
    (hnobody : ∀ id l, w.locks.find id = some l → l.byMutex → l.fallback ≠ m) :
    Sound (w.unlock m) :=
  hs.putMutex fun j k hk hmutex heq => absurd heq (hnobody j k hk hmutex)

/-! ## The registry -/

variable {bucket : Dict String Nat} {sids : List String} {sid : String}

theorem find_evictFrom (h : sid ∉ sids) : (evictFrom bucket sids).find sid = bucket.find sid := by
  induction sids generalizing bucket with
  | nil => rfl
  | cons s rest ih =>
    obtain ⟨hne, hrest⟩ := not_or.mp (mt List.mem_cons.mpr h)
    rw [evictFrom]
    split
    · exact Dict.find_delete_ne _ hne
    · rw [ih hrest, Dict.find_delete_ne _ hne]

theorem find_of_evictFrom (h : (evictFrom bucket sids).find sid = some m) :
    bucket.find sid = some m := by
  induction sids generalizing bucket with
  | nil => exact h
  | cons s rest ih =>
    have hdel : Dict.find (Table.delete bucket fun kv => kv.1 = s) sid = some m := by
      rw [evictFrom] at h
      split at h
      · exact h
      · exact ih h
    rw [find_delete_key] at hdel
    split at hdel
    · cases hdel
    · exact hdel

theorem find_of_evictIdleFallbacks (h : (w.evictIdleFallbacks bucket).find sid = some m) :
    bucket.find sid = some m := by
  unfold evictIdleFallbacks at h
  split at h
  · exact h
  · exact find_of_evictFrom h

theorem find_evictIdleFallbacks (hm : bucket.find sid = some m)
    (hidle : (w.mutexes.find m).any Mutex.idle = false) :
    (w.evictIdleFallbacks bucket).find sid = some m := by
  unfold evictIdleFallbacks
  split
  · exact hm
  rw [find_evictFrom, hm]
  intro hmem
  obtain ⟨⟨s, m'⟩, hfilter, rfl⟩ := List.mem_map.mp hmem
  obtain ⟨hitem, hidle'⟩ := List.mem_filter.mp hfilter
  rw [find_eq_some.mpr hitem] at hm
  cases hm
  unfold idleIn at hidle'
  exact absurd hidle' (by simp [hidle])

theorem bucket_set (w : LockWorld) (loop loop' : Nat) (b : Dict String Nat) :
    (w.buckets.set loop b).getD loop' Dict.empty = if loop = loop' then b else w.bucket loop' := by
  unfold Dict.getD bucket Dict.getD
  rw [find_set]
  split <;> rfl

theorem Sound.fallbackLock (hs : Sound w) (loop : Nat) (session : String) :
    Sound (w.fallbackLock loop session).2 := by
  unfold LockWorld.fallbackLock
  split
  · exact hs
  rename_i hnone
  exact
    { fresh := hs.fresh
      pooled := by
        intro loop' sid m hm
        rw [bucket, bucket_set] at hm
        split at hm
        · rename_i hloop
          rw [find_set] at hm
          split at hm
          · cases hm
            exact Nat.lt_succ_self _
          · exact Nat.lt_succ_of_lt (hs.pooled _ _ _ (find_of_evictIdleFallbacks hm))
        · exact Nat.lt_succ_of_lt (hs.pooled _ _ _ hm)
      token := hs.token
      early := hs.early
      keyed := hs.keyed
      seated := by
        intro id l hfind hmutex
        obtain ⟨⟨mutex, hm, hholder⟩, hbucket⟩ := hs.seated id l hfind hmutex
        have hlt := hs.pooled _ _ _ hbucket
        refine ⟨⟨mutex, ?_, hholder⟩, ?_⟩
        · rw [find_set_ne _ _ (by omega)]
          exact hm
        · rw [bucket, bucket_set]
          split
          · rename_i hloop
            subst hloop
            rw [find_set_ne]
            · refine find_evictIdleFallbacks hbucket ?_
              simp [hm, Mutex.idle, hholder]
            · rintro rfl
              rw [hnone] at hbucket
              cases hbucket
          · exact hbucket
      apart := hs.apart }

theorem Sound.add (hs : Sound w) (hphase : l.phase = .fresh) (hmode : l.mode ≠ .redis)
    (htoken : l.token = none) :
    Sound { w with locks := w.locks.set w.nextLock l, nextLock := w.nextLock + 1 } := by
  have hkey : l.byKey = false := by simp [byKey, held, hphase]
  have hmutex : l.byMutex = false := by simp [byMutex, held, hphase]
  have old : ∀ {j k}, (w.locks.set w.nextLock l).find j = some k →
      k = l ∧ j = w.nextLock ∨ w.locks.find j = some k := by
    intro j k hk
    rw [find_set] at hk
    split at hk
    · rename_i hj
      cases hk
      exact .inl ⟨rfl, hj.symm⟩
    · exact .inr hk
  exact
    { fresh := by
        intro j k hk
        rcases old hk with ⟨-, rfl⟩ | hk
        · exact Nat.lt_succ_self _
        · exact Nat.lt_succ_of_lt (hs.fresh j k hk)
      pooled := hs.pooled
      token := by
        intro j k hk t ht
        rcases old hk with ⟨rfl, -⟩ | hk
        · rw [htoken] at ht
          cases ht
        · exact hs.token j k hk t ht
      early := by
        intro j k hk hearly
        rcases old hk with ⟨rfl, -⟩ | hk
        · exact hmode
        · exact hs.early j k hk hearly
      keyed := by
        intro j k hk hbyKey
        rcases old hk with ⟨rfl, -⟩ | hk
        · rw [hkey] at hbyKey
          cases hbyKey
        · exact hs.keyed j k hk hbyKey
      seated := by
        intro j k hk hbyMutex
        rcases old hk with ⟨rfl, -⟩ | hk
        · rw [hmutex] at hbyMutex
          cases hbyMutex
        · exact hs.seated j k hk hbyMutex
      apart := by
        intro j k j' k' hk hk' hbyKey hbyMutex
        rcases old hk with ⟨rfl, -⟩ | hk
        · rw [hkey] at hbyKey
          cases hbyKey
        · rcases old hk' with ⟨rfl, -⟩ | hk'
          · rw [hmutex] at hbyMutex
            cases hbyMutex
          · exact hs.apart j k j' k' hk hk' hbyKey hbyMutex }

theorem Sound.handOut (hs : Sound w) (loop : Nat) (session : String) (client configured : Bool)
    (ttlMs acquireTimeoutMs : Nat) (failOnDegraded failOnLost : Option Bool) :
    Sound (w.handOut loop session client configured ttlMs acquireTimeoutMs failOnDegraded
      failOnLost) :=
  (hs.fallbackLock loop session).add rfl (by simp [newLock]) rfl

/-! ## Steps -/

theorem quiet_out (hs : Sound w) (hfind : w.locks.find id = some l) {p : Phase}
    (hout : p ≠ .inside) (hearly : p.early → l.phase.early) :
    Quiet id l { l with phase := p } where
  loop := rfl
  session := rfl
  fallback := rfl
  token := hs.token id l hfind
  early h := hs.early id l hfind (hearly h)
  key := by simp [byKey, held, hout]
  mutex := by simp [byMutex, held, hout]

theorem quiet_renewer (hs : Sound w) (hfind : w.locks.find id = some l) (renewer : Renewer) :
    Quiet id l { l with renewer := renewer } where
  loop := rfl
  session := rfl
  fallback := rfl
  token := hs.token id l hfind
  early := hs.early id l hfind
  key h := h
  mutex h := h

theorem quiet_lost (hs : Sound w) (hfind : w.locks.find id = some l) (renewer : Renewer) :
    Quiet id l { l with lost := true, renewer := renewer } where
  loop := rfl
  session := rfl
  fallback := rfl
  token := hs.token id l hfind
  early := hs.early id l hfind
  key := by simp [byKey]
  mutex h := h

theorem quiet_enter (hs : Sound w) (hfind : w.locks.find id = some l) (hphase : l.phase = .fresh) :
    Quiet id l (w.enter id l) := by
  have hmode := hs.early id l hfind (by rw [hphase]; rfl)
  unfold enter
  split
  · exact { quiet_out hs hfind (p := .trying (w.now + l.acquireTimeoutMs)) (by simp)
      (fun _ => by rw [hphase]; rfl) with
      token := fun t ht => (some.inj ht).symm }
  · split
    · exact
        { loop := rfl, session := rfl, fallback := rfl
          token := hs.token id l hfind
          early := fun _ => by simp
          key := by simp [byKey]
          mutex := by cases l.failOnDegraded <;> simp [byMutex, held] }
    · exact quiet_out hs hfind (by simp) (fun _ => by rw [hphase]; rfl)

theorem quiet_setFailed (hs : Sound w) (hfind : w.locks.find id = some l)
    (hearly : l.phase.early) (timeout : Bool) : Quiet id l (setFailed l timeout) := by
  unfold setFailed
  split
  · exact quiet_out hs hfind (by simp) (fun _ => hearly)
  split
  · exact quiet_out hs hfind (by simp) (fun _ => hearly)
  exact
    { loop := rfl, session := rfl, fallback := rfl
      token := fun t ht => by cases ht
      early := fun _ => by simp
      key := by simp [byKey]
      mutex := by simp [byMutex, held] }

theorem Sound.answered (hs : Sound w) (hfind : w.locks.find id = some l) {ok : Bool}
    (hphase : l.phase = .answered deadline ok) (hmay : w.mayEnter id l) :
    Sound (w.put id (w.answered l deadline ok)) := by
  have hearly : l.phase.early := by rw [hphase]; rfl
  unfold LockWorld.answered
  split
  · rename_i hok
    have hmay' : w.owner l.session = some id ∧ w.rivalInside byMutex l = false := by
      simpa [mayEnter, Phase.granted, hphase, hok] using hmay
    have hmutex : byMutex { l with
        mode := .redis, phase := .inside, renewer := .sleeping (w.now + renewIntervalMs) 0 } =
          false := by
      simp [byMutex]
    exact hs.goIn hfind rfl rfl (fun _ => hmay'.1) (fun h => absurd h (by simp [hmutex]))
      (fun _ => hmay'.2) fun h => absurd h (by simp [hmutex])
  · split
    · exact hs.put hfind (quiet_out hs hfind (by simp) fun _ => hearly)
    · exact hs.put hfind (quiet_out hs hfind (by simp) fun _ => hearly)

theorem byMutex_of_held (h : l.phase = .inside) (hmode : l.mode ≠ .redis) : l.byMutex := by
  simp [byMutex, held, h, hmode]

section

variable (hs : Sound w) (hfind : w.locks.find id = some l)
include hs hfind

theorem nobody_of_out (hin : l.byMutex) (hout : l'.byMutex = false) :
    ∀ j k, (w.put id l').locks.find j = some k → k.byMutex → k.fallback ≠ l.fallback := by
  intro j k hk hmutex heq
  rw [put, find_set] at hk
  split at hk
  · cases hk
    rw [hout] at hmutex
    cases hmutex
  · rename_i hne
    obtain ⟨⟨mx, hmx, hholder⟩, -⟩ := hs.seated id l hfind hin
    obtain ⟨⟨mx', hmx', hholder'⟩, -⟩ := hs.seated j k hk hmutex
    rw [heq, hmx] at hmx'
    cases hmx'
    rw [hholder] at hholder'
    cases hholder'
    exact hne rfl

theorem Sound.leave (hin : l.phase = .inside)
    (hmode : l.mode ≠ .redis) {phase : Phase} (hout : phase ≠ .inside)
    (hlate : phase.early = false) :
    Sound ((w.unlock l.fallback).put id { l with phase := phase }) := by
  have hq := quiet_out hs hfind hout (fun h => absurd h (by simp [hlate]))
  refine Sound.unlock (w := w.put id { l with phase := phase }) (hs.put hfind hq)
    (nobody_of_out hs hfind (byMutex_of_held hin hmode) ?_)
  simp [byMutex, held, hout]

theorem Sound.exit (hin : l.phase = .inside) (raised : Bool) : Sound (w.exit id l raised) := by
  unfold LockWorld.exit
  split
  · exact hs.put hfind (quiet_out hs hfind (by simp) fun h => by cases h)
  · rename_i hmode
    split
    · refine hs.leave hfind hin hmode ?_ ?_ <;> cases raised <;> simp [Phase.early]
    · exact hs.put hfind (quiet_out hs hfind (by simp) fun h => by cases h)

theorem Sound.release (hmay : w.mayRelease l) : Sound (w.release id l) := by
  unfold LockWorld.release
  split
  · exact hs.put hfind (quiet_out hs hfind (by simp) fun h => by cases h)
  rename_i hmode
  by_cases hheld : l.held
  · have hin : l.phase = .inside := of_decide_eq_true hheld
    rw [if_pos hheld]
    split
    · exact hs.leave hfind hin hmode (by simp) rfl
    · exact hs.put hfind (quiet_out hs hfind (by simp) fun h => by cases h)
  · have hunlocked : w.locked l.fallback = false := by
      simpa [mayRelease, hheld, hmode] using hmay
    rw [if_neg hheld]
    rw [hunlocked, if_neg (by decide)]
    exact hs

end

theorem byKey_of_out (h : l.phase ≠ .inside) : l.byKey = false := by
  simp [byKey, held, h]

section

variable (hs : Sound w) (hfind : w.locks.find id = some l) (hearly : l.phase.early = true)
include hs hfind hearly

theorem Sound.seized (hfree : w.free l.fallback id)
    (hmay : w.maySeize id l) : Sound (w.seize id l) := by
  have hmay' : w.registered l ∧ w.rivalInside byKey l = false := by
    simpa [maySeize, hfree] using hmay
  exact hs.seize hfind hearly hfree hmay'.1 hmay'.2

theorem Sound.queue : Sound (w.queue id l) :=
  Sound.put (hs.putWaiters _ _) hfind (quiet_out hs hfind (by simp) fun _ => hearly)

end

theorem allowed_of_all (h : (w.locks.find id).all p) (hfind : w.locks.find id = some l) :
    p l := by
  rw [hfind] at h
  exact h

variable {w' : LockWorld} {a : LockAction}

theorem Sound.lockStep (hs : Sound w) (ha : actor a = some id) (hfind : w.locks.find id = some l)
    (hallowed : exclusive w a) (h : w.lockStep id l a = some w') : Sound w' := by
  cases a <;> dsimp only [lockStep] at h
  case lock | tick | forget => cases ha
  case enter =>
    obtain ⟨hphase, hw⟩ := ite_none_right_eq_some.mp h
    cases hw
    exact hs.put hfind (quiet_enter hs hfind hphase)
  case set =>
    split at h
    · rename_i hphase
      cases h
      exact hs.setNx hfind hphase
    · cases h
  case setFails _ timeout =>
    split at h
    · rename_i hphase
      cases h
      exact hs.put hfind (quiet_setFailed hs hfind (by rw [hphase]; rfl) timeout)
    · rename_i hphase
      cases h
      exact hs.put hfind (quiet_setFailed hs hfind (by rw [hphase]; rfl) timeout)
    · cases h
  case answer =>
    cases ha
    split at h
    · rename_i hphase
      cases h
      exact hs.answered hfind hphase (allowed_of_all hallowed hfind)
    · cases h
  case takeFallback =>
    cases ha
    obtain ⟨hphase, hw⟩ := ite_none_right_eq_some.mp h
    cases hw
    have hearly : l.phase.early := by rw [hphase]; rfl
    split
    · rename_i hfree
      exact hs.seized hfind hearly hfree (allowed_of_all hallowed hfind)
    · exact hs.queue hfind hearly
  case wake =>
    cases ha
    obtain ⟨⟨hphase, hfree⟩, hw⟩ := ite_none_right_eq_some.mp h
    cases hw
    exact hs.seized hfind (by rw [hphase]; rfl) hfree (allowed_of_all hallowed hfind)
  case giveUp =>
    split at h
    · cases h
      exact hs.put hfind (quiet_out hs hfind (by simp) fun h => by cases h)
    · cases h
      exact hs.put hfind (quiet_out hs hfind (by simp) fun h => by cases h)
    · cases h
      exact Sound.put (hs.putWaiters _ _) hfind (quiet_out hs hfind (by simp) fun h => by cases h)
    · cases h
      exact hs.put hfind (quiet_out hs hfind (by simp) fun h => by cases h)
    · cases h
  case exit _ raised =>
    obtain ⟨hphase, hw⟩ := ite_none_right_eq_some.mp h
    cases hw
    exact hs.exit hfind hphase raised
  case release =>
    cases ha
    have hrelease := hs.release hfind (allowed_of_all hallowed hfind)
    split at h
    any_goals
      cases h
      exact hrelease
    cases h
  case releaseScript =>
    split at h
    · rename_i hphase
      obtain ⟨-, hw⟩ := ite_none_left_eq_some.mp h
      cases hw
      exact hs.del hfind (byKey_of_out (by simp [hphase]))
    · cases h
  case finish =>
    split at h
    · rename_i how hphase
      cases h
      cases how with
      | call => exact hs.put hfind (quiet_out hs hfind (by simp) fun h => by cases h)
      | block raised =>
        refine hs.put hfind (quiet_out hs hfind ?_ fun h => ?_)
        · unfold leftBlock
          split_ifs <;> simp
        · unfold leftBlock at h
          split_ifs at h <;> cases h
    · cases h
  case renewWake =>
    split at h
    · obtain ⟨-, hw⟩ := ite_none_right_eq_some.mp h
      cases hw
      exact hs.put hfind (quiet_renewer hs hfind _)
    · cases h
  case renewScript =>
    split at h
    · cases h
      exact hs.renew hfind _
    · cases h
  case renewFails =>
    have hfailed : ∀ failures, Sound (w.put id (w.renewFailed l failures)) := by
      intro failures
      unfold renewFailed
      split
      · exact hs.put hfind (quiet_lost hs hfind _)
      · exact hs.put hfind (quiet_renewer hs hfind _)
    obtain ⟨-, h⟩ := ite_none_right_eq_some.mp h
    split at h
    · cases h
      exact hfailed _
    · cases h
      exact hfailed _
    · cases h
  case renewed =>
    obtain ⟨-, h⟩ := ite_none_right_eq_some.mp h
    split at h
    · cases h
      unfold renewAnswered
      split
      · exact hs.put hfind (quiet_renewer hs hfind _)
      · exact hs.put hfind (quiet_lost hs hfind _)
    · cases h

theorem Sound.step (hs : Sound w) (hallowed : exclusive w a) (h : step w a = some w') :
    Sound w' := by
  cases ha : actor a with
  | some id =>
    obtain ⟨l, hfind, hstep⟩ := step_of_actor ha h
    exact hs.lockStep ha hfind hallowed hstep
  | none =>
    cases a with
    | lock loop session client configured ttlMs acquireTimeoutMs failOnDegraded failOnLost =>
      cases h
      exact hs.handOut ..
    | tick ms =>
      cases h
      refine hs.keys fun j k hk hkey => ?_
      have hall := List.all_eq_true.mp hallowed (j, k) (find_eq_some.mp hk)
      simpa [hkey] using hall
    | forget session =>
      cases h
      refine hs.keys fun j k hk hkey => ?_
      have hall := List.all_eq_true.mp hallowed (j, k) (find_eq_some.mp hk)
      simpa [hkey] using hall
    | _ => cases ha

theorem sound_init : Sound {} where
  fresh := fun _ _ h => by cases h
  pooled := fun _ _ _ h => by cases h
  token := fun _ _ h => by cases h
  early := fun _ _ h => by cases h
  keyed := fun _ _ h => by cases h
  seated := fun _ _ h => by cases h
  apart := fun _ _ _ _ h => by cases h

/-- Two tasks of a loop are in the section of one session only where one of them knows that it
    has lost it. -/
def Excluded (w : LockWorld) : Prop :=
  ∀ id id' l l', id ≠ id' → w.locks.find id = some l → w.locks.find id' = some l' →
    l.loop = l'.loop → l.session = l'.session → l.held = true → l'.held = true →
      l.lost = true ∨ l'.lost = true

theorem by_of_held (hin : l.held) (hlost : ¬ l.lost) :
    l.byKey ∨ l.byMutex := by
  by_cases hmode : l.mode = .redis <;>
    simp [byKey, byMutex, hin, hlost, hmode]

theorem Sound.excluded (hs : Sound w) : Excluded w := by
  intro id id' l l' hne hfind hfind' hloop hsession hin hin'
  have hrivals : l.rivals l' := by simp [rivals, hloop, hsession]
  by_contra hlost
  push Not at hlost
  rcases by_of_held hin hlost.1 with hkey | hmutex <;>
    rcases by_of_held hin' hlost.2 with hkey' | hmutex'
  · have howner := hs.keyed id l hfind hkey
    rw [hsession, hs.keyed id' l' hfind' hkey'] at howner
    exact hne (some.inj howner).symm
  · have happart := hs.apart id l id' l' hfind hfind' hkey hmutex'
    rw [rivals_comm, hrivals] at happart
    cases happart
  · have happart := hs.apart id' l' id l hfind' hfind hkey' hmutex
    rw [hrivals] at happart
    cases happart
  · obtain ⟨⟨mx, hmx, hholder⟩, hbucket⟩ := hs.seated id l hfind hmutex
    obtain ⟨⟨mx', hmx', hholder'⟩, hbucket'⟩ := hs.seated id' l' hfind' hmutex'
    rw [hloop, hsession, hbucket'] at hbucket
    rw [← some.inj hbucket, hmx'] at hmx
    cases hmx
    rw [hholder] at hholder'
    exact hne (some.inj hholder')

/-- Where nobody enters past a rival that is inside in the other way, by a lock that the bucket has
    dropped or by a key that has run out, the section has one task. -/
theorem inside_excluded (hrun : Relation.ReflTransGen (Step step exclusive) {} w) : Excluded w :=
  (run_induction Sound.step sound_init hrun).excluded

/-- A lock of session `s` that goes inside by its key. -/
def byKey (id : Nat) : List LockAction :=
  [.lock 0 "s" true true 30000 30000 (some false) none, .enter id, .set id, .answer id]

/-- A lock whose `SET` comes to an error, and that goes inside by the lock in the process. -/
def byFallback (id : Nat) : List LockAction :=
  [.lock 0 "s" true true 30000 30000 (some false) none, .enter id, .setFails id false,
    .takeFallback id]

/-- Redis renews the key, and the caller does not come to know it. -/
def unanswered (id : Nat) : List LockAction :=
  [.tick renewIntervalMs, .renewWake id, .renewScript id, .renewFails id]

/-- One task is inside by its key, and another comes in while Redis does not answer. -/
theorem outage_lets_in : ¬ ∀ w,
    Relation.ReflTransGen (Step step fun _ _ => true) {} w → Excluded w := by
  intro hall
  obtain ⟨w, hw⟩ : ∃ w, play step (fun _ _ => true) {} (byKey 0 ++ byFallback 1) = some w :=
    ⟨_, rfl⟩
  have hexcluded := hall w (run_of_play hw)
  cases hw
  rcases hexcluded 0 1 _ _ (by decide) rfl rfl rfl rfl rfl rfl with h | h <;> cases h

theorem lost_excluded : ∃ w, play step exclusive {}
    (byKey 0 ++ (List.replicate 4 (unanswered 0)).flatten ++ [.tick 30001] ++ byKey 1) = some w ∧
      Excluded w := by
  obtain ⟨w, hw⟩ : ∃ w, play step exclusive {} (byKey 0 ++
      (List.replicate 4 (unanswered 0)).flatten ++ [.tick 30001] ++ byKey 1) = some w := ⟨_, rfl⟩
  exact ⟨w, hw, inside_excluded (run_of_play hw)⟩

end LockWorld

end WebGis.Locks
