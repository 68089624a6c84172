/-
  The lock of a session: a key in Redis with a token and a time to live, or a lock in the process.

  A lock object is handed out by `lock`, entered once and left once. What Redis does with a
  command and what the caller learns of it are two steps: between them the clock goes on, a key
  can run out, and an error can take the place of an answer. A token is drawn by one object only,
  and the object's number stands for it. `loop` is an event loop in some process: the locks in
  the process are kept in one bucket for each.
-/
import WebGis.Data.Entries

namespace WebGis.Locks

open Data

def fallbackCap : Nat := 4096

/-- `_RENEW_INTERVAL_S` in milliseconds. -/
def renewIntervalMs : Nat := 8000

inductive Mode where
  | redis
  | inprocess
  | degraded
  deriving DecidableEq

inductive Failure where
  | contention
  | degraded
  | lost
  /-- The exception of the body, a cancellation, or an error of the library. -/
  | other
  deriving DecidableEq

/-- How a block is left, or `release` called. -/
inductive Leave where
  | block (raised : Bool)
  | call
  deriving DecidableEq

inductive Phase where
  | fresh
  /-- Before a `SET`, with the deadline of the loop. -/
  | trying (deadline : Nat)
  /-- The `SET` was done, and its answer is on the way. -/
  | answered (deadline : Nat) (ok : Bool)
  /-- Before `fallback.acquire`, and in its queue. -/
  | falling
  | waiting
  | inside
  /-- Before the answer to the release script. -/
  | releasing (how : Leave)
  /-- The block was left without an exception. -/
  | returned
  | raised (failure : Failure)
  /-- `release` was called. -/
  | released
  deriving DecidableEq

/-- `acquire` has not come to its end. -/
def Phase.early : Phase → Bool
  | fresh => true
  | trying _ => true
  | answered _ _ => true
  | falling => true
  | waiting => true
  | _ => false

/-- The task of `_renew_loop`. -/
inductive Renewer where
  | none
  | sleeping (till failures : Nat)
  | asking (failures : Nat)
  | answered (ok : Bool) (failures : Nat)
  | over
  deriving DecidableEq

/-- `_ResilientSessionLock` -/
structure SessionLock where
  loop : Nat
  session : String
  client : Bool
  redisConfigured : Bool
  fallback : Nat
  ttlMs : Nat
  acquireTimeoutMs : Nat
  failOnDegraded : Bool
  failOnLost : Bool
  mode : Mode := .inprocess
  token : Option Nat := none
  renewer : Renewer := .none
  lost : Bool := false
  phase : Phase := .fresh

/-- What Redis has under the key of a session. -/
structure Stored where
  token : Nat
  expiry : Nat

/-- An `asyncio.Lock`: who has locked it, and who waits. -/
structure Mutex where
  holder : Option Nat := none
  waiters : List Nat := []

structure LockWorld where
  now : Nat := 0
  keys : Dict String Stored := Dict.empty
  buckets : Dict Nat (Dict String Nat) := Dict.empty
  mutexes : Dict Nat Mutex := Dict.empty
  locks : Dict Nat SessionLock := Dict.empty
  nextMutex : Nat := 0
  nextLock : Nat := 0

inductive LockAction where
  | lock (loop : Nat) (session : String) (client configured : Bool) (ttlMs acquireTimeoutMs : Nat)
      (failOnDegraded failOnLost : Option Bool)
  | enter (id : Nat)
  /-- Redis does the `SET` of the lock. -/
  | set (id : Nat)
  /-- The caller has an error for it, which may be a `TimeoutError`. -/
  | setFails (id : Nat) (timeout : Bool)
  | answer (id : Nat)
  | takeFallback (id : Nat)
  | wake (id : Nat)
  /-- The wait is over because of its time limit or because the task is cancelled. -/
  | giveUp (id : Nat)
  | exit (id : Nat) (raised : Bool)
  | release (id : Nat)
  /-- Redis runs the release script. -/
  | releaseScript (id : Nat)
  | finish (id : Nat)
  | renewWake (id : Nat)
  /-- Redis runs the renewal script. -/
  | renewScript (id : Nat)
  | renewFails (id : Nat)
  | renewed (id : Nat)
  | tick (ms : Nat)
  /-- Redis comes back without the key. -/
  | forget (session : String)

def SessionLock.held (l : SessionLock) : Bool := l.phase = .inside

/-- `max(ttl_ms // interval_ms + 1, 2)` -/
def SessionLock.renewBudget (l : SessionLock) : Nat := max (l.ttlMs / renewIntervalMs + 1) 2

def Mutex.idle (m : Mutex) : Bool := m.holder.isNone && m.waiters.isEmpty

namespace LockWorld

/-- The token under the key of the session, unless it has run out. -/
def owner (w : LockWorld) (session : String) : Option Nat :=
  ((w.keys.find session).filter fun s => w.now ≤ s.expiry).map Stored.token

def bucket (w : LockWorld) (loop : Nat) : Dict String Nat := w.buckets.getD loop Dict.empty

def put (w : LockWorld) (id : Nat) (l : SessionLock) : LockWorld :=
  { w with locks := w.locks.set id l }

def putMutex (w : LockWorld) (m : Nat) (mutex : Mutex) : LockWorld :=
  { w with mutexes := w.mutexes.set m mutex }

/-! ## The registry -/

def idleIn (w : LockWorld) (kv : String × Nat) : Bool := (w.mutexes.find kv.2).any Mutex.idle

/-- The loop of `_evict_idle_fallbacks`. -/
def evictFrom (bucket : Dict String Nat) : List String → Dict String Nat
  | [] => bucket
  | sid :: rest =>
    let left : Dict String Nat := Table.delete bucket fun kv => kv.1 = sid
    if left.items.length < fallbackCap * 3 / 4 then left else evictFrom left rest

def evictIdleFallbacks (w : LockWorld) (bucket : Dict String Nat) : Dict String Nat :=
  if bucket.items.length < fallbackCap then bucket
  else evictFrom bucket ((bucket.items.filter w.idleIn).map Prod.fst)

def fallbackLock (w : LockWorld) (loop : Nat) (session : String) : Nat × LockWorld :=
  match (w.bucket loop).find session with
  | some m => (m, w)
  | none =>
    let kept := w.evictIdleFallbacks (w.bucket loop)
    (w.nextMutex, { w with
        buckets := w.buckets.set loop (kept.set session w.nextMutex)
        mutexes := w.mutexes.set w.nextMutex {}
        nextMutex := w.nextMutex + 1 })

/-- `_ResilientSessionLock.__init__` -/
def newLock (loop : Nat) (session : String) (client configured : Bool) (fallback ttlMs : Nat)
    (acquireTimeoutMs : Nat) (failOnDegraded failOnLost : Bool) : SessionLock where
  loop := loop
  session := session
  client := client
  redisConfigured := configured
  fallback := fallback
  ttlMs := ttlMs
  acquireTimeoutMs := acquireTimeoutMs
  failOnDegraded := failOnDegraded
  failOnLost := failOnLost

/-- `lock` -/
def handOut (w : LockWorld) (loop : Nat) (session : String) (client configured : Bool)
    (ttlMs acquireTimeoutMs : Nat) (failOnDegraded failOnLost : Option Bool) : LockWorld :=
  let (fallback, w) := w.fallbackLock loop session
  { w with
    locks := w.locks.set w.nextLock
      (newLock loop session client configured fallback ttlMs acquireTimeoutMs
        (failOnDegraded.getD configured) (failOnLost.getD configured))
    nextLock := w.nextLock + 1 }

/-! ## The lock in the process -/

/-- It is not locked, and the caller is the next. -/
def free (w : LockWorld) (m id : Nat) : Bool :=
  match w.mutexes.find m with
  | none => false
  | some mutex => mutex.holder.isNone && (mutex.waiters.isEmpty || mutex.waiters.head? = some id)

/-- `fallback.acquire` where it does not wait, and the end of it where it did. -/
def seize (w : LockWorld) (id : Nat) (l : SessionLock) : LockWorld :=
  (w.putMutex l.fallback
      { holder := some id
        waiters := ((w.mutexes.getD l.fallback {}).waiters).erase id }).put id
    { l with phase := .inside }

def queue (w : LockWorld) (id : Nat) (l : SessionLock) : LockWorld :=
  let mutex := w.mutexes.getD l.fallback {}
  (w.putMutex l.fallback { mutex with waiters := mutex.waiters ++ [id] }).put id
    { l with phase := .waiting }

/-- The caller is not in the queue any longer. -/
def unqueue (w : LockWorld) (id : Nat) (l : SessionLock) : LockWorld :=
  let mutex := w.mutexes.getD l.fallback {}
  w.putMutex l.fallback { mutex with waiters := mutex.waiters.erase id }

def locked (w : LockWorld) (m : Nat) : Bool :=
  (w.mutexes.find m).any fun mutex => mutex.holder.isSome

/-- `fallback.release`, by whoever calls it. -/
def unlock (w : LockWorld) (m : Nat) : LockWorld :=
  w.putMutex m { w.mutexes.getD m {} with holder := none }

/-! ## The steps of one lock -/

/-- `__aenter__` up to the first `await`. -/
def enter (w : LockWorld) (id : Nat) (l : SessionLock) : SessionLock :=
  if l.client then
    { l with token := some id, phase := .trying (w.now + l.acquireTimeoutMs) }
  else if l.redisConfigured then
    { l with mode := .degraded, phase := if l.failOnDegraded then .raised .degraded else .falling }
  else { l with phase := .falling }

/-- `SET key token NX PX ttl` -/
def setNx (w : LockWorld) (id : Nat) (l : SessionLock) (deadline : Nat) : LockWorld :=
  match w.owner l.session with
  | some _ => w.put id { l with phase := .answered deadline false }
  | none =>
    { w with keys := w.keys.set l.session { token := id, expiry := w.now + l.ttlMs } }.put id
      { l with phase := .answered deadline true }

/-- The handlers of `__aenter__`. -/
def setFailed (l : SessionLock) (timeout : Bool) : SessionLock :=
  if timeout then { l with phase := .raised .other }
  else if l.failOnDegraded then { l with phase := .raised .degraded }
  else { l with mode := .degraded, token := none, phase := .falling }

def answered (w : LockWorld) (l : SessionLock) (deadline : Nat) (ok : Bool) : SessionLock :=
  if ok then
    { l with
      mode := .redis, phase := .inside, renewer := .sleeping (w.now + renewIntervalMs) 0 }
  else if deadline < w.now then { l with phase := .raised .contention }
  else { l with phase := .trying deadline }

/-- The script runs where the key has the lock's own token. -/
def owned (w : LockWorld) (l : SessionLock) : Bool :=
  l.token.isSome && w.owner l.session = l.token

/-- What is left of `__aexit__` once there is no key to give back. -/
def leftBlock (l : SessionLock) (raised : Bool) : Phase :=
  if raised then .raised .other
  else if l.lost && l.failOnLost then .raised .lost
  else .returned

/-- `__aexit__` -/
def exit (w : LockWorld) (id : Nat) (l : SessionLock) (raised : Bool) : LockWorld :=
  if l.mode = .redis then w.put id { l with phase := .releasing (.block raised) }
  else if w.locked l.fallback then
    (w.unlock l.fallback).put id
      { l with phase := if raised then .raised .other else .returned }
  else w.put id { l with phase := .raised .other }

def release (w : LockWorld) (id : Nat) (l : SessionLock) : LockWorld :=
  if l.mode = .redis then w.put id { l with phase := .releasing .call }
  else
    let left := if l.held then w.put id { l with phase := .released } else w
    if w.locked l.fallback then left.unlock l.fallback else left

def finished (l : SessionLock) : Leave → SessionLock
  | .block raised => { l with phase := leftBlock l raised }
  | .call => { l with phase := .released }

def renewFailed (w : LockWorld) (l : SessionLock) (failures : Nat) : SessionLock :=
  if l.renewBudget ≤ failures + 1 then { l with lost := true, renewer := .over }
  else { l with renewer := .sleeping (w.now + renewIntervalMs) (failures + 1) }

def renewAnswered (w : LockWorld) (l : SessionLock) (ok : Bool) : SessionLock :=
  if ok then { l with renewer := .sleeping (w.now + renewIntervalMs) 0 }
  else { l with lost := true, renewer := .over }

/-- The renewal script. -/
def renew (w : LockWorld) (id : Nat) (l : SessionLock) (failures : Nat) : LockWorld :=
  if w.owned l then
    { w with keys := w.keys.set l.session { token := id, expiry := w.now + l.ttlMs } }.put id
      { l with renewer := .answered true failures }
  else w.put id { l with renewer := .answered false failures }

/-- The release script. -/
def del (w : LockWorld) (l : SessionLock) : LockWorld :=
  if w.owned l then { w with keys := Table.delete w.keys fun kv => kv.1 = l.session } else w

/-- A step of one lock, where its phase has one. -/
def lockStep (w : LockWorld) (id : Nat) (l : SessionLock) : LockAction → Option LockWorld
  | .enter _ => if l.phase = .fresh then some (w.put id (w.enter id l)) else none
  | .set _ =>
    match l.phase with
    | .trying deadline => some (w.setNx id l deadline)
    | _ => none
  | .setFails _ timeout =>
    match l.phase with
    | .trying _ => some (w.put id (setFailed l timeout))
    | .answered _ _ => some (w.put id (setFailed l timeout))
    | _ => none
  | .answer _ =>
    match l.phase with
    | .answered deadline ok => some (w.put id (w.answered l deadline ok))
    | _ => none
  | .takeFallback _ =>
    if l.phase = .falling then
      some (if w.free l.fallback id then w.seize id l else w.queue id l)
    else none
  | .wake _ =>
    if l.phase = .waiting ∧ w.free l.fallback id then some (w.seize id l) else none
  | .giveUp _ =>
    match l.phase with
    | .trying _ => some (w.put id { l with phase := .raised .other })
    | .answered _ _ => some (w.put id { l with phase := .raised .other })
    | .waiting => some ((w.unqueue id l).put id { l with phase := .raised .contention })
    | .releasing (.block _) => some (w.put id { l with phase := .raised .other })
    | _ => none
  | .exit _ raised => if l.phase = .inside then some (w.exit id l raised) else none
  | .release _ =>
    match l.phase with
    | .fresh => some (w.release id l)
    | .inside => some (w.release id l)
    | .returned => some (w.release id l)
    | .raised _ => some (w.release id l)
    | .released => some (w.release id l)
    | _ => none
  | .releaseScript _ =>
    match l.phase with
    | .releasing _ => if l.lost then none else some (w.del l)
    | _ => none
  | .finish _ =>
    match l.phase with
    | .releasing how => some (w.put id (finished l how))
    | _ => none
  | .renewWake _ =>
    match l.renewer with
    | .sleeping till failures =>
      if l.phase = .inside ∧ till ≤ w.now then
        some (w.put id { l with renewer := .asking failures })
      else none
    | _ => none
  -- The script may run while the task that asked for it is being cancelled.
  | .renewScript _ =>
    match l.renewer with
    | .asking failures => some (w.renew id l failures)
    | _ => none
  | .renewFails _ =>
    if l.phase = .inside then
      match l.renewer with
      | .asking failures => some (w.put id (w.renewFailed l failures))
      | .answered _ failures => some (w.put id (w.renewFailed l failures))
      | _ => none
    else none
  | .renewed _ =>
    if l.phase = .inside then
      match l.renewer with
      | .answered ok _ => some (w.put id (w.renewAnswered l ok))
      | _ => none
    else none
  | _ => none

/-- The lock that takes the step. -/
def actor : LockAction → Option Nat
  | .enter id | .set id | .setFails id _ | .answer id | .takeFallback id | .wake id | .giveUp id
  | .exit id _ | .release id | .releaseScript id | .finish id | .renewWake id | .renewScript id
  | .renewFails id | .renewed id => some id
  | _ => none

def step (w : LockWorld) : LockAction → Option LockWorld
  | .lock loop session client configured ttlMs acquireTimeoutMs failOnDegraded failOnLost =>
    some (w.handOut loop session client configured ttlMs acquireTimeoutMs failOnDegraded failOnLost)
  | .tick ms => some { w with now := w.now + ms }
  | .forget session => some { w with keys := Table.delete w.keys fun kv => kv.1 = session }
  | a =>
    match actor a with
    | none => none
    | some id =>
      match w.locks.find id with
      | none => none
      | some l => w.lockStep id l a

theorem step_of_actor {w w' : LockWorld} {a : LockAction} {id : Nat} (ha : actor a = some id)
    (h : step w a = some w') :
    ∃ l, w.locks.find id = some l ∧ w.lockStep id l a = some w' := by
  have hstep : (match w.locks.find id with
      | none => none
      | some l => w.lockStep id l a) = some w' := by
    cases a <;> cases ha <;> exact h
  cases hfind : w.locks.find id with
  | none =>
    rw [hfind] at hstep
    cases hstep
  | some l =>
    rw [hfind] at hstep
    exact ⟨l, rfl, hstep⟩

end LockWorld

end WebGis.Locks
