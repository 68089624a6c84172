/-
  Deliveries of events to one watch, any event any number of times and several at once.

  Only the last evaluated event is remembered, so an event that comes again without a fire, after
  another one was evaluated, counts twice (`returned_twice`); and one that comes again at once is
  taken for fired if another event of the same time was. Where neither happens (`careful`), the
  state is that of one evaluation for each event, in the order of the first ones, and so are the
  fires (`counted_once`).
-/
import WebGis.Events.Watch
import WebGis.Data.Play

namespace WebGis.Events

open Data List

/-- What an event is about is fixed by its id. -/
structure EventLog where
  event : String → SpatialEvent
  named : ∀ id, (event id).eventId = id

structure DeliveryConfig where
  lib : Readings
  watch : ConditionedWatch
  log : EventLog
  /-- `_WATCH_STATE_CAS_ATTEMPTS` -/
  casAttempts : Nat

/-- Where the processing of an event is with the watch. -/
inductive Stage where
  | look
  /-- So many attempts are left. -/
  | read (left : Nat)
  /-- The evaluation is done, on what was read. -/
  | commit (left : Nat) (seen : WatchState) (revision : Nat) (aoi : Option Json)
      (result : WatchEvalResult)
  /-- Before the first of the actions, or the end. -/
  | act (todo : List TriggerAction)

structure Delivery where
  id : String
  stage : Stage := .look
  /-- An action has put the event off. -/
  deferred : Bool := false

structure WatchWorld where
  state : WatchState := {}
  revision : Nat := 0
  fires : List (String × TriggerAction) := []
  deliveries : Dict Nat Delivery := Dict.empty
  /-- The first evaluations, each with the area that it saw. -/
  order : List (String × Option Json) := []
  /-- The events that a delivery has come to the end with. -/
  finished : List String := []

inductive ActOutcome where
  /-- The fire is there. -/
  | recorded
  /-- It is there, and the mission is put off. -/
  | deferred
  /-- The call has raised before. -/
  | failed

inductive WatchAction where
  | deliver (call : Nat) (id : String)
  /-- `get_fire` without an action. -/
  | look (call : Nat)
  /-- `get_watch_state_with_revision` and the evaluation. -/
  | read (call : Nat) (aoi : Option Json)
  /-- `compare_and_swap_watch_state` -/
  | commit (call : Nat)
  | act (call : Nat) (outcome : ActOutcome)
  | finish (call : Nat)
  /-- The worker is gone, or has to leave the event. -/
  | abandon (call : Nat)

/-- The state and the fires of a run that evaluates each event once. -/
structure Reference where
  state : WatchState := {}
  fired : List String := []

namespace DeliveryConfig

variable (cfg : DeliveryConfig)

/-- The evaluation of an event, where the area is what was found under its reference. -/
def evaluate (state : WatchState) (id : String) (aoi : Option Json) : Except Unit WatchEvalResult :=
  cfg.lib.evaluateWatch cfg.watch state (cfg.log.event id) (some fun _ => .ok aoi)

def once (r : Reference) (e : String × Option Json) : Reference :=
  match cfg.evaluate r.state e.1 e.2 with
  | .error _ => r
  | .ok result =>
    { state := result.state, fired := if result.fired then r.fired ++ [e.1] else r.fired }

def reference (order : List (String × Option Json)) : Reference := order.foldl cfg.once {}

end DeliveryConfig

namespace WatchWorld

def evaluated (w : WatchWorld) : List String := w.order.map Prod.fst

def recordFire (w : WatchWorld) (key : String × TriggerAction) : WatchWorld :=
  if key ∈ w.fires then w else { w with fires := w.fires ++ [key] }

def goTo (w : WatchWorld) (call : Nat) (d : Delivery) (stage : Stage) : WatchWorld :=
  { w with deliveries := w.deliveries.set call { d with stage := stage } }

def leave (w : WatchWorld) (call : Nat) : WatchWorld :=
  { w with deliveries := Table.delete w.deliveries fun kv => kv.1 = call }

/-- What a result leads to. -/
def afterResult (cfg : DeliveryConfig) (fired : Bool) : Stage :=
  .act (if fired then cfg.watch.actions else [])

/-- A read, and the evaluation of what it has found. -/
def read (cfg : DeliveryConfig) (w : WatchWorld) (call : Nat) (d : Delivery) (left : Nat)
    (aoi : Option Json) : WatchWorld :=
  if w.state.lastEventId = d.id then
    w.goTo call d
      (afterResult cfg (w.state.lastFiredAt = some (cfg.log.event d.id).occurredAt))
  else
    match cfg.evaluate w.state d.id aoi with
    | .error _ => w.leave call
    | .ok result => w.goTo call d (.commit left w.state w.revision aoi result)

/-- A commit that finds the revision. -/
def committed (cfg : DeliveryConfig) (w : WatchWorld) (call : Nat) (d : Delivery)
    (aoi : Option Json) (result : WatchEvalResult) : WatchWorld :=
  { w with
    state := result.state
    revision := w.revision + 1
    order := if d.id ∈ w.evaluated then w.order else w.order ++ [(d.id, aoi)] }.goTo call d
      (afterResult cfg result.fired)

def act (w : WatchWorld) (call : Nat) (d : Delivery) (action : TriggerAction)
    (todo : List TriggerAction) : ActOutcome → WatchWorld
  | .recorded => (w.recordFire (d.id, action)).goTo call d (.act todo)
  | .deferred => (w.recordFire (d.id, action)).goTo call { d with deferred := true } (.act todo)
  | .failed => w.goTo call { d with deferred := true } (.act todo)

def finish (w : WatchWorld) (call : Nat) (d : Delivery) : WatchWorld :=
  if d.deferred then w.leave call
  else { w with finished := w.finished ++ [d.id] }.leave call

def step (cfg : DeliveryConfig) (w : WatchWorld) : WatchAction → Option WatchWorld
  | .deliver call id =>
    if (w.deliveries.find call).isNone ∧ id ≠ "" ∧
        cfg.watch.matchesEvent (cfg.log.event id).toEventRow then
      some { w with deliveries := w.deliveries.set call { id := id } }
    else none
  | .look call =>
    match w.deliveries.find call with
    | some { id, stage := .look, deferred } =>
      some (w.goTo call { id, deferred }
        (if w.fires.any fun key => key.1 = id then .act cfg.watch.actions
          else .read cfg.casAttempts))
    | _ => none
  | .read call aoi =>
    match w.deliveries.find call with
    | some { id, stage := .read (left + 1), deferred } =>
      some (w.read cfg call { id, deferred } left aoi)
    | _ => none
  | .commit call =>
    match w.deliveries.find call with
    | some { id, stage := .commit left _ revision aoi result, deferred } =>
      if revision = w.revision then
        some (w.committed cfg call { id, deferred } aoi result)
      else some (w.goTo call { id, deferred } (.read left))
    | _ => none
  | .act call outcome =>
    match w.deliveries.find call with
    | some { id, stage := .act (action :: todo), deferred } =>
      some (w.act call { id, deferred } action todo outcome)
    | _ => none
  | .finish call =>
    match w.deliveries.find call with
    | some { id, stage := .act [], deferred } => some (w.finish call { id, deferred })
    | _ => none
  | .abandon call => some (w.leave call)

end WatchWorld

/-! ## The reference -/

namespace DeliveryConfig

variable {cfg : DeliveryConfig} {order : List (String × Option Json)} {e : String × Option Json}

theorem reference_concat (order : List (String × Option Json)) (e : String × Option Json) :
    cfg.reference (order ++ [e]) = cfg.once (cfg.reference order) e := by
  unfold reference
  rw [foldl_concat]

theorem once_eq {r : Reference} {result : WatchEvalResult}
    (h : cfg.evaluate r.state e.1 e.2 = .ok result) : cfg.once r e =
      { state := result.state, fired := if result.fired then r.fired ++ [e.1] else r.fired } := by
  unfold once
  rw [h]

theorem fired_once {r : Reference} {id : String} (h : id ∈ (cfg.once r e).fired) :
    id ∈ r.fired ∨ id = e.1 := by
  unfold once at h
  split at h
  · exact .inl h
  split at h
  · exact (mem_append.mp h).imp_right mem_singleton.mp
  · exact .inl h

theorem evaluated_of_fired {id : String} (h : id ∈ (cfg.reference order).fired) :
    id ∈ order.map Prod.fst := by
  induction order using List.reverseRecOn with
  | nil => cases h
  | append_singleton order e ih =>
    rw [reference_concat] at h
    rw [map_append, mem_append]
    exact (fired_once h).imp ih fun heq => mem_singleton.mpr heq

end DeliveryConfig

namespace WatchWorld

variable {cfg : DeliveryConfig} {w w' : WatchWorld} {call : Nat} {d : Delivery}

/-- An event that was evaluated is evaluated again only if it is the last one, and is then not
    taken for fired unless it was. -/
def mayRead (cfg : DeliveryConfig) (w : WatchWorld) (d : Delivery) : Bool :=
  d.id ∉ w.evaluated ||
    w.state.lastEventId = d.id &&
      (w.state.lastFiredAt ≠ some (cfg.log.event d.id).occurredAt ||
        d.id ∈ (cfg.reference w.order).fired)

def careful (cfg : DeliveryConfig) (w : WatchWorld) : WatchAction → Bool
  | .read call _ => (w.deliveries.find call).all fun d => w.mayRead cfg d
  | _ => true

/-- What a delivery knows. -/
def Ready (cfg : DeliveryConfig) (w : WatchWorld) (d : Delivery) : Prop :=
  match d.stage with
  | .look => True
  | .read _ => True
  | .commit _ seen revision aoi result =>
    cfg.evaluate seen d.id aoi = .ok result ∧ revision ≤ w.revision ∧
      (revision = w.revision → seen = w.state ∧ d.id ∉ w.evaluated)
  | .act todo =>
    d.id ∈ w.evaluated ∧
      (∀ x ∈ todo, d.id ∈ (cfg.reference w.order).fired ∧ x ∈ cfg.watch.actions) ∧
      (d.id ∈ (cfg.reference w.order).fired → d.deferred = true ∨
        ∀ x ∈ cfg.watch.actions, x ∈ todo ∨ (d.id, x) ∈ w.fires)

structure Sound (cfg : DeliveryConfig) (w : WatchWorld) : Prop where
  state : w.state = (cfg.reference w.order).state
  once : w.evaluated.Nodup
  last : (w.order = [] ∧ w.state.lastEventId = "") ∨
    w.state.lastEventId ∈ w.evaluated ∧
      (w.state.lastEventId ∈ (cfg.reference w.order).fired →
        w.state.lastFiredAt = some (cfg.log.event w.state.lastEventId).occurredAt)
  fires : ∀ key ∈ w.fires,
    key.1 ∈ (cfg.reference w.order).fired ∧ key.2 ∈ cfg.watch.actions
  finished : ∀ id ∈ w.finished, id ∈ w.evaluated ∧
    (id ∈ (cfg.reference w.order).fired → ∀ x ∈ cfg.watch.actions, (id, x) ∈ w.fires)
  delivery : ∀ call d, w.deliveries.find call = some d → d.id ≠ "" ∧ Ready cfg w d

/-! ## Steps -/

/-- What other deliveries see of a step. -/
structure Evolves (cfg : DeliveryConfig) (w w' : WatchWorld) : Prop where
  evaluated : ∀ id ∈ w.evaluated, id ∈ w'.evaluated
  fired : ∀ id ∈ w.evaluated,
    (id ∈ (cfg.reference w'.order).fired ↔ id ∈ (cfg.reference w.order).fired)
  fires : ∀ key ∈ w.fires, key ∈ w'.fires
  revision : w.revision ≤ w'.revision
  unmoved : w'.revision = w.revision → w'.state = w.state ∧ w'.evaluated = w.evaluated

theorem Ready.evolve (h : Ready cfg w d) (he : Evolves cfg w w') : Ready cfg w' d := by
  unfold Ready at h ⊢
  split
  · trivial
  · trivial
  · rename_i left seen revision aoi result hstage
    rw [hstage] at h
    obtain ⟨heval, hle, hseen⟩ := h
    refine ⟨heval, hle.trans he.revision, fun heq => ?_⟩
    have hrevision := he.revision
    have hsame : w'.revision = w.revision := by omega
    obtain ⟨hstate, hevaluated⟩ := he.unmoved hsame
    rw [hstate, hevaluated]
    exact hseen (by omega)
  · rename_i todo hstage
    rw [hstage] at h
    obtain ⟨hmem, htodo, hdone⟩ := h
    refine ⟨he.evaluated _ hmem, fun x hx => ?_, fun hfired => ?_⟩
    · exact ⟨(he.fired _ hmem).mpr (htodo x hx).1, (htodo x hx).2⟩
    · refine (hdone ((he.fired _ hmem).mp hfired)).imp_right fun hall x hx => ?_
      exact (hall x hx).imp_right (he.fires _)

theorem Sound.goTo (hs : Sound cfg w) {stage : Stage} (hid : d.id ≠ "")
    (hready : Ready cfg w { d with stage := stage }) : Sound cfg (w.goTo call d stage) where
  state := hs.state
  once := hs.once
  last := hs.last
  fires := hs.fires
  finished := hs.finished
  delivery c d' hd' := by
    dsimp only [WatchWorld.goTo] at hd'
    rw [Dict.find_set] at hd'
    split at hd'
    · cases hd'
      exact ⟨hid, hready⟩
    · exact hs.delivery c d' hd'

theorem Sound.leave (hs : Sound cfg w) (call : Nat) : Sound cfg (w.leave call) where
  state := hs.state
  once := hs.once
  last := hs.last
  fires := hs.fires
  finished := hs.finished
  delivery c d' hd' := by
    dsimp only [WatchWorld.leave] at hd'
    rw [Dict.find_delete_key] at hd'
    split at hd'
    · cases hd'
    · exact hs.delivery c d' hd'

theorem mem_recordFire {key key' : String × TriggerAction} :
    key' ∈ (w.recordFire key).fires ↔ key' = key ∨ key' ∈ w.fires := by
  unfold recordFire
  split
  · rename_i hmem
    refine ⟨.inr, fun h => ?_⟩
    rcases h with rfl | h
    · exact hmem
    · exact h
  · rw [mem_append, mem_singleton, or_comm]

theorem recordFire_eq (w : WatchWorld) (key : String × TriggerAction) :
    w.recordFire key = { w with fires := (w.recordFire key).fires } := by
  unfold recordFire
  split <;> rfl

theorem evolves_recordFire (w : WatchWorld) (key : String × TriggerAction) :
    Evolves cfg w (w.recordFire key) := by
  have hmem : ∀ key' ∈ w.fires, key' ∈ (w.recordFire key).fires := fun key' h =>
    mem_recordFire.mpr (.inr h)
  rw [recordFire_eq]
  exact { evaluated := fun _ h => h, fired := fun _ _ => Iff.rfl, fires := hmem
          revision := le_rfl, unmoved := fun _ => ⟨rfl, rfl⟩ }

section

variable (hs : Sound cfg w)
include hs

theorem Sound.recordFire {key : String × TriggerAction}
    (hfired : key.1 ∈ (cfg.reference w.order).fired) (haction : key.2 ∈ cfg.watch.actions) :
    Sound cfg (w.recordFire key) := by
  have he : Evolves cfg w (w.recordFire key) := evolves_recordFire w key
  have hmem : ∀ key', key' ∈ (w.recordFire key).fires → key' = key ∨ key' ∈ w.fires := fun _ =>
    mem_recordFire.mp
  rw [recordFire_eq] at he ⊢
  exact {
    state := hs.state
    once := hs.once
    last := hs.last
    fires := by
      intro key' h
      rcases hmem key' h with rfl | h
      · exact ⟨hfired, haction⟩
      · exact hs.fires key' h
    finished := fun id hid => ⟨(hs.finished id hid).1, fun hf x hx =>
      he.fires _ ((hs.finished id hid).2 hf x hx)⟩
    delivery := fun c d' hd' => ⟨(hs.delivery c d' hd').1, (hs.delivery c d' hd').2.evolve he⟩ }

theorem Sound.act {x : TriggerAction} {todo : List TriggerAction}
    (hid : d.id ≠ "") (hready : Ready cfg w { d with stage := .act (x :: todo) })
    (outcome : ActOutcome) : Sound cfg (w.act call d x todo outcome) := by
  obtain ⟨hmem, htodo, hdone⟩ := hready
  have hrest : ∀ y ∈ todo, d.id ∈ (cfg.reference w.order).fired ∧ y ∈ cfg.watch.actions :=
    fun y hy => htodo y (mem_cons_of_mem _ hy)
  obtain ⟨hfired, haction⟩ := htodo x mem_cons_self
  have hs' : Sound cfg (w.recordFire (d.id, x)) := hs.recordFire hfired haction
  have hrecorded : ∀ deferred, (d.deferred = true → deferred = true) →
      Ready cfg (w.recordFire (d.id, x)) { d with deferred := deferred, stage := .act todo } := by
    intro deferred hkeep
    have hsame : (w.recordFire (d.id, x)).order = w.order := by rw [recordFire_eq]
    refine ⟨?_, fun y hy => ?_, fun hf => ?_⟩
    · rw [evaluated, hsame]
      exact hmem
    · rw [hsame]
      exact hrest y hy
    · refine (hdone hfired).imp hkeep fun hall y hy => ?_
      rcases hall y hy with hy | hy
      · rcases mem_cons.mp hy with rfl | hy
        · exact .inr (mem_recordFire.mpr (.inl rfl))
        · exact .inl hy
      · exact .inr (mem_recordFire.mpr (.inr hy))
  cases outcome with
  | recorded => exact hs'.goTo hid (hrecorded d.deferred id)
  | deferred => exact hs'.goTo (d := { d with deferred := true }) hid (hrecorded true fun _ => rfl)
  | failed =>
    exact hs.goTo (d := { d with deferred := true }) hid ⟨hmem, hrest, fun _ => .inl rfl⟩

theorem Sound.finish (hready : Ready cfg w { d with stage := .act [] }) :
    Sound cfg (w.finish call d) := by
  unfold WatchWorld.finish
  split
  · exact hs.leave call
  rename_i hdeferred
  refine Sound.leave ?_ call
  obtain ⟨hmem, -, hdone⟩ := hready
  refine { state := hs.state, once := hs.once, last := hs.last, fires := hs.fires
           finished := fun id hid => ?_, delivery := hs.delivery }
  rcases mem_append.mp hid with hid | hid
  · exact hs.finished id hid
  cases mem_singleton.mp hid
  refine ⟨hmem, fun hfired x hx => ?_⟩
  rcases hdone hfired with hput | hall
  · exact absurd hput hdeferred
  · exact (hall x hx).resolve_left (by simp)

theorem Sound.read {left : Nat} (aoi : Option Json) (hid : d.id ≠ "")
    (hmay : w.mayRead cfg d) : Sound cfg (w.read cfg call d left aoi) := by
  unfold WatchWorld.read
  split
  · rename_i hlast
    -- The state remembers the event: it was the last one.
    obtain ⟨hmem, hfiredAt⟩ : d.id ∈ w.evaluated ∧ (d.id ∈ (cfg.reference w.order).fired →
        w.state.lastFiredAt = some (cfg.log.event d.id).occurredAt) := by
      rcases hs.last with ⟨-, hempty⟩ | h
      · exact absurd (hlast.symm.trans hempty) hid
      · rwa [hlast] at h
    have hfired : w.state.lastFiredAt = some (cfg.log.event d.id).occurredAt →
        d.id ∈ (cfg.reference w.order).fired := by
      intro hat
      unfold mayRead at hmay
      simpa [hmem, hlast, hat] using hmay
    refine hs.goTo hid ⟨hmem, fun x hx => ?_, fun hf => .inr fun x hx => .inl ?_⟩
    · split at hx
      · rename_i hat
        exact ⟨hfired (of_decide_eq_true hat), hx⟩
      · cases hx
    · rw [if_pos (decide_eq_true (hfiredAt hf))]
      exact hx
  · rename_i hlast
    cases heval : cfg.evaluate w.state d.id aoi with
    | error => exact hs.leave call
    | ok result =>
      refine hs.goTo hid ⟨heval, le_rfl, fun _ => ⟨rfl, ?_⟩⟩
      unfold mayRead at hmay
      simpa [hlast] using hmay

theorem Sound.committed {left : Nat} {seen : WatchState} {aoi : Option Json}
    {result : WatchEvalResult} (hid : d.id ≠ "")
    (hready : Ready cfg w { d with stage := .commit left seen w.revision aoi result }) :
    Sound cfg (w.committed cfg call d aoi result) := by
  obtain ⟨heval, -, hseen⟩ := hready
  obtain ⟨rfl, hnew⟩ := hseen rfl
  have hunfired : d.id ∉ (cfg.reference w.order).fired := fun h =>
    hnew (DeliveryConfig.evaluated_of_fired h)
  have hreference : cfg.reference (w.order ++ [(d.id, aoi)]) =
      { state := result.state
        fired := if result.fired then (cfg.reference w.order).fired ++ [d.id]
          else (cfg.reference w.order).fired } := by
    rw [DeliveryConfig.reference_concat]
    exact DeliveryConfig.once_eq (hs.state ▸ heval)
  have hfired : d.id ∈ (cfg.reference (w.order ++ [(d.id, aoi)])).fired ↔ result.fired := by
    rw [hreference]
    cases result.fired <;> simp [hunfired]
  have hother : ∀ id ∈ w.evaluated, (id ∈ (cfg.reference (w.order ++ [(d.id, aoi)])).fired ↔
      id ∈ (cfg.reference w.order).fired) := by
    intro id hmem
    have hne : id ≠ d.id := fun heq => hnew (heq ▸ hmem)
    rw [hreference]
    cases result.fired <;> simp [hne]
  have hname : result.state.lastEventId = d.id := by
    rw [Readings.lastEventId_evaluateWatch heval, cfg.log.named]
  unfold WatchWorld.committed
  rw [if_neg hnew]
  have hevolves : Evolves cfg w
      { w with
        state := result.state
        revision := w.revision + 1
        order := w.order ++ [(d.id, aoi)] } := {
    evaluated := fun id hmem => by
      rw [evaluated, map_append]
      exact mem_append_left _ hmem
    fired := hother
    fires := fun _ h => h
    revision := Nat.le_succ _
    unmoved := fun h => absurd h (Nat.succ_ne_self _) }
  have hmem' : d.id ∈ (w.order ++ [(d.id, aoi)]).map Prod.fst := by simp
  refine Sound.goTo { state := ?_, once := ?_, last := .inr ⟨?_, ?_⟩, fires := ?_
                      finished := ?_, delivery := ?_ } hid ⟨hmem', ?_, ?_⟩
  · rw [hreference]
  · rw [evaluated, map_append, nodup_append]
    exact ⟨hs.once, by simp, fun id hmem id' hid' heq => hnew (by simp_all [evaluated])⟩
  · dsimp only
    rw [hname]
    exact hmem'
  · dsimp only
    rw [hname, hfired]
    exact Readings.lastFiredAt_evaluateWatch heval
  · intro key hkey
    obtain ⟨hf, hx⟩ := hs.fires key hkey
    exact ⟨(hother _ (DeliveryConfig.evaluated_of_fired hf)).mpr hf, hx⟩
  · intro id hmem
    obtain ⟨hev, hall⟩ := hs.finished id hmem
    exact ⟨hevolves.evaluated id hev, fun hf => hall ((hother id hev).mp hf)⟩
  · intro c d' hd'
    obtain ⟨hid', hready'⟩ := hs.delivery c d' hd'
    exact ⟨hid', hready'.evolve hevolves⟩
  · intro x hx
    split at hx
    · rename_i hf
      exact ⟨hfired.mpr hf, hx⟩
    · cases hx
  · intro hf
    refine .inr fun x hx => .inl ?_
    rw [if_pos (hfired.mp hf)]
    exact hx

theorem Sound.deliver {id : String} (hid : id ≠ "") (call : Nat) :
    Sound cfg (w.goTo call { id := id } .look) :=
  hs.goTo hid trivial

end

theorem Sound.step {action : WatchAction} (hs : Sound cfg w)
    (hcareful : careful cfg w action) (h : step cfg w action = some w') : Sound cfg w' := by
  cases action with
  | deliver call id =>
    dsimp only [WatchWorld.step] at h
    split at h
    · rename_i hfree
      cases h
      exact hs.deliver hfree.2.1 call
    · cases h
  | look call =>
    dsimp only [WatchWorld.step] at h
    split at h
    · rename_i id deferred hd
      cases h
      refine hs.goTo (hs.delivery call _ hd).1 ?_
      split
      · rename_i hany
        -- A fire of the event was recorded, so it has fired.
        obtain ⟨key, hkey, hid⟩ := List.any_eq_true.mp hany
        have hfired : id ∈ (cfg.reference w.order).fired := by
          rw [← of_decide_eq_true hid]
          exact (hs.fires key hkey).1
        exact ⟨DeliveryConfig.evaluated_of_fired hfired, fun x hx => ⟨hfired, hx⟩,
          fun _ => .inr fun x hx => .inl hx⟩
      · trivial
    · cases h
  | read call aoi =>
    dsimp only [WatchWorld.step] at h
    split at h
    · rename_i id left deferred hd
      cases h
      refine hs.read aoi (hs.delivery call _ hd).1 ?_
      dsimp only [careful] at hcareful
      rw [hd] at hcareful
      exact hcareful
    · cases h
  | commit call =>
    dsimp only [WatchWorld.step] at h
    split at h
    · rename_i id left seen revision aoi result deferred hd
      obtain ⟨hid, hready⟩ := hs.delivery call _ hd
      split at h
      · rename_i hrevision
        cases h
        subst hrevision
        exact hs.committed hid hready
      · cases h
        exact hs.goTo hid trivial
    · cases h
  | act call outcome =>
    dsimp only [WatchWorld.step] at h
    split at h
    · rename_i id x todo deferred hd
      cases h
      obtain ⟨hid, hready⟩ := hs.delivery call _ hd
      exact hs.act hid hready outcome
    · cases h
  | finish call =>
    dsimp only [WatchWorld.step] at h
    split at h
    · rename_i id deferred hd
      cases h
      exact hs.finish (hs.delivery call _ hd).2
    · cases h
  | abandon call =>
    cases h
    exact hs.leave call

theorem sound_init : Sound cfg {} where
  state := rfl
  once := nodup_nil
  last := .inl ⟨rfl, rfl⟩
  fires := fun _ h => by cases h
  finished := fun _ h => by cases h
  delivery := fun _ _ h => by cases h

/-! ## One evaluation for each event -/

/-- A delivery has come to the end with every event that was evaluated. -/
def Settled (w : WatchWorld) : Prop := ∀ id ∈ w.evaluated, id ∈ w.finished

/-- The window, the count and the baseline. -/
def counts (state : WatchState) : List Nat × Nat × Option Rat :=
  (state.windowEventTimes, state.consecutiveHits, state.lastMetricValue)

/-- The state counts what the reference counts, and once all is settled the fires are its own. -/
def CountedOnce (cfg : DeliveryConfig) (w : WatchWorld) : Prop :=
  counts w.state = counts (cfg.reference w.order).state ∧
    (Settled w → ∀ id x, (id, x) ∈ w.fires ↔
      id ∈ (cfg.reference w.order).fired ∧ x ∈ cfg.watch.actions)

/-- Where an event is evaluated again only right after its own evaluation, and not taken for fired
    by the time of another one, each counts once. -/
theorem counted_once (cfg : DeliveryConfig)
    (hrun : Relation.ReflTransGen (Step (step cfg) (careful cfg)) {} w) : CountedOnce cfg w := by
  have hs : Sound cfg w := run_induction (fun hs hcareful hstep => Sound.step hs hcareful hstep)
    sound_init hrun
  refine ⟨congrArg counts hs.state, fun hsettled id x => ⟨fun hmem => hs.fires _ hmem, ?_⟩⟩
  rintro ⟨hfired, hx⟩
  have hev : id ∈ w.evaluated := DeliveryConfig.evaluated_of_fired hfired
  exact (hs.finished id (hsettled id hev)).2 hfired x hx

/-- `float` of a number. -/
def plainFloat : Json → Except Unit (Option Rat)
  | .int n => .ok (some n)
  | .float q => .ok (some q)
  | _ => .ok none

/-- `str` of a string. -/
def plainStr : Json → String
  | .str s => s
  | _ => ""

/-- A watch that fires at the `n`th event in a row. -/
def inRow (n : Nat) : DeliveryConfig where
  lib := { float := plainFloat, str := plainStr, contains := fun _ _ _ => false }
  watch :=
    { orgId := "o", kinds := [.jobCompleted], actions := [.notifyOnly]
      condition := { consecutiveN := some n } }
  log :=
    { event := fun id =>
        { eventId := id, orgId := "o", kind := .jobCompleted, subjectKey := "k", occurredAt := 0 }
      named := fun _ => rfl }
  casAttempts := 4

/-- A delivery up to the commit. -/
def evaluating (id : String) : List WatchAction :=
  [.deliver 0 id, .look 0, .read 0 none, .commit 0]

/-- An event comes again after another one was evaluated, and is the third in a row. -/
theorem returned_twice : ¬ ∀ w,
    Relation.ReflTransGen (Step (step (inRow 5)) fun _ _ => true) {} w →
      CountedOnce (inRow 5) w := by
  intro hall
  obtain ⟨w, hw⟩ : ∃ w, play (step (inRow 5)) (fun _ _ => true) {}
      (evaluating "a" ++ [.finish 0] ++ evaluating "b" ++ [.finish 0] ++ evaluating "a" ++
        [.finish 0]) = some w := ⟨_, rfl⟩
  have hcounts := (hall w (run_of_play hw)).1
  cases hw
  exact absurd hcounts (by decide)

/-- After a crash the event is delivered again, and fires once. -/
theorem crashed_once : ∃ w, play (step (inRow 1)) (careful (inRow 1)) {}
    (evaluating "a" ++ [.abandon 0, .deliver 0 "a", .look 0, .read 0 none, .act 0 .recorded,
      .finish 0]) = some w ∧ CountedOnce (inRow 1) w := by
  obtain ⟨w, hw⟩ : ∃ w, play (step (inRow 1)) (careful (inRow 1)) {}
      (evaluating "a" ++ [.abandon 0, .deliver 0 "a", .look 0, .read 0 none, .act 0 .recorded,
        .finish 0]) = some w := ⟨_, rfl⟩
  exact ⟨w, hw, counted_once (inRow 1) (run_of_play hw)⟩

end WatchWorld

end WebGis.Events
