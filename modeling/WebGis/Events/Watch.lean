/-
  A watch and its state: what one event does to it.

  Every predicate that is set has to be met. Numbers are finite and exact here. What `float` and
  `str` make of a value of the payload, and whether a geometry contains a point, are left open. An
  evaluation that raises something it does not catch is an error.
-/
import WebGis.Events.Drain
import WebGis.Data.Json

namespace WebGis.Events

open Data

/-- What Python and the geometry library say of values. -/
structure Readings where
  /-- `float(raw)`. `none`: it raises a `TypeError` or a `ValueError`; an error: anything else. -/
  float : Json → Except Unit (Option Rat)
  /-- `str(raw)` -/
  str : Json → String
  /-- `shape(geom).contains(Point(lon, lat))`, and no for what is no geometry. -/
  contains : Option Json → Rat → Rat → Bool

inductive MetricOp where
  | gt
  | gte
  | lt
  | lte
  | deltaPctGe
  deriving DecidableEq

inductive AoiMode where
  | enter
  | exit
  deriving DecidableEq

structure WatchCondition where
  metricName : Option String := none
  metricOp : Option MetricOp := none
  metricValue : Option Rat := none
  positionPath : Option String := none
  /-- `[minx, miny, maxx, maxy]` -/
  aoiBbox : Option (Rat × Rat × Rat × Rat) := none
  aoiRef : Option String := none
  aoiMode : AoiMode := .enter
  versionProperty : Option String := none
  windowS : Option Rat := none
  windowMinEvents : Option Nat := none
  consecutiveN : Option Nat := none

/-- Times are in microseconds. -/
structure WatchState where
  lastMetricValue : Option Rat := none
  consecutiveHits : Nat := 0
  lastVersion : Option String := none
  insideAoi : Option Bool := none
  lastFiredAt : Option Nat := none
  lastEventId : String := ""
  windowEventTimes : List Nat := []
  deriving DecidableEq

/-- A watch with its condition. -/
structure ConditionedWatch extends SpatialWatch where
  condition : WatchCondition := {}
  cooldownS : Rat := 60

/-- A row with its payload. -/
structure SpatialEvent extends EventRow where
  payload : List (String × Json) := []

structure WatchEvalResult where
  fired : Bool
  reason : String
  state : WatchState

/-- `resolve_aoi`, which may raise. -/
abbrev AoiResolver : Type := String → Except Unit (Option Json)

/-- A string of a condition that is set and not empty. -/
def given (s : Option String) : Bool := s.any fun s => s ≠ ""

/-- `x.split(".")` is walked through. -/
def resolveSegments : Json → List String → Json
  | node, [] => node
  | .obj fields, seg :: rest =>
    match Json.field seg fields with
    | none => .null
    | some v => resolveSegments v rest
  | _, _ => .null

/-- `_resolve_path`, with `null` for `None`. -/
def resolvePath (payload : List (String × Json)) (path : String) : Json :=
  resolveSegments (.obj payload) (path.splitOn ".")

def maxWindowTimes : Nat := 128

def secondsOf (micros : Nat) : Rat := (micros : Rat) / 1000000

/-- The window with the time of the event in it. -/
def windowTimes (windowS : Rat) (times : List Nat) (now : Nat) : List Nat :=
  let observed := times ++ [now]
  let watermark := observed.foldl max 0
  let kept := (observed.filter fun t => t ≤ watermark && secondsOf (watermark - t) ≤ windowS).insertionSort
    fun a b => a ≤ b
  kept.drop (kept.length - maxWindowTimes)

def compareMetric (op : Option MetricOp) (value threshold : Rat) : Bool :=
  match op with
  | some .gt => threshold < value
  | some .gte => threshold ≤ value
  | some .lt => value < threshold
  | some .lte => value ≤ threshold
  | _ => false

namespace Readings

variable (lib : Readings)

/-- A value against the baseline, or the threshold. -/
def judgeMetric (cond : WatchCondition) (baseline : Option Rat) (value : Rat) : Bool × String :=
  let threshold := cond.metricValue.getD 0
  if cond.metricOp = some .deltaPctGe then
    match baseline with
    | none => (false, "no_baseline")
    | some baseline =>
      if baseline = 0 then (value ≠ 0, "metric_delta")
      else (threshold ≤ |value - baseline| / |baseline| * 100, "metric_delta")
  else (compareMetric cond.metricOp value threshold, "metric_threshold")

/-- `_eval_metric`: met, reason, the new last value. -/
def evalMetric (cond : WatchCondition) (state : WatchState) (payload : List (String × Json)) :
    Except Unit (Bool × String × Option Rat) := do
  match ← lib.float (resolvePath payload (cond.metricName.getD "")) with
  | none => return (false, "metric_missing", state.lastMetricValue)
  | some value =>
    let (met, reason) := judgeMetric cond state.lastMetricValue value
    return (met, reason, some value)

/-- `pos[0]` and `pos[1]`. An object has no such keys, and that error is not caught. -/
def coordinates : Json → Except Unit (Option (Json × Json))
  | .arr (lon :: lat :: _) => .ok (some (lon, lat))
  | .str s =>
    match s.toList with
    | lon :: lat :: _ => .ok (some (.str (String.singleton lon), .str (String.singleton lat)))
    | _ => .ok none
  | .obj _ => .error ()
  | _ => .ok none

/-- The two numbers of the position. -/
def position (payload : List (String × Json)) (path : String) : Except Unit (Option (Rat × Rat)) := do
  match ← coordinates (resolvePath payload path) with
  | none => return none
  | some (lon, lat) =>
    match ← lib.float lon with
    | none => return none
    | some x => return (← lib.float lat).map fun y => (x, y)

/-- The geometry that decides, if there is one. -/
def insideAoi (cond : WatchCondition) (resolveAoi : Option AoiResolver) (lon lat : Rat) :
    Except String Bool :=
  match cond.aoiBbox with
  | some (minx, miny, maxx, maxy) => .ok (minx ≤ lon && lon ≤ maxx && miny ≤ lat && lat ≤ maxy)
  | none =>
    match cond.aoiRef with
    | none => .error "aoi_unconfigured"
    | some ref =>
      if ref = "" then .error "aoi_unconfigured"
      else
        match resolveAoi with
        | none => .error "aoi_ref_unresolvable"
        | some resolve =>
          match resolve ref with
          | .error _ => .error "aoi_ref_unresolvable"
          | .ok geom => .ok (lib.contains geom lon lat)

/-- The edge that the watch waits for. -/
def crosses (mode : AoiMode) (before : Option Bool) (inside : Bool) : Bool :=
  match mode with
  | .enter => inside && before ≠ some true
  | .exit => !inside && before = some true

/-- `_eval_aoi`: met, reason, the new side. -/
def evalAoi (cond : WatchCondition) (state : WatchState) (payload : List (String × Json))
    (resolveAoi : Option AoiResolver) : Except Unit (Bool × String × Option Bool) := do
  let path := if given cond.positionPath then cond.positionPath.getD "" else "position"
  match ← lib.position payload path with
  | none => return (false, "position_missing", state.insideAoi)
  | some (lon, lat) =>
    match lib.insideAoi cond resolveAoi lon lat with
    | .error reason => return (false, reason, state.insideAoi)
    | .ok inside =>
      return (crosses cond.aoiMode state.insideAoi inside, "aoi_edge", some inside)

/-- `_eval_version`: met, reason, the new version. -/
def evalVersion (cond : WatchCondition) (state : WatchState) (payload : List (String × Json)) :
    Bool × String × Option String :=
  match resolvePath payload (cond.versionProperty.getD "") with
  | .null => (false, "version_missing", state.lastVersion)
  | raw =>
    let version := lib.str raw
    match state.lastVersion with
    | none => (false, "no_prior_version", some version)
    | some last =>
      if version = last then (false, "version_unchanged", some version)
      else (true, "version_changed", some version)

/-! ## Predicates one after the other -/

/-- The reason of a predicate that is not met joins the others. -/
def blame (failures : List String) (met : Bool) (reason : String) : List String :=
  if met then failures else failures ++ [reason]

def metricStep (cond : WatchCondition) (payload : List (String × Json)) (state : WatchState)
    (failures : List String) : Except Unit (WatchState × List String) := do
  if given cond.metricName || cond.metricOp.isSome then
    let (met, reason, newLast) ← lib.evalMetric cond state payload
    return ({ state with lastMetricValue := newLast }, blame failures met reason)
  else return (state, failures)

def aoiStep (cond : WatchCondition) (payload : List (String × Json))
    (resolveAoi : Option AoiResolver) (state : WatchState) (failures : List String) :
    Except Unit (WatchState × List String) := do
  if cond.aoiBbox.isSome || given cond.aoiRef || given cond.positionPath then
    let (met, reason, inside) ← lib.evalAoi cond state payload resolveAoi
    return ({ state with insideAoi := inside <|> state.insideAoi }, blame failures met reason)
  else return (state, failures)

def versionStep (cond : WatchCondition) (payload : List (String × Json)) (state : WatchState)
    (failures : List String) : WatchState × List String :=
  if given cond.versionProperty then
    let (met, reason, newVersion) := lib.evalVersion cond state payload
    ({ state with lastVersion := newVersion }, blame failures met reason)
  else (state, failures)

/-- The window has the event in it, and is it full? -/
def windowStep (cond : WatchCondition) (now : Nat) (state : WatchState) : WatchState × Bool :=
  match cond.windowS with
  | none => (state, true)
  | some windowS =>
    let times := windowTimes windowS state.windowEventTimes now
    ({ state with windowEventTimes := times }, max 1 (cond.windowMinEvents.getD 1) ≤ times.length)

/-- The count goes on, or starts again. -/
def consecutiveStep (cond : WatchCondition) (state : WatchState) (failures : List String) :
    WatchState × List String :=
  let hits := if failures.isEmpty then state.consecutiveHits + 1 else 0
  ({ state with consecutiveHits := hits },
    if cond.consecutiveN.any fun n => hits < n then failures ++ ["consecutive_not_reached"]
    else failures)

/-- `|now - last|` -/
def gap (now last : Nat) : Nat := (now - last) + (last - now)

/-- The end of `evaluate_watch`, after the predicates. -/
def conclude (watch : ConditionedWatch) (state : WatchState) (event : SpatialEvent)
    (counted : WatchState) (failures : List String) : WatchEvalResult :=
  let evaluated := { counted with lastEventId := event.eventId }
  match failures with
  | reason :: _ => { fired := false, reason := reason, state := evaluated }
  | [] =>
    if state.lastFiredAt.any fun last => secondsOf (gap event.occurredAt last) < watch.cooldownS then
      { fired := false, reason := "cooldown", state := evaluated }
    else
      { fired := true, reason := "fired"
        state := { evaluated with lastFiredAt := some event.occurredAt } }

def evaluateWatch (watch : ConditionedWatch) (state : WatchState) (event : SpatialEvent)
    (resolveAoi : Option AoiResolver) : Except Unit WatchEvalResult := do
  let cond := watch.condition
  let (windowed, windowMet) := windowStep cond event.occurredAt state
  let (measured, noMetric) ← lib.metricStep cond event.payload windowed []
  let (located, noAoi) ← lib.aoiStep cond event.payload resolveAoi measured noMetric
  let (versioned, noVersion) := lib.versionStep cond event.payload located noAoi
  let (counted, failures) :=
    consecutiveStep cond versioned (blame noVersion windowMet "window_not_full")
  return conclude watch state event counted failures

/-! ## What every evaluation leaves -/

variable {lib} {watch : ConditionedWatch} {state : WatchState} {event : SpatialEvent}
  {resolveAoi : Option AoiResolver} {result : WatchEvalResult}

section

variable (h : lib.evaluateWatch watch state event resolveAoi = .ok result)
include h

theorem conclude_of_evaluateWatch :
    ∃ counted failures, result = conclude watch state event counted failures := by
  unfold evaluateWatch at h
  dsimp only [bind, Except.bind, pure, Except.pure] at h
  split at h
  · cases h
  split at h
  · cases h
  cases h
  exact ⟨_, _, rfl⟩

theorem lastEventId_evaluateWatch :
    result.state.lastEventId = event.eventId := by
  obtain ⟨counted, failures, rfl⟩ := conclude_of_evaluateWatch h
  unfold conclude
  split
  · rfl
  · split <;> rfl

theorem lastFiredAt_evaluateWatch (hfired : result.fired) : result.state.lastFiredAt = some event.occurredAt := by
  obtain ⟨counted, failures, rfl⟩ := conclude_of_evaluateWatch h
  unfold conclude at hfired ⊢
  split at hfired
  · cases hfired
  split at hfired
  · cases hfired
  rename_i hcool
  rw [if_neg hcool]

end

end Readings

end WebGis.Events
