/-
  Layout components: their validated form, the entry they are written back as, and the
  operations on a list of them.

  An operation that finds nothing to do returns nothing. Reading raw entries into components
  and writing them back rewrites every entry, also those that the operation leaves alone.

  The mutation intents and the ids that each is locked by.

  `InitProject` and `Rollback` replace the whole document, and two further intents write the
  workbench that the locks are part of. These four are not here.
-/
import WebGis.Mapspec.Spec

namespace WebGis.Mapspec

open Data Json

/-- `ComponentPlacement` -/
structure Placement where
  mode : String := "anchor"
  anchor : Option String := none
  x : Option Int := none
  y : Option Int := none
  width : Option Int := none
  height : Option Int := none
  zIndex : Option Int := none
  collapsed : Bool := false
  deriving DecidableEq

/-- `None` or the integer. -/
def optInt : Option Int → Json
  | some n => .int n
  | none => .null

/-- The field when there is a value. -/
def fieldIf (key : String) (v : Option Json) : Fields :=
  match v with
  | some v => [(key, v)]
  | none => []

def Placement.toDict (p : Placement) : Json :=
  .obj <| [("mode", .str p.mode)] ++
    (if p.mode = "anchor" then [("anchor", (p.anchor.map Json.str).getD .null)]
     else [("x", optInt p.x), ("y", optInt p.y)] ++ fieldIf "width" (p.width.map Json.int) ++
       fieldIf "height" (p.height.map Json.int)) ++
    fieldIf "zIndex" (p.zIndex.map Json.int) ++
    fieldIf "collapsed" (if p.collapsed then some (.bool true) else none)

/-- `CartographyComponent` -/
structure Component where
  id : String
  type : String
  enabled : Bool := true
  position : String := "none"
  placement : Option Placement := none
  priority : Int := 0
  style : Fields := []
  options : Fields := []
  compatibility : Fields := []
  category : String := ""
  variant : String := ""
  templateId : String := ""
  schemaVersion : Int := 1

/-- The object when it has a field. -/
def objIf (fs : Fields) : Option Json := if fs.isEmpty then none else some (.obj fs)

/-- The string when it has a character. -/
def strIf (s : String) : Option Json := if s = "" then none else some (.str s)

/-- The fields of `CartographyComponent.to_mapspec`. -/
def Component.entry (c : Component) : Fields :=
  [("id", .str c.id), ("type", .str c.type), ("enabled", .bool c.enabled),
    ("position", .str c.position), ("priority", .int c.priority)] ++
  fieldIf "placement" (c.placement.map Placement.toDict) ++
  fieldIf "style" (objIf c.style) ++
  fieldIf "options" (objIf c.options) ++
  fieldIf "compatibility" (objIf c.compatibility) ++
  fieldIf "category" (strIf c.category) ++
  fieldIf "variant" (strIf c.variant) ++
  fieldIf "templateId" (strIf c.templateId) ++
  fieldIf "schemaVersion" (if c.schemaVersion = 1 then none else some (.int c.schemaVersion))

def Component.toMapspec (c : Component) : Json := .obj c.entry

/-- By priority, then by id. -/
def Component.before (a b : Component) : Prop :=
  a.priority < b.priority ∨ a.priority = b.priority ∧ a.id ≤ b.id

instance : DecidableRel Component.before := fun _ _ => inferInstanceAs (Decidable (_ ∨ _))

/-- `sorted([c.to_mapspec() for c in cs], key=...)` -/
def toEntries (cs : List Component) : List Json :=
  (cs.insertionSort Component.before).map Component.toMapspec

/-! ## Operations -/

/-- The fields of `PatchComponentIntent`. -/
structure ComponentPatch where
  componentId : String
  componentType : Option String := none
  enabled : Option Bool := none
  position : Option String := none
  placement : Option Json := none
  variant : Option String := none
  style : Option Fields := none
  options : Option Fields := none
  upsert : Bool := false

/-- What the operations use of the component schema and of its factories. -/
structure ComponentSchema where
  /-- `CartographyComponent.model_validate` -/
  validate : Json → Option Component
  /-- `ComponentPlacement.model_validate` -/
  validatePlacement : Json → Option Placement
  /-- `_FACTORY_BY_TYPE` -/
  factory : String → Option (String → Component)
  coerceVariant : String → String → String
  /-- `_estimate_component_bytes` -/
  bytes : Json → Nat

def findComponent (cs : List Component) (id : String) : Option Nat :=
  cs.findIdx? fun c => c.id = id

/-- Both options of a pair that excludes one another: the one that comes in drops the other. -/
def exclude (incoming : Fields) (key other : String) (opts : Fields) : Fields :=
  if hasField incoming key then dropField opts other else opts

/-- `merged_opts[k] = {**merged_opts[k], **v}`, or `v` when one of the two is no object. -/
def mergeOption (opts : Fields) (kv : String × Json) : Fields :=
  match field kv.1 opts, kv.2 with
  | some (.obj old), .obj new => setField opts kv.1 (.obj (mergeFields old new))
  | _, v => setField opts kv.1 v

/-- The options after a patch of them. -/
def mergeOptions (old incoming : Fields) : Fields :=
  incoming.foldl mergeOption <|
    exclude incoming "points" "profileRef" <| exclude incoming "profileRef" "points" <|
      exclude incoming "chartRef" "chart" <| exclude incoming "chart" "chartRef" old

/-- The changed component of `mutate_component`. -/
def Component.patched (S : ComponentSchema) (c : Component) (p : ComponentPatch) :
    Option Component := do
  let c := match p.enabled with
    | some e => { c with enabled := e }
    | none => c
  let c := match p.position with
    | some slot =>
      { c with position := slot, placement := some { mode := "anchor", anchor := some slot } }
    | none => c
  let c ← match p.placement with
    | some raw => do
        let parsed ← S.validatePlacement raw
        let position := if parsed.mode = "anchor" then parsed.anchor.getD "" else c.position
        some { c with position := position, placement := some parsed }
    | none => some c
  let c := match p.variant with
    | some v =>
      let coerced := S.coerceVariant c.type v
      { c with variant := coerced, options := setField c.options "variant" (.str coerced) }
    | none => c
  let c := match p.style with
    | some style => { c with style := mergeFields c.style style }
    | none => c
  some <| match p.options with
    | some options => { c with options := mergeOptions c.options options }
    | none => c

/-- The component that `mutate_component` creates. -/
def createdComponent (S : ComponentSchema) (p : ComponentPatch) : Option Component :=
  p.componentType.bind fun type =>
    if p.upsert && type ≠ "" then
      (S.factory type).map fun make =>
        make (if p.componentId = "" then type.replace "_" "-" else p.componentId)
    else none

/-- The list that `mutate_component` works on and the place of its target in it: the component
    with the id, or a new one at the end. -/
def patchTarget (S : ComponentSchema) (cs : List Component) (p : ComponentPatch) :
    Option (List Component × Nat) :=
  match if p.componentId = "" then none else findComponent cs p.componentId with
  | some i => some (cs, i)
  | none => (createdComponent S p).map fun new => (cs ++ [new], cs.length)

/-- `mutate_component`: nothing when no component is meant, `some none` when the placement is
    not valid. -/
def mutateComponent (S : ComponentSchema) (cs : List Component) (p : ComponentPatch) :
    Option (Option (List Component)) := do
  let (cs, i) ← patchTarget S cs p
  let c ← cs[i]?
  some ((c.patched S p).map fun c' => cs.set i c')

def removeComponent (cs : List Component) (id : String) : Option (List Component) :=
  (findComponent cs id).map fun i => cs.eraseIdx i

def multiInstanceTypes : List String :=
  ["legend", "categorical_legend", "continuous_colorbar", "chart_panel", "table_panel",
    "annotation", "inset_map", "elevation_profile"]

/-- The ids tried for a copy: the base, then the base with a number from 2 to 98. -/
def copyIds (base : String) : List String :=
  base :: (List.range' 2 97).map fun n => base ++ toString n

/-- `min(8192, max(-4096, (v or 0) + 16))` -/
def shifted (v : Option Int) : Option Int := some (min 8192 (max (-4096) (v.getD 0 + 16)))

/-- The copy that `duplicate_component` appends. -/
def Component.copyAs (c : Component) (id : String) : Component :=
  match c.placement with
  | some p =>
    if p.mode = "floating" then
      { c with id := id, placement := some { p with x := shifted p.x, y := shifted p.y } }
    else floated
  | none => floated
where
  floated : Component :=
    { c with
      id := id, position := "none"
      placement := some
        { mode := "floating", x := some 32, y := some 96, width := some 360, height := some 280
          zIndex := some 42 } }

def duplicateComponent (cs : List Component) (id newId : String) : Option (List Component) := do
  let i ← findComponent cs id
  let source ← cs[i]?
  let base := if strip newId = "" then source.id ++ "-copy" else strip newId
  if source.type ∈ multiInstanceTypes then
    ((copyIds base).find? fun id => id ∉ cs.map Component.id).map fun copyId =>
      cs ++ [source.copyAs copyId]
  else none

def rebindFields : String → List String
  | "chart_panel" => ["chartRef", "layerId"]
  | "table_panel" => ["tableRef", "layerId"]
  | "legend" | "categorical_legend" | "continuous_colorbar" | "statistics_panel" => ["layerId"]
  | "label_layer" => ["field", "layerId"]
  | _ => []

/-- The options that a binding to a channel takes away. -/
def unbound (bindings : List (String × String)) : List String :=
  let keys := bindings.map Prod.fst
  if "chartRef" ∈ keys then ["layerId", "chart"]
  else if "tableRef" ∈ keys then ["layerId"]
  else if "layerId" ∈ keys then ["chartRef", "tableRef", "chart"]
  else []

/-- The bindings are fields of the type, name one channel, and none is blank. -/
def bindingsValid (type : String) (bindings : List (String × String)) : Bool :=
  let keys := bindings.map Prod.fst
  !bindings.isEmpty && keys.all (· ∈ rebindFields type) &&
    (keys.filter (· ∈ ["chartRef", "tableRef", "layerId"])).length ≤ 1 &&
    bindings.all fun b => strip b.2 ≠ ""

def rebindComponent (cs : List Component) (id : String) (bindings : List (String × String)) :
    Option (List Component) := do
  let i ← findComponent cs id
  let target ← cs[i]?
  if bindingsValid target.type bindings then
    let bound := mergeFields target.options (bindings.map fun b => (b.1, .str b.2))
    some (cs.set i { target with options := (unbound bindings).foldl dropField bound })
  else none

inductive Origin where
  | user | agent | system
  deriving DecidableEq, Repr

/-- `str(origin)` -/
def Origin.text : Origin → String
  | .user => "user"
  | .agent => "agent"
  | .system => "system"

structure VisualCritiqueItem where
  category : String
  severity : String := "warning"
  layerIds : List String := []
  occluderLayerId : Option String := none
  minContrastRatio : Option Rat := none

/-- The snapshot of a map product. -/
structure Snapshot where
  view : Option Json := none
  basemap : Option Json := none
  time : Option Json := none
  layout : Option Layout := none
  layers : List Json := []

/-- `SetLayoutIntent` -/
structure LayoutPatch where
  legend : Option Fields := none
  controls : Option Json := none
  margins : Option Fields := none
  components : Option (List Json) := none
  componentLinks : Option (List Json) := none
  composition : Option Json := none

/-- `SetTimeIntent` -/
structure TimePatch where
  enabled : Option Json := none
  field : Option Json := none
  type : Option Json := none
  extent : Option Json := none
  current : Option Json := none
  window : Option Json := none
  playback : Option Fields := none
  step : Option Json := none
  speed : Option Json := none

/-- The registered intents that respect the workbench. -/
inductive Intent where
  | setView (center zoom pitch bearing : Option Json)
  | upsertSource (sourceId : String) (source : Fields)
  | upsertLayer (layer : Fields) (sourceData : Option Json)
  | patchLayerPresentation (layerId : String) (visible : Option Bool) (opacity : Option Json)
  | patchLayerStyle (layerId : String) (paint : Fields)
  | patchComponent (patch : ComponentPatch)
  | removeComponent (componentId : String)
  | duplicateComponent (componentId : String) (newId : Option String)
  | rebindComponent (componentId : String) (bindings : List (String × String))
  | removeLayer (layerId : String)
  | reorderLayers (layerIds : List String)
  | setLayout (patch : LayoutPatch)
  | checkpoint
  | restoreStyle (snapshot : Snapshot)
  | setBasemap (providerId rasterFilters overlays vectorStyleUrl : Option Json)
  | setTime (patch : TimePatch)
  | setTemporalView (config : Option Json) (patch : Option Fields) (remove : Bool)
  | refreshDataRevision (refId : String) (contentRevision : Int)
  | setScenarioMode (scenarioMode : Option String)
  | setScene (scene : Option Json)
  | setSceneAssets (assets : Option Json)
  | applyVisualHealPatch (defects : List VisualCritiqueItem) (attempt : Nat)

/-! ## Lock targets -/

/-- The ids that are strings. -/
def stringIds (entries : List Json) : List String :=
  entries.filterMap fun v =>
    match v.get? "id" with
    | some (.str s) => some s
    | _ => none

def ltUpsertLayer (layer : Fields) : List String :=
  match field "id" layer with
  | some (.str s) => if s = "" then [] else [s]
  | _ => []

def ltVisualHeal (defects : List VisualCritiqueItem) : List String :=
  defects.flatMap fun d =>
    (d.layerIds ++ d.occluderLayerId.toList).filter (· ≠ "")

/-- `intent_lock_targets`: the layers and the components that an intent is aimed at. -/
def Intent.lockTargets : Intent → List String × List String
  | .patchLayerPresentation id _ _ | .patchLayerStyle id _ | .removeLayer id => ([id], [])
  | .upsertLayer layer _ => (ltUpsertLayer layer, [])
  | .applyVisualHealPatch defects _ => (ltVisualHeal defects, [])
  | .patchComponent p => ([], [p.componentId])
  | .removeComponent id | .duplicateComponent id _ | .rebindComponent id _ => ([], [id])
  | .setLayout p => ([], stringIds (p.components.getD []))
  | .reorderLayers ids => (ids, [])
  | .restoreStyle s => (stringIds s.layers, stringIds ((s.layout.map Layout.components).getD []))
  | .setView .. | .upsertSource .. | .checkpoint | .setBasemap .. | .setTime _
  | .setTemporalView .. | .refreshDataRevision .. | .setScenarioMode _ | .setScene _
  | .setSceneAssets _ => ([], [])

/-- `guard_intent_locks`: the locks that an intent of the agent or the system runs into. -/
def guardIntentLocks (m : MapSpec) (intent : Intent) (origin : Origin) : Option LockGuardResult :=
  if origin = .user then none
  else
    let partition := guardLockedPartitions m intent.lockTargets.1 intent.lockTargets.2
    if partition.hasLocked then some partition else none

theorem guardIntentLocks_eq_none {m : MapSpec} {intent : Intent} {origin : Origin}
    (ho : origin ≠ .user) (h : guardIntentLocks m intent origin = none) :
    (∀ t ∈ intent.lockTargets.1, t ≠ "" → ∀ l ∈ m.lockedLayerIdsOf, lockMatches l t = false) ∧
      ∀ t ∈ intent.lockTargets.2, t ≠ "" →
        ∀ l ∈ m.lockedComponentIdsOf, lockMatches l t = false := by
  rw [guardIntentLocks, if_neg ho] at h
  apply hasLocked_eq_false.mp
  by_contra hl
  rw [Bool.not_eq_false] at hl
  simp only [hl, if_true] at h
  cases h

end WebGis.Mapspec
