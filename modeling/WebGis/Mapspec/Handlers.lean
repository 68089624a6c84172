/-
  The application of a healing plan to the layers.

  The first layer of an id is copied when an operation needs it, and later operations on that
  id go to the same copy, wherever it has moved. Layers carry a number here, so that a copy is
  found again after a move.

  The handlers of the mutation intents: from the loaded document to the candidate.

  A handler that stops commits nothing: it refuses, it answers with a receipt, or it raises.
  Converters, validators, the quality gate and the planner of healing are taken as they come.
-/
import WebGis.Mapspec.Intents
import WebGis.Mapspec.Layers

open List Option

namespace WebGis.Mapspec

open Data Json Prod

inductive HealOp where
  | labelCollision (layerIds : List String) (layoutPatch : Fields)
  | contrast (layerIds : List String) (colors : List String)
  | layerOrder (target occluder : String)
  | opacity (paintOpacity : List (String × Json))

/-- The ids whose layers an operation edits. -/
def HealOp.edited : HealOp → List String
  | .labelCollision ids _ | .contrast ids _ => ids
  | .layerOrder _ _ => []
  | .opacity entries => entries.map fst

/-- The numbered layers, and the number of the copy for each id. -/
structure Healing where
  layers : List (Nat × Json)
  copied : List (String × Nat) := []

namespace Healing

variable (str : Json → String) (h : Healing)

def start (layers : List Json) : Healing :=
  { layers := layers.zipIdx.map fun p => (p.2, p.1) }

/-- Whether the entry is a layer of the id. -/
def named (id : String) (entry : Nat × Json) : Bool :=
  entry.2.isObj && idText str entry.2 = id

def layerCopy (id : String) : Option (Nat × Healing) :=
  match h.copied.find? (·.1 = id) with
  | some c => some (c.2, h)
  | none =>
    (h.layers.find? (named str id)).map fun entry =>
      (entry.1, { h with copied := (id, entry.1) :: h.copied })

/-- The numbered layer rewritten. -/
def editAt (n : Nat) (f : Fields → Option Fields) : Option Healing :=
  match h.layers.find? (·.1 = n) with
  | some (_, .obj fs) => (f fs).map fun fs' =>
    { h with layers := h.layers.map fun e => if e.1 = n then (n, .obj fs') else e }
  | _ => some h

/-- The copy for an id rewritten, if there is a layer of it. -/
def editCopy (id : String) (f : Fields → Option Fields) : Option Healing :=
  match h.layerCopy str id with
  | some (n, h') => h'.editAt n f
  | none => some h

/-- The layer of an id moved directly above another one. -/
def moveAbove (target occluder : String) : Option Healing :=
  match h.layers.find? (named str target) with
  | none => some h
  | some entry =>
    if h.layers.any (named str occluder) then
      let rest := h.layers.eraseP (named str target)
      match rest.findIdx? (named str occluder) with
      | some i => some { h with layers := rest.insertIdx (i + 1) entry }
      | none => (rest.findIdx? (named str target)).map fun i =>
        { h with layers := rest.insertIdx i entry }
    else some h

end Healing

/-- The layer with a part of its layout set. -/
def patchLayout (patch layer : Fields) : Option Fields := do
  let layout ← dict? (field "layout" layer)
  some (setField layer "layout" (.obj (mergeFields layout patch)))

/-- The layer with its opacity set. -/
def compensateOpacity (value : Json) (layer : Fields) : Option Fields :=
  match opacityPaintKey layer with
  | some key => do
      let paint ← dict? (field "paint" layer)
      some (setField layer "paint" (.obj (setField paint key value)))
  | none => some layer

/-- One operation of `apply_heal_plan`; `recolour` is `apply_palette_to_layer`. -/
def HealOp.apply (str : Json → String) (recolour : List String → Fields → Option Fields)
    (h : Healing) : HealOp → Option Healing
  | .labelCollision ids patch => ids.foldlM (fun h id => h.editCopy str id (patchLayout patch)) h
  | .contrast ids colors => ids.foldlM (fun h id => h.editCopy str id (recolour colors)) h
  | .layerOrder target occluder => h.moveAbove str target occluder
  | .opacity entries =>
    entries.foldlM (fun h e => h.editCopy str e.1 (compensateOpacity e.2)) h

def applyHealPlan (str : Json → String) (recolour : List String → Fields → Option Fields)
    (layers : List Json) (ops : List HealOp) : Option (List Json) :=
  (ops.foldlM (HealOp.apply str recolour) (Healing.start layers)).map fun h =>
    h.layers.map snd

/-! ## Layers that no operation edits -/

/-- The numbered layer is there, and no copy has its number. -/
structure Healing.Holds (h : Healing) (n : Nat) (layer : Json) : Prop where
  unique : (h.layers.map fst).Nodup
  mem : (n, layer) ∈ h.layers
  fresh : ∀ c ∈ h.copied, c.2 ≠ n

namespace Healing

variable {str : Json → String} {h h' : Healing} {n : Nat} {layer : Json}

section

variable (hh : h.Holds n layer)
include hh

theorem Holds.of_perm (hp : h'.layers.Perm h.layers)
    (hc : h'.copied = h.copied) : h'.Holds n layer :=
  ⟨(hp.map fst).nodup_iff.mpr hh.unique, hp.mem_iff.mpr hh.mem, hc ▸ hh.fresh⟩

theorem Holds.layerCopy {id : String} (hid : idText str layer ≠ id)
    {k : Nat} (hk : h.layerCopy str id = some (k, h')) : h'.Holds n layer ∧ k ≠ n := by
  unfold Healing.layerCopy at hk
  split at hk
  · rename_i c hc
    obtain ⟨rfl, rfl⟩ := Prod.mk.inj (some.inj hk)
    exact ⟨hh, hh.fresh c (mem_of_find?_eq_some hc)⟩
  · obtain ⟨entry, he, heq⟩ := map_eq_some_iff.mp hk
    obtain ⟨rfl, rfl⟩ := Prod.mk.inj heq
    have hne : entry.1 ≠ n := by
      intro hn
      have hentry : entry = (n, layer) :=
        inj_on_of_nodup_map hh.unique (mem_of_find?_eq_some he) hh.mem hn
      have hnamed := find?_some he
      rw [hentry, named, Bool.and_eq_true, decide_eq_true_eq] at hnamed
      exact hid hnamed.2
    refine ⟨⟨hh.unique, hh.mem, fun c hc => ?_⟩, hne⟩
    rcases mem_cons.mp hc with rfl | hc
    · exact hne
    · exact hh.fresh c hc

theorem Holds.editAt {k : Nat} (hk : k ≠ n)
    {f : Fields → Option Fields} (he : h.editAt k f = some h') : h'.Holds n layer := by
  unfold Healing.editAt at he
  split at he
  · obtain ⟨fs', _, rfl⟩ := map_eq_some_iff.mp he
    have hkeys : (fun e : Nat × Json => (if e.1 = k then (k, Json.obj fs') else e).1) = fst := by
      funext e
      by_cases hek : e.1 = k
      · rw [if_pos hek, hek]
      · rw [if_neg hek]
    refine ⟨?_, List.mem_map.mpr ⟨(n, layer), hh.mem, if_neg (Ne.symm hk)⟩, hh.fresh⟩
    rw [List.map_map]
    show (h.layers.map fun e => (if e.1 = k then (k, Json.obj fs') else e).1).Nodup
    rw [hkeys]
    exact hh.unique
  · cases he
    exact hh

theorem Holds.editCopy {id : String} (hid : idText str layer ≠ id)
    {f : Fields → Option Fields} (he : h.editCopy str id f = some h') : h'.Holds n layer := by
  unfold Healing.editCopy at he
  split at he
  · rename_i k h₁ hk
    obtain ⟨hh₁, hne⟩ := hh.layerCopy hid hk
    exact hh₁.editAt hne he
  · cases he
    exact hh

end

theorem perm_eraseP {p : Nat × Json → Bool} {entries : List (Nat × Json)} {entry : Nat × Json}
    (hfind : entries.find? p = some entry) : (entry :: entries.eraseP p).Perm entries := by
  obtain ⟨hp, before, after, rfl, hbefore⟩ := find?_eq_some_iff_append.mp hfind
  rw [eraseP_append_right _ fun e he => by simpa using hbefore e he,
    eraseP_cons_of_pos hp]
  exact perm_middle.symm

/-- A move only changes the order. -/
theorem moveAbove_perm {target occluder : String} (hm : h.moveAbove str target occluder = some h') :
    h'.layers.Perm h.layers ∧ h'.copied = h.copied := by
  unfold Healing.moveAbove at hm
  split at hm
  · cases hm
    exact ⟨List.Perm.refl _, rfl⟩
  · rename_i entry hfind
    have hback := perm_eraseP hfind
    split at hm
    · dsimp only at hm
      split at hm
      · rename_i i hi
        cases hm
        have hlt := (findIdx?_eq_some_iff_getElem.mp hi).1
        exact ⟨(perm_insertIdx entry _ (by omega)).trans hback, rfl⟩
      · obtain ⟨i, hi, rfl⟩ := map_eq_some_iff.mp hm
        have hlt := (findIdx?_eq_some_iff_getElem.mp hi).1
        exact ⟨(perm_insertIdx entry _ (by omega)).trans hback, rfl⟩
    · cases hm
      exact ⟨List.Perm.refl _, rfl⟩

end Healing

variable {str : Json → String} {recolour : List String → Fields → Option Fields}

theorem Healing.Holds.editEach {ι : Type} (idOf : ι → String) (f : ι → Fields → Option Fields)
    {n : Nat} {layer : Json} {items : List ι} {h h' : Healing} (hh : h.Holds n layer)
    (hid : ∀ i ∈ items, idText str layer ≠ idOf i)
    (he : items.foldlM (fun h i => h.editCopy str (idOf i) (f i)) h = some h') :
    h'.Holds n layer :=
  foldlM_keeps (P := fun h => h.Holds n layer)
    (fun i hi _ _ hs hedit => hs.editCopy (hid i hi) hedit) hh he

theorem HealOp.apply_holds {op : HealOp} {n : Nat} {layer : Json} {h h' : Healing}
    (hh : h.Holds n layer) (hid : idText str layer ∉ op.edited)
    (he : op.apply str recolour h = some h') : h'.Holds n layer := by
  cases op with
  | labelCollision ids patch =>
    exact hh.editEach id _ (fun i hi hne => hid (hne ▸ hi)) he
  | contrast ids colors =>
    exact hh.editEach id _ (fun i hi hne => hid (hne ▸ hi)) he
  | layerOrder target occluder =>
    obtain ⟨hp, hc⟩ := Healing.moveAbove_perm he
    exact hh.of_perm hp hc
  | opacity entries =>
    exact hh.editEach fst _ (fun e hmem hne => hid (hne ▸ List.mem_map_of_mem hmem)) he

theorem Healing.start_holds {layers : List Json} {layer : Json} (hmem : layer ∈ layers) :
    ∃ n, (Healing.start layers).Holds n layer := by
  obtain ⟨n, hn⟩ := mem_iff_getElem?.mp hmem
  refine ⟨n, ?_, ?_, fun c hc => absurd hc not_mem_nil⟩
  · show ((layers.zipIdx.map fun p => (p.2, p.1)).map fst).Nodup
    rw [List.map_map]
    show (layers.zipIdx.map snd).Nodup
    rw [zipIdx_map_snd]
    exact nodup_range'
  · exact List.mem_map.mpr ⟨(layer, n), mk_mem_zipIdx_iff_getElem?.mpr hn, rfl⟩

theorem mem_applyHealPlan {layers layers' : List Json} {ops : List HealOp} {layer : Json}
    (hmem : layer ∈ layers) (hid : ∀ op ∈ ops, idText str layer ∉ op.edited)
    (he : applyHealPlan str recolour layers ops = some layers') : layer ∈ layers' := by
  obtain ⟨h', hf, rfl⟩ := map_eq_some_iff.mp he
  obtain ⟨n, hn⟩ := Healing.start_holds hmem
  have hend : h'.Holds n layer :=
    foldlM_keeps (P := fun h => h.Holds n layer)
      (fun op hop _ _ hs hstep => HealOp.apply_holds hs (hid op hop) hstep) hn hf
  exact List.mem_map_of_mem (f := snd) hend.mem

/-- Why a mutation commits nothing. -/
inductive Stop where
  | locked (partition : LockGuardResult)
  | refused
  | receipt
  | raised

def orRaise {α : Type} : Option α → Except Stop α
  | some a => .ok a
  | none => .error .raised

def orRefuse {α : Type} : Option α → Except Stop α
  | some a => .ok a
  | none => .error .refused

/-- Refuses when the condition holds. -/
def refuseIf (b : Bool) : Except Stop Unit := if b then .error .refused else .ok ()

/-- The answer of `process_layer_ingestion`. -/
structure Ingested where
  layer : Fields
  sourceEntry : Fields
  /-- The centre and the zoom. -/
  suggestedView : Option (Json × Json) := none

/-- What the handlers call. -/
structure Tools where
  /-- `str` of a value that is no string -/
  str : Json → String
  schema : ComponentSchema
  /-- `process_layer_ingestion` -/
  ingest : MapSpec → Fields → Option Json → Except Stop Ingested
  /-- `_run_quality_gate_hook`: the source entry and the layer with its advisories. -/
  qualityGate : Fields → Fields → Except Stop (Fields × Fields)
  /-- `MapSpecTemporalConfig.model_validate`, dumped again -/
  temporal : Json → Option Json
  /-- `MapSceneConfig.model_validate` and the bounds of terrain and camera -/
  sceneValid : Json → Bool
  /-- `evaluate_scene_quality` has no blocking finding about assets. -/
  assetsValid : MapSpec → Bool
  /-- `VisualHealStrategyPlanner.plan` -/
  planHeal : MapSpec → List VisualCritiqueItem → Nat → List HealOp
  /-- `apply_palette_to_layer` -/
  recolour : List String → Fields → Option Fields

/-- The write to the layers of the running session that goes with a commit. -/
inductive LayerOp where
  | upsert (id : Json) (layer : Json)
  | remove (id : String)

/-- `MutationPlan` -/
structure Plan where
  mapspec : MapSpec
  autoCheckpoint : Bool := false
  pendingLayerOp : Option LayerOp := none

/-- `fs[key] = v` unless `v` is `None`. -/
def putSome (key : String) (v : Option Json) (fs : Fields) : Fields :=
  match v with
  | some v => setField fs key v
  | none => fs

section

variable (T : Tools) (m : MapSpec)

/-! ## View, basemap, time -/

def handleSetView (center zoom pitch bearing : Option Json) : Plan :=
  let view := putSome "bearing" bearing <| putSome "pitch" pitch <| putSome "zoom" zoom <|
    putSome "center" center (m.branch "view")
  { mapspec := m.setBranch "view" (.obj (setField view "framed" (.bool true))) }

def handleSetBasemap (providerId rasterFilters overlays vectorStyleUrl : Option Json) : Plan :=
  let basemap := putSome "vectorStyleUrl" vectorStyleUrl <| putSome "overlays" overlays <|
    putSome "rasterFilters" rasterFilters <| putSome "providerId" providerId (m.branch "basemap")
  { mapspec := m.setBranch "basemap" (.obj basemap) }

/-- The time branch of a document without one. -/
def defaultTime : Fields :=
  [("enabled", .bool true), ("field", .str "timestamp"), ("type", .str "continuous"),
    ("extent", .arr []), ("current", .null), ("step", .float 1), ("speed", .float 1)]

def handleSetTime (p : TimePatch) : Plan :=
  let time := match m.branches.find "time" with
    | some t => fieldsOf (some t)
    | none => defaultTime
  let time := putSome "window" p.window <| putSome "current" p.current <|
    putSome "extent" p.extent <| putSome "type" p.type <| putSome "field" p.field <|
    putSome "enabled" p.enabled time
  let time := match p.playback with
    | some pb => setField time "playback" (.obj (mergeFields (fieldsOf (field "playback" time)) pb))
    | none => time
  { mapspec := m.setBranch "time" (.obj (putSome "speed" p.speed (putSome "step" p.step time))) }

/-- The temporal branch under a patch: `playback` is merged, other keys are replaced. -/
def patchTemporal (existing patch : Fields) (origin : Origin) : Fields :=
  let moves := hasField patch "cursor_frame" || hasField patch "playback"
  let merged := if origin = .user && !hasField patch "user_pinned" && moves then
      setField existing "user_pinned" (.bool true) else existing
  let merged := match present patch "playback" with
    | some (.obj pb) =>
      match field "playback" merged with
      | some (.obj old) => setField merged "playback" (.obj (mergeFields old pb))
      | _ => setField merged "playback" (.obj pb)
    | some v => setField merged "playback" v
    | none => merged
  mergeFields merged (dropField patch "playback")

def handleSetTemporalView (config : Option Json) (patch : Option Fields) (remove : Bool)
    (origin : Origin) : Except Stop Plan :=
  if remove then
    if (m.branches.find "temporal").isSome then .ok { mapspec := m.popBranch "temporal" }
    else .error .receipt
  else
    match config, patch with
    | some config, _ => do
        let cfg ← orRefuse (T.temporal config)
        return { mapspec := m.setBranch "temporal" cfg }
    | none, some patch => do
        refuseIf (m.branch "temporal").isEmpty
        let cfg ← orRefuse (T.temporal (.obj (patchTemporal (m.branch "temporal") patch origin)))
        return { mapspec := m.setBranch "temporal" cfg }
    | none, none => .error .refused

def handleSetScenarioMode (mode : Option String) : Except Stop Plan :=
  match mode with
  | none => .ok { mapspec := m.popBranch "scenario_mode" }
  | some mode =>
    if mode ∈ ["split_view", "swipe_compare"] then
      .ok { mapspec := m.setBranch "scenario_mode" (.str mode) }
    else .error .refused

/-! ## Scene -/

def handleSetScene (scene : Option Json) : Except Stop Plan :=
  match scene with
  | none => .ok { mapspec := m.popBranch "scene" }
  | some scene => do
      refuseIf (!(scene.isObj && T.sceneValid scene))
      let listed := match scene.get? "assets" with
        | some (.arr _) => true
        | _ => false
      refuseIf (listed && !T.assetsValid (m.setBranch "scene" scene))
      return { mapspec := m.setBranch "scene" scene }

def handleSetSceneAssets (assets : Option Json) : Except Stop Plan :=
  match assets with
  | some (.arr assets) => do
      refuseIf (!assets.all isObj)
      let scene := match m.branches.find "scene" with
        | some (.obj fs) => some fs
        | _ => if assets.isEmpty then none else some [("mode", .str "3d")]
      match scene with
      | none => return { mapspec := m }
      | some scene =>
        let merged := m.setBranch "scene" (.obj (setField scene "assets" (.arr assets)))
        refuseIf (!T.sceneValid (.obj (setField scene "assets" (.arr assets))))
        refuseIf (!T.assetsValid merged)
        return { mapspec := merged }
  | _ => .error .refused

/-! ## Sources -/

/-- The reference that a source entry carries. -/
def sourceRef (entry : Fields) : Option Json :=
  (field "ref_id" entry).filter truthy <|> (field "ref" entry).filter truthy <|>
    match field "url" entry with
    | some (.str s) => if startsWith "ref:" s then some (.str s) else none
    | _ => none

/-- The source with what the quality gate says about its inline data. -/
def gatedSource (sourceId : String) (source : Fields) : Except Stop Fields :=
  match field "inlineData" source with
  | some (.obj _) => do
      let probe := [("id", .str sourceId), ("crs", (field "crs" source).getD .null)]
      let gated ← T.qualityGate source probe
      let source := match field "profile" gated.1 with
        | some (.obj profile) => setField source "profile" (.obj profile)
        | _ => source
      return putSome "quality_advisories"
        ((field "quality_advisories" gated.1).filter truthy) source
  | _ => .ok source

def handleUpsertSource (sourceId : String) (source : Fields) : Except Stop Plan := do
  let source ← gatedSource T sourceId source
  let sources := setField (m.branch "sources") sourceId (.obj source)
  return { mapspec := m.setBranch "sources" (.obj sources), autoCheckpoint := true }

/-- The entries of a reference, with the revision they are to carry. -/
def stampRevision (refId : String) (revision : Int) (entry : Json) : Json :=
  match entry with
  | .obj fs =>
    let current := (field "content_revision" fs).any (equal · (.int revision))
    if (sourceRef fs).any (equal · (.str refId)) && !current then
      .obj (setField fs "content_revision" (.int revision))
    else entry
  | _ => entry

def handleRefreshDataRevision (refId : String) (revision : Int) : Except Stop Plan :=
  let sources := m.branch "sources"
  let stamped := sources.map fun kv => (kv.1, stampRevision refId revision kv.2)
  if equal (.obj stamped) (.obj sources) then .error .receipt
  else .ok { mapspec := m.setBranch "sources" (.obj stamped) }

/-! ## Layers -/

/-- The source that a layer draws from. -/
def sourceIdOf (layer : Fields) : String :=
  match field "source" layer with
  | some (.str s) => s
  | some v => T.str v
  | none => "default_source"

/-- The document with a suggested view, unless its view is framed. -/
def suggestView (suggested : Option (Json × Json)) : MapSpec :=
  let view := m.branch "view"
  match suggested with
  | some (center, zoom) =>
    if ((field "framed" view).map truthy).getD false then m
    else m.setBranch "view" (.obj (setField (setField view "center" center) "zoom" zoom))
  | none => m

/-- The document with the entry of a layer's source and a suggested view. -/
def mountSource (processed entry : Fields) (suggested : Option (Json × Json)) : MapSpec :=
  let sources := setField (m.branch "sources") (sourceIdOf T processed) (.obj entry)
  suggestView (m.setBranch "sources" (.obj sources)) suggested

/-- The layer that an upsert leaves in the place of an old one. -/
def succeed (processed old : Fields) : Option Fields :=
  (preserveDurablePresentation T.str old processed).map projectCartographicIntent

def handleUpsertLayer (layer : Fields) (sourceData : Option Json) : Except Stop Plan := do
  let ingested ← T.ingest m layer sourceData
  let gated ← T.qualityGate ingested.sourceEntry ingested.layer
  let processed := gated.2
  let upserted ← orRaise <| upsertLayers (layerId processed) (succeed T processed)
    (projectCartographicIntent processed) m.layers
  let new := upserted.2
  return {
    mapspec := { mountSource T m processed gated.1 ingested.suggestedView with layers := upserted.1 }
    autoCheckpoint := true
    pendingLayerOp := some (.upsert ((field "id" new).getD (.str "layer")) (.obj new)) }

/-- The plan of a handler that rewrites the layers of one family. -/
def rewriteFamily (id : String) (f : Fields → Option Fields) : Except Stop Plan := do
  let hit (layer : Json) := layer.isObj && shouldRemoveLayer T.str layer id
  let layers ← orRaise (rewriteLayers hit f m.layers)
  refuseIf (!m.layers.any hit)
  return { mapspec := { m with layers := layers }, autoCheckpoint := true }

def handlePatchLayerPresentation (id : String) (visible : Option Bool) (opacity : Option Json)
    (origin : Origin) : Except Stop Plan :=
  rewriteFamily T m id (patchLayerPresentation visible opacity origin.text)

def handlePatchLayerStyle (id : String) (paint : Fields) : Except Stop Plan :=
  rewriteFamily T m id (patchLayerStyle paint)

def handleRemoveLayer (id : String) : Except Stop Plan :=
  if m.layers.all isObj then
    .ok {
      mapspec :=
        { m with layers := m.layers.filter fun layer => !shouldRemoveLayer T.str layer id }
      autoCheckpoint := true
      pendingLayerOp := some (.remove id) }
  else .error .raised

def handleReorderLayers (ids : List String) : Except Stop Plan := do
  let layers ← orRefuse (reorderLayers T.str m.layers ids)
  return { mapspec := { m with layers := layers }, autoCheckpoint := true }

def handleApplyVisualHealPatch (defects : List VisualCritiqueItem) (attempt : Nat) :
    Except Stop Plan := do
  let ops := T.planHeal m defects attempt
  refuseIf ops.isEmpty
  let layers ← orRaise (applyHealPlan T.str T.recolour m.layers ops)
  return { mapspec := { m with layers := layers }, autoCheckpoint := true }

/-! ## Layout -/

def refuseLockedComponentDrop (kept : List String) (origin : Origin) : Except Stop Unit :=
  let dropped := (stringIds m.layout.components).filter (· ∉ kept)
  let partition := guardLockedPartitions m [] dropped
  if origin ≠ .user ∧ partition.hasLocked then .error (.locked partition) else .ok ()

/-- The most bytes of a component. -/
def maxComponentBytes : Nat := 96 * 1024

/-- The priority that an entry is sorted by; nothing for one that is no number. -/
def entryPriority (entry : Json) : Option Rat :=
  match entry.get? "priority" with
  | none => some 0
  | some (.int n) => some n
  | some (.float q) => some q
  | some (.bool b) => some (if b then 1 else 0)
  | _ => none

/-- The id that an entry is sorted by. -/
def entryId (entry : Json) : String :=
  match entry.get? "id" with
  | some (.str s) => s
  | _ => ""

/-- By priority, then by id. -/
def entryBefore (a b : Rat × Json) : Prop :=
  a.1 < b.1 ∨ a.1 = b.1 ∧ entryId a.2 ≤ entryId b.2

instance : DecidableRel entryBefore := fun _ _ => inferInstanceAs (Decidable (_ ∨ _))

/-- `sorted(components, key=...)`; a single entry is not compared. -/
def sortEntries (entries : List Json) : Option (List Json) :=
  if entries.length ≤ 1 then some entries
  else do
    let keyed ← entries.mapM fun e => (entryPriority e).map fun p => (p, e)
    some ((keyed.insertionSort entryBefore).map Prod.snd)

/-- An entry is an object with a string as its id and as its type. -/
def entryValid (entry : Json) : Bool :=
  match entry.get? "id", entry.get? "type" with
  | some (.str _), some (.str _) => true
  | _, _ => false

/-- `layout["components"]` after the whole list is replaced. -/
def replaceComponents (components : List Json) (origin : Origin) : Except Stop (List Json) := do
  refuseLockedComponentDrop m (stringIds components) origin
  refuseIf (components.any fun c => c.isObj && maxComponentBytes < T.schema.bytes c)
  refuseIf (!(components.all entryValid && decide (stringIds components).Nodup))
  orRaise (sortEntries components)

/-- The components of a layout patch, or those that are there. -/
def newComponents (components : Option (List Json)) (origin : Origin) : Except Stop (List Json) :=
  match components with
  | some components => replaceComponents T m components origin
  | none => .ok m.layout.components

/-- `{**prev, **incoming}` under a key of the layout. -/
def mergePart (key : String) (incoming : Option Fields) (parts : Dict String Json) :
    Dict String Json :=
  match incoming with
  | some fs => parts.set key (.obj (mergeFields (fieldsOf (parts.find key)) fs))
  | none => parts

def putPart (key : String) (v : Option Json) (parts : Dict String Json) : Dict String Json :=
  match v with
  | some v => parts.set key v
  | none => parts

/-- A link names its ends, one of the link types and one of the kinds of target. -/
def linkValid (link : Json) : Bool :=
  match link.get? "src", link.get? "dst", link.get? "type" with
  | some (.str _), some (.str _), some (.str type) =>
    type ∈ ["binds_to", "requires", "groups", "annotates", "under"] &&
      match link.get? "dst_kind" with
      | none | some .null => true
      | some (.str kind) => kind ∈ ["component", "layer", "source"]
      | some _ => false
  | _, _, _ => false

def handleSetLayout (p : LayoutPatch) (origin : Origin) : Except Stop Plan := do
  let parts := mergePart "margins" p.margins <| putPart "controls" p.controls <|
    mergePart "legend" p.legend m.layout.parts
  let components ← newComponents T m p.components origin
  let links := p.componentLinks.getD []
  refuseIf (!links.all linkValid || 32 < links.length)
  refuseIf (p.composition.any fun c => !c.isObj || 4096 < T.schema.bytes c)
  let parts := putPart "composition" p.composition <|
    putPart "component_links" (p.componentLinks.map Json.arr) parts
  return { mapspec := { m with layout := { components := components, parts := parts } } }

/-- The layout of a snapshot, or the one that is there. -/
def restoredLayout (layout : Option Layout) (origin : Origin) : Except Stop Layout :=
  match layout with
  | some layout => do
      refuseLockedComponentDrop m (stringIds layout.components) origin
      return layout
  | none => .ok m.layout

/-- The layers with the looks of a snapshot, which may have none. -/
def restoredLayers (snapshot : List Json) (origin : Origin) : Option (List Json) :=
  if snapshot.any fun ly => ly.isObj && (ly.get? "id").any truthy then
    restoreLayers T.str origin.text snapshot m.layers
  else some m.layers

/-- A branch of a snapshot that is an object. -/
def MapSpec.restoreBranch (name : String) (v : Option Json) : MapSpec :=
  match v with
  | some (.obj fs) => m.setBranch name (.obj fs)
  | _ => m

def handleRestoreStyle (s : Snapshot) (origin : Origin) : Except Stop Plan := do
  let layout ← restoredLayout m s.layout origin
  let layers ← orRaise (restoredLayers T m s.layers origin)
  let m := ((m.restoreBranch "view" s.view).restoreBranch "basemap" s.basemap).restoreBranch
    "time" s.time
  return { mapspec := { m with layout := layout, layers := layers } }

/-! ## Components -/

/-- The entries that are objects, validated. -/
def readComponents : Except Stop (List Component) :=
  (m.layout.components.filter isObj).mapM fun c => orRaise (T.schema.validate c)

/-- The plan of a handler that writes all components back. -/
def writeComponents (cs : List Component) : Plan :=
  { mapspec := { m with layout := { m.layout with components := toEntries cs } } }

def oversized (cs : List Component) : Bool :=
  cs.any fun c => maxComponentBytes < T.schema.bytes c.toMapspec

def handlePatchComponent (p : ComponentPatch) : Except Stop Plan := do
  let cs ← readComponents T m
  refuseIf (cs.isEmpty && !p.upsert)
  let mutated ← orRefuse (mutateComponent T.schema cs p)
  let mutated ← orRaise mutated
  refuseIf (oversized T mutated)
  return writeComponents m mutated

def handleRemoveComponent (id : String) : Except Stop Plan := do
  let cs ← readComponents T m
  let remaining ← orRefuse (removeComponent cs id)
  return writeComponents m remaining

def handleDuplicateComponent (id : String) (newId : Option String) : Except Stop Plan := do
  let cs ← readComponents T m
  let withCopy ← orRefuse (duplicateComponent cs id (newId.getD ""))
  refuseIf (oversized T withCopy)
  return writeComponents m withCopy

/-- The layer of a binding is in the document. -/
def bindingPresent (bindings : List (String × String)) : Bool :=
  match bindings.find? fun b => b.1 = "layerId" with
  | some b => m.layers.any fun layer => layer.isObj && requested b.2 (idText T.str layer)
  | none => true

def handleRebindComponent (id : String) (bindings : List (String × String)) :
    Except Stop Plan := do
  let cs ← readComponents T m
  refuseIf (!bindingPresent T m bindings)
  let rebound ← orRefuse (rebindComponent cs id bindings)
  return writeComponents m rebound

end

/-- The handler of an intent. -/
def handle (T : Tools) (m : MapSpec) (origin : Origin) : Intent → Except Stop Plan
  | .setView center zoom pitch bearing => .ok (handleSetView m center zoom pitch bearing)
  | .upsertSource id source => handleUpsertSource T m id source
  | .upsertLayer layer data => handleUpsertLayer T m layer data
  | .patchLayerPresentation id visible opacity =>
    handlePatchLayerPresentation T m id visible opacity origin
  | .patchLayerStyle id paint => handlePatchLayerStyle T m id paint
  | .patchComponent p => handlePatchComponent T m p
  | .removeComponent id => handleRemoveComponent T m id
  | .duplicateComponent id newId => handleDuplicateComponent T m id newId
  | .rebindComponent id bindings => handleRebindComponent T m id bindings
  | .removeLayer id => handleRemoveLayer T m id
  | .reorderLayers ids => handleReorderLayers T m ids
  | .setLayout p => handleSetLayout T m p origin
  | .checkpoint => .ok { mapspec := m }
  | .restoreStyle s => handleRestoreStyle T m s origin
  | .setBasemap provider filters overlays style =>
    .ok (handleSetBasemap m provider filters overlays style)
  | .setTime p => .ok (handleSetTime m p)
  | .setTemporalView config patch remove => handleSetTemporalView T m config patch remove origin
  | .refreshDataRevision ref revision => handleRefreshDataRevision m ref revision
  | .setScenarioMode mode => handleSetScenarioMode m mode
  | .setScene scene => handleSetScene T m scene
  | .setSceneAssets assets => handleSetSceneAssets T m assets
  | .applyVisualHealPatch defects attempt => handleApplyVisualHealPatch T m defects attempt

end WebGis.Mapspec
