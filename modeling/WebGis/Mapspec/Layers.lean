/-
  What the mutations do to one layer, and to the list of layers.

  Where the code would stop with an exception (a branch that must be an object is something
  else, an entry of the list is no object), there is no result.
-/
import WebGis.Mapspec.Spec

namespace WebGis.Mapspec

open Data Json

theorem foldlM_keeps {σ ι : Type} {P : σ → Prop} {f : σ → ι → Option σ} {items : List ι}
    (step : ∀ i ∈ items, ∀ s s', P s → f s i = some s' → P s') {s s' : σ} (hs : P s)
    (h : items.foldlM f s = some s') : P s' := by
  induction items generalizing s with
  | nil =>
    cases h
    exact hs
  | cons i items ih =>
    rw [List.foldlM_cons] at h
    obtain ⟨t, ht, h⟩ := Option.bind_eq_some_iff.mp h
    rw [List.forall_mem_cons] at step
    exact ih step.2 (step.1 s t hs ht) h

/-- `fs.get(key)`, with `None` as no value. -/
def present (fs : Fields) (key : String) : Option Json :=
  match field key fs with
  | some .null => none
  | v => v

/-- `_OPACITY_PAINT_KEYS` -/
def opacityPaintKey (layer : Fields) : Option String :=
  match field "type" layer with
  | some (.str "circle") => some "circle-opacity"
  | some (.str "fill") => some "fill-opacity"
  | some (.str "line") => some "line-opacity"
  | some (.str "raster") => some "raster-opacity"
  | some (.str "heatmap") => some "heatmap-opacity"
  | some (.str "fill-extrusion") => some "fill-extrusion-opacity"
  | some (.str "symbol") => some "icon-opacity"
  | _ => none

/-- Whether the user has already decided for the same visibility. -/
def userDecided (intent : Fields) (visible : Bool) : Bool :=
  field "presentation_owner" intent == some (.str "user") &&
    (present intent "expected_visible").any fun v => v.truthy == visible

/-- The visibility part of `_patch_layer_presentation`. -/
def withVisibility (layer : Fields) (visible : Bool) (origin : String) : Option Fields := do
  let layer := dropField layer "visible"
  let layout ← dict? (field "layout" layer)
  let shown := Json.str (if visible then "visible" else "none")
  let layer := setField layer "layout" (.obj (setField layout "visibility" shown))
  let intent ← dict? (field "cartographic_intent" layer)
  let owner := if userDecided intent visible then "user" else origin
  let intent := setField intent "expected_visible" (.bool visible)
  some (setField layer "cartographic_intent" (.obj (setField intent "presentation_owner" (.str owner))))

/-- The opacity part of `_patch_layer_presentation`. -/
def withOpacity (layer : Fields) (opacity : Json) : Option Fields := do
  let paint ← dict? (field "paint" layer)
  let paint := setField paint "opacity" opacity
  let paint := match opacityPaintKey layer with
    | some key => setField paint key opacity
    | none => paint
  some (setField layer "paint" (.obj paint))

def patchLayerPresentation (visible : Option Bool) (opacity : Option Json) (origin : String)
    (layer : Fields) : Option Fields := do
  let layer ← match visible with
    | some v => withVisibility layer v origin
    | none => some layer
  match opacity with
  | some o => withOpacity layer o
  | none => some layer

/-- The paint patch of `_handle_patchlayerstyle`. -/
def patchLayerStyle (paint : Fields) (layer : Fields) : Option Fields := do
  let old ← dict? (field "paint" layer)
  some (setField layer "paint" (.obj (mergeFields old paint)))

def projectCartographicIntent (layer : Fields) : Fields :=
  match field "cartographic_intent" layer with
  | some (.obj _) => layer
  | _ =>
    let layout := fieldsOf (field "layout" layer)
    let shown := (field "visibility" layout).getD (.str "visible") != .str "none"
    let role := (field "context_role" layer).filter truthy <|> field "role" layer
    let intent : Fields := [("expected_visible", .bool shown)] ++
      match role with
      | some (.str r) => if r = "" then [] else [("role", .str r)]
      | _ => []
    setField layer "cartographic_intent" (.obj intent)

/-- The visibility that `_preserve_durable_presentation` carries over. -/
def keepVisibility (existing incoming : Fields) : Option Fields :=
  let hidden := field "visibility" (fieldsOf (field "layout" existing)) == some (.str "none")
  let layout := fieldsOf (field "layout" incoming)
  let hide := setField incoming "layout" (.obj (setField layout "visibility" (.str "none")))
  let owner := field "presentation_owner" (fieldsOf (field "cartographic_intent" existing))
  if owner == some (.str "user") && hidden then do
    let intent ← dict? (field "cartographic_intent" incoming)
    let intent := setField intent "expected_visible" (.bool false)
    some (setField hide "cartographic_intent"
      (.obj (setField intent "presentation_owner" (.str "user"))))
  else if hidden && (present layout "visibility").isNone then some hide
  else some incoming

/-- The opacity that `_preserve_durable_presentation` carries over. -/
def keepOpacity (str : Json → String) (existing incoming : Fields) : Fields :=
  let typeText (fs : Fields) := match field "type" fs with
    | some (.str s) => s
    | some v => if v.truthy then str v else ""
    | none => ""
  let paint := fieldsOf (field "paint" incoming)
  match present (fieldsOf (field "paint" existing)) "opacity" with
  | some opacity =>
    if (present paint "opacity").isNone && typeText existing = typeText incoming then
      let merged := setField paint "opacity" opacity
      let merged := match opacityPaintKey incoming with
        | some key => if hasField merged key then merged else setField merged key opacity
        | none => merged
      setField incoming "paint" (.obj merged)
    else incoming
  | none => incoming

def preserveDurablePresentation (str : Json → String) (existing incoming : Fields) :
    Option Fields :=
  (keepVisibility existing incoming).map (keepOpacity str existing)

/-! ## The list of layers -/

/-- Each layer that is an object rewritten by `f`. -/
def eachLayer (f : Fields → Option Fields) : List Json → Option (List Json)
  | [] => some []
  | .obj fs :: rest => (f fs).bind fun fs' => (eachLayer f rest).map (.obj fs' :: ·)
  | v :: rest => (eachLayer f rest).map (v :: ·)

/-- Each layer that meets `hit` rewritten by `f`. -/
def rewriteLayers (hit : Json → Bool) (f : Fields → Option Fields) : List Json → Option (List Json) :=
  eachLayer fun fs => if hit (.obj fs) then f fs else some fs

/-- `layer.get("id")` -/
def layerId (layer : Fields) : Json := (field "id" layer).getD .null

/-- The layers with the first one of the same id replaced by what `f` makes of it, or with
    `fresh` at the end; and the layer that came in. -/
def upsertLayers (id : Json) (f : Fields → Option Fields) (fresh : Fields) :
    List Json → Option (List Json × Fields)
  | [] => some ([.obj fresh], fresh)
  | .obj fs :: rest =>
    if equal (layerId fs) id then (f fs).map fun new => (.obj new :: rest, new)
    else (upsertLayers id f fresh rest).map fun r => (.obj fs :: r.1, r.2)
  | _ :: _ => none

/-- The ids that the reordering takes for a requested one. -/
def requested (lid layerId : String) : Bool :=
  layerId = lid || startsWith (lid ++ "__") layerId || startsWith (lid ++ "-") layerId

section Reorder

variable (str : Json → String) (current : List Json)

/-- The layers and ids matched so far, after one layer is looked at for a requested id. -/
def matchLayer (lid : String) (acc : List Json × List String) (layer : Json) :
    List Json × List String :=
  if layer.isObj && idText str layer ∉ acc.2 && requested lid (idText str layer) then
    (acc.1 ++ [layer], acc.2 ++ [idText str layer])
  else acc

/-- `matched_ordered` and `matched_ids` -/
def matchedLayers (layerIds : List String) : List Json × List String :=
  layerIds.foldl (fun acc lid => current.foldl (matchLayer str lid) acc) ([], [])

/-- `leftover` -/
def leftoverLayers (matchedIds : List String) : List Json :=
  current.filter fun layer => layer.isObj && idText str layer ∉ matchedIds

/-- The layers in the requested order; nothing when no layer is meant. -/
def reorderLayers (layerIds : List String) : Option (List Json) :=
  let (ordered, ids) := matchedLayers str current layerIds
  if ordered.isEmpty then none else some (ordered ++ leftoverLayers str current ids)

end Reorder

/-! ## The layers of a snapshot -/

/-- `snap_layers.get(lid)`: the last layer of the snapshot with the id. -/
def snapshotLayer (str : Json → String) (snapshot : List Json) (lid : String) : Option Json :=
  snapshot.reverse.find? fun ly =>
    ly.isObj && (ly.get? "id").any truthy && idText str ly = lid

/-- The visibility that a layer of a snapshot asks for. -/
def snapshotVisible (src : Json) : Option Bool :=
  match field "visibility" (fieldsOf (src.get? "layout")) with
  | some (.str s) => some (s = "visible")
  | _ => (src.get? "visible").map truthy

/-- A layer with the looks of its counterpart in the snapshot. -/
def restoreLayer (origin : String) (src : Json) (layer : Fields) : Option Fields :=
  let layer := match src.get? "paint" with
    | some (.obj paint) => setField layer "paint" (.obj paint)
    | _ => layer
  let layer := match (src.get? "label").filter (· != .null) with
    | some label => setField layer "label" label
    | none => layer
  match snapshotVisible src with
  | some visible => patchLayerPresentation (some visible) none origin layer
  | none => some layer

/-- A layer with the looks it has in the snapshot, if it is there. -/
def restoreFrom (str : Json → String) (origin : String) (snapshot : List Json) (layer : Fields) :
    Option Fields :=
  match snapshotLayer str snapshot (idText str (.obj layer)) with
  | some src => restoreLayer origin src layer
  | none => some layer

/-- `merged_layers` -/
def restoreLayers (str : Json → String) (origin : String) (snapshot layers : List Json) :
    Option (List Json) :=
  if layers.all isObj then eachLayer (restoreFrom str origin snapshot) layers else none

end WebGis.Mapspec
