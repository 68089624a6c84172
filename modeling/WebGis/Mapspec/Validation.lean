/-
  `validate`: the structure of a map specification before it is compiled.

  An error carries what its message names. Where the source raises, the one error is that of the
  shape. The texts of the messages are not here.
-/
import WebGis.Mapspec.Review

namespace WebGis.Mapspec

open Data Json

inductive ValidationError where
  | invalidMapspecShape
  | missingSources
  | invalidLayerShape
  | invalidSourceRef (layer source : Json)
  | invalidPaintShape
  | invalidStopsShape
  | invalidStopValue
  | invalidStopsCount (layer : Json) (prop : String) (minStops : Nat) (method : String)
  | nonIncreasingStops (prop : String) (left right : Json)
  | sceneTerrainSourceRef (source : Option String)
  | sceneTerrainSourceType (source : String) (type : Json)
  | sceneAssetDuplicateId (asset : String)
  | sceneAssetSourceEmpty
  | sceneAssetSourceMissing (asset : Json) (source : String)
  | sceneAssetSourceType (asset : Json) (source : String) (type : Json)
  | sceneAssetSourceBare (asset : Json) (source : String)

namespace ValidationError

/-- `e["code"]` -/
def code : ValidationError → String
  | invalidMapspecShape => "INVALID_MAPSPEC_SHAPE"
  | missingSources => "MISSING_SOURCES"
  | invalidLayerShape => "INVALID_LAYER_SHAPE"
  | invalidSourceRef .. => "INVALID_SOURCE_REF"
  | invalidPaintShape => "INVALID_PAINT_SHAPE"
  | invalidStopsShape => "INVALID_STOPS_SHAPE"
  | invalidStopValue => "INVALID_STOP_VALUE"
  | invalidStopsCount .. => "INVALID_STOPS_COUNT"
  | nonIncreasingStops .. => "NON_INCREASING_STOPS"
  | sceneTerrainSourceRef _ => "SCENE_TERRAIN_SOURCE_REF"
  | sceneTerrainSourceType .. => "SCENE_TERRAIN_SOURCE_TYPE"
  | sceneAssetDuplicateId _ => "SCENE_ASSET_DUPLICATE_ID"
  | sceneAssetSourceEmpty | sceneAssetSourceMissing .. | sceneAssetSourceBare .. =>
    "SCENE_ASSET_SOURCE_REF"
  | sceneAssetSourceType .. => "SCENE_ASSET_SOURCE_TYPE"

/-- The layer, the source and the asset that the message names. -/
def named : ValidationError → List Json
  | invalidSourceRef layer source => [layer, source]
  | invalidStopsCount layer _ _ _ => [layer]
  | sceneTerrainSourceRef (some source) => [.str source]
  | sceneTerrainSourceType source _ => [.str source]
  | sceneAssetDuplicateId asset => [.str asset]
  | sceneAssetSourceMissing asset source | sceneAssetSourceType asset source _
  | sceneAssetSourceBare asset source => [asset, .str source]
  | _ => []

end ValidationError

open ValidationError

def blockingValidationCodes : List String :=
  ["INVALID_SOURCE_REF", "INVALID_STOPS_COUNT", "NON_INCREASING_STOPS", "SCENE_TERRAIN_SOURCE_REF",
    "SCENE_TERRAIN_SOURCE_TYPE", "SCENE_ASSET_SOURCE_REF", "SCENE_ASSET_SOURCE_TYPE",
    "SCENE_ASSET_DUPLICATE_ID"]

/-! ## Paint -/

/-- No float is as large, so that `math.isfinite` raises. -/
def overflows (n : Int) : Bool := 2 ^ 1024 - 2 ^ 970 ≤ n.natAbs

/-- The number of a threshold. -/
def threshold : Json → Option Rat
  | .int n => some n
  | .float q => some q
  | _ => none

/-- Some threshold is no finite number; nothing where the test raises before it is decided. -/
def badThreshold : List Json → Option Bool
  | [] => some false
  | .int n :: rest => if overflows n then none else badThreshold rest
  | .float _ :: rest => badThreshold rest
  | _ :: _ => some true

/-- The first two neighbours that do not increase. -/
def firstDescent : List Json → Option (Json × Json)
  | left :: right :: rest =>
    match threshold left, threshold right with
    | some l, some r => if r ≤ l then some (left, right) else firstDescent (right :: rest)
    | _, _ => firstDescent (right :: rest)
  | _ => none

/-- `stop[0]` of a stop that is a pair. -/
def stopThreshold : Json → Option Json
  | .arr (x :: _ :: _) => some x
  | _ => none

/-- The errors of one paint property. -/
def stopsErrors (layer : Json) (prop method : String) (stops : Json) :
    Option (List ValidationError) :=
  match stops with
  | .arr stops =>
    match stops.mapM stopThreshold with
    | none => some [invalidStopsShape]
    | some thresholds => do
        let minStops := if method = "interpolate" then 2 else 1
        if ← badThreshold thresholds then return [invalidStopValue]
        else if thresholds.length < minStops then
          return [invalidStopsCount layer prop minStops method]
        else
          return match firstDescent thresholds with
            | some (left, right) => [nonIncreasingStops prop left right]
            | none => []
  | _ => some [invalidStopsShape]

def paintErrors (layer : Json) (entry : String × Json) : Option (List ValidationError) :=
  match entry.2 with
  | .obj method =>
    match field "method" method with
    | some (.str kind) =>
      if kind = "interpolate" ∨ kind = "step" then
        stopsErrors layer entry.1 kind ((field "stops" method).getD (.arr []))
      else some []
    | _ => some []
  | _ => some []

/-! ## Layers, terrain and assets -/

/-- The source is one of the document's. -/
def isSourceKey (sources : Fields) : Json → Bool
  | .str s => sources.any fun kv => kv.1 = s
  | _ => false

def layerErrors (sources : Fields) (layer : Json) : Option (List ValidationError) :=
  match layer with
  | .obj fs =>
    let id := (field "id" fs).getD .null
    let source := (field "source" fs).getD .null
    -- a source that cannot be looked up in a set raises
    if ¬ hashable source then none
    else
      let missing := if isSourceKey sources source then [] else [invalidSourceRef id source]
      match (field "paint" fs).getD emptyObj with
      | .obj paint => (paint.mapM (paintErrors id)).map fun errors => missing ++ errors.flatten
      | _ => some (missing ++ [invalidPaintShape])
  | _ => some [invalidLayerShape]

/-- `sources.get(id) or {}`; nothing where that has no `get`. -/
def sourceEntry (sources : Fields) (id : String) : Option Fields :=
  match field id sources with
  | some (.obj fs) => some fs
  | some v => if v.truthy then none else some []
  | none => some []

/-- `entry.get("type")` -/
def typeOf (entry : Fields) : Json := (field "type" entry).getD .null

def isText (text : String) : Json → Bool
  | .str s => s = text
  | _ => false

def terrainErrors (sources : Fields) (terrain : Fields) : Option (List ValidationError) :=
  match field "source" terrain with
  | some (.str source) =>
    if source = "" then some [sceneTerrainSourceRef none]
    else if ¬ isSourceKey sources (.str source) then some [sceneTerrainSourceRef (some source)]
    else
      (sourceEntry sources source).map fun entry =>
        if isText "raster-dem" (typeOf entry) then []
        else [sceneTerrainSourceType source (typeOf entry)]
  | _ => some [sceneTerrainSourceRef none]

/-- What an asset says about its source. -/
def assetSourceErrors (sources : Fields) (asset : Fields) : Option (List ValidationError) :=
  let id := (field "id" asset).getD .null
  match field "source" asset with
  | some (.str source) =>
    if source = "" then some [sceneAssetSourceEmpty]
    else if ¬ isSourceKey sources (.str source) then some [sceneAssetSourceMissing id source]
    else
      (sourceEntry sources source).map fun entry =>
        if ¬ isText "model3d" (typeOf entry) then [sceneAssetSourceType id source (typeOf entry)]
        else if (field "url" entry).any truthy || (field "ref_id" entry).any truthy then []
        else [sceneAssetSourceBare id source]
  | _ => some [sceneAssetSourceEmpty]

/-- The errors of the assets after those with the ids `seen`. -/
def assetErrors (sources : Fields) (seen : List String) : List Json → Option (List ValidationError)
  | [] => some []
  | .obj asset :: rest => do
      let own ← assetSourceErrors sources asset
      match field "id" asset with
      | some (.str id) =>
        if id = "" then return own ++ (← assetErrors sources seen rest)
        else
          let duplicate := if id ∈ seen then [sceneAssetDuplicateId id] else []
          return duplicate ++ own ++ (← assetErrors sources (id :: seen) rest)
      | _ => return own ++ (← assetErrors sources seen rest)
  | _ :: rest => assetErrors sources seen rest

def sceneErrors (sources : Fields) (scene : Fields) : Option (List ValidationError) := do
  let terrain ← match field "terrain" scene with
    | some (.obj terrain) => terrainErrors sources terrain
    | _ => some []
  let assets ← match field "assets" scene with
    | some (.arr assets) => assetErrors sources [] assets
    | _ => some []
  return terrain ++ assets

/-! ## The document -/

/-- `_validate_structure`; nothing where it raises. -/
def validateStructure (m : MapSpec) : Option (List ValidationError) :=
  match m.branches.find "sources" with
  | none => errors []
  | some (.obj sources) => errors sources
  | some _ => some [invalidMapspecShape]
where
  errors (sources : Fields) : Option (List ValidationError) := do
    let layers ← m.layers.mapM (layerErrors sources)
    let scene ← match m.branches.find "scene" with
      | some (.obj scene) => sceneErrors sources scene
      | _ => some []
    return (if sources.isEmpty then [missingSources] else []) ++ layers.flatten ++ scene

/-- `validate(mapspec)["errors"]` -/
def validate (m : MapSpec) : List ValidationError :=
  (validateStructure m).getD [invalidMapspecShape]

/-- `_blocking_error_codes(validate(mapspec))` -/
def blockingErrorCodes (m : MapSpec) : List String :=
  ((validate m).map code).filter (· ∈ blockingValidationCodes)

end WebGis.Mapspec
