/-
  The two ways to a tile: from the features, and from the spatial index over them.

  Shapely, the projection and the other functions on floating-point coordinates are the fields of
  a `Toolkit`: functions of their arguments that may raise (`none`) where the code's do. What the
  code does with them, which of them it calls, what it keeps and what it counts is written out.
-/
import WebGis.Data.Json
import WebGis.Tiles.Encode

namespace WebGis.Tiles

open Data Wire

/-! ## Tiles and boxes -/

structure Tile where
  z : Nat
  x : Nat
  y : Nat

/-- Edges in pixels of the world at zoom 0. -/
structure Box where
  x0 : Rat
  y0 : Rat
  x1 : Rat
  y1 : Rat

/-- The boxes have a point in common. -/
def Box.meets (a b : Box) : Bool := a.x0 ≤ b.x1 && b.x0 ≤ a.x1 && a.y0 ≤ b.y1 && b.y0 ≤ a.y1

def bufferPx : Rat := 1 / 4

/-- `_tile_rect_z0` -/
def tileRect (t : Tile) : Box where
  x0 := t.x * (256 / 2 ^ t.z) - bufferPx / 2 ^ t.z
  y0 := t.y * (256 / 2 ^ t.z) - bufferPx / 2 ^ t.z
  x1 := (t.x + 1) * (256 / 2 ^ t.z) + bufferPx / 2 ^ t.z
  y1 := (t.y + 1) * (256 / 2 ^ t.z) + bufferPx / 2 ^ t.z

/-! ## Geometry -/

/-- `_SUPPORTED_TYPES` -/
inductive Kind where
  | point
  | multiPoint
  | lineString
  | multiLineString
  | polygon
  | multiPolygon
  deriving DecidableEq

/-- `gtype in _IS_POINT` -/
def Kind.isPoint : Kind → Bool
  | .point | .multiPoint => true
  | _ => false

/-- `gtype in _IS_POLY` -/
def Kind.isPoly : Kind → Bool
  | .polygon | .multiPolygon => true
  | _ => false

/-- `_type_id_for` -/
def Kind.typeId : Kind → Nat
  | .point | .multiPoint => 1
  | .lineString | .multiLineString => 2
  | .polygon | .multiPolygon => 3

def Kind.ofName : String → Option Kind
  | "Point" => some .point
  | "MultiPoint" => some .multiPoint
  | "LineString" => some .lineString
  | "MultiLineString" => some .multiLineString
  | "Polygon" => some .polygon
  | "MultiPolygon" => some .multiPolygon
  | _ => none

/-- A value, or an exception. -/
abbrev Attempt (α : Type) : Type := Option α

/-- The functions on coordinates, which raise or return the same for the same arguments. -/
structure Toolkit where
  /-- A geometry of Shapely. -/
  Geom : Type
  /-- `_shapely_geom_from_coords`: `None` where Shapely raises. -/
  construct : Kind → Json → Option Geom
  isEmpty : Geom → Bool
  isValid : Geom → Bool
  /-- `shapely.transform(geom, _transform_z0)` -/
  transform : Geom → Attempt Geom
  /-- The bounds, when all four are finite. -/
  bounds : Geom → Option Box
  /-- `geom.simplify`, to half a pixel at the zoom. -/
  simplify : Nat → Geom → Attempt Geom
  /-- `geom.intersection` with the box of a tile. -/
  intersection : Geom → Tile → Attempt Geom
  /-- The parts that `_encode_parts` quantises. -/
  quantise : Geom → Bool → Tile → Attempt Shape
  /-- The points that `_encode_points` finds inside the tile. -/
  points : Kind → Json → Tile → Attempt (List Vertex)
  /-- The parts that `_encode_line_polygon_pure` clips and quantises. -/
  pure : Kind → Json → Tile → Attempt Shape
  /-- `_crosses_antimeridian`, of lines and polygons. -/
  crosses : Kind → Json → Attempt Bool
  /-- The pieces of a geometry that crosses the antimeridian. -/
  split : Kind → Json → Attempt (List (Kind × Json))

/-- Whether a part was written. -/
def Shape.isEmpty : Shape → Bool
  | .points vertices => vertices.isEmpty
  | .lines ls => ls.isEmpty
  | .polygon rings => rings.isEmpty

/-- The bytes of a shape, if a part was written. -/
def Shape.bytes (s : Shape) : Option Bytes := if s.isEmpty then none else some s.encode

namespace Toolkit

variable (T : Toolkit)

def simplifyMaxZoom : Nat := 14

def simplifyAndProject (k : Kind) (lonlat z0 : Option T.Geom) (z : Nat) :
    Attempt (Option T.Geom) :=
  match lonlat with
  | none => some none
  | some g =>
    if T.isEmpty g then some none
    else if k.isPoly && !T.isValid g then some none
    else do
      let projected ← match z0 with
        | some gz => some gz
        | none => T.transform g
      if simplifyMaxZoom ≤ z then some (some projected)
      else
        let simplified ← T.simplify z projected
        if T.isEmpty simplified then some none
        else some (some (if !k.isPoly || T.isValid simplified then simplified else projected))

def clipAndEncode (geom : Option T.Geom) (isPoly : Bool) (t : Tile) : Attempt (Option Bytes) :=
  match geom with
  | none => some none
  | some g => do
      let clipped ← T.intersection g t
      if T.isEmpty clipped then some none
      else (T.quantise clipped isPoly t).map Shape.bytes

/-- `_encode_line_polygon_shapely` -/
def encodeShapely (k : Kind) (coords : Json) (t : Tile) : Attempt (Option Bytes) := do
  let geom ← T.simplifyAndProject k (T.construct k coords) none t.z
  T.clipAndEncode geom k.isPoly t

/-- `_encode_line_polygon_from_geoms` -/
def encodeFromGeoms (k : Kind) (lonlat z0 : T.Geom) (t : Tile) : Attempt (Option Bytes) := do
  let geom ← T.simplifyAndProject k (some lonlat) (some z0) t.z
  T.clipAndEncode geom k.isPoly t

/-- `_encode_line_polygon_piece` -/
def encodePiece (k : Kind) (coords : Json) (t : Tile) : Attempt (Option Bytes) :=
  match T.encodeShapely k coords t with
  | some bytes => some bytes
  | none => (T.pure k coords t).map Shape.bytes

def crossesAntimeridian (k : Kind) (coords : Json) : Attempt Bool :=
  if k.isPoint then some false else T.crosses k coords

def antimeridianPieces (k : Kind) (coords : Json) : Attempt (List (Kind × Json)) := do
  if ← T.crossesAntimeridian k coords then T.split k coords else some [(k, coords)]

def encodePoints (k : Kind) (coords : Json) (t : Tile) : Attempt (Option Bytes) :=
  (T.points k coords t).map fun vertices => (Shape.points vertices).bytes

def encodeGeometryPieces (k : Kind) (coords : Json) (t : Tile) : Attempt (List Bytes) :=
  if k.isPoint then (T.encodePoints k coords t).map Option.toList
  else do
    let pieces ← T.antimeridianPieces k coords
    let groups ← pieces.mapM fun piece => T.encodePiece piece.1 piece.2 t
    some groups.reduceOption

end Toolkit

/-! ## Features -/

/-- The fields of a dictionary, none of anything else. -/
def fieldsOf : Json → List (String × Json)
  | .obj fields => fields
  | _ => []

/-- `f.get(name)` -/
def get (name : String) (f : Json) : Json := (Json.field name (fieldsOf f)).getD .null

/-- `geometry.get("type")` among the supported types; a type that has no hash raises. -/
def kindOf : Json → Attempt (Option Kind)
  | .str name => some (Kind.ofName name)
  | .arr _ | .obj _ => none
  | _ => some none

def featureIdKeys : List String :=
  ["id", "OBJECTID", "fid", "osm_id", "@id", "featureId", "feature_id"]

/-- `isinstance(value, (str, int)) and not isinstance(value, bool)` -/
def isId : Json → Bool
  | .str _ | .int _ => true
  | _ => false

/-- `_chain_stable_id(feature) is not None` -/
def hasStableId (f : Json) : Bool :=
  isId (get "id" f) || featureIdKeys.any fun key => isId (get key (get "properties" f))

def positionalFeatureId (f : Json) (naturalIndex : Nat) : Option Nat :=
  if hasStableId f then none else some (naturalIndex + 1)

/-- `f.get("properties") or {}` -/
def propsOf (f : Json) : Json :=
  if (get "properties" f).truthy then get "properties" f else Json.emptyObj

/-- A record of a tile. -/
structure TileRecord where
  typeId : Nat
  geometry : Bytes
  props : Json
  featureId : Option Nat
  deriving DecidableEq

/-- The kind and the coordinates of a feature that can be encoded. -/
def shapeOf (f : Json) : Attempt (Option (Kind × Json)) :=
  match get "geometry" f with
  | .obj geometry => (kindOf (get "type" (.obj geometry))).map fun kind =>
    kind.map fun k => (k, get "coordinates" (.obj geometry))
  | _ => some none

/-- The records of a feature's groups of bytes. -/
def recordsOf (f : Json) (i : Nat) (k : Kind) (groups : List Bytes) : List TileRecord :=
  groups.map fun bytes => {
    typeId := k.typeId
    geometry := bytes
    props := propsOf f
    featureId := positionalFeatureId f i }

/-! ## From the features -/

inductive TileError where
  | featureBudget
  | raised
  deriving DecidableEq

/-- `MAX_TILE_FEATURES`, as the records are assembled. -/
def assembled (records : List TileRecord) : Except TileError (List TileRecord) :=
  if maxTileFeatures < records.length then .error .featureBudget else .ok records

namespace Toolkit

variable (T : Toolkit)

/-- What the body of the loop of `encode_tile` appends. -/
def featureRecords (t : Tile) (e : Json × Nat) : Attempt (List TileRecord) := do
  match ← shapeOf e.1 with
  | none => some []
  | some (k, coords) =>
    let groups ← T.encodeGeometryPieces k coords t
    some (recordsOf e.1 e.2 k groups)

/-- The loop of `encode_tile`. -/
def encodeLoop (t : Tile) (records : List TileRecord) :
    List (Json × Nat) → Except TileError (List TileRecord)
  | [] => .ok records
  | e :: rest =>
    if maxTileFeatures ≤ records.length then .error .featureBudget
    else
      match T.featureRecords t e with
      | none => .error .raised
      | some more => encodeLoop t (records ++ more) rest

/-- `encode_tile` of a collection, up to the bytes of the records. -/
def encodeTile (features : List Json) (t : Tile) : Except TileError (List TileRecord) := do
  assembled (← T.encodeLoop t [] features.zipIdx)

/-! ## From the index -/

/-- A feature of the index with its geometries, its box and its place in the collection. -/
structure Row where
  feature : Json
  naturalIndex : Nat
  kind : Kind
  coords : Json
  lonlat : T.Geom
  z0 : T.Geom
  crosses : Bool
  box : Box

/-- The geometries and the box of a feature, unless the index leaves it out. -/
def indexable (k : Kind) (coords : Json) : Option (T.Geom × T.Geom × Box) := do
  let g ← T.construct k coords
  if T.isEmpty g then none
  else
    let gz ← T.transform g
    let b ← T.bounds gz
    some (g, gz, b)

/-- What the body of the loop of `build_spatial_index_entry` appends. -/
def rowOf (e : Json × Nat) : Attempt (Option T.Row) := do
  match ← shapeOf e.1 with
  | none => some none
  | some (k, coords) =>
    match T.indexable k coords with
    | none => some none
    | some (g, gz, b) =>
      let crosses ← T.crossesAntimeridian k coords
      some (some {
        feature := e.1
        naturalIndex := e.2
        kind := k
        coords := coords
        lonlat := g
        z0 := gz
        crosses := crosses
        box := if crosses then { b with x0 := 0, x1 := 256 } else b })

/-- `build_spatial_index_entry` -/
def buildIndex (features : List Json) : Except TileError (List T.Row) :=
  match features.zipIdx.mapM T.rowOf with
  | none => .error .raised
  | some rows => .ok rows.reduceOption

/-- `query_candidates_indexed` -/
def candidates (rows : List T.Row) (t : Tile) : List T.Row :=
  rows.filter fun row => row.box.meets (tileRect t)

/-- What the body of the loop of `encode_tile_from_index` appends. -/
def rowRecords (t : Tile) (row : T.Row) : Attempt (List TileRecord) :=
  let records := recordsOf row.feature row.naturalIndex row.kind
  if row.kind.isPoint then
    (T.encodePoints row.kind row.coords t).map fun bytes => records bytes.toList
  else if row.crosses && row.coords ≠ .null then
    (T.encodeGeometryPieces row.kind row.coords t).map records
  else
    match T.encodeFromGeoms row.kind row.lonlat row.z0 t with
    | some bytes => some (records bytes.toList)
    | none => (T.encodeGeometryPieces row.kind row.coords t).map records

/-- The loop of `encode_tile_from_index`. -/
def rowsLoop (t : Tile) (records : List TileRecord) :
    List T.Row → Except TileError (List TileRecord)
  | [] => .ok records
  | row :: rest =>
    match T.rowRecords t row with
    | none => .error .raised
    | some more => rowsLoop t (records ++ more) rest

/-- `encode_tile_from_index`, up to the bytes of the records. -/
def encodeTileFromIndex (rows : List T.Row) (t : Tile) : Except TileError (List TileRecord) :=
  if maxTileFeatures < (T.candidates rows t).length then .error .featureBudget
  else do assembled (← T.rowsLoop t [] (T.candidates rows t))

/-- The tile from an index built for it. -/
def indexedTile (features : List Json) (t : Tile) : Except TileError (List TileRecord) := do
  T.encodeTileFromIndex (← T.buildIndex features) t

end Toolkit

end WebGis.Tiles
