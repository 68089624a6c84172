/-
  The writer of vector tiles, from quantised coordinates on.

  Bytes are appended to a buffer as the code does it. A shape is what the quantisation leaves:
  vertices inside the buffered tile, lines of two and rings of three vertices at least.

  A reader of vector tiles, after version 2.1 of the format.

  It reads what the format allows, in any order of fields: the four geometry commands move one
  cursor, which `ClosePath` leaves where it is.
-/
import WebGis.Data.Dict
import WebGis.Data.Wire

namespace WebGis.Tiles

open Data Wire

/-! ## Numbers and fields -/

def varint (n : Nat) : Bytes :=
  if 0 < n >>> 7 then UInt8.ofNat (n &&& 0x7F ||| 0x80) :: varint (n >>> 7)
  else [UInt8.ofNat (n &&& 0x7F)]
termination_by n
decreasing_by
  rw [Nat.shiftRight_eq_div_pow] at *
  omega

def zigzag32 (n : Int) : Nat := (Int.xor (n <<< (1 : Nat)) (n >>> (31 : Nat)) % 2 ^ 32).toNat

def field (num wire : Nat) : Bytes := varint (num <<< 3 ||| wire)

/-- `_VARINT`, the doubles' wire type and `_BYTES` -/
def wireVarint : Nat := 0
def wireDouble : Nat := 1
def wireBytes : Nat := 2

def utf8 (s : String) : Bytes := s.toUTF8.data.toList

def stringField (num : Nat) (s : String) : Bytes :=
  field num wireBytes ++ varint (utf8 s).length ++ utf8 s

/-- `_double_bytes`: eight bytes of the number's bits, the lowest first. -/
def doubleBytes (bits : BitVec 64) : Bytes :=
  (List.range 8).map fun i => UInt8.ofNat (bits.toNat / 256 ^ i)

/-- A property value. -/
inductive Value where
  | bool (b : Bool)
  | int (n : Int)
  | float (bits : BitVec 64)
  | str (s : String)
  | other

def encodeValue : Value → Option Bytes
  | .bool b => some (field 7 wireVarint ++ varint (if b then 1 else 0))
  | .int n =>
    if n < -(2 ^ 63) ∨ 2 ^ 63 ≤ n then
      some (field 1 wireBytes ++ varint (utf8 (toString n)).length ++ utf8 (toString n))
    else some (field 4 wireVarint ++ varint (if 0 ≤ n then n else n + 2 ^ 64).toNat)
  | .float bits => some (field 3 wireDouble ++ doubleBytes bits)
  | .str s => some (field 1 wireBytes ++ varint (utf8 s).length ++ utf8 s)
  | .other => none

/-! ## Shapes -/

/-- The extent of a tile: `_EXTENT` -/
def extent : Nat := 4096

/-- A vertex in extent units, inside the tile's buffer of `_BUFFER_UNITS`. -/
structure Vertex where
  x : Int
  y : Int
  inside : (-4 ≤ x ∧ x ≤ 4100) ∧ -4 ≤ y ∧ y ≤ 4100

abbrev Position : Type := Int × Int

def Vertex.at (v : Vertex) : Position := (v.x, v.y)

/-- A line after `_quantize_line`. -/
structure Line where
  first : Vertex
  rest : List Vertex
  long : rest ≠ []

/-- A ring after `_quantize_ring`, without the vertex that closes it. -/
structure Ring where
  first : Vertex
  rest : List Vertex
  long : 2 ≤ rest.length

inductive Shape where
  | points (vertices : List Vertex)
  | lines (lines : List Line)
  | polygon (rings : List Ring)

/-- `_GT_POINT`, `_GT_LINESTRING` and `_GT_POLYGON` -/
def Shape.typeId : Shape → Nat
  | .points _ => 1
  | .lines _ => 2
  | .polygon _ => 3

/-! ## Commands -/

/-- `_MOVETO`, `_LINETO` and `_CLOSEPATH` -/
def moveTo : Nat := 1
def lineTo : Nat := 2
def closePath : Nat := 7

/-- The two numbers of a step from the cursor. -/
def step (cursor : Position) (v : Vertex) : Bytes :=
  varint (zigzag32 (v.x - cursor.1)) ++ varint (zigzag32 (v.y - cursor.2))

/-- The loop over the vertices of `LineTo`. -/
def emitVertices (out : Bytes) (cursor : Position) : List Vertex → Bytes × Position
  | [] => (out, cursor)
  | v :: rest => emitVertices (out ++ step cursor v) v.at rest

def emitLineCommands (out : Bytes) (first : Vertex) (rest : List Vertex) (cursor : Position) :
    Bytes × Position :=
  emitVertices (out ++ varint (1 <<< 3 ||| moveTo) ++ step cursor first ++
    varint (rest.length <<< 3 ||| lineTo)) first.at rest

def emitRingCommands (out : Bytes) (first : Vertex) (rest : List Vertex) (cursor : Position) :
    Bytes × Position :=
  let (out, _) := emitLineCommands out first rest cursor
  (out ++ varint (1 <<< 3 ||| closePath), first.at)

/-- The loop of `_encode_points` over the points inside the tile. -/
def encodePoints (out : Bytes) (cursor : Position) : List Vertex → Bytes
  | [] => out
  | v :: rest => encodePoints (out ++ varint (1 <<< 3 ||| moveTo) ++ step cursor v) v.at rest

/-- The loop of `_encode_parts` over lines. -/
def encodeLines (out : Bytes) (cursor : Position) : List Line → Bytes
  | [] => out
  | l :: rest =>
    let (out, cursor) := emitLineCommands out l.first l.rest cursor
    encodeLines out cursor rest

/-- The loop of `_encode_parts` over rings. -/
def encodeRings (out : Bytes) (cursor : Position) : List Ring → Bytes
  | [] => out
  | r :: rest =>
    let (out, cursor) := emitRingCommands out r.first r.rest cursor
    encodeRings out cursor rest

def Shape.encode : Shape → Bytes
  | .points vertices => encodePoints [] (0, 0) vertices
  | .lines ls => encodeLines [] (0, 0) ls
  | .polygon rings => encodeRings [] (0, 0) rings

/-! ## The tile -/

/-- A feature record: the geometry, the properties and the positional id. -/
structure Record where
  shape : Shape
  props : Dict String Value
  featureId : Option Int

def encodeFeature (geometry : Bytes) (tags : List Nat) (typeId : Nat) (featureId : Option Int) :
    Bytes :=
  let id := match featureId with
    | some n => if 0 < n then field 1 wireVarint ++ varint n.toNat else []
    | none => []
  let tagBytes := tags.flatMap varint
  let tagField :=
    if tags = [] then [] else field 2 wireBytes ++ varint tagBytes.length ++ tagBytes
  id ++ (field 3 wireVarint ++ varint typeId) ++ tagField ++
    (field 4 wireBytes ++ varint geometry.length ++ geometry)

/-- The keys and the values of the layer so far. -/
structure Tables where
  keys : List String := []
  values : List Bytes := []

/-- The place of an entry, which is appended when it is new. -/
def intern {α : Type} [DecidableEq α] (table : List α) (a : α) : Nat × List α :=
  if a ∈ table then (table.idxOf a, table) else (table.length, table ++ [a])

/-- The tags of a feature's properties. -/
def tagProps (t : Tables) : List (String × Value) → List Nat × Tables
  | [] => ([], t)
  | (k, v) :: rest =>
    match encodeValue v with
    | none => tagProps t rest
    | some encoded =>
      let (ik, keys) := intern t.keys k
      let (iv, values) := intern t.values encoded
      let (tags, t) := tagProps { keys := keys, values := values } rest
      (ik :: iv :: tags, t)

/-- The messages of the features, and the tables that they share. -/
def featureMessages (t : Tables) : List Record → List Bytes × Tables
  | [] => ([], t)
  | r :: rest =>
    let (tags, t) := tagProps t r.props.items
    let message := encodeFeature r.shape.encode tags r.shape.typeId r.featureId
    let (messages, t) := featureMessages t rest
    (message :: messages, t)

def maxTileFeatures : Nat := 50000

/-- The layer message. -/
def layerBytes (messages : List Bytes) (t : Tables) : Bytes :=
  field 15 wireVarint ++ varint 2 ++ stringField 1 "data" ++
    messages.flatMap (fun m => field 2 wireBytes ++ varint m.length ++ m) ++
    t.keys.flatMap (stringField 3) ++
    t.values.flatMap (fun v => field 4 wireBytes ++ varint v.length ++ v) ++
    (field 5 wireVarint ++ varint extent)

def assembleMvt (records : List Record) : Except String Bytes :=
  if maxTileFeatures < records.length then .error "tile feature budget exceeded; zoom in"
  else
    let (messages, t) := featureMessages {} records
    if messages = [] then .ok []
    else .ok (field 3 wireBytes ++ varint (layerBytes messages t).length ++ layerBytes messages t)

/-! ## Geometry -/

/-- A point, a line or a ring that was drawn. -/
structure Part where
  vertices : List Position
  closed : Bool
  deriving DecidableEq

/-- What the next number of a geometry is. -/
inductive Expects where
  | command
  | dx (starts : Bool) (count : Nat)
  | dy (starts : Bool) (count : Nat) (dx : Int)
  deriving DecidableEq

/-- The cursor, and the parts so far; the last part is the one that is drawn. -/
structure Pen where
  cursor : Position := (0, 0)
  parts : List Part := []
  expects : Expects := .command
  deriving DecidableEq

/-- The part that is drawn, with another vertex or closed. -/
def onLast (f : Part → Part) (parts : List Part) : Option (List Part) :=
  parts.getLast?.map fun last => parts.dropLast ++ [f last]

/-- The next vertex, of a part of its own or of the part that is drawn. -/
def Pen.draw (p : Pen) (starts : Bool) (count : Nat) (cursor : Position) : Option Pen := do
  let parts ←
    if starts then some (p.parts ++ [{ vertices := [cursor], closed := false }])
    else onLast (fun last => { last with vertices := last.vertices ++ [cursor] }) p.parts
  some {
    cursor := cursor
    parts := parts
    expects := if count ≤ 1 then .command else .dx starts (count - 1) }

/-- One number of a geometry. -/
def Pen.read (p : Pen) (n : Nat) : Option Pen :=
  match p.expects with
  | .command =>
    match n % 8, n / 8 with
    | 1, count + 1 => some { p with expects := .dx true (count + 1) }
    | 2, count + 1 => some { p with expects := .dx false (count + 1) }
    | 7, 1 => (onLast (fun last => { last with closed := true }) p.parts).map fun parts =>
      { p with parts := parts }
    | _, _ => none
  | .dx starts count => some { p with expects := .dy starts count (unzigzag n) }
  | .dy starts count dx => p.draw starts count (p.cursor.1 + dx, p.cursor.2 + unzigzag n)

/-- The parts of a geometry. -/
def decodeGeometry (bytes : Bytes) : Option (List Part) := do
  let numbers ← readAll readVarint bytes
  let pen ← numbers.foldlM Pen.read {}
  if pen.expects = .command then some pen.parts else none

/-! ## Features -/

/-- A value of a property. -/
inductive Decoded where
  | string (s : String)
  | single (bits : Nat)
  | double (bits : Nat)
  | int (n : Int)
  | bool (b : Bool)
  deriving DecidableEq

/-- The value of a message; the last field that is known. -/
def decodeValue (bytes : Bytes) : Option Decoded := do
  let fields ← readAll readField bytes
  let known ← (fields.filter fun f => decide (f.1 ∈ [1, 2, 3, 4, 5, 6, 7])).getLast?
  match known with
  | (1, .chunk s) => (ofUtf8 s).map .string
  | (2, .fixed32 bs) => some (.single (ofLittleEndian bs))
  | (3, .fixed64 bs) => some (.double (ofLittleEndian bs))
  | (4, .varint n) => some (.int (ofTwosComplement n))
  | (5, .varint n) => some (.int n)
  | (6, .varint n) => some (.int (unzigzag n))
  | (7, .varint n) => some (.bool (n ≠ 0))
  | _ => none

structure Feature where
  id : Option Nat
  typeId : Nat
  parts : List Part
  properties : List (String × Decoded)
  deriving DecidableEq

/-- The pairs of a feature's tags. -/
def lookupTags (keys : List String) (values : List Decoded) :
    List Nat → Option (List (String × Decoded))
  | [] => some []
  | [_] => none
  | ik :: iv :: rest => do
      let k ← keys[ik]?
      let v ← values[iv]?
      (lookupTags keys values rest).map ((k, v) :: ·)

def decodeFeature (keys : List String) (values : List Decoded) (bytes : Bytes) :
    Option Feature := do
  let fields ← readAll readField bytes
  let tags ← readAll readVarint (chunks 2 fields).flatten
  let properties ← lookupTags keys values tags
  let parts ← decodeGeometry (chunks 4 fields).flatten
  some {
    id := (varints 1 fields).getLast?
    typeId := (varints 3 fields).getLast?.getD 0
    parts := parts
    properties := properties }

/-- The features of a layer. -/
def decodeLayer (bytes : Bytes) : Option (List Feature) := do
  let fields ← readAll readField bytes
  let keys ← (chunks 3 fields).mapM ofUtf8
  let values ← (chunks 4 fields).mapM decodeValue
  (chunks 2 fields).mapM (decodeFeature keys values)

/-- The features of a tile, layer by layer. -/
def decodeTile (bytes : Bytes) : Option (List Feature) := do
  let fields ← readAll readField bytes
  let layers ← (chunks 3 fields).mapM decodeLayer
  some layers.flatten

end WebGis.Tiles
