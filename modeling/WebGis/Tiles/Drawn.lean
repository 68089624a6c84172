/-
  What a reader draws of the geometry that the writer emits.

  The writer's cursor goes back to the first vertex of a ring, the reader's stays at the last. So
  the reader's cursor is off by what the rings before did not close, and draws a ring where the
  writer meant it only when each ring before it ends where it starts.
-/
import WebGis.Tiles.Numbers

namespace WebGis.Tiles

open Data Wire List Option Pen

/-! ## Shapes as parts -/

/-- A position off by `d`. -/
def shift (d p : Position) : Position := (p.1 + d.1, p.2 + d.2)

/-- The last position of a walk. -/
def lastOf (p : Position) : List Vertex → Position
  | [] => p
  | v :: rest => lastOf v.at rest

def Line.vertices (l : Line) : List Position := (l.first :: l.rest).map Vertex.at

def Ring.vertices (r : Ring) : List Position := (r.first :: r.rest).map Vertex.at

/-- The last vertex before the ring closes. -/
def Ring.last (r : Ring) : Position := lastOf r.first.at r.rest

/-- The ring ends where it starts. -/
def Ring.Closed (r : Ring) : Prop := r.last = r.first.at

/-- The shape as a reader is to draw it. -/
def Shape.parts : Shape → List Part
  | .points vertices => vertices.map fun v => { vertices := [v.at], closed := false }
  | .lines ls => ls.map fun l => { vertices := l.vertices, closed := false }
  | .polygon rings => rings.map fun r => { vertices := r.vertices, closed := true }

/-- The rings as they are drawn with the cursor off by `d`. -/
def drawnRings (d : Position) : List Ring → List Part
  | [] => []
  | r :: rest =>
    { vertices := r.vertices.map (shift d), closed := true } ::
      drawnRings (d.1 + (r.last.1 - r.first.x), d.2 + (r.last.2 - r.first.y)) rest

/-- The shape as a reader does draw it. -/
def Shape.drawn : Shape → List Part
  | .polygon rings => drawnRings (0, 0) rings
  | s => s.parts

/-- Each ring but the last ends where it starts. -/
def Shape.Faithful : Shape → Prop
  | .polygon rings => ∀ r ∈ rings.dropLast, r.Closed
  | _ => True

theorem shift_zero : shift (0, 0) = id := by
  funext p
  simp [shift]

/-! ## The numbers of a geometry -/

/-- The position is the origin or a vertex. -/
def InTile (p : Position) : Prop := (-4 ≤ p.1 ∧ p.1 ≤ 4100) ∧ -4 ≤ p.2 ∧ p.2 ≤ 4100

def stepNumbers (p : Position) (v : Vertex) : List Nat :=
  [zigzag32 (v.x - p.1), zigzag32 (v.y - p.2)]

def vertexNumbers (p : Position) : List Vertex → List Nat
  | [] => []
  | v :: rest => stepNumbers p v ++ vertexNumbers v.at rest

def lineNumbers (p : Position) (first : Vertex) (rest : List Vertex) : List Nat :=
  9 :: stepNumbers p first ++ (rest.length * 8 + 2) :: vertexNumbers first.at rest

def pointNumbers (p : Position) : List Vertex → List Nat
  | [] => []
  | v :: rest => 9 :: stepNumbers p v ++ pointNumbers v.at rest

def linesNumbers (p : Position) : List Line → List Nat
  | [] => []
  | l :: rest => lineNumbers p l.first l.rest ++ linesNumbers (lastOf l.first.at l.rest) rest

def ringsNumbers (p : Position) : List Ring → List Nat
  | [] => []
  | r :: rest => lineNumbers p r.first r.rest ++ 15 :: ringsNumbers r.first.at rest

def Shape.numbers : Shape → List Nat
  | .points vertices => pointNumbers (0, 0) vertices
  | .lines ls => linesNumbers (0, 0) ls
  | .polygon rings => ringsNumbers (0, 0) rings

section

variable {p d : Position} {out : Bytes}

theorem inTile_at (v : Vertex) : InTile v.at := v.inside

theorem inTile_lastOf (hp : InTile p) (vs : List Vertex) : InTile (lastOf p vs) := by
  induction vs generalizing p with
  | nil => exact hp
  | cons v vs ih => exact ih (inTile_at v)

theorem step_eq (p : Position) (v : Vertex) : step p v = (stepNumbers p v).flatMap varint := by
  simp [step, stepNumbers]

theorem command_eq (count : Nat) : varint (count <<< 3 ||| lineTo) = varint (count * 8 + 2) := by
  have hor := Nat.two_pow_add_eq_or_of_lt (i := 3) (b := 2) (by decide) count
  unfold lineTo
  rw [Nat.shiftLeft_eq, Nat.mul_comm count, ← hor, Nat.mul_comm]

theorem emitVertices_eq (out : Bytes) (p : Position) (vs : List Vertex) :
    emitVertices out p vs = (out ++ (vertexNumbers p vs).flatMap varint, lastOf p vs) := by
  induction vs generalizing out p with
  | nil => simp [emitVertices, vertexNumbers, lastOf]
  | cons v vs ih =>
    rw [emitVertices, ih, step_eq, vertexNumbers, flatMap_append, lastOf, append_assoc]

theorem emitLineCommands_eq (out : Bytes) (first : Vertex) (rest : List Vertex) (p : Position) :
    emitLineCommands out first rest p =
      (out ++ (lineNumbers p first rest).flatMap varint, lastOf first.at rest) := by
  unfold emitLineCommands lineNumbers
  rw [emitVertices_eq, command_eq, step_eq, flatMap_append, flatMap_cons, flatMap_cons]
  simp only [append_assoc]
  rfl

theorem encodePoints_eq (out : Bytes) (p : Position) (vs : List Vertex) :
    encodePoints out p vs = out ++ (pointNumbers p vs).flatMap varint := by
  induction vs generalizing out p with
  | nil => simp [encodePoints, pointNumbers]
  | cons v vs ih =>
    rw [encodePoints, ih, step_eq, pointNumbers, flatMap_append, flatMap_cons]
    simp only [append_assoc]
    rfl

theorem encodeLines_eq (out : Bytes) (p : Position) (ls : List Line) :
    encodeLines out p ls = out ++ (linesNumbers p ls).flatMap varint := by
  induction ls generalizing out p with
  | nil => simp [encodeLines, linesNumbers]
  | cons l ls ih =>
    rw [encodeLines, emitLineCommands_eq]
    dsimp only
    rw [ih, linesNumbers, flatMap_append, append_assoc]

theorem encodeRings_eq (out : Bytes) (p : Position) (rs : List Ring) :
    encodeRings out p rs = out ++ (ringsNumbers p rs).flatMap varint := by
  induction rs generalizing out p with
  | nil => simp [encodeRings, ringsNumbers]
  | cons r rs ih =>
    unfold encodeRings emitRingCommands
    rw [emitLineCommands_eq]
    dsimp only
    rw [ih, ringsNumbers, flatMap_append, flatMap_cons]
    simp only [append_assoc]
    rfl

theorem encode_eq (s : Shape) : s.encode = s.numbers.flatMap varint := by
  cases s with
  | points vertices => exact encodePoints_eq [] (0, 0) vertices
  | lines ls => exact encodeLines_eq [] (0, 0) ls
  | polygon rings => exact encodeRings_eq [] (0, 0) rings

end

/-! ## The reader's pen -/

section

variable {p d : Position} {parts : List Part} {part : Part}

theorem shift_step (d p : Position) (v : Vertex) (hp : InTile p) :
    ((shift d p).1 + unzigzag (zigzag32 (v.x - p.1)),
      (shift d p).2 + unzigzag (zigzag32 (v.y - p.2))) = shift d v.at := by
  obtain ⟨⟨hx0, hx1⟩, hy0, hy1⟩ := hp
  obtain ⟨⟨hvx0, hvx1⟩, hvy0, hvy1⟩ := v.inside
  rw [unzigzag_zigzag32 (by omega) (by omega), unzigzag_zigzag32 (by omega) (by omega)]
  unfold shift Vertex.at
  ext <;> dsimp only <;> omega

theorem onLast_append (f : Part → Part) (parts : List Part) (part : Part) :
    onLast f (parts ++ [part]) = some (parts ++ [f part]) := by
  unfold onLast
  rw [getLast?_append, getLast?_singleton, dropLast_concat]
  rfl

theorem read_first (hp : InTile p) (v : Vertex) :
    (9 :: stepNumbers p v).foldlM read { cursor := shift d p, parts := parts } =
      some { cursor := shift d v.at, parts := parts ++ [⟨[shift d v.at], false⟩] } := by
  have hstep := shift_step d p v hp
  rw [stepNumbers, foldlM_cons]
  change draw _ true 1 ((shift d p).1 + unzigzag (zigzag32 (v.x - p.1)),
    (shift d p).2 + unzigzag (zigzag32 (v.y - p.2))) >>= _ = _
  rw [hstep]
  rfl

/-- A vertex of `LineTo`. -/
theorem read_next (hp : InTile p) (v : Vertex) (count : Nat) :
    (stepNumbers p v).foldlM read
        { cursor := shift d p, parts := parts ++ [part], expects := .dx false count } =
      some {
        cursor := shift d v.at
        parts := parts ++ [{ part with vertices := part.vertices ++ [shift d v.at] }]
        expects := if count ≤ 1 then .command else .dx false (count - 1) } := by
  have hstep := shift_step d p v hp
  rw [stepNumbers]
  change draw _ false count ((shift d p).1 + unzigzag (zigzag32 (v.x - p.1)),
    (shift d p).2 + unzigzag (zigzag32 (v.y - p.2))) >>= _ = _
  rw [hstep]
  unfold draw
  rw [if_neg (by decide)]
  rw [onLast_append]
  rfl

theorem read_vertices (hp : InTile p) (vs : List Vertex) (hvs : vs ≠ []) :
    (vertexNumbers p vs).foldlM read
        { cursor := shift d p, parts := parts ++ [part], expects := .dx false vs.length } =
      some {
        cursor := shift d (lastOf p vs)
        parts := parts ++
          [{ part with vertices := part.vertices ++ vs.map fun v => shift d v.at }] } := by
  induction vs generalizing p part with
  | nil => exact absurd rfl hvs
  | cons v vs ih =>
    rw [vertexNumbers, foldlM_append, read_next hp, bind_eq_bind, bind_some]
    cases vs with
    | nil => rfl
    | cons w vs =>
      rw [if_neg (by simp), length_cons, Nat.add_sub_cancel,
        ih (inTile_at v) (cons_ne_nil w vs), map_cons (l := w :: vs)]
      simp only [append_assoc, singleton_append]
      rfl

theorem read_line (hp : InTile p) (first : Vertex) {rest : List Vertex} (hrest : rest ≠ []) :
    (lineNumbers p first rest).foldlM read { cursor := shift d p, parts := parts } =
      some {
        cursor := shift d (lastOf first.at rest)
        parts := parts ++ [⟨((first :: rest).map Vertex.at).map (shift d), false⟩] } := by
  have hpos : 0 < rest.length := length_pos_of_ne_nil hrest
  obtain ⟨count, hcount⟩ : ∃ count, rest.length = count + 1 := ⟨rest.length - 1, by omega⟩
  have hread : read
      { cursor := shift d first.at, parts := parts ++ [⟨[shift d first.at], false⟩] }
        (rest.length * 8 + 2) =
      some {
        cursor := shift d first.at
        parts := parts ++ [⟨[shift d first.at], false⟩]
        expects := .dx false rest.length } := by
    have hmod : (rest.length * 8 + 2) % 8 = 2 := by omega
    have hdiv : (rest.length * 8 + 2) / 8 = rest.length := by omega
    unfold Pen.read
    rw [hmod, hdiv, hcount]
    rfl
  rw [lineNumbers, foldlM_append, read_first hp, bind_eq_bind, bind_some, foldlM_cons, hread,
    bind_eq_bind, bind_some, read_vertices (inTile_at first) rest hrest, List.map_map]
  rfl

variable (d parts) in
theorem read_points (hp : InTile p) (vs : List Vertex) :
    ∃ cursor, (pointNumbers p vs).foldlM read { cursor := shift d p, parts := parts } =
      some { cursor := cursor, parts := parts ++ vs.map fun v => ⟨[shift d v.at], false⟩ } := by
  induction vs generalizing p parts with
  | nil => exact ⟨shift d p, by simp [pointNumbers]⟩
  | cons v vs ih =>
    obtain ⟨cursor, hread⟩ := ih (parts ++ [⟨[shift d v.at], false⟩]) (inTile_at v)
    refine ⟨cursor, ?_⟩
    rw [pointNumbers, foldlM_append, read_first hp, bind_eq_bind, bind_some, hread, append_assoc]
    rfl

variable (d parts) in
theorem read_lines (hp : InTile p) (ls : List Line) :
    ∃ cursor, (linesNumbers p ls).foldlM read { cursor := shift d p, parts := parts } =
      some { cursor := cursor
             parts := parts ++ ls.map fun l => ⟨l.vertices.map (shift d), false⟩ } := by
  induction ls generalizing p parts with
  | nil => exact ⟨shift d p, by simp [linesNumbers]⟩
  | cons l ls ih =>
    have hlast : InTile (lastOf l.first.at l.rest) := inTile_lastOf (inTile_at l.first) l.rest
    obtain ⟨cursor, hread⟩ := ih (parts ++ [⟨l.vertices.map (shift d), false⟩]) hlast
    refine ⟨cursor, ?_⟩
    rw [linesNumbers, foldlM_append, read_line hp l.first l.long, bind_eq_bind, bind_some]
    change (linesNumbers _ ls).foldlM read
      { cursor := _, parts := parts ++ [⟨l.vertices.map (shift d), false⟩] } = _
    rw [hread, append_assoc]
    rfl

variable (d parts) in
theorem read_rings (hp : InTile p) (rs : List Ring) :
    ∃ cursor, (ringsNumbers p rs).foldlM read { cursor := shift d p, parts := parts } =
      some { cursor := cursor, parts := parts ++ drawnRings d rs } := by
  induction rs generalizing p d parts with
  | nil => exact ⟨shift d p, by simp [ringsNumbers, drawnRings]⟩
  | cons r rs ih =>
    have hlong : r.rest ≠ [] := by
      intro h
      have hl := r.long
      rw [h] at hl
      exact absurd hl (by decide)
    obtain ⟨cursor, hread⟩ := ih
      (d.1 + (r.last.1 - r.first.x), d.2 + (r.last.2 - r.first.y))
      (parts ++ [⟨r.vertices.map (shift d), true⟩]) (inTile_at r.first)
    refine ⟨cursor, ?_⟩
    have hclose : read
        { cursor := shift d r.last, parts := parts ++ [⟨r.vertices.map (shift d), false⟩] } 15 =
        some { cursor := shift d r.last
               parts := parts ++ [⟨r.vertices.map (shift d), true⟩] } := by
      change (onLast _ (parts ++ [⟨r.vertices.map (shift d), false⟩])).map _ = _
      rw [onLast_append]
      rfl
    -- the reader is at the last vertex, the writer at the first
    have hcursor : shift d r.last =
        shift (d.1 + (r.last.1 - r.first.x), d.2 + (r.last.2 - r.first.y)) r.first.at := by
      unfold shift Vertex.at
      ext <;> dsimp only <;> omega
    rw [ringsNumbers, foldlM_append, read_line hp r.first hlong, bind_eq_bind,
      bind_some, foldlM_cons]
    change read { cursor := shift d r.last,
                      parts := parts ++ [⟨r.vertices.map (shift d), false⟩] } 15 >>= _ = _
    rw [hclose, bind_eq_bind, bind_some, hcursor, hread, drawnRings, append_assoc]
    rfl

theorem decodeGeometry_encode (s : Shape) : decodeGeometry s.encode = some s.drawn := by
  have horigin : InTile (0, 0) := by simp [InTile]
  have hread : ∃ cursor, s.numbers.foldlM read {} =
      some { cursor := cursor, parts := s.drawn } := by
    cases s with
    | points vertices =>
      obtain ⟨cursor, hread⟩ := read_points (0, 0) [] horigin vertices
      rw [shift_zero] at hread
      exact ⟨cursor, hread⟩
    | lines ls =>
      obtain ⟨cursor, hread⟩ := read_lines (0, 0) [] horigin ls
      simp only [shift_zero, List.map_id] at hread
      exact ⟨cursor, hread⟩
    | polygon rings =>
      obtain ⟨cursor, hread⟩ := read_rings (0, 0) [] horigin rings
      rw [shift_zero] at hread
      exact ⟨cursor, hread⟩
  obtain ⟨cursor, hread⟩ := hread
  unfold decodeGeometry
  rw [encode_eq, readAll_numbers, bind_eq_bind, bind_some, hread]
  rfl

end

/-! ## When the drawing is right -/

theorem shift_eq_self {d p : Position} (h : shift d p = p) : d = (0, 0) := by
  have h1 := congrArg Prod.fst h
  have h2 := congrArg Prod.snd h
  dsimp only [shift] at h1 h2
  ext <;> dsimp only <;> omega

theorem drawnRings_eq_iff (rings : List Ring) :
    drawnRings (0, 0) rings = (Shape.polygon rings).parts ↔ (Shape.polygon rings).Faithful := by
  induction rings with
  | nil => simp [drawnRings, Shape.parts, Shape.Faithful]
  | cons r rings ih =>
    have hhead : r.vertices.map (shift (0, 0)) = r.vertices := by rw [shift_zero, List.map_id]
    cases rings with
    | nil => simp [drawnRings, Shape.parts, Shape.Faithful, hhead]
    | cons r' rings =>
      unfold Shape.Faithful at ih ⊢
      dsimp only at ih ⊢
      rw [dropLast_cons_cons, forall_mem_cons, ← ih]
      change { vertices := r.vertices.map (shift (0, 0)), closed := true } ::
        drawnRings _ (r' :: rings) = { vertices := r.vertices, closed := true } ::
          (Shape.polygon (r' :: rings)).parts ↔ _
      rw [hhead, List.cons.injEq, and_iff_right rfl]
      constructor
      · intro h
        -- the next ring starts where it should only if nothing is off
        have hfirst : shift ((0 : Int) + (r.last.1 - r.first.x), (0 : Int) + (r.last.2 - r.first.y))
            r'.first.at = r'.first.at := by
          have hvertices := congrArg (fun ps => (ps.head?.map Part.vertices).getD []) h
          exact (List.cons.inj hvertices).1
        have hzero := shift_eq_self hfirst
        rw [Prod.mk.injEq] at hzero
        obtain ⟨hx, hy⟩ := hzero
        refine ⟨Prod.ext ?_ ?_, ?_⟩
        · change r.last.1 = r.first.x
          omega
        · change r.last.2 = r.first.y
          omega
        · rw [hx, hy] at h
          exact h
      · rintro ⟨hclosed, hrest⟩
        have hx : (0 : Int) + (r.last.1 - r.first.x) = 0 := by
          rw [show r.last.1 = r.first.x from congrArg Prod.fst hclosed]
          omega
        have hy : (0 : Int) + (r.last.2 - r.first.y) = 0 := by
          rw [show r.last.2 = r.first.y from congrArg Prod.snd hclosed]
          omega
        rw [hx, hy]
        exact hrest

theorem drawn_eq_iff (s : Shape) : s.drawn = s.parts ↔ s.Faithful := by
  cases s with
  | points vertices => exact iff_of_true rfl trivial
  | lines ls => exact iff_of_true rfl trivial
  | polygon rings => exact drawnRings_eq_iff rings

end WebGis.Tiles
