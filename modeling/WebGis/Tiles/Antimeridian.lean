/-
  Splitting a line at the antimeridian: `_unwrap_along`, `_rewrap` and `_split_line` of `mvt.py`,
  over rational numbers.

  The longitudes are unwrapped along the line, each vertex taken at the one of three shifts
  that is nearest to the vertex before it; the walk is cut where an edge passes a meridian
  that is 180 modulo 360, and each piece is shifted back. What a split is for is stated apart
  from the code: the pieces, shifted by whole turns, join to a path along the edges of the line,
  each taken its shorter way (`Faithful`).
-/
import Mathlib

namespace WebGis.Tiles

open List
open Option hiding max_eq_left max_eq_right min_eq_left min_eq_right

/-- A vertex: longitude and latitude. -/
structure Pos where
  lon : ℚ
  lat : ℚ
  deriving DecidableEq

/-! ## The code -/

/-- `min((lon + 360.0 * k for k in (-1, 0, 1)), key=lambda v: abs(v - ua))`: the first of the
    shifts that are nearest. -/
def nearest (ua lon : ℚ) : ℚ :=
  [lon, lon + 360].foldl (fun best v => if |v - ua| < |best - ua| then v else best) (lon - 360)

/-- The vertices after one that is already unwrapped. -/
def unwrapFrom : Pos → List Pos → List Pos
  | _, [] => []
  | u, b :: rest =>
    let ub : Pos := ⟨nearest u.lon b.lon, b.lat⟩
    ub :: unwrapFrom ub rest

/-- `_unwrap_along(pts, closed)`; nothing for a closed walk that does not return to its turn. -/
def unwrapAlong (pts : List Pos) (closed : Bool) : Option (List Pos) :=
  match pts with
  | [] => none
  | p :: rest =>
    let unwrapped := p :: unwrapFrom p rest
    if closed ∧ |((unwrapped.getLast?.map Pos.lon).getD p.lon) - p.lon| > 180 then none
    else some unwrapped

/-- `max(lons)` and `min(lons)` for a list that is not empty. -/
def maxLon (p : Pos) (seg : List Pos) : ℚ := seg.foldl (fun m q => max m q.lon) p.lon

def minLon (p : Pos) (seg : List Pos) : ℚ := seg.foldl (fun m q => min m q.lon) p.lon

/-- The vertex `k` turns further east. -/
def Pos.turn (k : ℤ) (p : Pos) : Pos := ⟨p.lon + 360 * k, p.lat⟩

/-- The turn in which a piece lies, by the middle of its longitudes. -/
def pieceBand (p : Pos) (seg : List Pos) : ℤ := ⌈(maxLon p seg + minLon p seg) / 2 / 360 - 1 / 2⌉

/-- `_rewrap(seg)` -/
def rewrap : List Pos → List Pos
  | [] => []
  | p :: seg => (p :: seg).map (Pos.turn (-pieceBand p seg))

/-- `math.floor((lon + 180.0) / 360.0)` -/
def bandOf (lon : ℚ) : ℤ := ⌊(lon + 180) / 360⌋

/-- A meridian lies on the edge, and the edge is longer than what counts as nothing. -/
def isCut (a b : Pos) : Bool :=
  max a.lon b.lon - min a.lon b.lon > 1 / 10 ^ 9 ∧
    bandOf (min a.lon b.lon) ≠ bandOf (max a.lon b.lon)

/-- The vertex at which an edge is cut. -/
def cutPoint (a b : Pos) : Pos :=
  let bd := 360 * (bandOf (max a.lon b.lon) : ℚ) - 180
  let t := (bd - a.lon) / (b.lon - a.lon)
  ⟨bd, a.lat + t * (b.lat - a.lat)⟩

/-- The loop over the edges, `cur` being the piece so far and `a` its last vertex. -/
def cutWalk : List Pos → Pos → List Pos → List (List Pos)
  | cur, _, [] => if cur.length ≥ 2 then [cur] else []
  | cur, a, b :: rest =>
    if isCut a b then (cur ++ [cutPoint a b]) :: cutWalk [cutPoint a b, b] b rest
    else cutWalk (cur ++ [b]) b rest

/-- `_polyline_crosses_am(pts)` -/
def polylineCrossesAm (pts : List Pos) : Bool :=
  pts.length ≥ 2 ∧ (pts.zip pts.tail).any fun e => |e.2.lon - e.1.lon| > 180

/-- `_split_line(coords)` -/
def splitLine (coords : List Pos) : List (List Pos) :=
  if coords.length < 2 then [coords]
  else if ¬ polylineCrossesAm coords then [coords]
  else
    match unwrapAlong coords false with
    | none => [coords]
    | some [] => [coords]
    | some (p :: unwrapped) =>
      let out := ((cutWalk [p] p unwrapped).filter fun piece => piece.length ≥ 2).map rewrap
      if out = [] then [coords] else out

/-! ## What a split is for -/

/-- The edges are at most half a turn long. -/
def Short (w : List Pos) : Prop := w.IsChain fun a b => |b.lon - a.lon| ≤ 180

/-- `c` lies on the edge from `a` to `b`. -/
def OnEdge (a c b : Pos) : Prop :=
  ∃ t : ℚ, 0 ≤ t ∧ t ≤ 1 ∧ c.lon = a.lon + t * (b.lon - a.lon) ∧ c.lat = a.lat + t * (b.lat - a.lat)

/-- The path `w` goes along the edges of the line, in order, and may stop on them. -/
inductive Traverses : List Pos → List Pos → Prop
  | nil : Traverses [] []
  | last (p : Pos) : Traverses [p] [p]
  | edge {a b : Pos} {w line : List Pos} (h : Traverses (b :: w) (b :: line)) :
      Traverses (a :: b :: w) (a :: b :: line)
  | stop {a b c : Pos} {w line : List Pos} (hc : OnEdge a c b)
      (h : Traverses (c :: w) (c :: b :: line)) : Traverses (a :: c :: w) (a :: b :: line)

/-- Vertex by vertex the same modulo a turn. -/
def SameMod (pts line : List Pos) : Prop := List.Forall₂ (fun p q => ∃ k : ℤ, q = p.turn k) pts line

/-- The pieces, each shifted by whole turns, join to a path along the line that takes each edge of
    the input its shorter way. -/
def Covers (pts : List Pos) (pieces : List (List Pos)) : Prop :=
  ∃ (lifted : List (List Pos)) (line : List Pos),
    List.Forall₂ (fun piece l => ∃ k : ℤ, l = piece.map (Pos.turn k)) pieces lifted ∧
      lifted.IsChain (fun l l' => l.getLast? = l'.head?) ∧
      SameMod pts line ∧ Short line ∧ Traverses lifted.flatten line

/-- A faithful split. -/
structure Faithful (pts : List Pos) (pieces : List (List Pos)) : Prop where
  range : ∀ piece ∈ pieces, ∀ p ∈ piece, -180 ≤ p.lon ∧ p.lon ≤ 180
  short : ∀ piece ∈ pieces, Short piece
  covers : Covers pts pieces

/-! ## Lengths -/

/-- The way in longitude that a path goes. -/
def lonLength : List Pos → ℚ
  | a :: b :: w => |b.lon - a.lon| + lonLength (b :: w)
  | _ => 0

theorem OnEdge.abs_add {a c b : Pos} (h : OnEdge a c b) :
    |c.lon - a.lon| + |b.lon - c.lon| = |b.lon - a.lon| := by
  obtain ⟨t, h0, h1, hlon, -⟩ := h
  have hac : c.lon - a.lon = t * (b.lon - a.lon) := by rw [hlon]; ring
  have hcb : b.lon - c.lon = (1 - t) * (b.lon - a.lon) := by rw [hlon]; ring
  rw [hac, hcb, abs_mul, abs_mul, abs_of_nonneg h0, abs_of_nonneg (sub_nonneg.mpr h1)]
  ring

theorem Traverses.lonLength_eq {w line : List Pos} (h : Traverses w line) :
    lonLength w = lonLength line := by
  induction h with
  | nil => rfl
  | last p => rfl
  | edge h ih => rw [lonLength, lonLength, ih]
  | stop hc h ih => rw [lonLength, lonLength, ih, lonLength, ← add_assoc, hc.abs_add]

theorem lonLength_append {w v : List Pos} (h : w.getLast? = v.head?) :
    lonLength (w ++ v) = lonLength w + lonLength v := by
  induction w with
  | nil => exact (zero_add _).symm
  | cons a w ih =>
    cases w with
    | nil =>
      cases v with
      | nil => cases h
      | cons b v =>
        obtain rfl : a = b := some.inj h
        simp [lonLength]
    | cons b w =>
      rw [getLast?_cons_cons] at h
      rw [cons_append, cons_append, lonLength, lonLength, add_assoc, ← ih h]
      rfl

theorem lonLength_flatten {pieces : List (List Pos)}
    (h : pieces.IsChain fun l l' => l.getLast? = l'.head?) (hne : ∀ l ∈ pieces, l ≠ []) :
    lonLength pieces.flatten = (pieces.map lonLength).sum := by
  induction pieces with
  | nil => rfl
  | cons l pieces ih =>
    rw [forall_mem_cons] at hne
    rw [flatten_cons, map_cons, sum_cons, ← ih h.tail hne.2]
    cases pieces with
    | nil => simp [lonLength]
    | cons l' pieces =>
      refine lonLength_append ?_
      obtain ⟨q, l', rfl⟩ := exists_cons_of_ne_nil (hne.2 l' mem_cons_self)
      exact h.rel

@[simp] theorem lonLength_turn (k : ℤ) (w : List Pos) :
    lonLength (w.map (Pos.turn k)) = lonLength w := by
  induction w with
  | nil => rfl
  | cons a w ih =>
    cases w with
    | nil => rfl
    | cons b w =>
      rw [map_cons, map_cons, lonLength, lonLength, ← ih]
      simp [Pos.turn]

theorem short_turn {k : ℤ} {w : List Pos} : Short (w.map (Pos.turn k)) ↔ Short w := by
  unfold Short
  rw [isChain_map]
  simp [Pos.turn]

theorem abs_le_of_turns {x y : ℚ} {k : ℤ} (h : y = x + 360 * k) (hx : |x| ≤ 180) : |x| ≤ |y| := by
  by_cases hk : k = 0
  · rw [h, hk, Int.cast_zero, mul_zero, add_zero]
  have hturn : (360 : ℚ) ≤ |360 * (k : ℚ)| := by
    have hone : (1 : ℚ) ≤ |(k : ℚ)| := by exact_mod_cast Int.one_le_abs hk
    rw [abs_mul, abs_of_pos (by norm_num : (0 : ℚ) < 360)]
    linarith
  have hsub : |360 * (k : ℚ)| ≤ |y| + |x| := by
    have he : 360 * (k : ℚ) = y - x := by rw [h]; ring
    rw [he]
    exact abs_sub y x
  linarith

theorem lonLength_le {pts line walk : List Pos} (hline : SameMod pts line)
    (hwalk : SameMod pts walk) (hshort : Short line) :
    lonLength line ≤ lonLength walk ∧ (lonLength walk = lonLength line → Short walk) := by
  induction hline generalizing walk with
  | nil =>
    cases hwalk
    exact ⟨le_rfl, fun _ => isChain_nil⟩
  | @cons p q pts line hq hline ih =>
    cases hwalk with
    | @cons _ r _ walk hr hwalk =>
      cases hline with
      | nil =>
        cases hwalk
        exact ⟨le_rfl, fun _ => isChain_singleton _⟩
      | @cons p' q' pts line hq' hline =>
        cases hwalk with
        | @cons _ r' _ walk hr' hwalk =>
          obtain ⟨hle, heq⟩ := ih (List.Forall₂.cons hr' hwalk) hshort.tail
          have hedge : |q'.lon - q.lon| ≤ 180 := hshort.rel
          have hway : |q'.lon - q.lon| ≤ |r'.lon - r.lon| := by
            obtain ⟨i, rfl⟩ := hq
            obtain ⟨i', rfl⟩ := hq'
            obtain ⟨j, rfl⟩ := hr
            obtain ⟨j', rfl⟩ := hr'
            refine abs_le_of_turns (k := (j' - j) - (i' - i)) ?_ hedge
            simp only [Pos.turn]
            push_cast
            ring
          rw [lonLength, lonLength]
          refine ⟨by linarith, fun he => ?_⟩
          refine isChain_cons_cons.mpr ⟨by linarith, heq (by linarith)⟩

/-! ## The walk -/

theorem nearest_turn (ua lon : ℚ) : ∃ k : ℤ, nearest ua lon = lon + 360 * k := by
  unfold nearest
  rw [foldl_cons, foldl_cons, foldl_nil]
  split_ifs
  · exact ⟨1, by norm_num⟩
  · exact ⟨0, by norm_num⟩
  · exact ⟨1, by norm_num⟩
  · exact ⟨-1, by push_cast; ring⟩

theorem sameMod_unwrapFrom (u : Pos) (rest : List Pos) : SameMod rest (unwrapFrom u rest) := by
  induction rest generalizing u with
  | nil => exact .nil
  | cons b rest ih =>
    obtain ⟨k, hk⟩ := nearest_turn u.lon b.lon
    exact .cons ⟨k, by rw [hk]; rfl⟩ (ih _)

theorem sameMod_refl (pts : List Pos) : SameMod pts pts :=
  forall₂_same.mpr fun p _ => ⟨0, by simp [Pos.turn]⟩

/-! ## The cuts -/

theorem bandOf_le (lon : ℚ) : 360 * (bandOf lon : ℚ) - 180 ≤ lon := by
  have := Int.floor_le ((lon + 180) / 360)
  unfold bandOf
  linarith

theorem lt_bandOf (lon : ℚ) : lon < 360 * (bandOf lon : ℚ) + 180 := by
  have := Int.lt_floor_add_one ((lon + 180) / 360)
  unfold bandOf
  linarith

theorem bandOf_mono {x y : ℚ} (h : x ≤ y) : bandOf x ≤ bandOf y :=
  Int.floor_le_floor (by linarith)

theorem bandOf_lt_of_isCut {a b : Pos} (h : isCut a b) :
    bandOf (min a.lon b.lon) + 1 ≤ bandOf (max a.lon b.lon) := by
  unfold isCut at h
  simp only [Bool.decide_and, Bool.and_eq_true, decide_eq_true_eq] at h
  have hmono : bandOf (min a.lon b.lon) ≤ bandOf (max a.lon b.lon) := bandOf_mono min_le_max
  omega

theorem isCut_bounds {a b : Pos} (h : isCut a b) :
    min a.lon b.lon < (cutPoint a b).lon ∧ (cutPoint a b).lon ≤ max a.lon b.lon := by
  have hcast : (bandOf (min a.lon b.lon) : ℚ) + 1 ≤ bandOf (max a.lon b.lon) := by
    exact_mod_cast bandOf_lt_of_isCut h
  have hlow := lt_bandOf (min a.lon b.lon)
  refine ⟨?_, bandOf_le _⟩
  show min a.lon b.lon < 360 * (bandOf (max a.lon b.lon) : ℚ) - 180
  linarith

theorem bandOf_of_isCut {a b : Pos} (hshort : |b.lon - a.lon| ≤ 180) (h : isCut a b) :
    bandOf (max a.lon b.lon) = bandOf (min a.lon b.lon) + 1 := by
  refine le_antisymm (Int.lt_add_one_iff.mp ?_) (bandOf_lt_of_isCut h)
  have hlow := lt_bandOf (min a.lon b.lon)
  have hhigh := bandOf_le (max a.lon b.lon)
  have hdiff : max a.lon b.lon - min a.lon b.lon = |b.lon - a.lon| := max_sub_min_eq_abs _ _
  have hlt : (bandOf (max a.lon b.lon) : ℚ) < bandOf (min a.lon b.lon) + 1 + 1 := by linarith
  exact_mod_cast hlt

theorem onEdge_cutPoint {a b : Pos} (h : isCut a b) : OnEdge a (cutPoint a b) b := by
  obtain ⟨hlow, hhigh⟩ := isCut_bounds h
  have hlon : (cutPoint a b).lon = 360 * (bandOf (max a.lon b.lon) : ℚ) - 180 := rfl
  have hne : b.lon - a.lon ≠ 0 := by
    intro he
    have hab : b.lon = a.lon := by linarith
    rw [hab, min_self] at hlow
    rw [hab, max_self] at hhigh
    linarith
  refine ⟨((cutPoint a b).lon - a.lon) / (b.lon - a.lon), ?_, ?_, ?_, rfl⟩
  · rcases le_total a.lon b.lon with hab | hab
    · rw [min_eq_left hab] at hlow
      exact div_nonneg (by linarith) (by linarith)
    · rw [max_eq_left hab] at hhigh
      exact div_nonneg_of_nonpos (by linarith) (by linarith)
  · rcases le_total a.lon b.lon with hab | hab
    · rw [max_eq_right hab] at hhigh
      exact div_le_one_of_le₀ (by linarith) (by linarith)
    · rw [min_eq_right hab] at hlow
      exact div_le_one_of_ge (by linarith) (by linarith)
  · rw [div_mul_cancel₀ _ hne]
    ring

theorem onEdge_self (c b : Pos) : OnEdge c c b := ⟨0, le_rfl, zero_le_one, by ring, by ring⟩

section Walk

variable {cur rest : List Pos} {a : Pos}

theorem cutWalk_cons (cur rest : List Pos) (a : Pos) (hcur : cur ≠ [])
    (hlen : 2 ≤ cur.length ∨ rest ≠ []) :
    (∀ piece ∈ cutWalk cur a rest, 2 ≤ piece.length) ∧
      ∃ more pieces, cutWalk cur a rest = (cur ++ more) :: pieces := by
  have hpos := length_pos_iff.mpr hcur
  induction rest generalizing cur a with
  | nil =>
    have htwo := hlen.resolve_right (fun h => h rfl)
    rw [cutWalk, if_pos htwo]
    refine ⟨fun piece hp => ?_, [], [], by rw [append_nil]⟩
    rw [mem_singleton.mp hp]
    exact htwo
  | cons b rest ih =>
    unfold cutWalk
    split
    · have hnext := ih [cutPoint a b, b] b (cons_ne_nil _ _) (.inl (le_refl 2))
        Nat.two_pos
      refine ⟨fun piece hp => ?_, _, _, rfl⟩
      rcases mem_cons.mp hp with rfl | hp
      · rw [length_append, length_singleton]
        omega
      · exact hnext.1 piece hp
    · have htwo : 2 ≤ (cur ++ [b]).length := by
        rw [length_append, length_singleton]
        omega
      obtain ⟨hall, more, pieces, he⟩ := ih (cur ++ [b]) b
        (append_ne_nil_of_right_ne_nil _ (cons_ne_nil _ _)) (.inl htwo) (by omega)
      exact ⟨hall, [b] ++ more, pieces, by rw [he, append_assoc]⟩

theorem cutWalk_ne_nil {piece : List Pos} (hcur : cur ≠ []) (hlen : 2 ≤ cur.length ∨ rest ≠ [])
    (h : piece ∈ cutWalk cur a rest) : piece ≠ [] := by
  have htwo := (cutWalk_cons cur rest a hcur hlen).1 piece h
  rintro rfl
  exact absurd htwo (by decide)

theorem cutWalk_isChain (cur : List Pos) (a : Pos) (hcur : cur ≠ [])
    (hlen : 2 ≤ cur.length ∨ rest ≠ []) :
    (cutWalk cur a rest).IsChain fun l l' => l.getLast? = l'.head? := by
  induction rest generalizing cur a with
  | nil =>
    have htwo := hlen.resolve_right (fun h => h rfl)
    rw [cutWalk, if_pos htwo]
    exact isChain_singleton _
  | cons b rest ih =>
    unfold cutWalk
    split
    · have hnext := ih [cutPoint a b, b] b (cons_ne_nil _ _) (.inl (le_refl 2))
      obtain ⟨-, more, pieces, he⟩ := cutWalk_cons [cutPoint a b, b] rest b
        (cons_ne_nil _ _) (.inl (le_refl 2))
      rw [he] at hnext ⊢
      exact isChain_cons_cons.mpr ⟨by simp, hnext⟩
    · have htwo : 2 ≤ (cur ++ [b]).length := by
        have := length_pos_iff.mpr hcur
        rw [length_append, length_singleton]
        omega
      exact ih _ _ (append_ne_nil_of_right_ne_nil _ (cons_ne_nil _ _)) (.inl htwo)

theorem cutWalk_traverses (cur : List Pos) (a : Pos) (hcur : cur ≠ [])
    (hlen : 2 ≤ cur.length ∨ rest ≠ []) :
    ∃ path, (cutWalk cur a rest).flatten = cur ++ path ∧ Traverses (a :: path) (a :: rest) := by
  induction rest generalizing cur a with
  | nil =>
    have htwo := hlen.resolve_right (fun h => h rfl)
    rw [cutWalk, if_pos htwo]
    exact ⟨[], by simp, .last a⟩
  | cons b rest ih =>
    unfold cutWalk
    split
    · rename_i hcut
      obtain ⟨path, he, htrav⟩ := ih [cutPoint a b, b] b (cons_ne_nil _ _)
        (.inl (le_refl 2))
      refine ⟨cutPoint a b :: cutPoint a b :: b :: path, ?_, ?_⟩
      · rw [flatten_cons, he]
        simp
      · exact .stop (onEdge_cutPoint hcut) (.stop (onEdge_self _ _) (.edge htrav))
    · have htwo : 2 ≤ (cur ++ [b]).length := by
        have := length_pos_iff.mpr hcur
        rw [length_append, length_singleton]
        omega
      obtain ⟨path, he, htrav⟩ := ih (cur ++ [b]) b
        (append_ne_nil_of_right_ne_nil _ (cons_ne_nil _ _)) (.inl htwo)
      exact ⟨b :: path, by rw [he, append_assoc]; rfl, .edge htrav⟩

theorem short_snoc (hcur : Short cur) (hlast : cur.getLast? = some a) {c : Pos}
    (h : |c.lon - a.lon| ≤ 180) : Short (cur ++ [c]) := by
  refine List.IsChain.append hcur (isChain_singleton c) fun x hx y hy => ?_
  obtain rfl : a = x := some.inj (hlast.symm.trans hx)
  obtain rfl : c = y := some.inj hy
  exact h

theorem cutWalk_short (hcur : Short cur) (hlast : cur.getLast? = some a) (h : Short (a :: rest)) :
    ∀ piece ∈ cutWalk cur a rest, Short piece := by
  induction rest generalizing cur a with
  | nil =>
    intro piece hp
    unfold cutWalk at hp
    split at hp
    · rwa [mem_singleton.mp hp]
    · cases hp
  | cons b rest ih =>
    obtain ⟨hab, hrest⟩ := isChain_cons_cons.mp h
    intro piece hp
    unfold cutWalk at hp
    split at hp
    · rename_i hcut
      have hadd := (onEdge_cutPoint hcut).abs_add
      have hac : |(cutPoint a b).lon - a.lon| ≤ 180 := by
        have := abs_nonneg (b.lon - (cutPoint a b).lon)
        linarith
      have hcb : |b.lon - (cutPoint a b).lon| ≤ 180 := by
        have := abs_nonneg ((cutPoint a b).lon - a.lon)
        linarith
      rcases mem_cons.mp hp with rfl | hp
      · exact short_snoc hcur hlast hac
      · exact ih (isChain_pair.mpr hcb) rfl hrest piece hp
    · exact ih (short_snoc hcur hlast hab) (by simp) hrest piece hp

end Walk

end WebGis.Tiles
