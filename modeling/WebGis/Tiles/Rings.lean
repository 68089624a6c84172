/-
  Splitting a ring at the antimeridian: `_split_ring` of `mvt.py`.

  The closed walk is cut like a line, and the arc between two consecutive cuts is closed along
  the meridian. The closing edges cancel when all cuts lie on one meridian, so the arcs have
  together the signed area of the ring (`sum_shoelace_arcs`). Their absolute areas add up to that
  of the ring exactly when all arcs run round the same way (`splitRing_keeps_iff`). An arc that
  lies within another one runs the other way, and what it encloses is counted instead of left
  out (`bay_filled`).
-/
import WebGis.Tiles.Lines

namespace WebGis.Tiles

open List Pos
open Option hiding le_min max_eq_left max_eq_right max_le min_eq_left min_eq_right

/-! ## The code -/

/-- `_ring_crosses_am(pts)` -/
def ringCrossesAm (pts : List Pos) : Bool :=
  pts.length ≥ 3 ∧
    (pts.zip pts.tail ++ (pts.getLast?.bind fun q => pts.head?.map fun p => (q, p)).toList).any
      fun e => |e.2.lon - e.1.lon| > 180

/-- The vertices without repetitions of the one before. -/
def dropRepeats : List Pos → List Pos
  | a :: b :: w => if a = b then dropRepeats (b :: w) else a :: dropRepeats (b :: w)
  | w => w

/-- The ring with its first vertex at the end. -/
def closeRing (ring : List Pos) : List Pos :=
  if ring.head? ≠ ring.getLast? then ring ++ ring.head?.toList else ring

/-- `_normalize_ring(coords)` -/
def normalizeRing (coords : List Pos) : Option (List Pos) :=
  if coords.length < 3 then none
  else
    let deduped := dropRepeats (closeRing coords)
    if deduped.length < 4 then none else some deduped

/-- The vertices of a ring without the repeated first one. -/
def openRing (ring : List Pos) : List Pos :=
  if ring ≠ [] ∧ ring.head? = ring.getLast? then ring.dropLast else ring

/-- The arcs between consecutive cuts; the last one goes through the start of the walk. -/
def ringArcs (pieces : List (List Pos)) : List (List Pos) :=
  pieces.tail.dropLast ++ [pieces.getLastD [] ++ pieces.headD []]

/-- The pieces of the closed walk; between them lie the cuts. -/
def ringPieces (p : Pos) (unwrapped : List Pos) : List (List Pos) :=
  cutWalk [p] p (unwrapped ++ [p])

/-- `_split_ring(ring)` -/
def splitRing (ring : List Pos) : List (List Pos) :=
  let pts := openRing ring
  if pts.length < 3 then [ring]
  else if ¬ ringCrossesAm pts then [ring]
  else
    match unwrapAlong pts true with
    | none => [ring]
    | some [] => [ring]
    | some (p :: unwrapped) =>
      if (ringPieces p unwrapped).length - 1 < 2 then [ring]
      else
        let subs := (ringArcs (ringPieces p unwrapped)).filterMap fun seg =>
          normalizeRing (rewrap seg)
        if subs = [] then [ring] else subs

/-! ## Areas -/

def cross (a b : Pos) : ℚ := a.lon * b.lat - b.lon * a.lat

/-- The sum of the cross products along a path. -/
def pathCross : List Pos → ℚ
  | a :: b :: w => cross a b + pathCross (b :: w)
  | _ => 0

/-- `_shoelace(pts)` -/
def shoelace (ring : List Pos) : ℚ := pathCross (ring ++ ring.head?.toList) / 2

/-- A split keeps the ring: its sub-rings lie within the range, and their areas add up to that of
    the unwrapped ring. -/
structure KeepsRing (walk : List Pos) (subs : List (List Pos)) : Prop where
  range : ∀ sub ∈ subs, ∀ p ∈ sub, -180 ≤ p.lon ∧ p.lon ≤ 180
  area : (subs.map fun sub => |shoelace sub|).sum = |shoelace walk|

@[simp] theorem cross_self (a : Pos) : cross a a = 0 := by
  unfold cross
  ring

theorem cross_swap (a b : Pos) : cross b a = -cross a b := by
  unfold cross
  ring

theorem OnEdge.cross_add {a c b : Pos} (h : OnEdge a c b) : cross a c + cross c b = cross a b := by
  obtain ⟨t, -, -, hlon, hlat⟩ := h
  unfold cross
  rw [hlon, hlat]
  ring

theorem Traverses.pathCross_eq {w line : List Pos} (h : Traverses w line) :
    pathCross w = pathCross line := by
  induction h with
  | nil => rfl
  | last p => rfl
  | edge h ih => rw [pathCross, pathCross, ih]
  | stop hc h ih => rw [pathCross, pathCross, ih, pathCross, ← add_assoc, hc.cross_add]

theorem pathCross_snoc {w : List Pos} {a : Pos} (h : w.getLast? = some a) (b : Pos) :
    pathCross (w ++ [b]) = pathCross w + cross a b := by
  induction w with
  | nil => cases h
  | cons c w ih =>
    cases w with
    | nil =>
      obtain rfl : c = a := some.inj h
      simp [pathCross]
    | cons d w =>
      rw [getLast?_cons_cons] at h
      rw [cons_append, cons_append, pathCross, pathCross, add_assoc, ← ih h]
      rfl

theorem pathCross_append {w v : List Pos} (h : w.getLast? = v.head?) :
    pathCross (w ++ v) = pathCross w + pathCross v := by
  induction w with
  | nil => exact (zero_add _).symm
  | cons a w ih =>
    cases w with
    | nil =>
      cases v with
      | nil => cases h
      | cons b v =>
        obtain rfl : a = b := some.inj h
        simp [pathCross]
    | cons b w =>
      rw [getLast?_cons_cons] at h
      rw [cons_append, cons_append, pathCross, pathCross, add_assoc, ← ih h]
      rfl

theorem two_mul_shoelace {w : List Pos} {a b : Pos} (hhead : w.head? = some a)
    (hlast : w.getLast? = some b) : 2 * shoelace w = pathCross w + cross b a := by
  unfold shoelace
  rw [hhead, toList_some, pathCross_snoc hlast]
  ring

theorem pathCross_turn {w : List Pos} {a b : Pos} (hhead : w.head? = some a)
    (hlast : w.getLast? = some b) (k : ℤ) :
    pathCross (w.map (turn k)) = pathCross w + 360 * k * (b.lat - a.lat) := by
  induction w generalizing a with
  | nil => cases hhead
  | cons c w ih =>
    obtain rfl : c = a := some.inj hhead
    cases w with
    | nil =>
      obtain rfl : c = b := some.inj hlast
      simp [pathCross]
    | cons d w =>
      rw [getLast?_cons_cons] at hlast
      have hrest := ih rfl hlast
      rw [map_cons] at hrest
      rw [map_cons, map_cons, pathCross, pathCross, hrest]
      simp only [cross, turn]
      ring

theorem shoelace_turn (k : ℤ) (w : List Pos) : shoelace (w.map (turn k)) = shoelace w := by
  cases hw : w with
  | nil => rfl
  | cons a v =>
    obtain ⟨b, hlast⟩ : ∃ b, (a :: v).getLast? = some b := ⟨_, getLast?_cons⟩
    have hturn := pathCross_turn (w := a :: v) rfl hlast k
    have hmap : ((a :: v).map (turn k)).getLast? = some (b.turn k) := by
      rw [getLast?_map, hlast, map_some]
    have h2 := two_mul_shoelace (w := (a :: v).map (turn k)) (a := a.turn k) rfl hmap
    have h1 := two_mul_shoelace (w := a :: v) rfl hlast
    rw [hturn] at h2
    have hcross : cross (b.turn k) (a.turn k) = cross b a + 360 * k * (a.lat - b.lat) := by
      simp only [cross, turn]
      ring
    rw [hcross] at h2
    linarith

theorem shoelace_rewrap (w : List Pos) : shoelace (rewrap w) = shoelace w := by
  obtain ⟨k, hk⟩ := rewrap_eq w
  rw [hk, shoelace_turn]

/-! ## Normalized rings -/

theorem dropRepeats_spec (w : List Pos) :
    (dropRepeats w).head? = w.head? ∧ (dropRepeats w).getLast? = w.getLast? ∧
      pathCross (dropRepeats w) = pathCross w ∧ ∀ q, q ∈ dropRepeats w ↔ q ∈ w := by
  induction w with
  | nil => exact ⟨rfl, rfl, rfl, fun q => Iff.rfl⟩
  | cons a w ih =>
    cases w with
    | nil => exact ⟨rfl, rfl, rfl, fun q => Iff.rfl⟩
    | cons b w =>
      obtain ⟨hhead, hlast, hcross, hmem⟩ := ih
      by_cases hab : a = b
      · subst hab
        rw [dropRepeats, if_pos rfl, pathCross, cross_self, zero_add]
        refine ⟨hhead, hlast, hcross, fun q => (hmem q).trans ?_⟩
        simp
      · rw [dropRepeats, if_neg hab, getLast?_cons_cons]
        obtain ⟨c, v, hv⟩ : ∃ v c, dropRepeats (b :: w) = v :: c := by
          cases hd : dropRepeats (b :: w) with
          | nil =>
            rw [hd] at hhead
            cases hhead
          | cons c v => exact ⟨c, v, rfl⟩
        rw [hv] at hhead hlast hcross hmem ⊢
        obtain rfl : c = b := some.inj hhead
        refine ⟨rfl, by rw [getLast?_cons_cons, hlast], ?_, fun q => ?_⟩
        · rw [pathCross, hcross, pathCross]
        · rw [mem_cons, hmem, mem_cons (b := a)]

theorem closeRing_spec {ring : List Pos} {a : Pos} (hhead : ring.head? = some a) :
    (closeRing ring).head? = some a ∧ (closeRing ring).getLast? = some a ∧
      pathCross (closeRing ring) = 2 * shoelace ring ∧ ∀ q, q ∈ closeRing ring ↔ q ∈ ring := by
  have hmem : a ∈ ring := mem_of_mem_head? hhead
  unfold closeRing
  split
  · rw [hhead, toList_some]
    refine ⟨by rw [head?_append, hhead]; rfl, getLast?_concat, ?_, fun q => ?_⟩
    · unfold shoelace
      rw [hhead, toList_some]
      ring
    · rw [mem_append, mem_singleton, or_iff_left_of_imp]
      rintro rfl
      exact hmem
  · rename_i heq
    have hlast : ring.getLast? = some a := by rw [← not_not.mp heq, hhead]
    refine ⟨hhead, hlast, ?_, fun q => Iff.rfl⟩
    rw [two_mul_shoelace hhead hlast, cross_self, add_zero]

theorem pathCross_of_short {w : List Pos} (hclosed : w.head? = w.getLast?) (h : w.length < 4) :
    pathCross w = 0 := by
  match w with
  | [] => rfl
  | [a] => rfl
  | [a, b] =>
    obtain rfl : a = b := some.inj hclosed
    simp [pathCross]
  | [a, b, c] =>
    obtain rfl : a = c := some.inj hclosed
    simp only [pathCross, cross_swap b a]
    ring
  | a :: b :: c :: d :: w => exact absurd h (by simp)

theorem normalizeRing_spec (seg : List Pos) :
    match normalizeRing seg with
    | some sub => shoelace sub = shoelace seg ∧ ∀ q, q ∈ sub ↔ q ∈ seg
    | none => shoelace seg = 0 := by
  cases hseg : seg with
  | nil => exact zero_div _
  | cons a w =>
    obtain ⟨hhead, hlast, hcross, hmem⟩ := closeRing_spec (show (a :: w).head? = some a from rfl)
    obtain ⟨hhead', hlast', hcross', hmem'⟩ := dropRepeats_spec (closeRing (a :: w))
    rw [hhead] at hhead'
    rw [hlast] at hlast'
    have hdouble : pathCross (dropRepeats (closeRing (a :: w))) = 2 * shoelace (a :: w) :=
      hcross'.trans hcross
    unfold normalizeRing
    by_cases hthree : (a :: w).length < 3
    · rw [if_pos hthree]
      match w, hthree with
      | [], _ => simp [shoelace, pathCross]
      | [b], _ =>
        simp only [shoelace, head?_cons, toList_some, cons_append,
          nil_append, pathCross, cross_swap b a]
        ring
      | b :: c :: w, h => exact absurd h (by simp)
    · rw [if_neg hthree]
      by_cases hfour : (dropRepeats (closeRing (a :: w))).length < 4
      · rw [if_pos hfour]
        have hzero := pathCross_of_short (hhead'.trans hlast'.symm) hfour
        linarith
      · rw [if_neg hfour]
        refine ⟨?_, fun q => (hmem' q).trans (hmem q)⟩
        have h2 := two_mul_shoelace hhead' hlast'
        rw [cross_self, add_zero, hdouble] at h2
        exact mul_left_cancel₀ two_ne_zero h2

theorem turn_injective (k : ℤ) : Function.Injective (turn k) := by
  intro a b h
  cases a
  cases b
  simpa [turn] using h

theorem normalizeRing_turn (k : ℤ) (seg : List Pos) :
    normalizeRing (seg.map (turn k)) = (normalizeRing seg).map (List.map (turn k)) := by
  have hclose : closeRing (seg.map (turn k)) = (closeRing seg).map (turn k) := by
    have hiff : seg.head?.map (turn k) ≠ seg.getLast?.map (turn k) ↔
        seg.head? ≠ seg.getLast? := (Option.map_injective (turn_injective k)).ne_iff
    unfold closeRing
    rw [head?_map, getLast?_map]
    by_cases h : seg.head? ≠ seg.getLast?
    · rw [if_pos h, if_pos (hiff.mpr h), map_append]
      cases seg.head? <;> rfl
    · rw [if_neg h, if_neg (mt hiff.mp h)]
  have hdrop : ∀ w : List Pos,
      dropRepeats (w.map (turn k)) = (dropRepeats w).map (turn k) := by
    intro w
    induction w with
    | nil => rfl
    | cons a w ih =>
      cases w with
      | nil => rfl
      | cons b w =>
        rw [map_cons] at ih
        rw [map_cons, map_cons, dropRepeats, dropRepeats]
        by_cases h : a = b
        · rw [if_pos h, if_pos (congrArg _ h)]
          exact ih
        · rw [if_neg h, if_neg (mt (@turn_injective k a b) h), ih, map_cons]
  unfold normalizeRing
  rw [length_map, hclose, hdrop]
  dsimp only
  rw [length_map]
  split
  · rfl
  · split <;> rfl

/-! ## The arcs -/

section Cuts

variable {cur rest : List Pos} {a : Pos} {x : ℚ}

/-- The vertices at which the walk is cut: every piece but the first begins with one. -/
def ringCuts (pieces : List (List Pos)) : List Pos := pieces.tail.filterMap List.head?

theorem cutWalk_getLast (cur : List Pos) (hlast : cur.getLast? = some a)
    (hlen : 2 ≤ cur.length ∨ rest ≠ []) :
    (cutWalk cur a rest).getLast?.bind List.getLast? = (a :: rest).getLast? := by
  induction rest generalizing cur a with
  | nil =>
    rw [cutWalk, if_pos (hlen.resolve_right fun h => h rfl)]
    exact hlast
  | cons b rest ih =>
    rw [getLast?_cons_cons]
    unfold cutWalk
    split
    · have hnext : (cutWalk [cutPoint a b, b] b rest).getLast?.bind List.getLast? =
          (b :: rest).getLast? := ih _ rfl (.inl (le_refl 2))
      obtain ⟨-, more, pieces, he⟩ := cutWalk_cons [cutPoint a b, b] rest b
        (cons_ne_nil _ _) (.inl (le_refl 2))
      rw [he] at hnext ⊢
      rwa [getLast?_cons_cons]
    · have hpos : 0 < cur.length := length_pos_of_mem (mem_of_getLast? hlast)
      refine ih (cur ++ [b]) (by simp) (.inl ?_)
      rw [length_append, length_singleton]
      omega

end Cuts

theorem pathCross_flatten {pieces : List (List Pos)}
    (h : pieces.IsChain fun l l' => l.getLast? = l'.head?) (hne : ∀ l ∈ pieces, l ≠ []) :
    pathCross pieces.flatten = (pieces.map pathCross).sum := by
  induction pieces with
  | nil => rfl
  | cons l pieces ih =>
    rw [forall_mem_cons] at hne
    rw [flatten_cons, map_cons, sum_cons, ← ih h.tail hne.2]
    cases pieces with
    | nil => simp [pathCross]
    | cons l' pieces =>
      refine pathCross_append ?_
      obtain ⟨q, l', rfl⟩ := exists_cons_of_ne_nil (hne.2 l' mem_cons_self)
      exact h.rel

theorem sum_shoelace_mids {mids : List (List Pos)} {last : List Pos}
    (h : (mids ++ [last]).IsChain fun l l' => l.getLast? = l'.head?)
    (hne : ∀ l ∈ mids ++ [last], l ≠ []) :
    2 * (mids.map shoelace).sum =
      (mids.map pathCross).sum - pathCross ((mids ++ [last]).filterMap List.head?) := by
  induction mids with
  | nil =>
    obtain ⟨q, l, rfl⟩ := exists_cons_of_ne_nil (hne last mem_cons_self)
    simp [pathCross]
  | cons m mids ih =>
    rw [cons_append] at h hne ⊢
    rw [forall_mem_cons] at hne
    have hrest := ih h.tail hne.2
    obtain ⟨a, v, rfl⟩ := exists_cons_of_ne_nil hne.1
    obtain ⟨n, ns, hn⟩ : ∃ n ns, mids ++ [last] = n :: ns :=
      exists_cons_of_ne_nil (append_ne_nil_of_right_ne_nil _ (cons_ne_nil _ _))
    rw [hn] at h hne hrest ⊢
    obtain ⟨b, t, rfl⟩ := exists_cons_of_ne_nil (hne.2 n mem_cons_self)
    have htwo := two_mul_shoelace (w := a :: v) rfl h.rel
    have hheads : pathCross (((a :: v) :: (b :: t) :: ns).filterMap List.head?) =
        cross a b + pathCross (((b :: t) :: ns).filterMap List.head?) := rfl
    rw [hheads, map_cons, map_cons, sum_cons, sum_cons, mul_add, hrest, htwo, cross_swap a b]
    ring

section Walk

variable {p : Pos} {u : List Pos}

theorem ringPieces_eq (hu : u ≠ []) (hcut : 2 ≤ (ringPieces p u).length - 1) :
    ∃ first mids last, ringPieces p u = first :: (mids ++ [last]) ∧
      first.head? = some p ∧ last.getLast? = some p := by
  have hrest : u ++ [p] ≠ [] := append_ne_nil_of_left_ne_nil hu _
  obtain ⟨-, more, pieces, he⟩ := cutWalk_cons [p] (u ++ [p]) p (cons_ne_nil _ _) (.inr hrest)
  have hend := cutWalk_getLast [p] (a := p) rfl (.inr hrest)
  unfold ringPieces at hcut ⊢
  rw [he] at hcut hend ⊢
  have hpieces : pieces ≠ [] := by
    rintro rfl
    exact absurd hcut (by simp)
  refine ⟨_, pieces.dropLast, pieces.getLast hpieces, by rw [dropLast_append_getLast], rfl, ?_⟩
  rw [getLast?_cons, getLast?_eq_some_getLast hpieces] at hend
  exact hend.trans (getLast?_concat (l := p :: u))

theorem sum_shoelace_arcs (hu : u ≠ []) (hcut : 2 ≤ (ringPieces p u).length - 1) :
    ((ringArcs (ringPieces p u)).map shoelace).sum =
      shoelace (p :: u) - shoelace (ringCuts (ringPieces p u)) := by
  have hrest : u ++ [p] ≠ [] := append_ne_nil_of_left_ne_nil hu _
  obtain ⟨first, mids, last, he, hfirst, hlast⟩ := ringPieces_eq hu hcut
  have hchain : (first :: (mids ++ [last])).IsChain fun l l' => l.getLast? = l'.head? := by
    rw [← he]
    exact cutWalk_isChain [p] p (cons_ne_nil _ _) (.inr hrest)
  have hne : ∀ l ∈ first :: (mids ++ [last]), l ≠ [] := by
    rw [← he]
    exact fun l hl => cutWalk_ne_nil (cons_ne_nil _ _) (.inr hrest) hl
  obtain ⟨path, hflat, htrav⟩ := cutWalk_traverses [p] p (cons_ne_nil _ _) (.inr hrest)
  have hall : pathCross (first :: (mids ++ [last])).flatten = 2 * shoelace (p :: u) := by
    rw [← he, ringPieces, hflat]
    refine (htrav.pathCross_eq).trans ?_
    unfold shoelace
    rw [head?_cons, toList_some, cons_append]
    ring
  rw [pathCross_flatten hchain hne, map_cons, sum_cons, map_append, sum_append] at hall
  have hmids := sum_shoelace_mids hchain.tail fun l hl => hne l (mem_cons_of_mem _ hl)
  -- the cut at which the first piece ends, and the one with which the last piece begins
  obtain ⟨n, ns, hn⟩ : ∃ n ns, mids ++ [last] = n :: ns :=
    exists_cons_of_ne_nil (append_ne_nil_of_right_ne_nil _ (cons_ne_nil _ _))
  obtain ⟨c, t, rfl⟩ := exists_cons_of_ne_nil (hne n (by rw [hn]; simp))
  have hc : first.getLast? = some c := by
    rw [hn] at hchain
    exact hchain.rel
  obtain ⟨d, l, rfl⟩ := exists_cons_of_ne_nil (hne last (by simp))
  have hcuts : (ringCuts (ringPieces p u)) = (mids ++ [d :: l]).filterMap List.head? := by
    rw [he]
    rfl
  have hheadcut : (ringCuts (ringPieces p u)).head? = some c := by
    rw [hcuts, hn]
    rfl
  have hlastcut : (ringCuts (ringPieces p u)).getLast? = some d := by
    rw [hcuts, filterMap_append]
    exact getLast?_concat
  have hpolygon := two_mul_shoelace hheadcut hlastcut
  have hjoined : 2 * shoelace (d :: l ++ first) =
      pathCross (d :: l) + pathCross first + cross c d := by
    rw [two_mul_shoelace (a := d) (b := c) rfl, pathCross_append (hlast.trans hfirst.symm)]
    rw [getLast?_append, hc]
    rfl
  rw [← hcuts] at hmids
  have harcs : ringArcs (ringPieces p u) = mids ++ [d :: l ++ first] := by
    rw [he, ringArcs, tail_cons, dropLast_concat]
    congr 2
    rw [← cons_append, getLastD_concat]
    rfl
  rw [harcs, map_append, sum_append]
  rw [cross_swap c d] at hpolygon
  simp only [map_cons, map_nil, sum_cons, sum_nil, add_zero] at hall ⊢
  linarith

end Walk

/-! ## Rings -/

theorem sum_le_sum_abs (l : List ℚ) :
    l.sum ≤ (l.map fun x => |x|).sum ∧ ((l.map fun x => |x|).sum = l.sum → ∀ x ∈ l, 0 ≤ x) := by
  induction l with
  | nil => exact ⟨le_rfl, fun _ x hx => absurd hx not_mem_nil⟩
  | cons y l ih =>
    rw [map_cons, sum_cons, sum_cons, forall_mem_cons]
    have hy := le_abs_self y
    refine ⟨by linarith, fun h => ⟨?_, ih.2 (by linarith)⟩⟩
    exact abs_eq_self.mp (by linarith)

theorem sum_abs_of_nonneg {l : List ℚ} (h : ∀ x ∈ l, 0 ≤ x) :
    (l.map fun x => |x|).sum = |l.sum| := by
  rw [abs_of_nonneg (List.sum_nonneg h), map_congr_left fun x hx => abs_of_nonneg (h x hx), List.map_id']

theorem sum_abs_eq_iff (l : List ℚ) :
    (l.map fun x => |x|).sum = |l.sum| ↔ (∀ x ∈ l, 0 ≤ x) ∨ ∀ x ∈ l, x ≤ 0 := by
  have hneg : ((l.map fun x => -x).map fun x => |x|) = l.map fun x => |x| := by
    rw [List.map_map]
    exact map_congr_left fun x _ => abs_neg x
  have hsum : (l.map fun x => -x).sum = -l.sum := l.sum_neg.symm
  constructor
  · intro h
    rcases abs_choice l.sum with hs | hs
    · exact .inl ((sum_le_sum_abs l).2 (h.trans hs))
    refine .inr fun x hx => neg_nonneg.mp ?_
    refine (sum_le_sum_abs (l.map fun x => -x)).2 ?_ (-x) (List.mem_map_of_mem hx)
    rw [hneg, hsum, h, hs]
  · rintro (h | h)
    · exact sum_abs_of_nonneg h
    · have hall : ∀ x ∈ l.map fun x => -x, 0 ≤ x := by
        rw [List.forall_mem_map]
        exact fun x hx => neg_nonneg.mpr (h x hx)
      have habs := sum_abs_of_nonneg hall
      rwa [hneg, hsum, abs_neg] at habs

/-- All arcs run round the same way. -/
def OneWay (arcs : List (List Pos)) : Prop :=
  (∀ arc ∈ arcs, 0 ≤ shoelace arc) ∨ ∀ arc ∈ arcs, shoelace arc ≤ 0

/-- An arc that is not dropped lies in one turn. -/
def InTurns (arcs : List (List Pos)) : Prop :=
  ∀ arc ∈ arcs, normalizeRing arc ≠ none → ∃ m, ∀ q ∈ arc, InBand m q

section Arcs

variable (arcs : List (List Pos))

theorem sum_abs_subs :
    ((arcs.filterMap fun seg => normalizeRing (rewrap seg)).map fun sub => |shoelace sub|).sum =
      ((arcs.map shoelace).map fun x => |x|).sum := by
  induction arcs with
  | nil => rfl
  | cons arc arcs ih =>
    have hspec := normalizeRing_spec (rewrap arc)
    rw [shoelace_rewrap] at hspec
    rw [map_cons, map_cons, sum_cons, ← ih]
    cases hn : normalizeRing (rewrap arc) with
    | none =>
      rw [hn] at hspec
      simp only [filterMap_cons, hn]
      rw [hspec, abs_zero, zero_add]
    | some sub =>
      rw [hn] at hspec
      simp only [filterMap_cons, hn]
      rw [map_cons, sum_cons, hspec.1]

theorem subs_range :
    (∀ sub ∈ arcs.filterMap (fun seg => normalizeRing (rewrap seg)),
      ∀ q ∈ sub, -180 ≤ q.lon ∧ q.lon ≤ 180) ↔ InTurns arcs := by
  have hsub : ∀ arc sub, normalizeRing (rewrap arc) = some sub →
      ((∀ q ∈ sub, -180 ≤ q.lon ∧ q.lon ≤ 180) ↔ ∃ m, ∀ q ∈ arc, InBand m q) := by
    intro arc sub hn
    have hspec := normalizeRing_spec (rewrap arc)
    rw [hn] at hspec
    rw [← rewrap_range]
    exact forall_congr' fun q => imp_congr_left (hspec.2 q)
  constructor
  · intro h arc harc hne
    obtain ⟨k, hk⟩ := rewrap_eq arc
    obtain ⟨sub, hn⟩ : ∃ sub, normalizeRing (rewrap arc) = some sub := by
      refine ne_none_iff_exists'.mp fun hnone => hne ?_
      rwa [hk, normalizeRing_turn, map_eq_none_iff] at hnone
    exact (hsub arc sub hn).mp (h sub (mem_filterMap.mpr ⟨arc, harc, hn⟩))
  · intro h sub hin
    obtain ⟨arc, harc, hn⟩ := mem_filterMap.mp hin
    refine (hsub arc sub hn).mpr (h arc harc fun hnone => ?_)
    obtain ⟨k, hk⟩ := rewrap_eq arc
    rw [hk, normalizeRing_turn, hnone] at hn
    cases hn

end Arcs

/-- The ring is cut at least twice, and not all of its arcs are dropped. -/
def Split (pieces : List (List Pos)) : Prop :=
  2 ≤ pieces.length - 1 ∧ ∃ arc ∈ ringArcs pieces, normalizeRing arc ≠ none

/-- The absolute areas of the arcs add up to that of the ring. Where the polygon of the cuts
    encloses nothing, as it does when they lie on one meridian, the arcs run round the same way. -/
def ArcsKeep (pieces : List (List Pos)) : Prop :=
  InTurns (ringArcs pieces) ∧
    (shoelace (ringCuts pieces) = 0 → OneWay (ringArcs pieces)) ∧
      (shoelace (ringCuts pieces) ≠ 0 → ((ringArcs pieces).map fun arc => |shoelace arc|).sum =
          |((ringArcs pieces).map shoelace).sum + shoelace (ringCuts pieces)|)

theorem splitRing_eq {ring u : List Pos} {p : Pos} (hcross : ringCrossesAm (openRing ring))
    (hwalk : unwrapAlong (openRing ring) true = some (p :: u)) :
    u ≠ [] ∧
      (Split (ringPieces p u) → splitRing ring =
        (ringArcs (ringPieces p u)).filterMap fun seg => normalizeRing (rewrap seg)) ∧
      (¬ Split (ringPieces p u) → splitRing ring = [ring]) := by
  have hlen : ¬ (openRing ring).length < 3 := by
    simp only [ringCrossesAm, Bool.decide_and, Bool.and_eq_true, decide_eq_true_eq] at hcross
    exact not_lt.mpr hcross.1
  have hsubs : (ringArcs (ringPieces p u)).filterMap (fun seg => normalizeRing (rewrap seg)) = [] ↔
      ¬ ∃ arc ∈ ringArcs (ringPieces p u), normalizeRing arc ≠ none := by
    rw [filterMap_eq_nil_iff]
    push Not
    refine forall_congr' fun arc => imp_congr_right fun _ => ?_
    obtain ⟨k, hk⟩ := rewrap_eq arc
    rw [hk, normalizeRing_turn, map_eq_none_iff]
  refine ⟨?_, fun h => ?_, fun h => ?_⟩
  · rintro rfl
    cases hpts : openRing ring with
    | nil => exact hlen (by simp [hpts])
    | cons q rest =>
      rw [hpts] at hwalk hlen
      cases rest with
      | nil => exact hlen (by simp)
      | cons b rest =>
        unfold unwrapAlong at hwalk
        dsimp only at hwalk
        split at hwalk <;> simp [unwrapFrom] at hwalk
  · unfold splitRing
    rw [if_neg hlen, if_neg (not_not.mpr hcross), hwalk]
    dsimp only
    rw [if_neg (not_lt.mpr h.1), if_neg (mt hsubs.mp (not_not.mpr h.2))]
  · unfold splitRing
    rw [if_neg hlen, if_neg (not_not.mpr hcross), hwalk]
    dsimp only
    by_cases htwo : (ringPieces p u).length - 1 < 2
    · rw [if_pos htwo]
    · rw [if_neg htwo, if_pos (hsubs.mpr fun harc => h ⟨not_lt.mp htwo, harc⟩)]

/-- The edges of a ring, the closing one included. -/
def ringEdges (w : List Pos) : List (Pos × Pos) := w.zip (w.tail ++ w.head?.toList)

/-- Two edges of the ring meet in a common vertex only. -/
structure SimpleRing (w : List Pos) : Prop where
  nodup : w.Nodup
  meet : ∀ e ∈ ringEdges w, ∀ f ∈ ringEdges w, e ≠ f → ∀ q, OnEdge e.1 q e.2 → OnEdge f.1 q f.2 →
    e.2 = f.1 ∧ q = e.2 ∨ f.2 = e.1 ∧ q = f.2

/-- The corners of what the boxes of two edges have in common. -/
def boxLow (e f : Pos × Pos) : Pos :=
  ⟨max (min e.1.lon e.2.lon) (min f.1.lon f.2.lon), max (min e.1.lat e.2.lat) (min f.1.lat f.2.lat)⟩

def boxHigh (e f : Pos × Pos) : Pos :=
  ⟨min (max e.1.lon e.2.lon) (max f.1.lon f.2.lon), min (max e.1.lat e.2.lat) (max f.1.lat f.2.lat)⟩

/-- The boxes of the edges are apart, or they have a common vertex of the edges in common. -/
def Clear (e f : Pos × Pos) : Prop :=
  (boxHigh e f).lon < (boxLow e f).lon ∨ (boxHigh e f).lat < (boxLow e f).lat ∨
    boxHigh e f = boxLow e f ∧ (e.2 = f.1 ∧ boxLow e f = e.2 ∨ f.2 = e.1 ∧ boxLow e f = f.2)

instance (e f : Pos × Pos) : Decidable (Clear e f) := inferInstanceAs (Decidable (_ ∨ _ ∨ _))

theorem between_of_ratio {x y z t : ℚ} (h0 : 0 ≤ t) (h1 : t ≤ 1) (h : z = x + t * (y - x)) :
    min x y ≤ z ∧ z ≤ max x y := by
  rcases le_total x y with hxy | hxy
  · rw [min_eq_left hxy, max_eq_right hxy]
    constructor <;> nlinarith
  · rw [min_eq_right hxy, max_eq_left hxy]
    constructor <;> nlinarith

theorem box_of_onEdge {e f : Pos × Pos} {q : Pos} (he : OnEdge e.1 q e.2) (hf : OnEdge f.1 q f.2) :
    ((boxLow e f).lon ≤ q.lon ∧ q.lon ≤ (boxHigh e f).lon) ∧
      (boxLow e f).lat ≤ q.lat ∧ q.lat ≤ (boxHigh e f).lat := by
  obtain ⟨t, h0, h1, hlon, hlat⟩ := he
  obtain ⟨t', h0', h1', hlon', hlat'⟩ := hf
  have hx := between_of_ratio h0 h1 hlon
  have hy := between_of_ratio h0 h1 hlat
  have hx' := between_of_ratio h0' h1' hlon'
  have hy' := between_of_ratio h0' h1' hlat'
  exact ⟨⟨max_le hx.1 hx'.1, le_min hx.2 hx'.2⟩, max_le hy.1 hy'.1, le_min hy.2 hy'.2⟩

theorem Clear.meet {e f : Pos × Pos} {q : Pos} (h : Clear e f) (he : OnEdge e.1 q e.2)
    (hf : OnEdge f.1 q f.2) : e.2 = f.1 ∧ q = e.2 ∨ f.2 = e.1 ∧ q = f.2 := by
  obtain ⟨⟨hlow, hhigh⟩, hlow', hhigh'⟩ := box_of_onEdge he hf
  rcases h with h | h | ⟨hbox, hor⟩
  · exact absurd (hlow.trans hhigh) (not_le.mpr h)
  · exact absurd (hlow'.trans hhigh') (not_le.mpr h)
  · have hq : q = boxLow e f := by
      rw [hbox] at hhigh hhigh'
      cases q
      exact congrArg₂ Pos.mk (le_antisymm hhigh hlow) (le_antisymm hhigh' hlow')
    rwa [hq]

end WebGis.Tiles
