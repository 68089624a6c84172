/-
  When the split of a line at the antimeridian is faithful.

  A piece is shifted back by the turn of the middle of its longitudes, so it comes to lie
  within the range exactly when all of it lies in one turn (`rewrap_range`). The cuts see to
  that, except on an edge that passes a meridian by next to nothing. That the walk takes no
  edge the longer way is seen from its length: shifted pieces that join to a path along the
  shorter ways are as long as the walk (`short_of_covers`).
-/
import WebGis.Tiles.Antimeridian

namespace WebGis.Tiles

open List

/-! ## Turns -/

/-- The vertex lies in the turn `m`, its two meridians included. -/
def InBand (m : ℤ) (p : Pos) : Prop := 360 * (m : ℚ) - 180 ≤ p.lon ∧ p.lon ≤ 360 * (m : ℚ) + 180

/-- Each vertex of the walk can be given a turn in which it lies, beginning with `m`, such that
    the turn changes only where the walk is cut. -/
inductive InBands : ℤ → List Pos → Prop
  | last {m : ℤ} {a : Pos} (h : InBand m a) : InBands m [a]
  | on {m : ℤ} {a b : Pos} {w : List Pos} (h : InBand m a) (hon : ¬ isCut a b)
      (hw : InBands m (b :: w)) : InBands m (a :: b :: w)
  | cut {m n : ℤ} {a b : Pos} {w : List Pos} (h : InBand m a) (hcut : isCut a b)
      (hw : InBands n (b :: w)) : InBands m (a :: b :: w)

theorem InBands.head {m : ℤ} {a : Pos} {w : List Pos} (h : InBands m (a :: w)) : InBand m a := by
  cases h with
  | last h => exact h
  | on h => exact h
  | cut h => exact h

theorem InBand.bandOf {m : ℤ} {p : Pos} (h : InBand m p) :
    Tiles.bandOf p.lon = m ∨ p.lon = 360 * (m : ℚ) + 180 ∧ Tiles.bandOf p.lon = m + 1 := by
  obtain ⟨hlow, hhigh⟩ := h
  have hge : m ≤ Tiles.bandOf p.lon := Int.le_floor.mpr (by linarith)
  rcases hhigh.lt_or_eq with hlt | heq
  · refine .inl (le_antisymm (Int.lt_add_one_iff.mp (Int.floor_lt.mpr ?_)) hge)
    push_cast
    linarith
  · refine .inr ⟨heq, ?_⟩
    have he : (p.lon + 180) / 360 = ((m + 1 : ℤ) : ℚ) := by
      rw [heq]
      push_cast
      ring
    rw [Tiles.bandOf, he, Int.floor_intCast]

theorem inBand_self (p : Pos) : InBand (bandOf p.lon) p := ⟨bandOf_le _, (lt_bandOf _).le⟩

theorem inBand_cutPoint {a b : Pos} {m m' : ℤ} (hshort : |b.lon - a.lon| ≤ 180) (hcut : isCut a b)
    (ha : InBand m a) (hb : InBand m' b) :
    InBand m (cutPoint a b) ∧ InBand m' (cutPoint a b) := by
  have hhigh := (isCut_bounds hcut).2
  have hnext := bandOf_of_isCut hshort hcut
  have hbd : (cutPoint a b).lon = 360 * (bandOf (max a.lon b.lon) : ℚ) - 180 := rfl
  obtain ⟨hleft, hright⟩ := abs_le.mp hshort
  unfold InBand
  rw [hbd, hnext] at hhigh ⊢
  push_cast at hhigh ⊢
  rcases le_total a.lon b.lon with hab | hab
  · -- eastward: no room for a whole turn above `a`
    rw [min_eq_left hab] at hhigh hnext ⊢
    rw [max_eq_right hab] at hhigh hnext
    rcases ha.bandOf with hm | ⟨he, hm⟩
    · rw [hm] at hhigh hnext ⊢
      rcases hb.bandOf with hm' | ⟨he', hm'⟩
      · obtain rfl : m' = m + 1 := hm'.symm.trans hnext
        push_cast
        constructor <;> constructor <;> linarith
      · obtain rfl : m' = m := by omega
        constructor <;> constructor <;> linarith
    · rw [hm] at hhigh
      push_cast at hhigh
      linarith
  · rw [min_eq_right hab] at hhigh hnext ⊢
    rw [max_eq_left hab] at hhigh hnext
    rcases hb.bandOf with hm' | ⟨he', hm'⟩
    · rw [hm'] at hhigh hnext ⊢
      rcases ha.bandOf with hm | ⟨he, hm⟩
      · obtain rfl : m = m' + 1 := hm.symm.trans hnext
        push_cast
        constructor <;> constructor <;> linarith
      · obtain rfl : m = m' := by omega
        constructor <;> constructor <;> linarith
    · rw [hm'] at hhigh
      push_cast at hhigh
      linarith

section Bands

variable {cur rest : List Pos} {a : Pos} {m : ℤ}

theorem cutWalk_bands (hcur : ∀ p ∈ cur, InBand m p) (hshort : Short (a :: rest))
    (h : InBands m (a :: rest)) :
    ∀ piece ∈ cutWalk cur a rest, ∃ m, ∀ p ∈ piece, InBand m p := by
  induction rest generalizing cur a m with
  | nil =>
    intro piece hp
    unfold cutWalk at hp
    split at hp
    · exact ⟨m, by rwa [mem_singleton.mp hp]⟩
    · cases hp
  | cons b rest ih =>
    obtain ⟨hab, hrest⟩ := isChain_cons_cons.mp hshort
    intro piece hp
    unfold cutWalk at hp
    cases h with
    | on ha hon hw =>
      rw [if_neg hon] at hp
      refine ih (fun p hp => ?_) hrest hw piece hp
      rcases mem_append.mp hp with hp | hp
      · exact hcur p hp
      · rw [mem_singleton.mp hp]
        exact hw.head
    | @cut _ m' _ _ _ ha hcut hw =>
      rw [if_pos hcut] at hp
      obtain ⟨hin, hin'⟩ := inBand_cutPoint hab hcut ha hw.head
      rcases mem_cons.mp hp with rfl | hp
      · refine ⟨m, fun p hp => ?_⟩
        rcases mem_append.mp hp with hp | hp
        · exact hcur p hp
        · rwa [mem_singleton.mp hp]
      · refine ih (m := m') (fun p hp => ?_) hrest hw piece hp
        rcases mem_cons.mp hp with rfl | hp
        · exact hin'
        · rw [mem_singleton.mp hp]
          exact hw.head

theorem inBands_of_cutWalk (cur : List Pos) (hlast : cur.getLast? = some a)
    (h : ∀ piece ∈ cutWalk cur a rest, ∃ m, ∀ p ∈ piece, InBand m p) :
    ∃ m, InBands m (a :: rest) ∧ (2 ≤ cur.length ∨ rest ≠ [] → ∀ p ∈ cur, InBand m p) := by
  induction rest generalizing cur a with
  | nil =>
    by_cases htwo : 2 ≤ cur.length
    · rw [cutWalk, if_pos htwo] at h
      obtain ⟨m, hm⟩ := h cur (mem_singleton_self cur)
      exact ⟨m, .last (hm a (mem_of_getLast? hlast)), fun _ => hm⟩
    · exact ⟨_, .last (inBand_self a), fun hor => (hor.elim htwo fun hne => hne rfl).elim⟩
  | cons b rest ih =>
    unfold cutWalk at h
    split at h
    · rename_i hcut
      obtain ⟨m, hm⟩ := h _ mem_cons_self
      obtain ⟨m', hw, -⟩ := ih [cutPoint a b, b] rfl
        fun piece hp => h piece (mem_cons_of_mem _ hp)
      have hcur : ∀ p ∈ cur, InBand m p := fun p hp => hm p (mem_append_left _ hp)
      exact ⟨m, .cut (hcur a (mem_of_getLast? hlast)) hcut hw, fun _ => hcur⟩
    · rename_i hon
      have hpos : 0 < cur.length := length_pos_of_mem (mem_of_getLast? hlast)
      obtain ⟨m, hw, hm⟩ := ih (cur ++ [b]) (by simp) h
      have hall := hm (.inl (by rw [length_append, length_singleton]; omega))
      have hcur : ∀ p ∈ cur, InBand m p := fun p hp => hall p (mem_append_left _ hp)
      exact ⟨m, .on (hcur a (mem_of_getLast? hlast)) hon hw, fun _ => hcur⟩

end Bands

/-! ## Shifting back -/

theorem le_foldl_max (x : ℚ) (seg : List Pos) :
    x ≤ seg.foldl (fun m q => max m q.lon) x ∧
      ∀ q ∈ seg, q.lon ≤ seg.foldl (fun m q => max m q.lon) x := by
  induction seg generalizing x with
  | nil => exact ⟨le_rfl, fun q hq => absurd hq not_mem_nil⟩
  | cons p seg ih =>
    obtain ⟨hx, hall⟩ := ih (max x p.lon)
    refine ⟨(le_max_left _ _).trans hx, fun q hq => ?_⟩
    rcases mem_cons.mp hq with rfl | hq
    · exact (le_max_right _ _).trans hx
    · exact hall q hq

theorem foldl_min_le (x : ℚ) (seg : List Pos) :
    seg.foldl (fun m q => min m q.lon) x ≤ x ∧
      ∀ q ∈ seg, seg.foldl (fun m q => min m q.lon) x ≤ q.lon := by
  induction seg generalizing x with
  | nil => exact ⟨le_rfl, fun q hq => absurd hq not_mem_nil⟩
  | cons p seg ih =>
    obtain ⟨hx, hall⟩ := ih (min x p.lon)
    refine ⟨hx.trans (min_le_left _ _), fun q hq => ?_⟩
    rcases mem_cons.mp hq with rfl | hq
    · exact hx.trans (min_le_right _ _)
    · exact hall q hq

theorem foldl_max_le {x y : ℚ} {seg : List Pos} (hx : x ≤ y) (h : ∀ q ∈ seg, q.lon ≤ y) :
    seg.foldl (fun m q => max m q.lon) x ≤ y := by
  induction seg generalizing x with
  | nil => exact hx
  | cons p seg ih =>
    rw [forall_mem_cons] at h
    exact ih (max_le hx h.1) h.2

theorem le_foldl_min {x y : ℚ} {seg : List Pos} (hx : y ≤ x) (h : ∀ q ∈ seg, y ≤ q.lon) :
    y ≤ seg.foldl (fun m q => min m q.lon) x := by
  induction seg generalizing x with
  | nil => exact hx
  | cons p seg ih =>
    rw [forall_mem_cons] at h
    exact ih (le_min hx h.1) h.2

theorem rewrap_range {piece : List Pos} :
    (∀ p ∈ rewrap piece, -180 ≤ p.lon ∧ p.lon ≤ 180) ↔ ∃ m, ∀ p ∈ piece, InBand m p := by
  cases piece with
  | nil => simp [rewrap]
  | cons p seg =>
    unfold rewrap
    rw [forall_mem_map]
    constructor
    · intro h
      refine ⟨pieceBand p seg, fun q hq => ?_⟩
      obtain ⟨hlow, hhigh⟩ := h q hq
      simp only [Pos.turn] at hlow hhigh
      push_cast at hlow hhigh
      exact ⟨by linarith, by linarith⟩
    · rintro ⟨m, hm⟩
      rw [forall_mem_cons] at hm
      obtain ⟨hp, hseg⟩ := hm
      have hmax : maxLon p seg ≤ 360 * (m : ℚ) + 180 :=
        foldl_max_le hp.2 fun q hq => (hseg q hq).2
      have hmin : 360 * (m : ℚ) - 180 ≤ minLon p seg :=
        le_foldl_min hp.1 fun q hq => (hseg q hq).1
      have hall : ∀ q ∈ p :: seg, minLon p seg ≤ q.lon ∧ q.lon ≤ maxLon p seg := by
        rw [forall_mem_cons]
        exact ⟨⟨(foldl_min_le _ _).1, (le_foldl_max _ _).1⟩,
          fun q hq => ⟨(foldl_min_le _ _).2 q hq, (le_foldl_max _ _).2 q hq⟩⟩
      have hle : pieceBand p seg ≤ m := by
        refine Int.ceil_le.mpr ?_
        have := (hall p mem_cons_self)
        linarith
      intro q hq
      obtain ⟨hlow, hhigh⟩ := hall q hq
      simp only [Pos.turn]
      push_cast
      rcases hle.lt_or_eq with hlt | heq
      · -- the whole piece stands on the lower meridian of its turn
        have hcast : (pieceBand p seg : ℚ) ≤ m - 1 := by exact_mod_cast Int.le_sub_one_of_lt hlt
        have hceil : (maxLon p seg + minLon p seg) / 2 / 360 - 1 / 2 ≤ (pieceBand p seg : ℚ) :=
          Int.le_ceil _
        have heq : pieceBand p seg = m - 1 := by
          refine le_antisymm (Int.le_sub_one_of_lt hlt) ?_
          have hq : ((m - 1 : ℤ) : ℚ) ≤ pieceBand p seg := by
            push_cast
            linarith
          exact_mod_cast hq
        rw [heq] at hceil ⊢
        push_cast at hceil ⊢
        constructor <;> linarith
      · rw [heq]
        constructor <;> linarith

/-! ## Lines -/

/-- The walk never takes the longer way, and no stretch of it between two cuts leaves its turn. -/
def Steady (walk : List Pos) : Prop := Short walk ∧ ∃ m, InBands m walk

theorem traverses_refl (w : List Pos) : Traverses w w := by
  induction w with
  | nil => exact .nil
  | cons a w ih =>
    cases w with
    | nil => exact .last a
    | cons b w => exact .edge ih

theorem short_iff (pts : List Pos) :
    Short pts ↔ ¬ ((pts.zip pts.tail).any fun e => |e.2.lon - e.1.lon| > 180) := by
  induction pts with
  | nil => simp [Short]
  | cons a pts ih =>
    cases pts with
    | nil => simp [Short]
    | cons b pts =>
      rw [tail_cons, zip_cons_cons, List.any_cons, Bool.or_eq_true, not_or,
        decide_eq_true_eq, not_lt]
      exact isChain_cons_cons.trans (and_congr_right fun _ => ih)

theorem short_of_not_crosses {pts : List Pos} (h : ¬ polylineCrossesAm pts) : Short pts := by
  simp only [polylineCrossesAm, decide_eq_true_eq, not_and] at h
  rw [short_iff]
  by_cases hlen : pts.length ≥ 2
  · exact h hlen
  · match pts with
    | [] => simp
    | [a] => simp
    | a :: b :: pts => exact absurd (Nat.le_add_left 2 pts.length) hlen

theorem faithful_self {pts : List Pos} (h : ∀ p ∈ pts, -180 ≤ p.lon ∧ p.lon ≤ 180)
    (hshort : Short pts) : Faithful pts [pts] where
  range := fun piece hp => by rwa [mem_singleton.mp hp]
  short := fun piece hp => by rwa [mem_singleton.mp hp]
  covers := ⟨[pts], pts, .cons ⟨0, (map_id'' (fun q => by simp [Pos.turn]) pts).symm⟩ .nil,
    isChain_singleton pts,
    sameMod_refl pts, hshort, by simpa using traverses_refl pts⟩

section Crossing

variable {p : Pos} {rest : List Pos}

theorem splitLine_eq (h : polylineCrossesAm (p :: rest)) :
    rest ≠ [] ∧
      splitLine (p :: rest) = (cutWalk [p] p (unwrapFrom p rest)).map rewrap := by
  have hlen : ¬ (p :: rest).length < 2 := by
    simp only [polylineCrossesAm, decide_eq_true_eq] at h
    exact not_lt.mpr h.1
  have hne : rest ≠ [] := by
    rintro rfl
    exact hlen Nat.one_lt_two
  have hne' : unwrapFrom p rest ≠ [] := by
    obtain ⟨b, rest, rfl⟩ := exists_cons_of_ne_nil hne
    exact cons_ne_nil _ _
  obtain ⟨hall, more, pieces, he⟩ := cutWalk_cons [p] (unwrapFrom p rest) p (cons_ne_nil _ _)
    (.inr hne')
  have hfilter : (cutWalk [p] p (unwrapFrom p rest)).filter (fun piece => piece.length ≥ 2) =
      cutWalk [p] p (unwrapFrom p rest) :=
    filter_eq_self.mpr fun piece hp => decide_eq_true (hall piece hp)
  refine ⟨hne, ?_⟩
  unfold splitLine
  rw [if_neg hlen, if_neg (not_not.mpr h)]
  simp only [unwrapAlong, Bool.false_eq_true, false_and, if_false]
  rw [hfilter, if_neg]
  rw [he]
  exact cons_ne_nil _ _

theorem rewrap_eq (piece : List Pos) : ∃ k : ℤ, rewrap piece = piece.map (Pos.turn k) := by
  cases piece with
  | nil => exact ⟨0, rfl⟩
  | cons q seg => exact ⟨_, rfl⟩

theorem turn_turn (k l : ℤ) (q : Pos) : (q.turn k).turn l = q.turn (k + l) := by
  simp only [Pos.turn, Pos.mk.injEq, and_true]
  push_cast
  ring

theorem map_lonLength_of_lifted {pieces lifted : List (List Pos)}
    (h : List.Forall₂ (fun piece l => ∃ k : ℤ, l = piece.map (Pos.turn k))
      (pieces.map rewrap) lifted) (hne : ∀ piece ∈ pieces, piece ≠ []) :
    lifted.map lonLength = pieces.map lonLength ∧ ∀ l ∈ lifted, l ≠ [] := by
  induction pieces generalizing lifted with
  | nil =>
    cases h
    exact ⟨rfl, fun l hl => absurd hl not_mem_nil⟩
  | cons piece pieces ih =>
    rw [forall_mem_cons] at hne
    cases h with
    | cons hl hrest =>
      obtain ⟨k, rfl⟩ := hl
      obtain ⟨k', hk'⟩ := rewrap_eq piece
      obtain ⟨hmap, hall⟩ := ih hrest hne.2
      rw [map_cons, map_cons, hmap, hk', lonLength_turn, lonLength_turn, forall_mem_cons]
      exact ⟨rfl, by simpa using hne.1, hall⟩

theorem lifted_rewrap (pieces : List (List Pos)) :
    List.Forall₂ (fun piece l => ∃ k : ℤ, l = piece.map (Pos.turn k)) (pieces.map rewrap) pieces := by
  rw [forall₂_map_left_iff]
  refine forall₂_same.mpr fun piece _ => ?_
  obtain ⟨k, hk⟩ := rewrap_eq piece
  refine ⟨-k, ?_⟩
  rw [hk, map_map]
  refine (map_id'' (fun q => ?_) piece).symm
  rw [Function.comp_apply, turn_turn, add_neg_cancel, Pos.turn, Int.cast_zero, mul_zero, add_zero]

theorem short_of_covers (hrest : unwrapFrom p rest ≠ [])
    (h : Covers (p :: rest) ((cutWalk [p] p (unwrapFrom p rest)).map rewrap)) :
    Short (p :: unwrapFrom p rest) := by
  obtain ⟨lifted, line, hlift, hchain, hline, hshort, htrav⟩ := h
  have hwalk : SameMod (p :: rest) (p :: unwrapFrom p rest) :=
    .cons ⟨0, by simp [Pos.turn]⟩ (sameMod_unwrapFrom p rest)
  refine (lonLength_le hline hwalk hshort).2 ?_
  obtain ⟨hpieces, hne⟩ := map_lonLength_of_lifted hlift fun piece hp =>
    cutWalk_ne_nil (cons_ne_nil _ _) (.inr hrest) hp
  obtain ⟨path, he, hpath⟩ := cutWalk_traverses [p] p (cons_ne_nil _ _) (.inr hrest)
  have hjoin := lonLength_flatten (cutWalk_isChain [p] p (cons_ne_nil _ _) (.inr hrest))
    fun l hl => cutWalk_ne_nil (cons_ne_nil _ _) (.inr hrest) hl
  rw [← hpath.lonLength_eq, ← htrav.lonLength_eq, lonLength_flatten hchain hne, hpieces, ← hjoin, he]
  rfl

theorem covers_cutWalk (hrest : unwrapFrom p rest ≠ []) (hshort : Short (p :: unwrapFrom p rest)) :
    Covers (p :: rest) ((cutWalk [p] p (unwrapFrom p rest)).map rewrap) := by
  obtain ⟨path, he, hpath⟩ := cutWalk_traverses [p] p (cons_ne_nil _ _) (.inr hrest)
  refine ⟨_, p :: unwrapFrom p rest, lifted_rewrap _,
    cutWalk_isChain [p] p (cons_ne_nil _ _) (.inr hrest), ?_, hshort, ?_⟩
  · exact .cons ⟨0, by simp [Pos.turn]⟩ (sameMod_unwrapFrom p rest)
  · rw [he]
    exact hpath

end Crossing

end WebGis.Tiles
