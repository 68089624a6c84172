/-
  Windows of a raster: cores that tile it, each with a halo cut off at the edge.

  A core's size is the raster's size over the number of columns or rows, divided as doubles and
  rounded up. Where the division rounds down to a whole number, the last columns or rows are left
  out (`plan_leaves_column`). The cores tile the raster exactly if neither division does
  (`plan_tiles_iff`), as for all sizes below 2 ^ 53 (`reaches_of_lt`).
-/
import Mathlib.Data.List.Nodup
import Mathlib.Data.List.ProdSigma
import Mathlib.Data.Prod.Lex
import Mathlib.Data.Rat.Floor
import Mathlib.Data.Int.Log
import Mathlib.Tactic.Linarith
import Mathlib.Tactic.FieldSimp

namespace WebGis.Compute

open List
open Option hiding max_eq_left

/-! ## Doubles above zero -/

/-- The nearest whole number, the even one of two. -/
def roundHalfEven (q : Rat) : Int :=
  if q - ⌊q⌋ < 1 / 2 ∨ q - ⌊q⌋ = 1 / 2 ∧ Even ⌊q⌋ then ⌊q⌋ else ⌊q⌋ + 1

/-- The nearest double, with 53 bits or the least exponent; none above the largest. -/
def double (q : Rat) : Option Rat :=
  let unit : Rat := 2 ^ max (Int.log 2 q - 52) (-1074)
  let r := roundHalfEven (q / unit) * unit
  if r < 2 ^ 1024 then some r else none

/-- `math.sqrt`. What the whole root leaves is kept as one more bit, below those that rounding
    looks at. -/
def sqrt (x : Rat) : Option Rat :=
  let square := ⌊x * 4 ^ 640⌋₊
  let root := square.sqrt
  double (if root * root = square then root / 2 ^ 640 else (2 * root + 1) / 2 ^ 641)

/-! ## The plan -/

structure RasterPartition where
  index : Nat
  colOff : Nat
  rowOff : Nat
  width : Nat
  height : Nat
  coreColOff : Nat
  coreRowOff : Nat
  coreWidth : Nat
  coreHeight : Nat
  deriving DecidableEq

structure PartitionPlan where
  scheme : String
  crs : Option String
  tiles : Nat
  parts : List RasterPartition
  adaptiveFrom : Option Nat
  deriving DecidableEq

/-- The double `1e-12`. -/
def minSpan : Rat := 4951760157141521 / 2 ^ 92

/-- `max(1, min(tiles, n))`. -/
def clamp (tiles n : Nat) : Nat := max 1 (min tiles n)

def gridOf (tiles cols : Nat) : Option (Nat × Nat) :=
  (double (tiles / cols)).map fun q => (cols, clamp tiles ⌈q⌉₊)

/-- `_grid_dims`; none where a double overflows. -/
def gridDims (tiles : Nat) (spanX spanY : Rat) : Option (Nat × Nat) :=
  if tiles ≤ 1 then some (1, 1)
  else do
    let ratio ← double (max minSpan spanX / max minSpan spanY)
    let ideal ← sqrt (← double (tiles * ratio))
    let low ← gridOf tiles (clamp tiles ⌊ideal⌋₊)
    let high ← gridOf tiles (clamp tiles ⌈ideal⌉₊)
    return if toLex (high.1 * high.2, high.1) < toLex (low.1 * low.2, low.1) then high else low

/-- The grid of a raster, whose sizes become doubles first. -/
def rasterDims (tiles width height : Nat) : Option (Nat × Nat) := do
  gridDims tiles (← double width) (← double height)

/-- `max(1, math.ceil(size / n))`. -/
def coreSize (size n : Nat) : Option Nat := (double (size / n)).map fun q => max 1 ⌈q⌉₊

def rasterPartition (haloPx width height coreWs coreHs : Nat) (cell : (Nat × Nat) × Nat) :
    RasterPartition :=
  let coreCol := cell.1.2 * coreWs
  let coreRow := cell.1.1 * coreHs
  let coreW := min coreWs (width - coreCol)
  let coreH := min coreHs (height - coreRow)
  let colOff := coreCol - haloPx
  let rowOff := coreRow - haloPx
  { index := cell.2
    colOff := colOff
    rowOff := rowOff
    width := min (width - colOff) (coreW + (coreCol - colOff) + haloPx)
    height := min (height - rowOff) (coreH + (coreRow - rowOff) + haloPx)
    coreColOff := coreCol
    coreRowOff := coreRow
    coreWidth := coreW
    coreHeight := coreH }

/-- The cells of the grid that begin inside the raster, row by row. -/
def cells (width height coreWs coreHs : Nat) (dims : Nat × Nat) : List (Nat × Nat) :=
  (List.range dims.2 ×ˢ List.range dims.1).filter fun rc =>
    rc.2 * coreWs < width ∧ rc.1 * coreHs < height

def planRaster (targetTiles haloPx width height : Nat) (crs : Option String) :
    Option PartitionPlan :=
  if width = 0 ∨ height = 0 then none
  else do
    let dims ← rasterDims targetTiles width height
    let coreWs ← coreSize width dims.1
    let coreHs ← coreSize height dims.2
    let parts := (cells width height coreWs coreHs dims).zipIdx.map
      (rasterPartition haloPx width height coreWs coreHs)
    return {
      scheme := "raster_grid"
      crs := crs
      tiles := parts.length
      parts := parts
      adaptiveFrom := if parts.length = targetTiles then none else some targetTiles }

/-! ## What the windows should be -/

def RasterPartition.InCore (p : RasterPartition) (x y : Nat) : Prop :=
  (p.coreColOff ≤ x ∧ x < p.coreColOff + p.coreWidth) ∧
    p.coreRowOff ≤ y ∧ y < p.coreRowOff + p.coreHeight

/-- On one axis: a core inside the raster that is not empty, and the window is the core with the
    halo on both sides, cut off at the edges. -/
structure Grown (size haloPx off part coreOff core : Nat) : Prop where
  pos : 0 < core
  inside : coreOff + core ≤ size
  start : off = coreOff - haloPx
  stop : off + part = min size (coreOff + core + haloPx)

structure Tiled (haloPx width height : Nat) (parts : List RasterPartition) : Prop where
  apart : parts.Pairwise fun p p' => ∀ x y, p.InCore x y → ¬ p'.InCore x y
  cover : ∀ x < width, ∀ y < height, ∃ p ∈ parts, p.InCore x y
  cols : ∀ p ∈ parts, Grown width haloPx p.colOff p.width p.coreColOff p.coreWidth
  rows : ∀ p ∈ parts, Grown height haloPx p.rowOff p.height p.coreRowOff p.coreHeight

/-- The double division of the size does not round down to fewer pixels. -/
def Reaches (size n : Nat) : Prop := ∃ q, double (size / n) = some q ∧ size ≤ n * max 1 ⌈q⌉₊

/-! ## Rounding -/

theorem le_roundHalfEven (q : Rat) : q - 1 / 2 ≤ roundHalfEven q := by
  rw [roundHalfEven]
  have hfloor := Int.lt_floor_add_one q
  split
  · rename_i h
    rcases h with h | h <;> linarith
  · push_cast
    linarith

theorem roundHalfEven_le (q : Rat) : (roundHalfEven q : Rat) ≤ q + 1 := by
  rw [roundHalfEven]
  have hfloor := Int.floor_le q
  split
  · linarith
  · push_cast
    linarith

/-- Where the exponent is not the least, rounding loses at most the 53rd part of a power of two. -/
theorem double_eq_some {q : Rat} (hlow : 1 / 2 ^ 9 ≤ q) (hhigh : q < 2 ^ 53) :
    ∃ r, double q = some r ∧ q - q / 2 ^ 53 ≤ r := by
  have hpos : 0 < q := by linarith
  have hlog : -9 ≤ Int.log 2 q := by
    rw [← Int.zpow_le_iff_le_log (by decide) hpos]
    exact le_trans (by norm_num) hlow
  have hunit : max (Int.log 2 q - 52) (-1074) = Int.log 2 q - 52 := max_eq_left (by omega)
  have hle : ((2 : ℕ) : Rat) ^ Int.log 2 q ≤ q := Int.zpow_log_le_self (by decide) hpos
  set unit : Rat := 2 ^ (Int.log 2 q - 52) with hdef
  have hsplit : unit * 2 ^ 52 = ((2 : ℕ) : Rat) ^ Int.log 2 q := by
    rw [hdef, zpow_sub₀ (by norm_num)]
    norm_num
  have hunitPos : 0 < unit := zpow_pos (by norm_num) _
  have hgood := mul_le_mul_of_nonneg_right (le_roundHalfEven (q / unit)) hunitPos.le
  have hbound := mul_le_mul_of_nonneg_right (roundHalfEven_le (q / unit)) hunitPos.le
  rw [sub_mul, div_mul_cancel₀ _ hunitPos.ne'] at hgood
  rw [add_mul, div_mul_cancel₀ _ hunitPos.ne'] at hbound
  refine ⟨roundHalfEven (q / unit) * unit, ?_, ?_⟩
  · rw [double, hunit, ← hdef, if_pos]
    have hbig : (2 : Rat) ^ 54 < 2 ^ 1024 := pow_lt_pow_right₀ (by norm_num) (by norm_num)
    exact lt_trans (by linarith) hbig
  · linarith

theorem reaches_of_lt {size n : Nat} (hsize : 0 < size) (hn : 0 < n) (hn' : n ≤ 256)
    (h : size < 2 ^ 53) : Reaches size n := by
  have hnq : (0 : Rat) < n := by exact_mod_cast hn
  have hsizeq : (1 : Rat) ≤ size := by exact_mod_cast hsize
  have hlt : (size : Rat) < 2 ^ 53 := by exact_mod_cast h
  have hone : (1 : Rat) ≤ n := by exact_mod_cast hn
  have hle : (n : Rat) ≤ 256 := by exact_mod_cast hn'
  obtain ⟨r, hr, hge⟩ := double_eq_some (q := (size : Rat) / n)
    (by rw [le_div_iff₀ hnq]; linarith) (by rw [div_lt_iff₀ hnq]; nlinarith)
  refine ⟨r, hr, le_trans ?_ (Nat.mul_le_mul_left n (le_max_right 1 ⌈r⌉₊))⟩
  -- less would be less by one whole pixel, and rounding does not lose that
  by_contra hless
  have hwhole : (n : Rat) * ⌈r⌉₊ + 1 ≤ size := by exact_mod_cast Nat.lt_of_not_le hless
  have hceil := mul_le_mul_of_nonneg_left (Nat.le_ceil r) hnq.le
  have hscaled := mul_le_mul_of_nonneg_left hge hnq.le
  rw [mul_sub, mul_div_cancel₀ _ hnq.ne', div_right_comm, mul_div_cancel₀ _ hnq.ne'] at hscaled
  have hfrac : (size : Rat) / 2 ^ 53 < 1 := by rwa [div_lt_one (by positivity)]
  linarith

/-! ## One axis -/

theorem grown_core {size haloPx k c : Nat} (hk : 0 < k) (h : c * k < size) :
    Grown size haloPx (c * k - haloPx)
      (min (size - (c * k - haloPx)) (min k (size - c * k) + (c * k - (c * k - haloPx)) + haloPx))
      (c * k) (min k (size - c * k)) where
  pos := by omega
  inside := by omega
  start := rfl
  stop := by omega

theorem core_unique {size k c c' x : Nat} (h : c * k ≤ x ∧ x < c * k + min k (size - c * k))
    (h' : c' * k ≤ x ∧ x < c' * k + min k (size - c' * k)) : c = c' := by
  have hdiv : ∀ {d}, d * k ≤ x → x < d * k + min k (size - d * k) → x / k = d := by
    intro d hle hlt
    refine Nat.div_eq_of_lt_le hle ?_
    rw [Nat.succ_mul]
    omega
  exact (hdiv h.1 h.2).symm.trans (hdiv h'.1 h'.2)

theorem core_cover {size k n x : Nat} (hk : 0 < k) (h : size ≤ n * k) (hx : x < size) :
    x / k < n ∧ x / k * k < size ∧ x / k * k ≤ x ∧
      x < x / k * k + min k (size - x / k * k) := by
  have hle := Nat.div_mul_le_self x k
  have hlt := Nat.lt_div_mul_add hk (a := x)
  have hn : x / k < n := by
    rw [Nat.div_lt_iff_lt_mul hk]
    exact lt_of_lt_of_le hx h
  omega

/-! ## The whole plan -/

variable {haloPx width height kw kh : Nat} {dims : Nat × Nat}

theorem mem_parts {p : RasterPartition} :
    p ∈ (cells width height kw kh dims).zipIdx.map (rasterPartition haloPx width height kw kh) ↔
      ∃ r c idx, ((r, c), idx) ∈ (cells width height kw kh dims).zipIdx ∧
        rasterPartition haloPx width height kw kh ((r, c), idx) = p := by
  simp only [List.mem_map, Prod.exists]

theorem mem_cells {r c : Nat} : (r, c) ∈ cells width height kw kh dims ↔
    (r < dims.2 ∧ c < dims.1) ∧ c * kw < width ∧ r * kh < height := by
  simp [cells, mem_filter]

theorem parts_tiled (hkw : 0 < kw) (hkh : 0 < kh) (hwidth : width ≤ dims.1 * kw)
    (hheight : height ≤ dims.2 * kh) :
    Tiled haloPx width height ((cells width height kw kh dims).zipIdx.map
      (rasterPartition haloPx width height kw kh)) where
  apart := by
    rw [pairwise_map]
    have hnodup : ((cells width height kw kh dims).zipIdx.map Prod.fst).Nodup := by
      rw [zipIdx_map_fst]
      exact (List.Nodup.product nodup_range nodup_range).filter _
    refine (pairwise_map.mp hnodup).imp ?_
    intro a b hne x y ha hb
    exact hne (Prod.ext (core_unique ha.2 hb.2) (core_unique ha.1 hb.1))
  cover := by
    intro x hx y hy
    obtain ⟨hcol, hin, hcore⟩ := core_cover hkw hwidth hx
    obtain ⟨hrow, hin', hcore'⟩ := core_cover hkh hheight hy
    have hmem : (y / kh, x / kw) ∈ (cells width height kw kh dims).zipIdx.map Prod.fst := by
      rw [zipIdx_map_fst]
      exact mem_cells.mpr ⟨⟨hrow, hcol⟩, hin, hin'⟩
    obtain ⟨cell, hcell, heq⟩ := List.mem_map.mp hmem
    refine ⟨_, List.mem_map_of_mem hcell, ?_⟩
    simp only [RasterPartition.InCore, rasterPartition, heq]
    exact ⟨hcore, hcore'⟩
  cols := by
    intro p hp
    obtain ⟨r, c, idx, hmem, rfl⟩ := mem_parts.mp hp
    exact grown_core hkw (mem_cells.mp (fst_mem_of_mem_zipIdx hmem)).2.1
  rows := by
    intro p hp
    obtain ⟨r, c, idx, hmem, rfl⟩ := mem_parts.mp hp
    exact grown_core hkh (mem_cells.mp (fst_mem_of_mem_zipIdx hmem)).2.2

theorem reached_of_cover (hw : 0 < width) (hh : 0 < height)
    (h : ∀ x < width, ∀ y < height, ∃ p ∈ (cells width height kw kh dims).zipIdx.map
      (rasterPartition haloPx width height kw kh), p.InCore x y) :
    width ≤ dims.1 * kw ∧ height ≤ dims.2 * kh := by
  obtain ⟨p, hp, ⟨-, hx⟩, -, hy⟩ := h (width - 1) (by omega) (height - 1) (by omega)
  obtain ⟨r, c, idx, hmem, rfl⟩ := mem_parts.mp hp
  obtain ⟨⟨hr, hc⟩, -⟩ := mem_cells.mp (fst_mem_of_mem_zipIdx hmem)
  have hcol := Nat.mul_le_mul_right kw hc
  have hrow := Nat.mul_le_mul_right kh hr
  simp only [rasterPartition] at hx hy
  simp only [Nat.succ_eq_add_one, Nat.add_mul, one_mul] at hcol hrow
  omega

theorem reaches_iff {size n : Nat} : Reaches size n ↔ ∃ k, coreSize size n = some k ∧ size ≤ n * k := by
  simp [Reaches, coreSize]

theorem coreSize_pos {size n k : Nat} (h : coreSize size n = some k) : 0 < k := by
  obtain ⟨q, -, rfl⟩ := map_eq_some_iff.mp h
  omega

theorem plan_tiles_iff (targetTiles haloPx width height : Nat) (crs : Option String) :
    (∃ plan, planRaster targetTiles haloPx width height crs = some plan ∧
      Tiled haloPx width height plan.parts) ↔
    (0 < width ∧ 0 < height) ∧ ∃ dims, rasterDims targetTiles width height = some dims ∧
      Reaches width dims.1 ∧ Reaches height dims.2 := by
  constructor
  · rintro ⟨plan, hplan, htiled⟩
    rw [planRaster] at hplan
    split at hplan
    · cases hplan
    simp only [bind_eq_bind, bind_eq_some_iff] at hplan
    obtain ⟨dims, hdims, kw, hkw, kh, hkh, hplan⟩ := hplan
    obtain rfl := some.inj hplan
    have hedges := reached_of_cover (by omega) (by omega) htiled.cover
    exact ⟨by omega, dims, hdims, reaches_iff.mpr ⟨kw, hkw, hedges.1⟩,
      reaches_iff.mpr ⟨kh, hkh, hedges.2⟩⟩
  · rintro ⟨hpos, dims, hdims, hwidth, hheight⟩
    obtain ⟨kw, hkw, hwidth⟩ := reaches_iff.mp hwidth
    obtain ⟨kh, hkh, hheight⟩ := reaches_iff.mp hheight
    have htiled : Tiled haloPx width height _ :=
      parts_tiled (coreSize_pos hkw) (coreSize_pos hkh) hwidth hheight
    rw [planRaster, if_neg (by omega)]
    simp only [bind_eq_bind, hdims, hkw, hkh, bind_some]
    exact ⟨_, rfl, htiled⟩

/-- One column more than a double can count: one tile, and the column is in no core. -/
theorem plan_leaves_column :
    ¬ ∀ targetTiles haloPx width height : Nat, 1 ≤ targetTiles → targetTiles ≤ 256 → 0 < width →
      0 < height → ∃ plan, planRaster targetTiles haloPx width height none = some plan ∧
        Tiled haloPx width height plan.parts := by
  intro h
  obtain ⟨plan, hplan, htiled⟩ := h 1 0 (2 ^ 53 + 1) 1 (by decide) (by decide) (by decide)
    (by decide)
  have hparts : planRaster 1 0 (2 ^ 53 + 1) 1 none = some ⟨"raster_grid", none, 1,
      [⟨0, 0, 0, 2 ^ 53, 1, 0, 0, 2 ^ 53, 1⟩], none⟩ := by decide +kernel
  obtain rfl := some.inj (hparts.symm.trans hplan)
  obtain ⟨p, hp, ⟨-, hx⟩, -⟩ := htiled.cover (2 ^ 53) (by decide) 0 (by decide)
  obtain rfl := mem_singleton.mp hp
  exact absurd hx (by decide)

theorem gridDims_le {tiles : Nat} {spanX spanY : Rat} (ht : 1 ≤ tiles)
    (h : gridDims tiles spanX spanY = some dims) :
    (0 < dims.1 ∧ dims.1 ≤ tiles) ∧ 0 < dims.2 ∧ dims.2 ≤ tiles := by
  have hclamp : ∀ n, 0 < clamp tiles n ∧ clamp tiles n ≤ tiles := by
    unfold clamp
    omega
  have hgrid : ∀ n g, gridOf tiles (clamp tiles n) = some g →
      (0 < g.1 ∧ g.1 ≤ tiles) ∧ 0 < g.2 ∧ g.2 ≤ tiles := by
    intro n g hg
    obtain ⟨q, -, rfl⟩ := map_eq_some_iff.mp hg
    exact ⟨hclamp n, hclamp _⟩
  unfold gridDims at h
  split at h
  · obtain rfl := some.inj h
    exact ⟨⟨one_pos, ht⟩, one_pos, ht⟩
  · simp only [bind_eq_bind, bind_eq_some_iff] at h
    obtain ⟨_, -, _, -, _, -, low, hlow, high, hhigh, h⟩ := h
    obtain rfl := some.inj h
    split
    · exact hgrid _ _ hhigh
    · exact hgrid _ _ hlow

/-- A plan of up to 256 tiles tiles every raster whose sides are below 2 ^ 53. -/
theorem planned_tiled {targetTiles : Nat} {crs : Option String} {plan : PartitionPlan}
    (h : planRaster targetTiles haloPx width height crs = some plan) (ht : 1 ≤ targetTiles)
    (ht' : targetTiles ≤ 256) (hwidth : width < 2 ^ 53) (hheight : height < 2 ^ 53) :
    Tiled haloPx width height plan.parts := by
  unfold planRaster at h
  split at h
  · cases h
  rename_i hpos
  simp only [bind_eq_bind, bind_eq_some_iff] at h
  obtain ⟨dims, hdims, kw, hkw, kh, hkh, h⟩ := h
  obtain rfl := some.inj h
  simp only [rasterDims, bind_eq_bind, bind_eq_some_iff] at hdims
  obtain ⟨_, -, _, -, hdims⟩ := hdims
  obtain ⟨hcols, hrows⟩ := gridDims_le ht hdims
  obtain ⟨k, hk, hle⟩ := reaches_iff.mp
    (reaches_of_lt (by omega) hcols.1 (hcols.2.trans ht') hwidth)
  obtain ⟨k', hk', hle'⟩ := reaches_iff.mp
    (reaches_of_lt (by omega) hrows.1 (hrows.2.trans ht') hheight)
  obtain rfl := some.inj (hk.symm.trans hkw)
  obtain rfl := some.inj (hk'.symm.trans hkh)
  exact parts_tiled (coreSize_pos hkw) (coreSize_pos hkh) hle hle'

theorem planned_tiled_small : ∃ plan, planRaster 4 1 6 5 none = some plan ∧
    Tiled 1 6 5 plan.parts := by
  obtain ⟨plan, hplan⟩ := isSome_iff_exists.mp
    (by decide +kernel : (planRaster 4 1 6 5 none).isSome)
  exact ⟨plan, hplan, planned_tiled hplan (by decide) (by decide) (by decide) (by decide)⟩

end WebGis.Compute
