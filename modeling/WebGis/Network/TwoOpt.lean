/-
  `services/network/vrp.py`: `_two_opt`, which judges a reversal by the edges that it changes.

  The edges inside of a reversed segment are charged as a difference of prefix sums. Behind an edge
  of the tour that has no way back both prefixes are infinite and their difference is no number,
  so no segment behind it is ever reversed (`one_way_blocks`). The tour is that of the search that
  adds up every candidate exactly if no round's first improvement lies there (`twoOpt_iff`).

  `optimize_route` begins with a greedy tour (`optimizeRoute_visits`).
-/
import Mathlib.Algebra.BigOperators.Intervals
import Mathlib.Algebra.BigOperators.WithTop
import Mathlib.Algebra.Order.Field.Rat
import Mathlib.Tactic.Linarith
import WebGis.Network.Models

namespace WebGis.Network

open Option List Finset

/-! ## Numbers with infinities -/

inductive Number where
  | fin (q : ℚ)
  | inf (negative : Bool)
  | nan
  deriving DecidableEq

namespace Number

def add : Number → Number → Number
  | fin a, fin b => fin (a + b)
  | fin _, inf s => inf s
  | inf s, fin _ => inf s
  | inf s, inf t => if s = t then inf s else nan
  | _, _ => nan

def neg : Number → Number
  | fin a => fin (-a)
  | inf s => inf !s
  | nan => nan

def sub (x y : Number) : Number := x.add y.neg

def lt : Number → Number → Bool
  | fin a, fin b => a < b
  | fin _, inf s => !s
  | inf s, fin _ => s
  | inf s, inf t => s && !t
  | _, _ => false

def ofCost : Cost → Number
  | none => inf false
  | some q => fin q

end Number

open Number

/-! ## The search -/

section Search

variable (m : Nat → Nat → Cost)

def stop (t : List Nat) (k : Nat) : Nat := t.getD k 0

/-- The cost of the edge behind a place of the tour, and of its way back. -/
def edge (t : List Nat) (k : Nat) : Cost := m (stop t k) (stop t (k + 1))

def wayBack (t : List Nat) (k : Nat) : Cost := m (stop t (k + 1)) (stop t k)

def tourCost (t : List Nat) : Cost := ∑ k ∈ range (t.length - 1), edge m t k

/-- `rev_prefix[p]`, of the first `p` edges. -/
def revPrefix (t : List Nat) : Nat → Number
  | 0 => fin 0
  | p + 1 => (revPrefix t p).add ((ofCost (wayBack m t p)).sub (ofCost (edge m t p)))

def delta (t : List Nat) (i j : Nat) : Number :=
  let changed := (ofCost (m (stop t (i - 1)) (stop t j))).sub (ofCost (edge m t (i - 1)))
  let changed := if j + 1 < t.length then
    changed.add ((ofCost (m (stop t i) (stop t (j + 1)))).sub (ofCost (edge m t j))) else changed
  changed.add ((revPrefix m t j).sub (revPrefix m t i))

/-- The segments in the order in which they are tried. -/
def segments (n : Nat) (isRoundtrip : Bool) : List (Nat × Nat) :=
  let endIdx := if isRoundtrip then n - 1 else n
  (range' 1 (endIdx - 2)).flatMap fun i =>
    (range' (i + 1) (endIdx - (i + 1))).map (Prod.mk i)

def reversed (t : List Nat) (i j : Nat) : List Nat :=
  t.take i ++ ((t.take (j + 1)).drop i).reverse ++ t.drop (j + 1)

/-- The tour with the segment reversed, if that costs less by more than `1e-4`. -/
def accept (best : Number) (t : List Nat) (ij : Nat × Nat) (cost : Number) :
    Option (List Nat × Number) :=
  if cost.lt (best.sub (fin (1 / 10000))) then some (reversed t ij.1 ij.2, cost) else none

/-- One scan: the first segment that `judge` finds better reversed. -/
def improve (judge : List Nat → Number → Nat × Nat → Number) (isRoundtrip : Bool) (t : List Nat)
    (best : Number) : Option (List Nat × Number) :=
  (segments t.length isRoundtrip).findSome? fun ij => accept best t ij (judge t best ij)

def search (judge : List Nat → Number → Nat × Nat → Number) (isRoundtrip : Bool) :
    Nat → List Nat → Number → List Nat
  | 0, t, _ => t
  | fuel + 1, t, best =>
    match improve judge isRoundtrip t best with
    | none => t
    | some next => search judge isRoundtrip fuel next.1 next.2

/-- The cost as `_two_opt` keeps it. -/
def byDelta (t : List Nat) (best : Number) (ij : Nat × Nat) : Number :=
  best.add (delta m t ij.1 ij.2)

/-- The cost of the whole candidate. -/
def bySum (t : List Nat) (_ : Number) (ij : Nat × Nat) : Number :=
  ofCost (tourCost m (reversed t ij.1 ij.2))

/-- `_two_opt`, with at most 100 scans. -/
def twoOpt (t : List Nat) (isRoundtrip : Bool) : List Nat :=
  search (byDelta m) isRoundtrip 100 t (ofCost (tourCost m t))

def naiveTwoOpt (t : List Nat) (isRoundtrip : Bool) : List Nat :=
  search (bySum m) isRoundtrip 100 t (ofCost (tourCost m t))

/-- In no round the first segment that is better reversed lies behind an edge without a way back. -/
def Unblocked (isRoundtrip : Bool) : Nat → List Nat → Prop
  | 0, _ => True
  | fuel + 1, t =>
    ∀ ij, (segments t.length isRoundtrip).find? (fun ij =>
        (accept (ofCost (tourCost m t)) t ij (bySum m t (.fin 0) ij)).isSome) = some ij →
      (∀ k < ij.1, wayBack m t k ≠ ⊤) ∧ Unblocked isRoundtrip fuel (reversed t ij.1 ij.2)

end Search

/-! ## Costs as numbers -/

theorem ofCost_add (x y : Cost) : (ofCost x).add (ofCost y) = ofCost (x + y) := by
  cases x <;> cases y <;> rfl

theorem ofCost_sub (x : Cost) (q : ℚ) :
    (ofCost x).sub (ofCost (q : Cost)) = ofCost (x + ((-q : ℚ) : Cost)) := by
  cases x <;> rfl

theorem lt_iff {x : Cost} {q : ℚ} : (ofCost x).lt (fin q) ↔ x < q := by
  cases x with
  | none =>
    constructor
    · intro h
      cases h
    · intro h
      exact absurd h (not_lt.mpr le_top)
  | some a => exact decide_eq_true_iff.trans WithTop.coe_lt_coe.symm

variable {m : Nat → Nat → Cost} {t : List Nat} {i j k : Nat} {f : Nat → ℚ}

/-! ## What a reversal changes -/

section

variable (hij : i ≤ j) (hj : j < t.length)
include hij hj

theorem length_reversed :
    (reversed t i j).length = t.length := by
  simp only [reversed, length_append, length_reverse, length_take, length_drop]
  omega

theorem getElem?_reversed (k : Nat) :
    (reversed t i j)[k]? = if i ≤ k ∧ k ≤ j then t[i + j - k]? else t[k]? := by
  have htake : (t.take i).length = i := by rw [length_take]; omega
  have hseg : ((t.take (j + 1)).drop i).length = j + 1 - i := by
    rw [length_drop, length_take]
    omega
  rw [reversed]
  rcases Nat.lt_or_ge k i with hk | hk
  · rw [append_assoc, getElem?_append_left (by omega), getElem?_take, if_pos hk,
      if_neg (by omega)]
  rw [append_assoc, getElem?_append_right (by omega), htake]
  rcases Nat.lt_or_ge j k with hk' | hk'
  · rw [getElem?_append_right (by rw [length_reverse]; omega), length_reverse, hseg,
      getElem?_drop, if_neg (by omega)]
    congr 1
    omega
  · rw [getElem?_append_left (by rw [length_reverse]; omega),
      getElem?_reverse (by omega), hseg, getElem?_drop, getElem?_take,
      if_pos (by omega), if_pos ⟨hk, hk'⟩]
    congr 1
    omega

theorem stop_reversed (k : Nat) :
    stop (reversed t i j) k = if i ≤ k ∧ k ≤ j then stop t (i + j - k) else stop t k := by
  simp only [stop, getD_eq_getElem?_getD, getElem?_reversed hij hj]
  split <;> rfl

end

theorem reversed_perm (t : List Nat) (hij : i ≤ j) : (reversed t i j).Perm t := by
  have hsplit : t = t.take i ++ (t.take (j + 1)).drop i ++ t.drop (j + 1) := by
    have htake : t.take i = (t.take (j + 1)).take i := by
      rw [take_take, Nat.min_eq_left (by omega)]
    rw [htake, take_append_drop, take_append_drop]
  conv_rhs => rw [hsplit]
  exact ((reverse_perm _).append_left _).append_right _

/-- Every edge of the tour has a cost. -/
def Finite (m : Nat → Nat → Cost) (t : List Nat) (f : Nat → ℚ) : Prop :=
  ∀ k < t.length - 1, edge m t k = f k

theorem exists_finite (h : tourCost m t ≠ ⊤) : ∃ f, Finite m t f := by
  refine ⟨fun k => (edge m t k).untopD 0, fun k hk => ?_⟩
  have hne : edge m t k ≠ ⊤ := fun htop =>
    h (WithTop.sum_eq_top.mpr ⟨k, Finset.mem_range.mpr hk, htop⟩)
  obtain ⟨q, hq⟩ := WithTop.ne_top_iff_exists.mp hne
  dsimp only
  rw [← hq]
  rfl

theorem sum_split (g : Nat → Cost) {n : Nat} (hi : 1 ≤ i) (hij : i ≤ j) (hj : j < n) :
    ∑ k ∈ range (n - 1), g k = ∑ k ∈ range (i - 1), g k + g (i - 1) +
      ∑ k ∈ Finset.Ico i j, g k +
        if j + 1 < n then g j + ∑ k ∈ Finset.Ico (j + 1) (n - 1), g k else 0 := by
  have hfront : ∑ k ∈ Finset.range (i - 1), g k + g (i - 1) = ∑ k ∈ Finset.range i, g k := by
    rw [← Finset.sum_range_succ, Nat.sub_add_cancel hi]
  rw [hfront, Finset.range_eq_Ico, Finset.range_eq_Ico, Finset.sum_Ico_consecutive g (by omega) hij]
  split
  · rw [← sum_eq_sum_Ico_succ_bot (by omega), sum_Ico_consecutive g (by omega)
      (by omega)]
  · rw [add_zero, show n - 1 = j by omega]

theorem tourCost_reversed (m : Nat → Nat → Cost) (hi : 1 ≤ i) (hij : i ≤ j) (hj : j < t.length) :
    tourCost m (reversed t i j) = ∑ k ∈ range (i - 1), edge m t k +
      m (stop t (i - 1)) (stop t j) + ∑ k ∈ Finset.Ico i j, wayBack m t k +
        if j + 1 < t.length then m (stop t i) (stop t (j + 1)) +
          ∑ k ∈ Finset.Ico (j + 1) (t.length - 1), edge m t k else 0 := by
  have hstop := stop_reversed (t := t) hij hj
  have hout : ∀ k, k + 1 < i ∨ j < k → edge m (reversed t i j) k = edge m t k := by
    intro k hk
    rw [edge, hstop, hstop, if_neg (by omega), if_neg (by omega), edge]
  have hin : ∀ k ∈ Finset.Ico i j,
      edge m (reversed t i j) k = wayBack m t (i + j - 1 - k) := by
    intro k hk
    obtain ⟨hk, hk'⟩ := mem_Ico.mp hk
    rw [edge, hstop, hstop, if_pos (by omega), if_pos (by omega), wayBack]
    congr 2 <;> omega
  rw [tourCost, length_reversed hij hj, sum_split _ hi hij hj,
    Finset.sum_congr rfl fun k hk => hout k (.inl (by have := Finset.mem_range.mp hk; omega)),
    Finset.sum_congr rfl hin, Finset.sum_Ico_reflect (wayBack m t) i (by omega),
    Finset.sum_congr rfl fun k hk => hout k (.inr (by have := Finset.mem_Ico.mp hk; omega))]
  have hlast : edge m (reversed t i j) (i - 1) = m (stop t (i - 1)) (stop t j) := by
    rw [edge, hstop, hstop, if_neg (by omega), if_pos (by omega)]
    congr 2
    omega
  have hnext : edge m (reversed t i j) j = m (stop t i) (stop t (j + 1)) := by
    rw [edge, hstop, hstop, if_pos (by omega), if_neg (by omega)]
    congr 2
    omega
  have hends : i + j - 1 + 1 - j = i ∧ i + j - 1 + 1 - i = j := by omega
  rw [hlast, hnext, hends.1, hends.2]

/-! ## Both judgements -/

theorem revPrefix_eq (hf : Finite m t f) {p : Nat} (hp : p ≤ t.length - 1) :
    revPrefix m t p =
      ofCost (∑ k ∈ range p, (wayBack m t k + ((-f k : ℚ) : Cost))) := by
  induction p with
  | zero => rfl
  | succ p ih =>
    rw [revPrefix, ih (by omega), hf p (by omega), ofCost_sub, ofCost_add, Finset.sum_range_succ]

theorem sum_coe (hf : Finite m t f) {s : Finset Nat} (hs : ∀ k ∈ s, k < t.length - 1) :
    ∑ k ∈ s, edge m t k = ((∑ k ∈ s, f k : ℚ) : Cost) := by
  rw [WithTop.coe_sum]
  exact sum_congr rfl fun k hk => hf k (hs k hk)

/-- What is behind the first `i` edges of the prefix. -/
theorem revPrefix_from (hf : Finite m t f) (hij : i ≤ j) (hj : j ≤ t.length - 1) {x : ℚ}
    (hx : revPrefix m t i = ofCost (x : Cost)) :
    revPrefix m t j = ofCost (x + (∑ k ∈ Finset.Ico i j, wayBack m t k +
      ((-∑ k ∈ Finset.Ico i j, f k : ℚ) : Cost))) := by
  induction j, hij using Nat.le_induction with
  | base =>
    rw [hx, Finset.Ico_self, sum_empty, sum_empty, neg_zero]
    exact congrArg ofCost (by rw [WithTop.coe_zero, add_zero, add_zero])
  | succ j hij ih =>
    rw [revPrefix, ih (by omega), hf j (by omega), ofCost_sub, ofCost_add,
      sum_Ico_succ_top hij, sum_Ico_succ_top hij, neg_add, WithTop.coe_add, add_assoc,
      add_add_add_comm]

theorem exchange (a b c d e x : ℚ) (u v w : Cost) :
    ((a : Cost) + b + c + (d + e)) + ((u + (-b : ℚ)) + (v + (-d : ℚ)) +
      ((x : Cost) + (w + (-c : ℚ)) + (-x : ℚ))) = a + u + w + (v + e) := by
  cases u <;> cases v <;> cases w <;> try rfl
  refine congrArg some ?_
  ring

theorem byDelta_eq (hf : Finite m t f) (hi : 1 ≤ i) (hij : i < j) (hj : j < t.length)
    (hback : ∀ k < i, wayBack m t k ≠ ⊤) :
    byDelta m t (ofCost (tourCost m t)) (i, j) = bySum m t (.fin 0) (i, j) := by
  obtain ⟨x, hx⟩ : ∃ x : ℚ, revPrefix m t i = ofCost (x : Cost) := by
    rw [revPrefix_eq hf (by omega)]
    refine (WithTop.ne_top_iff_exists.mp fun htop => ?_).imp fun x hx => congrArg ofCost hx.symm
    obtain ⟨k, hk, htop⟩ := WithTop.sum_eq_top.mp htop
    exact hback k (Finset.mem_range.mp hk)
      ((WithTop.add_eq_top.mp htop).resolve_right WithTop.coe_ne_top)
  have hfirst := hf (i - 1) (by omega)
  have hfront := sum_coe hf (s := Finset.range (i - 1)) fun k hk => by
    have := Finset.mem_range.mp hk
    omega
  have hseg := sum_coe hf (s := Finset.Ico i j) fun k hk => by
    have := mem_Ico.mp hk
    omega
  have hcost := sum_split (edge m t) hi hij.le hj
  rw [hfront, hseg, hfirst] at hcost
  rw [byDelta, bySum, tourCost_reversed m hi hij.le hj, delta, revPrefix_from hf hij.le (by omega) hx,
    hx, ofCost_sub, hfirst, ofCost_sub, tourCost, hcost, hfront]
  by_cases hlast : j + 1 < t.length
  · have hrest := sum_coe hf (s := Finset.Ico (j + 1) (t.length - 1)) fun k hk => by
      have := mem_Ico.mp hk
      omega
    rw [if_pos hlast, if_pos hlast, if_pos hlast, hf j (by omega), ofCost_sub, ofCost_add, ofCost_add,
      ofCost_add, hrest]
    exact congrArg ofCost (exchange ..)
  · rw [if_neg hlast, if_neg hlast, if_neg hlast, ofCost_add, ofCost_add]
    have hsum := exchange (∑ k ∈ range (i - 1), f k) (f (i - 1)) (∑ k ∈ Finset.Ico i j, f k)
      0 0 x (m (stop t (i - 1)) (stop t j)) 0 (∑ k ∈ Finset.Ico i j, wayBack m t k)
    simp only [neg_zero, WithTop.coe_zero, add_zero] at hsum
    simp only [add_zero]
    exact congrArg ofCost hsum

theorem byDelta_blocked (hf : Finite m t f) (hij : i < j) (hj : j < t.length) {k : Nat} (hk : k < i)
    (hback : wayBack m t k = ⊤) (best : Number) : byDelta m t best (i, j) = .nan := by
  have hinf : ∀ p, k < p → p ≤ t.length - 1 → revPrefix m t p = .inf false := by
    intro p hp hle
    rw [revPrefix_eq hf hle, WithTop.sum_eq_top.mpr
      ⟨k, mem_range.mpr hp, by rw [hback, WithTop.top_add]⟩]
    rfl
  have hnan : (revPrefix m t j).sub (revPrefix m t i) = .nan := by
    rw [hinf j (by omega) (by omega), hinf i hk (by omega)]
    rfl
  have hadd : ∀ x : Number, x.add .nan = .nan := by
    intro x
    cases x <;> rfl
  rw [byDelta, delta, hnan, hadd, hadd]

/-! ## Every scan -/

theorem mem_segments {n : Nat} {isRoundtrip : Bool} {ij : Nat × Nat}
    (h : ij ∈ segments n isRoundtrip) :
    1 ≤ ij.1 ∧ ij.1 < ij.2 ∧ ij.2 < n ∧ (isRoundtrip → ij.2 + 1 < n) := by
  obtain ⟨i, hi, hmem⟩ := mem_flatMap.mp h
  obtain ⟨j, hj, rfl⟩ := mem_map.mp hmem
  rw [mem_range'_1] at hi hj
  refine ⟨by omega, by omega, ?_, fun ht => ?_⟩
  · split at hj <;> omega
  · rw [if_pos ht] at hj
    omega

theorem segments_sorted (n : Nat) (isRoundtrip : Bool) :
    (segments n isRoundtrip).Pairwise (·.1 ≤ ·.1) := by
  refine pairwise_flatMap.mpr ⟨fun i _ => ?_, ?_⟩
  · exact pairwise_map.mpr (pairwise_of_forall fun _ _ => le_rfl)
  · refine (pairwise_lt_range' ..).imp fun {a b} hab x hx y hy => ?_
    obtain ⟨_, _, rfl⟩ := mem_map.mp hx
    obtain ⟨_, _, rfl⟩ := mem_map.mp hy
    exact hab.le

theorem findSome?_guarded {α β : Type} {f g : α → Option β} (pass : α → Prop) [DecidablePred pass] :
    ∀ {l : List α}, l.Pairwise (fun a b => pass b → pass a) →
      (∀ a ∈ l, f a = if pass a then g a else none) →
      l.findSome? f = (l.find? fun a => (g a).isSome).bind f
  | [], _, _ => rfl
  | a :: l, h, hf => by
    obtain ⟨hfirst, hrest⟩ := pairwise_cons.mp h
    obtain ⟨hfa, hfl⟩ := forall_mem_cons.mp hf
    rw [findSome?_cons, find?_cons]
    cases hg : g a with
    | none =>
      rw [hfa, hg, ite_self]
      exact findSome?_guarded pass hrest hfl
    | some b =>
      by_cases hp : pass a
      · simp [hfa, hp, hg]
      have hnone : l.findSome? f = none := by
        refine findSome?_eq_none_iff.mpr fun x hx => ?_
        rw [hfl x hx, if_neg fun hpass => hp (hfirst x hx hpass)]
      simp [hfa, hp, hnone]

/-- The scan of `_two_opt` is the one that adds up, as far as every edge has a way back. -/
theorem accept_byDelta (h : tourCost m t ≠ ⊤) {isRoundtrip : Bool} {ij : Nat × Nat}
    (hmem : ij ∈ segments t.length isRoundtrip) :
    accept (ofCost (tourCost m t)) t ij (byDelta m t (ofCost (tourCost m t)) ij) =
      if ∀ k < ij.1, wayBack m t k ≠ ⊤ then
        accept (ofCost (tourCost m t)) t ij (bySum m t (.fin 0) ij) else none := by
  obtain ⟨f, hf⟩ := exists_finite h
  obtain ⟨hi, hij, hj, _⟩ := mem_segments hmem
  split
  · rename_i hback
    rw [byDelta_eq hf hi hij hj hback]
  · rename_i hback
    push Not at hback
    obtain ⟨k, hk, htop⟩ := hback
    rw [byDelta_blocked hf hij hj hk htop]
    rfl

/-- The first segment that costs less when it is reversed. -/
def firstBetter (m : Nat → Nat → Cost) (isRoundtrip : Bool) (t : List Nat) : Option (Nat × Nat) :=
  (segments t.length isRoundtrip).find? fun ij =>
    (accept (ofCost (tourCost m t)) t ij (bySum m t (.fin 0) ij)).isSome

theorem accept_eq_some {best cost : Number} {ij : Nat × Nat} {next : List Nat × Number}
    (h : accept best t ij cost = some next) :
    cost.lt (best.sub (fin (1 / 10000))) ∧ next = (reversed t ij.1 ij.2, cost) := by
  rw [accept] at h
  split at h
  · rename_i hlt
    exact ⟨hlt, (some.inj h).symm⟩
  · cases h

/-- What a reversal leaves as it was, and that the tour costs less. -/
structure Better (m : Nat → Nat → Cost) (isRoundtrip : Bool) (t u : List Nat) : Prop where
  perm : u.Perm t
  head : u.head? = t.head?
  last : isRoundtrip = true → u.getLast? = t.getLast?
  cost : tourCost m u < tourCost m t

theorem better_of_firstBetter (h : tourCost m t ≠ ⊤) {isRoundtrip : Bool} {ij : Nat × Nat}
    (hij : firstBetter m isRoundtrip t = some ij) :
    Better m isRoundtrip t (reversed t ij.1 ij.2) ∧
      accept (ofCost (tourCost m t)) t ij (bySum m t (.fin 0) ij) =
        some (reversed t ij.1 ij.2, ofCost (tourCost m (reversed t ij.1 ij.2))) := by
  obtain ⟨hi, hlt, hj, hlast⟩ := mem_segments (mem_of_find?_eq_some hij)
  have hsome := find?_some (p := fun ij =>
    (accept (ofCost (tourCost m t)) t ij (bySum m t (.fin 0) ij)).isSome) hij
  obtain ⟨next, hnext⟩ := isSome_iff_exists.mp hsome
  obtain ⟨hcost, hnext'⟩ := accept_eq_some hnext
  obtain ⟨q, hq⟩ := WithTop.ne_top_iff_exists.mp h
  rw [← hq, show fin (1 / 10000) = ofCost ((1 / 10000 : ℚ) : Cost) from rfl, ofCost_sub,
    ← WithTop.coe_add, bySum] at hcost
  refine ⟨⟨reversed_perm t hlt.le, ?_, fun ht => ?_, ?_⟩, by rw [hnext, hnext', bySum]⟩
  · rw [head?_eq_getElem?, getElem?_reversed hlt.le hj, if_neg (by omega),
      head?_eq_getElem?]
  · have hend := hlast ht
    rw [getLast?_eq_getElem?, length_reversed hlt.le hj, getElem?_reversed hlt.le hj,
      if_neg (by omega), getLast?_eq_getElem?]
  · rw [← hq]
    exact (lt_iff.mp hcost).trans (WithTop.coe_lt_coe.mpr (by linarith))

theorem improve_bySum (h : tourCost m t ≠ ⊤) (isRoundtrip : Bool) :
    improve (bySum m) isRoundtrip t (ofCost (tourCost m t)) =
      (firstBetter m isRoundtrip t).map fun ij =>
        (reversed t ij.1 ij.2, ofCost (tourCost m (reversed t ij.1 ij.2))) := by
  refine (findSome?_guarded (g := fun ij =>
    accept (ofCost (tourCost m t)) t ij (bySum m t (.fin 0) ij)) (fun _ => True)
    ((segments_sorted ..).imp fun _ _ => trivial) fun _ _ => (if_pos trivial).symm).trans ?_
  change (firstBetter m isRoundtrip t).bind _ = _
  cases hij : firstBetter m isRoundtrip t with
  | none => rfl
  | some ij => exact (better_of_firstBetter h hij).2

theorem improve_byDelta (h : tourCost m t ≠ ⊤) (isRoundtrip : Bool) :
    improve (byDelta m) isRoundtrip t (ofCost (tourCost m t)) =
      (firstBetter m isRoundtrip t).bind fun ij => if ∀ k < ij.1, wayBack m t k ≠ ⊤ then
        some (reversed t ij.1 ij.2, ofCost (tourCost m (reversed t ij.1 ij.2))) else none := by
  rw [improve, findSome?_guarded (fun ij : Nat × Nat => ∀ k < ij.1, wayBack m t k ≠ ⊤)
    ((segments_sorted ..).imp fun hab hb k hk => hb k (lt_of_lt_of_le hk hab))
    fun ij hmem => accept_byDelta h hmem]
  change (firstBetter m isRoundtrip t).bind _ = _
  cases hij : firstBetter m isRoundtrip t with
  | none => rfl
  | some ij =>
    rw [bind_some, bind_some,
      accept_byDelta h (mem_of_find?_eq_some hij), (better_of_firstBetter h hij).2]

/-! ## The whole search -/

/-- The tour that adds up costs no more, and is made of the same stops. -/
structure Kept (m : Nat → Nat → Cost) (isRoundtrip : Bool) (t u : List Nat) : Prop where
  perm : u.Perm t
  head : u.head? = t.head?
  last : isRoundtrip = true → u.getLast? = t.getLast?
  cost : tourCost m u ≤ tourCost m t

theorem search_kept (isRoundtrip : Bool) (fuel : Nat) (h : tourCost m t ≠ ⊤) :
    Kept m isRoundtrip t (search (bySum m) isRoundtrip fuel t (ofCost (tourCost m t))) := by
  induction fuel generalizing t with
  | zero => exact ⟨.refl _, rfl, fun _ => rfl, le_rfl⟩
  | succ fuel ih =>
    rw [search, improve_bySum h]
    cases hij : firstBetter m isRoundtrip t with
    | none => exact ⟨.refl _, rfl, fun _ => rfl, le_rfl⟩
    | some ij =>
      have hbetter := (better_of_firstBetter h hij).1
      have hkept := ih (hbetter.cost.trans_le le_top).ne
      exact ⟨hkept.perm.trans hbetter.perm, hkept.head.trans hbetter.head,
        fun ht => (hkept.last ht).trans (hbetter.last ht), hkept.cost.trans hbetter.cost.le⟩

theorem search_eq_iff {isRoundtrip : Bool} (fuel : Nat) (h : tourCost m t ≠ ⊤) :
    search (byDelta m) isRoundtrip fuel t (ofCost (tourCost m t)) =
        search (bySum m) isRoundtrip fuel t (ofCost (tourCost m t)) ↔
      Unblocked m isRoundtrip fuel t := by
  induction fuel generalizing t with
  | zero => exact iff_of_true rfl trivial
  | succ fuel ih =>
    rw [search, search, improve_byDelta h, improve_bySum h, Unblocked]
    change _ ↔ ∀ ij, firstBetter m isRoundtrip t = some ij → _
    cases hij : firstBetter m isRoundtrip t with
    | none => exact iff_of_true rfl fun ij hij => by cases hij
    | some ij =>
      have hbetter := (better_of_firstBetter h hij).1
      have hfinite := (hbetter.cost.trans_le le_top).ne
      rw [bind_some, map_some]
      by_cases hback : ∀ k < ij.1, wayBack m t k ≠ ⊤
      · rw [if_pos hback]
        constructor
        · rintro heq _ ⟨rfl⟩
          exact ⟨hback, (ih hfinite).mp heq⟩
        · intro hall
          exact (ih hfinite).mpr (hall ij rfl).2
      · rw [if_neg hback]
        refine iff_of_false (fun heq => ?_) fun hall => hback (hall ij rfl).1
        -- the scan that stops keeps the dearer tour
        have hcost := (search_kept isRoundtrip fuel hfinite).cost.trans_lt hbetter.cost
        exact hcost.ne' (congrArg (tourCost m) heq)

/-- `_two_opt` ends with the tour of the search that adds up every candidate, made of the stops of
the tour it was given and no dearer, exactly if no round's first improvement lies behind an edge
without a way back. -/
theorem twoOpt_iff (m : Nat → Nat → Cost) (t : List Nat) (isRoundtrip : Bool)
    (h : tourCost m t ≠ ⊤) :
    twoOpt m t isRoundtrip = naiveTwoOpt m t isRoundtrip ∧
        Kept m isRoundtrip t (twoOpt m t isRoundtrip) ↔
      Unblocked m isRoundtrip 100 t := by
  refine ⟨fun heq => (search_eq_iff 100 h).mp heq.1, fun hfree => ?_⟩
  have heq : twoOpt m t isRoundtrip = naiveTwoOpt m t isRoundtrip :=
    (search_eq_iff 100 h).mpr hfree
  rw [heq]
  exact ⟨rfl, search_kept _ 100 h⟩

/-- Three stops in a row: no way leads back from the second to the first, and it is shorter to visit
the third stop before the second. -/
def oneWay : Nat → Nat → Cost
  | 1, 0 => ⊤
  | 0, 1 => 10
  | 1, 2 => 10
  | _, _ => 1

theorem twoOpt_iff_oneWay :
    twoOpt oneWay [1, 2, 0] false = naiveTwoOpt oneWay [1, 2, 0] false ∧
        Kept oneWay false [1, 2, 0] (twoOpt oneWay [1, 2, 0] false) ↔
      Unblocked oneWay false 100 [1, 2, 0] :=
  twoOpt_iff oneWay [1, 2, 0] false (by decide)

theorem one_way_blocks :
    ¬ ∀ (m : Nat → Nat → Cost) (t : List Nat) (isRoundtrip : Bool), (∀ a b, 0 ≤ m a b) →
      tourCost m t ≠ ⊤ → twoOpt m t isRoundtrip = naiveTwoOpt m t isRoundtrip := by
  intro h
  have heq := h oneWay [0, 1, 2] false (by
    intro a b
    unfold oneWay
    split <;> decide) (by decide)
  have hdelta : twoOpt oneWay [0, 1, 2] false = [0, 1, 2] := by decide +kernel
  have hsum : naiveTwoOpt oneWay [0, 1, 2] false = [0, 2, 1] := by decide +kernel
  rw [hdelta, hsum] at heq
  cases heq

/-! ## The order of the stops of a route -/

/-- The one of least cost, the lower of two. -/
def least {α : Type} [LT α] [DecidableLT α] (cost : α → Cost) (a b : α) : α :=
  if cost b < cost a ∨ cost b = cost a ∧ b < a then b else a

/-- The stops behind `current`, always the nearest of those that are left. -/
def greedy (m : Nat → Nat → Cost) : Nat → Nat → List Nat → List Nat
  | fuel + 1, current, u :: unvisited =>
    let nxt := unvisited.foldl (least (m current)) u
    nxt :: greedy m fuel nxt ((u :: unvisited).erase nxt)
  | _, _, _ => []

/-- From the depot, which is stop 0, or from every stop. -/
def candidateTours (m : Nat → Nat → Cost) (n : Nat) (depot : Bool) : List (List Nat) :=
  (if depot then [0] else List.range n).map fun start =>
    start :: greedy m n start ((List.range n).erase start)

/-- The order that `optimize_route` visits at least two stops in; none for `DisconnectedNetwork`. -/
def optimizeRoute (m : Nat → Nat → Cost) (n : Nat) (depot endAtDepot : Bool) :
    Option (List Nat) :=
  match candidateTours m n depot with
  | [] => none
  | t :: ts =>
    let tour := ts.foldl (least (tourCost m)) t ++ if depot && endAtDepot then [0] else []
    if ∃ k < tour.length - 1, edge m tour k = ⊤ then none
    else some (twoOpt m tour (depot && endAtDepot))

theorem least_spec {α : Type} [LT α] [DecidableLT α] (cost : α → Cost) (l : List α) (a : α) :
    l.foldl (least cost) a ∈ a :: l ∧ ∀ x ∈ a :: l, cost (l.foldl (least cost) a) ≤ cost x := by
  induction l generalizing a with
  | nil => simp
  | cons b l ih =>
    obtain ⟨hmem, hle⟩ := ih (least cost a b)
    have hab : (least cost a b = a ∨ least cost a b = b) ∧
        cost (least cost a b) ≤ cost a ∧ cost (least cost a b) ≤ cost b := by
      unfold least
      split
      · rename_i h
        exact ⟨.inr rfl, h.elim le_of_lt fun h => h.1.le, le_rfl⟩
      · rename_i h
        rw [not_or] at h
        exact ⟨.inl rfl, le_rfl, not_lt.mp h.1⟩
    have hfirst := hle _ mem_cons_self
    refine ⟨?_, fun x hx => ?_⟩
    · rcases mem_cons.mp hmem with heq | hmem
      · rw [foldl_cons, heq]
        rcases hab.1 with h | h <;> simp [h]
      · exact mem_cons_of_mem _ (mem_cons_of_mem _ hmem)
    · rcases mem_cons.mp hx with rfl | hx
      · exact hfirst.trans hab.2.1
      · rcases mem_cons.mp hx with rfl | hx
        · exact hfirst.trans hab.2.2
        · exact hle x (mem_cons_of_mem _ hx)

theorem greedy_perm (m : Nat → Nat → Cost) (fuel current : Nat) (unvisited : List Nat)
    (h : unvisited.length ≤ fuel) : (greedy m fuel current unvisited).Perm unvisited := by
  induction fuel generalizing current unvisited with
  | zero => rw [length_eq_zero_iff.mp (Nat.le_zero.mp h)]; rfl
  | succ fuel ih =>
    cases unvisited with
    | nil => rfl
    | cons u unvisited =>
      have hmem := (least_spec (m current) unvisited u).1
      refine ((ih _ _ ?_).cons _).trans (perm_cons_erase hmem).symm
      rw [length_erase_of_mem hmem]
      exact Nat.sub_le_of_le_add h

theorem twoOpt_kept (h : tourCost m t ≠ ⊤) (isRoundtrip : Bool) :
    Kept m isRoundtrip t (twoOpt m t isRoundtrip) := by
  unfold twoOpt
  generalize 100 = fuel
  induction fuel generalizing t with
  | zero => exact ⟨.refl _, rfl, fun _ => rfl, le_rfl⟩
  | succ fuel ih =>
    rw [search, improve_byDelta h]
    cases hij : firstBetter m isRoundtrip t with
    | none => exact ⟨.refl _, rfl, fun _ => rfl, le_rfl⟩
    | some ij =>
      rw [bind_some]
      split
      · exact ⟨.refl _, rfl, fun _ => rfl, le_rfl⟩
      rename_i next hnext
      obtain ⟨-, heq⟩ := ite_none_right_eq_some.mp hnext
      obtain rfl := some.inj heq
      have hbetter := (better_of_firstBetter h hij).1
      have hkept := ih (hbetter.cost.trans_le le_top).ne
      exact ⟨hkept.perm.trans hbetter.perm, hkept.head.trans hbetter.head,
        fun ht => (hkept.last ht).trans (hbetter.last ht), hkept.cost.trans hbetter.cost.le⟩

theorem perm_of_candidate {n : Nat} (hn : 0 < n) {depot : Bool}
    (h : t ∈ candidateTours m n depot) :
    t.Perm (List.range n) ∧ (depot → t.head? = some 0) := by
  obtain ⟨start, hstart, rfl⟩ := mem_map.mp h
  have hmem : start ∈ List.range n := by
    cases depot with
    | true => rwa [List.mem_singleton.mp hstart, List.mem_range]
    | false => exact hstart
  refine ⟨((greedy_perm m n start _ ?_).cons _).trans (perm_cons_erase hmem).symm, fun hd => ?_⟩
  · rw [length_erase_of_mem hmem, length_range]
    exact Nat.sub_le n 1
  · subst hd
    rw [List.mem_singleton.mp hstart]
    rfl

/-- A route passes every stop once, begins at the depot and ends there if it has to, has a way
    for every leg, and is no dearer than any of the greedy tours. -/
theorem optimizeRoute_visits (m : Nat → Nat → Cost) {n : Nat} (hn : 0 < n)
    (depot endAtDepot : Bool) {tour : List Nat}
    (h : optimizeRoute m n depot endAtDepot = some tour) :
    let closing := if depot && endAtDepot then [0] else []
    tour.Perm (List.range n ++ closing) ∧ (depot → tour.head? = some 0) ∧
      (depot && endAtDepot → tour.getLast? = some 0) ∧ tourCost m tour ≠ ⊤ ∧
        ∀ t ∈ candidateTours m n depot, tourCost m tour ≤ tourCost m (t ++ closing) := by
  unfold optimizeRoute at h
  dsimp only
  split at h
  · cases h
  rename_i t ts hcandidates
  dsimp only at h
  obtain ⟨hmem, hle⟩ := least_spec (tourCost m) ts t
  rw [← hcandidates] at hmem hle
  generalize ts.foldl (least (tourCost m)) t = best at h hmem hle
  obtain ⟨hperm, hhead⟩ := perm_of_candidate hn hmem
  generalize hclosing : (if depot && endAtDepot then [0] else []) = closing at h ⊢
  obtain ⟨hways, heq⟩ := ite_none_left_eq_some.mp h
  obtain rfl := some.inj heq
  have hfinite : tourCost m (best ++ closing) ≠ ⊤ := fun htop => by
    obtain ⟨k, hk, hedge⟩ := WithTop.sum_eq_top.mp htop
    exact hways ⟨k, Finset.mem_range.mp hk, hedge⟩
  have hkept := twoOpt_kept hfinite (depot && endAtDepot)
  refine ⟨hkept.perm.trans (hperm.append_right _), fun hd => ?_, fun hends => ?_,
    (hkept.cost.trans_lt hfinite.lt_top).ne, fun t ht => hkept.cost.trans ?_⟩
  · rw [hkept.head, head?_append, hhead hd]
    rfl
  · rw [hkept.last hends, ← hclosing, if_pos hends, getLast?_concat]
  · cases hd : depot && endAtDepot with
    | true =>
      -- with a depot there is one greedy tour
      obtain ⟨rfl, -⟩ := Bool.and_eq_true_iff.mp hd
      rw [List.mem_singleton.mp ht, List.mem_singleton.mp hmem]
    | false =>
      rw [← hclosing, hd, if_neg Bool.false_ne_true, append_nil, append_nil]
      exact hle t ht

theorem optimizeRoute_visits_depot : ∃ tour, optimizeRoute oneWay 3 true false = some tour ∧
    tour.Perm [0, 1, 2] := by
  have hsome : (optimizeRoute oneWay 3 true false).isSome := by decide +kernel
  obtain ⟨tour, htour⟩ := isSome_iff_exists.mp hsome
  exact ⟨tour, htour, (optimizeRoute_visits oneWay (by decide) true false htour).1⟩

end WebGis.Network
