/-
  The programs for the exact solver and the objectives of the enumeration.

  The programs for p-median and p-center assign every demand that some candidate can serve, so they
  have a solution only where a set of sites can serve all of it; there the optimum costs least among
  these sets. The program for the greatest coverage always has one.
-/
import WebGis.Network.Rows

namespace WebGis.Network

open Data List Problem
open Option hiding max_eq_left max_eq_right

namespace Problem

variable {P : Problem} {subset : List Nat} {x : Nat → Rat} {xCol yCol : Nat} {z : Rat}

/-! ## p-median -/

theorem sum_range {n : Nat} (f : Nat → Rat) :
    ((List.range n).map f).sum = ∑ i ∈ Finset.range n, f i := by
  induction n with
  | zero => rfl
  | succ n ih =>
    rw [range_succ, map_append, sum_append, ih, Finset.sum_range_succ]
    simp

theorem sum_filter {is : List Nat} {p : Nat → Prop} [DecidablePred p] (f : Nat → Rat) :
    ((is.filter fun i => p i).map f).sum = (is.map fun i => if p i then f i else 0).sum := by
  induction is with
  | nil => rfl
  | cons i is ih =>
    rw [filter_cons, map_cons, sum_cons, ← ih]
    by_cases h : p i <;> simp [h]

theorem coverableCost_eq : P.coverableCost subset = ∑ i ∈ Finset.range P.demands,
    if P.Coverable i then P.weight i * (P.minCost subset i).untopD 0 else 0 := by
  unfold coverableCost
  rw [sum_filter, sum_range]

/-- A sum whose coefficients depend on the demand only, in columns that assign. -/
theorem Assigns.dot_demands (h : P.Assigns yCol xCol x) (f : Nat → Rat) :
    dot x xCol (P.pairs.map fun pair => f pair.1) = ∑ i ∈ Finset.range P.demands,
      if P.Coverable i then f i else 0 := by
  rw [dot_shares x (s := Finset.range P.demands) fun pair hp =>
    Finset.mem_range.mpr (mem_pairs.mp hp).1]
  refine Finset.sum_congr rfl fun i hi => ?_
  have hi := Finset.mem_range.mp hi
  by_cases hc : P.Coverable i
  · rw [if_pos hc, h.share_eq_one hi hc, mul_one]
  rw [if_neg hc, share_eq_zero fun pair hp heq => hc ?_, mul_zero]
  exact (coverable_iff hi).mpr ⟨pair.2, heq ▸ hp⟩

theorem value_pMedian : P.pMedianModel.value x = dot x P.facilities
    (P.pairs.map fun pair => P.weight pair.1 * P.pairCost pair) := by
  unfold Milp.value pMedianModel
  rw [dot_append, dot_zeros, length_replicate, zero_add, zero_add]

/-- The sets of sites that can serve all demand that some candidate can serve. -/
def reaching (P : Problem) : Finset (List Nat) :=
  (P.subsets.filter fun subset => P.ReachesAll subset).toFinset

theorem mem_reaching : subset ∈ P.reaching ↔ subset ∈ P.subsets ∧ P.ReachesAll subset := by
  simp [reaching]

variable {pair : Nat × Nat}

theorem minCost_pair (hj : pair.2 ∈ subset) (hp : pair ∈ P.pairs) :
    (P.minCost subset pair.1).untopD 0 ≤ P.pairCost pair := by
  have hle := minCost_le (P := P) (i := pair.1) hj
  have hfinite := (mem_pairs.mp hp).2.2
  unfold pairCost
  obtain ⟨c, hc⟩ := WithTop.ne_top_iff_exists.mp hfinite
  rw [← hc] at hle ⊢
  obtain ⟨m, hm, hmc⟩ := WithTop.le_coe_iff.mp hle
  rw [hm]
  exact hmc

theorem weight_nonneg (hw : ∀ w ∈ P.weights, 0 ≤ w) (i : Nat) : 0 ≤ P.weight i := by
  unfold weight
  rw [getD_eq_getElem?_getD]
  cases h : P.weights[i]? with
  | none => exact le_refl _
  | some w => exact hw w (mem_of_getElem? h)

theorem Assigns.coverableCost_le (h : P.Assigns yCol xCol x) (hw : ∀ w ∈ P.weights, 0 ≤ w) :
    P.coverableCost (P.selected yCol x) ≤
      dot x xCol (P.pairs.map fun pair => P.weight pair.1 * P.pairCost pair) := by
  rw [coverableCost_eq, ← h.dot_demands fun i =>
    P.weight i * (P.minCost (P.selected yCol x) i).untopD 0]
  refine dot_le x fun n pair hn => ?_
  rcases h.uses n pair hn with hx | hx
  · rw [hx, mul_zero, mul_zero]
  have hcost := minCost_pair (h.used hn hx) (mem_of_getElem? hn)
  rw [hx, mul_one, mul_one]
  exact mul_le_mul_of_nonneg_left hcost (weight_nonneg hw _)

theorem dot_choice (hs : subset ∈ P.subsets) (hall : P.ReachesAll subset) :
    dot (P.choice z yCol subset) (yCol + P.facilities)
      (P.pairs.map fun pair => P.weight pair.1 * P.pairCost pair) = P.coverableCost subset := by
  have h : P.Assigns yCol (yCol + P.facilities) (P.choice z yCol subset) := assigns_choice hs hall
  rw [coverableCost_eq, ← h.dot_demands fun i => P.weight i * (P.minCost subset i).untopD 0]
  refine dot_congr _ fun n pair hn => ?_
  rw [choice_pair hn]
  by_cases hnear : P.nearest subset pair.1 = some pair.2
  · rw [if_pos hnear, ← (nearest_eq_some hnear).2]
    rfl
  · rw [if_neg hnear, mul_zero, mul_zero]

theorem whole_of_binary {a : Rat} (h : a = 0 ∨ a = 1) : (∃ n : Int, a = n) ∧ 0 ≤ a ∧ a ≤ 1 := by
  rcases h with rfl | rfl
  · exact ⟨⟨0, rfl⟩, le_refl _, zero_le_one⟩
  · exact ⟨⟨1, rfl⟩, zero_le_one, le_refl _⟩

variable {k : Nat}

theorem Assigns.binary (h : P.Assigns yCol (yCol + P.facilities) x)
    (hk : k < P.facilities + P.pairs.length) : x (yCol + k) = 0 ∨ x (yCol + k) = 1 := by
  by_cases hsite : k < P.facilities
  · exact h.sites k hsite
  · have hn : k - P.facilities < P.pairs.length := by omega
    have hx := h.uses (k - P.facilities) _ (getElem?_eq_getElem hn)
    rwa [Nat.add_assoc, Nat.add_sub_cancel' (not_lt.mp hsite)] at hx

theorem feasible_pMedian : P.pMedianModel.Feasible x ↔ P.Assigns 0 (0 + P.facilities) x := by
  constructor
  · intro h
    have hbinary : ∀ k < P.facilities + P.pairs.length, x k = 0 ∨ x k = 1 := fun k hk =>
      h.binary (getElem?_replicate_of_lt hk)
    have hrows := h.constraints
    simp only [pMedianModel, forall_mem_append, forall_mem_singleton] at hrows
    rw [Nat.zero_add]
    refine ⟨fun j hj => ?_, fun n pair hn => ?_, hrows.1.1, hrows.1.2, hrows.2⟩
    · rw [Nat.zero_add]
      exact hbinary j (by omega)
    · have hlt := (List.getElem?_eq_some_iff.mp hn).1
      exact hbinary _ (by omega)
  · intro h
    have hcolumn : ∀ k u, P.pMedianModel.bounds[k]? = some u →
        u = 1 ∧ (x k = 0 ∨ x k = 1) := by
      intro k u hk
      unfold pMedianModel at hk
      rw [getElem?_replicate] at hk
      split at hk
      · rename_i hlt
        have hx := h.binary hlt
        rw [Nat.zero_add] at hx
        exact ⟨(some.inj hk).symm, hx⟩
      · cases hk
    refine ⟨fun k u hk => (whole_of_binary (hcolumn k u hk).2).1, fun k u hk => ?_, ?_⟩
    · rw [(hcolumn k u hk).1]
      exact (whole_of_binary (hcolumn k u hk).2).2
    · simp only [pMedianModel, forall_mem_append, forall_mem_singleton]
      have hassigned := h.assigned
      have hlinked := h.linked
      rw [Nat.zero_add] at hassigned hlinked
      exact ⟨⟨hassigned, hlinked⟩, h.counted⟩

theorem encodes_pMedian (hw : ∀ w ∈ P.weights, 0 ≤ w) :
    P.pMedianModel.Encodes P.reaching P.coverableCost (P.selected 0) where
  decoded := by
    intro x hx
    have h := feasible_pMedian.mp hx
    refine ⟨mem_reaching.mpr ⟨h.selected_mem, h.reachesAll⟩, ?_⟩
    rw [value_pMedian]
    have hle := h.coverableCost_le hw
    rwa [Nat.zero_add] at hle
  encoded := by
    intro subset hs
    obtain ⟨hs, hall⟩ := mem_reaching.mp hs
    refine ⟨P.choice 0 0 subset, feasible_pMedian.mpr (assigns_choice hs hall), ?_⟩
    rw [value_pMedian]
    have hvalue : dot (P.choice 0 0 subset) (0 + P.facilities) _ = _ := dot_choice hs hall
    rwa [Nat.zero_add] at hvalue

/-! ## p-center -/

theorem foldl_max_le {as : List Rat} {a b : Rat} :
    as.foldl max a ≤ b ↔ a ≤ b ∧ ∀ c ∈ as, c ≤ b := by
  induction as generalizing a with
  | nil => simp
  | cons c as ih =>
    rw [foldl_cons, ih, max_le_iff, forall_mem_cons, and_assoc]

theorem foldl_max_mem (as : List Rat) (a : Rat) : as.foldl max a = a ∨ as.foldl max a ∈ as := by
  induction as generalizing a with
  | nil => exact .inl rfl
  | cons c as ih =>
    rw [foldl_cons]
    rcases ih (max a c) with h | h
    · rcases max_choice a c with hmax | hmax
      · rw [h, hmax]
        exact .inl rfl
      · rw [h, hmax]
        exact .inr mem_cons_self
    · exact .inr (mem_cons_of_mem _ h)

theorem maxCost_le {b : Rat} : P.maxCost subset ≤ b ↔
    0 ≤ b ∧ ∀ i < P.demands, (P.minCost subset i).untopD 0 ≤ b := by
  unfold maxCost
  rw [foldl_max_le, List.forall_mem_map]
  simp only [mem_range]

theorem value_pCenter : P.pCenterModel.value x = x 0 := by
  unfold Milp.value pCenterModel
  rw [dot, dot_zeros, one_mul, add_zero]

theorem centerRow_holds :
    (P.centerRow (pair, k)).Holds x ↔ (P.pairCost pair + P.bigM) * x k - P.bigM ≤ x 0 := by
  simp only [centerRow, Constraint.Holds, Constraint.value, map_cons, map_nil, sum_cons, sum_nil,
    some.injEq, forall_eq', reduceCtorEq, false_imp_iff, forall_const, and_true]
  constructor
  · intro h
    linarith
  · intro h
    linarith

theorem le_bigM (h : pair ∈ P.pairs) : P.pairCost pair ≤ P.bigM := by
  have hmem : P.pairCost pair ∈ P.pairs.map P.pairCost := List.mem_map_of_mem h
  unfold bigM
  cases hcosts : P.pairs.map P.pairCost with
  | nil =>
    rw [hcosts] at hmem
    cases hmem
  | cons c cs =>
    rw [hcosts] at hmem
    rw [max?_cons', getD_some]
    have hall := foldl_max_le.mp (le_refl (cs.foldl max c))
    rcases mem_cons.mp hmem with heq | hmem
    · rw [heq]
      exact hall.1
    · exact hall.2 _ hmem

/-- All costs are whole numbers. -/
def Whole (P : Problem) : Prop :=
  ∀ i j c, P.cost i j = some c → ∃ n : Int, c = n

theorem exists_pair (hs : subset ∈ P.subsets) {i : Nat} (hi : i < P.demands)
    (hreach : P.Reaches subset i) :
    ∃ j ∈ subset, (i, j) ∈ P.pairs ∧ (P.minCost subset i).untopD 0 = P.pairCost (i, j) := by
  obtain ⟨k, hk, -⟩ := reaches_iff.mp hreach
  obtain ⟨j, hj, hcost⟩ := exists_minCost (P := P) (i := i) (ne_nil_of_mem hk)
  refine ⟨j, hj, mem_pairs.mpr ⟨hi, lt_of_mem_subsets hs hj, hcost ▸ hreach⟩, ?_⟩
  unfold pairCost
  rw [hcost]

theorem unreached_cost {i : Nat} (h : ¬ P.Reaches subset i) :
    (P.minCost subset i).untopD 0 = 0 := by
  rw [not_not.mp h]
  rfl

theorem maxCost_le_bigM (hs : subset ∈ P.subsets) (hM : 0 ≤ P.bigM) :
    P.maxCost subset ≤ P.bigM := by
  refine maxCost_le.mpr ⟨hM, fun i hi => ?_⟩
  by_cases hreach : P.Reaches subset i
  · obtain ⟨j, -, hpair, hcost⟩ := exists_pair hs hi hreach
    rw [hcost]
    exact le_bigM hpair
  · rw [unreached_cost hreach]
    exact hM

theorem maxCost_whole (hwhole : P.Whole) : ∃ n : Int, P.maxCost subset = n := by
  unfold maxCost
  rcases foldl_max_mem ((List.range P.demands).map fun i => (P.minCost subset i).untopD 0) 0
    with h | h
  · exact ⟨0, h⟩
  · obtain ⟨i, -, hi⟩ := List.mem_map.mp h
    rw [← hi]
    by_cases hreach : P.Reaches subset i
    · obtain ⟨k, hk, -⟩ := reaches_iff.mp hreach
      obtain ⟨j, -, hcost⟩ := exists_minCost (P := P) (i := i) (ne_nil_of_mem hk)
      obtain ⟨c, hc⟩ := WithTop.ne_top_iff_exists.mp hreach
      rw [← hc]
      exact hwhole i j c (hcost.symm.trans hc.symm)
    · rw [unreached_cost hreach]
      exact ⟨0, rfl⟩

theorem assigns_of_pCenter (h : P.pCenterModel.Feasible x) :
    P.Assigns 1 (1 + P.facilities) x := by
  have hbinary : ∀ k < P.facilities + P.pairs.length, x (1 + k) = 0 ∨ x (1 + k) = 1 := by
    intro k hk
    refine h.binary ?_
    rw [Nat.add_comm 1 k]
    exact getElem?_replicate_of_lt hk
  have hrows := h.constraints
  simp only [pCenterModel, forall_mem_append, forall_mem_singleton] at hrows
  refine ⟨fun j hj => hbinary j (by omega), fun n pair hn => ?_, hrows.1.1.1, hrows.1.1.2,
    hrows.1.2⟩
  have hlt := (List.getElem?_eq_some_iff.mp hn).1
  rw [Nat.add_assoc]
  exact hbinary _ (by omega)

theorem maxCost_le_value (h : P.pCenterModel.Feasible x) :
    P.maxCost (P.selected 1 x) ≤ x 0 := by
  have hassigns := assigns_of_pCenter h
  have hpos : 0 ≤ x 0 := (h.bounds 0 _ rfl).1
  refine maxCost_le.mpr ⟨hpos, fun i hi => ?_⟩
  by_cases hc : P.Coverable i
  · obtain ⟨n, pair, hn, rfl, hx⟩ := hassigns.exists_used hi hc
    have hrow : (P.centerRow (pair, 1 + P.facilities + n)).Holds x := by
      refine h.constraints _ (mem_append_right _ (List.mem_map_of_mem (f := P.centerRow) ?_))
      exact mk_add_mem_zipIdx_iff_getElem?.mpr hn
    have hle := centerRow_holds.mp hrow
    rw [hx] at hle
    have hcost := minCost_pair (hassigns.used hn hx) (mem_of_getElem? hn)
    linarith
  · have hnone : ¬ P.Reaches (P.selected 1 x) i := fun hreach =>
      hc (hreach.coverable filter_sublist)
    rw [unreached_cost hnone]
    exact hpos

/-- The program chooses a set that can serve all demand, at its greatest cost, where costs are
whole numbers. -/
theorem encodes_pCenter (hwhole : P.Whole) (hM : 0 ≤ P.bigM) :
    P.pCenterModel.Encodes P.reaching P.maxCost (P.selected 1) where
  decoded := by
    intro x hx
    have h := assigns_of_pCenter hx
    rw [value_pCenter]
    exact ⟨mem_reaching.mpr ⟨h.selected_mem, h.reachesAll⟩, maxCost_le_value hx⟩
  encoded := by
    intro subset hs
    obtain ⟨hs, hall⟩ := mem_reaching.mp hs
    have h : P.Assigns 1 (1 + P.facilities) (P.choice (P.maxCost subset) 1 subset) :=
      assigns_choice hs hall
    have hzero : P.choice (P.maxCost subset) 1 subset 0 = P.maxCost subset := by
      unfold choice
      rw [if_pos zero_lt_one]
    have hpos : 0 ≤ P.maxCost subset := (maxCost_le.mp (le_refl _)).1
    have hcolumn : ∀ k u, P.pCenterModel.bounds[k + 1]? = some u →
        u = 1 ∧ (P.choice (P.maxCost subset) 1 subset (k + 1) = 0 ∨
          P.choice (P.maxCost subset) 1 subset (k + 1) = 1) := by
      intro k u hk
      unfold pCenterModel at hk
      rw [getElem?_cons_succ, getElem?_replicate] at hk
      split at hk
      · rename_i hlt
        have hx := h.binary hlt
        rw [Nat.add_comm] at hx
        exact ⟨(some.inj hk).symm, hx⟩
      · cases hk
    refine ⟨P.choice (P.maxCost subset) 1 subset, ⟨fun k u hk => ?_, fun k u hk => ?_, ?_⟩, ?_⟩
    · cases k with
      | zero =>
        rw [hzero]
        exact maxCost_whole hwhole
      | succ k => exact (whole_of_binary (hcolumn k u hk).2).1
    · cases k with
      | zero =>
        rw [hzero, ← some.inj hk]
        exact ⟨hpos, maxCost_le_bigM hs hM⟩
      | succ k =>
        rw [(hcolumn k u hk).1]
        exact (whole_of_binary (hcolumn k u hk).2).2
    · simp only [pCenterModel, forall_mem_append, forall_mem_singleton]
      refine ⟨⟨⟨h.assigned, h.linked⟩, h.counted⟩, fun c hc => ?_⟩
      obtain ⟨⟨pair, k⟩, hk, rfl⟩ := List.mem_map.mp hc
      obtain ⟨hle, hget⟩ := mk_mem_zipIdx_iff_le_and_getElem?_sub.mp hk
      rw [centerRow_holds, hzero]
      have hx : P.choice (P.maxCost subset) 1 subset _ = _ := choice_pair hget
      rw [Nat.add_sub_cancel' hle] at hx
      rw [hx]
      by_cases hnear : P.nearest subset pair.1 = some pair.2
      · have hcost := (maxCost_le.mp (le_refl (P.maxCost subset))).2 pair.1
          (mem_pairs.mp (mem_of_getElem? hget)).1
        rw [← (nearest_eq_some hnear).2] at hcost
        rw [if_pos hnear]
        unfold pairCost
        linarith
      · rw [if_neg hnear]
        linarith
    · rw [value_pCenter, hzero]

/-! ## The greatest coverage -/

variable {cutoff : Cost} {i : Nat}

/-- A site of the set is within the cutoff. -/
def Serves (P : Problem) (cutoff : Cost) (subset : List Nat) (i : Nat) : Prop :=
  ∃ j ∈ subset, P.Within cutoff i j

instance : Decidable (P.Serves cutoff subset i) :=
  inferInstanceAs (Decidable (∃ j ∈ subset, P.Within cutoff i j))

/-- The demand counts for the program: it is served, or nothing can serve it. -/
def Counts (P : Problem) (cutoff : Cost) (subset : List Nat) (i : Nat) : Prop :=
  P.coverSet cutoff i = [] ∨ P.Serves cutoff subset i

instance : Decidable (P.Counts cutoff subset i) :=
  inferInstanceAs (Decidable (_ ∨ _))

/-- What the program pays for a set. -/
def coverCost (P : Problem) (cutoff : Cost) (subset : List Nat) : Rat :=
  ∑ i ∈ Finset.range P.demands, if P.Counts cutoff subset i then -max (P.weight i) 0 else 0

variable {j : Nat}

theorem mem_coverSet : j ∈ P.coverSet cutoff i ↔ j < P.facilities ∧ P.Within cutoff i j := by
  simp [coverSet]

theorem weights_eq : P.weights = (List.range P.demands).map P.weight := by
  refine ext_getElem (by simp [demands]) fun n h₁ h₂ => ?_
  simp [weight, h₁]

theorem dot_range {n : Nat} (f : Nat → Rat) :
    dot x k ((List.range n).map f) = ∑ i ∈ Finset.range n, f i * x (k + i) := by
  induction n with
  | zero => rfl
  | succ n ih =>
    rw [range_succ, map_append, dot_append, ih, Finset.sum_range_succ]
    simp [dot]

theorem value_maxCoverage : (P.maxCoverageModel cutoff).value x =
    ∑ i ∈ Finset.range P.demands, -P.weight i * x (P.facilities + i) := by
  unfold Milp.value maxCoverageModel
  rw [dot_append, dot_zeros, length_replicate, zero_add, zero_add, weights_eq, List.map_map]
  exact dot_range fun i => -P.weight i

theorem coverRow_holds : (P.coverRow cutoff i).Holds x ↔
    x (P.facilities + i) ≤ ((P.coverSet cutoff i).map x).sum := by
  have hsum : (((P.coverSet cutoff i).map fun j => (j, (-1 : Rat))).map
      fun e => e.2 * x e.1).sum = -((P.coverSet cutoff i).map x).sum := by
    rw [List.map_map]
    induction P.coverSet cutoff i with
    | nil => rfl
    | cons j js ih =>
      rw [map_cons, sum_cons, ih, map_cons, sum_cons]
      simp only [Function.comp]
      ring
  simp only [coverRow, Constraint.Holds, Constraint.value, map_cons, sum_cons, hsum]
  constructor
  · intro h
    have := h.2 0 rfl
    linarith
  · intro h
    refine ⟨fun u hu => absurd hu (some_ne_none u).symm, fun u hu => ?_⟩
    rw [← some.inj hu]
    linarith

/-- The columns that choose the sites and count what they serve. -/
def coverChoice (P : Problem) (cutoff : Cost) (subset : List Nat) (k : Nat) : Rat :=
  if k < P.facilities then (if k ∈ subset then 1 else 0)
  else if P.Counts cutoff subset (k - P.facilities) ∧ 0 ≤ P.weight (k - P.facilities) then 1
  else 0

theorem coverChoice_site (hj : j < P.facilities) :
    P.coverChoice cutoff subset j = if j ∈ subset then 1 else 0 :=
  if_pos hj

theorem coverChoice_demand : P.coverChoice cutoff subset (P.facilities + i) =
    if P.Counts cutoff subset i ∧ 0 ≤ P.weight i then 1 else 0 := by
  unfold coverChoice
  rw [if_neg (by omega), Nat.add_sub_cancel_left]

variable {js : List Nat} {y : Nat → Rat}

theorem exists_one (h : ∀ j ∈ js, y j = 0 ∨ y j = 1) (hsum : 1 ≤ (js.map y).sum) :
    ∃ j ∈ js, y j = 1 := by
  by_contra hnone
  have hzero : (js.map y).sum = 0 := by
    refine sum_eq_zero fun a ha => ?_
    obtain ⟨j, hj, rfl⟩ := List.mem_map.mp ha
    rcases h j hj with hy | hy
    · exact hy
    · exact absurd ⟨j, hj, hy⟩ hnone
  rw [hzero] at hsum
  norm_num at hsum

theorem sum_ge_one (h : ∀ j ∈ js, 0 ≤ y j) (hj : j ∈ js) (hy : y j = 1) : 1 ≤ (js.map y).sum := by
  rw [← hy]
  refine single_le_sum (fun a ha => ?_) _ (List.mem_map_of_mem hj)
  obtain ⟨k, hk, rfl⟩ := List.mem_map.mp ha
  exact h k hk

theorem coverChoice_feasible (hs : subset ∈ P.subsets) :
    (P.maxCoverageModel cutoff).Feasible (P.coverChoice cutoff subset) ∧
      (P.maxCoverageModel cutoff).value (P.coverChoice cutoff subset) =
        P.coverCost cutoff subset := by
  have hcolumn : ∀ k, P.coverChoice cutoff subset k = 0 ∨ P.coverChoice cutoff subset k = 1 := by
    intro k
    unfold coverChoice
    split <;> split <;> simp
  have hone : ∀ (k : Nat) (u : Rat), (P.maxCoverageModel cutoff).bounds[k]? = some u →
      u = 1 := by
    intro k u hk
    unfold maxCoverageModel at hk
    rw [getElem?_replicate] at hk
    split at hk
    · exact (some.inj hk).symm
    · cases hk
  refine ⟨⟨fun k u hk => ?_, fun k u hk => ?_, ?_⟩, ?_⟩
  · exact (whole_of_binary (hcolumn k)).1
  · rw [hone k u hk]
    exact (whole_of_binary (hcolumn k)).2
  · simp only [maxCoverageModel, forall_mem_append, forall_mem_singleton, List.forall_mem_map]
    refine ⟨fun i hi => ?_, ?_⟩
    · have hcoverable := of_decide_eq_true (mem_filter.mp hi).2
      rw [coverRow_holds, coverChoice_demand]
      by_cases hcounts : P.Counts cutoff subset i ∧ 0 ≤ P.weight i
      · rw [if_pos hcounts]
        rcases hcounts.1 with hempty | ⟨j, hj, hwithin⟩
        · exact absurd hempty hcoverable
        refine sum_ge_one (fun k _ => (whole_of_binary (hcolumn k)).2.1)
          (mem_coverSet.mpr ⟨lt_of_mem_subsets hs hj, hwithin⟩) ?_
        rw [coverChoice_site (lt_of_mem_subsets hs hj), if_pos hj]
      · rw [if_neg hcounts]
        refine List.sum_nonneg fun a ha => ?_
        obtain ⟨k, -, rfl⟩ := List.mem_map.mp ha
        exact (whole_of_binary (hcolumn k)).2.1
    · rw [cardinalityRow_holds fun j _ => hcolumn _]
      refine length_sites hs fun j hj => ?_
      rw [Nat.zero_add]
      exact coverChoice_site hj
  · rw [value_maxCoverage]
    refine Finset.sum_congr rfl fun i _ => ?_
    rw [coverChoice_demand]
    by_cases hcounts : P.Counts cutoff subset i
    · by_cases hpos : 0 ≤ P.weight i
      · rw [if_pos ⟨hcounts, hpos⟩, if_pos hcounts, max_eq_left hpos, mul_one]
      rw [if_neg fun h => hpos h.2, if_pos hcounts, max_eq_right (not_le.mp hpos).le, mul_zero,
        neg_zero]
    · rw [if_neg fun h => hcounts h.1, if_neg hcounts, mul_zero]

theorem encodes_maxCoverage :
    (P.maxCoverageModel cutoff).Encodes P.subsets.toFinset (P.coverCost cutoff) (P.selected 0) where
  decoded := by
    intro x hx
    have hbinary : ∀ k < P.facilities + P.demands, x k = 0 ∨ x k = 1 := fun k hk =>
      hx.binary (getElem?_replicate_of_lt hk)
    have hrows := hx.constraints
    simp only [maxCoverageModel, forall_mem_append, forall_mem_singleton, List.forall_mem_map] at hrows
    have hsites : ∀ j < P.facilities, x (0 + j) = 0 ∨ x (0 + j) = 1 := fun j hj => by
      rw [Nat.zero_add]
      exact hbinary j (by omega)
    refine ⟨List.mem_toFinset.mpr (mem_subsets.mpr
      ⟨filter_sublist, (cardinalityRow_holds hsites).mp hrows.2⟩), ?_⟩
    rw [value_maxCoverage]
    refine Finset.sum_le_sum fun i hi => ?_
    have hi := Finset.mem_range.mp hi
    have hpos : 0 ≤ max (P.weight i) 0 := le_max_right _ _
    rcases hbinary (P.facilities + i) (by omega) with hz | hz
    · rw [hz, mul_zero]
      split
      · linarith
      · exact le_refl _
    · rw [hz, mul_one]
      rw [if_pos]
      · exact neg_le_neg (le_max_left _ _)
      by_cases hc : P.coverSet cutoff i = []
      · exact .inl hc
      have hrow := coverRow_holds.mp (hrows.1 i (mem_filter.mpr
        ⟨mem_range.mpr hi, decide_eq_true hc⟩))
      rw [hz] at hrow
      obtain ⟨j, hj, hone⟩ := exists_one (fun j hj =>
        hbinary j (by have := (mem_coverSet.mp hj).1; omega)) hrow
      obtain ⟨hlt, hwithin⟩ := mem_coverSet.mp hj
      refine .inr ⟨j, mem_filter.mpr ⟨mem_range.mpr hlt, ?_⟩, hwithin⟩
      rw [Nat.zero_add, hone]
      norm_num
  encoded := fun subset hs => ⟨_, coverChoice_feasible (List.mem_toFinset.mp hs)⟩

/-! ## The objectives of the enumeration -/

theorem demandCost_reached (h : P.Reaches subset i) :
    P.demandCost subset i = P.weight i * (P.minCost subset i).untopD 0 := by
  obtain ⟨c, hc⟩ := WithTop.ne_top_iff_exists.mp h
  unfold demandCost
  rw [← hc]
  exact mul_comm c _

theorem demandCost_unreached (h : ¬ P.Reaches subset i) :
    P.demandCost subset i = unreachable * P.weight i := by
  unfold demandCost
  rw [not_not.mp h]

theorem mem_subsets_sublist (hs : subset ∈ P.subsets) : subset.Sublist (List.range P.facilities) :=
  (mem_subsets.mp hs).1

theorem pMedianObjective_eq (hs : subset ∈ P.subsets) (hall : P.ReachesAll subset) :
    P.pMedianObjective subset = P.coverableCost subset + ∑ i ∈ Finset.range P.demands,
      if P.Coverable i then 0 else unreachable * P.weight i := by
  unfold pMedianObjective
  rw [sum_range, coverableCost_eq, ← Finset.sum_add_distrib]
  refine Finset.sum_congr rfl fun i hi => ?_
  by_cases hc : P.Coverable i
  · rw [if_pos hc, if_pos hc, add_zero, demandCost_reached (hall i (Finset.mem_range.mp hi) hc)]
  have hnone : ¬ P.Reaches subset i := fun h => hc (h.coverable (mem_subsets_sublist hs))
  rw [if_neg hc, if_neg hc, zero_add, demandCost_unreached hnone]

/-- The weight that is not reached. -/
def unreachedWeight (P : Problem) (subset : List Nat) : Rat :=
  ∑ i ∈ Finset.range P.demands, if P.Reaches subset i then 0 else P.weight i

/-- The weighted cost of the demand that is reached. -/
def reachedCost (P : Problem) (subset : List Nat) : Rat :=
  ∑ i ∈ Finset.range P.demands,
    if P.Reaches subset i then P.weight i * (P.minCost subset i).untopD 0 else 0

/-- As much demand as possible first, and then the cost of what is reached. -/
def pMedianRank (P : Problem) (subset : List Nat) : Rat ×ₗ Rat :=
  toLex (P.unreachedWeight subset, P.reachedCost subset)

section

variable (hs : subset ∈ P.subsets) (hall : P.ReachesAll subset)
include hs hall

theorem reaches_iff_coverable (hi : i < P.demands) : P.Reaches subset i ↔ P.Coverable i :=
  ⟨fun h => h.coverable (mem_subsets_sublist hs), hall i hi⟩

theorem unreachedWeight_eq :
    P.unreachedWeight subset =
      ∑ i ∈ Finset.range P.demands, if P.Coverable i then 0 else P.weight i :=
  Finset.sum_congr rfl fun i hi => by
    simp only [reaches_iff_coverable hs hall (Finset.mem_range.mp hi)]

theorem reachedCost_eq :
    P.reachedCost subset = P.coverableCost subset := by
  rw [coverableCost_eq]
  exact Finset.sum_congr rfl fun i hi => by
    simp only [reaches_iff_coverable hs hall (Finset.mem_range.mp hi)]

end

theorem unreachedWeight_lt (hw : ∀ w ∈ P.weights, 0 ≤ w)
    (hpos : ∀ i < P.demands, P.Coverable i → 0 < P.weight i) (hs : subset ∈ P.subsets)
    (hnot : ¬ P.ReachesAll subset) :
    (∑ i ∈ Finset.range P.demands, if P.Coverable i then 0 else P.weight i) <
      P.unreachedWeight subset := by
  unfold ReachesAll at hnot
  push Not at hnot
  obtain ⟨i, hi, hc, hmiss⟩ := hnot
  refine Finset.sum_lt_sum (fun k hk => ?_) ⟨i, Finset.mem_range.mpr hi, ?_⟩
  · by_cases hck : P.Coverable k
    · rw [if_pos hck]
      split
      · exact le_refl _
      · exact weight_nonneg hw k
    · rw [if_neg hck, if_neg fun h => hck (h.coverable (mem_subsets_sublist hs))]
  · rw [if_pos hc, if_neg hmiss]
    exact hpos i hi hc

variable {best : List Nat}

theorem pMedianRank_le (hw : ∀ w ∈ P.weights, 0 ≤ w)
    (hpos : ∀ i < P.demands, P.Coverable i → 0 < P.weight i) (hbest : best ∈ P.reaching)
    (hleast : ∀ s ∈ P.reaching, P.coverableCost best ≤ P.coverableCost s)
    (hs : subset ∈ P.subsets) : P.pMedianRank best ≤ P.pMedianRank subset := by
  obtain ⟨hmem, hall⟩ := mem_reaching.mp hbest
  unfold pMedianRank
  rw [Prod.Lex.toLex_le_toLex]
  rw [unreachedWeight_eq hmem hall]
  by_cases hreach : P.ReachesAll subset
  · refine .inr ⟨(unreachedWeight_eq hs hreach).symm, ?_⟩
    rw [reachedCost_eq hmem hall, reachedCost_eq hs hreach]
    exact hleast subset (mem_reaching.mpr ⟨hs, hreach⟩)
  · exact .inl (unreachedWeight_lt hw hpos hs hreach)

theorem covers_iff (hcutoff : cutoff ≠ ⊤) : P.Covers cutoff subset i ↔
    P.Serves cutoff subset i := by
  constructor
  · intro h
    have hreach : P.Reaches subset i := ne_top_of_le_ne_top hcutoff h
    obtain ⟨k, hk, -⟩ := reaches_iff.mp hreach
    obtain ⟨j, hj, hcost⟩ := exists_minCost (P := P) (i := i) (ne_nil_of_mem hk)
    exact ⟨j, hj, hcost ▸ hreach, hcost ▸ h⟩
  · rintro ⟨j, hj, -, hle⟩
    exact (minCost_le hj).trans hle

theorem coverage_eq (hw : ∀ w ∈ P.weights, 0 ≤ w) (hcutoff : cutoff ≠ ⊤) (hs : subset ∈ P.subsets) :
    P.coverCost cutoff subset = -P.coverage cutoff subset -
      ∑ i ∈ Finset.range P.demands, if P.coverSet cutoff i = [] then P.weight i else 0 := by
  unfold coverCost coverage
  rw [sum_range, ← Finset.sum_neg_distrib, ← Finset.sum_sub_distrib]
  refine Finset.sum_congr rfl fun i _ => ?_
  rw [max_eq_left (weight_nonneg hw i)]
  by_cases hserves : P.Serves cutoff subset i
  · have hne : P.coverSet cutoff i ≠ [] := by
      obtain ⟨j, hj, hwithin⟩ := hserves
      exact ne_nil_of_mem (mem_coverSet.mpr ⟨lt_of_mem_subsets hs hj, hwithin⟩)
    have hcounts : P.Counts cutoff subset i := .inr hserves
    rw [if_pos hcounts, if_pos ((covers_iff hcutoff).mpr hserves), if_neg hne, sub_zero]
  · have hcovers : ¬ P.Covers cutoff subset i := fun h => hserves ((covers_iff hcutoff).mp h)
    rw [if_neg hcovers, neg_zero, zero_sub]
    by_cases hempty : P.coverSet cutoff i = []
    · have hcounts : P.Counts cutoff subset i := .inl hempty
      rw [if_pos hcounts, if_pos hempty]
    · have hcounts : ¬ P.Counts cutoff subset i := not_or.mpr ⟨hempty, hserves⟩
      rw [if_neg hcounts, if_neg hempty, neg_zero]

theorem coverage_top : P.coverage ⊤ subset = ((List.range P.demands).map P.weight).sum := by
  unfold coverage Covers
  simp only [le_top, if_true]

theorem coverage_le (hw : ∀ w ∈ P.weights, 0 ≤ w) (hbest : best ∈ P.subsets)
    (hleast : ∀ s ∈ P.subsets.toFinset, P.coverCost cutoff best ≤ P.coverCost cutoff s)
    (hs : subset ∈ P.subsets) : P.coverage cutoff subset ≤ P.coverage cutoff best := by
  by_cases hcutoff : cutoff = ⊤
  · rw [hcutoff, coverage_top, coverage_top]
  have hle := hleast subset (List.mem_toFinset.mpr hs)
  rw [coverage_eq hw hcutoff hbest, coverage_eq hw hcutoff hs] at hle
  linarith

theorem range_mem_subsets : List.range P.pCount ∈ P.subsets :=
  mem_subsets.mpr ⟨range_sublist.mpr P.fits, length_range⟩

end Problem

/-! ## What the solvers return -/

/-- The answer of an exact solver: an optimum, where there is one. -/
structure Answers (Q : Milp) (answer : Option (Nat → Rat)) : Prop where
  optimum : ∀ x, answer = some x → Q.IsOptimum x
  nothing : answer = none → ¬ ∃ x, Q.IsOptimum x

theorem solved_ok {Q : Milp} {answer : Option (Nat → Rat)} (h : Answers Q answer)
    (out : (Nat → Rat) → MilpOut) :
    ((∃ o, solved answer out = .ok o) ↔ ∃ x, Q.IsOptimum x) ∧
    ∀ o, solved answer out = .ok o → ∃ x, Q.IsOptimum x ∧ o = out x := by
  cases answer with
  | none =>
    refine ⟨⟨fun ⟨o, ho⟩ => ?_, fun hx => absurd hx (h.nothing rfl)⟩, fun o ho => ?_⟩
    · cases ho
    · cases ho
  | some x =>
    refine ⟨⟨fun _ => ⟨x, h.optimum x rfl⟩, fun _ => ⟨_, rfl⟩⟩, fun o ho => ?_⟩
    exact ⟨x, h.optimum x rfl, (Except.ok.inj ho).symm⟩

theorem exists_reaching {P : Problem} :
    P.reaching.Nonempty ↔ ∃ s ∈ P.subsets, P.ReachesAll s := by
  constructor
  · rintro ⟨s, hs⟩
    exact ⟨s, mem_reaching.mp hs⟩
  · rintro ⟨s, hs⟩
    exact ⟨s, mem_reaching.mpr hs⟩

/-- The exact solver and the enumeration. The programs for p-median and p-center have an optimum just
where some set of sites serves all demand that any candidate can serve. What they choose serves it,
and no other set that serves it is better for the objective of the enumeration; for p-center in
whole numbers, and up to ties. The program for the greatest coverage always has an optimum, and it
is one for the enumeration. -/
theorem exact_least (P : Problem) (cutoff : Cost) (hw : ∀ w ∈ P.weights, 0 ≤ w) :
    (∀ answer, Answers P.pMedianModel answer →
      ((∃ out, solved answer P.pMedianOut = .ok out) ↔ ∃ s ∈ P.subsets, P.ReachesAll s) ∧
      ∀ out, solved answer P.pMedianOut = .ok out →
        out.selected ∈ P.subsets ∧ P.ReachesAll out.selected ∧
        (∀ s ∈ P.subsets, P.ReachesAll s → P.pMedianObjective out.selected ≤ P.pMedianObjective s) ∧
        ((∀ i < P.demands, P.Coverable i → 0 < P.weight i) →
          ∀ s ∈ P.subsets, P.pMedianRank out.selected ≤ P.pMedianRank s)) ∧
    (P.Whole → 0 ≤ P.bigM → ∀ answer, Answers P.pCenterModel answer →
      ((∃ out, solved answer P.pCenterOut = .ok out) ↔ ∃ s ∈ P.subsets, P.ReachesAll s) ∧
      ∀ out, solved answer P.pCenterOut = .ok out →
        out.selected ∈ P.subsets ∧ P.ReachesAll out.selected ∧
        ∀ s ∈ P.subsets, P.ReachesAll s → P.maxCost out.selected ≤ P.maxCost s) ∧
    ∀ answer, Answers (P.maxCoverageModel cutoff) answer →
      ∃ out, solved answer (P.maxCoverageOut cutoff) = .ok out ∧ out.selected ∈ P.subsets ∧
        ∀ s ∈ P.subsets, P.coverage cutoff s ≤ P.coverage cutoff out.selected := by
  refine ⟨fun answer h => ?_, fun hwhole hM answer h => ?_, fun answer h => ?_⟩
  · have hencodes := encodes_pMedian hw
    obtain ⟨hexists, hout⟩ := solved_ok h P.pMedianOut
    refine ⟨hexists.trans (hencodes.exists_optimum.trans exists_reaching), fun out ho => ?_⟩
    obtain ⟨x, hx, rfl⟩ := hout out ho
    obtain ⟨hmem, hleast⟩ := hencodes.least hx
    obtain ⟨hsub, hall⟩ := mem_reaching.mp hmem
    refine ⟨hsub, hall, fun s hs hreach => ?_, fun hpos s hs =>
      pMedianRank_le hw hpos hmem hleast hs⟩
    have hle := hleast s (mem_reaching.mpr ⟨hs, hreach⟩)
    rw [show (P.pMedianOut x).selected = P.selected 0 x from rfl,
      pMedianObjective_eq hsub hall, pMedianObjective_eq hs hreach]
    linarith
  · have hencodes := encodes_pCenter hwhole hM
    obtain ⟨hexists, hout⟩ := solved_ok h P.pCenterOut
    refine ⟨hexists.trans (hencodes.exists_optimum.trans exists_reaching), fun out ho => ?_⟩
    obtain ⟨x, hx, rfl⟩ := hout out ho
    obtain ⟨hmem, hleast⟩ := hencodes.least hx
    obtain ⟨hsub, hall⟩ := mem_reaching.mp hmem
    exact ⟨hsub, hall, fun s hs hreach => hleast s (mem_reaching.mpr ⟨hs, hreach⟩)⟩
  · have hencodes : (P.maxCoverageModel cutoff).Encodes P.subsets.toFinset (P.coverCost cutoff)
        (P.selected 0) := encodes_maxCoverage
    obtain ⟨hexists, hout⟩ := solved_ok h (P.maxCoverageOut cutoff)
    have hne : P.subsets.toFinset.Nonempty :=
      ⟨_, List.mem_toFinset.mpr range_mem_subsets⟩
    obtain ⟨out, ho⟩ := hexists.mpr (hencodes.exists_optimum.mpr hne)
    obtain ⟨x, hx, rfl⟩ := hout out ho
    obtain ⟨hmem, hleast⟩ := hencodes.least hx
    have hsub := List.mem_toFinset.mp hmem
    exact ⟨_, ho, hsub, fun s hs => coverage_le hw hsub hleast hs⟩

/-- An exact solver. -/
noncomputable def exactAnswer (Q : Milp) : Option (Nat → Rat) :=
  open Classical in if h : ∃ x, Q.IsOptimum x then some h.choose else none

theorem exactAnswer_answers (Q : Milp) : Answers Q (exactAnswer Q) := by
  unfold exactAnswer
  by_cases h : ∃ x, Q.IsOptimum x
  · rw [dif_pos h]
    exact ⟨fun x hx => some.inj hx ▸ h.choose_spec, nofun⟩
  · rw [dif_neg h]
    exact ⟨nofun, fun _ => h⟩

/-- Two demands, each with a site of its own and no way to the other one. -/
def islands (pCount : Nat) (positive : 1 ≤ pCount) (fits : pCount ≤ 2) : Problem where
  costs := [[1, ⊤], [⊤, 1]]
  weights := [1, 1]
  facilities := 2
  pCount := pCount
  rect := by decide
  rows := rfl
  positive := positive
  fits := fits

theorem islands_whole {pCount : Nat} (h₁ : 1 ≤ pCount) (h₂ : pCount ≤ 2) :
    (islands pCount h₁ h₂).Whole := by
  intro i j c hc
  unfold islands cost at hc
  have hone : ∀ {d : Rat}, (1 : Cost) = some d → d = (1 : Int) := by
    intro d hd
    exact_mod_cast (WithTop.coe_inj.mp hd).symm
  rcases i with _ | _ | i <;> rcases j with _ | _ | j <;> simp at hc
  · exact ⟨1, hone hc⟩
  · exact ⟨1, hone hc⟩

/-- Both sites serve all of it. -/
theorem islands_served :
    (∃ out, solved (exactAnswer (islands 2 (by decide) (by decide)).pMedianModel)
      (islands 2 (by decide) (by decide)).pMedianOut = .ok out) ∧
    (∃ out, solved (exactAnswer (islands 2 (by decide) (by decide)).pCenterModel)
      (islands 2 (by decide) (by decide)).pCenterOut = .ok out) ∧
    ∃ out, solved (exactAnswer ((islands 2 (by decide) (by decide)).maxCoverageModel 1))
      ((islands 2 (by decide) (by decide)).maxCoverageOut 1) = .ok out := by
  have hreach : ∃ s ∈ (islands 2 (by decide) (by decide)).subsets,
      (islands 2 (by decide) (by decide)).ReachesAll s := ⟨[0, 1], by decide +kernel⟩
  obtain ⟨hmedian, hcenter, hcoverage⟩ := exact_least (islands 2 (by decide) (by decide)) 1
    (by decide +kernel)
  obtain ⟨out, hout, -⟩ := hcoverage _ (exactAnswer_answers _)
  exact ⟨(hmedian _ (exactAnswer_answers _)).1.mpr hreach,
    (hcenter (islands_whole _ _) (by decide +kernel) _ (exactAnswer_answers _)).1.mpr hreach,
    out, hout⟩

/-- One site cannot serve both demands: the program has no optimum. -/
theorem islands_apart :
    (∀ w ∈ (islands 1 (by decide) (by decide)).weights, 0 ≤ w) ∧
    ¬ ∃ x, (islands 1 (by decide) (by decide)).pMedianModel.IsOptimum x := by
  have hw : ∀ w ∈ (islands 1 (by decide) (by decide)).weights, 0 ≤ w := by decide +kernel
  refine ⟨hw, fun hx => ?_⟩
  obtain ⟨s, hs⟩ := (encodes_pMedian hw).exists_optimum.mp hx
  have hnone : (islands 1 (by decide) (by decide)).reaching = ∅ := by decide +kernel
  rw [hnone] at hs
  exact absurd hs (Finset.notMem_empty s)

end WebGis.Network
