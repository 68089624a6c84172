/-
  What the rows of the programs say: a set of sites is chosen, and every demand that some candidate
  can serve is assigned to one of them.
-/
import WebGis.Network.Models
import Mathlib.Algebra.Order.BigOperators.Group.Finset
import Mathlib.Algebra.Order.BigOperators.Group.List
import Mathlib.Tactic.Linarith
import Mathlib.Tactic.NormNum

namespace WebGis.Network

open Data List Prod
open Option hiding min_le_left min_le_right

/-! ## Sets of sites -/

namespace Problem

variable {P : Problem} {subset : List Nat} {i j : Nat} {x : Nat → Rat}

theorem mem_combinations {p : Nat} {js : List Nat} :
    subset ∈ combinations p js ↔ subset.Sublist js ∧ subset.length = p := by
  induction js generalizing p subset with
  | nil =>
    cases p with
    | zero => simp [combinations]
    | succ p =>
      simp only [combinations, not_mem_nil, sublist_nil, false_iff, not_and]
      rintro rfl
      simp
  | cons j js ih =>
    cases p with
    | zero =>
      simp only [combinations, mem_singleton, length_eq_zero_iff]
      constructor
      · rintro rfl
        exact ⟨nil_sublist _, rfl⟩
      · exact fun h => h.2
    | succ p =>
      simp only [combinations, mem_append, List.mem_map, ih]
      constructor
      · rintro (⟨rest, ⟨hsub, hlen⟩, rfl⟩ | ⟨hsub, hlen⟩)
        · exact ⟨hsub.cons_cons j, by simp [hlen]⟩
        · exact ⟨hsub.cons j, hlen⟩
      · rintro ⟨hsub, hlen⟩
        cases hsub with
        | cons _ hsub => exact .inr ⟨hsub, hlen⟩
        | cons_cons _ hsub => exact .inl ⟨_, ⟨hsub, by simpa using hlen⟩, rfl⟩

theorem mem_subsets :
    subset ∈ P.subsets ↔ subset.Sublist (List.range P.facilities) ∧ subset.length = P.pCount :=
  mem_combinations

theorem lt_of_mem_subsets (h : subset ∈ P.subsets) (hj : j ∈ subset) : j < P.facilities :=
  mem_range.mp ((mem_subsets.mp h).1.subset hj)

theorem minCost_le (h : j ∈ subset) : P.minCost subset i ≤ P.cost i j := by
  unfold minCost
  induction subset with
  | nil => cases h
  | cons k ks ih =>
    rw [map_cons, foldr_cons]
    rcases mem_cons.mp h with rfl | h
    · exact min_le_left _ _
    · exact (min_le_right _ _).trans (ih h)

theorem exists_minCost (h : subset ≠ []) : ∃ j ∈ subset, P.minCost subset i = P.cost i j := by
  unfold minCost
  induction subset with
  | nil => exact absurd rfl h
  | cons k ks ih =>
    rw [map_cons, foldr_cons]
    rcases min_choice (P.cost i k) ((ks.map (P.cost i)).foldr min ⊤) with hmin | hmin
    · exact ⟨k, mem_cons_self, hmin⟩
    cases ks with
    | nil =>
      refine ⟨k, mem_cons_self, ?_⟩
      simp
    | cons k' ks =>
      obtain ⟨j, hj, hcost⟩ := ih (cons_ne_nil _ _)
      exact ⟨j, mem_cons_of_mem _ hj, hmin.trans hcost⟩

theorem reaches_iff : P.Reaches subset i ↔ ∃ j ∈ subset, P.cost i j ≠ ⊤ := by
  constructor
  · intro h
    have hne : subset ≠ [] := by
      rintro rfl
      exact h rfl
    obtain ⟨j, hj, hcost⟩ := exists_minCost (P := P) (i := i) hne
    exact ⟨j, hj, hcost ▸ h⟩
  · rintro ⟨j, hj, hcost⟩ htop
    have hle := minCost_le (P := P) (i := i) hj
    rw [htop] at hle
    exact hcost (top_le_iff.mp hle)

theorem Reaches.coverable (h : P.Reaches subset i) (hsub : subset.Sublist (List.range P.facilities)) :
    P.Coverable i := by
  obtain ⟨j, hj, hcost⟩ := reaches_iff.mp h
  exact reaches_iff.mpr ⟨j, hsub.subset hj, hcost⟩

theorem nearest_eq_some (h : P.nearest subset i = some j) :
    j ∈ subset ∧ P.cost i j = P.minCost subset i := by
  have hmem := argmin_mem h
  obtain ⟨k, hk, hcost⟩ := exists_minCost (P := P) (i := i) (ne_nil_of_mem hmem)
  refine ⟨hmem, le_antisymm ?_ (minCost_le hmem)⟩
  rw [hcost]
  exact le_of_mem_argmin hk h

theorem exists_nearest (h : subset ≠ []) : ∃ j, P.nearest subset i = some j := by
  cases hj : P.nearest subset i with
  | some j => exact ⟨j, rfl⟩
  | none => exact absurd (argmin_eq_none.mp hj) h

/-! ## Pairs -/

theorem mem_pairs {pair : Nat × Nat} :
    pair ∈ P.pairs ↔ pair.1 < P.demands ∧ pair.2 < P.facilities ∧ P.cost pair.1 pair.2 ≠ ⊤ := by
  obtain ⟨i, j⟩ := pair
  simp [pairs, and_assoc]

theorem pairs_sorted : P.pairs.Pairwise fun a b => a.1 ≤ b.1 := by
  unfold pairs
  rw [pairwise_flatMap]
  constructor
  · intro i _
    rw [pairwise_map]
    exact pairwise_of_forall fun _ _ => le_refl i
  · refine pairwise_lt_range.imp fun {i i'} hlt => ?_
    intro a ha b hb
    obtain ⟨_, _, rfl⟩ := List.mem_map.mp ha
    obtain ⟨_, _, rfl⟩ := List.mem_map.mp hb
    exact hlt.le

theorem pairs_nodup : P.pairs.Nodup := by
  unfold pairs
  rw [nodup_flatMap]
  constructor
  · intro i _
    exact (nodup_range.filter _).map fun a b h => (Prod.mk.inj h).2
  · refine nodup_range.imp fun {i i'} hne => ?_
    intro pair ha hb
    obtain ⟨_, _, rfl⟩ := List.mem_map.mp ha
    obtain ⟨_, _, heq⟩ := List.mem_map.mp hb
    exact hne (Prod.mk.inj heq).1.symm

theorem coverable_iff (hi : i < P.demands) : P.Coverable i ↔ ∃ j, (i, j) ∈ P.pairs := by
  unfold Coverable
  rw [reaches_iff]
  simp [mem_pairs, hi]

end Problem

/-! ## What the rows say -/

section Rows

variable {x : Nat → Rat} {xCol yCol : Nat} {pairs : List (Nat × Nat)}

theorem holds_eq {entries : List (Nat × Rat)} {a : Rat} :
    Constraint.Holds ⟨entries, some a, some a⟩ x ↔ (entries.map fun e => e.2 * x e.1).sum = a := by
  constructor
  · intro h
    exact le_antisymm (h.2 a rfl) (h.1 a rfl)
  · rintro rfl
    exact ⟨fun l hl => (some.inj hl).symm.le, fun u hu => (some.inj hu).le⟩

theorem share_cons (pair : Nat × Nat) (k i : Nat) :
    share x fst k (pair :: pairs) i =
      (if pair.1 = i then x k else 0) + share x fst (k + 1) pairs i := by
  unfold share
  rw [map_cons, dot, ite_mul, one_mul, zero_mul]

theorem share_eq_zero {k i : Nat} (h : ∀ pair ∈ pairs, pair.1 ≠ i) :
    share x fst k pairs i = 0 := by
  induction pairs generalizing k with
  | nil => rfl
  | cons pair pairs ih =>
    rw [share_cons, if_neg (h pair mem_cons_self),
      ih fun p hp => h p (mem_cons_of_mem _ hp), zero_add]

theorem assignmentRows_hold {row : List (Nat × Rat)}
    (hsorted : pairs.Pairwise fun a b => a.1 ≤ b.1) :
    (∀ c ∈ assignmentRows xCol row pairs, c.Holds x) ↔
      ∀ i ∈ pairs.map fst,
        (if pairs.head?.map fst = some i then (row.map fun e => e.2 * x e.1).sum else 0) +
          share x fst xCol pairs i = 1 := by
  induction pairs generalizing xCol row with
  | nil => simp [assignmentRows]
  | cons pair pairs ih =>
    obtain ⟨i, j⟩ := pair
    cases pairs with
    | nil =>
      simp [assignmentRows, holds_eq, share, dot]
    | cons next pairs =>
      obtain ⟨i', j'⟩ := next
      have hle : i ≤ i' := (pairwise_cons.mp hsorted).1 (i', j') mem_cons_self
      have hsum : ((row ++ [(xCol, (1 : Rat))]).map fun e => e.2 * x e.1).sum =
          (row.map fun e => e.2 * x e.1).sum + x xCol := by
        simp
      rw [assignmentRows]
      by_cases heq : i' = i
      · subst heq
        rw [if_neg (fun hne => hne rfl), ih (pairwise_cons.mp hsorted).2, hsum]
        simp only [map_cons, head?_cons, map_some, share_cons (i', j)]
        refine ⟨fun h k hk => ?_, fun h k hk => ?_⟩
        · have hk := h k (by simpa using hk)
          by_cases hi : i' = k
          · subst hi
            simp only [if_true] at hk ⊢
            linarith
          · simpa [hi] using hk
        · have hk := h k (mem_cons_of_mem _ hk)
          by_cases hi : i' = k
          · subst hi
            simp only [if_true] at hk ⊢
            linarith
          · simpa [hi] using hk
      · have hlt : i < i' := lt_of_le_of_ne hle (Ne.symm heq)
        have hlater : ∀ pair ∈ (i', j') :: pairs, pair.1 ≠ i := by
          intro pair hpair
          have hfrom : i' ≤ pair.1 := by
            rcases mem_cons.mp hpair with rfl | hpair
            · exact le_refl _
            · exact (pairwise_cons.mp (pairwise_cons.mp hsorted).2).1 pair hpair
          omega
        have hzero : share x fst (xCol + 1) ((i', j') :: pairs) i = 0 :=
          share_eq_zero hlater
        rw [if_pos heq, forall_mem_cons, ih (pairwise_cons.mp hsorted).2, holds_eq, hsum]
        simp only [map_nil, sum_nil, ite_self, zero_add]
        rw [show ((i, j) :: (i', j') :: pairs).map fst =
          i :: ((i', j') :: pairs).map fst from rfl, forall_mem_cons]
        simp only [head?_cons, map_some, share_cons (i, j), if_true, hzero, add_zero]
        refine and_congr_right fun _ => forall_congr' fun k => forall_congr' fun hk => ?_
        have hne : i ≠ k := by
          obtain ⟨pair, hpair, rfl⟩ := List.mem_map.mp hk
          exact (hlater pair hpair).symm
        simp [hne]

theorem linkingRows_hold :
    (∀ c ∈ linkingRows xCol yCol pairs, c.Holds x) ↔
      ∀ n pair, pairs[n]? = some pair → x (xCol + n) ≤ x (yCol + pair.2) := by
  have hrow : ∀ k pair, Constraint.Holds ⟨[(k, 1), (yCol + pair.2, -1)], none, some 0⟩ x ↔
      x k ≤ x (yCol + (pair : Nat × Nat).2) := by
    intro k pair
    simp [Constraint.Holds, Constraint.value]
  constructor
  · intro h n pair hn
    refine (hrow _ pair).mp (h _ (List.mem_map.mpr ⟨(pair, xCol + n), ?_, rfl⟩))
    exact mk_add_mem_zipIdx_iff_getElem?.mpr hn
  · intro h c hc
    obtain ⟨⟨pair, k⟩, hk, rfl⟩ := List.mem_map.mp hc
    obtain ⟨hle, hget⟩ := mk_mem_zipIdx_iff_le_and_getElem?_sub.mp hk
    refine (hrow _ pair).mpr ?_
    have hn := h _ pair hget
    rwa [Nat.add_sub_cancel' hle] at hn

theorem sum_binary {js : List Nat} {y : Nat → Rat} (h : ∀ j ∈ js, y j = 0 ∨ y j = 1) :
    (js.map y).sum = ((js.filter fun j => y j > 1 / 2).length : Rat) := by
  induction js with
  | nil => simp
  | cons j js ih =>
    have hrest := ih fun k hk => h k (mem_cons_of_mem _ hk)
    rw [map_cons, sum_cons, hrest, filter_cons]
    rcases h j mem_cons_self with hj | hj
    · rw [hj]
      norm_num
    · rw [hj]
      norm_num
      ring

theorem cardinalityRow_holds {facilities pCount : Nat}
    (h : ∀ j < facilities, x (yCol + j) = 0 ∨ x (yCol + j) = 1) :
    (cardinalityRow yCol facilities pCount).Holds x ↔
      ((List.range facilities).filter fun j => x (yCol + j) > 1 / 2).length = pCount := by
  unfold cardinalityRow
  rw [holds_eq, List.map_map]
  have hsum : ((List.range facilities).map fun j => x (yCol + j)).sum = _ :=
    sum_binary fun j hj => h j (mem_range.mp hj)
  have hmap : (List.range facilities).map ((fun e : Nat × Rat => e.2 * x e.1) ∘
      fun j => (yCol + j, 1)) = (List.range facilities).map fun j => x (yCol + j) := by
    simp
  rw [hmap, hsum]
  exact Nat.cast_inj

end Rows

namespace Problem

variable {P : Problem} {subset : List Nat} {x : Nat → Rat} {xCol yCol : Nat}

/-- The sites can serve all demand that some candidate can serve. -/
def ReachesAll (P : Problem) (subset : List Nat) : Prop :=
  ∀ i < P.demands, P.Coverable i → P.Reaches subset i

instance (subset : List Nat) : Decidable (P.ReachesAll subset) :=
  inferInstanceAs (Decidable (∀ i < P.demands, _ → _))

/-- The columns choose sites and assign the demand to them. -/
structure Assigns (P : Problem) (yCol xCol : Nat) (x : Nat → Rat) : Prop where
  sites : ∀ j < P.facilities, x (yCol + j) = 0 ∨ x (yCol + j) = 1
  uses : ∀ n pair, P.pairs[n]? = some pair → x (xCol + n) = 0 ∨ x (xCol + n) = 1
  assigned : ∀ c ∈ assignmentRows xCol [] P.pairs, c.Holds x
  linked : ∀ c ∈ linkingRows xCol yCol P.pairs, c.Holds x
  counted : (cardinalityRow yCol P.facilities P.pCount).Holds x

namespace Assigns

section

variable (h : P.Assigns yCol xCol x)
include h

theorem selected_mem : P.selected yCol x ∈ P.subsets :=
  mem_subsets.mpr ⟨filter_sublist, (cardinalityRow_holds h.sites).mp h.counted⟩

theorem used {n : Nat} {pair : Nat × Nat}
    (hn : P.pairs[n]? = some pair) (hx : x (xCol + n) = 1) : pair.2 ∈ P.selected yCol x := by
  have hj : pair.2 < P.facilities := (mem_pairs.mp (mem_of_getElem? hn)).2.1
  have hle := linkingRows_hold.mp h.linked n pair hn
  refine mem_filter.mpr ⟨mem_range.mpr hj, ?_⟩
  rw [hx] at hle
  have hhalf : (1 : Rat) / 2 < 1 := by norm_num
  exact decide_eq_true (hhalf.trans_le hle)

theorem share_eq_one {i : Nat} (hi : i < P.demands)
    (hc : P.Coverable i) : share x fst xCol P.pairs i = 1 := by
  obtain ⟨j, hj⟩ := (coverable_iff hi).mp hc
  have hrow := (assignmentRows_hold pairs_sorted).mp h.assigned i
    (List.mem_map_of_mem (f := fst) hj)
  simpa using hrow

theorem exists_used {i : Nat} (hi : i < P.demands) (hc : P.Coverable i) :
    ∃ n pair, P.pairs[n]? = some pair ∧ pair.1 = i ∧ x (xCol + n) = 1 := by
  by_contra hnone
  have hzero : share x fst xCol P.pairs i = 0 := by
    unfold share
    rw [dot_congr x (g := fun _ => (0 : Rat)) fun n pair hn => ?_, map_const', dot_zeros]
    rcases h.uses n pair hn with hx | hx
    · rw [hx, mul_zero, mul_zero]
    · rw [if_neg (fun hp => hnone ⟨n, pair, hn, hp, hx⟩)]
  rw [h.share_eq_one hi hc] at hzero
  exact one_ne_zero hzero

theorem reachesAll : P.ReachesAll (P.selected yCol x) := by
  intro i hi hc
  obtain ⟨n, pair, hn, rfl, hx⟩ := h.exists_used hi hc
  exact reaches_iff.mpr ⟨pair.2, h.used hn hx, (mem_pairs.mp (mem_of_getElem? hn)).2.2⟩

end

end Assigns

/-! ## The columns of a choice -/

/-- The columns that choose the sites and assign every demand to the nearest of them. -/
def choice (P : Problem) (z : Rat) (yCol : Nat) (subset : List Nat) (k : Nat) : Rat :=
  if k < yCol then z
  else if k < yCol + P.facilities then (if k - yCol ∈ subset then 1 else 0)
  else
    match P.pairs[k - (yCol + P.facilities)]? with
    | some pair => if P.nearest subset pair.1 = some pair.2 then 1 else 0
    | none => 0

theorem length_sites (hs : subset ∈ P.subsets) {y : Nat → Rat}
    (hy : ∀ j < P.facilities, y j = if j ∈ subset then 1 else 0) :
    ((List.range P.facilities).filter fun j => y j > 1 / 2).length = P.pCount := by
  have hfilter : (List.range P.facilities).filter (fun j => y j > 1 / 2) =
      (List.range P.facilities).filter (· ∈ subset) := by
    refine filter_congr fun j hj => ?_
    rw [hy j (mem_range.mp hj)]
    by_cases h : j ∈ subset
    · rw [if_pos h]
      norm_num [h]
    · rw [if_neg h]
      norm_num [h]
  have hsub := (mem_subsets.mp hs).1
  have hperm : ((List.range P.facilities).filter (· ∈ subset)).Perm subset := by
    refine (perm_ext_iff_of_nodup (nodup_range.filter _) (nodup_range.sublist hsub)).mpr fun j => ?_
    rw [mem_filter, decide_eq_true_eq]
    exact ⟨fun h => h.2, fun h => ⟨hsub.subset h, h⟩⟩
  rw [hfilter, hperm.length_eq]
  exact (mem_subsets.mp hs).2

variable {z : Rat}

theorem choice_site {j : Nat} (hj : j < P.facilities) :
    P.choice z yCol subset (yCol + j) = if j ∈ subset then 1 else 0 := by
  unfold choice
  rw [if_neg (by omega), if_pos (by omega), Nat.add_sub_cancel_left]

theorem choice_pair {n : Nat} {pair : Nat × Nat} (hn : P.pairs[n]? = some pair) :
    P.choice z yCol subset (yCol + P.facilities + n) =
      if P.nearest subset pair.1 = some pair.2 then 1 else 0 := by
  unfold choice
  rw [if_neg (by omega), if_neg (by omega), Nat.add_sub_cancel_left, hn]

theorem dot_count {α : Type} {as : List α} {p q : α → Prop} [DecidablePred p] [DecidablePred q]
    {k : Nat} (h : ∀ n a, as[n]? = some a → x (k + n) = if q a then 1 else 0) :
    dot x k (as.map fun a => if p a then 1 else 0) =
      (as.countP fun a => decide (p a) && decide (q a) : Nat) := by
  induction as generalizing k with
  | nil => rfl
  | cons a as ih =>
    have hhead : x k = if q a then 1 else 0 := h 0 a rfl
    have htail := ih (k := k + 1) fun n b hb => by
      have hnext := h (n + 1) b hb
      rwa [← Nat.add_assoc, Nat.add_right_comm] at hnext
    rw [map_cons, dot, htail, hhead, countP_cons]
    by_cases hp : p a <;> by_cases hq : q a <;> simp [hp, hq, add_comm]

theorem assigns_choice (hs : subset ∈ P.subsets) (hall : P.ReachesAll subset) :
    P.Assigns yCol (yCol + P.facilities) (P.choice z yCol subset) where
  sites := by
    intro j hj
    rw [choice_site hj]
    by_cases h : j ∈ subset <;> simp [h]
  uses := by
    intro n pair hn
    rw [choice_pair hn]
    by_cases h : P.nearest subset pair.1 = some pair.2 <;> simp [h]
  assigned := by
    rw [assignmentRows_hold pairs_sorted]
    intro i hi
    obtain ⟨pair, hpair, rfl⟩ := List.mem_map.mp hi
    have hi := (mem_pairs.mp hpair).1
    have hreach := hall pair.1 hi ((coverable_iff hi).mpr ⟨pair.2, hpair⟩)
    obtain ⟨k, hk, -⟩ := reaches_iff.mp hreach
    obtain ⟨j, hj⟩ := exists_nearest (P := P) (i := pair.1) (ne_nil_of_mem hk)
    obtain ⟨hmem, hcost⟩ := nearest_eq_some hj
    have hthere : (pair.1, j) ∈ P.pairs :=
      mem_pairs.mpr ⟨hi, lt_of_mem_subsets hs hmem, hcost ▸ hreach⟩
    have hcount : P.pairs.countP (fun p => decide (p.1 = pair.1) &&
        decide (P.nearest subset p.1 = some p.2)) = 1 := by
      rw [← count_eq_one_of_mem pairs_nodup hthere]
      refine countP_congr fun p _ => ?_
      obtain ⟨a, b⟩ := p
      simp only [Bool.and_eq_true, decide_eq_true_eq, beq_iff_eq, Prod.mk.injEq]
      constructor
      · rintro ⟨rfl, h⟩
        rw [hj] at h
        exact ⟨rfl, (some.inj h).symm⟩
      · rintro ⟨rfl, rfl⟩
        exact ⟨rfl, hj⟩
    have hshare : share (P.choice z yCol subset) fst (yCol + P.facilities) P.pairs pair.1 =
        1 := by
      unfold share
      rw [dot_count fun n p hn => choice_pair hn, hcount]
      exact Nat.cast_one
    simpa using hshare
  linked := by
    rw [linkingRows_hold]
    intro n pair hn
    rw [choice_pair hn, choice_site (mem_pairs.mp (mem_of_getElem? hn)).2.1]
    by_cases h : P.nearest subset pair.1 = some pair.2
    · rw [if_pos h, if_pos (nearest_eq_some h).1]
    rw [if_neg h]
    split <;> norm_num
  counted := by
    rw [cardinalityRow_holds]
    · exact length_sites hs fun j hj => choice_site hj
    · intro j hj
      rw [choice_site hj]
      by_cases h : j ∈ subset <;> simp [h]

end Problem

end WebGis.Network
