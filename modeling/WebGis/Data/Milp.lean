/-
  Linear programs in whole numbers, and what it takes to encode a choice as one.

  A program has columns from 0 up to a bound each, all whole, constraints with a lower and an upper
  bound, and an objective that is to be small. It encodes a choice where every solution is read as
  an element of a finite set that costs no more than the objective, and every element is the
  reading of a solution that costs as much: then there is an optimum where there is a choice, and it
  is read as one that costs least.
-/
import Mathlib.Algebra.BigOperators.Group.Finset.Piecewise
import Mathlib.Algebra.Order.Ring.Rat
import Mathlib.Data.Finset.Max
import Mathlib.Tactic.Linarith
import Mathlib.Tactic.Ring

namespace Data

open List

/-! ## Sums over columns -/

/-- The sum of the columns from `k` on, each with its coefficient. -/
def dot (x : Nat → Rat) : Nat → List Rat → Rat
  | _, [] => 0
  | k, a :: as => a * x k + dot x (k + 1) as

section Dot

variable {α : Type} (x : Nat → Rat)

theorem dot_append (k : Nat) (as bs : List Rat) :
    dot x k (as ++ bs) = dot x k as + dot x (k + as.length) bs := by
  induction as generalizing k with
  | nil => simp [dot]
  | cons a as ih =>
    rw [cons_append, dot, dot, ih, length_cons, Nat.add_right_comm, ← Nat.add_assoc]
    ring

theorem dot_zeros (k n : Nat) : dot x k (List.replicate n 0) = 0 := by
  induction n generalizing k with
  | zero => rfl
  | succ n ih => rw [replicate_succ, dot, ih, zero_mul, zero_add]

/-- Sums of which each summand is no larger. -/
theorem dot_le {as : List α} {f g : α → Rat} {k : Nat}
    (h : ∀ n a, as[n]? = some a → f a * x (k + n) ≤ g a * x (k + n)) :
    dot x k (as.map f) ≤ dot x k (as.map g) := by
  induction as generalizing k with
  | nil => exact le_refl _
  | cons a as ih =>
    have hhead := h 0 a rfl
    have htail : dot x (k + 1) (as.map f) ≤ dot x (k + 1) (as.map g) := by
      refine ih fun n b hb => ?_
      have hnext := h (n + 1) b hb
      rwa [← Nat.add_assoc, Nat.add_right_comm] at hnext
    rw [map_cons, map_cons, dot, dot]
    rw [Nat.add_zero] at hhead
    linarith

theorem dot_congr {as : List α} {f g : α → Rat} {k : Nat}
    (h : ∀ n a, as[n]? = some a → f a * x (k + n) = g a * x (k + n)) :
    dot x k (as.map f) = dot x k (as.map g) :=
  le_antisymm (dot_le x fun n a ha => (h n a ha).le) (dot_le x fun n a ha => (h n a ha).ge)

/-- The part of the sum whose entries carry the key. -/
def share [DecidableEq β] (x : Nat → Rat) (key : α → β) (k : Nat) (as : List α) (b : β) : Rat :=
  dot x k (as.map fun a => if key a = b then 1 else 0)

/-- A sum whose coefficients depend on a key only, key by key. -/
theorem dot_shares {β : Type} [DecidableEq β] {as : List α} {key : α → β} {s : Finset β}
    (hs : ∀ a ∈ as, key a ∈ s) (f : β → Rat) (k : Nat) :
    dot x k (as.map fun a => f (key a)) = ∑ b ∈ s, f b * share x key k as b := by
  induction as generalizing k with
  | nil => simp [dot, share]
  | cons a as ih =>
    have hrest := ih (fun b hb => hs b (mem_cons_of_mem _ hb)) (k + 1)
    have hsplit : ∀ b, share x key k (a :: as) b =
        (if key a = b then x k else 0) + share x key (k + 1) as b := by
      intro b
      unfold share
      rw [map_cons, dot, ite_mul, one_mul, zero_mul]
    rw [map_cons, dot, hrest]
    simp only [hsplit, mul_add, Finset.sum_add_distrib, mul_ite, mul_zero]
    rw [Finset.sum_ite_eq, if_pos (hs a mem_cons_self)]

end Dot

/-! ## Programs -/

/-- A constraint; a bound that is missing is infinite. -/
structure Constraint where
  entries : List (Nat × Rat)
  lower : Option Rat
  upper : Option Rat

/-- What `scipy.optimize.milp` is given. -/
structure Milp where
  objective : List Rat
  constraints : List Constraint
  bounds : List Rat

def Constraint.value (c : Constraint) (x : Nat → Rat) : Rat :=
  (c.entries.map fun e => e.2 * x e.1).sum

def Constraint.Holds (c : Constraint) (x : Nat → Rat) : Prop :=
  (∀ l, c.lower = some l → l ≤ c.value x) ∧ ∀ u, c.upper = some u → c.value x ≤ u

namespace Milp

def value (P : Milp) (x : Nat → Rat) : Rat := dot x 0 P.objective

structure Feasible (P : Milp) (x : Nat → Rat) : Prop where
  whole : ∀ k u, P.bounds[k]? = some u → ∃ n : Int, x k = n
  bounds : ∀ k u, P.bounds[k]? = some u → 0 ≤ x k ∧ x k ≤ u
  constraints : ∀ c ∈ P.constraints, c.Holds x

def IsOptimum (P : Milp) (x : Nat → Rat) : Prop :=
  P.Feasible x ∧ ∀ y, P.Feasible y → P.value x ≤ P.value y

/-- A column with the bound one is zero or one. -/
theorem Feasible.binary {P : Milp} {x : Nat → Rat} (h : P.Feasible x) {k : Nat}
    (hk : P.bounds[k]? = some 1) : x k = 0 ∨ x k = 1 := by
  obtain ⟨n, hn⟩ := h.whole k 1 hk
  obtain ⟨hlow, hhigh⟩ := h.bounds k 1 hk
  rw [hn] at hlow hhigh ⊢
  have hlow : 0 ≤ n := by exact_mod_cast hlow
  have hhigh : n ≤ 1 := by exact_mod_cast hhigh
  have : n = 0 ∨ n = 1 := by omega
  rcases this with rfl | rfl
  · exact .inl rfl
  · exact .inr rfl

/-- The solutions of the program are the choices, at their costs. -/
structure Encodes {α : Type} (P : Milp) (choices : Finset α) (cost : α → Rat)
    (decode : (Nat → Rat) → α) : Prop where
  decoded : ∀ x, P.Feasible x → decode x ∈ choices ∧ cost (decode x) ≤ P.value x
  encoded : ∀ s ∈ choices, ∃ x, P.Feasible x ∧ P.value x = cost s

section Encodes

variable {α : Type} {P : Milp} {choices : Finset α} {cost : α → Rat} {decode : (Nat → Rat) → α}

/-- An optimum is read as a choice that costs least. -/
theorem Encodes.least (h : P.Encodes choices cost decode) {x : Nat → Rat} (hx : P.IsOptimum x) :
    decode x ∈ choices ∧ ∀ s ∈ choices, cost (decode x) ≤ cost s := by
  obtain ⟨hmem, hcost⟩ := h.decoded x hx.1
  refine ⟨hmem, fun s hs => ?_⟩
  obtain ⟨y, hy, hvalue⟩ := h.encoded s hs
  exact hcost.trans ((hx.2 y hy).trans hvalue.le)

/-- There is an optimum where there is a choice. -/
theorem Encodes.exists_optimum (h : P.Encodes choices cost decode) :
    (∃ x, P.IsOptimum x) ↔ choices.Nonempty := by
  constructor
  · rintro ⟨x, hx⟩
    exact ⟨_, (h.decoded x hx.1).1⟩
  · intro hne
    obtain ⟨s, hs, hleast⟩ := choices.exists_min_image cost hne
    obtain ⟨x, hx, hvalue⟩ := h.encoded s hs
    refine ⟨x, hx, fun y hy => ?_⟩
    obtain ⟨hmem, hcost⟩ := h.decoded y hy
    rw [hvalue]
    exact (hleast _ hmem).trans hcost

end Encodes

end Milp

end Data
