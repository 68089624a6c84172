/-
  Searching a text that comes in pieces.

  Of the text searched so far only its last units are kept, one less than the pattern has: an
  occurrence that is not in that text begins in them (`indexOf_append`).
-/
import Mathlib.Data.List.Infix

namespace Data

open List Option

variable {α : Type}

/-- `s.slice(-n)` -/
def ending (n : Nat) (s : List α) : List α := s.drop (s.length - n)

theorem ending_append (m : Nat) (s d : List α) :
    ending m (ending m s ++ d) = ending m (s ++ d) := by
  rw [ending, ending, ending, ← drop_append_of_le_length (Nat.sub_le _ m), drop_drop,
    length_drop, length_append]
  congr 1
  omega

variable [DecidableEq α] {p s d : List α}

/-- Where a pattern first occurs. -/
def indexOf (p s : List α) : Option Nat := s.tails.findIdx? fun t => p.isPrefixOf t

theorem indexOf_cons (p : List α) (c : α) (s : List α) : indexOf p (c :: s) =
    if p.isPrefixOf (c :: s) then some 0 else (indexOf p s).map (· + 1) := by
  rw [indexOf, List.tails, findIdx?_cons]
  rfl

theorem isPrefixOf_append (h : p.length ≤ s.length) : p.isPrefixOf (s ++ d) = p.isPrefixOf s := by
  rw [Bool.eq_iff_iff, isPrefixOf_iff_prefix, isPrefixOf_iff_prefix]
  refine ⟨fun hp => ?_, fun hp => hp.trans (prefix_append s d)⟩
  exact prefix_of_prefix_length_le hp (prefix_append s d) h

theorem length_le_of_indexOf {i : Nat} (h : indexOf p s = some i) : p.length ≤ s.length := by
  obtain ⟨t, ht, hp⟩ := List.any_eq_true.mp (findIdx?_isSome (p := p.isPrefixOf) ▸
    isSome_of_eq_some h)
  have hprefix := isPrefixOf_iff_prefix.mp hp
  exact hprefix.length_le.trans ((mem_tails _ _).mp ht).length_le

/-- What is found stays the first. -/
theorem indexOf_append_of_some {i : Nat} (hp : p ≠ []) (h : indexOf p s = some i) :
    indexOf p (s ++ d) = some i := by
  have hlen := length_le_of_indexOf h
  induction s generalizing i with
  | nil => exact absurd (length_eq_zero_iff.mp (Nat.le_zero.mp hlen)) hp
  | cons c s ih =>
    rw [cons_append, indexOf_cons, ← cons_append, isPrefixOf_append hlen]
    rw [indexOf_cons] at h
    split
    · rwa [if_pos ‹_›] at h
    · rw [if_neg ‹_›] at h
      obtain ⟨j, hj, rfl⟩ := map_eq_some_iff.mp h
      rw [ih hj (length_le_of_indexOf hj), map_some]

/-- What is not found yet begins in the units that are kept. -/
theorem indexOf_append {m : Nat} (hp : p.length = m + 1) (h : indexOf p s = none) :
    indexOf p (s ++ d) = (indexOf p (ending m s ++ d)).map fun i => s.length - m + i := by
  induction s with
  | nil => simp [ending]
  | cons c s ih =>
    rcases Nat.lt_or_ge s.length m with hshort | hlong
    · have hall : (c :: s).length - m = 0 := Nat.sub_eq_zero_of_le hshort
      rw [ending, hall]
      simp
    · have hkept : (c :: s).length - m = s.length - m + 1 := Nat.succ_sub hlong
      rw [indexOf_cons] at h
      split at h
      · cases h
      rename_i hfirst
      rw [cons_append, indexOf_cons, ← cons_append,
        isPrefixOf_append (by rw [hp]; exact Nat.succ_le_succ hlong), if_neg hfirst,
        ih (map_eq_none_iff.mp h), Option.map_map, ending, ending, hkept, drop_succ_cons]
      congr 1
      funext i
      exact Nat.add_right_comm _ i 1

end Data
