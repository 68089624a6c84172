/-
  A dictionary in the order of use, with a bound on its pairs and one on the sum of their sizes.

  The eviction drops pairs from the front until both bounds hold. Given the right sum it returns
  the right sum, and the pairs that are left are some of those that were there.
-/
import WebGis.Data.Entries

namespace Data.Dict

open List

section

variable {κ ν : Type}

theorem total_nil {size : ν → Nat} {d : Dict κ ν} (h : d.items = []) : total size d = 0 := by
  unfold total
  rw [h]
  rfl

theorem total_drop {size : ν → Nat} {d : Dict κ ν} {kv : κ × ν} {rest : List (κ × ν)} (h : d.items = kv :: rest) :
    (total size d : Int) - size kv.2 = (total size (d.drop 1) : Nat) := by
  have hdrop : (d.drop 1).items = rest := by
    change d.items.drop 1 = rest
    rw [h]
    rfl
  unfold total
  rw [hdrop, h, map_cons, sum_cons]
  omega

end

variable {κ ν : Type} [DecidableEq κ]

/-- `d` without a key. -/
def erase (d : Dict κ ν) (k : κ) : Dict κ ν := Table.delete d fun kv => kv.1 = k

def moveToEnd (d : Dict κ ν) (k : κ) (v : ν) : Dict κ ν := (d.erase k).set k v

@[simp] theorem find_erase_self (d : Dict κ ν) (k : κ) : (d.erase k).find k = none :=
  find_delete_self d k

theorem find_erase_ne (d : Dict κ ν) {k k' : κ} (h : k' ≠ k) : (d.erase k).find k' = d.find k' :=
  find_delete_ne d h

theorem find_erase (d : Dict κ ν) (k k' : κ) :
    (d.erase k).find k' = if k' = k then none else d.find k' := by
  split
  · rename_i hk
    rw [hk, find_erase_self]
  · rename_i hk
    exact find_erase_ne d hk

theorem find_moveToEnd {d : Dict κ ν} {k : κ} {v : ν} (h : d.find k = some v) (k' : κ) :
    (d.moveToEnd k v).find k' = d.find k' := by
  unfold moveToEnd
  rw [find_set]
  split
  · rename_i hk
    rw [← hk, h]
  · rename_i hk
    exact find_erase_ne d (Ne.symm hk)

section

variable (size : ν → Nat) (maxLen maxTotal : Nat)

/-- The pairs that are left, and the total. -/
def evict : Nat → Dict κ ν → Int → Dict κ ν × Int
  | 0, d, total => (d, total)
  | fuel + 1, d, total =>
    match d.items with
    | [] => (d, total)
    | kv :: _ =>
      if maxLen < d.items.length ∨ (maxTotal : Int) < total then
        evict fuel (d.drop 1) (total - size kv.2)
      else (d, total)

variable {size maxLen maxTotal}

theorem total_erase (size : ν → Nat) (d : Dict κ ν) (k : κ) :
    total size (d.erase k) + (d.find k).elim 0 size = total size d := by
  cases h : d.find k with
  | none =>
    have hitems : (d.erase k).items = d.items := by
      refine filter_eq_self.mpr fun kv hkv => ?_
      have hne : kv.1 ≠ k := fun hk => find_eq_none.mp h (mem_map.mpr ⟨kv, hkv, hk⟩)
      simpa using hne
    unfold total
    rw [hitems]
    rfl
  | some v => exact total_delete size h

theorem length_erase_le (d : Dict κ ν) (k : κ) : (d.erase k).items.length ≤ d.items.length :=
  length_filter_le _ _

theorem total_moveToEnd (size : ν → Nat) (d : Dict κ ν) (k : κ) (v : ν) :
    total size (d.moveToEnd k v) + (d.find k).elim 0 size = total size d + size v := by
  have herase := total_erase size d k
  have hset := total_set_new size (find_erase_self d k) v
  unfold moveToEnd
  omega

theorem length_moveToEnd {d : Dict κ ν} {k : κ} {u : ν} (h : d.find k = some u) (v : ν) :
    (d.moveToEnd k v).items.length = d.items.length := by
  have hdelete := length_delete h
  have hset := length_set_new (find_erase_self d k) v
  unfold moveToEnd
  rw [hset]
  exact hdelete

/-- Whatever the total, nothing is left that was not there. -/
theorem find_evict {fuel : Nat} {d : Dict κ ν} {sum : Int} {k : κ} {v : ν}
    (h : (evict size maxLen maxTotal fuel d sum).1.find k = some v) : d.find k = some v := by
  induction fuel generalizing d sum with
  | zero => exact h
  | succ fuel ih =>
    unfold evict at h
    cases hitems : d.items with
    | nil =>
      rw [hitems] at h
      exact h
    | cons kv rest =>
      rw [hitems] at h
      dsimp only at h
      split at h
      · exact find_drop_one (ih h)
      · exact h

/-- What an eviction comes to, with the right total. -/
structure Evicted (size : ν → Nat) (maxLen maxTotal : Nat) (r : Dict κ ν × Int) : Prop where
  total : r.2 = (Dict.total size r.1 : Int)
  length : r.1.items.length ≤ maxLen
  bounded : r.2 ≤ maxTotal

omit [DecidableEq κ] in
theorem evicted_evict (fuel : Nat) (d : Dict κ ν) (hfuel : d.items.length ≤ fuel) :
    Evicted size maxLen maxTotal (evict size maxLen maxTotal fuel d (total size d : Nat)) := by
  induction fuel generalizing d with
  | zero =>
    have hnil : d.items = [] := eq_nil_of_length_eq_zero (by omega)
    refine ⟨rfl, ?_, ?_⟩
    · change d.items.length ≤ maxLen
      rw [hnil]
      exact Nat.zero_le _
    · change (total size d : Int) ≤ maxTotal
      rw [total_nil hnil]
      exact Int.natCast_nonneg _
  | succ fuel ih =>
    unfold evict
    cases hitems : d.items with
    | nil =>
      refine ⟨rfl, ?_, ?_⟩
      · change d.items.length ≤ maxLen
        rw [hitems]
        exact Nat.zero_le _
      · change (total size d : Int) ≤ maxTotal
        rw [total_nil hitems]
        exact Int.natCast_nonneg _
    | cons kv rest =>
      dsimp only
      rw [← hitems]
      split
      · have hlen : (d.drop 1).items.length ≤ fuel := by
          have hdrop : (d.drop 1).items.length = d.items.length - 1 := length_drop
          omega
        rw [total_drop hitems]
        exact ih (d.drop 1) hlen
      · rename_i hbounds
        rw [not_or, not_lt, not_lt] at hbounds
        exact ⟨rfl, hbounds.1, hbounds.2⟩

end

end Data.Dict
