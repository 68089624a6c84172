/-
  Tables with a unique key.

  A table is the list of its rows, in the order in which they were inserted, with the
  proof that no two rows share a key. `put` replaces the row with the key of the new row
  and does nothing when there is none, which is what an UPDATE by key does. `insert` adds
  rows all at once and fails when that would repeat a key, which is what an INSERT does
  under a uniqueness constraint.
-/
import Mathlib

namespace Data

open List Option

/-- Rows with pairwise different keys. -/
structure Table (ρ κ : Type) (key : ρ → κ) where
  rows : List ρ
  unique : (rows.map key).Nodup

namespace Table

variable {ρ κ : Type} {key : ρ → κ}

variable {T T' : Table ρ κ key}

/-- Tables with the same rows are equal. -/
theorem eq_of_rows (h : T.rows = T'.rows) : T = T' := by
  obtain ⟨rows, _⟩ := T
  obtain ⟨rows', _⟩ := T'
  obtain rfl : rows = rows' := h
  rfl

/-- The table without rows. -/
def empty : Table ρ κ key := ⟨[], nodup_nil⟩

variable [DecidableEq κ]

/-- The row with key `k`. -/
def get (T : Table ρ κ key) (k : κ) : Option ρ := T.rows.find? fun r => key r = k

theorem map_put_keys (rows : List ρ) (r : ρ) :
    (rows.map fun x => if key x = key r then r else x).map key = rows.map key := by
  rw [List.map_map]
  refine map_congr_left fun x _ => ?_
  by_cases h : key x = key r <;> simp [h]

/-- The row with the key of `r` becomes `r`. -/
def put (T : Table ρ κ key) (r : ρ) : Table ρ κ key where
  rows := T.rows.map fun x => if key x = key r then r else x
  unique := by
    rw [map_put_keys]
    exact T.unique

/-- The rows join at the end, unless a key would occur twice. -/
def insert (T : Table ρ κ key) (rs : List ρ) : Option (Table ρ κ key) :=
  if h : ((T.rows ++ rs).map key).Nodup then some ⟨T.rows ++ rs, h⟩ else none

/-! ## Reading -/

variable {r : ρ} {k : κ}

theorem get_key (h : T.get k = some r) : key r = k := by
  simpa using find?_some h

theorem mem_of_get (h : T.get k = some r) : r ∈ T.rows :=
  mem_of_find?_eq_some h

variable {rows : List ρ}

theorem find_of_mem (hu : (rows.map key).Nodup) (h : r ∈ rows) :
    rows.find? (fun x => key x = key r) = some r := by
  induction rows with
  | nil => cases h
  | cons x rows ih =>
    rw [map_cons, nodup_cons] at hu
    rcases mem_cons.mp h with rfl | h'
    · simp
    have hne : key x ≠ key r := fun he => hu.1 (he ▸ List.mem_map_of_mem h')
    simpa [hne] using ih hu.2 h'

/-- The only row that meets a condition is found by it. -/
theorem find_of_unique {p : ρ → Bool} (h : r ∈ rows) (hp : p r)
    (hu : ∀ x ∈ rows, p x → x = r) : rows.find? p = some r := by
  cases hf : rows.find? p with
  | none => exact absurd hp (find?_eq_none.mp hf r h)
  | some x => rw [hu x (mem_of_find?_eq_some hf) (find?_some hf)]

theorem get_of_mem (h : r ∈ T.rows) : T.get (key r) = some r :=
  find_of_mem T.unique h

theorem get_eq_none : T.get k = none ↔ ∀ r ∈ T.rows, key r ≠ k := by
  simp [get]

/-! ## Writing -/

@[simp] theorem put_keys (T : Table ρ κ key) (r : ρ) :
    (T.put r).rows.map key = T.rows.map key := map_put_keys T.rows r

theorem get_put_self {r0 : ρ} (h : T.get (key r) = some r0) : (T.put r).get (key r) = some r := by
  apply get_of_mem
  exact List.mem_map.mpr ⟨r0, mem_of_get h, by simp [get_key h]⟩

theorem get_put_ne (h : key r ≠ k) : (T.put r).get k = T.get k := by
  simp only [get, put, find?_map]
  have hp : ((fun x => decide (key x = k)) ∘ fun x => if key x = key r then r else x) =
      fun x => decide (key x = k) := by
    funext x
    by_cases hx : key x = key r
    · simp [hx, h]
    · simp [hx]
  rw [hp]
  cases hf : T.rows.find? fun x => decide (key x = k) with
  | none => rfl
  | some x =>
    have hx : key x = k := by simpa using find?_some hf
    have : key x ≠ key r := by rw [hx]; exact fun he => h he.symm
    simp [this]

/-- After a `put`, a lookup finds the new row under its key and what was there elsewhere. -/
theorem get_put {r0 : ρ} (h : T.get (key r) = some r0) (k : κ) :
    (T.put r).get k = if key r = k then some r else T.get k := by
  split
  · rename_i hk
    rw [← hk, get_put_self h]
  · rename_i hk
    exact get_put_ne hk

variable {rs : List ρ}

section

variable (h : T.insert rs = some T')
include h

theorem insert_rows : T'.rows = T.rows ++ rs := by
  unfold insert at h
  split at h
  · cases h
    rfl
  · cases h

theorem get_insert (k : κ) :
    T'.get k = (T.get k).or (rs.find? fun r => key r = k) := by
  simp only [get, insert_rows h, find?_append]

/-- Rows that were there are still found. -/
theorem get_insert_some (hr : T.get k = some r) :
    T'.get k = some r := by
  rw [get_insert h, hr]
  rfl

/-- A row found only after the insertion is one of the new rows. -/
theorem get_insert_none (hn : T.get k = none) (hr : T'.get k = some r) :
    r ∈ rs ∧ key r = k := by
  rw [get_insert h, hn, none_or] at hr
  exact ⟨mem_of_find?_eq_some hr, by simpa using find?_some hr⟩

end

/-- A row whose key is new is let in. -/
theorem insert_isSome (h : T.get (key r) = none) : (T.insert [r]).isSome := by
  have hnodup : ((T.rows ++ [r]).map key).Nodup := by
    rw [map_append, map_singleton]
    refine List.Nodup.append T.unique (nodup_singleton _) ?_
    intro k hk hr
    rw [mem_singleton] at hr
    obtain ⟨r', hr', rfl⟩ := List.mem_map.mp hk
    exact get_eq_none.mp h r' hr' hr
  unfold insert
  rw [dif_pos hnodup]
  rfl

/-- The rows that do not meet `p`. -/
def delete (T : Table ρ κ key) (p : ρ → Bool) : Table ρ κ key where
  rows := T.rows.filter fun r => !p r
  unique := T.unique.sublist (filter_sublist.map key)

theorem get_delete (T : Table ρ κ key) (p : ρ → Bool) (k : κ) :
    (T.delete p).get k = (T.get k).filter fun r => !p r := by
  cases h : T.get k with
  | none =>
    rw [get_eq_none] at h
    exact get_eq_none.mpr fun r hr => h r (mem_filter.mp hr).1
  | some r =>
    have hkey := get_key h
    by_cases hp : p r
    · rw [filter_some, if_neg (by rw [hp]; exact Bool.false_ne_true)]
      refine get_eq_none.mpr fun r' hr' hk => ?_
      obtain ⟨hmem, hnot⟩ := mem_filter.mp hr'
      have hsame : r' = r := some.inj ((hk ▸ get_of_mem hmem).symm.trans h)
      rw [hsame, hp] at hnot
      exact Bool.false_ne_true hnot
    · have hnot : (!p r) := by rw [Bool.not_eq_true', Bool.eq_false_iff]; exact hp
      rw [filter_some, if_pos hnot, ← hkey]
      exact get_of_mem (mem_filter.mpr ⟨mem_of_get h, hnot⟩)

end Table

end Data
