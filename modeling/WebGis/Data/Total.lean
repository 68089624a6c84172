/-
  Dictionaries that a loop over a list fills: one value under several keys, and the entries of
  the list pushed under theirs.

  Totals over the rows of a table, and over the items of a dictionary.
-/
import WebGis.Data.Dict

open List

namespace Data.Dict

variable {κ ν α : Type} [DecidableEq κ]

/-- One value set under all keys of a list. -/
theorem find_foldl_const (ks : List κ) (v : ν) (d : Dict κ ν) (k : κ) :
    (ks.foldl (fun d k => d.set k v) d).find k = if k ∈ ks then some v else d.find k := by
  induction ks generalizing d with
  | nil => simp
  | cons l ks ih =>
    rw [foldl_cons, ih, find_set]
    by_cases hl : l = k
    · subst hl
      simp
    · simp [hl, Ne.symm hl]

/-- The list under a key, in the order of the pushes. -/
theorem getD_foldl_push (kvs : List (κ × ν)) (d : Dict κ (List ν)) (k : κ) :
    (kvs.foldl (fun d kv => d.push kv.1 kv.2) d).getD k [] =
      d.getD k [] ++ (kvs.filter fun kv => kv.1 = k).map Prod.snd := by
  induction kvs generalizing d with
  | nil => simp
  | cons kv kvs ih =>
    rw [foldl_cons, ih, getD_push, append_assoc]
    by_cases h : kv.1 = k <;> simp [h]

theorem mem_keys_foldl_push (kvs : List (κ × ν)) (d : Dict κ (List ν)) (k : κ) :
    k ∈ (kvs.foldl (fun d kv => d.push kv.1 kv.2) d).keys ↔ k ∈ d.keys ∨ k ∈ kvs.map Prod.fst := by
  induction kvs generalizing d with
  | nil => simp
  | cons kv kvs ih =>
    rw [foldl_cons, ih, push, mem_keys_set, map_cons, mem_cons, or_assoc, or_left_comm]

/-- The members of a list that a loop with a condition fills. -/
theorem mem_foldl_push_if (p : α → Prop) [DecidablePred p] (key : α → κ) (value : α → ν)
    (l : List α) (k : κ) (v : ν) :
    v ∈ (l.foldl (fun d a => if p a then d.push (key a) (value a) else d)
        (empty : Dict κ (List ν))).getD k [] ↔ ∃ a ∈ l, p a ∧ key a = k ∧ value a = v := by
  have hfold : l.foldl (fun d a => if p a then d.push (key a) (value a) else d)
      (empty : Dict κ (List ν)) = ((l.filter (p ·)).map fun a => (key a, value a)).foldl
        (fun d kv => d.push kv.1 kv.2) empty := by
    rw [foldl_map, foldl_filter]
    simp only [decide_eq_true_eq]
  rw [hfold, mem_foldl_push]
  simp only [mem_map, mem_filter, decide_eq_true_eq, Prod.mk.injEq]
  constructor
  · rintro (h | ⟨a, ⟨ha, hp⟩, hk, hv⟩)
    · exact absurd h (by simp [getD])
    · exact ⟨a, ha, hp, hk, hv⟩
  · rintro ⟨a, ha, hp, hk, hv⟩
    exact .inr ⟨a, ⟨ha, hp⟩, hk, hv⟩

end Data.Dict

namespace Data

namespace Table

variable {ρ κ M : Type} {key : ρ → κ} [AddCommMonoid M]

/-- The sum of `f` over the rows. -/
def total (f : ρ → M) (T : Table ρ κ key) : M := (T.rows.map f).sum

/-- A row counts for no more than the total. -/
theorem le_total {T : Table ρ κ key} {r : ρ} (h : r ∈ T.rows) (f : ρ → Nat) : f r ≤ T.total f :=
  le_sum_of_mem (mem_map_of_mem h)

variable [DecidableEq κ]

theorem sum_map_put {rows : List ρ} (hu : (rows.map key).Nodup) (f : ρ → M) {r r0 : ρ}
    (h0 : r0 ∈ rows) (hk : key r0 = key r) :
    ((rows.map fun x => if key x = key r then r else x).map f).sum + f r0 =
      (rows.map f).sum + f r := by
  induction rows with
  | nil => cases h0
  | cons x rows ih =>
    rw [map_cons, nodup_cons] at hu
    rw [map_cons, map_cons, map_cons, sum_cons, sum_cons]
    by_cases hx : key x = key r
    · -- the replaced row is this one, and no other row has its key
      have hx0 : x = r0 := by
        rcases mem_cons.mp h0 with h | h
        · exact h.symm
        · refine absurd ?_ hu.1
          rw [hx, ← hk]
          exact mem_map_of_mem h
      have hrest : (rows.map fun x => if key x = key r then r else x) = rows := by
        refine (map_congr_left fun y hy => if_neg fun he => hu.1 ?_).trans (map_id' rows)
        rw [hx, ← he]
        exact mem_map_of_mem hy
      rw [if_pos hx, hrest, ← hx0, add_right_comm, add_comm (f r), add_right_comm]
    · have hmem : r0 ∈ rows := by
        rcases mem_cons.mp h0 with rfl | h
        · exact absurd hk hx
        · exact h
      rw [if_neg hx, add_assoc, ih hu.2 hmem, add_assoc]

/-- Replacing a row exchanges its summand. -/
theorem total_put {T : Table ρ κ key} {r r0 : ρ} (h : T.get (key r) = some r0) (f : ρ → M) :
    (T.put r).total f + f r0 = T.total f + f r :=
  sum_map_put T.unique f (mem_of_get h) (get_key h)

/-- New rows add their summands. -/
theorem total_insert {T T' : Table ρ κ key} {rs : List ρ} (h : T.insert rs = some T')
    (f : ρ → M) : T'.total f = T.total f + (rs.map f).sum := by
  unfold total
  rw [insert_rows h, map_append, sum_append]

end Table

namespace Dict

variable {κ ν M : Type} [DecidableEq κ] [AddCommMonoid M]

/-- Setting a key exchanges the summand of its old value, if there was one. -/
theorem total_set (d : Dict κ ν) (k : κ) (v : ν) (f : κ × ν → M) :
    Table.total f (d.set k v) + ((d.find k).elim 0 fun v0 => f (k, v0)) =
      Table.total f d + f (k, v) := by
  cases hfind : d.find k with
  | some v0 =>
    have hget := get_eq_some hfind
    have hset : d.set k v = Table.put d (k, v) := by
      unfold set
      split
      · rfl
      rename_i hnone
      rw [hget] at hnone
      cases hnone
    rw [hset]
    exact Table.total_put hget f
  | none =>
    have hitems := items_set_of_not_mem v (find_eq_none.mp hfind)
    show ((d.set k v).items.map f).sum + 0 = (d.items.map f).sum + f (k, v)
    rw [hitems, map_append, sum_append, map_singleton, sum_singleton, add_zero]

end Dict

end Data
