/-
  The list of pairs of a dictionary, around one key.

  A key that is there splits the list in two (`split`); setting it writes over the middle and
  deleting it joins the sides. Counts and sums over the pairs follow. `updateWhere` is what an
  UPDATE with a condition does to the rows.
-/
import WebGis.Data.Dict

namespace Data.Dict

open List Option

variable {κ ν : Type} [DecidableEq κ]

variable {d : Dict κ ν} {v : ν} {k : κ}

theorem split (h : d.find k = some v) :
    ∃ pre post, d.items = pre ++ (k, v) :: post ∧ ∀ kv ∈ pre ++ post, kv.1 ≠ k := by
  obtain ⟨pre, post, hitems⟩ := append_of_mem (find_eq_some.mp h)
  refine ⟨pre, post, hitems, fun kv hkv hk => ?_⟩
  have hnodup : (d.items.map Prod.fst).Nodup := d.unique
  rw [hitems, map_append, map_cons, nodup_middle, nodup_cons, ← map_append] at hnodup
  exact hnodup.1 (List.mem_map.mpr ⟨kv, hkv, hk⟩)

variable {pre post : List (κ × ν)}

section

variable (hitems : d.items = pre ++ (k, v) :: post) (hne : ∀ kv ∈ pre ++ post, kv.1 ≠ k)
include hitems hne

theorem items_delete_key :
    items (Table.delete d fun kv => kv.1 = k) = pre ++ post := by
  have hside {xs : List (κ × ν)} (h : ∀ kv ∈ xs, kv.1 ≠ k) :
      xs.filter (fun kv => !decide (kv.1 = k)) = xs :=
    filter_eq_self.mpr fun kv hkv => by simpa using h kv hkv
  change d.items.filter (fun kv => !decide (kv.1 = k)) = pre ++ post
  rw [hitems, filter_append, filter_cons_of_neg (by simp),
    hside fun kv hkv => hne kv (mem_append_left post hkv),
    hside fun kv hkv => hne kv (mem_append_right pre hkv)]

theorem items_set_key (u : ν) : (d.set k u).items = pre ++ (k, u) :: post := by
  have hfind : d.find k = some v := find_eq_some.mpr (by rw [hitems]; simp)
  have hside {xs : List (κ × ν)} (h : ∀ kv ∈ xs, kv.1 ≠ k) :
      xs.map (fun kv => if kv.1 = k then (k, u) else kv) = xs := by
    conv_rhs => rw [← List.map_id xs]
    exact map_congr_left fun kv hkv => if_neg (h kv hkv)
  have hset : (d.set k u).items = d.items.map fun kv => if kv.1 = k then (k, u) else kv := by
    unfold set
    split
    · rfl
    rename_i hnone
    rw [find_of_get_none hnone] at hfind
    cases hfind
  rw [hset, hitems, map_append, map_cons, if_pos rfl,
    hside fun kv hkv => hne kv (mem_append_left post hkv),
    hside fun kv hkv => hne kv (mem_append_right pre hkv)]

end

/-- One value less that counts, and one more. -/
theorem countP_set (d : Dict κ ν) (k : κ) (v : ν) (p : ν → Bool) :
    (d.set k v).items.countP (fun kv => p kv.2) + ((d.find k).any p).toNat =
      d.items.countP (fun kv => p kv.2) + (p v).toNat := by
  have hone (w : ν) (xs : List (κ × ν)) :
      ((k, w) :: xs).countP (fun kv => p kv.2) = xs.countP (fun kv => p kv.2) + (p w).toNat := by
    rw [countP_cons]
    cases p w <;> rfl
  cases hfind : d.find k with
  | none =>
    rw [items_set_of_not_mem v (find_eq_none.mp hfind), countP_append, hone]
    simp
  | some u =>
    obtain ⟨pre, post, hitems, hne⟩ := split hfind
    rw [items_set_key hitems hne v, hitems, countP_append, countP_append, hone, hone, any_some]
    omega

section

variable (f : ν → Nat)

/-- The sum over the values. -/
def total (d : Dict κ ν) : Nat := (d.items.map fun kv => f kv.2).sum

variable {d : Dict κ ν} {v : ν} {k : κ}

theorem total_delete (h : d.find k = some v) :
    total f (Table.delete d fun kv => kv.1 = k) + f v = total f d := by
  obtain ⟨pre, post, hitems, hne⟩ := split h
  unfold total
  rw [items_delete_key hitems hne, hitems]
  simp only [map_append, map_cons, sum_append, sum_cons]
  omega

theorem length_delete (h : d.find k = some v) :
    (items (Table.delete d fun kv => kv.1 = k)).length + 1 = d.items.length := by
  obtain ⟨pre, post, hitems, hne⟩ := split h
  rw [items_delete_key hitems hne, hitems, length_append, length_append, length_cons]
  omega

theorem total_set_new (h : d.find k = none) (v : ν) : total f (d.set k v) = total f d + f v := by
  unfold total
  rw [items_set_of_not_mem v (find_eq_none.mp h), map_append, sum_append]
  simp

theorem length_set_new (h : d.find k = none) (v : ν) :
    (d.set k v).items.length = d.items.length + 1 := by
  rw [items_set_of_not_mem v (find_eq_none.mp h), length_append, length_singleton]

theorem find_delete_self (d : Dict κ ν) (k : κ) :
    find (Table.delete d fun kv => kv.1 = k) k = none := by
  rw [find_delete]
  cases d.find k <;> simp [Option.filter]

theorem find_delete_ne (d : Dict κ ν) {k' : κ} (h : k' ≠ k) :
    find (Table.delete d fun kv => kv.1 = k) k' = d.find k' := by
  rw [find_delete]
  cases d.find k' <;> simp [Option.filter, h]

theorem find_drop_one (h : (d.drop 1).find k = some v) : d.find k = some v := by
  rw [find_eq_some] at h ⊢
  exact mem_of_mem_drop h

end

section

variable {M : Type} [AddCommMonoid M] (f : ν → M)

/-- The sum over the values, in any commutative monoid. -/
def sum (d : Dict κ ν) : M := (d.items.map fun kv => f kv.2).sum

variable {d : Dict κ ν} {k : κ}

theorem sum_set {u : ν} (h : d.find k = some u) (v : ν) :
    sum f (d.set k v) + f u = sum f d + f v := by
  obtain ⟨pre, post, hitems, hne⟩ := split h
  unfold sum
  rw [items_set_key hitems hne v, hitems]
  simp only [map_append, map_cons, sum_append, sum_cons]
  abel

theorem sum_set_new (h : d.find k = none) (v : ν) : sum f (d.set k v) = sum f d + f v := by
  unfold sum
  rw [items_set_of_not_mem v (find_eq_none.mp h), map_append, sum_append]
  simp

theorem sum_delete {v : ν} (h : d.find k = some v) :
    sum f (Table.delete d fun kv => kv.1 = k) + f v = sum f d := by
  obtain ⟨pre, post, hitems, hne⟩ := split h
  unfold sum
  rw [items_delete_key hitems hne, hitems]
  simp only [map_append, map_cons, sum_append, sum_cons]
  abel

omit [DecidableEq κ] in
theorem sum_congr {g : ν → M} (h : ∀ kv ∈ d.items, f kv.2 = g kv.2) : sum f d = sum g d :=
  congrArg List.sum (map_congr_left h)

end

/-- The values that meet `p` are replaced. -/
def updateWhere (d : Dict κ ν) (p : κ → ν → Bool) (f : ν → ν) : Dict κ ν where
  rows := d.items.map fun kv => if p kv.1 kv.2 then (kv.1, f kv.2) else kv
  unique := by
    have hkeys : (d.items.map fun kv => if p kv.1 kv.2 then (kv.1, f kv.2) else kv).map Prod.fst =
        d.items.map Prod.fst := by
      rw [List.map_map]
      refine map_congr_left fun kv _ => ?_
      simp only [Function.comp_apply]
      split <;> rfl
    rw [hkeys]
    exact d.unique

theorem find_updateWhere (d : Dict κ ν) (p : κ → ν → Bool) (f : ν → ν) (k : κ) :
    (d.updateWhere p f).find k = (d.find k).map fun v => if p k v then f v else v := by
  have hkey : (fun x : κ × ν => decide (x.1 = k)) ∘
      (fun kv : κ × ν => if p kv.1 kv.2 then (kv.1, f kv.2) else kv) =
        fun kv => decide (kv.1 = k) := by
    funext kv
    simp only [Function.comp_apply]
    split <;> rfl
  simp only [find, Table.get, updateWhere, find?_map, hkey]
  change Option.map _ (Option.map _ (d.rows.find? _)) = Option.map _ (Option.map _ _)
  cases h : d.rows.find? fun kv => decide (kv.1 = k) with
  | none => rfl
  | some kv =>
    have hk : kv.1 = k := by simpa using find?_some h
    simp only [map_some, hk]
    split <;> rfl

theorem find_updateWhere_some {p : κ → ν → Bool} {f : ν → ν}
    (h : (d.updateWhere p f).find k = some v) :
    ∃ u, d.find k = some u ∧ v = if p k u then f u else u := by
  rw [find_updateWhere, map_eq_some_iff] at h
  obtain ⟨u, hu, huv⟩ := h
  exact ⟨u, hu, huv.symm⟩

end Data.Dict
