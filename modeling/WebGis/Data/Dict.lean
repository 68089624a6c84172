/-
  Dictionaries that remember the order in which their keys first came in.

  A dictionary is a table of pairs whose key is the first component. Setting a key that is
  there keeps its place; setting a new one appends it.
-/
import WebGis.Data.Table

namespace Data

open List Table Prod
open Option hiding or_assoc

/-- A finite map with its keys in the order of their insertion. -/
abbrev Dict (κ ν : Type) : Type := Table (κ × ν) κ fst

namespace Dict

variable {κ ν ι : Type} [DecidableEq κ]

def items (d : Dict κ ν) : List (κ × ν) := d.rows

def keys (d : Dict κ ν) : List κ := d.items.map fst

/-- The value under `k`. -/
def find (d : Dict κ ν) (k : κ) : Option ν := (Table.get d k).map snd

/-- The value under `k`, or `v` when there is none. -/
def getD (d : Dict κ ν) (k : κ) (v : ν) : ν := (d.find k).getD v

variable {d : Dict κ ν} {k : κ}

theorem nodup_append_new (v : ν) (h : Table.get d k = none) :
    ((d.rows ++ [(k, v)]).map fst).Nodup := by
  rw [map_append, map_singleton]
  refine List.Nodup.append d.unique (nodup_singleton k) ?_
  intro x hx hk
  rw [mem_singleton] at hk
  obtain ⟨r, hr, rfl⟩ := List.mem_map.mp hx
  exact get_eq_none.mp h r hr hk

/-- `d[k] = v`. -/
def set (d : Dict κ ν) (k : κ) (v : ν) : Dict κ ν :=
  match h : Table.get d k with
  | some _ => Table.put d (k, v)
  | none => ⟨d.rows ++ [(k, v)], nodup_append_new v h⟩

/-- Without its first `n` pairs. -/
def drop (d : Dict κ ν) (n : Nat) : Dict κ ν :=
  ⟨d.rows.drop n, d.unique.sublist ((drop_sublist n d.rows).map fst)⟩

/-- The dictionary without keys. -/
def empty : Dict κ ν := Table.empty

/-- The dictionary built by setting the pairs one after another. -/
def ofList (kvs : List (κ × ν)) : Dict κ ν := kvs.foldl (fun d kv => d.set kv.1 kv.2) empty

/-- `d.setdefault(k, []).append(v)` -/
def push {ν : Type} (d : Dict κ (List ν)) (k : κ) (v : ν) : Dict κ (List ν) :=
  d.set k (d.getD k [] ++ [v])

/-- `{**d, **e}` -/
def merge (d e : Dict κ ν) : Dict κ ν := e.items.foldl (fun d kv => d.set kv.1 kv.2) d

@[simp] theorem find_empty (k : κ) : (empty : Dict κ ν).find k = none := rfl

theorem get_eq_some {v : ν} (h : d.find k = some v) : Table.get d k = some (k, v) := by
  obtain ⟨r, hr, rfl⟩ := map_eq_some_iff.mp h
  rw [hr, ← get_key hr]

theorem find_eq_some {v : ν} : d.find k = some v ↔ (k, v) ∈ d.items := by
  constructor
  · intro h
    exact mem_of_get (get_eq_some h)
  · intro h
    have := Table.get_of_mem (T := d) h
    simp [find, this]

theorem find_eq_none : d.find k = none ↔ k ∉ d.keys := by
  constructor
  · intro h hk
    obtain ⟨r, hr, rfl⟩ := List.mem_map.mp hk
    exact get_eq_none.mp (map_eq_none_iff.mp h) r hr rfl
  · intro h
    exact map_eq_none_iff.mpr (get_eq_none.mpr fun r hr he =>
      h (he ▸ List.mem_map_of_mem hr))

theorem find_of_get_none (h : Table.get d k = none) : d.find k = none := by
  simp [find, h]

@[simp] theorem find_set_self (d : Dict κ ν) (k : κ) (v : ν) : (d.set k v).find k = some v := by
  unfold set
  split
  · rename_i r h
    simp only [find, get_put_self (r := (k, v)) h, map_some]
  · rename_i h
    have : Table.get (⟨d.rows ++ [(k, v)], nodup_append_new v h⟩ : Dict κ ν) k = some (k, v) :=
      Table.get_of_mem (T := (⟨_, nodup_append_new v h⟩ : Dict κ ν)) (r := (k, v)) (by simp)
    simp only [find, this, map_some]

theorem find_set_ne (d : Dict κ ν) {k' : κ} (v : ν) (h : k ≠ k') :
    (d.set k v).find k' = d.find k' := by
  unfold set
  split
  · simp only [find, get_put_ne (T := d) (r := (k, v)) h]
  simp only [find, Table.get, find?_append]
  simp [h]

theorem find_set (d : Dict κ ν) (k k' : κ) (v : ν) :
    (d.set k v).find k' = if k = k' then some v else d.find k' := by
  split
  · rename_i h
    rw [← h, find_set_self]
  · rename_i h
    exact find_set_ne d v h

theorem keys_set_of_mem (d : Dict κ ν) (v : ν) (h : k ∈ d.keys) : (d.set k v).keys = d.keys := by
  unfold set
  split
  · exact put_keys d (k, v)
  · rename_i hn
    exact absurd h (find_eq_none.mp (find_of_get_none hn))

theorem mem_keys_iff : k ∈ d.keys ↔ ∃ v, d.find k = some v := by
  rw [← not_iff_not, ← find_eq_none, eq_none_iff_forall_not_mem]
  simp

theorem mem_keys_set (d : Dict κ ν) (k k' : κ) (v : ν) :
    k' ∈ (d.set k v).keys ↔ k' = k ∨ k' ∈ d.keys := by
  simp only [mem_keys_iff, find_set]
  by_cases h : k = k'
  · simp [h]
  · simp [h, Ne.symm h]

theorem items_set_of_not_mem (v : ν) (h : k ∉ d.keys) :
    (d.set k v).items = d.items ++ [(k, v)] := by
  unfold set
  split
  · rename_i r hr
    have hk : r.1 ∈ d.keys := List.mem_map_of_mem (mem_of_get hr)
    rw [get_key hr] at hk
    exact absurd hk h
  · rfl

/-- Pairs with different keys are the items of the dictionary built from them. -/
theorem items_ofList {kvs : List (κ × ν)} (h : (kvs.map fst).Nodup) :
    (ofList kvs).items = kvs := by
  suffices hfold : ∀ d : Dict κ ν, (∀ k ∈ kvs.map fst, k ∉ d.keys) →
      (kvs.foldl (fun d kv => d.set kv.1 kv.2) d).items = d.items ++ kvs from
    hfold empty fun _ _ hk => by cases hk
  induction kvs with
  | nil => exact fun d _ => (append_nil _).symm
  | cons kv kvs ih =>
    intro d hd
    rw [map_cons, nodup_cons] at h
    have hnew : kv.1 ∉ d.keys := hd kv.1 mem_cons_self
    rw [foldl_cons, ih h.2, items_set_of_not_mem _ hnew, append_assoc]
    · rfl
    · intro k hk hmem
      rcases (mem_keys_set d kv.1 k kv.2).mp hmem with rfl | hmem
      · exact h.1 hk
      · exact hd k (mem_cons_of_mem _ hk) hmem

/-- A dictionary is built from its items. -/
theorem ofList_items (d : Dict κ ν) : ofList d.items = d := by
  have hrows : (ofList d.items).rows = d.rows := items_ofList d.unique
  obtain ⟨rows, hu⟩ := d
  generalize ofList (items ⟨rows, hu⟩) = e at hrows
  obtain ⟨rows', hu'⟩ := e
  obtain rfl : rows' = rows := hrows
  rfl

/-- What is left of a key once the pairs that meet `p` are gone. -/
theorem find_delete (d : Dict κ ν) (p : κ × ν → Bool) (k : κ) :
    find (Table.delete d p) k = (d.find k).filter fun v => !p (k, v) := by
  unfold find
  rw [get_delete]
  cases h : Table.get d k with
  | none => rfl
  | some r =>
    obtain rfl : r.1 = k := get_key h
    cases hp : p r with
    | true => simp [Option.filter, hp]
    | false => simp [Option.filter, hp]

/-- A key that is deleted is gone, every other key stays as it was. -/
theorem find_delete_key (d : Dict κ ν) (k k' : κ) :
    find (Table.delete d fun kv => kv.1 = k) k' = if k' = k then none else d.find k' := by
  rw [find_delete]
  by_cases h : k' = k
  · cases d.find k' <;> simp [h]
  · cases d.find k' <;> simp [h]

theorem find_foldl_set (kvs : List (κ × ν)) (d : Dict κ ν) (k : κ) :
    (kvs.foldl (fun d kv => d.set kv.1 kv.2) d).find k =
      ((kvs.reverse.find? fun kv => kv.1 = k).map snd).or (d.find k) := by
  induction kvs generalizing d with
  | nil => rfl
  | cons kv kvs ih =>
    rw [foldl_cons, ih, find_set, reverse_cons, find?_append, map_or, Option.or_assoc]
    congr 1
    by_cases h : kv.1 = k <;> simp [h]

theorem find_merge (d e : Dict κ ν) (k : κ) :
    (d.merge e).find k = (e.find k).or (d.find k) := by
  have hrev : (e.items.reverse.find? fun kv => kv.1 = k) = e.items.find? fun kv => kv.1 = k := by
    have hu : (e.items.reverse.map fst).Nodup := by
      rw [map_reverse]
      exact nodup_reverse.mpr e.unique
    cases h : e.items.find? fun kv => kv.1 = k with
    | none => simpa using find?_eq_none.mp h
    | some kv =>
      obtain rfl : kv.1 = k := by simpa using find?_some h
      exact Table.find_of_mem hu (mem_reverse.mpr (mem_of_find?_eq_some h))
  rw [merge, find_foldl_set, hrev]
  rfl

variable {e : Dict κ ν}

/-- Dictionaries with the same value under every key have the same items, up to their order. -/
theorem items_perm (h : ∀ k, d.find k = e.find k) : d.items.Perm e.items := by
  have hd : d.items.Nodup := List.Nodup.of_map fst d.unique
  have he : e.items.Nodup := List.Nodup.of_map fst e.unique
  rw [perm_ext_iff_of_nodup hd he]
  rintro ⟨k, v⟩
  rw [← find_eq_some, ← find_eq_some, h k]

theorem getD_push {ν : Type} (d : Dict κ (List ν)) (k k' : κ) (v : ν) :
    (d.push k v).getD k' [] = d.getD k' [] ++ if k = k' then [v] else [] := by
  unfold push getD
  rw [find_set]
  by_cases h : k = k'
  · rw [if_pos h, if_pos h, h]
    rfl
  · rw [if_neg h, if_neg h, append_nil]

/-- What is pushed under a key is what the list of pushes has for it. -/
theorem mem_foldl_push {ν : Type} (kvs : List (κ × ν)) (d : Dict κ (List ν)) (k : κ) (v : ν) :
    v ∈ (kvs.foldl (fun d kv => d.push kv.1 kv.2) d).getD k [] ↔
      v ∈ d.getD k [] ∨ (k, v) ∈ kvs := by
  induction kvs generalizing d with
  | nil => simp
  | cons kv kvs ih =>
    rw [foldl_cons, ih, getD_push, mem_append, mem_cons, or_assoc]
    refine or_congr Iff.rfl (or_congr ?_ Iff.rfl)
    obtain ⟨l, w⟩ := kv
    by_cases h : l = k
    · simp [h]
    · simp [h, Ne.symm h]

/-- A member of the list under a key is in an item. -/
theorem mem_getD {ν : Type} {d : Dict κ (List ν)} {v : ν} :
    v ∈ d.getD k [] ↔ ∃ vs, (k, vs) ∈ d.items ∧ v ∈ vs := by
  unfold getD
  cases h : d.find k with
  | none =>
    have hnone : ∀ vs, (k, vs) ∉ d.items := fun vs hm => by
      rw [find_eq_some.mpr hm] at h
      cases h
    simp [hnone]
  | some vs =>
    constructor
    · exact fun hv => ⟨vs, find_eq_some.mp h, hv⟩
    · rintro ⟨ws, hw, hv⟩
      rw [find_eq_some.mpr hw] at h
      exact some.inj h ▸ hv

/-- One value under every key of a list. -/
theorem find_ofList_const (keys : List κ) (v : ν) (k : κ) :
    (ofList (keys.map fun k => (k, v))).find k = if k ∈ keys then some v else none := by
  suffices hfold : ∀ d : Dict κ ν,
      ((keys.map fun k => (k, v)).foldl (fun d kv => d.set kv.1 kv.2) d).find k =
        if k ∈ keys then some v else d.find k from hfold empty
  induction keys with
  | nil => exact fun d => rfl
  | cons key keys ih =>
    intro d
    rw [map_cons, foldl_cons, ih, find_set]
    by_cases hk : k ∈ keys
    · rw [if_pos hk, if_pos (mem_cons_of_mem _ hk)]
    rw [if_neg hk]
    simp only [mem_cons, hk, or_false, eq_comm]

/-- The dictionary with every value replaced. -/
def mapValues (g : ν → ν) (d : Dict κ ν) : Dict κ ν where
  rows := d.items.map fun kv => (kv.1, g kv.2)
  unique := by
    rw [List.map_map]
    exact d.unique

theorem find_mapValues (g : ν → ν) (d : Dict κ ν) (k : κ) :
    (d.mapValues g).find k = (d.find k).map g := by
  simp only [find, Table.get, mapValues, find?_map, Option.map_map]
  rfl

/-- Setting every key that was there anew leaves nothing of the old values. -/
theorem find_merge_of_keys (h : ∀ k ∈ d.keys, k ∈ e.keys) (k : κ) :
    (d.merge e).find k = e.find k := by
  rw [find_merge]
  cases he : e.find k with
  | some v => rfl
  | none =>
    rw [none_or]
    exact find_eq_none.mpr fun hk => find_eq_none.mp he (h k hk)

/-- A key set twice keeps the second value. -/
theorem ofList_twice (k : κ) (v w : ν) : ofList [(k, v), (k, w)] = ofList [(k, w)] := by
  have hget : Table.get (set empty k v) k = some (k, v) := get_eq_some (find_set_self empty k v)
  have hput : set (set empty k v) k w = Table.put (set empty k v) (k, w) := by
    unfold set at hget ⊢
    split
    · rfl
    rename_i hn
    rw [hn] at hget
    cases hget
  show set (set empty k v) k w = set empty k w
  rw [hput]
  simp [Table.put, set, Table.get, empty, Table.empty]

end Dict

end Data
