/-
  Objects as programs read and write them: one key read, set, removed or merged in.
-/
import WebGis.Data.JsonTree

namespace Data

open List Option

namespace Json

/-- The fields of an object. -/
abbrev Fields : Type := List (String × Json)

/-- `v.get(key)`; nothing when `v` is no object. -/
def get? : Json → String → Option Json
  | .obj fs, key => field key fs
  | _, _ => none

def isObj : Json → Bool
  | .obj _ => true
  | _ => false

/-- The fields of an object, none of anything else. -/
def fieldsOf : Option Json → Fields
  | some (.obj fs) => fs
  | _ => []

/-- `dict(v or {})`; nothing when `v` cannot be read as an object. -/
def dict? : Option Json → Option Fields
  | none => some []
  | some (.obj fs) => some fs
  | some v => if v.truthy then none else some []

/-- `fs[key] = v` -/
def setField (fs : Fields) (key : String) (v : Json) : Fields :=
  if (field key fs).isSome then fs.map fun f => if f.1 = key then (key, v) else f
  else fs ++ [(key, v)]

/-- `fs.pop(key, None)` -/
def dropField (fs : Fields) (key : String) : Fields := fs.filter fun f => f.1 ≠ key

/-- `{**fs, **gs}` -/
def mergeFields (fs gs : Fields) : Fields := gs.foldl (fun fs g => setField fs g.1 g.2) fs

/-- `key in fs` -/
def hasField (fs : Fields) (key : String) : Bool := (field key fs).isSome

/-! ## Setting fields -/

theorem field_cons (k : String) (f : String × Json) (fs : Fields) :
    field k (f :: fs) = if f.1 = k then some f.2 else field k fs := by
  by_cases h : f.1 = k <;> simp [field, h]

theorem field_append (k : String) (fs gs : Fields) :
    field k (fs ++ gs) = (field k fs).or (field k gs) := by
  simp [field, find?_append, map_or]

theorem field_eq_none {k : String} {fs : Fields} : field k fs = none ↔ ∀ f ∈ fs, f.1 ≠ k := by
  simp [field]

theorem field_set_map (k k' : String) (v : Json) (fs : Fields) :
    field k' (fs.map fun f => if f.1 = k then (k, v) else f) =
      if k = k' then (field k fs).map fun _ => v else field k' fs := by
  induction fs with
  | nil => simp [field]
  | cons f fs ih =>
    rw [map_cons, field_cons, field_cons, field_cons, ih]
    by_cases hf : f.1 = k <;> by_cases hk : k = k' <;> grind

theorem field_setField (fs : Fields) (k k' : String) (v : Json) :
    field k' (setField fs k v) = if k = k' then some v else field k' fs := by
  unfold setField
  split
  · rename_i h
    obtain ⟨w, hw⟩ := isSome_iff_exists.mp h
    rw [field_set_map, hw, map_some]
  · rename_i h
    rw [not_isSome_iff_eq_none] at h
    rw [field_append, field_cons]
    by_cases hk : k = k'
    · rw [← hk, h, if_pos rfl, none_or, if_pos rfl]
    · simp [hk, field]

theorem mergeFields_append (fs gs hs : Fields) :
    mergeFields fs (gs ++ hs) = mergeFields (mergeFields fs gs) hs := foldl_append ..

theorem mergeFields_concat (fs gs : Fields) (g : String × Json) :
    mergeFields fs (gs ++ [g]) = setField (mergeFields fs gs) g.1 g.2 := mergeFields_append fs gs [g]

/-- A merge lets the last value of a key win. -/
theorem field_mergeFields (fs gs : Fields) (k : String) :
    field k (mergeFields fs gs) = (field k gs.reverse).or (field k fs) := by
  induction gs using List.reverseRecOn with
  | nil => rfl
  | append_singleton gs g ih =>
    rw [mergeFields_concat, field_setField, ih, reverse_append, reverse_singleton,
      singleton_append, field_cons]
    split <;> rfl

/-- Every entry under a key that was merged in has its last value. -/
theorem value_mergeFields {fs gs : Fields} {f : String × Json} (hf : f ∈ mergeFields fs gs)
    {v : Json} (hv : field f.1 gs.reverse = some v) : f.2 = v := by
  induction gs using List.reverseRecOn generalizing f v with
  | nil => cases hv
  | append_singleton gs g ih =>
    rw [reverse_append, reverse_singleton, singleton_append, field_cons] at hv
    rw [mergeFields_concat, setField] at hf
    split at hf
    · obtain ⟨f', hf', rfl⟩ := List.mem_map.mp hf
      by_cases hk : f'.1 = g.1
      · simp only [if_pos hk] at hv ⊢
        exact some.inj hv
      · simp only [if_neg hk, if_neg (Ne.symm hk)] at hv ⊢
        exact ih hf' hv
    · rcases mem_append.mp hf with hf' | hf'
      · split at hv
        · rename_i hnone hk
          exact absurd hk.symm (field_eq_none.mp (not_isSome_iff_eq_none.mp hnone) f hf')
        · exact ih hf' hv
      · rw [mem_singleton.mp hf', if_pos rfl] at hv
        rw [mem_singleton.mp hf']
        exact some.inj hv

/-- Merging into an object that has all the keys changes values in their places. -/
theorem mergeFields_of_keys {fs gs : Fields} (h : ∀ g ∈ gs, (field g.1 fs).isSome) :
    mergeFields fs gs = fs.map fun f => (f.1, (field f.1 gs.reverse).getD f.2) := by
  induction gs using List.reverseRecOn with
  | nil => simp [mergeFields, field]
  | append_singleton gs g ih =>
    have hgs := ih fun g' hg' => h g' (mem_append_left _ hg')
    have hsome : (field g.1 (mergeFields fs gs)).isSome := by
      rw [field_mergeFields, isSome_or, h g (by simp), Bool.or_true]
    rw [mergeFields_concat, setField, if_pos hsome, hgs, List.map_map]
    refine map_congr_left fun f _ => ?_
    rw [reverse_append, reverse_singleton, singleton_append, field_cons]
    by_cases hk : f.1 = g.1
    · simp [hk]
    · simp [hk, Ne.symm hk]

/-- Merging the same fields again changes nothing. -/
theorem mergeFields_again (fs gs : Fields) :
    mergeFields (mergeFields fs gs) gs = mergeFields fs gs := by
  rw [mergeFields_of_keys]
  · conv_rhs => rw [← List.map_id (mergeFields fs gs)]
    refine map_congr_left fun f hf => ?_
    cases hv : field f.1 gs.reverse with
    | none => rfl
    | some v => rw [getD_some, ← value_mergeFields hf hv, id]
  · intro g hg
    rw [field_mergeFields, isSome_or]
    cases hv : field g.1 gs.reverse with
    | none => exact absurd rfl (field_eq_none.mp hv g (mem_reverse.mpr hg))
    | some v => rfl

/-! ## Equality -/

/-- The number that a scalar is in a comparison. -/
def asNumber : Json → Json
  | .bool b => .int (if b then 1 else 0)
  | v => wholeFloat v

/-- One value of all those that compare equal. -/
def comparand : Json → Json := mapTree asNumber byKey

/-- `v == w` -/
def Equal (v w : Json) : Prop := comparand v = comparand w

/-- `v == w`, decided. -/
def equal (v w : Json) : Bool := comparand v == comparand w

theorem equal_iff {v w : Json} : equal v w ↔ Equal v w := beq_iff_eq

theorem Equal.refl (v : Json) : Equal v v := rfl

theorem Equal.symm {v w : Json} (h : Equal v w) : Equal w v := Eq.symm h

theorem Equal.trans {u v w : Json} (huv : Equal u v) (hvw : Equal v w) : Equal u w :=
  Eq.trans huv hvw

/-- Only a string compares equal to a string. -/
theorem eq_str_of_equal {v : Json} {s : String} (h : Equal v (.str s)) : v = .str s := by
  unfold Equal comparand at h
  cases v with
  | arr xs => rw [mapTree_arr] at h; cases h
  | obj fs => rw [mapTree_obj] at h; cases h
  | float q =>
    have hf : wholeFloat (.float q) = .str s := h
    unfold wholeFloat at hf
    by_cases hq : q.den = 1
    · simp [hq] at hf
    · simp [hq] at hf
  | str t => exact h
  | null => cases h
  | bool b => cases h
  | int n => cases h

/-- What an object has under a key compares equal to what an equal object has there. -/
theorem get?_of_equal {fs gs : Fields} (h : Equal (.obj fs) (.obj gs))
    (hu : (gs.map Prod.fst).Nodup) {k : String} {v : Json} (hv : field k fs = some v) :
    ∃ w, field k gs = some w ∧ Equal w v := by
  unfold Equal comparand at h
  rw [mapTree_obj, mapTree_obj, byKey_map, byKey_map] at h
  obtain ⟨p, hp, rfl⟩ := map_eq_some_iff.mp hv
  have hpk : p.1 = k := by simpa using find?_some hp
  have hmem : onValue (mapTree asNumber byKey) p ∈ (byKey gs).map (onValue (mapTree asNumber byKey)) := by
    rw [← Json.obj.inj h]
    exact List.mem_map_of_mem (mem_byKey.mpr (mem_of_find?_eq_some hp))
  obtain ⟨q, hq, he⟩ := List.mem_map.mp hmem
  obtain ⟨hqk, hqv⟩ := Prod.mk.inj he
  have hq' : gs.find? (fun r => r.1 = k) = some q := by
    rw [← hpk, ← hqk]
    exact Table.find_of_mem hu (mem_byKey.mp hq)
  exact ⟨q.2, by rw [field, hq', map_some], hqv⟩

end Json

end Data
