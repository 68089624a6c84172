/-
  Objects whose keys are enumerated in an order of their own.

  A JavaScript object enumerates the keys that are array indices first, by number, and the
  others in the order in which they came in. `setOwn lt` is the assignment to a key of such an
  object, where `lt` says which keys come before which; the rest is as for any dictionary.
-/
import WebGis.Data.Dict

namespace Data

open List Option Prod

namespace Dict

variable {κ ν : Type}

/-- The entry goes before the first one whose key comes after its own. -/
def place (lt : κ → κ → Bool) (kv : κ × ν) : List (κ × ν) → List (κ × ν)
  | [] => [kv]
  | f :: fs => if lt kv.1 f.1 then kv :: f :: fs else f :: place lt kv fs

theorem place_perm (lt : κ → κ → Bool) (kv : κ × ν) (fs : List (κ × ν)) :
    (place lt kv fs).Perm (fs ++ [kv]) := by
  induction fs with
  | nil => exact List.Perm.refl _
  | cons f fs ih =>
    unfold place
    split
    · exact (perm_append_singleton kv (f :: fs)).symm
    · exact ih.cons f

/-- An entry that comes before no other goes to the end. -/
theorem place_last {lt : κ → κ → Bool} {kv : κ × ν} {fs : List (κ × ν)}
    (h : ∀ f ∈ fs, lt kv.1 f.1 = false) : place lt kv fs = fs ++ [kv] := by
  induction fs with
  | nil => rfl
  | cons f fs ih =>
    obtain ⟨hf, hfs⟩ := forall_mem_cons.mp h
    simp [place, hf, ih hfs]

/-! ## The order of the keys -/

section Order

/-- What an order of keys is asked for: of three keys, one that comes before another comes before
    the third, or the third comes before the other. -/
structure Before (lt : κ → κ → Bool) : Prop where
  asymm : ∀ {a b}, lt a b = true → lt b a = false
  split : ∀ {a b}, lt a b = true → ∀ c, lt a c = true ∨ lt c b = true

/-- No key comes before one that stands in front of it. -/
def InOrder (lt : κ → κ → Bool) (ks : List κ) : Prop := ks.Pairwise fun a b => lt b a = false

/-- The entries as an object enumerates them that gets them one after another. -/
def arrange (lt : κ → κ → Bool) (kvs : List (κ × ν)) : List (κ × ν) :=
  kvs.foldl (fun fs kv => place lt kv fs) []

variable {lt : κ → κ → Bool}

theorem arrange_concat (lt : κ → κ → Bool) (kvs : List (κ × ν)) (kv : κ × ν) :
    arrange lt (kvs ++ [kv]) = place lt kv (arrange lt kvs) := by
  rw [arrange, foldl_append]
  rfl

theorem arrange_perm (lt : κ → κ → Bool) (kvs : List (κ × ν)) : (arrange lt kvs).Perm kvs := by
  induction kvs using List.reverseRecOn with
  | nil => exact List.Perm.refl _
  | append_singleton kvs kv ih =>
    rw [arrange_concat]
    exact (place_perm lt kv _).trans (ih.append_right [kv])

/-- What comes before the first of some keys in order comes before all of them. -/
theorem Before.all (hlt : Before lt) {k l : κ} {ks : List κ} (h : lt k l)
    (ho : InOrder lt (l :: ks)) : ∀ x ∈ l :: ks, lt k x := by
  intro x hx
  rcases mem_cons.mp hx with rfl | hx
  · exact h
  rcases hlt.split h x with hkx | hxl
  · exact hkx
  · rw [(pairwise_cons.mp ho).1 x hx] at hxl
    cases hxl

theorem inOrder_place (hlt : Before lt) (kv : κ × ν) {fs : List (κ × ν)}
    (h : InOrder lt (fs.map fst)) : InOrder lt ((place lt kv fs).map fst) := by
  induction fs with
  | nil => exact pairwise_singleton _ _
  | cons f fs ih =>
    unfold place
    split
    · rename_i hf
      exact pairwise_cons.mpr ⟨fun x hx => hlt.asymm (hlt.all hf h x hx), h⟩
    · rename_i hf
      obtain ⟨hhead, htail⟩ := pairwise_cons.mp h
      refine pairwise_cons.mpr ⟨fun x hx => ?_, ih htail⟩
      have hx' : x ∈ (fs ++ [kv]).map fst := ((place_perm lt kv fs).map fst).mem_iff.mp hx
      rw [map_append, mem_append] at hx'
      rcases hx' with hx' | hx'
      · exact hhead x hx'
      · obtain rfl := mem_singleton.mp hx'
        exact Bool.eq_false_iff.mpr hf

theorem inOrder_arrange (hlt : Before lt) (kvs : List (κ × ν)) :
    InOrder lt ((arrange lt kvs).map fst) := by
  induction kvs using List.reverseRecOn with
  | nil => exact List.Pairwise.nil
  | append_singleton kvs kv ih =>
    rw [arrange_concat]
    exact inOrder_place hlt kv ih

/-- Entries that come in the order of their keys are enumerated as they came. -/
theorem arrange_of_inOrder {kvs : List (κ × ν)} (h : InOrder lt (kvs.map fst)) :
    arrange lt kvs = kvs := by
  induction kvs using List.reverseRecOn with
  | nil => rfl
  | append_singleton kvs kv ih =>
    rw [map_append] at h
    obtain ⟨hkvs, -, hlast⟩ := pairwise_append.mp h
    rw [arrange_concat, ih hkvs]
    exact place_last fun f hf => hlast f.1 (List.mem_map_of_mem hf) kv.1 (by simp)

theorem place_first {kv : κ × ν} {fs : List (κ × ν)} (h : ∀ f ∈ fs, lt kv.1 f.1) :
    place lt kv fs = kv :: fs := by
  cases fs with
  | nil => rfl
  | cons f fs => rw [place, if_pos (h f mem_cons_self)]

theorem filter_place (hlt : Before lt) (p : κ × ν → Bool) (kv : κ × ν) {fs : List (κ × ν)}
    (h : InOrder lt (fs.map fst)) :
    (place lt kv fs).filter p = if p kv then place lt kv (fs.filter p) else fs.filter p := by
  induction fs with
  | nil => by_cases hp : p kv = true <;> simp [place, hp]
  | cons f fs ih =>
    by_cases hf : lt kv.1 f.1
    · have hall := hlt.all hf h
      have hfirst : place lt kv ((f :: fs).filter p) = kv :: (f :: fs).filter p :=
        place_first fun x hx =>
          hall x.1 (List.mem_map_of_mem (f := fst) (mem_filter.mp hx).1)
      rw [hfirst, place, if_pos hf, filter_cons]
    · rw [place, if_neg hf, filter_cons, ih (pairwise_cons.mp h).2, filter_cons]
      by_cases hpf : p f
      · rw [if_pos hpf, if_pos hpf]
        split
        · rw [place, if_neg hf]
        · rfl
      · rw [if_neg hpf, if_neg hpf]

/-- Taking entries out leaves the others where they are. -/
theorem filter_arrange (hlt : Before lt) (p : κ × ν → Bool) (kvs : List (κ × ν)) :
    (arrange lt kvs).filter p = arrange lt (kvs.filter p) := by
  induction kvs using List.reverseRecOn with
  | nil => rfl
  | append_singleton kvs kv ih =>
    rw [arrange_concat, filter_place hlt p kv (inOrder_arrange hlt kvs), ih, filter_append]
    by_cases hp : p kv
    · rw [if_pos hp, filter_singleton, hp, cond_true, arrange_concat]
    · rw [if_neg hp, filter_singleton, Bool.eq_false_iff.mpr hp, cond_false, append_nil]

/-- Changing values leaves the keys where they are. -/
theorem map_arrange (lt : κ → κ → Bool) {f : κ × ν → κ × ν} (hf : ∀ kv, (f kv).1 = kv.1)
    (kvs : List (κ × ν)) : (arrange lt kvs).map f = arrange lt (kvs.map f) := by
  have hplace : ∀ (kv : κ × ν) (fs : List (κ × ν)),
      (place lt kv fs).map f = place lt (f kv) (fs.map f) := by
    intro kv fs
    induction fs with
    | nil => rfl
    | cons g fs ih =>
      by_cases h : lt kv.1 g.1
      · simp [place, h, hf]
      · simp [place, h, hf, ih]
  induction kvs using List.reverseRecOn with
  | nil => rfl
  | append_singleton kvs kv ih =>
    rw [arrange_concat, hplace, ih, map_append, map_singleton, arrange_concat]

end Order

variable [DecidableEq κ]

/-- `o[k] = v` -/
def setOwn (lt : κ → κ → Bool) (d : Dict κ ν) (k : κ) (v : ν) : Dict κ ν :=
  match h : Table.get d k with
  | some _ => Table.put d (k, v)
  | none => ⟨place lt (k, v) d.rows,
      ((place_perm lt (k, v) d.rows).map fst).nodup_iff.mpr (nodup_append_new v h)⟩

/-- Dictionaries with the same items in any order find the same. -/
theorem find_of_perm {d e : Dict κ ν} (h : d.items.Perm e.items) (k : κ) : d.find k = e.find k := by
  apply Option.ext
  intro v
  rw [find_eq_some, find_eq_some, h.mem_iff]

/-- Where a key is enumerated does not matter for what is found. -/
theorem items_setOwn_perm (lt : κ → κ → Bool) (d : Dict κ ν) (k : κ) (v : ν) :
    (d.setOwn lt k v).items.Perm (d.set k v).items := by
  unfold setOwn
  split
  · rename_i r hr
    have hset : d.set k v = Table.put d (k, v) := by
      unfold set
      split
      · rfl
      rename_i hn
      exact absurd (hr.symm.trans hn) (some_ne_none r)
    rw [hset]
  · rename_i hn
    rw [items_set_of_not_mem v (find_eq_none.mp (find_of_get_none hn))]
    exact place_perm lt (k, v) d.rows

theorem find_setOwn (lt : κ → κ → Bool) (d : Dict κ ν) (k k' : κ) (v : ν) :
    (d.setOwn lt k v).find k' = if k = k' then some v else d.find k' := by
  rw [find_of_perm (items_setOwn_perm lt d k v), find_set]

theorem items_setOwn_new {lt : κ → κ → Bool} {d : Dict κ ν} {k : κ} (v : ν) (hk : k ∉ d.keys) :
    (d.setOwn lt k v).items = place lt (k, v) d.items := by
  unfold setOwn
  split
  · rename_i r hr
    have hmem : r.1 ∈ d.keys := List.mem_map_of_mem (Table.mem_of_get hr)
    rw [Table.get_key hr] at hmem
    exact absurd hmem hk
  · rfl

/-- A key that is there keeps its place. -/
theorem items_setOwn_mem {lt : κ → κ → Bool} {d : Dict κ ν} {k : κ} (v : ν) (hk : k ∈ d.keys) :
    (d.setOwn lt k v).items = d.items.map fun kv => if kv.1 = k then (k, v) else kv := by
  unfold setOwn
  split
  · rfl
  rename_i hn
  exact absurd hk (find_eq_none.mp (find_of_get_none hn))

/-- A key that is not there yet is assigned. -/
def addOwn (lt : κ → κ → Bool) (d : Dict κ ν) (kv : κ × ν) : Dict κ ν :=
  if (d.find kv.1).isSome then d else d.setOwn lt kv.1 kv.2

/-- The object with the given pairs, whose keys are different. -/
def ofPairs (lt : κ → κ → Bool) (kvs : List (κ × ν)) : Dict κ ν := kvs.foldl (addOwn lt) empty

theorem find_addOwn (lt : κ → κ → Bool) (d : Dict κ ν) (kv : κ × ν) (k : κ) :
    (addOwn lt d kv).find k = (d.find k).or (if kv.1 = k then some kv.2 else none) := by
  unfold addOwn
  by_cases hk : kv.1 = k
  · rw [hk, if_pos rfl]
    cases hd : d.find k with
    | some v => rw [isSome_some, if_pos rfl, hd, some_or]
    | none => rw [isSome_none, if_neg Bool.false_ne_true, find_setOwn, if_pos rfl, none_or]
  · rw [if_neg hk, or_none]
    split
    · rfl
    · rw [find_setOwn, if_neg hk]

/-- What is found is the first value of a key. -/
theorem find_ofPairs (lt : κ → κ → Bool) (kvs : List (κ × ν)) (k : κ) :
    (ofPairs lt kvs).find k = (kvs.find? fun kv => kv.1 = k).map snd := by
  suffices hall : ∀ d : Dict κ ν, (kvs.foldl (addOwn lt) d).find k =
      (d.find k).or ((kvs.find? fun kv => kv.1 = k).map snd) from
    (hall empty).trans (none_or)
  induction kvs with
  | nil => exact fun d => or_none.symm
  | cons kv kvs ih =>
    intro d
    rw [foldl_cons, ih, find_addOwn, Option.or_assoc, find?_cons]
    by_cases hk : kv.1 = k <;> simp [hk]

end Dict

/-! ## Array indices -/

/-- The number that a decimal text without leading zeros stands for. -/
def decimal (s : String) : Option Nat :=
  match s.toList with
  | [] => none
  | ['0'] => some 0
  | c :: cs =>
    if c ≠ '0' ∧ (c :: cs).all Char.isDigit then
      some ((c :: cs).foldl (fun n c => 10 * n + (c.toNat - 48)) 0)
    else none

/-- The array index that a key is. -/
def arrayIndex (s : String) : Option Nat := (decimal s).filter (· < 4294967295)

/-- An array index is enumerated before greater ones and before all other keys. -/
def indexBefore (k l : String) : Bool :=
  match arrayIndex k, arrayIndex l with
  | some i, some j => i < j
  | some _, none => true
  | none, _ => false

theorem before_indexBefore : Dict.Before indexBefore where
  asymm := by
    intro a b h
    unfold indexBefore at h ⊢
    cases ha : arrayIndex a with
    | none => rw [ha] at h; cases h
    | some i =>
      cases hb : arrayIndex b with
      | none => rfl
      | some j =>
        simp only [ha, hb, decide_eq_true_eq] at h
        simp only [decide_eq_false_iff_not]
        omega
  split := by
    intro a b h c
    unfold indexBefore at h ⊢
    cases ha : arrayIndex a with
    | none => rw [ha] at h; cases h
    | some i =>
      cases hc : arrayIndex c with
      | none => exact .inl rfl
      | some k =>
        cases hb : arrayIndex b with
        | none => exact .inr rfl
        | some j =>
          simp only [ha, hb, decide_eq_true_eq] at h
          simp only [decide_eq_true_eq]
          omega

end Data
