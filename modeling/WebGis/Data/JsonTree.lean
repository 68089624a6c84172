/-
  Functions that rewrite a JSON value from its leaves up, the order of an object's keys,
  and the canonical text of a value.

  A rewriting changes the scalars by one function and rearranges the fields of every
  object by another. Sorting keys, canonical parameters and normal forms are of this kind,
  so what one of them does after another is a fact about the functions on scalars.

  A text inside a value is no longer than the text of the value.
-/
import WebGis.Data.Dict
import WebGis.Data.Dumps

open List

namespace Data

namespace Json

/-- Neither an array nor an object. -/
def isScalar : Json → Bool
  | .arr _ => false
  | .obj _ => false
  | _ => true

/-- The field with its value rewritten by `g`. -/
def onValue (g : Json → Json) (f : String × Json) : String × Json := (f.1, g f.2)

/-! ## Induction -/

/-- Induction over the entries of arrays and the values of objects. -/
theorem tree_induct {P : Json → Prop} (scalar : ∀ v, v.isScalar → P v)
    (arr : ∀ xs : List Json, (∀ x ∈ xs, P x) → P (.arr xs))
    (obj : ∀ fs : List (String × Json), (∀ f ∈ fs, P f.2) → P (.obj fs)) (v : Json) : P v := by
  refine @Json.rec P (fun xs => ∀ x ∈ xs, P x) (fun fs => ∀ f ∈ fs, P f.2) (fun f => P f.2)
    (scalar _ rfl) (fun _ => scalar _ rfl) (fun _ => scalar _ rfl) (fun _ => scalar _ rfl)
    (fun _ => scalar _ rfl) arr obj ?_ ?_ ?_ ?_ (fun _ _ hv => hv) v
  · exact fun x hx => absurd hx not_mem_nil
  · exact fun v vs hv hvs => forall_mem_cons.mpr ⟨hv, hvs⟩
  · exact fun f hf => absurd hf not_mem_nil
  · exact fun f fs hf hfs => forall_mem_cons.mpr ⟨hf, hfs⟩

/-! ## Rewriting -/

section Rewrite

variable (s : Json → Json) (o : List (String × Json) → List (String × Json))

mutual

/-- Scalars go through `s`, the rewritten fields of each object through `o`. -/
def mapTree : Json → Json
  | .arr xs => .arr (mapItems xs)
  | .obj fs => .obj (o (mapFields fs))
  | .null => s .null
  | .bool b => s (.bool b)
  | .int n => s (.int n)
  | .float q => s (.float q)
  | .str t => s (.str t)

def mapItems : List Json → List Json
  | [] => []
  | x :: xs => mapTree x :: mapItems xs

def mapFields : List (String × Json) → List (String × Json)
  | [] => []
  | (k, v) :: fs => (k, mapTree v) :: mapFields fs

end

theorem mapItems_eq (xs : List Json) : mapItems s o xs = xs.map (mapTree s o) := by
  induction xs with
  | nil => rfl
  | cons x xs ih => rw [mapItems, ih, map_cons]

theorem mapFields_eq (fs : List (String × Json)) :
    mapFields s o fs = fs.map (onValue (mapTree s o)) := by
  induction fs with
  | nil => rfl
  | cons f fs ih => rw [mapFields, ih, map_cons, onValue]

theorem mapTree_scalar {v : Json} (h : v.isScalar) : mapTree s o v = s v := by
  cases v with
  | arr xs => cases h
  | obj fs => cases h
  | null | bool | int | float | str => rfl

theorem mapTree_arr (xs : List Json) : mapTree s o (.arr xs) = .arr (xs.map (mapTree s o)) := by
  rw [mapTree, mapItems_eq]

theorem mapTree_obj (fs : List (String × Json)) :
    mapTree s o (.obj fs) = .obj (o (fs.map (onValue (mapTree s o)))) := by
  rw [mapTree, mapFields_eq]

end Rewrite

mutual

/-- The scalars of a value. -/
def leaves : Json → List Json
  | .arr xs => itemLeaves xs
  | .obj fs => fieldLeaves fs
  | .null => [.null]
  | .bool b => [.bool b]
  | .int n => [.int n]
  | .float q => [.float q]
  | .str t => [.str t]

def itemLeaves : List Json → List Json
  | [] => []
  | x :: xs => leaves x ++ itemLeaves xs

def fieldLeaves : List (String × Json) → List Json
  | [] => []
  | (_, v) :: fs => leaves v ++ fieldLeaves fs

end

variable {v : Json}

theorem leaves_scalar (h : v.isScalar) : leaves v = [v] := by
  cases v with
  | arr xs => cases h
  | obj fs => cases h
  | null | bool | int | float | str => rfl

theorem mem_leaves_arr {x : Json} {xs : List Json} :
    x ∈ leaves (.arr xs) ↔ ∃ v ∈ xs, x ∈ leaves v := by
  rw [leaves]
  induction xs with
  | nil => simp [itemLeaves]
  | cons v vs ih => simp [itemLeaves, ih]

variable {fs : List (String × Json)}

theorem mem_leaves_obj {x : Json} : x ∈ leaves (.obj fs) ↔ ∃ f ∈ fs, x ∈ leaves f.2 := by
  rw [leaves]
  induction fs with
  | nil => simp [fieldLeaves]
  | cons f fs ih => simp [fieldLeaves, ih]

/-! ## The order of keys -/

/-- The fields by their keys, as `sorted` puts them. -/
def byKey (fs : List (String × Json)) : List (String × Json) :=
  fs.insertionSort fun a b => a.1 ≤ b.1

theorem byKey_perm (fs : List (String × Json)) : (byKey fs).Perm fs :=
  perm_insertionSort _ fs

theorem mem_byKey {f : String × Json} : f ∈ byKey fs ↔ f ∈ fs :=
  (byKey_perm fs).mem_iff

theorem byKey_sorted (fs : List (String × Json)) :
    (byKey fs).Pairwise fun a b => a.1 ≤ b.1 := by
  have : Std.Total (fun a b : String × Json => a.1 ≤ b.1) := ⟨fun a b => String.le_total a.1 b.1⟩
  have : IsTrans (String × Json) fun a b => a.1 ≤ b.1 := ⟨fun _ _ _ => String.le_trans⟩
  exact pairwise_insertionSort _ fs

theorem byKey_byKey (fs : List (String × Json)) : byKey (byKey fs) = byKey fs :=
  (byKey_sorted fs).insertionSort_eq

theorem byKey_map (g : Json → Json) (fs : List (String × Json)) :
    byKey (fs.map (onValue g)) = (byKey fs).map (onValue g) :=
  (map_insertionSort _ _ (onValue g) fs fun _ _ _ _ => Iff.rfl).symm

theorem eq_of_mem (h : (fs.map Prod.fst).Nodup) {a b : String × Json} (ha : a ∈ fs) (hb : b ∈ fs)
    (hab : a.1 = b.1) : a = b :=
  inj_on_of_nodup_map h ha hb hab

variable {gs : List (String × Json)}

/-- Fields with different keys have one sorted order. -/
theorem byKey_eq_of_perm (hu : (fs.map Prod.fst).Nodup) (h : fs.Perm gs) : byKey fs = byKey gs := by
  refine List.Perm.eq_of_pairwise ?_ (byKey_sorted fs) (byKey_sorted gs)
    ((byKey_perm fs).trans (h.trans (byKey_perm gs).symm))
  intro a b ha hb hab hba
  exact eq_of_mem hu (mem_byKey.mp ha) (h.mem_iff.mpr (mem_byKey.mp hb)) (String.le_antisymm hab hba)

/-- A rewriting that sorts the keys does not depend on their order. -/
theorem mapTree_perm {s : Json → Json} (hu : (fs.map Prod.fst).Nodup) (h : fs.Perm gs) :
    mapTree s byKey (.obj fs) = mapTree s byKey (.obj gs) := by
  rw [mapTree_obj, mapTree_obj, byKey_map, byKey_map, byKey_eq_of_perm hu h]

/-! ## One rewriting after another -/

/-- Arranging fields and then sorting them by key is only sorting them. -/
def Arranges (o : List (String × Json) → List (String × Json)) : Prop :=
  ∀ g fs, byKey ((o fs).map (onValue g)) = byKey (fs.map (onValue g))

theorem arranges_id : Arranges id := fun _ _ => rfl

theorem arranges_byKey : Arranges byKey := by
  intro g fs
  rw [← byKey_map, byKey_byKey]

variable {s s' : Json → Json} {o : List (String × Json) → List (String × Json)}

theorem mapTree_mapTree (hs : ∀ v, v.isScalar → (s v).isScalar) (ho : Arranges o) (v : Json) :
    mapTree s' byKey (mapTree s o v) = mapTree (s' ∘ s) byKey v := by
  induction v using tree_induct with
  | scalar v hv => rw [mapTree_scalar s o hv, mapTree_scalar _ _ (hs v hv), mapTree_scalar _ _ hv]; rfl
  | arr xs ih =>
    rw [mapTree_arr, mapTree_arr, mapTree_arr, map_map]
    exact congrArg Json.arr (map_congr_left ih)
  | obj fs ih =>
    rw [mapTree_obj, mapTree_obj, mapTree_obj, ho, map_map]
    refine congrArg (fun gs => Json.obj (byKey gs)) (map_congr_left fun f hf => ?_)
    exact congrArg (Prod.mk f.1) (ih f hf)

theorem mapTree_congr (h : ∀ x ∈ leaves v, s x = s' x) : mapTree s o v = mapTree s' o v := by
  induction v using tree_induct with
  | scalar v hv =>
    rw [mapTree_scalar s o hv, mapTree_scalar s' o hv]
    exact h v (by rw [leaves_scalar hv]; exact mem_singleton_self v)
  | arr xs ih =>
    rw [mapTree_arr, mapTree_arr]
    refine congrArg Json.arr (map_congr_left fun x hx => ih x hx fun y hy => ?_)
    exact h y (mem_leaves_arr.mpr ⟨x, hx, hy⟩)
  | obj fs ih =>
    rw [mapTree_obj, mapTree_obj]
    refine congrArg (fun gs => Json.obj (o gs)) (map_congr_left fun f hf => ?_)
    exact congrArg (Prod.mk f.1) (ih f hf fun y hy => h y (mem_leaves_obj.mpr ⟨f, hf, hy⟩))

/-- Two rewritings of one value that agree do so on every scalar of it. -/
theorem eq_of_mapTree_eq (h : mapTree s byKey v = mapTree s' byKey v) :
    ∀ x ∈ leaves v, s x = s' x := by
  induction v using tree_induct with
  | scalar v hv =>
    intro x hx
    rw [leaves_scalar hv, mem_singleton] at hx
    rwa [hx, ← mapTree_scalar s byKey hv, ← mapTree_scalar s' byKey hv]
  | arr xs ih =>
    intro x hx
    obtain ⟨v, hv, hx⟩ := mem_leaves_arr.mp hx
    rw [mapTree_arr, mapTree_arr] at h
    exact ih v hv (map_inj_left.mp (Json.arr.inj h) v hv) x hx
  | obj fs ih =>
    intro x hx
    obtain ⟨f, hf, hx⟩ := mem_leaves_obj.mp hx
    rw [mapTree_obj, mapTree_obj] at h
    have hmap := Json.obj.inj h
    rw [byKey_map, byKey_map] at hmap
    have hval := map_inj_left.mp hmap f (mem_byKey.mpr hf)
    exact ih f hf (Prod.mk.inj hval).2 x hx

/-- The scalars of a rewritten value are the rewritten scalars. -/
theorem mem_leaves_mapTree (hs : ∀ v, v.isScalar → (s v).isScalar) (v x : Json) :
    x ∈ leaves (mapTree s byKey v) ↔ ∃ y ∈ leaves v, s y = x := by
  induction v using tree_induct with
  | scalar v hv =>
    rw [mapTree_scalar _ _ hv, leaves_scalar (hs v hv), leaves_scalar hv]
    simp [eq_comm]
  | arr xs ih =>
    rw [mapTree_arr, mem_leaves_arr]
    constructor
    · rintro ⟨w, hw, hx⟩
      obtain ⟨v, hv, rfl⟩ := mem_map.mp hw
      obtain ⟨y, hy, hyx⟩ := (ih v hv).mp hx
      exact ⟨y, mem_leaves_arr.mpr ⟨v, hv, hy⟩, hyx⟩
    · rintro ⟨y, hy, hyx⟩
      obtain ⟨v, hv, hy⟩ := mem_leaves_arr.mp hy
      exact ⟨_, mem_map_of_mem hv, (ih v hv).mpr ⟨y, hy, hyx⟩⟩
  | obj fs ih =>
    rw [mapTree_obj, mem_leaves_obj]
    constructor
    · rintro ⟨g, hg, hx⟩
      obtain ⟨f, hf, rfl⟩ := mem_map.mp (mem_byKey.mp hg)
      obtain ⟨y, hy, hyx⟩ := (ih f hf).mp hx
      exact ⟨y, mem_leaves_obj.mpr ⟨f, hf, hy⟩, hyx⟩
    · rintro ⟨y, hy, hyx⟩
      obtain ⟨f, hf, hy⟩ := mem_leaves_obj.mp hy
      exact ⟨_, mem_byKey.mpr (mem_map_of_mem hf), (ih f hf).mpr ⟨y, hy, hyx⟩⟩

/-! ## Sorted keys and normal forms -/

/-- Every object of the value with its keys sorted. -/
def sortKeys : Json → Json := mapTree id byKey

/-- A whole float is the integer it equals. -/
def wholeFloat : Json → Json
  | .float q => if q.den = 1 then .int q.num else .float q
  | v => v

/-- The representative of a value among those that differ in the order of keys and in
    whether a whole number is written as a float. -/
def normal : Json → Json := mapTree wholeFloat byKey

/-- The same value up to the order of keys and up to whole floats. -/
def Same (v w : Json) : Prop := normal v = normal w

theorem sortKeys_obj (fs : List (String × Json)) :
    sortKeys (.obj fs) = .obj ((byKey fs).map (onValue sortKeys)) := by
  rw [sortKeys, mapTree_obj, byKey_map]

/-- Objects that agree up to the order of keys agree field by field. -/
theorem mem_of_sortKeys_eq (h : sortKeys (.obj fs) = sortKeys (.obj gs)) {k : String}
    (hf : (k, v) ∈ fs) : ∃ w, (k, w) ∈ gs ∧ sortKeys w = sortKeys v := by
  rw [sortKeys_obj, sortKeys_obj] at h
  have hmem : (k, sortKeys v) ∈ (byKey gs).map (onValue sortKeys) := by
    rw [← Json.obj.inj h]
    exact mem_map_of_mem (f := onValue sortKeys) (mem_byKey.mpr hf)
  obtain ⟨⟨l, w⟩, hg, he⟩ := mem_map.mp hmem
  obtain ⟨rfl, hw⟩ := Prod.mk.inj he
  exact ⟨w, mem_byKey.mp hg, hw⟩

/-- `json.dumps(v, ensure_ascii=False, sort_keys=True, separators=(",", ":"))` -/
def dumps (R : FloatRepr) (v : Json) : String := String.ofList (text R (sortKeys v))

theorem dumps_inj {R : FloatRepr} {w : Json} (h : dumps R v = dumps R w) :
    sortKeys v = sortKeys w :=
  text_inj R (String.ofList_inj.mp h)

end Json

theorem length_escapeChar_pos (c : Char) : 0 < (escapeChar c).length := by
  unfold escapeChar
  split_ifs <;> simp

theorem length_le_quoteChars (s : List Char) : s.length ≤ (quoteChars s).length := by
  have hescaped : s.length ≤ (s.flatMap escapeChar).length := by
    induction s with
    | nil => exact Nat.le_refl _
    | cons c s ih =>
      have := length_escapeChar_pos c
      simp only [flatMap_cons, length_append, length_cons]
      omega
  simp only [quoteChars, cons_append, length_cons, length_append, length_nil]
  omega

namespace Json

theorem length_le_textRest (R : FloatRepr) {x : Json} {xs : List Json} (h : x ∈ xs) :
    (text R x).length ≤ (textRest R xs).length := by
  induction xs with
  | nil => cases h
  | cons y ys ih =>
    simp only [textRest, length_cons, length_append]
    rcases mem_cons.mp h with rfl | h
    · omega
    have := ih h
    omega

theorem length_le_textFields (R : FloatRepr) {f : String × Json} {fs : List (String × Json)}
    (h : f ∈ fs) : (text R f.2).length ≤ (textFields R fs).length := by
  induction fs with
  | nil => cases h
  | cons g gs ih =>
    simp only [textFields, length_cons, length_append]
    rcases mem_cons.mp h with rfl | h
    · omega
    have := ih h
    omega

/-- A text inside a value is no longer than the text of the value. -/
theorem length_le_text (R : FloatRepr) {t : String} {v : Json} (h : .str t ∈ leaves v) :
    t.length ≤ (text R v).length := by
  induction v using tree_induct with
  | scalar v hv =>
    rw [leaves_scalar hv, mem_singleton] at h
    rw [← h, text, ← String.length_toList]
    exact length_le_quoteChars _
  | arr xs ih =>
    obtain ⟨x, hx, h⟩ := mem_leaves_arr.mp h
    refine (ih x hx h).trans ?_
    have hrest := length_le_textRest R hx
    cases xs with
    | nil => cases hx
    | cons y ys =>
      rw [text]
      rw [textRest] at hrest
      exact hrest
  | obj fs ih =>
    obtain ⟨f, hf, h⟩ := mem_leaves_obj.mp h
    refine (ih f hf h).trans ?_
    have hrest := length_le_textFields R hf
    cases fs with
    | nil => cases hf
    | cons g gs =>
      rw [text]
      rw [textFields] at hrest
      exact hrest

theorem length_le_dumps (R : FloatRepr) {t : String} {v : Json} (h : .str t ∈ leaves v) :
    t.length ≤ (dumps R v).length := by
  unfold dumps
  rw [String.length_ofList]
  refine length_le_text R ?_
  exact (mem_leaves_mapTree (fun v hv => hv) v _).mpr ⟨_, h, rfl⟩

end Json

end Data
