/-
  `services/data_fabric/query/federation.py`: rows of sources, their join keys, and the
  equality join of two sources.

  A row keeps apart what the code finds under `properties`, at the top level and under
  `__right__`. Of a list or a dictionary the code sees its text only. Floats are their exact
  values. A budget is a parameter: an operation that goes on or raises.
-/
import WebGis.Data.Dict
import WebGis.Data.Dumps

namespace WebGis.Federation

open Data List Option

/-! ## Values -/

/-- A finite `Decimal`: sign, digits and exponent. -/
structure Dec where
  negative : Bool
  coeff : Nat
  exp : Int
  deriving DecidableEq

def Dec.value (d : Dec) : Rat := (if d.negative then -1 else 1) * d.coeff * (10 : Rat) ^ d.exp

/-- `str(d)` -/
def Dec.text (d : Dec) : String :=
  let digits := Nat.toDigits 10 d.coeff
  let leftdigits : Int := d.exp + digits.length
  let dotplace : Int := if d.exp ≤ 0 ∧ leftdigits > -6 then leftdigits else 1
  let number :=
    if dotplace ≤ 0 then '0' :: '.' :: List.replicate (-dotplace).toNat '0' ++ digits
    else if dotplace ≥ digits.length then
      digits ++ List.replicate (dotplace - digits.length).toNat '0'
    else digits.take dotplace.toNat ++ '.' :: digits.drop dotplace.toNat
  let shift := leftdigits - dotplace
  let exponent :=
    if shift = 0 then [] else 'E' :: (if shift > 0 then ['+'] else []) ++ intChars shift
  String.ofList ((if d.negative then ['-'] else []) ++ number ++ exponent)

/-- A value of a row. -/
inductive Value where
  | null
  | bool (b : Bool)
  | int (n : Int)
  | float (q : Rat)
  | decimal (d : Dec)
  | str (s : String)
  /-- A list or a dictionary, by its text. -/
  | coll (text : String)
  deriving DecidableEq

/-- A value as a key of a dictionary: equal numbers are one key, whatever their types. -/
inductive Hashed where
  | null
  | num (q : Rat)
  | text (s : String)
  deriving DecidableEq

/-- `_hashable_key(v)`, as a dictionary sees it -/
def hashableKey : Value → Hashed
  | .null => .null
  | .bool b => .num (if b then 1 else 0)
  | .int n => .num n
  | .float q => .num q
  | .decimal d => .num d.value
  | .str s => .text s
  | .coll text => .text text

@[simp] theorem hashableKey_eq_null {v : Value} : hashableKey v = .null ↔ v = .null := by
  cases v <;> simp [hashableKey]

/-! ## Rows -/

abbrev Fields : Type := Dict String Value

/-- A row: a feature of a source, or what a join made of two rows. -/
structure Row where
  /-- `row.get("properties")` -/
  props : Option Fields
  /-- The other entries. -/
  top : Fields
  /-- `row.get("__right__")` -/
  right : Option Fields

/-- `row.get("properties") or row` -/
def Row.attrs (row : Row) : Fields :=
  match row.props with
  | some props => if props.items = [] then row.top else props
  | none => row.top

/-- `(row.get("properties") or row).get(field)` -/
def Row.topKey (row : Row) (field : String) : Value := row.attrs.getD field .null

/-- `_chain_row_key(row, field)` -/
def chainRowKey (row : Row) (field : String) : Value :=
  match row.props.bind fun props => props.find field with
  | some v => v
  | none =>
    match row.top.find field with
    | some v => v
    | none =>
      match row.right with
      | some right => right.getD field .null
      | none => .null

theorem chainRowKey_of_topKey {row : Row} {field : String} (h : row.topKey field ≠ .null) :
    chainRowKey row field = row.topKey field := by
  unfold Row.topKey Row.attrs Dict.getD at h ⊢
  unfold chainRowKey
  cases hp : row.props with
  | none =>
    rw [hp] at h
    cases hf : row.top.find field with
    | none =>
      rw [hf] at h
      exact absurd rfl h
    | some v => rfl
  | some props =>
    rw [hp] at h
    dsimp only [bind_some] at h ⊢
    by_cases hempty : props.items = []
    · have hnone : props.find field = none := by
        rw [Dict.find_eq_none, Dict.keys, hempty]
        exact not_mem_nil
      rw [if_pos hempty] at h
      rw [if_pos hempty, hnone]
      cases hf : row.top.find field with
      | none =>
        rw [hf] at h
        exact absurd rfl h
      | some v => rfl
    · rw [if_neg hempty] at h
      rw [if_neg hempty]
      cases hf : props.find field with
      | none =>
        rw [hf] at h
        exact absurd rfl h
      | some v => rfl

/-- `dict(lrow.get("properties") or lrow)` with `__right__` -/
def joinedRow (l r : Row) : Row where
  props := none
  top := l.attrs
  right := some r.attrs

/-! ## The join -/

abbrev Index : Type := Dict Hashed (List Row)

/-- `build_attribute_index(right_rows, join_field_right)` -/
def buildAttributeIndex (rightRows : List Row) (joinFieldRight : String) : Index :=
  rightRows.foldl
    (fun index r =>
      if r.topKey joinFieldRight = .null then index
      else index.push (hashableKey (r.topKey joinFieldRight)) r)
    Dict.empty

/-- The right row is found under the key. -/
def matchesKey (joinFieldRight : String) (key : Value) (r : Row) : Bool :=
  r.topKey joinFieldRight ≠ .null ∧ hashableKey (r.topKey joinFieldRight) = hashableKey key

theorem getD_buildAttributeIndex (rightRows : List Row) (joinFieldRight : String) (key : Value) :
    (buildAttributeIndex rightRows joinFieldRight).getD (hashableKey key) [] =
      rightRows.filter (matchesKey joinFieldRight key) := by
  have hfold : ∀ index : Index,
      (rightRows.foldl (fun index r =>
          if r.topKey joinFieldRight = .null then index
          else index.push (hashableKey (r.topKey joinFieldRight)) r)
        index).getD (hashableKey key) [] =
      index.getD (hashableKey key) [] ++ rightRows.filter (matchesKey joinFieldRight key) := by
    induction rightRows with
    | nil => simp
    | cons r rows ih =>
      intro index
      rw [foldl_cons, ih, filter_cons]
      by_cases hnull : r.topKey joinFieldRight = .null
      · simp [hnull, matchesKey]
      rw [if_neg hnull, Dict.getD_push, append_assoc]
      by_cases heq : hashableKey (r.topKey joinFieldRight) = hashableKey key
      · simp [hnull, heq, matchesKey]
      · simp [heq, matchesKey]
  rw [buildAttributeIndex, hfold]
  rfl

/-- What a budget is charged with. -/
inductive Charge where
  | source (row : Row)
  | joined (row : Row)

structure Joining (B : Type) where
  budget : B
  out : List Row

section Join

variable {B : Type} (add : B → Charge → Option B) (maxOutput : Option Nat)

/-- `max_output is not None and len(out) >= max_output` -/
def isFull (out : List Row) : Bool :=
  match maxOutput with
  | some n => out.length ≥ n
  | none => false

/-- The loop over the matches of a left row; it tells whether the join returns. -/
def emitMatches (l : Row) : List Row → Joining B → Option (Joining B × Bool)
  | [], s => some (s, false)
  | r :: rs, s => do
      let budget ← add s.budget (.joined (joinedRow l r))
      let s : Joining B := ⟨budget, s.out ++ [joinedRow l r]⟩
      if isFull maxOutput s.out then some (s, true) else emitMatches l rs s

/-- The loop over the left rows. -/
def probeRows (keyOf : Row → Value) (index : Index) : List Row → Joining B → Option (Joining B)
  | [], s => some s
  | l :: ls, s => do
      let budget ← add s.budget (.source l)
      let s : Joining B := ⟨budget, s.out⟩
      if keyOf l = .null then probeRows keyOf index ls s
      else
        let (s, full) ← emitMatches add maxOutput l (index.getD (hashableKey (keyOf l)) []) s
        if full then some s else probeRows keyOf index ls s

/-- `left_key_resolver`, which is missing or `_chain_row_key` -/
def leftKey (resolver : Bool) (joinFieldLeft : String) (l : Row) : Value :=
  if resolver then chainRowKey l joinFieldLeft else l.topKey joinFieldLeft

/-- `attribute_join_local(left_rows, right_rows, …)`; nothing when the budget raises. -/
def attributeJoinLocal (leftRows rightRows : List Row) (joinFieldLeft joinFieldRight : String)
    (resolver : Bool) (rightIndex : Option Index) (budget : B) : Option (Joining B) :=
  probeRows add maxOutput (leftKey resolver joinFieldLeft)
    (rightIndex.getD (buildAttributeIndex rightRows joinFieldRight)) leftRows ⟨budget, []⟩

/-- The join asks the index only for the keys of left rows. -/
theorem probeRows_congr {keyOf : Row → Value} {index index' : Index} {leftRows : List Row}
    (h : ∀ l ∈ leftRows, keyOf l ≠ .null →
      index.getD (hashableKey (keyOf l)) [] = index'.getD (hashableKey (keyOf l)) [])
    (s : Joining B) :
    probeRows add maxOutput keyOf index leftRows s =
      probeRows add maxOutput keyOf index' leftRows s := by
  induction leftRows generalizing s with
  | nil => rfl
  | cons l ls ih =>
    rw [forall_mem_cons] at h
    refine congrArg _ (funext fun budget => ?_)
    dsimp only
    by_cases hnull : keyOf l = .null
    · rw [if_pos hnull, if_pos hnull, ih h.2]
    rw [if_neg hnull, if_neg hnull, h.1 hnull]
    refine congrArg _ (funext fun r => ?_)
    obtain ⟨s, full⟩ := r
    rw [ih h.2]

end Join

/-! ## All matching pairs -/

/-- The joined rows of a left row. -/
def matchesOf (keyOf : Row → Value) (joinFieldRight : String) (rightRows : List Row) (l : Row) :
    List Row :=
  if keyOf l = .null then []
  else (rightRows.filter (matchesKey joinFieldRight (keyOf l))).map (joinedRow l)

/-- The joined rows of all matching pairs. -/
def matchingRows (keyOf : Row → Value) (joinFieldRight : String) (leftRows rightRows : List Row) :
    List Row :=
  leftRows.flatMap (matchesOf keyOf joinFieldRight rightRows)

/-- The rows of which the join keeps as many as it may put out. -/
def cutTo (maxOutput : Option Nat) (out : List Row) : List Row :=
  match maxOutput with
  | some n => out.take n
  | none => out

theorem cutTo_of_not_full {maxOutput : Option Nat} {out : List Row} (h : ¬ isFull maxOutput out) :
    cutTo maxOutput out = out := by
  cases maxOutput with
  | none => rfl
  | some n => exact take_of_length_le (by simpa [isFull] using h : out.length < n).le

theorem cutTo_append {maxOutput : Option Nat} {out : List Row} (more : List Row)
    (h : isFull maxOutput out) : cutTo maxOutput (out ++ more) = cutTo maxOutput out := by
  cases maxOutput with
  | none => cases h
  | some n => exact take_append_of_le_length (by simpa [isFull] using h)

section Outputs

variable {B : Type} {add : B → Charge → Option B} {maxOutput : Option Nat}

theorem cutTo_snoc {out : List Row} (row : Row) (h : ¬ isFull maxOutput out) :
    cutTo maxOutput (out ++ [row]) = out ++ [row] := by
  cases maxOutput with
  | none => rfl
  | some n =>
    refine take_of_length_le ?_
    have hlt : out.length < n := by simpa [isFull] using h
    rw [length_append, length_singleton]
    omega

theorem emitMatches_out {l : Row} {rs : List Row} {s s' : Joining B} {full : Bool}
    (hroom : ¬ isFull maxOutput s.out) (h : emitMatches add maxOutput l rs s = some (s', full)) :
    s'.out = cutTo maxOutput (s.out ++ rs.map (joinedRow l)) ∧
      full = isFull maxOutput (s.out ++ rs.map (joinedRow l)) := by
  induction rs generalizing s with
  | nil =>
    cases h
    rw [map_nil, append_nil, cutTo_of_not_full hroom]
    exact ⟨rfl, (Bool.not_eq_true _ ▸ hroom).symm⟩
  | cons r rs ih =>
    obtain ⟨budget, -, h⟩ := bind_eq_some_iff.mp h
    rw [map_cons, append_cons]
    by_cases hfull : isFull maxOutput (s.out ++ [joinedRow l r])
    · rw [if_pos hfull] at h
      cases h
      rw [cutTo_append _ hfull, cutTo_snoc _ hroom]
      refine ⟨rfl, ?_⟩
      cases maxOutput with
      | none => cases hfull
      | some n =>
        have hle : n ≤ (s.out ++ [joinedRow l r]).length := by simpa [isFull] using hfull
        rw [isFull, length_append]
        exact (decide_eq_true (by omega)).symm
    · rw [if_neg hfull] at h
      exact ih hfull h

theorem probeRows_out {keyOf : Row → Value} {joinFieldRight : String}
    {leftRows rightRows : List Row} {s s' : Joining B} (hroom : ¬ isFull maxOutput s.out)
    (h : probeRows add maxOutput keyOf (buildAttributeIndex rightRows joinFieldRight) leftRows s =
      some s') :
    s'.out = cutTo maxOutput (s.out ++ matchingRows keyOf joinFieldRight leftRows rightRows) := by
  induction leftRows generalizing s with
  | nil =>
    cases h
    rw [matchingRows, flatMap_nil, append_nil, cutTo_of_not_full hroom]
  | cons l ls ih =>
    obtain ⟨budget, -, h⟩ := bind_eq_some_iff.mp h
    dsimp only at h
    rw [matchingRows, flatMap_cons, ← matchingRows, ← append_assoc]
    by_cases hnull : keyOf l = .null
    · rw [if_pos hnull] at h
      rw [matchesOf, if_pos hnull, append_nil]
      exact ih (s := ⟨budget, s.out⟩) hroom h
    · rw [if_neg hnull] at h
      obtain ⟨⟨t, full⟩, hemit, h⟩ := bind_eq_some_iff.mp h
      rw [getD_buildAttributeIndex] at hemit
      obtain ⟨hout, hfull⟩ := emitMatches_out (s := ⟨budget, s.out⟩) hroom hemit
      rw [matchesOf, if_neg hnull]
      by_cases hf : full
      · rw [if_pos hf] at h
        cases h
        rw [hfull] at hf
        exact hout.trans (cutTo_append _ hf).symm
      · rw [if_neg hf] at h
        rw [hfull] at hf
        rw [cutTo_of_not_full hf] at hout
        rw [← hout]
        refine ih ?_ h
        rwa [hout]

end Outputs

end WebGis.Federation
