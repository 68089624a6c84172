/-
  `services/data_fabric/query/predicates.py`: the predicates of a query, and what the local
  evaluator makes of them.

  A predicate is a tree of tests on single fields. The validators of the nodes are in their types:
  a conjunction has an argument, a list of members is neither empty nor too long, a field has a
  name that the pattern for names matches. Floats are their exact values; what Python's own
  functions make of numbers and texts is collected in `Floats`.
-/
import WebGis.Data.Dict
import WebGis.Data.Dumps
import WebGis.Data.Sql

namespace WebGis.Query

open Data List

/-! ## Values -/

/-- `ScalarValue` -/
inductive Scalar where
  | null
  | bool (b : Bool)
  | int (n : Int)
  | float (q : Rat)
  | str (s : String)
  deriving DecidableEq

/-- What `float(…)` returns. -/
inductive PyFloat where
  | fin (q : Rat)
  | inf (negative : Bool)
  | nan
  deriving DecidableEq

/-- How two floats compare; a `nan` does not. -/
def PyFloat.order : PyFloat → PyFloat → Option Ordering
  | nan, _ => none
  | _, nan => none
  | fin p, fin q => some (compare p q)
  | inf s, inf t => some (if s = t then .eq else if s then .lt else .gt)
  | inf s, fin _ => some (if s then .lt else .gt)
  | fin _, inf t => some (if t then .gt else .lt)

/-- `float(n)`, which may overflow, `float(s)` and `repr(x)`. -/
structure Floats extends FloatRepr where
  ofInt : Int → Option Rat
  ofText : List Char → Option PyFloat
  ofText_chars : ∀ q, ofText (chars q) = some (.fin q)
  lead : ∀ q c, (chars q).head? = some c → c.isDigit ∨ c = '-'

/-- What the evaluator and the compilers raise. -/
inductive Raised where
  | overflow
  | predicateError
  deriving DecidableEq

abbrev Outcome (α : Type) : Type := Except Raised α

variable (F : Floats)

/-- `str(v)` -/
def pyStr : Scalar → String
  | .null => "None"
  | .bool b => if b then "True" else "False"
  | .int n => intText n
  | .float q => String.ofList (F.chars q)
  | .str s => s

def toNumber : Scalar → Outcome (Option PyFloat)
  | .null => .ok none
  | .bool _ => .ok none
  | .int n =>
    match F.ofInt n with
    | some q => .ok (some (.fin q))
    | none => .error .overflow
  | .float q => .ok (some (.fin q))
  | .str s => .ok (F.ofText s.toList)

/-- The number that `==` sees. -/
def numeric : Scalar → Option Rat
  | .bool b => some (if b then 1 else 0)
  | .int n => some n
  | .float q => some q
  | .null => none
  | .str _ => none

/-- `v == w` -/
def pyEq (v w : Scalar) : Bool :=
  match numeric v, numeric w with
  | some p, some q => p = q
  | _, _ => v = w

/-- `isinstance(v, (int, float))` -/
def isNumber (v : Scalar) : Bool := (numeric v).isSome

/-- `==` on what `_to_number` returns -/
def sameNumber : Option PyFloat → Option PyFloat → Bool
  | none, none => true
  | some x, some y => x.order y = some .eq
  | _, _ => false

/-! ## Predicates -/

inductive CmpOp where
  | eq | ne | gt | ge | lt | le
  deriving DecidableEq

/-- The comparison holds of what compares in this way. -/
def CmpOp.holds : CmpOp → Ordering → Bool
  | eq, o => o = .eq
  | ne, o => o ≠ .eq
  | gt, o => o = .gt
  | ge, o => o ≠ .lt
  | lt, o => o = .lt
  | le, o => o ≠ .gt

/-- The comparison of floats, of which a `nan` differs from all. -/
def CmpOp.onFloats (op : CmpOp) : Option Ordering → Bool
  | some o => op.holds o
  | none => op = ne

def isWordStart (c : Char) : Bool := c.isAlpha || c = '_'

def isWordChar (c : Char) : Bool := c.isAlphanum || c = '_'

/-- `[A-Za-z_][A-Za-z0-9_]*` -/
def isWord : List Char → Bool
  | [] => false
  | c :: cs => isWordStart c && cs.all isWordChar

/-- `re.match` of a pattern that ends in `$`, which also matches before a last line break. -/
def matchEnd (p : List Char → Bool) (cs : List Char) : Bool :=
  p cs || (cs.getLast? = some '\n' && p cs.dropLast)

/-- `FIELD_NAME_RE.match(v)` -/
def isFieldName (s : String) : Bool := matchEnd isWord s.toList

abbrev FieldName : Type := { s : String // isFieldName s }

/-- `values: List[ScalarValue] = Field(min_length=1, max_length=1000)` -/
abbrev Members : Type := { vs : List Scalar // 1 ≤ vs.length ∧ vs.length ≤ 1000 }

/-- `Union[int, float, str]` -/
def isBound : Scalar → Bool
  | .int _ => true
  | .float _ => true
  | .str _ => true
  | _ => false

abbrev Bound : Type := { v : Scalar // isBound v }

/-- `pattern: str = Field(min_length=1, max_length=256)` -/
abbrev Pattern : Type := { s : String // 1 ≤ s.length ∧ s.length ≤ 256 }

/-- The tests on one field. -/
inductive Leaf where
  | compare (op : CmpOp) (field : FieldName) (value : Scalar)
  | isIn (field : FieldName) (values : Members)
  | notIn (field : FieldName) (values : Members)
  | between (field : FieldName) (low high : Bound)
  | like (field : FieldName) (pattern : Pattern)
  | isNull (field : FieldName) (negated : Bool)

def Leaf.field : Leaf → FieldName
  | compare _ f _ => f
  | isIn f _ => f
  | notIn f _ => f
  | between f _ _ => f
  | like f _ => f
  | isNull f _ => f

/-- `Predicate`; the arguments of `and` and `or` are `first :: rest`. -/
inductive Predicate where
  | leaf (l : Leaf)
  | and (first : Predicate) (rest : List Predicate)
  | or (first : Predicate) (rest : List Predicate)
  | not (arg : Predicate)

namespace Predicate

theorem tree_induct {P : Predicate → Prop} (leaf : ∀ l, P (.leaf l))
    (and : ∀ p ps, (∀ q ∈ p :: ps, P q) → P (.and p ps))
    (or : ∀ p ps, (∀ q ∈ p :: ps, P q) → P (.or p ps))
    (not : ∀ p, P p → P (.not p)) (p : Predicate) : P p :=
  Predicate.rec (motive_1 := P) (motive_2 := fun ps => ∀ q ∈ ps, P q) leaf
    (fun p ps hp hps => and p ps (forall_mem_cons.mpr ⟨hp, hps⟩))
    (fun p ps hp hps => or p ps (forall_mem_cons.mpr ⟨hp, hps⟩))
    (fun p hp => not p hp) (fun _ h => absurd h not_mem_nil)
    (fun _ _ hp hps => forall_mem_cons.mpr ⟨hp, hps⟩) p

mutual

/-- The tests of a predicate, in order. -/
def leaves : Predicate → List Leaf
  | leaf l => [l]
  | and p ps => leaves p ++ leavesOf ps
  | or p ps => leaves p ++ leavesOf ps
  | not p => leaves p

def leavesOf : List Predicate → List Leaf
  | [] => []
  | p :: ps => leaves p ++ leavesOf ps

end

def iterFields (p : Predicate) : List String := (p.leaves.map fun l => l.field.val).eraseDups

/-- `validate_predicate_fields` -/
def validateFields (p : Predicate) (allowed : List String) : Outcome Unit :=
  if p.iterFields.all (· ∈ allowed) then .ok () else .error .predicateError

end Predicate

/-! ## The evaluator -/

/-- The properties of a feature. -/
abbrev Row : Type := Dict String Scalar

/-- `properties.get(field)` -/
def Row.get (row : Row) (field : FieldName) : Scalar := (Dict.find row field.val).getD .null

/-- `_like_to_regex(pattern).match(s)` -/
def likeMatches (pattern s : String) : Bool :=
  matchEnd (Piece.matchAll (Piece.pieces none pattern.toList)) s.toList

/-- The comparisons of the evaluator: of numbers where both are, of texts otherwise. -/
def compareLocal (op : CmpOp) (val target : Scalar) : Outcome Bool := do
  let nv ← toNumber F val
  let nt ← toNumber F target
  match nv, nt with
  | some a, some b => return op.onFloats (a.order b)
  | _, _ => return op.holds (compare (pyStr F val) (pyStr F target))

/-- `hit`: the value is one of the members. -/
def hitLocal (val : Scalar) : List Scalar → Outcome Bool
  | [] => .ok false
  | m :: ms =>
    if pyEq val m then .ok true
    else if isNumber val then do
      let nm ← toNumber F m
      let nv ← toNumber F val
      if sameNumber nm nv then return true else hitLocal val ms
    else hitLocal val ms

def betweenLocal (val low high : Scalar) : Outcome Bool := do
  let lo ← toNumber F low
  let hi ← toNumber F high
  let nv ← toNumber F val
  match nv, lo, hi with
  | some v, some l, some h => return CmpOp.le.onFloats (l.order v) && CmpOp.le.onFloats (v.order h)
  | _, _, _ =>
    return CmpOp.le.holds (compare (pyStr F low) (pyStr F val)) &&
      CmpOp.le.holds (compare (pyStr F val) (pyStr F high))

/-- The tests of `_eval_three_valued` -/
def evalLeaf (l : Leaf) (row : Row) : Outcome Truth :=
  let val := row.get l.field
  match l with
  | .isNull _ negated => .ok (some ((val = .null) ≠ negated))
  | l =>
    if val = .null then .ok none
    else
      match l with
      | .isIn _ members => do return some (← hitLocal F val members.val)
      | .notIn _ members => do
          if ← hitLocal F val members.val then return some false
          else if .null ∈ members.val then return none
          else return some true
      | .between _ low high => do return some (← betweenLocal F val low.val high.val)
      | .like _ pattern => .ok (some (likeMatches pattern.val (pyStr F val)))
      | .compare op _ target => do return some (← compareLocal F op val target)
      | .isNull _ _ => .ok none

mutual

def evalThreeValued (row : Row) : Predicate → Outcome Truth
  | .leaf l => evalLeaf F l row
  | .and p ps => do
      let result ← evalThreeValued row p
      let results ← evalArgs row ps
      return Truth.all (result :: results)
  | .or p ps => do
      let result ← evalThreeValued row p
      let results ← evalArgs row ps
      return Truth.any (result :: results)
  | .not p => do return (← evalThreeValued row p).not

def evalArgs (row : Row) : List Predicate → Outcome (List Truth)
  | [] => .ok []
  | p :: ps => do
      let result ← evalThreeValued row p
      let results ← evalArgs row ps
      return result :: results

end

def evaluatePredicate (p : Predicate) (row : Row) : Outcome Bool := do
  return (← evalThreeValued F row p) = some true

end WebGis.Query
