/-
  Text helpers under the names of the string operations they stand for.

  All of them go through the list of characters, so that they compute in proofs.

  JSON values.

  Numbers are integers or finite floats with their exact value; a float that is a whole
  number is a different value from the integer, as in a decoded document. The fields of an
  object are listed in their order of insertion.
-/
import Mathlib

namespace Data

/-- `s[:n]` -/
def clip (n : Nat) (s : String) : String := String.ofList (s.toList.take n)

/-- `s.startswith(p)` -/
def startsWith (p s : String) : Bool := p.toList.isPrefixOf s.toList

/-- `s.rpartition(c)`, with `none` when `c` does not occur. -/
def rpartition (c : Char) (s : String) : Option (String × String) :=
  match s.toList.reverse.span (· ≠ c) with
  | (_, []) => none
  | (tail, _ :: head) => some (String.ofList head.reverse, String.ofList tail.reverse)

/-- `sep.join(parts)` -/
def join (sep : String) : List String → String
  | [] => ""
  | [s] => s
  | s :: rest => s ++ sep ++ join sep rest

def isSpace (c : Char) : Bool :=
  let n := c.toNat
  (9 ≤ n && n ≤ 13) || (28 ≤ n && n ≤ 32) || n = 0x85 || n = 0xa0 || n = 0x1680 ||
    (0x2000 ≤ n && n ≤ 0x200a) || n = 0x2028 || n = 0x2029 || n = 0x202f || n = 0x205f ||
    n = 0x3000

def strip (s : String) : String :=
  String.ofList (((s.toList.dropWhile isSpace).reverse.dropWhile isSpace).reverse)

theorem clip_length_le (n : Nat) (s : String) : (clip n s).length ≤ n := by
  rw [clip, String.length_ofList]
  exact List.length_take_le n s.toList

/-- Clipping changes nothing that is short enough. -/
theorem clip_of_length_le {n : Nat} {s : String} (h : s.length ≤ n) : clip n s = s := by
  rw [clip, List.take_of_length_le (by rwa [String.length_toList]), String.ofList_toList]

theorem clip_clip (n : Nat) (s : String) : clip n (clip n s) = clip n s :=
  clip_of_length_le (clip_length_le n s)

/-! ## JSON string literals -/

/-- The escapes that `json.dumps` uses with `ensure_ascii=False`. -/
def escapeChar (c : Char) : List Char :=
  if c = '"' then ['\\', '"']
  else if c = '\\' then ['\\', '\\']
  else if c = '\n' then ['\\', 'n']
  else if c = '\r' then ['\\', 'r']
  else if c = '\t' then ['\\', 't']
  else if c.toNat = 8 then ['\\', 'b']
  else if c.toNat = 12 then ['\\', 'f']
  else if c.toNat < 32 then
    ['\\', 'u', '0', '0', Nat.digitChar (c.toNat / 16), Nat.digitChar (c.toNat % 16)]
  else [c]

/-- `json.dumps(s, ensure_ascii=False)` for a string. -/
def quote (s : String) : String :=
  String.ofList ('"' :: s.toList.flatMap escapeChar ++ ['"'])

example : rpartition '.' "data:x.data" = some ("data:x", "data") := by decide

inductive Json where
  | null
  | bool (b : Bool)
  | int (n : Int)
  | float (q : Rat)
  | str (s : String)
  | arr (xs : List Json)
  | obj (fields : List (String × Json))
  deriving Repr

namespace Json

/-- `{}` -/
def emptyObj : Json := .obj []

/-- `bool(v)` -/
def truthy : Json → Bool
  | null => false
  | bool b => b
  | int n => n ≠ 0
  | float q => q ≠ 0
  | str s => s ≠ ""
  | arr xs => !xs.isEmpty
  | obj fields => !fields.isEmpty

/-- `fields.get(name)` -/
def field (name : String) (fields : List (String × Json)) : Option Json :=
  (fields.find? fun p => p.1 = name).map Prod.snd

/-! ## Deciding equality -/

mutual

/-- Whether two values are the same one. -/
def same : Json → Json → Bool
  | null, null => true
  | bool a, bool b => a = b
  | int m, int n => m = n
  | float p, float q => p = q
  | str s, str t => s = t
  | arr xs, arr ys => sameItems xs ys
  | obj fs, obj gs => sameFields fs gs
  | _, _ => false

def sameItems : List Json → List Json → Bool
  | [], [] => true
  | x :: xs, y :: ys => same x y && sameItems xs ys
  | _, _ => false

def sameFields : List (String × Json) → List (String × Json) → Bool
  | [], [] => true
  | (k, v) :: fs, (l, w) :: gs => k = l && same v w && sameFields fs gs
  | _, _ => false

end

mutual

theorem same_iff : ∀ v w : Json, same v w ↔ v = w
  | arr xs, w => by
    cases w with
    | arr ys => simpa [same] using sameItems_iff xs ys
    | _ => simp [same]
  | obj fs, w => by
    cases w with
    | obj gs => simpa [same] using sameFields_iff fs gs
    | _ => simp [same]
  | null, w => by cases w <;> simp [same]
  | bool b, w => by cases w <;> simp [same]
  | int n, w => by cases w <;> simp [same]
  | float q, w => by cases w <;> simp [same]
  | str s, w => by cases w <;> simp [same]

theorem sameItems_iff : ∀ xs ys : List Json, sameItems xs ys ↔ xs = ys
  | [], ys => by cases ys <;> simp [sameItems]
  | x :: xs, ys => by
    cases ys with
    | nil => simp [sameItems]
    | cons y ys => simp [sameItems, same_iff x y, sameItems_iff xs ys]

theorem sameFields_iff : ∀ fs gs : List (String × Json), sameFields fs gs ↔ fs = gs
  | [], gs => by cases gs <;> simp [sameFields]
  | (k, v) :: fs, gs => by
    cases gs with
    | nil => simp [sameFields]
    | cons g gs => simp [sameFields, same_iff v g.2, sameFields_iff fs gs, Prod.ext_iff]

end

instance : DecidableEq Json := fun v w => decidable_of_iff _ (same_iff v w)

end Json

end Data
