/-
  JSON documents as a JavaScript program reads them.

  A text is the list of its UTF-16 code units, so that it can be cut inside of a character.
  An object lists its own keys in the order in which `Object.entries` gives them. `Js.parse`
  is what `JSON.parse` makes of the text of a document.
-/
import WebGis.Data.Fields
import WebGis.Data.Own

namespace Data

open List UInt16

/-! ## UTF-16 -/

abbrev JsString : Type := List UInt16

/-- The code units of a character. -/
def units (c : Char) : JsString :=
  if c.toNat < 0x10000 then [ofNat c.toNat]
  else [ofNat (0xd800 + (c.toNat - 0x10000) / 0x400),
    ofNat (0xdc00 + (c.toNat - 0x10000) % 0x400)]

def utf16 (s : String) : JsString := s.toList.flatMap units

theorem ofNat_inj_of_lt {m n : Nat} (hm : m < 0x10000) (hn : n < 0x10000)
    (h : ofNat m = ofNat n) : m = n := by
  have hnat := congrArg toNat h
  rwa [toNat_ofNat_of_lt' hm, toNat_ofNat_of_lt' hn] at hnat

theorem toNat_range (c : Char) :
    c.toNat < 0xd800 ∨ (0xdfff < c.toNat ∧ c.toNat < 0x110000) := c.valid

/-- The first code units of a text determine its first character. -/
theorem units_append_inj {c d : Char} {s t : JsString} (h : units c ++ s = units d ++ t) :
    c = d ∧ s = t := by
  have hc := toNat_range c
  have hd := toNat_range d
  have hchar : c.toNat = d.toNat → c = d := Char.toNat_inj.mp
  unfold units at h
  split at h <;> split at h <;> rename_i hc' hd'
  · obtain ⟨hcd, hst⟩ := List.cons.inj h
    exact ⟨hchar (ofNat_inj_of_lt hc' hd' hcd), hst⟩
  · -- a single unit is no surrogate
    obtain ⟨hcd, -⟩ := List.cons.inj h
    have := ofNat_inj_of_lt hc' (by omega) hcd
    omega
  · obtain ⟨hcd, -⟩ := List.cons.inj h
    have := ofNat_inj_of_lt (by omega) hd' hcd
    omega
  · obtain ⟨hhigh, hrest⟩ := List.cons.inj h
    obtain ⟨hlow, hst⟩ := List.cons.inj hrest
    have hhigh := ofNat_inj_of_lt (by omega) (by omega) hhigh
    have hlow := ofNat_inj_of_lt (by omega) (by omega) hlow
    exact ⟨hchar (by omega), hst⟩

theorem units_ne_nil (c : Char) : units c ≠ [] := by
  unfold units
  split <;> exact cons_ne_nil _ _

theorem utf16_inj {s t : String} (h : utf16 s = utf16 t) : s = t := by
  have hlist : ∀ cs ds : List Char, cs.flatMap units = ds.flatMap units → cs = ds := by
    intro cs
    induction cs with
    | nil =>
      intro ds h
      cases ds with
      | nil => rfl
      | cons d ds =>
        rw [flatMap_nil, flatMap_cons] at h
        exact absurd (append_eq_nil_iff.mp h.symm).1 (units_ne_nil d)
    | cons c cs ih =>
      intro ds h
      cases ds with
      | nil =>
        rw [flatMap_nil, flatMap_cons] at h
        exact absurd (append_eq_nil_iff.mp h).1 (units_ne_nil c)
      | cons d ds =>
        rw [flatMap_cons, flatMap_cons] at h
        obtain ⟨rfl, hrest⟩ := units_append_inj h
        rw [ih ds hrest]
  exact String.toList_injective (hlist _ _ h)

theorem utf16_eq_nil {s : String} : utf16 s = [] ↔ s = "" :=
  ⟨fun h => utf16_inj (h.trans rfl), fun h => h ▸ rfl⟩

/-! ## Values -/

inductive Js where
  | null
  | bool (b : Bool)
  | num (q : Rat)
  | str (s : JsString)
  | arr (xs : List Js)
  | obj (fields : List (JsString × Js))

namespace Js

/-- `v[key]` on an object of its own fields; nothing stands for `undefined`. An array or a
    text has no field that is asked for here. -/
def get (v : Js) (key : String) : Option Js :=
  match v with
  | .obj fields => (fields.find? fun f => f.1 = utf16 key).map Prod.snd
  | _ => none

theorem get_obj_cons (k : String) (v : Js) (fields : List (JsString × Js)) (key : String) :
    (obj ((utf16 k, v) :: fields)).get key = if k = key then some v else (obj fields).get key := by
  by_cases h : k = key
  · simp [get, h]
  have hne : utf16 k ≠ utf16 key := fun he => h (utf16_inj he)
  simp [get, h, hne]

/-- The text of an array index. -/
def indexText (n : Nat) : JsString := utf16 (String.ofList (Nat.toDigits 10 n))

/-- `Object.entries(v)` of an object or an array. -/
def entries : Js → List (JsString × Js)
  | .obj fields => fields
  | .arr xs => xs.zipIdx.map fun x => (indexText x.2, x.1)
  | _ => []

-- Fields are parsed under the keys of the document, and enumerated in the order of objects.
mutual

/-- `JSON.parse(JSON.stringify(v))` -/
def parse : Json → Js
  | .null => .null
  | .bool b => .bool b
  | .int n => .num n
  | .float q => .num q
  | .str s => .str (utf16 s)
  | .arr xs => .arr (parseItems xs)
  | .obj fs =>
    .obj ((Dict.ofPairs indexBefore (parseFields fs)).items.map fun f => (utf16 f.1, f.2))

def parseItems : List Json → List Js
  | [] => []
  | x :: xs => parse x :: parseItems xs

def parseFields : List (String × Json) → List (String × Js)
  | [] => []
  | (k, v) :: fs => (k, parse v) :: parseFields fs

end

theorem parseItems_eq (xs : List Json) : parseItems xs = xs.map parse := by
  induction xs with
  | nil => rfl
  | cons x xs ih => rw [parseItems, ih, map_cons]

theorem parseFields_eq (fs : List (String × Json)) :
    parseFields fs = fs.map fun f => (f.1, parse f.2) := by
  induction fs with
  | nil => rfl
  | cons f fs ih => rw [parseFields, ih, map_cons]

/-- What is read of a parsed object is what the document has there. -/
theorem get_parse (fs : Json.Fields) (key : String) :
    (parse (.obj fs)).get key = (Json.field key fs).map parse := by
  have hget : (parse (.obj fs)).get key =
      (Dict.ofPairs indexBefore (parseFields fs)).find key := by
    rw [parse, get, find?_map, Option.map_map]
    have hkey : (fun f : JsString × Js => decide (f.1 = utf16 key)) ∘
        (fun f : String × Js => (utf16 f.1, f.2)) = fun f => decide (f.1 = key) := by
      funext f
      exact decide_eq_decide.mpr ⟨utf16_inj, congrArg utf16⟩
    rw [hkey]
    rfl
  rw [hget, Dict.find_ofPairs, parseFields_eq, find?_map, Option.map_map, Json.field,
    Option.map_map]
  rfl

end Js

end Data
