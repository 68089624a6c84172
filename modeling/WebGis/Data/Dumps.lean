/-
  The text of a JSON value, as `json.dumps` writes it with `ensure_ascii=False` and no
  blanks, and that no two values have the same text.

  The shortest decimal of a float is not computed here: `FloatRepr` says what its text is
  known to be.
-/
import WebGis.Data.Json

namespace Data

open List

/-! ## Texts that end where their characters do -/

/-- `s` does not go on with a character of `p`. -/
def Stops (p : Char → Bool) (s : List Char) : Prop := ∀ c ∈ s.head?, p c = false

@[simp] theorem stops_nil (p : Char → Bool) : Stops p [] := nofun

variable {c : Char} {p : Char → Bool} {s : List Char}

theorem stops_cons (h : p c = false) : Stops p (c :: s) := by
  intro d hd
  rw [head?_cons, Option.mem_some] at hd
  rw [← hd, h]

variable {a b t : List Char}

/-- A run of characters of `p` is told from what follows it. -/
theorem run_inj (ha : ∀ c ∈ a, p c) (hb : ∀ c ∈ b, p c) (hs : Stops p s) (ht : Stops p t)
    (h : a ++ s = b ++ t) : a = b ∧ s = t := by
  have hrun : ∀ {x y : List Char}, (∀ c ∈ x, p c) → Stops p y → (x ++ y).takeWhile p = x := by
    intro x y hx hy
    rw [takeWhile_append_of_pos hx]
    cases y with
    | nil => simp
    | cons c y => simp [hy c rfl]
  have hab : a = b := by rw [← hrun ha hs, h, hrun hb ht]
  rw [hab] at h
  exact ⟨hab, append_cancel_left h⟩

/-! ## Numbers -/

/-- The decimal digits of an integer. -/
def intChars : Int → List Char
  | .ofNat n => Nat.toDigits 10 n
  | .negSucc n => '-' :: Nat.toDigits 10 (n + 1)

/-- `str(n)` -/
def intText (n : Int) : String := String.ofList (intChars n)

/-- The characters of a number. -/
def isNumChar (c : Char) : Bool := c.isDigit || c = '-' || c = '+' || c = '.' || c = 'e'

theorem toDigits_inj {m n : Nat} (h : Nat.toDigits 10 m = Nat.toDigits 10 n) : m = n := by
  rw [← Nat.ofDigitChars_ten_toDigits (n := m), h, Nat.ofDigitChars_ten_toDigits]

theorem isDigit_of_mem {n : Nat} (h : c ∈ Nat.toDigits 10 n) : c.isDigit :=
  Nat.isDigit_of_mem_toDigits (by omega) (by omega) h

theorem minus_notMem (n : Nat) : '-' ∉ Nat.toDigits 10 n := fun h =>
  absurd (isDigit_of_mem h) (by decide)

variable {n : Int}

theorem intChars_inj {m : Int} (h : intChars m = intChars n) : m = n := by
  match m, n with
  | .ofNat m, .ofNat n => rw [toDigits_inj h]
  | .negSucc m, .negSucc n =>
    have := toDigits_inj (cons_inj_right _ |>.mp h)
    rw [Nat.succ.inj this]
  | .ofNat m, .negSucc n =>
    have hm : '-' ∈ Nat.toDigits 10 m := by
      rw [show Nat.toDigits 10 m = '-' :: Nat.toDigits 10 (n + 1) from h]
      exact mem_cons_self
    exact absurd hm (minus_notMem m)
  | .negSucc m, .ofNat n =>
    have hn : '-' ∈ Nat.toDigits 10 n := by
      rw [show Nat.toDigits 10 n = '-' :: Nat.toDigits 10 (m + 1) from h.symm]
      exact mem_cons_self
    exact absurd hn (minus_notMem n)

theorem intChars_digits (h : c ∈ intChars n) : c.isDigit ∨ c = '-' := by
  cases n with
  | ofNat n => exact .inl (isDigit_of_mem h)
  | negSucc n =>
    rcases mem_cons.mp h with rfl | h
    · exact .inr rfl
    · exact .inl (isDigit_of_mem h)

theorem intChars_ne_nil (n : Int) : intChars n ≠ [] := by
  cases n with
  | ofNat n => exact Nat.toDigits_ne_nil
  | negSucc n => exact cons_ne_nil _ _

/-- What is known of `repr` on finite floats: it can be read back, and it is a number with
    a point or an exponent, which no integer has. -/
structure FloatRepr where
  chars : Rat → List Char
  inj : ∀ {q r}, chars q = chars r → q = r
  num : ∀ {q c}, c ∈ chars q → isNumChar c
  point : ∀ q, '.' ∈ chars q ∨ 'e' ∈ chars q

/-- A text for every rational number: numerator, `e`, denominator. -/
def fractionChars (q : Rat) : List Char := intChars q.num ++ 'e' :: intChars q.den

theorem e_notMem (n : Int) : ∀ c ∈ intChars n, (c != 'e') := by
  intro c hc
  rcases intChars_digits hc with h | rfl
  · simpa using fun he : c = 'e' => absurd (he ▸ h) (by decide)
  · decide

theorem fractionChars_inj {q r : Rat} (h : fractionChars q = fractionChars r) : q = r := by
  obtain ⟨hnum, hden⟩ := run_inj (p := (· != 'e')) (e_notMem q.num) (e_notMem r.num)
    (stops_cons (by decide)) (stops_cons (by decide)) h
  have hden := intChars_inj (cons_inj_right _ |>.mp hden)
  exact Rat.ext (intChars_inj hnum) (Int.ofNat_inj.mp hden)

theorem isNumChar_of_mem_intChars (h : c ∈ intChars n) : isNumChar c := by
  rcases intChars_digits h with h | rfl
  · simp [isNumChar, h]
  · decide

instance : Inhabited FloatRepr where
  default :=
    { chars := fractionChars
      inj := fractionChars_inj
      num := by
        intro q c h
        rw [fractionChars, mem_append, mem_cons] at h
        rcases h with h | rfl | h
        · exact isNumChar_of_mem_intChars h
        · decide
        · exact isNumChar_of_mem_intChars h
      point := fun q => .inr (by simp [fractionChars]) }

/-! ## String literals -/

/-- The value of a hexadecimal digit. -/
def hexVal (c : Char) : Nat := if c.isDigit then c.toNat - 48 else c.toNat - 87

/-- Reads one character of a string literal, `none` at its closing quote. -/
def unescape : List Char → Option (Char × List Char)
  | [] => none
  | '\\' :: 'u' :: '0' :: '0' :: a :: b :: s => some (Char.ofNat (hexVal a * 16 + hexVal b), s)
  | '\\' :: 'n' :: s => some ('\n', s)
  | '\\' :: 'r' :: s => some ('\r', s)
  | '\\' :: 't' :: s => some ('\t', s)
  | '\\' :: 'b' :: s => some (Char.ofNat 8, s)
  | '\\' :: 'f' :: s => some (Char.ofNat 12, s)
  | '\\' :: c :: s => some (c, s)
  | '"' :: _ => none
  | c :: s => some (c, s)

theorem hexVal_digitChar (n : Fin 32) :
    Char.ofNat (hexVal (Nat.digitChar (n / 16)) * 16 + hexVal (Nat.digitChar (n % 16))) =
      Char.ofNat n := by
  revert n
  decide

theorem unescape_escapeChar (c : Char) (s : List Char) :
    unescape (escapeChar c ++ s) = some (c, s) := by
  unfold escapeChar
  split_ifs with h1 h2 h3 h4 h5 h6 h7 h8
  · rw [h1]; rfl
  · rw [h2]; rfl
  · rw [h3]; rfl
  · rw [h4]; rfl
  · rw [h5]; rfl
  · rw [← Char.ofNat_toNat c, h6]; rfl
  · rw [← Char.ofNat_toNat c, h7]; rfl
  · have := hexVal_digitChar ⟨c.toNat, h8⟩
    simp [unescape, this]
  · unfold unescape
    simp only [cons_append, nil_append]
    split <;> simp_all

theorem escapeChar_inj {d : Char} (h : escapeChar c ++ s = escapeChar d ++ t) : c = d ∧ s = t := by
  have hc := unescape_escapeChar c s
  rw [h, unescape_escapeChar d t] at hc
  simpa using hc.symm

theorem escapeChar_ne_close (c : Char) (s t : List Char) : escapeChar c ++ s ≠ '"' :: t := by
  intro h
  have hc := unescape_escapeChar c s
  rw [h] at hc
  simp [unescape] at hc

/-- The characters of `quote s`. -/
def quoteChars (s : List Char) : List Char := '"' :: s.flatMap escapeChar ++ ['"']

theorem escaped_inj (h : a.flatMap escapeChar ++ '"' :: s = b.flatMap escapeChar ++ '"' :: t) :
    a = b ∧ s = t := by
  induction a generalizing b with
  | nil =>
    cases b with
    | nil => simpa using h
    | cons d b =>
      rw [flatMap_cons, append_assoc] at h
      exact absurd h.symm (escapeChar_ne_close d _ _)
  | cons c a ih =>
    cases b with
    | nil =>
      rw [flatMap_cons, append_assoc] at h
      exact absurd h (escapeChar_ne_close c _ _)
    | cons d b =>
      rw [flatMap_cons, flatMap_cons, append_assoc, append_assoc] at h
      obtain ⟨rfl, hrest⟩ := escapeChar_inj h
      obtain ⟨rfl, hst⟩ := ih hrest
      exact ⟨rfl, hst⟩

theorem quoteChars_inj (h : quoteChars a ++ s = quoteChars b ++ t) : a = b ∧ s = t := by
  unfold quoteChars at h
  rw [append_assoc, append_assoc, cons_append, cons_append] at h
  exact escaped_inj (cons_inj_right _ |>.mp h)

/-! ## Values -/

namespace Json

variable (R : FloatRepr)

-- `textRest` and `textFields` write what follows the first entry, the closing bracket included.
mutual

/-- The text of a value, its objects as they are. -/
def text : Json → List Char
  | .null => ['n', 'u', 'l', 'l']
  | .bool true => ['t', 'r', 'u', 'e']
  | .bool false => ['f', 'a', 'l', 's', 'e']
  | .int n => intChars n
  | .float q => R.chars q
  | .str s => quoteChars s.toList
  | .arr [] => ['[', ']']
  | .arr (x :: xs) => '[' :: (text x ++ textRest xs)
  | .obj [] => ['\x7b', '\x7d']
  | .obj ((k, v) :: fs) => '\x7b' :: (quoteChars k.toList ++ ':' :: (text v ++ textFields fs))

def textRest : List Json → List Char
  | [] => [']']
  | x :: xs => ',' :: (text x ++ textRest xs)

def textFields : List (String × Json) → List Char
  | [] => ['\x7d']
  | (k, v) :: fs => ',' :: (quoteChars k.toList ++ ':' :: (text v ++ textFields fs))

end

variable (comma colon : List Char)

-- `withRest` and `withFields` are `textRest` and `textFields` with more between the entries.
mutual

/-- The text of a value with `comma` after each comma and `colon` after each colon. -/
def textWith : Json → List Char
  | .null => ['n', 'u', 'l', 'l']
  | .bool true => ['t', 'r', 'u', 'e']
  | .bool false => ['f', 'a', 'l', 's', 'e']
  | .int n => intChars n
  | .float q => R.chars q
  | .str s => quoteChars s.toList
  | .arr [] => ['[', ']']
  | .arr (x :: xs) => '[' :: (textWith x ++ withRest xs)
  | .obj [] => ['\x7b', '\x7d']
  | .obj ((k, v) :: fs) =>
    '\x7b' :: (quoteChars k.toList ++ ':' :: (colon ++ (textWith v ++ withFields fs)))

def withRest : List Json → List Char
  | [] => [']']
  | x :: xs => ',' :: (comma ++ (textWith x ++ withRest xs))

def withFields : List (String × Json) → List Char
  | [] => ['\x7d']
  | (k, v) :: fs =>
    ',' :: (comma ++ (quoteChars k.toList ++ ':' :: (colon ++ (textWith v ++ withFields fs))))

end

mutual

theorem textWith_nil (v : Json) : textWith R [] [] v = text R v := by
  match v with
  | .null | .int _ | .float _ | .str _ | .arr [] | .obj [] => rw [textWith, text]
  | .bool b => cases b <;> rw [textWith, text]
  | .arr (x :: xs) => rw [textWith, text, textWith_nil x, withRest_nil xs]
  | .obj ((k, v) :: fs) =>
    rw [textWith, text, textWith_nil v, withFields_nil fs, nil_append]

theorem withRest_nil (xs : List Json) : withRest R [] [] xs = textRest R xs := by
  match xs with
  | [] => rw [withRest, textRest]
  | x :: xs => rw [withRest, textRest, textWith_nil x, withRest_nil xs, nil_append]

theorem withFields_nil (fs : List (String × Json)) :
    withFields R [] [] fs = textFields R fs := by
  match fs with
  | [] => rw [withFields, textFields]
  | (k, v) :: fs =>
    rw [withFields, textFields, textWith_nil v, withFields_nil fs, nil_append, nil_append]

end

variable {comma colon}

/-- The kinds of values that their first character tells apart. -/
def kind : Json → Nat
  | .null => 0
  | .bool _ => 1
  | .int _ => 2
  | .float _ => 2
  | .str _ => 3
  | .arr _ => 4
  | .obj _ => 5

/-- The kind of the value that begins with `c`. -/
def kindOf (c : Char) : Nat :=
  if isNumChar c then 2
  else match c with
    | 'n' => 0
    | 't' => 1
    | 'f' => 1
    | '"' => 3
    | '[' => 4
    | '\x7b' => 5
    | _ => 6

theorem textWith_cons (v : Json) :
    ∃ c s, textWith R comma colon v = c :: s ∧ kindOf c = v.kind := by
  have hnum : ∀ cs : List Char, cs ≠ [] → (∀ c ∈ cs, isNumChar c) →
      ∃ c s, cs = c :: s ∧ kindOf c = 2 := by
    intro cs hne hall
    cases cs with
    | nil => exact absurd rfl hne
    | cons c s => exact ⟨c, s, rfl, by simp [kindOf, hall c mem_cons_self]⟩
  have hpoint : ∀ q, R.chars q ≠ [] := fun q h => by simpa [h] using R.point q
  cases v with
  | null => exact ⟨_, _, by rw [textWith], by decide⟩
  | bool b => cases b <;> exact ⟨_, _, by rw [textWith], by decide⟩
  | int n =>
    rw [textWith]
    exact hnum _ (intChars_ne_nil n) fun _ => isNumChar_of_mem_intChars
  | float q =>
    rw [textWith]
    exact hnum _ (hpoint q) fun _ => R.num
  | str s => exact ⟨_, _, by rw [textWith, quoteChars, cons_append], rfl⟩
  | arr xs => cases xs <;> exact ⟨_, _, by rw [textWith], rfl⟩
  | obj fs =>
    rcases fs with _ | ⟨⟨k, v⟩, fs⟩ <;> exact ⟨_, _, by rw [textWith], rfl⟩

variable {s t : List Char} {v w : Json}

/-- Equal texts begin with values of one kind. -/
theorem kind_eq (h : textWith R comma colon v ++ s = textWith R comma colon w ++ t) :
    v.kind = w.kind := by
  obtain ⟨c, a, hv, hc⟩ := textWith_cons R v
  obtain ⟨d, b, hw, hd⟩ := textWith_cons R w
  rw [hv, hw, cons_append, cons_append] at h
  rw [← hc, ← hd, (List.cons.inj h).1]

/-- No value begins where a bracket closes. -/
theorem textWith_ne_close {c : Char} (hc : kindOf c = 6) :
    textWith R comma colon v ++ s ≠ c :: t := by
  intro h
  obtain ⟨d, a, hv, hd⟩ := textWith_cons R v
  rw [hv, cons_append] at h
  rw [(List.cons.inj h).1, hc] at hd
  cases v <;> simp [kind] at hd

theorem stops_withRest (xs : List Json) (s : List Char) :
    Stops isNumChar (withRest R comma colon xs ++ s) := by
  cases xs <;> (rw [withRest]; exact stops_cons (by decide))

theorem stops_withFields (fs : List (String × Json)) (s : List Char) :
    Stops isNumChar (withFields R comma colon fs ++ s) := by
  rcases fs with _ | ⟨⟨k, v⟩, fs⟩ <;> (rw [withFields]; exact stops_cons (by decide))

theorem intChars_ne_float (n : Int) (q : Rat) : intChars n ≠ R.chars q := by
  intro h
  rcases R.point q with hp | hp <;> rw [← h] at hp <;>
    exact absurd (intChars_digits hp) (by decide)

/-- Two numbers with one text are the same number, of the same sort. -/
theorem number_inj (hv : v.kind = 2) (hw : w.kind = 2) (hs : Stops isNumChar s)
    (ht : Stops isNumChar t) (h : textWith R comma colon v ++ s = textWith R comma colon w ++ t) :
    v = w ∧ s = t := by
  have hnum : ∀ {u : Json}, u.kind = 2 → ∀ c ∈ textWith R comma colon u, isNumChar c := by
    intro u hu c hc
    cases u with
    | int n => exact isNumChar_of_mem_intChars (by rwa [textWith] at hc)
    | float q => exact R.num (by rwa [textWith] at hc)
    | null | bool | str | arr | obj => simp [kind] at hu
  obtain ⟨htext, hst⟩ := run_inj (hnum hv) (hnum hw) hs ht h
  refine ⟨?_, hst⟩
  cases v with
  | int m =>
    cases w with
    | int n =>
      have hmn : m = n := intChars_inj (by simpa only [textWith] using htext)
      rw [hmn]
    | float q => exact absurd (by simpa only [textWith] using htext) (intChars_ne_float R m q)
    | null | bool | str | arr | obj => simp [kind] at hw
  | float q =>
    cases w with
    | int n => exact absurd (by simpa only [textWith] using htext.symm) (intChars_ne_float R n q)
    | float r =>
      have hqr : q = r := R.inj (by simpa only [textWith] using htext)
      rw [hqr]
    | null | bool | str | arr | obj => simp [kind] at hw
  | null | bool | str | arr | obj => simp [kind] at hv

-- By recursion on the first value; the kinds rule out every pair of constructors but the
-- equal ones and the two sorts of numbers.
mutual

theorem textWith_append_inj (v w : Json) {s t : List Char} (hs : Stops isNumChar s)
    (ht : Stops isNumChar t)
    (h : textWith R comma colon v ++ s = textWith R comma colon w ++ t) : v = w ∧ s = t := by
  have hkind := kind_eq R h
  match v, w with
  | .null, .null => simpa [textWith] using h
  | .bool a, .bool b => cases a <;> cases b <;> simp_all [textWith]
  | .int m, .int n => exact number_inj R rfl rfl hs ht h
  | .int m, .float q => exact number_inj R rfl rfl hs ht h
  | .float q, .int n => exact number_inj R rfl rfl hs ht h
  | .float q, .float r => exact number_inj R rfl rfl hs ht h
  | .str a, .str b =>
    rw [textWith, textWith] at h
    obtain ⟨hab, hst⟩ := quoteChars_inj h
    exact ⟨by rw [String.toList_inj.mp hab], hst⟩
  | .arr [], .arr [] => simpa [textWith] using h
  | .arr [], .arr (y :: ys) =>
    simp only [textWith, cons_append, append_assoc] at h
    exact absurd (List.cons.inj h).2.symm (textWith_ne_close R (by decide))
  | .arr (x :: xs), .arr [] =>
    simp only [textWith, cons_append, append_assoc] at h
    exact absurd (List.cons.inj h).2 (textWith_ne_close R (by decide))
  | .arr (x :: xs), .arr (y :: ys) =>
    rw [textWith, textWith, cons_append, cons_append, append_assoc, append_assoc] at h
    obtain ⟨hxy, hrest⟩ := textWith_append_inj x y (stops_withRest R xs s)
      (stops_withRest R ys t) (List.cons.inj h).2
    obtain ⟨hxs, hst⟩ := withRest_inj xs ys hrest
    exact ⟨by rw [hxy, hxs], hst⟩
  | .obj [], .obj [] => simpa [textWith] using h
  | .obj [], .obj ((l, w) :: gs) => simp [textWith, quoteChars] at h
  | .obj ((k, v) :: fs), .obj [] => simp [textWith, quoteChars] at h
  | .obj ((k, v) :: fs), .obj ((l, w) :: gs) =>
    simp only [textWith, cons_append, append_assoc] at h
    obtain ⟨hkl, hvw⟩ := quoteChars_inj (List.cons.inj h).2
    obtain ⟨hvw, hrest⟩ := textWith_append_inj v w (stops_withFields R fs s)
      (stops_withFields R gs t) (append_cancel_left (List.cons.inj hvw).2)
    obtain ⟨hfs, hst⟩ := withFields_inj fs gs hrest
    exact ⟨by rw [String.toList_inj.mp hkl, hvw, hfs], hst⟩

theorem withRest_inj (xs ys : List Json) {s t : List Char}
    (h : withRest R comma colon xs ++ s = withRest R comma colon ys ++ t) :
    xs = ys ∧ s = t := by
  match xs, ys with
  | [], [] => simpa [withRest] using h
  | [], y :: ys => simp [withRest] at h
  | x :: xs, [] => simp [withRest] at h
  | x :: xs, y :: ys =>
    simp only [withRest, cons_append, append_assoc] at h
    obtain ⟨hxy, hrest⟩ := textWith_append_inj x y (stops_withRest R xs s)
      (stops_withRest R ys t) (append_cancel_left (List.cons.inj h).2)
    obtain ⟨hxs, hst⟩ := withRest_inj xs ys hrest
    exact ⟨by rw [hxy, hxs], hst⟩

theorem withFields_inj (fs gs : List (String × Json)) {s t : List Char}
    (h : withFields R comma colon fs ++ s = withFields R comma colon gs ++ t) :
    fs = gs ∧ s = t := by
  match fs, gs with
  | [], [] => simpa [withFields] using h
  | [], (l, w) :: gs => simp [withFields] at h
  | (k, v) :: fs, [] => simp [withFields] at h
  | (k, v) :: fs, (l, w) :: gs =>
    simp only [withFields, cons_append, append_assoc] at h
    obtain ⟨hkl, hvw⟩ := quoteChars_inj (append_cancel_left (List.cons.inj h).2)
    obtain ⟨hvw, hrest⟩ := textWith_append_inj v w (stops_withFields R fs s)
      (stops_withFields R gs t) (append_cancel_left (List.cons.inj hvw).2)
    obtain ⟨hfs, hst⟩ := withFields_inj fs gs hrest
    exact ⟨by rw [String.toList_inj.mp hkl, hvw, hfs], hst⟩

end

/-- No two values have the same text. -/
theorem textWith_inj (h : textWith R comma colon v = textWith R comma colon w) : v = w :=
  (textWith_append_inj R v w (stops_nil _) (stops_nil _) (by rw [append_nil, append_nil, h])).1

/-- A value is told from what follows it, unless a number could go on there. -/
theorem text_append_inj (v w : Json) (hs : Stops isNumChar s) (ht : Stops isNumChar t)
    (h : text R v ++ s = text R w ++ t) : v = w ∧ s = t := by
  rw [← textWith_nil R v, ← textWith_nil R w] at h
  exact textWith_append_inj R v w hs ht h

theorem text_inj (h : text R v = text R w) : v = w := by
  rw [← textWith_nil R v, ← textWith_nil R w] at h
  exact textWith_inj R h

end Json

end Data
