/-
  The tokens of the parts of a where clause.

  A blank, a parenthesis and a comma end the token before them, so the tokens of a text are those of
  its parts. The parts are names, literals and fixed texts.

  What texts spell: a text and its parameters are read as a condition wherever they stand.

  The parts of a conjunction or a disjunction stand in parentheses, and no part ends in the middle
  of a larger one, so the condition of a predicate is that of its tests.
-/
import WebGis.Query.Where

open List Option

namespace WebGis.Query

open Data Scanner Char

variable {S : Reader} {s t : Text} {c : Char}

/-! ## Characters that end a token -/

theorem breaks_of (hbare : isBare c = false) (hsign : isSign c = false)
    (hname : c ≠ '"') (htext : c ≠ '\'') : (whereScanner S).Breaks c := by
  intro m post hflush
  change m.flush S = some post at hflush
  have hquote : ∀ name, c ≠ quoteOf name := by
    intro name
    cases name
    · exact htext
    · exact hname
  change m.step S c = (enter c).map fun r => (r.1, post ++ r.2)
  have hnext : m.next S c = (enter c).map fun r => (r.1, post ++ r.2) := by
    unfold Mode.next
    rw [hflush]
    cases enter c <;> rfl
  cases m with
  | start =>
    obtain rfl := some.inj hflush
    cases hc : enter c <;> simp [Mode.step, hc]
  | bare w => rw [Mode.step, if_neg (by simp [hbare]), hnext]
  | sign w => rw [Mode.step, if_neg (by simp [hsign]), hnext]
  | quoted name s => cases hflush
  | closed name s => rw [Mode.step, if_neg (hquote name), hnext]

theorem breaks_blank : (whereScanner S).Breaks ' ' :=
  breaks_of (by decide) (by decide) (by decide) (by decide)

theorem breaks_closing : (whereScanner S).Breaks ')' :=
  breaks_of (by decide) (by decide) (by decide) (by decide)

theorem breaks_comma : (whereScanner S).Breaks ',' :=
  breaks_of (by decide) (by decide) (by decide) (by decide)

/-! ## Words and numbers -/

theorem run_bare (acc w : Text) (h : ∀ c ∈ w, isBare c) :
    (whereScanner S).run (.bare acc) w = some (.bare (acc ++ w), []) := by
  induction w generalizing acc with
  | nil => simp [Scanner.run]
  | cons c w ih =>
    have hc : isBare c := h c mem_cons_self
    have hstep : (whereScanner S).step (.bare acc) c = some (.bare (acc ++ [c]), []) :=
      if_pos hc
    rw [Scanner.run, hstep]
    dsimp only [bind_eq_bind, bind_some]
    rw [ih (acc ++ [c]) fun d hd => h d (mem_cons_of_mem _ hd)]
    simp

theorem enter_bare (hc : isBare c) : enter c = some (.bare [c], []) := by
  have hne : ∀ d, isBare d = false → c ≠ d := by
    rintro d hd rfl
    rw [hc] at hd
    cases hd
  have hspace : isSpace c = false := by
    rw [Bool.eq_false_iff]
    intro h
    simp only [isBare, isWordChar, isAlphanum, isAlpha, isUpper, isLower,
      isDigit, Bool.or_eq_true, Bool.and_eq_true, decide_eq_true_eq] at hc
    simp only [isSpace, Bool.or_eq_true, Bool.and_eq_true, decide_eq_true_eq] at h
    have hle : ∀ a b : Char, a ≤ b ↔ a.toNat ≤ b.toNat := fun a b => Iff.rfl
    have hval : c.val.toNat = c.toNat := rfl
    have heq : ∀ d : Char, c = d → c.toNat = d.toNat := fun d h => congrArg toNat h
    simp only [ge_iff_le, UInt32.le_iff_toNat_le, hval] at hc
    rcases hc with (((((((hc | hc) | hc) | hc) | hc) | hc) | hc) | hc) <;>
      first
        | (have heqc := heq _ hc; simp at heqc; omega)
        | (simp at hc; omega)
  have hsign : isSign c = false := by
    simp [isSign, hne '=' (by decide), hne '!' (by decide), hne '<' (by decide),
      hne '>' (by decide)]
  unfold enter
  rw [if_neg (by simp [hspace]), if_neg (hne '(' (by decide)), if_neg (hne ')' (by decide)),
    if_neg (hne ',' (by decide)), if_neg (hne (quoteOf true) (by decide)),
    if_neg (hne (quoteOf false) (by decide)), if_neg (by simp [hsign]), if_pos hc]

theorem scans_bare {w : Text} {tok : Token} (hne : w ≠ []) (h : ∀ c ∈ w, isBare c)
    (htok : bareToken S w = some tok) : (whereScanner S).Scans w [tok] := by
  obtain ⟨c, w, rfl⟩ := exists_cons_of_ne_nil hne
  have hstep : (whereScanner S).step (whereScanner S).start c = some (.bare [c], []) :=
    enter_bare (h c mem_cons_self)
  have hrun : (whereScanner S).run (whereScanner S).start (c :: w) =
      some (.bare (c :: w), []) := by
    rw [Scanner.run, hstep]
    dsimp only [bind_eq_bind, bind_some]
    rw [run_bare [c] w fun d hd => h d (mem_cons_of_mem _ hd)]
    rfl
  have hflush : (whereScanner S).flush (.bare (c :: w)) = some [tok] := by
    change (bareToken S (c :: w)).map ([·]) = some [tok]
    rw [htok]
    rfl
  exact Scans.of_run hrun hflush

/-- A name that is read as it stands. -/
def isPlainName (s : String) : Bool := isWord s.toList && (keyword? s.toList).isNone

theorem isBare_of_isWordChar (h : isWordChar c) : isBare c := by
  simp [isBare, h]

theorem isWordChar_of_isWordStart (h : isWordStart c) : isWordChar c := by
  simp only [isWordStart, isWordChar, isAlphanum, Bool.or_eq_true] at *
  obtain h | h := h
  · exact .inl (.inl h)
  · exact .inr h

theorem isWord_cons (h : isWord s) :
    ∃ c cs, s = c :: cs ∧ isWordStart c ∧ ∀ d ∈ s, isWordChar d := by
  cases s with
  | nil => cases h
  | cons c cs =>
    obtain ⟨hc, hcs⟩ := Bool.and_eq_true_iff.mp h
    refine ⟨c, cs, rfl, hc, forall_mem_cons.mpr ⟨isWordChar_of_isWordStart hc, ?_⟩⟩
    exact List.all_eq_true.mp hcs

theorem scans_word {name : String} (h : isPlainName name) :
    (whereScanner S).Scans name.toList [.word name.toList] := by
  obtain ⟨hword, hkey⟩ := Bool.and_eq_true_iff.mp h
  obtain ⟨c, cs, hcs, hstart, hall⟩ := isWord_cons hword
  refine scans_bare (by simp [hcs]) (fun d hd => isBare_of_isWordChar (hall d hd)) ?_
  have hhole : name.toList ≠ "%s".toList := by
    intro he
    have := hall '%' (he ▸ by decide)
    exact absurd this (by decide)
  have hhead : name.toList.head?.any isWordStart := by simp [hcs, hstart]
  unfold bareToken
  rw [if_neg hhole, if_pos hhead, isNone_iff_eq_none.mp hkey]

/-! ## Quotes -/

theorem run_quoted (name : Bool) (acc w : Text) (h : quoteOf name ∉ w) :
    (whereScanner S).run (.quoted name acc) (w ++ [quoteOf name]) =
      some (.closed name (acc ++ w), []) := by
  induction w generalizing acc with
  | nil => simp [Scanner.run, whereScanner, Mode.step]
  | cons c w ih =>
    obtain ⟨hc, hw⟩ := not_or.mp (mem_cons.not.mp h)
    have hstep : (whereScanner S).step (.quoted name acc) c =
        some (.quoted name (acc ++ [c]), []) := if_neg (Ne.symm hc)
    rw [cons_append, Scanner.run, hstep]
    dsimp only [bind_eq_bind, bind_some]
    rw [ih (acc ++ [c]) hw]
    simp

theorem quote_notMem (f : FieldName) : '"' ∉ f.val.toList := by
  have hword : ∀ cs : Text, isWord cs = true → '"' ∉ cs := by
    intro cs h hmem
    obtain ⟨_, _, _, _, hall⟩ := isWord_cons h
    exact absurd (hall _ hmem) (by decide)
  intro hmem
  obtain h | h := Bool.or_eq_true_iff.mp f.property
  · exact hword _ h hmem
  obtain ⟨hlast, h⟩ := Bool.and_eq_true_iff.mp h
  have hlast := of_decide_eq_true hlast
  rw [← dropLast_append_getLast? _ (Option.mem_def.mpr hlast), mem_append] at hmem
  obtain hmem | hmem := hmem
  · exact hword _ h hmem
  · exact absurd hmem (by decide)

theorem scans_quoteIdent (f : FieldName) :
    (whereScanner S).Scans (quoteIdent f) [.name f.val.toList] := by
  have hrun : (whereScanner S).run (whereScanner S).start (quoteIdent f) =
      some (.closed true f.val.toList, []) := by
    unfold quoteIdent
    rw [cons_append, Scanner.run]
    have hstep : (whereScanner S).step (whereScanner S).start '"' =
        some (.quoted true [], []) := rfl
    rw [hstep]
    dsimp only [bind_eq_bind, bind_some]
    rw [show ['"'] = [quoteOf true] from rfl, run_quoted true [] _ (quote_notMem f)]
    rfl
  exact Scans.of_run hrun rfl

/-- The quotes of a text, doubled. -/
def doubled (s : Text) : Text := s.flatMap fun c => if c = '\'' then ['\'', '\''] else [c]

theorem run_doubled (acc w : Text) :
    (whereScanner S).run (.quoted false acc) (doubled w ++ ['\'']) =
      some (.closed false (acc ++ w), []) := by
  induction w generalizing acc with
  | nil => simp [doubled, Scanner.run, whereScanner, Mode.step, quoteOf]
  | cons c w ih =>
    by_cases hc : c = '\''
    · subst hc
      have hstep : (whereScanner S).step (.quoted false acc) '\'' =
          some (.closed false acc, []) := rfl
      have hagain : (whereScanner S).step (.closed false acc) '\'' =
          some (.quoted false (acc ++ ['\'']), []) := rfl
      have hsplit : doubled ('\'' :: w) ++ ['\''] = '\'' :: '\'' :: (doubled w ++ ['\'']) := rfl
      rw [hsplit, Scanner.run, hstep]
      dsimp only [bind_eq_bind, bind_some]
      rw [Scanner.run, hagain]
      dsimp only [bind_eq_bind, bind_some]
      rw [ih (acc ++ ['\''])]
      simp
    · have hstep : (whereScanner S).step (.quoted false acc) c =
          some (.quoted false (acc ++ [c]), []) := if_neg hc
      have hsplit : doubled (c :: w) ++ ['\''] = c :: (doubled w ++ ['\'']) := by
        simp [doubled, hc]
      rw [hsplit, Scanner.run, hstep]
      dsimp only [bind_eq_bind, bind_some]
      rw [ih (acc ++ [c])]
      simp

theorem scans_text (s : Text) :
    (whereScanner S).Scans ('\'' :: doubled s ++ ['\'']) [.text s] := by
  have hrun : (whereScanner S).run (whereScanner S).start ('\'' :: doubled s ++ ['\'']) =
      some (.closed false s, []) := by
    rw [cons_append, Scanner.run]
    have hstep : (whereScanner S).step (whereScanner S).start '\'' =
        some (.quoted false [], []) := rfl
    rw [hstep]
    dsimp only [bind_eq_bind, bind_some]
    rw [run_doubled]
    rfl
  exact Scans.of_run hrun rfl

/-! ## Literals -/

theorem readInt_intChars (n : Int) : readInt (intChars n) = some n := by
  have hdigits : ∀ m : Nat, (Nat.toDigits 10 m ≠ [] ∧ (Nat.toDigits 10 m).all isDigit) := by
    intro m
    exact ⟨Nat.toDigits_ne_nil, List.all_eq_true.mpr fun c hc => isDigit_of_mem hc⟩
  cases n with
  | ofNat m =>
    unfold readInt
    split
    · rename_i cs heq
      have hmem : '-' ∈ intChars (.ofNat m) := heq ▸ mem_cons_self
      exact absurd hmem (minus_notMem m)
    · have hchars : intChars (.ofNat m) = Nat.toDigits 10 m := rfl
      rw [hchars, if_pos (hdigits m), Nat.ofDigitChars_ten_toDigits]
      rfl
  | negSucc m =>
    refine (if_pos (hdigits (m + 1))).trans ?_
    rw [Nat.ofDigitChars_ten_toDigits]
    rfl

theorem isBare_of_isNumChar (h : isNumChar c) : isBare c := by
  simp only [isNumChar, isBare, isWordChar, isAlphanum, Bool.or_eq_true, decide_eq_true_eq] at *
  rcases h with (((h | rfl) | rfl) | rfl) | rfl
  · simp [h]
  all_goals decide

theorem readInt_eq_none (h : '.' ∈ s ∨ 'e' ∈ s) : readInt s = none := by
  have hall : ∀ cs : Text, ('.' ∈ cs ∨ 'e' ∈ cs) → ¬ (cs ≠ [] ∧ cs.all isDigit) := by
    rintro cs hcs ⟨-, hd⟩
    obtain hm | hm := hcs
    · exact absurd (List.all_eq_true.mp hd _ hm) (by decide)
    · exact absurd (List.all_eq_true.mp hd _ hm) (by decide)
  unfold readInt
  split
  · rename_i cs
    refine if_neg (hall cs ?_)
    simpa using h
  · exact if_neg (hall s h)

theorem readNumber_int (n : Int) : readNumber S (intChars n) = some n := by
  unfold readNumber
  rw [readInt_intChars]
  rfl

theorem readNumber_float (q : Rat) : readNumber S (S.floats.chars q) = some q := by
  unfold readNumber
  rw [readInt_eq_none (S.floats.point q), S.floats.ofText_chars]

/-- The token of a literal. -/
def litToken : Scalar → Token
  | .null => .key .null
  | .bool b => .key (if b then .true else .false)
  | .int n => .number n
  | .float q => .number q
  | .str s => .text s.toList

theorem bareToken_number {w : Text} {q : Rat} (hlead : ∀ c, w.head? = some c → c.isDigit ∨ c = '-')
    (hne : w ≠ []) (h : readNumber S w = some q) : bareToken S w = some (.number q) := by
  obtain ⟨c, w, rfl⟩ := exists_cons_of_ne_nil hne
  have hc := hlead c rfl
  have hhole : c :: w ≠ "%s".toList := by
    intro he
    have : c = '%' := (List.cons.inj he).1
    subst this
    obtain hc | hc := hc
    · exact absurd hc (by decide)
    · exact absurd hc (by decide)
  have hstart : isWordStart c = false := by
    obtain hc | rfl := hc
    · rw [Bool.eq_false_iff]
      intro hs
      simp only [isWordStart, isAlpha, isUpper, isLower, isDigit, Bool.or_eq_true, Bool.and_eq_true,
        decide_eq_true_eq, ge_iff_le, UInt32.le_iff_toNat_le] at hs hc
      rcases hs with (hs | hs) | rfl
      · simp at hs hc
        omega
      · simp at hs hc
        omega
      · exact absurd hc (by decide)
    · decide
  unfold bareToken
  rw [if_neg hhole, if_neg (by simp [hstart]), h]
  rfl

theorem chars_ne_nil (F : Floats) (q : Rat) : F.chars q ≠ [] := by
  intro h
  have := F.point q
  simp [h] at this

theorem head_intChars {n : Int} (c : Char) (h : (intChars n).head? = some c) :
    c.isDigit ∨ c = '-' := by
  have hmem : c ∈ intChars n := mem_of_mem_head? (Option.mem_def.mpr h)
  exact intChars_digits hmem

theorem scans_number {w : Text} {q : Rat} (hlead : ∀ c, w.head? = some c → c.isDigit ∨ c = '-')
    (hne : w ≠ []) (hchars : ∀ c ∈ w, isNumChar c) (h : readNumber S w = some q) :
    (whereScanner S).Scans w [.number q] :=
  scans_bare hne (fun c hc => isBare_of_isNumChar (hchars c hc)) (bareToken_number hlead hne h)

theorem scans_int (n : Int) : (whereScanner S).Scans (intChars n) [.number n] :=
  scans_number (fun _ h => head_intChars _ h) (intChars_ne_nil n)
    (fun _ hc => isNumChar_of_mem_intChars hc) (readNumber_int n)

theorem scans_float (q : Rat) : (whereScanner S).Scans (S.floats.chars q) [.number q] :=
  scans_number (S.floats.lead q) (chars_ne_nil _ q) (fun _ hc => S.floats.num hc)
    (readNumber_float q)

theorem scans_quoteValue {v : Scalar} (h : quoteValue S.floats v = .ok t) :
    (whereScanner S).Scans t [litToken v] := by
  cases v with
  | null =>
    cases h
    rfl
  | bool b =>
    cases h
    cases b <;> rfl
  | int n =>
    cases h
    exact scans_int n
  | float q =>
    cases h
    exact scans_float q
  | str s =>
    by_cases hcontrol : (s.toList.any fun c => c.toNat < 0x20)
    · cases (if_pos hcontrol).symm.trans h
    · cases (if_neg hcontrol).symm.trans h
      exact scans_text s.toList

theorem scans_cql2Number {v : Scalar} (h : cql2Number S.floats v = .ok t) :
    (whereScanner S).Scans t [litToken v] := by
  cases v with
  | int n =>
    cases h
    exact scans_int n
  | float q =>
    cases h
    exact scans_float q
  | null => cases h
  | bool b => cases h
  | str s => cases h

variable {esc : Option Char} {n : Nat}

/-! ## Parameters -/

/-- The tokens take exactly these parameters. -/
def Binds (ts : List Token) (ps : List Param) (us : List Token) : Prop :=
  ∀ ts' ps', bindParams (ts ++ ts') (ps ++ ps') = (bindParams ts' ps').map (us ++ ·)

theorem Binds.append {ts ts' us us' : List Token} {ps ps' : List Param} (h : Binds ts ps us)
    (h' : Binds ts' ps' us') : Binds (ts ++ ts') (ps ++ ps') (us ++ us') := by
  intro vs qs
  rw [append_assoc, append_assoc, h, h', Option.map_map]
  congr 1
  funext vs
  simp

theorem Binds.all {ts us : List Token} {ps : List Param} (h : Binds ts ps us) :
    bindParams ts ps = some us := by
  have := h [] []
  rw [append_nil, append_nil] at this
  rw [this]
  simp [bindParams]

theorem binds_of_ne {t : Token} (h : t ≠ .hole) : Binds [t] [] [t] := by
  intro ts' ps'
  cases t with
  | hole => exact absurd rfl h
  | key _ | word _ | name _ | number _ | text _ | mark _ | bound _ | opening | closing | comma =>
    cases ps' <;> rfl

theorem binds_hole (p : Param) : Binds [.hole] [p] [.bound p] := fun _ _ => rfl

theorem binds_nil : Binds [] [] [] := fun ts' ps' => by simp

/-! ## Parts -/

/-- The tokens are read as the condition, whatever comes after them. -/
def Spells (esc : Option Char) (us : List Token) (c : Cond) : Prop :=
  ∀ n rest, 3 * us.length ≤ n → readFactor esc n (us ++ rest) = some (c, rest)

/-- Parts with a keyword between them. -/
def joinTokens (k : Keyword) : List Token → List (List Token) → List Token
  | us, [] => us
  | us, vs :: uss => us ++ .key k :: joinTokens k vs uss

variable {us vs : List Token} {uss : List (List Token)} {c d : Cond} {cs : List Cond}

theorem Spells.length_pos (h : Spells esc us c) : 0 < us.length := by
  refine Nat.pos_of_ne_zero fun hzero => ?_
  have := h 0 [] (by omega)
  cases this

section

variable (h : List.Forall₂ (Spells esc) (us :: uss) (c :: cs))
include h

theorem readAnd_joined (rest : List Token) (hrest : ∀ ts, rest ≠ .key .and :: ts)
    (hn : 3 * (joinTokens .and us uss).length + 1 ≤ n) :
    readAnd esc n (joinTokens .and us uss ++ rest) = some (joinCond .and c cs, rest) := by
  induction uss generalizing us c cs n with
  | nil =>
    obtain ⟨hc, hcs⟩ := forall₂_cons.mp h
    obtain rfl := forall₂_nil_left_iff.mp hcs
    obtain ⟨n, rfl⟩ : ∃ m, n = m + 1 := ⟨n - 1, by omega⟩
    rw [joinTokens, readAnd, hc n rest (by rw [joinTokens] at hn; omega)]
    dsimp only [bind_eq_bind, bind_some]
    split
    · rename_i heq
      exact absurd (Prod.mk.inj heq).2 (hrest _)
    · rfl
  | cons vs uss ih =>
    obtain ⟨hc, hcs⟩ := forall₂_cons.mp h
    obtain ⟨d, cs, hd, htail, rfl⟩ := forall₂_cons_left_iff.mp hcs
    rw [joinTokens, length_append, length_cons] at hn
    have hpos := hc.length_pos
    obtain ⟨n, rfl⟩ : ∃ m, n = m + 1 := ⟨n - 1, by omega⟩
    rw [joinTokens, append_assoc, cons_append, readAnd, hc n _ (by omega)]
    dsimp only [bind_eq_bind, bind_some]
    rw [ih (forall₂_cons.mpr ⟨hd, htail⟩) (by omega)]
    rfl

theorem readOr_joined (rest : List Token) (hrest : ∀ k ts, rest ≠ .key k :: ts)
    (hn : 3 * (joinTokens .or us uss).length + 2 ≤ n) :
    readOr esc n (joinTokens .or us uss ++ rest) = some (joinCond .or c cs, rest) := by
  induction uss generalizing us c cs n with
  | nil =>
    obtain ⟨hc, hcs⟩ := forall₂_cons.mp h
    obtain rfl := forall₂_nil_left_iff.mp hcs
    rw [joinTokens] at hn
    obtain ⟨n, rfl⟩ : ∃ m, n = m + 1 := ⟨n - 1, by omega⟩
    have hpart := readAnd_joined (n := n) (forall₂_cons.mpr ⟨hc, .nil⟩) rest (hrest .and)
      (by rw [joinTokens]; omega)
    rw [joinTokens] at hpart
    rw [joinTokens, readOr, hpart]
    dsimp only [bind_eq_bind, bind_some]
    split
    · rename_i heq
      exact absurd (Prod.mk.inj heq).2 (hrest _ _)
    · rfl
  | cons vs uss ih =>
    obtain ⟨hc, hcs⟩ := forall₂_cons.mp h
    obtain ⟨d, cs, hd, htail, rfl⟩ := forall₂_cons_left_iff.mp hcs
    rw [joinTokens, length_append, length_cons] at hn
    have hpos := hc.length_pos
    obtain ⟨n, rfl⟩ : ∃ m, n = m + 1 := ⟨n - 1, by omega⟩
    have hpart := readAnd_joined (n := n) (forall₂_cons.mpr ⟨hc, .nil⟩)
      (.key .or :: (joinTokens .or vs uss ++ rest)) (fun ts heq => by cases heq)
      (by rw [joinTokens]; omega)
    rw [joinTokens] at hpart
    rw [joinTokens, append_assoc, cons_append, readOr, hpart]
    dsimp only [bind_eq_bind, bind_some]
    rw [ih (forall₂_cons.mpr ⟨hd, htail⟩) (by omega)]
    rfl

/-- Parts joined by `AND`, in parentheses. -/
theorem Spells.and :
    Spells esc (.opening :: joinTokens .and us uss ++ [.closing]) (joinCond .and c cs) := by
  intro n rest hn
  rw [length_append, length_cons, length_singleton] at hn
  obtain ⟨n, rfl⟩ : ∃ m, n = m + 2 := ⟨n - 2, by omega⟩
  rw [cons_append, cons_append, append_assoc, singleton_append, readFactor,
    readOr, readAnd_joined h (.closing :: rest) (fun ts heq => by cases heq) (by omega)]
  rfl

/-- Parts joined by `OR`, in parentheses. -/
theorem Spells.or :
    Spells esc (.opening :: joinTokens .or us uss ++ [.closing]) (joinCond .or c cs) := by
  intro n rest hn
  rw [length_append, length_cons, length_singleton] at hn
  obtain ⟨n, rfl⟩ : ∃ m, n = m + 1 := ⟨n - 1, by omega⟩
  rw [cons_append, cons_append, append_assoc, singleton_append, readFactor,
    readOr_joined h (.closing :: rest) (fun _ ts heq => by cases heq) (by omega)]
  rfl

end

theorem Spells.not (h : Spells esc us c) :
    Spells esc (.opening :: .key .not :: us ++ [.closing]) (.not c) := by
  intro n rest hn
  rw [length_append, length_cons, length_cons, length_singleton] at hn
  obtain ⟨n, rfl⟩ : ∃ m, n = m + 4 := ⟨n - 4, by omega⟩
  rw [cons_append, cons_append, cons_append, cons_append, append_assoc,
    singleton_append, readFactor, readOr, readAnd, readFactor, h n _ (by omega)]
  rfl

theorem Spells.parens (h : Spells esc us c) :
    Spells esc (.opening :: us ++ [.closing]) c :=
  Spells.and (forall₂_cons.mpr ⟨h, .nil⟩)

theorem Spells.cond (h : Spells esc us c) : readCond esc us = some c := by
  unfold readCond
  have hpart := readOr_joined (n := 3 * us.length + 3)
    (forall₂_cons.mpr ⟨h, .nil⟩) [] (fun _ ts heq => by cases heq) (by rw [joinTokens]; omega)
  rw [joinTokens, append_nil] at hpart
  rw [hpart]
  rfl

/-! ## Texts -/

/-- A text and its parameters are read as the condition. -/
def Spelled (S : Reader) (esc : Option Char) (fragment : SQLFragment) (c : Cond) : Prop :=
  ∃ ts us, (whereScanner S).Scans fragment.1 ts ∧ Binds ts fragment.2 us ∧ Spells esc us c

theorem Spelled.read {fragment : SQLFragment} (h : Spelled S esc fragment c) :
    readWhere S esc fragment = some c := by
  obtain ⟨ts, us, hscan, hbind, hspell⟩ := h
  have hscan : (whereScanner S).scan fragment.1 = some ts := hscan
  unfold readWhere
  rw [hscan]
  dsimp only [bind_eq_bind, bind_some]
  rw [hbind.all]
  exact hspell.cond

theorem scans_join {sep : Text} {k : Keyword} (hsep : ∃ rest, sep = ' ' :: rest)
    (hrun : (whereScanner S).run (whereScanner S).start sep =
      some ((whereScanner S).start, [.key k]))
    {part : Text} {parts : List Text} {ts : List Token} {tss : List (List Token)}
    (h : List.Forall₂ ((whereScanner S).Scans) (part :: parts) (ts :: tss)) :
    (whereScanner S).Scans (joinTexts sep (part :: parts)) (joinTokens k ts tss) := by
  obtain ⟨rest, hrest⟩ := hsep
  induction parts generalizing part ts tss with
  | nil =>
    obtain ⟨hpart, hparts⟩ := forall₂_cons.mp h
    obtain rfl := forall₂_nil_left_iff.mp hparts
    simpa [joinTexts, List.intercalate, joinTokens] using hpart
  | cons part' parts ih =>
    obtain ⟨hpart, hparts⟩ := forall₂_cons.mp h
    obtain ⟨ts', tss, hpart', htail, rfl⟩ := forall₂_cons_left_iff.mp hparts
    have hrec := ih (forall₂_cons.mpr ⟨hpart', htail⟩)
    have hafter := Scans.after hrun hrec
    have hsplit : joinTexts sep (part :: part' :: parts) =
        part ++ (sep ++ joinTexts sep (part' :: parts)) := by
      simp [joinTexts, List.intercalate, List.intersperse]
    rw [hsplit, joinTokens]
    rw [hrest, cons_append] at hafter ⊢
    exact hpart.append breaks_blank hafter

theorem Spelled.parts {part : SQLFragment} {parts : List SQLFragment} (k : Keyword)
    (h : List.Forall₂ (Spelled S esc) (part :: parts) (c :: cs)) :
    ∃ ts tss us uss,
      List.Forall₂ ((whereScanner S).Scans) ((part :: parts).map Prod.fst) (ts :: tss) ∧
      Binds (joinTokens k ts tss) ((part :: parts).flatMap Prod.snd) (joinTokens k us uss) ∧
      List.Forall₂ (Spells esc) (us :: uss) (c :: cs) := by
  induction parts generalizing part c cs with
  | nil =>
    obtain ⟨⟨ts, us, hscan, hbind, hspell⟩, hnil⟩ := forall₂_cons.mp h
    obtain rfl := forall₂_nil_left_iff.mp hnil
    refine ⟨ts, [], us, [], forall₂_cons.mpr ⟨hscan, .nil⟩, ?_, forall₂_cons.mpr ⟨hspell, .nil⟩⟩
    simpa [joinTokens] using hbind
  | cons part' parts ih =>
    obtain ⟨⟨ts, us, hscan, hbind, hspell⟩, hparts⟩ := forall₂_cons.mp h
    obtain ⟨d, ds, hd, htail, rfl⟩ := forall₂_cons_left_iff.mp hparts
    obtain ⟨ts', tss, us', uss, hscans, hbinds, hspells⟩ :=
      ih (forall₂_cons.mpr ⟨hd, htail⟩)
    have hkey : Binds [.key k] [] [.key k] := binds_of_ne (by intro h; cases h)
    exact ⟨ts, ts' :: tss, us, us' :: uss, forall₂_cons.mpr ⟨hscan, hscans⟩,
      hbind.append (hkey.append hbinds), forall₂_cons.mpr ⟨hspell, hspells⟩⟩

theorem scans_parens {t : Text} {ts : List Token} (h : (whereScanner S).Scans t ts) :
    (whereScanner S).Scans ('(' :: t ++ [')']) (.opening :: ts ++ [.closing]) := by
  have hopen : (whereScanner S).run (whereScanner S).start ['('] =
      some ((whereScanner S).start, [.opening]) := rfl
  have hclose : (whereScanner S).Scans [')'] [.closing] := rfl
  have hscan := Scans.after hopen (h.append breaks_closing hclose)
  exact hscan

theorem binds_parens {ts us : List Token} {ps : List Param} (h : Binds ts ps us) :
    Binds (.opening :: ts ++ [.closing]) ps (.opening :: us ++ [.closing]) := by
  have hopen : Binds [.opening] [] [.opening] := binds_of_ne (by intro h; cases h)
  have hclose : Binds [.closing] [] [.closing] := binds_of_ne (by intro h; cases h)
  simpa using hopen.append (h.append hclose)

variable {part : SQLFragment} {parts : List SQLFragment}

theorem Spelled.and (h : List.Forall₂ (Spelled S esc) (part :: parts) (c :: cs)) :
    Spelled S esc ('(' :: joinTexts " AND ".toList ((part :: parts).map Prod.fst) ++ [')'],
      (part :: parts).flatMap Prod.snd) (joinCond .and c cs) := by
  obtain ⟨ts, tss, us, uss, hscans, hbinds, hspells⟩ := Spelled.parts .and h
  refine ⟨_, _, scans_parens (scans_join ⟨_, rfl⟩ rfl hscans), binds_parens hbinds, ?_⟩
  exact Spells.and hspells

theorem Spelled.or (h : List.Forall₂ (Spelled S esc) (part :: parts) (c :: cs)) :
    Spelled S esc ('(' :: joinTexts " OR ".toList ((part :: parts).map Prod.fst) ++ [')'],
      (part :: parts).flatMap Prod.snd) (joinCond .or c cs) := by
  obtain ⟨ts, tss, us, uss, hscans, hbinds, hspells⟩ := Spelled.parts .or h
  refine ⟨_, _, scans_parens (scans_join ⟨_, rfl⟩ rfl hscans), binds_parens hbinds, ?_⟩
  exact Spells.or hspells

theorem Spelled.not (h : Spelled S esc part c) :
    Spelled S esc ("(NOT ".toList ++ part.1 ++ [')'], part.2) (.not c) := by
  obtain ⟨ts, us, hscan, hbind, hspell⟩ := h
  have hopen : (whereScanner S).run (whereScanner S).start "(NOT ".toList =
      some ((whereScanner S).start, [.opening, .key .not]) := rfl
  have hclose : (whereScanner S).Scans [')'] [.closing] := rfl
  have hnot : Binds [.key .not] [] [.key .not] := binds_of_ne (by intro h; cases h)
  refine ⟨_, _, ?_, binds_parens (hnot.append hbind), hspell.not⟩
  have hscan := Scans.after hopen (hscan.append breaks_closing hclose)
  rw [← append_assoc] at hscan
  exact hscan

end WebGis.Query
