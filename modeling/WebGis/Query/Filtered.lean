/-
  What a filter in FES spells.

  Every element is closed where it ends, so the tokens of a filter are those of its elements, and an
  element is read as its condition wherever it stands. A filter that tests for values that are
  not NULL has an element that no reader knows, so the tests of the predicate must not.
-/
import WebGis.Query.Compiled

namespace WebGis.Query

open Data Scanner List Option Predicate

variable {F : Floats}

/-! ## Tokens -/

/-- After the text no element and no text is open. -/
def Closed (cs : Text) (ts : List FesToken) : Prop :=
  fesScanner.run fesScanner.start cs = some (fesScanner.start, ts)

variable {cs ds body tag attributes : Text} {ts us : List FesToken} {g : FesTag}
  {parts : List Text}

theorem Closed.append (h : Closed cs ts) (h' : Closed ds us) : Closed (cs ++ ds) (ts ++ us) := by
  unfold Closed at *
  rw [run_append h, h']
  rfl

theorem closed_nil : Closed [] [] := rfl

theorem run_content (acc s : Text) (h : '<' ∉ s) :
    fesScanner.run (.content acc) s = some (.content (acc ++ s), []) := by
  induction s generalizing acc with
  | nil => simp [Scanner.run]
  | cons c s ih =>
    obtain ⟨hc, hs⟩ := not_or.mp (mem_cons.not.mp h)
    have hstep : fesScanner.step (.content acc) c = some (.content (acc ++ [c]), []) :=
      if_neg (Ne.symm hc)
    rw [Scanner.run, hstep]
    dsimp only [bind_eq_bind, bind_some]
    rw [ih (acc ++ [c]) hs]
    simp

theorem run_tag (acc s : Text) (h : '>' ∉ s) {t : FesToken} (ht : tagToken (acc ++ s) = some t) :
    fesScanner.run (.tag acc) (s ++ ['>']) = some (fesScanner.start, [t]) := by
  induction s generalizing acc with
  | nil =>
    rw [append_nil] at ht
    have hstep : fesScanner.step (.tag acc) '>' = some (.content [], [t]) := by
      change (tagToken acc).map _ = _
      rw [ht]
      rfl
    rw [nil_append, Scanner.run, hstep]
    rfl
  | cons c s ih =>
    obtain ⟨hc, hs⟩ := not_or.mp (mem_cons.not.mp h)
    have hstep : fesScanner.step (.tag acc) c = some (.tag (acc ++ [c]), []) :=
      if_neg (Ne.symm hc)
    rw [cons_append, Scanner.run, hstep]
    dsimp only [bind_eq_bind, bind_some]
    rw [ih (acc ++ [c]) hs (by simpa using ht)]
    rfl

theorem closed_tag {s : Text} (h : '>' ∉ s) {t : FesToken} (ht : tagToken s = some t) :
    Closed ('<' :: s ++ ['>']) [t] := by
  have hstep : fesScanner.step fesScanner.start '<' = some (.tag [], []) := rfl
  unfold Closed
  rw [cons_append, Scanner.run, hstep]
  dsimp only [bind_eq_bind, bind_some]
  rw [run_tag [] s h ht]
  rfl

/-- The tags of an element. -/
structure IsTag (tag attributes : Text) (g : FesTag) (parts : List Text) : Prop where
  opening : tagToken ("ogc:".toList ++ tag ++ attributes) = some (.opening g parts)
  closing : tagToken ("/ogc:".toList ++ tag) = some (.closing g)
  plain : '>' ∉ "ogc:".toList ++ tag ++ attributes

theorem tagParts_append {name : Text} (h : ' ' ∉ name) (s : Text) :
    tagParts (name ++ ' ' :: s) = name :: tagParts s := by
  induction name with
  | nil => rfl
  | cons c name ih =>
    obtain ⟨hc, hname⟩ := not_or.mp (mem_cons.not.mp h)
    rw [cons_append, tagParts, if_neg (Ne.symm hc), ih hname]

theorem tagParts_plain {name : Text} (h : ' ' ∉ name) : tagParts name = [name] := by
  induction name with
  | nil => rfl
  | cons c name ih =>
    obtain ⟨hc, hname⟩ := not_or.mp (mem_cons.not.mp h)
    rw [tagParts, if_neg (Ne.symm hc), ih hname]

theorem tagToken_ogc (s : Text) : tagToken ("ogc:".toList ++ s) =
    (fesTag? ((tagParts ("ogc:".toList ++ s)).headD [])).map fun tag =>
      .opening tag (tagParts ("ogc:".toList ++ s)).tail := rfl

theorem tagToken_closing (s : Text) :
    tagToken ("/ogc:".toList ++ s) = (fesTag? ("ogc:".toList ++ s)).map .closing := rfl

section Names

variable {s : Text} (hname : fesTag? ("ogc:".toList ++ tag) = some g) (htag : ' ' ∉ tag ∧ '>' ∉ tag)

include hname htag

theorem isTag_plain : IsTag tag [] g [] where
  opening := by
    have hblank : ' ' ∉ "ogc:".toList ++ tag := by simp [htag.1]
    rw [append_nil, tagToken_ogc, tagParts_plain hblank, headD_cons, hname]
    rfl
  closing := by
    rw [tagToken_closing, hname]
    rfl
  plain := by simp [htag.2]

theorem isTag_attributes (hs : '>' ∉ s) : IsTag tag (' ' :: s) g (tagParts s) where
  opening := by
    have hblank : ' ' ∉ "ogc:".toList ++ tag := by simp [htag.1]
    rw [append_assoc, tagToken_ogc, ← append_assoc, tagParts_append hblank, headD_cons, hname]
    rfl
  closing := by
    rw [tagToken_closing, hname]
    rfl
  plain := by simp [htag.2, hs]

end Names

theorem isTag_xmlns (hname : fesTag? ("ogc:".toList ++ tag) = some g)
    (htag : ' ' ∉ tag ∧ '>' ∉ tag) : ∃ parts, IsTag tag xmlns g parts :=
  ⟨_, isTag_attributes hname htag (s := "xmlns:ogc=\"http://www.opengis.net/ogc\"".toList)
    (by decide)⟩

theorem IsTag.closed_opening (h : IsTag tag attributes g parts) :
    Closed ("<ogc:".toList ++ tag ++ attributes ++ ['>']) [.opening g parts] := by
  have := closed_tag h.plain h.opening
  exact this

theorem IsTag.closed_closing (h : IsTag tag attributes g parts) :
    Closed ("</ogc:".toList ++ tag ++ ['>']) [.closing g] := by
  have hplain : '>' ∉ "/ogc:".toList ++ tag := by
    intro hmem
    obtain hmem | hmem := mem_append.mp hmem
    · exact absurd hmem (by decide)
    · exact h.plain (mem_append_left _ (mem_append_right _ hmem))
  have := closed_tag hplain h.closing
  exact this

theorem element_eq (tag attributes body : Text) : element tag attributes body =
    ("<ogc:".toList ++ tag ++ attributes ++ ['>']) ++
      (body ++ ("</ogc:".toList ++ tag ++ ['>'])) := by
  unfold element
  generalize "<ogc:".toList = opening
  generalize "</ogc:".toList = closing
  simp

theorem closed_element (h : IsTag tag attributes g parts) (hbody : Closed body ts) :
    Closed (element tag attributes body) (.opening g parts :: ts ++ [.closing g]) := by
  rw [element_eq]
  exact h.closed_opening.append (hbody.append h.closed_closing)

/-! ## Texts in elements -/

theorem unescapeXml_cons {c : Char} (hc : c ≠ '&') (s : Text) :
    unescapeXml (c :: s) = c :: unescapeXml s := by
  have hentity : entity? (c :: s) = none := by
    simp [entity?, List.isPrefixOf, Ne.symm hc]
  unfold unescapeXml
  rw [unescapeFrom, hentity]

theorem unescapeXml_escape (c : Char) (s : Text) :
    unescapeXml (xmlEscapeChar c ++ s) = c :: unescapeXml s := by
  unfold xmlEscapeChar
  split
  · subst c
    rfl
  · rename_i hamp
    split
    · subst c
      rfl
    · split
      · subst c
        rfl
      · split
        · subst c
          rfl
        · split
          · subst c
            rfl
          · exact unescapeXml_cons hamp s

theorem unescapeXml_flatMap (s : Text) : unescapeXml (s.flatMap xmlEscapeChar) = s := by
  induction s with
  | nil => rfl
  | cons c s ih => rw [flatMap_cons, unescapeXml_escape, ih]

theorem opening_notMem (c : Char) : '<' ∉ xmlEscapeChar c := by
  unfold xmlEscapeChar
  split
  · decide
  split
  · decide
  split
  · decide
  rename_i hlt
  split
  · decide
  · split
    · decide
    · simpa using Ne.symm hlt

/-- The tokens of a text. -/
def charTokens (s : Text) : List FesToken := if s = [] then [] else [.chars s]

theorem escape_eq_nil {s : Text} : s.flatMap xmlEscapeChar = [] ↔ s = [] := by
  constructor
  · intro h
    rw [← unescapeXml_flatMap s, h]
    rfl
  · rintro rfl
    rfl

theorem closed_content (h : IsTag tag attributes g parts) (s : Text) :
    Closed (element tag attributes (s.flatMap xmlEscapeChar))
      (.opening g parts :: charTokens s ++ [.closing g]) := by
  have hplain : '<' ∉ s.flatMap xmlEscapeChar := by
    intro hmem
    obtain ⟨c, -, hc⟩ := mem_flatMap.mp hmem
    exact opening_notMem c hc
  have hflush : fesScanner.flush (.content (s.flatMap xmlEscapeChar)) =
      some (charTokens s) := by
    change some (if _ then _ else _) = _
    unfold charTokens
    rw [unescapeXml_flatMap]
    by_cases hs : s = []
    · rw [if_pos hs, if_pos (escape_eq_nil.mpr hs)]
    · rw [if_neg hs, if_neg (escape_eq_nil.not.mpr hs)]
  have hbreaks : fesScanner.Breaks '<' := by
    intro m post hpost
    cases m with
    | tag acc => cases hpost
    | content acc =>
      change ((XmlMode.content acc).flush).map _ = _
      change XmlMode.flush (.content acc) = some post at hpost
      rw [hpost]
      change _ = some (XmlMode.tag [], post ++ [])
      rw [append_nil]
      rfl
  have hcontent : fesScanner.run fesScanner.start (s.flatMap xmlEscapeChar) =
      some (.content (s.flatMap xmlEscapeChar), []) := run_content [] _ hplain
  have hclosing := h.closed_closing
  have hrest : Closed (s.flatMap xmlEscapeChar ++ ("</ogc:".toList ++ tag ++ ['>']))
      (charTokens s ++ [.closing g]) := by
    unfold Closed at *
    rw [run_append hcontent]
    have hbreak : fesScanner.run _ ('<' :: ("/ogc:".toList ++ tag ++ ['>'])) = _ :=
      run_of_breaks hbreaks hflush
    have hsplit : '<' :: ("/ogc:".toList ++ tag ++ ['>']) = "</ogc:".toList ++ tag ++ ['>'] := rfl
    rw [hsplit] at hbreak
    rw [hbreak, hclosing]
    rfl
  rw [element_eq]
  exact h.closed_opening.append hrest

/-! ## Elements -/

/-- The tokens are read as the condition, whatever comes after them. -/
def ReadsElement (ts : List FesToken) (c : Cond) : Prop :=
  ∀ n rest, 2 * ts.length ≤ n → readElement n (ts ++ rest) = some (c, rest)

/-- A filter is read as the condition. -/
def Filtered (text : Text) (c : Cond) : Prop := ∃ ts, Closed text ts ∧ ReadsElement ts c

variable {text : Text} {c : Cond}

theorem Filtered.read (h : Filtered text c) : readFes text = some c := by
  obtain ⟨ts, hclosed, hreads⟩ := h
  have hscan : fesScanner.scan text = some ts := by
    have hscans : fesScanner.Scans text (ts ++ []) := Scans.of_run hclosed rfl
    rwa [append_nil] at hscans
  have hread := hreads (2 * ts.length) [] le_rfl
  rw [append_nil] at hread
  unfold readFes
  rw [hscan]
  dsimp only [bind_eq_bind, bind_some]
  rw [hread]
  rfl

theorem ReadsElement.head (h : ReadsElement ts c) :
    ∃ g parts ts', ts = .opening g parts :: ts' := by
  have hread := h (2 * ts.length) [] le_rfl
  rw [append_nil] at hread
  match ts, hread with
  | [], hread => cases hread
  | .opening g parts :: ts', _ => exact ⟨g, parts, ts', rfl⟩
  | .closing g :: ts', hread => cases hread
  | .chars s :: ts', hread => cases hread

theorem readElements_append {tss : List (List FesToken)} {cs : List Cond}
    (h : List.Forall₂ ReadsElement tss cs) (g : FesTag) (rest : List FesToken) (n : Nat)
    (hn : 2 * tss.flatten.length + 1 ≤ n) :
    readElements n (tss.flatten ++ .closing g :: rest) = some (cs, .closing g :: rest) := by
  induction h generalizing n with
  | nil =>
    obtain ⟨n, rfl⟩ : ∃ m, n = m + 1 := ⟨n - 1, by omega⟩
    rfl
  | @cons ts c tss cs hc _ ih =>
    obtain ⟨g', parts, ts', hhead⟩ := hc.head
    have hpos : 0 < ts.length := by rw [hhead]; exact Nat.succ_pos _
    rw [flatten_cons, length_append] at hn
    obtain ⟨n, rfl⟩ : ∃ m, n = m + 1 := ⟨n - 1, by omega⟩
    have hstep : readElements (n + 1) (ts ++ (tss.flatten ++ .closing g :: rest)) =
        (readElement n (ts ++ (tss.flatten ++ .closing g :: rest))).bind fun r =>
          (readElements n r.2).bind fun r' => some (r.1 :: r'.1, r'.2) := by
      rw [hhead]
      rfl
    rw [flatten_cons, append_assoc, hstep, hc n _ (by omega), bind_some,
      ih n (by omega)]
    rfl

variable {texts : List Text}

theorem filtered_parts {cs : List Cond} (h : List.Forall₂ Filtered texts cs) :
    ∃ tss, Closed texts.flatten tss.flatten ∧ List.Forall₂ ReadsElement tss cs := by
  induction h with
  | nil => exact ⟨[], closed_nil, .nil⟩
  | cons hc _ ih =>
    obtain ⟨ts, hclosed, hreads⟩ := hc
    obtain ⟨tss, hcloseds, hreadss⟩ := ih
    exact ⟨ts :: tss, hclosed.append hcloseds, forall₂_cons.mpr ⟨hreads, hreadss⟩⟩

theorem isTag_and : ∃ parts, IsTag "And".toList xmlns .and parts :=
  isTag_xmlns (by decide) (by decide)

theorem isTag_or : ∃ parts, IsTag "Or".toList xmlns .or parts :=
  isTag_xmlns (by decide) (by decide)

theorem isTag_not : ∃ parts, IsTag "Not".toList xmlns .not parts :=
  isTag_xmlns (by decide) (by decide)

theorem filtered_and {cs : List Cond} (h : List.Forall₂ Filtered (text :: texts) (c :: cs)) :
    Filtered (element "And".toList xmlns (text :: texts).flatten) (joinCond .and c cs) := by
  obtain ⟨parts, htag⟩ := isTag_and
  obtain ⟨tss, hclosed, hreads⟩ := filtered_parts h
  refine ⟨_, closed_element htag hclosed, fun n rest hn => ?_⟩
  rw [cons_append, length_cons, length_append, length_singleton] at hn
  obtain ⟨n, rfl⟩ : ∃ m, n = m + 1 := ⟨n - 1, by omega⟩
  rw [cons_append, cons_append, append_assoc, singleton_append, readElement,
    readElements_append hreads .and rest n (by omega)]
  rfl

theorem filtered_or {cs : List Cond} (h : List.Forall₂ Filtered (text :: texts) (c :: cs)) :
    Filtered (element "Or".toList xmlns (text :: texts).flatten) (joinCond .or c cs) := by
  obtain ⟨parts, htag⟩ := isTag_or
  obtain ⟨tss, hclosed, hreads⟩ := filtered_parts h
  refine ⟨_, closed_element htag hclosed, fun n rest hn => ?_⟩
  rw [cons_append, length_cons, length_append, length_singleton] at hn
  obtain ⟨n, rfl⟩ : ∃ m, n = m + 1 := ⟨n - 1, by omega⟩
  rw [cons_append, cons_append, append_assoc, singleton_append, readElement,
    readElements_append hreads .or rest n (by omega)]
  rfl

theorem filtered_not (h : Filtered text c) :
    Filtered (element "Not".toList xmlns text) (.not c) := by
  obtain ⟨parts, htag⟩ := isTag_not
  obtain ⟨ts, hclosed, hreads⟩ := h
  refine ⟨_, closed_element htag hclosed, fun n rest hn => ?_⟩
  rw [cons_append, length_cons, length_append, length_singleton] at hn
  obtain ⟨n, rfl⟩ : ∃ m, n = m + 1 := ⟨n - 1, by omega⟩
  rw [cons_append, cons_append, append_assoc, singleton_append, readElement, hreads n _ (by omega)]
  rfl

/-! ## Tests -/

theorem isTag_propertyName : IsTag "PropertyName".toList [] .propertyName [] :=
  isTag_plain (by decide) (by decide)

theorem isTag_literal : IsTag "Literal".toList [] .literal [] :=
  isTag_plain (by decide) (by decide)

theorem isTag_compare (op : CmpOp) : ∃ parts, IsTag op.fes xmlns (.compare op) parts := by
  cases op <;> exact isTag_xmlns (by decide +kernel) (by decide +kernel)

/-- The tokens of an element with a text. -/
def contentTokens (g : FesTag) (s : Text) : List FesToken :=
  .opening g [] :: charTokens s ++ [.closing g]

theorem readContent_tokens (g : FesTag) (s : Text) (rest : List FesToken) :
    readContent g (contentTokens g s ++ rest) = some (String.ofList s, rest) := by
  unfold contentTokens charTokens
  by_cases hs : s = []
  · subst hs
    simp [readContent]
  · simp [hs, readContent]

theorem closed_propertyName (f : FieldName) :
    Closed (propertyName F f) (contentTokens .propertyName f.val.toList) := by
  have hcontent := closed_content isTag_propertyName f.val.toList
  exact hcontent

/-- The text of a literal in a filter. -/
def fesText (F : Floats) (v : Scalar) : String := if v = .null then "" else pyStr F v

theorem closed_literal (v : Scalar) :
    Closed (literalOf F v) (contentTokens .literal (fesText F v).toList) := by
  have hcontent := closed_content isTag_literal (fesText F v).toList
  have htext : fesValue F v = (fesText F v).toList.flatMap xmlEscapeChar := by
    unfold fesValue fesText
    split <;> rfl
  unfold literalOf
  rw [htext]
  exact hcontent

theorem filtered_null (f : FieldName) : Filtered (fesNull F f false) (nullCond f.val false) := by
  obtain ⟨parts, htag⟩ : ∃ parts, IsTag "PropertyIsNull".toList xmlns .isNull parts :=
    isTag_xmlns (by decide) (by decide)
  refine ⟨_, closed_element htag (closed_propertyName f), fun n rest hn => ?_⟩
  rw [cons_append, length_cons] at hn
  obtain ⟨n, rfl⟩ : ∃ m, n = m + 1 := ⟨n - 1, by omega⟩
  rw [cons_append, cons_append, append_assoc, singleton_append, readElement,
    readContent_tokens, String.ofList_toList]
  rfl

theorem filtered_compareAs (op : CmpOp) (f : FieldName) (v : Scalar) :
    Filtered (element op.fes xmlns (propertyName F f ++ literalOf F v))
      (.compareAs op (.column f.val) (fesText F v)) := by
  obtain ⟨parts, htag⟩ := isTag_compare op
  refine ⟨_, closed_element htag ((closed_propertyName f).append (closed_literal v)),
    fun n rest hn => ?_⟩
  rw [cons_append, length_cons] at hn
  obtain ⟨n, rfl⟩ : ∃ m, n = m + 1 := ⟨n - 1, by omega⟩
  rw [cons_append, cons_append, append_assoc, append_assoc,
    singleton_append, readElement, readContent_tokens, String.ofList_toList]
  dsimp only [bind_eq_bind, bind_some]
  rw [readContent_tokens, String.ofList_toList]
  dsimp only [bind_some]
  rw [if_pos rfl]

theorem filtered_compare {op : CmpOp} {f : FieldName} {v : Scalar}
    (h : ¬ (op = .ne ∧ v = .null)) : Filtered (fesCompare F op f v) (fesCond F op f.val v) := by
  unfold fesCompare fesCond
  by_cases heq : op = .eq ∧ v = .null
  · rw [if_pos heq, if_pos heq]
    exact filtered_null f
  · rw [if_neg heq, if_neg heq, if_neg h, if_neg h]
    exact filtered_compareAs op f v

theorem filtered_like (f : FieldName) (p : Pattern) :
    Filtered (fesLeaf F (.like f p)) (leafCond F .fes (.like f p)) := by
  obtain ⟨parts, htag, hescape⟩ : ∃ parts, IsTag "PropertyIsLike".toList
      (xmlns ++ " wildCard=\"%\" singleChar=\"_\" escapeChar=\"!\"".toList) .like parts ∧
      likeEscape parts = some (some '!') := ⟨_,
        isTag_attributes (by decide) (by decide) (by decide), rfl⟩
  refine ⟨_, closed_element htag ((closed_propertyName f).append (closed_literal (.str p.val))),
    fun n rest hn => ?_⟩
  rw [cons_append, length_cons] at hn
  obtain ⟨n, rfl⟩ : ∃ m, n = m + 1 := ⟨n - 1, by omega⟩
  rw [cons_append, cons_append, append_assoc, append_assoc, singleton_append, readElement, hescape]
  dsimp only [bind_eq_bind, bind_some]
  rw [readContent_tokens, String.ofList_toList]
  dsimp only [bind_some]
  rw [readContent_tokens, String.ofList_toList]
  rfl

theorem closed_boundary {g : FesTag} (htag : IsTag tag [] g []) (v : Scalar) :
    Closed (element tag [] (literalOf F v))
      (.opening g [] :: contentTokens .literal (fesText F v).toList ++ [.closing g]) :=
  closed_element htag (closed_literal v)

theorem readBoundary_tokens (g : FesTag) (s : String) (rest : List FesToken) :
    readBoundary g (.opening g [] :: contentTokens .literal s.toList ++ [.closing g] ++ rest) =
      some (s, rest) := by
  rw [append_assoc, cons_append, singleton_append, readBoundary,
    readContent_tokens, String.ofList_toList]
  dsimp only [bind_eq_bind, bind_some]
  rw [if_pos ⟨rfl, rfl⟩]

theorem fesText_bound (v : Bound) : fesText F v.val = pyStr F v.val := by
  refine if_neg fun h => ?_
  have := v.property
  rw [h] at this
  cases this

theorem filtered_between (f : FieldName) (lo hi : Bound) :
    Filtered (fesLeaf F (.between f lo hi)) (leafCond F .fes (.between f lo hi)) := by
  obtain ⟨parts, htag⟩ : ∃ parts, IsTag "PropertyIsBetween".toList xmlns .between parts :=
    isTag_xmlns (by decide) (by decide)
  have hlower : IsTag "LowerBoundary".toList [] .lower [] :=
    isTag_plain (by decide) (by decide)
  have hupper : IsTag "UpperBoundary".toList [] .upper [] :=
    isTag_plain (by decide) (by decide)
  refine ⟨_, closed_element htag (((closed_propertyName f).append
    (closed_boundary hlower lo.val)).append (closed_boundary hupper hi.val)), fun n rest hn => ?_⟩
  rw [cons_append, length_cons] at hn
  obtain ⟨n, rfl⟩ : ∃ m, n = m + 1 := ⟨n - 1, by omega⟩
  rw [cons_append, cons_append, append_assoc, append_assoc, append_assoc,
    singleton_append, readElement, readContent_tokens, String.ofList_toList]
  dsimp only [bind_eq_bind, bind_some]
  rw [readBoundary_tokens]
  dsimp only [bind_some]
  rw [readBoundary_tokens, fesText_bound, fesText_bound]
  rfl

/-- The test is for a value that is not NULL, or needs such a test. -/
def Leaf.testsNotNull : Leaf → Bool
  | compare op _ v => op = .ne && v = .null
  | notIn _ vs => .null ∈ vs.val
  | isNull _ negated => negated
  | _ => false

theorem filtered_fesLeaf {l : Leaf} (h : l.testsNotNull = false) :
    Filtered (fesLeaf F l) (leafCond F .fes l) := by
  cases l with
  | compare op f v => exact filtered_compare (by simpa [Leaf.testsNotNull] using h)
  | isIn f vs =>
    obtain ⟨vs, hvs⟩ := vs
    cases vs with
    | nil => exact absurd hvs.1 (by decide)
    | cons v vs =>
      have hall : List.Forall₂ Filtered (fesCompare F .eq f v :: vs.map (fesCompare F .eq f))
          (fesCond F .eq f.val v :: vs.map (fesCond F .eq f.val)) := by
        rw [← map_cons, ← map_cons, forall₂_map_left_iff, forall₂_map_right_iff]
        exact forall₂_same.mpr fun w _ => filtered_compare (by nofun)
      exact filtered_or hall
  | notIn f vs =>
    obtain ⟨vs, hvs⟩ := vs
    cases vs with
    | nil => exact absurd hvs.1 (by decide)
    | cons v vs =>
      have hnull : .null ∉ v :: vs := by simpa [Leaf.testsNotNull] using h
      have hall : List.Forall₂ Filtered (fesCompare F .ne f v :: vs.map (fesCompare F .ne f))
          (fesCond F .ne f.val v :: vs.map (fesCond F .ne f.val)) := by
        rw [← map_cons, ← map_cons, forall₂_map_left_iff, forall₂_map_right_iff]
        refine forall₂_same.mpr fun w hw => filtered_compare ?_
        rintro ⟨-, rfl⟩
        exact hnull hw
      exact filtered_and hall
  | between f lo hi => exact filtered_between f lo hi
  | like f p => exact filtered_like f p
  | isNull f negated =>
    obtain rfl : negated = false := h
    exact filtered_null f

theorem compileFesArgs_eq (ps : List Predicate) :
    compileFesArgs F ps = (ps.map (compilePredicateFes F)).flatten := by
  induction ps with
  | nil => rfl
  | cons p ps ih => rw [compileFesArgs, ih, map_cons, flatten_cons]

theorem leavesOf_eq (ps : List Predicate) :
    leavesOf ps = ps.flatMap Predicate.leaves := by
  induction ps with
  | nil => rfl
  | cons p ps ih => rw [leavesOf, ih, flatMap_cons]

/-- What a server reads in the filter of a predicate without tests for values that are not
    NULL. -/
theorem filtered_fes {p : Predicate} (h : ∀ l ∈ p.leaves, l.testsNotNull = false) :
    Filtered (compilePredicateFes F p) (treeCond (leafCond F .fes) p) := by
  have hparts : ∀ (p : Predicate) (ps : List Predicate),
      (∀ q ∈ p :: ps, (∀ l ∈ q.leaves, l.testsNotNull = false) →
        Filtered (compilePredicateFes F q) (treeCond (leafCond F .fes) q)) →
      (∀ l ∈ p.leaves ++ leavesOf ps, l.testsNotNull = false) →
      List.Forall₂ Filtered (compilePredicateFes F p :: ps.map (compilePredicateFes F))
        (treeCond (leafCond F .fes) p :: treeConds (leafCond F .fes) ps) := by
    intro p ps ih h
    rw [treeConds_eq, ← map_cons, ← map_cons, forall₂_map_left_iff, forall₂_map_right_iff]
    refine forall₂_same.mpr fun q hq => ih q hq fun l hl => h l ?_
    rw [leavesOf_eq]
    obtain rfl | hq := mem_cons.mp hq
    · exact mem_append_left _ hl
    · exact mem_append_right _ (mem_flatMap.mpr ⟨q, hq, hl⟩)
  induction p using Predicate.tree_induct with
  | leaf l => exact filtered_fesLeaf (h l (mem_singleton_self l))
  | and p ps ih =>
    have := filtered_and (hparts p ps ih h)
    rw [flatten_cons, ← compileFesArgs_eq] at this
    exact this
  | or p ps ih =>
    have := filtered_or (hparts p ps ih h)
    rw [flatten_cons, ← compileFesArgs_eq] at this
    exact this
  | not p ih => exact filtered_not (ih h)

end WebGis.Query
