/-
  How a filter in FES is read: the elements of an XML text, and the condition that they spell.

  Only the elements of the standard have a meaning; there is one that tests for NULL, and none that
  tests for anything else. A literal is a text, and is read with the type of the property that it
  is compared with.

  What the compilers write spells the condition of the predicate.

  The condition has the tree of the predicate, with what each dialect makes of a test at its leaves.
  A where clause has to have names that are no keywords.
-/
import WebGis.Data.Outcome
import WebGis.Query.Spelled
import WebGis.Query.Where

namespace WebGis.Query

open Data List Option

/-- The elements of a filter. -/
inductive FesTag where
  | and | or | not | isNull | like | between | lower | upper | propertyName | literal
  | compare (op : CmpOp)
  deriving DecidableEq

/-- The element with a name. -/
def fesTag? (name : Text) : Option FesTag :=
  if name = "ogc:And".toList then some .and
  else if name = "ogc:Or".toList then some .or
  else if name = "ogc:Not".toList then some .not
  else if name = "ogc:PropertyIsNull".toList then some .isNull
  else if name = "ogc:PropertyIsLike".toList then some .like
  else if name = "ogc:PropertyIsBetween".toList then some .between
  else if name = "ogc:LowerBoundary".toList then some .lower
  else if name = "ogc:UpperBoundary".toList then some .upper
  else if name = "ogc:PropertyName".toList then some .propertyName
  else if name = "ogc:Literal".toList then some .literal
  else if name = "ogc:PropertyIsEqualTo".toList then some (.compare .eq)
  else if name = "ogc:PropertyIsNotEqualTo".toList then some (.compare .ne)
  else if name = "ogc:PropertyIsGreaterThan".toList then some (.compare .gt)
  else if name = "ogc:PropertyIsGreaterThanOrEqualTo".toList then some (.compare .ge)
  else if name = "ogc:PropertyIsLessThan".toList then some (.compare .lt)
  else if name = "ogc:PropertyIsLessThanOrEqualTo".toList then some (.compare .le)
  else none

inductive FesToken where
  | opening (tag : FesTag) (attributes : List Text)
  | closing (tag : FesTag)
  | chars (s : Text)

/-- The entity that a text begins with, and how many characters it has after the first. -/
def entity? (cs : Text) : Option (Char × Nat) :=
  if "&amp;".toList.isPrefixOf cs then some ('&', 4)
  else if "&gt;".toList.isPrefixOf cs then some ('>', 3)
  else if "&lt;".toList.isPrefixOf cs then some ('<', 3)
  else if "&quot;".toList.isPrefixOf cs then some ('"', 5)
  else if "&apos;".toList.isPrefixOf cs then some ('\'', 5)
  else none

/-- The text that the entities stand for, after some characters of an entity. -/
def unescapeFrom : Nat → Text → Text
  | _, [] => []
  | n + 1, _ :: cs => unescapeFrom n cs
  | 0, c :: cs =>
    match entity? (c :: cs) with
    | some (d, n) => d :: unescapeFrom n cs
    | none => c :: unescapeFrom 0 cs

def unescapeXml (cs : Text) : Text := unescapeFrom 0 cs

/-- The parts of a start tag. -/
def tagParts : Text → List Text
  | [] => [[]]
  | c :: cs =>
    if c = ' ' then [] :: tagParts cs
    else
      match tagParts cs with
      | [] => [[c]]
      | part :: parts => (c :: part) :: parts

/-- What stands between `<` and `>`. -/
def tagToken : Text → Option FesToken
  | '/' :: name => (fesTag? name).map .closing
  | cs => (fesTag? ((tagParts cs).headD [])).map fun tag => .opening tag (tagParts cs).tail

/-- Where a scanner of XML is. -/
inductive XmlMode where
  | content (acc : Text)
  | tag (acc : Text)

def XmlMode.flush : XmlMode → Option (List FesToken)
  | content acc => some (if acc = [] then [] else [.chars (unescapeXml acc)])
  | tag _ => none

def XmlMode.step : XmlMode → Char → Option (XmlMode × List FesToken)
  | content acc, c =>
    if c = '<' then ((content acc).flush).map fun ts => (.tag [], ts)
    else some (.content (acc ++ [c]), [])
  | tag acc, c =>
    if c = '>' then (tagToken acc).map fun t => (.content [], [t])
    else some (.tag (acc ++ [c]), [])

/-- The scanner of filters. -/
def fesScanner : Scanner XmlMode FesToken where
  start := .content []
  step := XmlMode.step
  flush := XmlMode.flush

/-- The text of an element that has nothing else. -/
def readContent (tag : FesTag) : List FesToken → Option (String × List FesToken)
  | .opening t _ :: .chars s :: .closing t' :: ts =>
    if t = tag ∧ t' = tag then some (String.ofList s, ts) else none
  | .opening t _ :: .closing t' :: ts => if t = tag ∧ t' = tag then some ("", ts) else none
  | _ => none

/-- A literal in an element of its own. -/
def readBoundary (tag : FesTag) : List FesToken → Option (String × List FesToken)
  | .opening t _ :: ts => do
      match ← readContent .literal ts with
      | (s, .closing t' :: ts) => if t = tag ∧ t' = tag then some (s, ts) else none
      | _ => none
  | _ => none

/-- The value of an attribute. -/
def attrValue (key : Text) (attributes : List Text) : Option Text :=
  attributes.findSome? fun part =>
    if (key ++ "=\"".toList).isPrefixOf part then some (part.drop (key.length + 2)).dropLast
    else none

/-- The escape character of a pattern, where the wildcards are `%` and `_`. -/
def likeEscape (attributes : List Text) : Option (Option Char) := do
  let wild ← attrValue "wildCard".toList attributes
  let single ← attrValue "singleChar".toList attributes
  let escape ← attrValue "escapeChar".toList attributes
  if wild = ['%'] ∧ single = ['_'] then some escape.head? else none

mutual

/-- An element and what is in it. -/
def readElement : Nat → List FesToken → Option (Cond × List FesToken)
  | 0, _ => none
  | n + 1, .opening .and _ :: ts => do
      match ← readElements n ts with
      | (c :: cs, .closing .and :: ts) => some (joinCond .and c cs, ts)
      | _ => none
  | n + 1, .opening .or _ :: ts => do
      match ← readElements n ts with
      | (c :: cs, .closing .or :: ts) => some (joinCond .or c cs, ts)
      | _ => none
  | n + 1, .opening .not _ :: ts => do
      match ← readElement n ts with
      | (c, .closing .not :: ts) => some (.not c, ts)
      | _ => none
  | _ + 1, .opening .isNull _ :: ts => do
      match ← readContent .propertyName ts with
      | (name, .closing .isNull :: ts) => some (.isNull (.column name), ts)
      | _ => none
  | _ + 1, .opening (.compare op) _ :: ts => do
      let (name, ts) ← readContent .propertyName ts
      match ← readContent .literal ts with
      | (s, .closing tag :: ts) =>
        if tag = .compare op then some (.compareAs op (.column name) s, ts) else none
      | _ => none
  | _ + 1, .opening .like attributes :: ts => do
      let escape ← likeEscape attributes
      let (name, ts) ← readContent .propertyName ts
      match ← readContent .literal ts with
      | (s, .closing .like :: ts) => some (.like escape (.column name) (.value (some (.text s))), ts)
      | _ => none
  | _ + 1, .opening .between _ :: ts => do
      let (name, ts) ← readContent .propertyName ts
      let (lo, ts) ← readBoundary .lower ts
      match ← readBoundary .upper ts with
      | (hi, .closing .between :: ts) =>
        some (.and (.compareAs .ge (.column name) lo) (.compareAs .le (.column name) hi), ts)
      | _ => none
  | _ + 1, _ => none

/-- The elements before a closing tag. -/
def readElements : Nat → List FesToken → Option (List Cond × List FesToken)
  | 0, _ => none
  | _ + 1, .closing tag :: ts => some ([], .closing tag :: ts)
  | n + 1, ts => do
      let (c, ts) ← readElement n ts
      let (cs, ts) ← readElements n ts
      some (c :: cs, ts)

end

/-- A filter, as a server reads it. -/
def readFes (text : Text) : Option Cond := do
  let ts ← fesScanner.scan text
  match ← readElement (2 * ts.length) ts with
  | (c, []) => some c
  | _ => none

open Data Scanner

inductive Dialect where
  | sql | cql2 | arcgis | fes
  deriving DecidableEq

/-! ## Conditions -/

/-- A value in a condition. -/
def valueOf (v : Scalar) : Operand := .value v.datum

/-- `IS NULL` or `IS NOT NULL` -/
def nullCond (name : String) (negated : Bool) : Cond :=
  if negated then .not (.isNull (.column name)) else .isNull (.column name)

/-- A comparison in a where clause. -/
def compareCond (op : CmpOp) (name : String) (v : Scalar) : Cond :=
  if op = .eq ∧ v = .null then nullCond name false
  else if op = .ne ∧ v = .null then nullCond name true
  else .compare op (.column name) (valueOf v)

/-- A comparison in a filter. -/
def fesCond (F : Floats) (op : CmpOp) (name : String) (v : Scalar) : Cond :=
  if op = .eq ∧ v = .null then nullCond name false
  else if op = .ne ∧ v = .null then nullCond name true
  else .compareAs op (.column name) (if v = .null then "" else pyStr F v)

def betweenCond (name : String) (low high : Operand) : Cond :=
  .and (.compare .ge (.column name) low) (.compare .le (.column name) high)

/-- The condition of a test. -/
def leafCond (F : Floats) : Dialect → Leaf → Cond
  | .fes, .compare op f v => fesCond F op f.val v
  | _, .compare op f v => compareCond op f.val v
  | .fes, .isIn f vs =>
    match vs.val with
    | [] => .or (.isNull (.column f.val)) (.isNull (.column f.val))
    | v :: vs => joinCond .or (fesCond F .eq f.val v) (vs.map (fesCond F .eq f.val))
  | _, .isIn f vs => .anyOf .eq (.column f.val) (vs.val.map valueOf)
  | .sql, .notIn f vs => .allOf .ne (.column f.val) (vs.val.map valueOf)
  | .fes, .notIn f vs =>
    match vs.val with
    | [] => .or (.isNull (.column f.val)) (.isNull (.column f.val))
    | v :: vs => joinCond .and (fesCond F .ne f.val v) (vs.map (fesCond F .ne f.val))
  | _, .notIn f vs => .not (.anyOf .eq (.column f.val) (vs.val.map valueOf))
  | .fes, .between f lo hi =>
    .and (.compareAs .ge (.column f.val) (pyStr F lo.val))
      (.compareAs .le (.column f.val) (pyStr F hi.val))
  | _, .between f lo hi => betweenCond f.val (valueOf lo.val) (valueOf hi.val)
  | .sql, .like f p => .like (some '\\') (.column f.val) (.value (some (.text p.val)))
  | .cql2, .like f p => .like (some '\\') (.column f.val) (.value (some (.text p.val)))
  | .arcgis, .like f p =>
    .like none (.upper (.column f.val)) (.upper (.value (some (.text p.val))))
  | .fes, .like f p => .like (some '!') (.column f.val) (.value (some (.text p.val)))
  | _, .isNull f negated => nullCond f.val negated

mutual

/-- The condition of a predicate. -/
def treeCond (leaf : Leaf → Cond) : Predicate → Cond
  | .leaf l => leaf l
  | .and p ps => joinCond .and (treeCond leaf p) (treeConds leaf ps)
  | .or p ps => joinCond .or (treeCond leaf p) (treeConds leaf ps)
  | .not p => .not (treeCond leaf p)

def treeConds (leaf : Leaf → Cond) : List Predicate → List Cond
  | [] => []
  | p :: ps => treeCond leaf p :: treeConds leaf ps

end

theorem treeConds_eq (leaf : Leaf → Cond) (ps : List Predicate) :
    treeConds leaf ps = ps.map (treeCond leaf) := by
  induction ps with
  | nil => rfl
  | cons p ps ih => rw [treeConds, ih, map_cons]

/-! ## Tests in where clauses -/

variable {S : Reader} {esc : Option Char}

theorem readPrimary_lit (v : Scalar) (rest : List Token) :
    readPrimary (litToken v :: rest) = some (valueOf v, rest) := by
  cases v with
  | bool b => cases b <;> rfl
  | str s =>
    change some (Operand.value (some (.text (String.ofList s.toList))), rest) = _
    rw [String.ofList_toList]
    rfl
  | null | int _ | float _ => rfl

theorem readOperand_lit (v : Scalar) (rest : List Token) :
    readOperand (litToken v :: rest) = some (valueOf v, rest) := by
  rw [← readPrimary_lit]
  cases v <;> rfl

theorem readRight_lit (op : CmpOp) (a : Operand) (v : Scalar) (rest : List Token) :
    readRight op a (litToken v :: rest) = some (.compare op a (valueOf v), rest) := by
  have hright : readRight op a (litToken v :: rest) =
      (readOperand (litToken v :: rest)).bind fun r => some (.compare op a r.1, r.2) := by
    cases v <;> rfl
  rw [hright, readOperand_lit]
  rfl

theorem litToken_ne_hole (v : Scalar) : litToken v ≠ .hole := by
  cases v <;> intro h <;> cases h

/-- The tokens of a list, with the parenthesis that closes it. -/
def itemTokens : Scalar → List Scalar → List Token
  | v, [] => [litToken v, .closing]
  | v, w :: vs => litToken v :: .comma :: itemTokens w vs

theorem readItems_lit (v : Scalar) (vs : List Scalar) (rest : List Token) (n : Nat)
    (hn : vs.length < n) :
    readItems n (itemTokens v vs ++ rest) = some ((v :: vs).map valueOf, rest) := by
  induction vs generalizing v n with
  | nil =>
    obtain ⟨n, rfl⟩ : ∃ m, n = m + 1 := ⟨n - 1, by omega⟩
    rw [itemTokens, cons_append, readItems, readOperand_lit]
    rfl
  | cons w vs ih =>
    obtain ⟨n, rfl⟩ : ∃ m, n = m + 1 := ⟨n - 1, by omega⟩
    rw [itemTokens, cons_append, cons_append, readItems, readOperand_lit]
    dsimp only [bind_eq_bind, bind_some]
    rw [ih w n (by rw [length_cons] at hn; omega)]
    rfl

theorem length_itemTokens (v : Scalar) (vs : List Scalar) :
    vs.length < (itemTokens v vs).length := by
  induction vs generalizing v with
  | nil => simp [itemTokens]
  | cons w vs ih =>
    have := ih w
    simp only [itemTokens, length_cons]
    omega

theorem binds_items (v : Scalar) (vs : List Scalar) :
    Binds (itemTokens v vs) [] (itemTokens v vs) := by
  induction vs generalizing v with
  | nil =>
    exact (binds_of_ne (litToken_ne_hole v)).append (binds_of_ne (by intro h; cases h))
  | cons w vs ih =>
    exact (binds_of_ne (litToken_ne_hole v)).append
      ((binds_of_ne (t := .comma) (by intro h; cases h)).append (ih w))

variable {t : Text} {vs : List Scalar}

theorem scans_items {v : Scalar} {ts : List Text}
    (h : List.Forall₂ (fun v t => (whereScanner S).Scans t [litToken v]) (v :: vs) (t :: ts)) :
    (whereScanner S).Scans (joinTexts ", ".toList (t :: ts) ++ [')']) (itemTokens v vs) := by
  have hcomma : (whereScanner S).run (whereScanner S).start ", ".toList =
      some ((whereScanner S).start, [.comma]) := rfl
  induction vs generalizing v t ts with
  | nil =>
    obtain ⟨hv, hnil⟩ := forall₂_cons.mp h
    obtain rfl := forall₂_nil_left_iff.mp hnil
    have hclose : (whereScanner S).Scans [')'] [.closing] := rfl
    simpa [joinTexts, List.intercalate, itemTokens] using hv.append breaks_closing hclose
  | cons w vs ih =>
    obtain ⟨hv, htail⟩ := forall₂_cons.mp h
    obtain ⟨u, us, hw, hrest, rfl⟩ := forall₂_cons_left_iff.mp htail
    have hrec := Scans.after hcomma (ih (forall₂_cons.mpr ⟨hw, hrest⟩))
    have hsplit : joinTexts ", ".toList (t :: u :: us) ++ [')'] =
        t ++ (", ".toList ++ (joinTexts ", ".toList (u :: us) ++ [')'])) := by
      simp [joinTexts, List.intercalate, List.intersperse]
    rw [hsplit, itemTokens]
    exact hv.append breaks_comma hrec
theorem spells_of_test {us : List Token} {c : Cond} {t : Token} (hnot : t ≠ .key .not)
    (hopen : t ≠ .opening) (h : ∀ rest, readTest esc (t :: us ++ rest) = some (c, rest)) :
    Spells esc (t :: us) c := by
  intro n rest hn
  rw [length_cons] at hn
  obtain ⟨n, rfl⟩ : ∃ m, n = m + 1 := ⟨n - 1, by omega⟩
  rw [← h rest, cons_append]
  cases t with
  | key k =>
    cases k with
    | not => exact absurd rfl hnot
    | _ => rfl
  | opening => exact absurd rfl hopen
  | _ => rfl

/-! ## PostGIS SQL -/

section

variable (f : FieldName) {tail : Text} {ts us : List Token} {ps : List Param} (c : String → Cond)

theorem spelled_quoted (hscan : (whereScanner S).Scans (' ' :: tail) ts) (hbind : Binds ts ps us)
    (h : ∀ s rest, readTest esc (.name s :: us ++ rest) = some (c (String.ofList s), rest)) :
    Spelled S esc (quoteIdent f ++ ' ' :: tail, ps) (c f.val) := by
  have hname : Binds [.name f.val.toList] [] [.name f.val.toList] :=
    binds_of_ne (by intro h; cases h)
  refine ⟨_, _, (scans_quoteIdent f).append breaks_blank hscan, hname.append hbind,
    spells_of_test (by intro h; cases h) (by intro h; cases h) fun rest => ?_⟩
  have hread := h f.val.toList rest
  rw [String.ofList_toList] at hread
  exact hread

theorem spelled_word (hf : isPlainName f.val)
    (hscan : (whereScanner S).Scans (' ' :: tail) ts) (hbind : Binds ts ps us)
    (h : ∀ w rest, readTest esc (.word w :: us ++ rest) = some (c (String.ofList w), rest)) :
    Spelled S esc (f.val.toList ++ ' ' :: tail, ps) (c f.val) := by
  have hname : Binds [.word f.val.toList] [] [.word f.val.toList] :=
    binds_of_ne (by intro h; cases h)
  refine ⟨_, _, (scans_word hf).append breaks_blank hscan, hname.append hbind,
    spells_of_test (by intro h; cases h) (by intro h; cases h) fun rest => ?_⟩
  have hread := h f.val.toList rest
  rw [String.ofList_toList] at hread
  exact hread

end

theorem binds_cons {t : Token} {ts us : List Token} {ps : List Param} (h : t ≠ .hole)
    (hs : Binds ts ps us) : Binds (t :: ts) ps (t :: us) :=
  (binds_of_ne h).append hs

theorem binds_param (p : Param) {ts us : List Token} {ps : List Param} (hs : Binds ts ps us) :
    Binds (.hole :: ts) (p :: ps) (.bound p :: us) :=
  (binds_hole p).append hs

theorem scans_sql_sign (op : CmpOp) :
    (whereScanner S).Scans (' ' :: (op.sql ++ " %s".toList)) [.mark op, .hole] := by
  cases op <;> rfl

theorem binds_null :
    Binds [.key .is, .key .null] [] [.key .is, .key .null] := by
  refine binds_cons ?_ (binds_cons ?_ binds_nil) <;> nofun

theorem binds_not_null :
    Binds [.key .is, .key .not, .key .null] [] [.key .is, .key .not, .key .null] := by
  refine binds_cons ?_ (binds_cons ?_ (binds_cons ?_ binds_nil)) <;> nofun

theorem spelled_is_null (f : FieldName) :
    Spelled S esc (quoteIdent f ++ " IS NULL".toList, []) (nullCond f.val false) := by
  have hscan : (whereScanner S).Scans " IS NULL".toList [.key .is, .key .null] := rfl
  exact spelled_quoted f (fun name => nullCond name false) hscan binds_null fun _ _ => rfl

theorem spelled_is_not_null (f : FieldName) :
    Spelled S esc (quoteIdent f ++ " IS NOT NULL".toList, []) (nullCond f.val true) := by
  have hscan : (whereScanner S).Scans " IS NOT NULL".toList
      [.key .is, .key .not, .key .null] := rfl
  exact spelled_quoted f (fun name => nullCond name true) hscan binds_not_null fun _ _ => rfl

variable (esc) in
theorem spelled_array (f : FieldName) {op : CmpOp} {w : Text} {tail : Text} (vs : List Scalar)
    (c : String → Cond)
    (hscan : (whereScanner S).Scans (' ' :: tail) [.mark op, .word w, .opening, .hole, .closing])
    (h : ∀ s rest, readTest esc
      (.name s :: [.mark op, .word w, .opening, .bound (.many vs), .closing] ++ rest) =
        some (c (String.ofList s), rest)) :
    Spelled S esc (quoteIdent f ++ ' ' :: tail, [.many vs]) (c f.val) := by
  have hbind : Binds [.mark op, .word w, .opening, .hole, .closing] [.many vs]
      [.mark op, .word w, .opening, .bound (.many vs), .closing] := by
    refine binds_cons ?_ (binds_cons ?_ (binds_cons ?_ (binds_param _
      (binds_cons ?_ binds_nil)))) <;> nofun
  exact spelled_quoted f c hscan hbind h

theorem spelled_sqlLeaf (l : Leaf) :
    Spelled S (some '\\') (sqlLeaf l) (leafCond S.floats .sql l) := by
  cases l with
  | compare op f v =>
    unfold sqlLeaf
    dsimp only [leafCond, compareCond, Leaf.field]
    by_cases heq : op = .eq ∧ v = .null
    · rw [if_pos heq, if_pos heq]
      exact spelled_is_null f
    · rw [if_neg heq, if_neg heq]
      by_cases hne : op = .ne ∧ v = .null
      · rw [if_pos hne, if_pos hne]
        exact spelled_is_not_null f
      · have hbind : Binds [.mark op, .hole] [.one v] [.mark op, .bound (.one v)] := by
          exact binds_cons (by simp) (binds_param _ binds_nil)
        rw [if_neg hne, if_neg hne, append_assoc, cons_append]
        exact spelled_quoted f (fun name => .compare op (.column name) (valueOf v))
          (scans_sql_sign op) hbind fun _ _ => rfl
  | isIn f vs =>
    have hscan : (whereScanner S).Scans " = ANY(%s)".toList
        [.mark .eq, .word "ANY".toList, .opening, .hole, .closing] := rfl
    exact spelled_array _ f vs.val (fun name => .anyOf .eq (.column name) (vs.val.map valueOf))
      hscan fun _ _ => rfl
  | notIn f vs =>
    have hscan : (whereScanner S).Scans " <> ALL(%s)".toList
        [.mark .ne, .word "ALL".toList, .opening, .hole, .closing] := rfl
    obtain ⟨ts, us, hscan, hbind, hspell⟩ := spelled_array (some '\\') f vs.val
      (fun name => .allOf .ne (.column name) (vs.val.map valueOf)) hscan fun _ _ => rfl
    refine ⟨_, _, ?_, binds_parens hbind, hspell.parens⟩
    have htext : (sqlLeaf (.notIn f vs)).1 =
        '(' :: (quoteIdent f ++ " <> ALL(%s)".toList) ++ [')'] := by
      simp [sqlLeaf, Leaf.field]
    rw [htext]
    exact scans_parens hscan
  | between f lo hi =>
    have hscan : (whereScanner S).Scans " BETWEEN %s AND %s".toList
        [.key .between, .hole, .key .and, .hole] := rfl
    have hbind : Binds [.key .between, .hole, .key .and, .hole] [.one lo.val, .one hi.val]
        [.key .between, .bound (.one lo.val), .key .and, .bound (.one hi.val)] := by
      exact binds_cons (by simp) (binds_param _ (binds_cons (by simp) (binds_param _ binds_nil)))
    exact spelled_quoted f (fun name => betweenCond name (valueOf lo.val) (valueOf hi.val))
      hscan hbind fun _ _ => rfl
  | like f p =>
    have hscan : (whereScanner S).Scans " LIKE %s".toList [.key .like, .hole] := rfl
    have hbind : Binds [.key .like, .hole] [.one (.str p.val)]
        [.key .like, .bound (.one (.str p.val))] := by
      exact binds_cons (by simp) (binds_param _ binds_nil)
    exact spelled_quoted f
      (fun name => .like (some '\\') (.column name) (.value (some (.text p.val))))
      hscan hbind fun _ _ => rfl
  | isNull f negated =>
    cases negated with
    | false =>
      have htext : sqlLeaf (.isNull f false) = (quoteIdent f ++ " IS NULL".toList, []) := by
        simp [sqlLeaf, Leaf.field]
      rw [htext]
      exact spelled_is_null f
    | true =>
      have htext : sqlLeaf (.isNull f true) =
          (quoteIdent f ++ " IS NOT NULL".toList, []) := by
        simp [sqlLeaf, Leaf.field]
      rw [htext]
      exact spelled_is_not_null f

theorem sqlNodes_eq (ps : List Predicate) : sqlNodes ps = ps.map sqlNode := by
  induction ps with
  | nil => rfl
  | cons p ps ih => rw [sqlNodes, ih, map_cons]

theorem spelled_sqlNode (p : Predicate) :
    Spelled S (some '\\') (sqlNode p) (treeCond (leafCond S.floats .sql) p) := by
  have hparts : ∀ p ps, (∀ q ∈ p :: ps, Spelled S (some '\\') (sqlNode q)
      (treeCond (leafCond S.floats .sql) q)) →
      List.Forall₂ (Spelled S (some '\\')) (sqlNode p :: sqlNodes ps)
        (treeCond (leafCond S.floats .sql) p :: treeConds (leafCond S.floats .sql) ps) := by
    intro p ps h
    rw [sqlNodes_eq, treeConds_eq, ← map_cons, ← map_cons,
      forall₂_map_left_iff, forall₂_map_right_iff]
    exact forall₂_same.mpr h
  induction p using Predicate.tree_induct with
  | leaf l => exact spelled_sqlLeaf l
  | and p ps ih => exact Spelled.and (hparts p ps ih)
  | or p ps ih => exact Spelled.or (hparts p ps ih)
  | not p ih => exact ih.not

/-! ## Where clauses -/

theorem scans_sign (op : CmpOp) {ts : List Token} (h : (whereScanner S).Scans t ts) :
    (whereScanner S).Scans (' ' :: (op.sign ++ ' ' :: t)) (.mark op :: ts) := by
  have hsign : (whereScanner S).Scans (' ' :: op.sign) [.mark op] := by
    cases op <;> rfl
  have hblank : (whereScanner S).run (whereScanner S).start [' '] =
      some ((whereScanner S).start, []) := rfl
  exact hsign.append breaks_blank (Scans.after hblank h)

theorem binds_lit (v : Scalar) : Binds [litToken v] [] [litToken v] :=
  binds_of_ne (litToken_ne_hole v)

variable {f : FieldName}

theorem spelled_word_null (hf : isPlainName f.val) :
    Spelled S esc (f.val.toList ++ " IS NULL".toList, []) (nullCond f.val false) := by
  have hscan : (whereScanner S).Scans " IS NULL".toList [.key .is, .key .null] := rfl
  exact spelled_word f (fun name => nullCond name false) hf hscan binds_null fun _ _ => rfl

theorem spelled_word_not_null (hf : isPlainName f.val) :
    Spelled S esc (f.val.toList ++ " IS NOT NULL".toList, []) (nullCond f.val true) := by
  have hscan : (whereScanner S).Scans " IS NOT NULL".toList
      [.key .is, .key .not, .key .null] := rfl
  exact spelled_word f (fun name => nullCond name true) hf hscan binds_not_null fun _ _ => rfl

variable (esc) in
theorem spelled_word_compare (hf : isPlainName f.val) (op : CmpOp) {v : Scalar}
    (h : (whereScanner S).Scans t [litToken v]) :
    Spelled S esc (f.val.toList ++ ' ' :: (op.sign ++ ' ' :: t), [])
      (.compare op (.column f.val) (valueOf v)) := by
  have hbind : Binds [.mark op, litToken v] [] [.mark op, litToken v] := by
    refine binds_cons ?_ (binds_lit v)
    nofun
  refine spelled_word f (fun name => .compare op (.column name) (valueOf v)) hf
    (scans_sign op h) hbind fun w rest => ?_
  exact readRight_lit op _ v rest

theorem spelled_word_between (hf : isPlainName f.val) {lo hi : Scalar} {s : Text}
    (hlo : (whereScanner S).Scans s [litToken lo]) (hhi : (whereScanner S).Scans t [litToken hi]) :
    Spelled S esc (f.val.toList ++ " BETWEEN ".toList ++ s ++ " AND ".toList ++ t, [])
      (betweenCond f.val (valueOf lo) (valueOf hi)) := by
  have hbind : Binds [.key .between, litToken lo, .key .and, litToken hi] []
      [.key .between, litToken lo, .key .and, litToken hi] := by
    refine binds_cons ?_ ((binds_lit lo).append (binds_cons ?_ (binds_lit hi))) <;> nofun
  have hbetween : (whereScanner S).run (whereScanner S).start " BETWEEN ".toList =
      some ((whereScanner S).start, [.key .between]) := rfl
  have hand : (whereScanner S).run (whereScanner S).start " AND ".toList =
      some ((whereScanner S).start, [.key .and]) := rfl
  have hscan : (whereScanner S).Scans (' ' :: ("BETWEEN ".toList ++ (s ++ (" AND ".toList ++ t))))
      [.key .between, litToken lo, .key .and, litToken hi] :=
    Scans.after hbetween (hlo.append breaks_blank (Scans.after hand hhi))
  have htext : f.val.toList ++ " BETWEEN ".toList ++ s ++ " AND ".toList ++ t =
      f.val.toList ++ ' ' :: ("BETWEEN ".toList ++ (s ++ (" AND ".toList ++ t))) := by simp
  rw [htext]
  refine spelled_word f (fun name => betweenCond name (valueOf lo) (valueOf hi)) hf hscan hbind
    fun w rest => ?_
  change (readOperand (litToken lo :: .key .and :: litToken hi :: rest)).bind _ = _
  rw [readOperand_lit, bind_some]
  change (readOperand (litToken hi :: rest)).bind _ = _
  rw [readOperand_lit]
  rfl

theorem quoteValue_items {ts : List Text} (h : vs.mapM (quoteValue S.floats) = .ok ts) :
    List.Forall₂ (fun v t => (whereScanner S).Scans t [litToken v]) vs ts := by
  refine (mapM_forall₂ h).imp fun v t hv => scans_quoteValue hv

theorem spelled_word_items (hf : isPlainName f.val) {ts : List Text} (hne : vs ≠ [])
    (h : vs.mapM (quoteValue S.floats) = .ok ts) (opening : Text) (keys : List Keyword)
    (c : String → Cond) (hopen : (whereScanner S).run (whereScanner S).start (' ' :: opening) =
      some ((whereScanner S).start, keys.map .key ++ [.opening]))
    (hread : ∀ w v vs' rest, vs = v :: vs' →
      readTest esc (.word w :: (keys.map .key ++ .opening :: itemTokens v vs') ++ rest) =
        some (c (String.ofList w), rest)) :
    Spelled S esc (f.val.toList ++ ' ' :: opening ++ joinTexts ", ".toList ts ++ [')'], [])
      (c f.val) := by
  obtain ⟨v, vs, rfl⟩ := exists_cons_of_ne_nil hne
  have hitems := quoteValue_items h
  obtain ⟨t, ts, hv, hvs, rfl⟩ := forall₂_cons_left_iff.mp hitems
  have hscan := Scans.after hopen (scans_items (forall₂_cons.mpr ⟨hv, hvs⟩))
  have hkeys : ∀ ks : List Keyword, Binds (ks.map .key ++ .opening :: itemTokens v vs) []
      (ks.map .key ++ .opening :: itemTokens v vs) := by
    intro ks
    induction ks with
    | nil => exact binds_cons (by nofun) (binds_items v vs)
    | cons k ks ih => exact binds_cons (by nofun) ih
  have htext : f.val.toList ++ ' ' :: opening ++ joinTexts ", ".toList (t :: ts) ++ [')'] =
      f.val.toList ++ ' ' :: (opening ++ (joinTexts ", ".toList (t :: ts) ++ [')'])) := by simp
  rw [append_assoc, singleton_append] at hscan
  rw [htext]
  exact spelled_word f c hf hscan (hkeys keys) fun w rest => hread w v vs rest rfl
theorem readItems_all (v : Scalar) (vs : List Scalar) (rest : List Token) :
    readItems (itemTokens v vs ++ rest).length (itemTokens v vs ++ rest) =
      some ((v :: vs).map valueOf, rest) := by
  refine readItems_lit v vs rest _ ?_
  rw [length_append]
  have := length_itemTokens v vs
  omega

section

variable (hf : isPlainName f.val = true)
include hf

theorem spelled_word_in {ts : List Text} (hne : vs ≠ [])
    (h : vs.mapM (quoteValue S.floats) = .ok ts) :
    Spelled S esc (f.val.toList ++ " IN (".toList ++ joinTexts ", ".toList ts ++ [')'], [])
      (.anyOf .eq (.column f.val) (vs.map valueOf)) := by
  refine spelled_word_items hf hne h "IN (".toList [.isIn]
    (fun name => .anyOf .eq (.column name) (vs.map valueOf)) rfl ?_
  rintro w v vs' rest rfl
  change (readItems (itemTokens v vs' ++ rest).length (itemTokens v vs' ++ rest)).bind _ = _
  rw [readItems_all]
  rfl

theorem spelled_word_not_in {ts : List Text} (hne : vs ≠ [])
    (h : vs.mapM (quoteValue S.floats) = .ok ts) :
    Spelled S esc (f.val.toList ++ " NOT IN (".toList ++ joinTexts ", ".toList ts ++ [')'], [])
      (.not (.anyOf .eq (.column f.val) (vs.map valueOf))) := by
  refine spelled_word_items hf hne h "NOT IN (".toList [.not, .isIn]
    (fun name => .not (.anyOf .eq (.column name) (vs.map valueOf))) rfl ?_
  rintro w v vs' rest rfl
  change (readItems (itemTokens v vs' ++ rest).length (itemTokens v vs' ++ rest)).bind _ = _
  rw [readItems_all]
  rfl

theorem spelled_word_like {p : String} (h : (whereScanner S).Scans t [litToken (.str p)]) :
    Spelled S esc (f.val.toList ++ " LIKE ".toList ++ t, [])
      (.like esc (.column f.val) (.value (some (.text p)))) := by
  have hlike : (whereScanner S).run (whereScanner S).start " LIKE ".toList =
      some ((whereScanner S).start, [.key .like]) := rfl
  have hscan : (whereScanner S).Scans (' ' :: ("LIKE ".toList ++ t))
      [.key .like, litToken (.str p)] := Scans.after hlike h
  have hbind : Binds [.key .like, litToken (.str p)] [] [.key .like, litToken (.str p)] := by
    refine binds_cons ?_ (binds_lit _)
    nofun
  have htext : f.val.toList ++ " LIKE ".toList ++ t =
      f.val.toList ++ ' ' :: ("LIKE ".toList ++ t) := by simp
  rw [htext]
  refine spelled_word f (fun name => .like esc (.column name) (.value (some (.text p)))) hf hscan
    hbind fun w rest => ?_
  change some (Cond.like esc (.column (String.ofList w))
    (.value (some (.text (String.ofList p.toList)))), rest) = _
  rw [String.ofList_toList]

theorem spelled_upper_like {p : String} (h : (whereScanner S).Scans t [litToken (.str p)]) :
    Spelled S esc ("UPPER(".toList ++ f.val.toList ++ ") LIKE UPPER(".toList ++ t ++ [')'], [])
      (.like esc (.upper (.column f.val)) (.upper (.value (some (.text p))))) := by
  have hopen : (whereScanner S).run (whereScanner S).start "UPPER(".toList =
      some ((whereScanner S).start, [.word "UPPER".toList, .opening]) := rfl
  have hmiddle : (whereScanner S).run (whereScanner S).start ") LIKE UPPER(".toList =
      some ((whereScanner S).start,
        [.closing, .key .like, .word "UPPER".toList, .opening]) := rfl
  have hclose : (whereScanner S).Scans [')'] [.closing] := rfl
  have hscan := Scans.after hopen ((scans_word hf).append breaks_closing
    (Scans.after hmiddle (h.append breaks_closing hclose)))
  have hword : Binds [.word f.val.toList] [] [.word f.val.toList] := by
    refine binds_cons ?_ binds_nil
    nofun
  have hbind : Binds [.word "UPPER".toList, .opening, .word f.val.toList, .closing, .key .like,
      .word "UPPER".toList, .opening, litToken (.str p), .closing] []
      [.word "UPPER".toList, .opening, .word f.val.toList, .closing, .key .like,
      .word "UPPER".toList, .opening, litToken (.str p), .closing] := by
    refine binds_cons ?_ (binds_cons ?_ (binds_cons ?_ (binds_cons ?_ (binds_cons ?_
      (binds_cons ?_ (binds_cons ?_ ((binds_lit (.str p)).append
        (binds_cons ?_ binds_nil)))))))) <;> nofun
  refine ⟨_, _, ?_, hbind, spells_of_test (by nofun) (by nofun) fun rest => ?_⟩
  · have htext : "UPPER(".toList ++ f.val.toList ++ ") LIKE UPPER(".toList ++ t ++ [')'] =
        "UPPER(".toList ++ (f.val.toList ++ (")".toList ++ (" LIKE UPPER(".toList ++
          (t ++ [')'])))) := by
      simp only [append_assoc]
      rfl
    rw [htext]
    exact hscan
  · change some (Cond.like esc (.upper (.column (String.ofList f.val.toList)))
      (.upper (.value (some (.text (String.ofList p.toList))))), rest) = _
    rw [String.ofList_toList, String.ofList_toList]

end

/-- The literals and the patterns of a compiler are read as they were written. -/
structure Clause.Reads (S : Reader) (C : Clause) (D : Dialect) (esc : Option Char) : Prop where
  ordered : ∀ v t, C.ordered v = .ok t → (whereScanner S).Scans t [litToken v]
  like : ∀ f p t, isPlainName f.val = true → (whereScanner S).Scans t [litToken (.str p.val)] →
    Spelled S esc (C.like f.val.toList t, []) (leafCond S.floats D (.like f p))
  others : ∀ l, (∀ f p, l ≠ .like f p) → leafCond S.floats D l = leafCond S.floats .cql2 l

theorem reads_cql2 (S : Reader) : (cql2 S.floats).Reads S .cql2 (some '\\') where
  ordered _ _ h := scans_cql2Number h
  like _ _ _ hf h := spelled_word_like hf h
  others _ _ := rfl

theorem reads_arcgis (S : Reader) : (arcgis S.floats).Reads S .arcgis none where
  ordered _ _ h := scans_quoteValue h
  like _ _ _ hf h := spelled_upper_like hf h
  others l h := by
    cases l with
    | like f p => exact absurd rfl (h f p)
    | _ => rfl

variable {C : Clause} {D : Dialect}

theorem members_ne_nil (vs : Members) : vs.val ≠ [] := by
  intro h
  have := vs.property.1
  rw [h] at this
  exact absurd this (by decide)

theorem spelled_clauseLeaf (hC : C.Reads S D esc) {l : Leaf} (hf : isPlainName l.field.val)
    (h : clauseLeaf S.floats C l = .ok t) : Spelled S esc (t, []) (leafCond S.floats D l) := by
  cases l with
  | compare op f v =>
    rw [hC.others _ (by nofun)]
    unfold clauseLeaf at h
    dsimp only [leafCond, compareCond]
    by_cases heq : op = .eq ∧ v = .null
    · rw [if_pos heq]
      simp only [if_pos heq] at h
      cases h
      exact spelled_word_null hf
    · rw [if_neg heq]
      simp only [if_neg heq] at h
      by_cases hne : op = .ne ∧ v = .null
      · rw [if_pos hne]
        simp only [if_pos hne] at h
        cases h
        exact spelled_word_not_null hf
      · rw [if_neg hne]
        simp only [if_neg hne] at h
        have hscan : ∃ literal, (whereScanner S).Scans literal [litToken v] ∧
            t = f.val.toList ++ ' ' :: op.sign ++ ' ' :: literal := by
          split at h
          · obtain ⟨literal, hliteral, h⟩ := bind_eq_ok.mp h
            cases h
            exact ⟨literal, scans_quoteValue hliteral, rfl⟩
          · obtain ⟨literal, hliteral, h⟩ := bind_eq_ok.mp h
            cases h
            exact ⟨literal, hC.ordered v literal hliteral, rfl⟩
        obtain ⟨literal, hscan, rfl⟩ := hscan
        have hspelled := spelled_word_compare esc hf op hscan
        rw [append_assoc, cons_append]
        exact hspelled
  | isIn f vs =>
    rw [hC.others _ (by nofun)]
    obtain ⟨items, hitems, h⟩ := bind_eq_ok.mp h
    cases h
    exact spelled_word_in hf (members_ne_nil vs) hitems
  | notIn f vs =>
    rw [hC.others _ (by nofun)]
    obtain ⟨items, hitems, h⟩ := bind_eq_ok.mp h
    cases h
    exact spelled_word_not_in hf (members_ne_nil vs) hitems
  | between f lo hi =>
    rw [hC.others _ (by nofun)]
    obtain ⟨s, hs, h⟩ := bind_eq_ok.mp h
    obtain ⟨u, hu, h⟩ := bind_eq_ok.mp h
    cases h
    exact spelled_word_between hf (hC.ordered _ _ hs) (hC.ordered _ _ hu)
  | like f p =>
    obtain ⟨literal, hliteral, h⟩ := bind_eq_ok.mp h
    cases h
    exact hC.like f p literal hf (scans_quoteValue hliteral)
  | isNull f negated =>
    rw [hC.others _ (by nofun)]
    cases h
    cases negated with
    | false =>
      have htext : f.val.toList ++ " IS".toList ++ (if false then " NOT".toList else []) ++
          " NULL".toList = f.val.toList ++ " IS NULL".toList := by simp
      dsimp only [Leaf.field]
      rw [htext]
      exact spelled_word_null hf
    | true =>
      have htext : f.val.toList ++ " IS".toList ++ (if true then " NOT".toList else []) ++
          " NULL".toList = f.val.toList ++ " IS NOT NULL".toList := by simp
      dsimp only [Leaf.field]
      rw [htext]
      exact spelled_word_not_null hf

theorem clauseNodes_ok {ps : List Predicate} {ts : List Text}
    (h : clauseNodes S.floats C ps = .ok ts) :
    List.Forall₂ (fun p t => clauseNode S.floats C p = .ok t) ps ts := by
  induction ps generalizing ts with
  | nil =>
    cases h
    exact .nil
  | cons p ps ih =>
    obtain ⟨part, hpart, h⟩ := bind_eq_ok.mp h
    obtain ⟨parts, hparts, h⟩ := bind_eq_ok.mp h
    cases h
    exact forall₂_cons.mpr ⟨hpart, ih hparts⟩

theorem spelled_parts {ts : List Text} {c : Cond} {cs : List Cond}
    (h : List.Forall₂ (fun t c => Spelled S esc (t, []) c) (t :: ts) (c :: cs)) :
    List.Forall₂ (Spelled S esc) ((t, []) :: ts.map (·, [])) (c :: cs) ∧
      ((t, []) :: ts.map (·, ([] : List Param))).map Prod.fst = t :: ts ∧
      ((t, []) :: ts.map (·, ([] : List Param))).flatMap Prod.snd = [] := by
  refine ⟨?_, ?_, ?_⟩
  · rw [← map_cons (f := fun t : Text => (t, ([] : List Param))), forall₂_map_left_iff]
    exact h
  · simp [Function.comp_def]
  · simp

theorem spelled_clauseNode (hC : C.Reads S D esc) {p : Predicate}
    (hf : ∀ l ∈ p.leaves, isPlainName l.field.val) (h : clauseNode S.floats C p = .ok t) :
    Spelled S esc (t, []) (treeCond (leafCond S.floats D) p) := by
  have hargs : ∀ (p : Predicate) (ps : List Predicate) (t : Text) (ts : List Text),
      (∀ q ∈ p :: ps, ∀ u, (∀ l ∈ q.leaves, isPlainName l.field.val) →
        clauseNode S.floats C q = .ok u →
        Spelled S esc (u, []) (treeCond (leafCond S.floats D) q)) →
      (∀ l ∈ p.leaves ++ Predicate.leavesOf ps, isPlainName l.field.val) →
      clauseNode S.floats C p = .ok t → clauseNodes S.floats C ps = .ok ts →
      List.Forall₂ (fun t c => Spelled S esc (t, []) c) (t :: ts)
        (treeCond (leafCond S.floats D) p :: treeConds (leafCond S.floats D) ps) := by
    intro p ps t ts ih hf hp hps
    have hps := clauseNodes_ok hps
    clear * - ih hf hp hps
    induction hps generalizing p t with
    | nil =>
      refine forall₂_cons.mpr ⟨ih p mem_cons_self t (fun l hl => hf l ?_) hp, .nil⟩
      exact mem_append_left _ hl
    | cons hq _ ihps =>
      refine forall₂_cons.mpr ⟨ih p mem_cons_self t (fun l hl => hf l ?_) hp, ?_⟩
      · exact mem_append_left _ hl
      · refine ihps _ _ (fun q hq => ih q (mem_cons_of_mem _ hq)) (fun l hl => hf l ?_) hq
        exact mem_append_right _ hl
  induction p using Predicate.tree_induct generalizing t with
  | leaf l => exact spelled_clauseLeaf hC (hf l (mem_singleton_self l)) h
  | and p ps ih =>
    obtain ⟨part, hpart, h⟩ := bind_eq_ok.mp h
    obtain ⟨parts, hparts, h⟩ := bind_eq_ok.mp h
    cases h
    obtain ⟨hall, htexts, hparams⟩ :=
      spelled_parts (hargs p ps part parts (fun q hq u hfu hu => ih q hq hfu hu) hf hpart hparts)
    have hspelled := Spelled.and hall
    rw [htexts, hparams] at hspelled
    exact hspelled
  | or p ps ih =>
    obtain ⟨part, hpart, h⟩ := bind_eq_ok.mp h
    obtain ⟨parts, hparts, h⟩ := bind_eq_ok.mp h
    cases h
    obtain ⟨hall, htexts, hparams⟩ :=
      spelled_parts (hargs p ps part parts (fun q hq u hfu hu => ih q hq hfu hu) hf hpart hparts)
    have hspelled := Spelled.or hall
    rw [htexts, hparams] at hspelled
    exact hspelled
  | not p ih =>
    obtain ⟨part, hpart, h⟩ := bind_eq_ok.mp h
    cases h
    exact (ih hf hpart).not

end WebGis.Query
