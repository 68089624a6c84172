/-
  `services/data_fabric/query/compilers.py`: the texts that a predicate is compiled to.

  Texts are lists of characters. The compilers for CQL2 and for ArcGIS write the same where clause
  but for the literals they allow in a comparison and for `LIKE`, so they are one definition with
  these two as parameters.

  How a where clause is read: the tokens of a text, the condition that they spell, and what the
  condition makes of a row, in three-valued logic.

  The grammar is the usual one: `NOT` binds more than `AND`, which binds more than `OR`. Names are
  read as they are where they are quoted, and are no keywords where they are not. Texts are compared
  by code points; what `UPPER` does is left open.
-/
import WebGis.Data.Scan
import WebGis.Query.Predicates

namespace WebGis.Query

open Data

abbrev Text : Type := List Char

/-- What is bound to a placeholder: a value or a list. -/
inductive Param where
  | one (v : Scalar)
  | many (vs : List Scalar)

abbrev SQLFragment : Type := Text × List Param

/-- `sep.join(parts)` -/
def joinTexts (sep : Text) (parts : List Text) : Text := sep.intercalate parts

/-! ## PostGIS SQL -/

def quoteIdent (name : FieldName) : Text := '"' :: name.val.toList ++ ['"']

/-- The sign of a comparison in SQL. -/
def CmpOp.sql : CmpOp → Text
  | eq => "=".toList
  | ne => "!=".toList
  | gt => ">".toList
  | ge => ">=".toList
  | lt => "<".toList
  | le => "<=".toList

def sqlLeaf (l : Leaf) : SQLFragment :=
  let col := quoteIdent l.field
  match l with
  | .compare op _ value =>
    if op = .eq ∧ value = .null then (col ++ " IS NULL".toList, [])
    else if op = .ne ∧ value = .null then (col ++ " IS NOT NULL".toList, [])
    else (col ++ ' ' :: op.sql ++ " %s".toList, [.one value])
  | .isIn _ values => (col ++ " = ANY(%s)".toList, [.many values.val])
  | .notIn _ values => ('(' :: col ++ " <> ALL(%s))".toList, [.many values.val])
  | .between _ low high => (col ++ " BETWEEN %s AND %s".toList, [.one low.val, .one high.val])
  | .like _ pattern => (col ++ " LIKE %s".toList, [.one (.str pattern.val)])
  | .isNull _ negated => (col ++ " IS ".toList ++ (if negated then "NOT ".toList else []) ++
      "NULL".toList, [])

mutual

def sqlNode : Predicate → SQLFragment
  | .leaf l => sqlLeaf l
  | .and p ps =>
    let parts := sqlNode p :: sqlNodes ps
    ('(' :: joinTexts " AND ".toList (parts.map Prod.fst) ++ [')'], parts.flatMap Prod.snd)
  | .or p ps =>
    let parts := sqlNode p :: sqlNodes ps
    ('(' :: joinTexts " OR ".toList (parts.map Prod.fst) ++ [')'], parts.flatMap Prod.snd)
  | .not p =>
    let (s, params) := sqlNode p
    ("(NOT ".toList ++ s ++ [')'], params)

def sqlNodes : List Predicate → List SQLFragment
  | [] => []
  | p :: ps => sqlNode p :: sqlNodes ps

end

def compilePredicateSql (p : Predicate) (allowed : Option (List String)) : Outcome SQLFragment := do
  match allowed with
  | some fields => p.validateFields fields
  | none => pure ()
  return sqlNode p

/-! ## CQL2 and ArcGIS -/

variable (F : Floats)

/-- `_cql2_quote` and `_arcgis_quote` -/
def quoteValue : Scalar → Outcome Text
  | .null => .ok "NULL".toList
  | .bool b => .ok (if b then "true".toList else "false".toList)
  | .int n => .ok (intChars n)
  | .float q => .ok (F.chars q)
  | .str s =>
    if s.toList.any fun c => c.toNat < 0x20 then .error .predicateError
    else .ok ('\'' :: s.toList.flatMap (fun c => if c = '\'' then ['\'', '\''] else [c]) ++ ['\''])

def cql2Number : Scalar → Outcome Text
  | .int n => .ok (intChars n)
  | .float q => .ok (F.chars q)
  | _ => .error .predicateError

/-- The sign of a comparison in a where clause. -/
def CmpOp.sign : CmpOp → Text
  | ne => "<>".toList
  | op => op.sql

/-- Where two compilers of where clauses differ. -/
structure Clause where
  /-- The literals that may be compared by order. -/
  ordered : Scalar → Outcome Text
  /-- A field and a pattern. -/
  like : Text → Text → Text

def clauseLeaf (C : Clause) (l : Leaf) : Outcome Text := do
  let prop := l.field.val.toList
  match l with
  | .compare op _ value =>
    if op = .eq ∧ value = .null then return prop ++ " IS NULL".toList
    else if op = .ne ∧ value = .null then return prop ++ " IS NOT NULL".toList
    else
      let literal ← if op = .eq ∨ op = .ne then quoteValue F value else C.ordered value
      return prop ++ ' ' :: op.sign ++ ' ' :: literal
  | .isIn _ values =>
    let items ← values.val.mapM (quoteValue F)
    return prop ++ " IN (".toList ++ joinTexts ", ".toList items ++ [')']
  | .notIn _ values =>
    let items ← values.val.mapM (quoteValue F)
    return prop ++ " NOT IN (".toList ++ joinTexts ", ".toList items ++ [')']
  | .between _ low high =>
    let lo ← C.ordered low.val
    let hi ← C.ordered high.val
    return prop ++ " BETWEEN ".toList ++ lo ++ " AND ".toList ++ hi
  | .like _ pattern =>
    let literal ← quoteValue F (.str pattern.val)
    return C.like prop literal
  | .isNull _ negated =>
    return prop ++ " IS".toList ++ (if negated then " NOT".toList else []) ++ " NULL".toList

mutual

def clauseNode (C : Clause) : Predicate → Outcome Text
  | .leaf l => clauseLeaf F C l
  | .and p ps => do
      let part ← clauseNode C p
      let parts ← clauseNodes C ps
      return '(' :: joinTexts " AND ".toList (part :: parts) ++ [')']
  | .or p ps => do
      let part ← clauseNode C p
      let parts ← clauseNodes C ps
      return '(' :: joinTexts " OR ".toList (part :: parts) ++ [')']
  | .not p => do return "(NOT ".toList ++ (← clauseNode C p) ++ [')']

def clauseNodes (C : Clause) : List Predicate → Outcome (List Text)
  | [] => .ok []
  | p :: ps => do
      let part ← clauseNode C p
      let parts ← clauseNodes C ps
      return part :: parts

end

def cql2 : Clause where
  ordered := cql2Number F
  like prop literal := prop ++ " LIKE ".toList ++ literal

def arcgis : Clause where
  ordered := quoteValue F
  like prop literal := "UPPER(".toList ++ prop ++ ") LIKE UPPER(".toList ++ literal ++ [')']

def compilePredicateCql2 (p : Predicate) : Outcome Text := clauseNode F (cql2 F) p

def compilePredicateArcgis (p : Predicate) : Outcome Text := clauseNode F (arcgis F) p

/-! ## FES -/

/-- The entity of a character, with `_xml_escape` and the entities for the quotes. -/
def xmlEscapeChar (c : Char) : Text :=
  if c = '&' then "&amp;".toList
  else if c = '>' then "&gt;".toList
  else if c = '<' then "&lt;".toList
  else if c = '"' then "&quot;".toList
  else if c = '\'' then "&apos;".toList
  else [c]

def fesValue (v : Scalar) : Text :=
  if v = .null then [] else (pyStr F v).toList.flatMap xmlEscapeChar

/-- `_FES_OPS` -/
def CmpOp.fes : CmpOp → Text
  | eq => "PropertyIsEqualTo".toList
  | ne => "PropertyIsNotEqualTo".toList
  | gt => "PropertyIsGreaterThan".toList
  | ge => "PropertyIsGreaterThanOrEqualTo".toList
  | lt => "PropertyIsLessThan".toList
  | le => "PropertyIsLessThanOrEqualTo".toList

/-- An element with attributes in its start tag. -/
def element (tag attributes body : Text) : Text :=
  "<ogc:".toList ++ tag ++ attributes ++ '>' :: body ++ "</ogc:".toList ++ tag ++ ['>']

/-- `xmlns:ogc="{ns}"` with the default namespace -/
def xmlns : Text := " xmlns:ogc=\"http://www.opengis.net/ogc\"".toList

def propertyName (field : FieldName) : Text :=
  element "PropertyName".toList [] (fesValue F (.str field.val))

def literalOf (v : Scalar) : Text := element "Literal".toList [] (fesValue F v)

def fesNull (field : FieldName) (negated : Bool) : Text :=
  element (if negated then "PropertyIsNotNull".toList else "PropertyIsNull".toList) xmlns
    (propertyName F field)

def fesCompare (op : CmpOp) (field : FieldName) (value : Scalar) : Text :=
  if op = .eq ∧ value = .null then fesNull F field false
  else if op = .ne ∧ value = .null then fesNull F field true
  else element op.fes xmlns (propertyName F field ++ literalOf F value)

def fesLeaf : Leaf → Text
  | .isNull field negated => fesNull F field negated
  | .isIn field values =>
    element "Or".toList xmlns ((values.val.map (fesCompare F .eq field)).flatten)
  | .notIn field values =>
    element "And".toList xmlns ((values.val.map (fesCompare F .ne field)).flatten)
  | .like field pattern =>
    element "PropertyIsLike".toList
      (xmlns ++ " wildCard=\"%\" singleChar=\"_\" escapeChar=\"!\"".toList)
      (propertyName F field ++ literalOf F (.str pattern.val))
  | .between field low high =>
    element "PropertyIsBetween".toList xmlns
      (propertyName F field ++
        element "LowerBoundary".toList [] (literalOf F low.val) ++
        element "UpperBoundary".toList [] (literalOf F high.val))
  | .compare op field value => fesCompare F op field value

mutual

def compilePredicateFes : Predicate → Text
  | .leaf l => fesLeaf F l
  | .and p ps => element "And".toList xmlns (compilePredicateFes p ++ compileFesArgs ps)
  | .or p ps => element "Or".toList xmlns (compilePredicateFes p ++ compileFesArgs ps)
  | .not p => element "Not".toList xmlns (compilePredicateFes p)

def compileFesArgs : List Predicate → Text
  | [] => []
  | p :: ps => compilePredicateFes p ++ compileFesArgs ps

end

/-! ## Data and conditions -/

/-- A value in a column. -/
inductive Datum where
  | bool (b : Bool)
  | number (q : Rat)
  | text (s : String)
  deriving DecidableEq

/-- The value of a scalar in a column. -/
def Scalar.datum : Scalar → Option Datum
  | null => none
  | bool b => some (.bool b)
  | int n => some (.number n)
  | float q => some (.number q)
  | str s => some (.text s)

/-- How two values of one type compare. -/
def Datum.order : Datum → Datum → Option Ordering
  | bool b, bool c => some (compare b c)
  | number p, number q => some (compare p q)
  | text s, text t => some (compare s t)
  | _, _ => none

/-- A comparison; with NULL it is unknown. -/
def compareData (op : CmpOp) (a b : Option Datum) : Truth := do
  let o ← (← a).order (← b)
  return op.holds o

inductive Operand where
  | column (name : String)
  | value (d : Option Datum)
  | upper (o : Operand)

inductive Cond where
  | compare (op : CmpOp) (a b : Operand)
  /-- A comparison with a literal that is read with the type of the other side. -/
  | compareAs (op : CmpOp) (a : Operand) (literal : String)
  | anyOf (op : CmpOp) (a : Operand) (bs : List Operand)
  | allOf (op : CmpOp) (a : Operand) (bs : List Operand)
  | isNull (a : Operand)
  | like (escape : Option Char) (a pattern : Operand)
  | and (c d : Cond)
  | or (c d : Cond)
  | not (c : Cond)

/-- What a reader brings with it: `UPPER`, and the functions on numbers. -/
structure Reader where
  floats : Floats
  upper : String → String

variable (S : Reader)

/-- The digits of an integer, with its sign. -/
def readInt : Text → Option Int
  | '-' :: cs => if cs ≠ [] ∧ cs.all Char.isDigit then some (-(Nat.ofDigitChars 10 cs 0 : Int)) else none
  | cs => if cs ≠ [] ∧ cs.all Char.isDigit then some (Nat.ofDigitChars 10 cs 0) else none

/-- The number that a literal spells. -/
def readNumber (cs : Text) : Option Rat :=
  match readInt cs with
  | some n => some n
  | none =>
    match S.floats.ofText cs with
    | some (.fin q) => some q
    | _ => none

/-- A literal, read with the type of a value. -/
def Datum.readAs (s : String) : Datum → Option Datum
  | bool _ =>
    if s.toList.map Char.toLower = "true".toList then some (bool true)
    else if s.toList.map Char.toLower = "false".toList then some (bool false)
    else none
  | number _ => (readNumber S s.toList).map number
  | text _ => some (text s)

/-- The value of a column. -/
def Row.datum (row : Row) (name : String) : Option Datum := (Dict.find row name).bind Scalar.datum

def Operand.eval (row : Row) : Operand → Option Datum
  | column name => row.datum name
  | value d => d
  | upper o =>
    match o.eval row with
    | some (.text s) => some (.text (S.upper s))
    | _ => none

/-- `LIKE`; with NULL it is unknown. -/
def likeData (escape : Option Char) (a p : Option Datum) : Truth :=
  match a, p with
  | some (.text s), some (.text p) =>
    some (Piece.matchAll (Piece.pieces escape p.toList) s.toList)
  | _, _ => none

def Cond.eval (row : Row) : Cond → Truth
  | compare op a b => compareData op (a.eval S row) (b.eval S row)
  | compareAs op a s =>
    compareData op (a.eval S row) ((a.eval S row).bind (Datum.readAs S s))
  | anyOf op a bs => Truth.any (bs.map fun b => compareData op (a.eval S row) (b.eval S row))
  | allOf op a bs => Truth.all (bs.map fun b => compareData op (a.eval S row) (b.eval S row))
  | isNull a => some (a.eval S row).isNone
  | like escape a p => likeData escape (a.eval S row) (p.eval S row)
  | and c d => Truth.all [c.eval row, d.eval row]
  | or c d => Truth.any [c.eval row, d.eval row]
  | not c => (c.eval row).not

/-- Several conditions as one. -/
def joinCond (join : Cond → Cond → Cond) : Cond → List Cond → Cond
  | c, [] => c
  | c, d :: ds => join c (joinCond join d ds)

/-! ## Tokens -/

inductive Keyword where
  | and | or | not | is | null | isIn | between | like | true | false
  deriving DecidableEq

/-- The keywords, in any case. -/
def keyword? (w : Text) : Option Keyword :=
  let w := w.map Char.toUpper
  if w = "AND".toList then some .and
  else if w = "OR".toList then some .or
  else if w = "NOT".toList then some .not
  else if w = "IS".toList then some .is
  else if w = "NULL".toList then some .null
  else if w = "IN".toList then some .isIn
  else if w = "BETWEEN".toList then some .between
  else if w = "LIKE".toList then some .like
  else if w = "TRUE".toList then some .true
  else if w = "FALSE".toList then some .false
  else none

inductive Token where
  | key (k : Keyword)
  | word (w : Text)
  | name (s : Text)
  | number (q : Rat)
  | text (s : Text)
  | mark (op : CmpOp)
  | opening
  | closing
  | comma
  | hole
  | bound (p : Param)

/-- Where a scanner of where clauses is. -/
inductive Mode where
  | start
  /-- In a word or a number. -/
  | bare (acc : Text)
  /-- In the sign of a comparison. -/
  | sign (acc : Text)
  /-- Between the quotes of a name or of a text. -/
  | quoted (name : Bool) (acc : Text)
  /-- After what may be the closing quote. -/
  | closed (name : Bool) (acc : Text)

def isBare (c : Char) : Bool := isWordChar c || c = '.' || c = '+' || c = '-' || c = '%'

def isSign (c : Char) : Bool := c = '=' || c = '!' || c = '<' || c = '>'

/-- The quotes of names and of texts. -/
def quoteOf (name : Bool) : Char := if name then '"' else '\''

/-- The token of a word or a number. -/
def bareToken (w : Text) : Option Token :=
  if w = "%s".toList then some .hole
  else if w.head?.any isWordStart then
    match keyword? w with
    | some k => some (.key k)
    | none => some (.word w)
  else (readNumber S w).map .number

def signToken (w : Text) : Option Token :=
  if w = "=".toList then some (.mark .eq)
  else if w = "!=".toList ∨ w = "<>".toList then some (.mark .ne)
  else if w = ">".toList then some (.mark .gt)
  else if w = ">=".toList then some (.mark .ge)
  else if w = "<".toList then some (.mark .lt)
  else if w = "<=".toList then some (.mark .le)
  else none

/-- What a scanner still holds. -/
def Mode.flush : Mode → Option (List Token)
  | start => some []
  | bare w => (bareToken S w).map ([·])
  | sign w => (signToken w).map ([·])
  | quoted _ _ => none
  | closed name s => some [if name then .name s else .text s]

/-- A character where no token is open. -/
def enter (c : Char) : Option (Mode × List Token) :=
  if isSpace c then some (.start, [])
  else if c = '(' then some (.start, [.opening])
  else if c = ')' then some (.start, [.closing])
  else if c = ',' then some (.start, [.comma])
  else if c = quoteOf true then some (.quoted true [], [])
  else if c = quoteOf false then some (.quoted false [], [])
  else if isSign c then some (.sign [c], [])
  else if isBare c then some (.bare [c], [])
  else none

/-- A character after what is open. -/
def Mode.next (m : Mode) (c : Char) : Option (Mode × List Token) := do
  let ts ← m.flush S
  let (m, us) ← enter c
  some (m, ts ++ us)

def Mode.step (m : Mode) (c : Char) : Option (Mode × List Token) :=
  match m with
  | start => enter c
  | bare w => if isBare c then some (.bare (w ++ [c]), []) else m.next S c
  | sign w => if isSign c then some (.sign (w ++ [c]), []) else m.next S c
  | quoted name s =>
    if c = quoteOf name then some (.closed name s, []) else some (.quoted name (s ++ [c]), [])
  | closed name s => if c = quoteOf name then some (.quoted name (s ++ [c]), []) else m.next S c

/-- The scanner of where clauses. -/
def whereScanner : Scanner Mode Token where
  start := .start
  step := Mode.step S
  flush := Mode.flush S

/-- The parameters in their places. -/
def bindParams : List Token → List Param → Option (List Token)
  | [], [] => some []
  | [], _ :: _ => none
  | .hole :: _, [] => none
  | .hole :: ts, p :: ps => (bindParams ts ps).map (.bound p :: ·)
  | t :: ts, ps => (bindParams ts ps).map (t :: ·)

/-! ## The grammar -/

/-- A value, by itself. -/
def readPrimary : List Token → Option (Operand × List Token)
  | .name s :: ts => some (.column (String.ofList s), ts)
  | .word w :: ts => some (.column (String.ofList w), ts)
  | .number q :: ts => some (.value (some (.number q)), ts)
  | .text s :: ts => some (.value (some (.text (String.ofList s))), ts)
  | .key .true :: ts => some (.value (some (.bool true)), ts)
  | .key .false :: ts => some (.value (some (.bool false)), ts)
  | .key .null :: ts => some (.value none, ts)
  | .bound (.one v) :: ts => some (.value v.datum, ts)
  | _ => none

def readOperand : List Token → Option (Operand × List Token)
  | .word w :: .opening :: ts =>
    if w.map Char.toUpper = "UPPER".toList then do
      match ← readPrimary ts with
      | (o, .closing :: ts) => some (.upper o, ts)
      | _ => none
    else none
  | ts => readPrimary ts

/-- Values between commas, to the closing parenthesis. -/
def readItems : Nat → List Token → Option (List Operand × List Token)
  | 0, _ => none
  | n + 1, ts => do
      match ← readOperand ts with
      | (o, .comma :: ts) => do
          let (os, ts) ← readItems n ts
          some (o :: os, ts)
      | (o, .closing :: ts) => some ([o], ts)
      | _ => none

/-- What follows a sign: a value, or all or any of a list. -/
def readRight (op : CmpOp) (a : Operand) : List Token → Option (Cond × List Token)
  | .word w :: .opening :: .bound (.many vs) :: .closing :: ts =>
    if w = "ANY".toList then some (.anyOf op a (vs.map fun v => .value v.datum), ts)
    else if w = "ALL".toList then some (.allOf op a (vs.map fun v => .value v.datum), ts)
    else none
  | ts => do
      let (b, ts) ← readOperand ts
      some (.compare op a b, ts)

/-- One test, with the escape character that `LIKE` has. -/
def readTest (escape : Option Char) (ts : List Token) : Option (Cond × List Token) := do
  match ← readOperand ts with
  | (a, .key .is :: .key .null :: ts) => some (.isNull a, ts)
  | (a, .key .is :: .key .not :: .key .null :: ts) => some (.not (.isNull a), ts)
  | (a, .key .isIn :: .opening :: ts) => do
      let (bs, ts) ← readItems ts.length ts
      some (.anyOf .eq a bs, ts)
  | (a, .key .not :: .key .isIn :: .opening :: ts) => do
      let (bs, ts) ← readItems ts.length ts
      some (.not (.anyOf .eq a bs), ts)
  | (a, .key .like :: ts) => do
      let (p, ts) ← readOperand ts
      some (.like escape a p, ts)
  | (a, .key .between :: ts) => do
      match ← readOperand ts with
      | (lo, .key .and :: ts) => do
          let (hi, ts) ← readOperand ts
          some (.and (.compare .ge a lo) (.compare .le a hi), ts)
      | _ => none
  | (a, .mark op :: ts) => readRight op a ts
  | _ => none

mutual

/-- Parts joined by `OR`. -/
def readOr (escape : Option Char) : Nat → List Token → Option (Cond × List Token)
  | 0, _ => none
  | n + 1, ts => do
      match ← readAnd escape n ts with
      | (c, .key .or :: ts) => do
          let (d, ts) ← readOr escape n ts
          some (.or c d, ts)
      | r => some r

/-- Parts joined by `AND`. -/
def readAnd (escape : Option Char) : Nat → List Token → Option (Cond × List Token)
  | 0, _ => none
  | n + 1, ts => do
      match ← readFactor escape n ts with
      | (c, .key .and :: ts) => do
          let (d, ts) ← readAnd escape n ts
          some (.and c d, ts)
      | r => some r

/-- A test, a negation, or a condition in parentheses. -/
def readFactor (escape : Option Char) : Nat → List Token → Option (Cond × List Token)
  | 0, _ => none
  | n + 1, .key .not :: ts => do
      let (c, ts) ← readFactor escape n ts
      some (.not c, ts)
  | n + 1, .opening :: ts => do
      match ← readOr escape n ts with
      | (c, .closing :: ts) => some (c, ts)
      | _ => none
  | _ + 1, ts => readTest escape ts

end

/-- The condition that the tokens spell, if nothing is left over. -/
def readCond (escape : Option Char) (ts : List Token) : Option Cond := do
  match ← readOr escape (3 * ts.length + 3) ts with
  | (c, []) => some c
  | _ => none

/-- A text and its parameters, read as a where clause. -/
def readWhere (escape : Option Char) (fragment : SQLFragment) : Option Cond := do
  let ts ← (whereScanner S).scan fragment.1
  let ts ← bindParams ts fragment.2
  readCond escape ts

/-- As PostgreSQL reads it: the escape character is a backslash. -/
def readSql (fragment : SQLFragment) : Option Cond := readWhere S (some '\\') fragment

/-- As CQL2 is read: the escape character is a backslash. -/
def readCql2 (text : Text) : Option Cond := readWhere S (some '\\') (text, [])

/-- As ArcGIS reads it: there is no escape character. -/
def readArcgis (text : Text) : Option Cond := readWhere S none (text, [])

/-- The row is selected: the condition that was read is true. -/
def Selects (c : Option Cond) (row : Row) : Prop := ∃ d, c = some d ∧ d.eval S row = some true

end WebGis.Query
