/-
  The rows that a compiled filter selects are those for which the evaluator returns True.

  A reader compares data of one type, the evaluator numbers where both sides are numbers and texts
  otherwise, so the two agree on a test where its value and its literals are of one type and the
  texts that look like numbers are in the same order as their numbers. Only a test that is asked
  to be true, or below a negation to be false, has to agree there: a row is selected where the
  whole is true, and unknown is as good as false.
-/
import WebGis.Query.Filtered

namespace WebGis.Query

open Data List Option Truth Scalar Cond Predicate CmpOp

/-! ## Where a test means the same -/

variable (F : Floats)

/-- The value is a number that a float holds exactly. -/
inductive IsNumber : Scalar → Rat → Prop where
  | int {n : Int} (h : F.ofInt n = some (n : Rat)) : IsNumber (.int n) n
  | float (q : Rat) : IsNumber (.float q) q

/-- The two values are of one type. -/
inductive Fits : Scalar → Scalar → Prop where
  | bools (b c : Bool) : Fits (.bool b) (.bool c)
  | numbers {v w : Scalar} {p q : Rat} (hv : IsNumber F v p) (hw : IsNumber F w q) : Fits v w
  | texts (s t : String) : Fits (.str s) (.str t)

/-- The two values are of one type, and texts that are numbers compare as their numbers do. -/
structure Comparable (op : CmpOp) (v w : Scalar) : Prop where
  fits : Fits F v w
  texts : ∀ s t x y, v = .str s → w = .str t → F.ofText s.toList = some x →
    F.ofText t.toList = some y → op.onFloats (x.order y) = op.holds (compare s t)

/-- The value and the members that are not NULL are of one type, and a truth value is one of the
    members. -/
structure Listable (vs : List Scalar) (v : Scalar) : Prop where
  value : Fits F v v
  fits : ∀ w ∈ vs, w ≠ .null → Fits F v w
  bools : ∀ b, v = .bool b → v ∈ vs

/-- The value and the bounds are of one type, and texts that are numbers lie between as their
    numbers do. -/
structure Boundable (v lo hi : Scalar) : Prop where
  low : Fits F v lo
  high : Fits F v hi
  texts : ∀ s t u x y z, v = .str s → lo = .str t → hi = .str u → F.ofText s.toList = some x →
    F.ofText t.toList = some y → F.ofText u.toList = some z →
    (le.onFloats (y.order x) && le.onFloats (x.order z)) =
      (le.holds (compare t s) && le.holds (compare s u))

/-- A comparison with NULL is for equality, and says of the value what a test for NULL says. -/
structure TestsNull (op : CmpOp) (v : Scalar) (pos : Bool) : Prop where
  /-- To the evaluator the comparison of an absent value is unknown. -/
  absent : v = .null → (op = .eq → pos = false) ∧ (op = .ne → pos = true)
  /-- The evaluator compares the text of a value with that of `None`. -/
  present : v ≠ .null → (op = .eq ∨ op = .ne) ∧ v ≠ .str "None" ∧
    ∀ n, v = .int n → F.ofInt n ≠ none

variable (S : Reader) (d : Dialect)

/-- What a dialect makes of a pattern. -/
def likeIn (p s : String) : Bool :=
  match d with
  | .arcgis => Piece.matchAll (Piece.pieces none (S.upper p).toList) (S.upper s).toList
  | .fes => Piece.matchAll (Piece.pieces (some '!') p.toList) s.toList
  | _ => Piece.matchAll (Piece.pieces (some '\\') p.toList) s.toList

/-- A NULL among the members makes no difference. In a list it leaves open whether a value is one
    of the members; in a filter it is a test for NULL. -/
def NullMember (v : Scalar) (pos : Bool) (ws : List Scalar) : Prop :=
  if d = .fes then pos = true → v ≠ .null
  else pos = false → v.datum ∈ ws.map datum

/-- The test of the value means the same to the dialect as to the evaluator, where it is asked to
    be `pos`. -/
def Plain (v : Scalar) (pos : Bool) : Leaf → Prop
  | .compare op _ w =>
    if w = .null then TestsNull S.floats op v pos
    else v ≠ .null → Comparable S.floats op v w
  | .isIn _ ws =>
    (v ≠ .null → Listable S.floats ws.val v) ∧ (.null ∈ ws.val → NullMember d v pos ws.val)
  | .notIn _ ws => v ≠ .null → Listable S.floats ws.val v
  | .between _ lo hi => v ≠ .null → Boundable S.floats v lo.val hi.val
  | .like _ p => v ≠ .null → ∃ s, v = .str s ∧ likeMatches p.val s = likeIn S d p.val s
  | .isNull _ _ => True

mutual

/-- The tests of a predicate, with what they are asked to be for the whole to be `pos`. -/
def Predicate.tests (pos : Bool) : Predicate → List (Leaf × Bool)
  | .leaf l => [(l, pos)]
  | .and p ps => p.tests pos ++ testsOf pos ps
  | .or p ps => p.tests pos ++ testsOf pos ps
  | .not p => p.tests (!pos)

def Predicate.testsOf (pos : Bool) : List Predicate → List (Leaf × Bool)
  | [] => []
  | p :: ps => p.tests pos ++ testsOf pos ps

end

theorem testsOf_eq (pos : Bool) (ps : List Predicate) :
    testsOf pos ps = ps.flatMap (tests pos) := by
  induction ps with
  | nil => rfl
  | cons p ps ih => rw [testsOf, ih, flatMap_cons]

/-! ## Numbers and texts -/

variable {F S d} {op : CmpOp} {v w lo hi : Scalar} {p q : Rat} {vs ws : List Scalar}

theorem IsNumber.datum (h : IsNumber F v p) : v.datum = some (.number p) := by
  cases h <;> rfl

theorem IsNumber.toNumber (h : IsNumber F v p) : toNumber F v = .ok (some (.fin p)) := by
  cases h with
  | int h => simp [Query.toNumber, h]
  | float => rfl

theorem IsNumber.numeric (h : IsNumber F v p) : numeric v = some p := by
  cases h <;> rfl

theorem IsNumber.readNumber (h : IsNumber S.floats v p) :
    readNumber S (pyStr S.floats v).toList = some p := by
  cases h with
  | int h =>
    change Query.readNumber S (String.ofList (intChars _)).toList = _
    rw [String.toList_ofList]
    exact readNumber_int _
  | float =>
    change Query.readNumber S (String.ofList (S.floats.chars p)).toList = _
    rw [String.toList_ofList]
    exact readNumber_float p

theorem Fits.readAs (h : Fits S.floats v w) :
    v.datum.bind (Datum.readAs S (pyStr S.floats w)) = w.datum := by
  cases h with
  | bools b c =>
    have htrue : "True".toList.map Char.toLower = "true".toList := by decide
    have hfalse : "False".toList.map Char.toLower = "false".toList := by decide
    have hdiffer : "False".toList.map Char.toLower ≠ "true".toList := by decide
    cases c with
    | true => exact if_pos htrue
    | false => exact (if_neg hdiffer).trans (if_pos hfalse)
  | texts s t => rfl
  | numbers hv hw =>
    rw [hv.datum, hw.datum, bind_some, Datum.readAs, hw.readNumber]
    rfl

theorem compare_bools (b c : Bool) :
    compare (pyStr F (.bool b)) (pyStr F (.bool c)) = compare b c := by
  have hft : compare "False" "True" = Ordering.lt := by decide
  have htf : compare "True" "False" = Ordering.gt := by decide
  have hff : compare "False" "False" = Ordering.eq := by decide
  have htt : compare "True" "True" = Ordering.eq := by decide
  cases b <;> cases c <;> assumption

theorem Comparable.compareLocal (h : Comparable F op v w) :
    ∃ b, compareLocal F op v w = .ok b ∧ compareData op v.datum w.datum = some b := by
  obtain ⟨hfits, htexts⟩ := h
  cases hfits with
  | bools b c =>
    refine ⟨op.holds (compare b c), ?_, rfl⟩
    rw [← compare_bools (F := F)]
    rfl
  | numbers hv hw =>
    refine ⟨op.holds (compare _ _), ?_, by rw [hv.datum, hw.datum]; rfl⟩
    unfold Query.compareLocal
    rw [hv.toNumber, hw.toNumber]
    rfl
  | texts s t =>
    refine ⟨op.holds (compare s t), ?_, rfl⟩
    unfold Query.compareLocal
    rw [toNumber, toNumber]
    cases hs : F.ofText s.toList with
    | none => rfl
    | some x =>
      cases ht : F.ofText t.toList with
      | none => rfl
      | some y => exact congrArg Except.ok (htexts s t x y rfl rfl hs ht)

theorem holds_swap {α : Type} [Ord α] [Std.OrientedOrd α] (a b : α) :
    ge.holds (compare a b) = le.holds (compare b a) := by
  rw [Std.OrientedOrd.eq_swap (a := a)]
  cases compare b a <;> rfl

theorem Boundable.betweenLocal (h : Boundable F v lo hi) :
    ∃ b c, betweenLocal F v lo hi = .ok (b && c) ∧ compareData .ge v.datum lo.datum = some b ∧
      compareData .le v.datum hi.datum = some c := by
  obtain ⟨hlow, hhigh, htexts⟩ := h
  unfold Query.betweenLocal
  cases hlow with
  | bools b c =>
    cases hhigh with
    | bools _ d =>
      refine ⟨_, _, ?_, congrArg some (holds_swap b c), rfl⟩
      rw [← compare_bools (F := F), ← compare_bools (F := F)]
      rfl
    | numbers hv => cases hv
  | numbers hv hlo =>
    cases hhigh with
    | bools | texts => cases hv
    | numbers hv hhi =>
      refine ⟨ge.holds (compare _ _), le.holds (compare _ _), ?_,
        by rw [hv.datum, hlo.datum]; rfl, by rw [hv.datum, hhi.datum]; rfl⟩
      rw [hv.toNumber, hlo.toNumber, hhi.toNumber, holds_swap]
      rfl
  | texts s t =>
    cases hhigh with
    | numbers hv => cases hv
    | texts _ u =>
      refine ⟨_, _, ?_, congrArg some (holds_swap s t), rfl⟩
      rw [toNumber, toNumber, toNumber]
      cases ht : F.ofText t.toList with
      | none => cases F.ofText s.toList <;> rfl
      | some y =>
        cases hu : F.ofText u.toList with
        | none => cases F.ofText s.toList <;> rfl
        | some z =>
          cases hs : F.ofText s.toList with
          | none => rfl
          | some x => exact congrArg Except.ok (htexts s t u x y z rfl rfl rfl hs ht hu)

/-! ## Members -/

theorem hitLocal_cons (hv : Fits F v v) (hw : w ≠ .null → Fits F v w) (hb : ∀ b, v ≠ .bool b) :
    hitLocal F v (w :: ws) = if v.datum = w.datum then .ok true else hitLocal F v ws := by
  cases hv with
  | bools b => exact absurd rfl (hb b)
  | texts s =>
    have hstep : hitLocal F (.str s) (w :: ws) =
        if pyEq (.str s) w then .ok true else hitLocal F (.str s) ws := rfl
    have heq : pyEq (.str s) w ↔ (str s).datum = w.datum := by
      cases w <;> simp [pyEq, numeric, datum]
    rw [hstep]
    simp only [heq]
  | @numbers _ _ p _ hv =>
    have hnumber : isNumber v := by rw [isNumber, hv.numeric]; rfl
    have hstep : hitLocal F v (w :: ws) = if pyEq v w then .ok true
        else (toNumber F w).bind fun x => (toNumber F v).bind fun y =>
          if sameNumber x y then .ok true else hitLocal F v ws := by
      rw [hitLocal, if_pos hnumber]
      rfl
    rw [hstep, hv.toNumber, hv.datum]
    by_cases hnull : w = .null
    · have heq : pyEq v .null = false := by
        cases hv <;> rfl
      rw [hnull, heq]
      rfl
    · cases hw hnull with
      | bools => cases hv
      | texts => cases hv
      | @numbers _ _ _ q _ hw =>
        have heq : pyEq v w = decide (p = q) := by
          rw [pyEq, hv.numeric, hw.numeric]
        have hsame : sameNumber (some (.fin q)) (some (.fin p)) = decide (q = p) := by
          simp [sameNumber, PyFloat.order]
        rw [heq, hw.toNumber, hw.datum]
        by_cases hpq : p = q
        · simp [hpq]
        have hdata : some (Datum.number p) ≠ some (.number q) := by
          simpa using hpq
        rw [if_neg hdata, if_neg (by simpa using hpq)]
        change (if sameNumber (some (.fin q)) (some (.fin p)) then _ else _) = _
        rw [hsame, if_neg (by simpa using Ne.symm hpq)]

theorem hitLocal_bool {b : Bool} (hne : vs ≠ [])
    (h : ∀ w ∈ vs, w ≠ .null → Fits F (.bool b) w) : hitLocal F (.bool b) vs = .ok true := by
  obtain ⟨w, ws, rfl⟩ := exists_cons_of_ne_nil hne
  have hw := h w mem_cons_self
  by_cases hnull : w = .null
  · rw [hnull]
    rfl
  · cases hw hnull with
    | bools _ c => cases b <;> cases c <;> rfl
    | numbers hv => cases hv

theorem Listable.hitLocal (h : Listable F vs v) :
    hitLocal F v vs = .ok (decide (v.datum ∈ vs.map datum)) := by
  obtain ⟨hvalue, hfits, hbools⟩ := h
  by_cases hb : ∃ b, v = .bool b
  · obtain ⟨b, rfl⟩ := hb
    have hmem := hbools b rfl
    rw [hitLocal_bool (ne_nil_of_mem hmem) hfits]
    have hdatum := List.mem_map_of_mem (f := datum) hmem
    simp [hdatum]
  · have hb := not_exists.mp hb
    clear hbools
    induction vs with
    | nil => rfl
    | cons w ws ih =>
      obtain ⟨hw, hws⟩ := forall_mem_cons.mp hfits
      rw [hitLocal_cons hvalue hw hb, ih hws]
      by_cases hdatum : v.datum = w.datum
      · simp [hdatum]
      · simp [hdatum]

theorem Fits.compareData_eq (h : Fits F v w) :
    compareData .eq v.datum w.datum = some (decide (v.datum = w.datum)) := by
  cases h with
  | bools b c => cases b <;> cases c <;> rfl
  | texts s t =>
    change some (decide (compare s t = .eq)) = some (decide (some (Datum.text s) = some (.text t)))
    simp
  | @numbers _ _ p q hv hw =>
    rw [hv.datum, hw.datum]
    change some (decide (compare p q = .eq)) =
      some (decide (some (Datum.number p) = some (.number q)))
    simp

theorem compareData_ne (a b : Option Datum) : compareData .ne a b = (compareData .eq a b).not := by
  cases a with
  | none => rfl
  | some x =>
    cases b with
    | none => rfl
    | some y =>
      change (x.order y).bind _ = Truth.not ((x.order y).bind _)
      cases x.order y with
      | none => rfl
      | some o => simp [holds, Truth.not]

theorem Fits.datum_ne_none (h : Fits F v w) : v.datum ≠ none := by
  cases h with
  | bools | texts => nofun
  | numbers hv => rw [hv.datum]; nofun

section

variable {t : Scalar → Truth} {pos : Bool}

theorem any_members (h : Listable F ws v)
    (ht : ∀ w ∈ ws, w ≠ .null → t w = some (decide (v.datum = w.datum))) (hnull : .null ∈ ws →
      t .null = some false ∨ t .null = none ∧ (pos = false → v.datum ∈ ws.map datum)) :
    some (decide (v.datum ∈ ws.map datum)) = some pos ↔ Truth.any (ws.map t) = some pos := by
  have hvalue := h.value.datum_ne_none
  have htrue : ∀ w ∈ ws, t w = some true ↔ v.datum = w.datum := by
    intro w hw
    by_cases hn : w = .null
    · subst hn
      have hv : v.datum ≠ null.datum := hvalue
      obtain hfalse | ⟨hnone, -⟩ := hnull hw
      · simp [hfalse, hv]
      · simp [hnone, hv]
    · simp [ht w hw hn]
  have hmem : v.datum ∈ ws.map datum ↔ some true ∈ ws.map t := by
    simp only [List.mem_map]
    constructor
    · rintro ⟨w, hw, heq⟩
      exact ⟨w, hw, (htrue w hw).mpr heq.symm⟩
    · rintro ⟨w, hw, heq⟩
      exact ⟨w, hw, ((htrue w hw).mp heq).symm⟩
  cases pos with
  | true => simp [Truth.any_eq_true, hmem]
  | false =>
    rw [Truth.any_eq_false, some_inj, decide_eq_false_iff_not]
    constructor
    · intro hnot u hu
      obtain ⟨w, hw, rfl⟩ := List.mem_map.mp hu
      by_cases hn : w = .null
      · subst hn
        obtain hfalse | ⟨-, hhit⟩ := hnull hw
        · exact hfalse
        · exact absurd (hhit rfl) hnot
      · have hdiffer : v.datum ≠ w.datum := by
          intro heq
          exact hnot (List.mem_map.mpr ⟨w, hw, heq.symm⟩)
        rw [ht w hw hn, decide_eq_false hdiffer]
    · intro hall hhit
      have := hall _ (hmem.mp hhit)
      cases this

theorem all_members (h : Listable F ws v)
    (ht : ∀ w ∈ ws, w ≠ .null → t w = some (decide (v.datum ≠ w.datum)))
    (hnull : .null ∈ ws → t .null = none) :
    Truth.all (ws.map t) = if v.datum ∈ ws.map datum then some false
      else if .null ∈ ws then none else some true := by
  have hvalue := h.value.datum_ne_none
  by_cases hhit : v.datum ∈ ws.map datum
  · obtain ⟨w, hw, heq⟩ := List.mem_map.mp hhit
    have hn : w ≠ .null := by
      rintro rfl
      exact hvalue heq.symm
    have hfalse : t w = some false := by simp [ht w hw hn, heq]
    rw [if_pos hhit, Truth.all_eq_false]
    exact List.mem_map.mpr ⟨w, hw, hfalse⟩
  · have htrue : ∀ w ∈ ws, w ≠ .null → t w = some true := by
      intro w hw hn
      have hdiffer : v.datum ≠ w.datum := by
        intro heq
        exact hhit (List.mem_map.mpr ⟨w, hw, heq.symm⟩)
      rw [ht w hw hn, decide_eq_true hdiffer]
    rw [if_neg hhit]
    by_cases hn : .null ∈ ws
    · rw [if_pos hn]
      refine all_eq_none.mpr ⟨?_, List.mem_map.mpr ⟨_, hn, hnull hn⟩⟩
      intro hfalse
      obtain ⟨w, hw, heq⟩ := List.mem_map.mp hfalse
      by_cases hw' : w = .null
      · rw [hw', hnull hn] at heq
        cases heq
      · rw [htrue w hw hw'] at heq
        cases heq
    · rw [if_neg hn, Truth.all_eq_true]
      intro u hu
      obtain ⟨w, hw, rfl⟩ := List.mem_map.mp hu
      exact htrue w hw fun heq => hn (heq ▸ hw)

end

/-! ## Tests -/

/-- The evaluator and a condition agree on whether the outcome is `pos`. -/
def Alike (S : Reader) (row : Row) (pos : Bool) (x : Outcome Truth) (c : Cond) : Prop :=
  ∃ r, x = .ok r ∧ (r = some pos ↔ c.eval S row = some pos)

section

variable {row : Row} {pos : Bool} {f : FieldName}

theorem Alike.of_eq {x : Outcome Truth} {c : Cond} (h : x = .ok (c.eval S row)) :
    Alike S row pos x c := ⟨_, h, Iff.rfl⟩

theorem eval_column (row : Row) (f : FieldName) :
    (Operand.column f.val).eval S row = (row.get f).datum := by
  unfold Operand.eval Row.datum Row.get
  cases Dict.find row f.val <;> rfl

theorem eval_nullCond (negated : Bool) :
    (nullCond f.val negated).eval S row = some (decide ((row.get f = .null) ≠ negated)) := by
  have hcolumn : (isNull (.column f.val)).eval S row =
      some (decide (row.get f = .null)) := by
    rw [eval, eval_column]
    cases row.get f <;> rfl
  cases negated with
  | false => simpa [nullCond] using hcolumn
  | true =>
    change ((isNull (.column f.val)).eval S row).not = _
    rw [hcolumn]
    simp [Truth.not]

theorem eval_compare {w : Scalar} :
    (compare op (.column f.val) (valueOf w)).eval S row =
      compareData op (row.get f).datum w.datum := by
  rw [eval, eval_column]
  rfl

theorem eval_compareAs {s : String} :
    (compareAs op (.column f.val) s).eval S row =
      compareData op (row.get f).datum ((row.get f).datum.bind (Datum.readAs S s)) := by
  rw [eval, eval_column]

theorem eval_leafCompare {w : Scalar} (hw : w ≠ .null)
    (hfits : row.get f ≠ .null → Fits S.floats (row.get f) w) :
    (leafCond S.floats d (.compare op f w)).eval S row =
      compareData op (row.get f).datum w.datum := by
  have hcompare : (compareCond op f.val w).eval S row =
      compareData op (row.get f).datum w.datum := by
    simp only [compareCond, hw, and_false, if_false]
    exact eval_compare
  have hfes : (fesCond S.floats op f.val w).eval S row =
      compareData op (row.get f).datum w.datum := by
    simp only [fesCond, hw, and_false, if_false]
    rw [eval_compareAs]
    by_cases hv : row.get f = .null
    · rw [hv]
      rfl
    · rw [(hfits hv).readAs]
  cases d with
  | fes => exact hfes
  | sql | cql2 | arcgis => exact hcompare

theorem eval_eqNull :
    (leafCond S.floats d (.compare .eq f .null)).eval S row =
      some (decide (row.get f = .null)) := by
  have hnull : (nullCond f.val false).eval S row = _ := eval_nullCond false
  have heval : (leafCond S.floats d (.compare .eq f .null)).eval S row =
      (nullCond f.val false).eval S row := by
    cases d <;> rfl
  rw [heval, hnull]
  simp

theorem eval_neNull :
    (leafCond S.floats d (.compare .ne f .null)).eval S row =
      some (decide (row.get f ≠ .null)) := by
  have hnull : (nullCond f.val true).eval S row = _ := eval_nullCond true
  have heval : (leafCond S.floats d (.compare .ne f .null)).eval S row =
      (nullCond f.val true).eval S row := by
    cases d <;> rfl
  rw [heval, hnull]
  simp

theorem eval_orderNull (heq : op ≠ .eq) (hne : op ≠ .ne) (hv : row.get f = .null) :
    (leafCond S.floats d (.compare op f .null)).eval S row = none := by
  have hcompare : (compareCond op f.val .null).eval S row = none := by
    simp only [compareCond, heq, hne, false_and, if_false]
    rw [eval_compare, hv]
    rfl
  have hfes : (fesCond S.floats op f.val .null).eval S row = none := by
    simp only [fesCond, heq, hne, false_and, if_false]
    rw [eval_compareAs, hv]
    rfl
  cases d with
  | fes => exact hfes
  | sql | cql2 | arcgis => exact hcompare

theorem pyStr_ne_none (hv : v ≠ .null) (hs : v ≠ .str "None") : pyStr F v ≠ "None" := by
  have hlead : ∀ cs : Text, (∀ c, cs.head? = some c → c.isDigit ∨ c = '-') →
      String.ofList cs ≠ "None" := by
    intro cs hhead heq
    have hcs : cs = "None".toList := by rw [← heq, String.toList_ofList]
    have := hhead 'N' (by rw [hcs]; rfl)
    exact absurd this (by decide)
  cases v with
  | null => exact absurd rfl hv
  | bool b =>
    have htexts : "False" ≠ "None" ∧ "True" ≠ "None" := by decide
    cases b with
    | false => exact htexts.1
    | true => exact htexts.2
  | int n => exact hlead _ fun c hc => head_intChars c hc
  | float q => exact hlead _ (F.lead q)
  | str s => exact fun h => hs (congrArg str h)

/-- The evaluator compares the text of a value with that of `None`. -/
theorem compareLocal_null (hv : v ≠ .null) (hs : v ≠ .str "None")
    (hn : ∀ n, v = .int n → F.ofInt n ≠ none) (hop : op = .eq ∨ op = .ne) :
    compareLocal F op v .null = .ok (decide (op = .ne)) := by
  have hdiffer : compare (pyStr F v) "None" ≠ .eq := fun h =>
    pyStr_ne_none hv hs (Std.LawfulEqOrd.eq_of_compare h)
  have hholds : op.holds (compare (pyStr F v) "None") = decide (op = .ne) := by
    obtain rfl | rfl := hop
    · exact decide_eq_false hdiffer
    · exact decide_eq_true hdiffer
  obtain ⟨x, hx⟩ : ∃ x, toNumber F v = .ok x := by
    cases v with
    | int n =>
      obtain ⟨q, hq⟩ := ne_none_iff_exists'.mp (hn n rfl)
      exact ⟨_, by rw [toNumber, hq]⟩
    | null | bool _ | float _ | str _ => exact ⟨_, rfl⟩
  unfold compareLocal
  rw [hx, ← hholds]
  cases x <;> rfl

theorem alike_compare {w : Scalar} (h : Plain S d (row.get f) pos (.compare op f w)) :
    Alike S row pos (evalLeaf S.floats (.compare op f w) row)
      (leafCond S.floats d (.compare op f w)) := by
  have heval : evalLeaf S.floats (.compare op f w) row = if row.get f = .null then .ok none
      else (compareLocal S.floats op (row.get f) w).bind fun b => .ok (some b) := rfl
  by_cases hw : w = .null
  · subst hw
    have h : TestsNull S.floats op (row.get f) pos := by
      have := h
      rwa [Plain, if_pos rfl] at this
    by_cases hv : row.get f = .null
    · refine ⟨none, heval.trans (if_pos hv), ?_⟩
      obtain ⟨heq, hne⟩ := h.absent hv
      by_cases hop : op = .eq
      · rw [hop, heq hop, eval_eqNull, hv]
        simp
      · by_cases hop' : op = .ne
        · rw [hop', hne hop', eval_neNull, hv]
          simp
        · rw [eval_orderNull hop hop' hv]
    · obtain ⟨hop, hs, hn⟩ := h.present hv
      refine .of_eq ?_
      rw [heval, if_neg hv, compareLocal_null hv hs hn hop]
      obtain rfl | rfl := hop
      · rw [eval_eqNull, decide_eq_false hv]
        rfl
      · rw [eval_neNull, decide_eq_true hv]
        rfl
  · have h : row.get f ≠ .null → Comparable S.floats op (row.get f) w := by
      have := h
      rwa [Plain, if_neg hw] at this
    refine .of_eq ?_
    rw [heval, eval_leafCompare hw fun hv => (h hv).fits]
    by_cases hv : row.get f = .null
    · rw [if_pos hv, hv]
      rfl
    · obtain ⟨b, hlocal, hdata⟩ := (h hv).compareLocal
      rw [if_neg hv, hlocal, hdata]
      rfl

theorem eval_joinOr (c : Cond) (cs : List Cond) :
    (joinCond .or c cs).eval S row = Truth.any ((c :: cs).map (eval S row)) := by
  induction cs generalizing c with
  | nil => exact any_singleton.symm
  | cons d ds ih =>
    change Truth.any [c.eval S row, (joinCond .or d ds).eval S row] = _
    rw [ih d, Truth.any_cons]
    rfl

theorem eval_joinAnd (c : Cond) (cs : List Cond) :
    (joinCond .and c cs).eval S row = Truth.all ((c :: cs).map (eval S row)) := by
  induction cs generalizing c with
  | nil => exact all_singleton.symm
  | cons d ds ih =>
    change Truth.all [c.eval S row, (joinCond .and d ds).eval S row] = _
    rw [ih d, Truth.all_cons]
    rfl

/-- What a dialect makes of the members of a list. -/
def memberTruth (S : Reader) (d : Dialect) (row : Row) (f : FieldName) (w : Scalar) : Truth :=
  if d = .fes then (fesCond S.floats .eq f.val w).eval S row
  else compareData .eq (row.get f).datum w.datum

theorem eval_isIn (vs : Members) :
    (leafCond S.floats d (.isIn f vs)).eval S row =
      Truth.any (vs.val.map (memberTruth S d row f)) := by
  have hlist : (anyOf .eq (.column f.val) (vs.val.map valueOf)).eval S row =
      Truth.any (vs.val.map fun w => compareData .eq (row.get f).datum w.datum) := by
    rw [eval, List.map_map, eval_column]
    rfl
  cases d with
  | fes =>
    obtain ⟨vs, hvs⟩ := vs
    cases vs with
    | nil => exact absurd hvs.1 (by decide)
    | cons v vs =>
      change (joinCond .or (fesCond S.floats .eq f.val v)
        (vs.map (fesCond S.floats .eq f.val))).eval S row = _
      rw [eval_joinOr, map_cons, List.map_map]
      rfl
  | sql | cql2 | arcgis => exact hlist

theorem eval_notIn {vs : Members} (hnull : d = .fes → .null ∉ vs.val)
    (hfits : row.get f ≠ .null → ∀ w ∈ vs.val, w ≠ .null → Fits S.floats (row.get f) w) :
    (leafCond S.floats d (.notIn f vs)).eval S row =
      Truth.all (vs.val.map fun w => compareData .ne (row.get f).datum w.datum) := by
  have hany : (not (.anyOf .eq (.column f.val) (vs.val.map valueOf))).eval S row =
      Truth.all (vs.val.map fun w => compareData .ne (row.get f).datum w.datum) := by
    simp only [compareData_ne]
    rw [eval, eval, List.map_map, eval_column, not_any, List.map_map]
    rfl
  cases d with
  | fes =>
    obtain ⟨vs, hvs⟩ := vs
    cases vs with
    | nil => exact absurd hvs.1 (by decide)
    | cons v vs =>
      change (joinCond .and (fesCond S.floats .ne f.val v)
        (vs.map (fesCond S.floats .ne f.val))).eval S row = _
      rw [eval_joinAnd, ← map_cons, List.map_map]
      refine congrArg Truth.all (map_congr_left fun w hw => ?_)
      have hw' : w ≠ .null := fun h => hnull rfl (h ▸ hw)
      exact eval_leafCompare (d := .fes) hw' fun hv => hfits hv w hw hw'
  | sql =>
    change (allOf .ne (.column f.val) (vs.val.map valueOf)).eval S row = _
    rw [eval, List.map_map, eval_column]
    rfl
  | cql2 | arcgis => exact hany

theorem memberTruth_eq {w : Scalar} (hw : w ≠ .null)
    (hfits : row.get f ≠ .null → Fits S.floats (row.get f) w) :
    memberTruth S d row f w = compareData .eq (row.get f).datum w.datum := by
  unfold memberTruth
  split
  · exact eval_leafCompare (d := .fes) hw hfits
  · rfl

theorem alike_isIn {vs : Members} (h : Plain S d (row.get f) pos (.isIn f vs)) :
    Alike S row pos (evalLeaf S.floats (.isIn f vs) row) (leafCond S.floats d (.isIn f vs)) := by
  obtain ⟨hlist, hnull⟩ := h
  have heval : evalLeaf S.floats (.isIn f vs) row = if row.get f = .null then .ok none
      else (hitLocal S.floats (row.get f) vs.val).bind fun b => .ok (some b) := rfl
  unfold Alike
  rw [heval, eval_isIn]
  by_cases hv : row.get f = .null
  · refine ⟨none, if_pos hv, iff_of_false nofun ?_⟩
    have hnone : ∀ w ∈ vs.val, w ≠ .null → memberTruth S d row f w = none := by
      intro w _ hn
      rw [memberTruth_eq hn fun h => absurd hv h, hv]
      rfl
    cases pos with
    | true =>
      rw [Truth.any_eq_true, List.mem_map]
      rintro ⟨w, hw, htrue⟩
      by_cases hn : w = .null
      · subst hn
        by_cases hd : d = .fes
        · have := hnull hw
          rw [NullMember, if_pos hd] at this
          exact this rfl hv
        · rw [memberTruth, if_neg hd, hv] at htrue
          cases htrue
      · rw [hnone w hw hn] at htrue
        cases htrue
    | false =>
      rw [Truth.any_eq_false]
      intro hall
      obtain ⟨w, hw⟩ := exists_mem_of_length_pos vs.property.1
      have hfalse := hall _ (List.mem_map_of_mem hw)
      by_cases hn : w = .null
      · subst hn
        unfold memberTruth at hfalse
        split at hfalse
        · have hcond : (leafCond S.floats .fes (.compare .eq f .null)).eval S row = _ := eval_eqNull
          rw [hv] at hcond
          exact absurd (hcond.symm.trans hfalse) (by decide)
        · rw [hv] at hfalse
          cases hfalse
      · rw [hnone w hw hn] at hfalse
        cases hfalse
  · have hlist := hlist hv
    refine ⟨some _, by rw [if_neg hv, hlist.hitLocal]; rfl, any_members hlist ?_ ?_⟩
    · intro w hw hn
      rw [memberTruth_eq hn fun _ => hlist.fits w hw hn, (hlist.fits w hw hn).compareData_eq]
    · intro hmem
      have hnull := hnull hmem
      unfold NullMember at hnull
      unfold memberTruth
      split at hnull
      · rename_i hd
        left
        rw [if_pos hd]
        have hcond : (leafCond S.floats .fes (.compare .eq f .null)).eval S row = _ := eval_eqNull
        rw [decide_eq_false hv] at hcond
        exact hcond
      · rename_i hd
        right
        refine ⟨?_, hnull⟩
        rw [if_neg hd]
        cases row.get f <;> rfl

theorem alike_notIn {vs : Members} (h : Plain S d (row.get f) pos (.notIn f vs))
    (hnull : d = .fes → .null ∉ vs.val) :
    Alike S row pos (evalLeaf S.floats (.notIn f vs) row) (leafCond S.floats d (.notIn f vs)) := by
  have hlist : row.get f ≠ .null → Listable S.floats vs.val (row.get f) := h
  have heval : evalLeaf S.floats (.notIn f vs) row = if row.get f = .null then .ok none
      else (hitLocal S.floats (row.get f) vs.val).bind fun b =>
        if b then .ok (some false) else if .null ∈ vs.val then .ok none else .ok (some true) := rfl
  unfold Alike
  rw [heval, eval_notIn hnull fun hv => (hlist hv).fits]
  by_cases hv : row.get f = .null
  · refine ⟨none, if_pos hv, iff_of_false nofun ?_⟩
    have hnone : ∀ w : Scalar, compareData .ne (row.get f).datum w.datum = none := by
      intro w
      rw [hv]
      rfl
    obtain ⟨w, hw⟩ := exists_mem_of_length_pos vs.property.1
    cases pos with
    | true => simpa [Truth.all_eq_true, hnone] using ne_nil_of_mem hw
    | false => simp [Truth.all_eq_false, hnone]
  · have hlist := hlist hv
    have hall := all_members (t := fun w => compareData .ne (row.get f).datum w.datum) hlist
      (by
        intro w hw hn
        rw [compareData_ne, (hlist.fits w hw hn).compareData_eq]
        simp [Truth.not])
      (by
        intro _
        cases row.get f <;> rfl)
    rw [hall, if_neg hv, hlist.hitLocal]
    refine ⟨_, ?_, Iff.rfl⟩
    by_cases hhit : (row.get f).datum ∈ vs.val.map datum
    · rw [if_pos hhit, decide_eq_true hhit]
      rfl
    · rw [if_neg hhit, decide_eq_false hhit]
      split <;> rfl

theorem alike_between {lo hi : Bound} (h : Plain S d (row.get f) pos (.between f lo hi)) :
    Alike S row pos (evalLeaf S.floats (.between f lo hi) row)
      (leafCond S.floats d (.between f lo hi)) := by
  have h : row.get f ≠ .null → Boundable S.floats (row.get f) lo.val hi.val := h
  have heval : evalLeaf S.floats (.between f lo hi) row = if row.get f = .null then .ok none
      else (betweenLocal S.floats (row.get f) lo.val hi.val).bind fun b => .ok (some b) := rfl
  have hcond : (leafCond S.floats d (.between f lo hi)).eval S row =
      Truth.all [compareData .ge (row.get f).datum lo.val.datum,
        compareData .le (row.get f).datum hi.val.datum] := by
    have hbetween : (betweenCond f.val (valueOf lo.val) (valueOf hi.val)).eval S row =
        Truth.all [compareData .ge (row.get f).datum lo.val.datum,
          compareData .le (row.get f).datum hi.val.datum] := by
      rw [betweenCond, eval, eval_compare, eval_compare]
    have hfes : (and (.compareAs .ge (.column f.val) (pyStr S.floats lo.val))
        (.compareAs .le (.column f.val) (pyStr S.floats hi.val))).eval S row =
        Truth.all [compareData .ge (row.get f).datum lo.val.datum,
          compareData .le (row.get f).datum hi.val.datum] := by
      rw [eval, eval_compareAs, eval_compareAs]
      by_cases hv : row.get f = .null
      · rw [hv]
        rfl
      · rw [(h hv).low.readAs, (h hv).high.readAs]
    cases d with
    | fes => exact hfes
    | sql | cql2 | arcgis => exact hbetween
  refine .of_eq ?_
  rw [heval, hcond]
  by_cases hv : row.get f = .null
  · rw [if_pos hv, hv]
    rfl
  · obtain ⟨b, c, hlocal, hlow, hhigh⟩ := (h hv).betweenLocal
    rw [if_neg hv, hlocal, hlow, hhigh]
    cases b <;> cases c <;> rfl

theorem eval_like (p : Pattern) (text : Option String) (hv : (row.get f).datum = text.map .text) :
    (leafCond S.floats d (.like f p)).eval S row = text.map (likeIn S d p.val) := by
  have hcolumn := eval_column (S := S) row f
  rw [hv] at hcolumn
  have hupper : (Operand.upper (.column f.val)).eval S row =
      text.map fun s => .text (S.upper s) := by
    rw [Operand.eval, hcolumn]
    cases text <;> rfl
  cases d with
  | arcgis =>
    change likeData none ((Operand.upper (.column f.val)).eval S row) _ = _
    rw [hupper]
    cases text <;> rfl
  | sql | cql2 | fes =>
    change likeData _ ((Operand.column f.val).eval S row) _ = _
    rw [hcolumn]
    cases text <;> rfl

theorem alike_like {p : Pattern} (h : Plain S d (row.get f) pos (.like f p)) :
    Alike S row pos (evalLeaf S.floats (.like f p) row) (leafCond S.floats d (.like f p)) := by
  have h : row.get f ≠ .null → ∃ s, row.get f = .str s ∧ likeMatches p.val s = likeIn S d p.val s :=
    h
  have heval : evalLeaf S.floats (.like f p) row = if row.get f = .null then .ok none
      else .ok (some (likeMatches p.val (pyStr S.floats (row.get f)))) := rfl
  refine .of_eq ?_
  rw [heval]
  by_cases hv : row.get f = .null
  · rw [if_pos hv, eval_like p none (by rw [hv]; rfl)]
    rfl
  · obtain ⟨s, hs, hlike⟩ := h hv
    rw [if_neg hv, eval_like p (some s) (by rw [hs]; rfl), hs]
    exact congrArg (fun b => Except.ok (some b)) hlike

theorem alike_isNull (negated : Bool) :
    Alike S row pos (evalLeaf S.floats (.isNull f negated) row)
      (leafCond S.floats d (.isNull f negated)) := by
  have hcond : (leafCond S.floats d (.isNull f negated)).eval S row =
      (nullCond f.val negated).eval S row := by
    cases d <;> rfl
  refine .of_eq ?_
  rw [hcond, eval_nullCond]
  rfl

end

theorem alike_leaf {row : Row} {pos : Bool} {l : Leaf} (h : Plain S d (row.get l.field) pos l)
    (hnull : d = .fes → l.testsNotNull = false) :
    Alike S row pos (evalLeaf S.floats l row) (leafCond S.floats d l) := by
  cases l with
  | compare op f w => exact alike_compare h
  | isIn f vs => exact alike_isIn h
  | notIn f vs =>
    refine alike_notIn h fun hd hmem => ?_
    have := hnull hd
    simp [Leaf.testsNotNull, hmem] at this
  | between f lo hi => exact alike_between h
  | like f p => exact alike_like h
  | isNull f negated => exact alike_isNull negated

/-! ## Predicates -/

theorem alike_args {row : Row} {pos : Bool} {ps : List Predicate}
    (h : ∀ p ∈ ps, Alike S row pos (evalThreeValued S.floats row p)
      (treeCond (leafCond S.floats d) p)) :
    ∃ rs, evalArgs S.floats row ps = .ok rs ∧
      List.Forall₂ (fun r t => r = some pos ↔ t = some pos) rs
        ((treeConds (leafCond S.floats d) ps).map (eval S row)) := by
  induction ps with
  | nil => exact ⟨[], rfl, .nil⟩
  | cons p ps ih =>
    obtain ⟨hp, hps⟩ := forall_mem_cons.mp h
    obtain ⟨r, hr, hiff⟩ := hp
    obtain ⟨rs, hrs, hall⟩ := ih hps
    refine ⟨r :: rs, ?_, forall₂_cons.mpr ⟨hiff, hall⟩⟩
    rw [evalArgs, hr, hrs]
    rfl

theorem mem_testsOf {pos : Bool} {ps : List Predicate} {p : Predicate} {t : Leaf × Bool}
    (hp : p ∈ ps) (ht : t ∈ p.tests pos) : t ∈ testsOf pos ps := by
  rw [testsOf_eq]
  exact mem_flatMap.mpr ⟨p, hp, ht⟩

theorem mem_leavesOf {ps : List Predicate} {p : Predicate} {l : Leaf} (hp : p ∈ ps)
    (hl : l ∈ p.leaves) : l ∈ leavesOf ps := by
  rw [leavesOf_eq]
  exact mem_flatMap.mpr ⟨p, hp, hl⟩

theorem alike_tree {row : Row} (p : Predicate) {pos : Bool}
    (h : ∀ t ∈ p.tests pos, Plain S d (row.get t.1.field) t.2 t.1)
    (hnull : d = .fes → ∀ l ∈ p.leaves, l.testsNotNull = false) :
    Alike S row pos (evalThreeValued S.floats row p) (treeCond (leafCond S.floats d) p) := by
  induction p using tree_induct generalizing pos with
  | leaf l =>
    exact alike_leaf (h _ (mem_singleton_self _)) fun hd =>
      hnull hd l (mem_singleton_self l)
  | and p ps ih =>
    obtain ⟨hp, hps⟩ := forall_mem_cons.mp ih
    obtain ⟨r, hr, hiff⟩ := hp (fun t ht => h t (mem_append_left _ ht))
      fun hd l hl => hnull hd l (mem_append_left _ hl)
    obtain ⟨rs, hrs, hall⟩ := alike_args (d := d) fun q hq => hps q hq
      (fun t ht => h t (mem_append_right _ (mem_testsOf hq ht)))
      fun hd l hl => hnull hd l (mem_append_right _ (mem_leavesOf hq hl))
    refine ⟨Truth.all (r :: rs), by rw [evalThreeValued, hr, hrs]; rfl, ?_⟩
    rw [treeCond, eval_joinAnd]
    exact Truth.all_congr (forall₂_cons.mpr ⟨hiff, hall⟩)
  | or p ps ih =>
    obtain ⟨hp, hps⟩ := forall_mem_cons.mp ih
    obtain ⟨r, hr, hiff⟩ := hp (fun t ht => h t (mem_append_left _ ht))
      fun hd l hl => hnull hd l (mem_append_left _ hl)
    obtain ⟨rs, hrs, hall⟩ := alike_args (d := d) fun q hq => hps q hq
      (fun t ht => h t (mem_append_right _ (mem_testsOf hq ht)))
      fun hd l hl => hnull hd l (mem_append_right _ (mem_leavesOf hq hl))
    refine ⟨Truth.any (r :: rs), by rw [evalThreeValued, hr, hrs]; rfl, ?_⟩
    rw [treeCond, eval_joinOr]
    exact Truth.any_congr (forall₂_cons.mpr ⟨hiff, hall⟩)
  | not p ih =>
    obtain ⟨r, hr, hiff⟩ := ih h hnull
    refine ⟨r.not, by rw [evalThreeValued, hr]; rfl, ?_⟩
    change r.not = some pos ↔ ((treeCond _ p).eval S row).not = some pos
    rw [not_eq_some, not_eq_some]
    exact hiff

/-! ## Rows -/

variable (S) in
/-- The tests of a predicate mean the same to a dialect as to the evaluator. -/
def MeansSame (d : Dialect) (p : Predicate) (row : Row) : Prop :=
  ∀ t ∈ p.tests true, Plain S d (row.get t.1.field) t.2 t.1

theorem selects_of_cond {p : Predicate} {row : Row} {c : Option Cond}
    (hc : c = some (treeCond (leafCond S.floats d) p)) (h : MeansSame S d p row)
    (hnull : d = .fes → ∀ l ∈ p.leaves, l.testsNotNull = false) :
    Selects S c row ↔ evaluatePredicate S.floats p row = .ok true := by
  obtain ⟨r, hr, hiff⟩ := alike_tree p h hnull
  have heval : evaluatePredicate S.floats p row = .ok (decide (r = some true)) := by
    unfold evaluatePredicate
    rw [hr]
    rfl
  rw [heval, hc]
  constructor
  · rintro ⟨c, hc, hselect⟩
    obtain rfl := some.inj hc
    rw [decide_eq_true (hiff.mpr hselect)]
  · intro h
    refine ⟨_, rfl, hiff.mp ?_⟩
    injection h with h
    exact of_decide_eq_true h

/-- The number that a fraction spells. -/
def readFraction (cs : Text) : Option PyFloat :=
  match readInt (cs.takeWhile (· != 'e')) with
  | none => none
  | some n =>
    match readInt (cs.dropWhile (· != 'e')).tail with
    | none => none
    | some m => some (.fin (n / m))

theorem readFraction_chars (q : Rat) : readFraction (fractionChars q) = some (.fin q) := by
  have hhead : (fractionChars q).takeWhile (· != 'e') = intChars q.num := by
    rw [fractionChars, takeWhile_append_of_pos (e_notMem q.num)]
    simp
  have htail : (fractionChars q).dropWhile (· != 'e') = 'e' :: intChars q.den := by
    rw [fractionChars, dropWhile_append_of_pos (e_notMem q.num)]
    simp
  unfold readFraction
  rw [hhead, htail, readInt_intChars, tail_cons, readInt_intChars]
  simp [Rat.num_div_den]

/-- Numbers as fractions, all of which are floats. -/
def fractions : Floats where
  toFloatRepr := default
  ofInt n := some n
  ofText := readFraction
  ofText_chars := readFraction_chars
  lead q c h := by
    have hhead : (intChars q.num ++ 'e' :: intChars q.den).head? = some c := h
    obtain ⟨d, ds, hds⟩ := exists_cons_of_ne_nil (intChars_ne_nil q.num)
    rw [hds] at hhead
    refine head_intChars (n := q.num) c ?_
    rw [hds]
    exact hhead

/-- A reader with the capital letters of ASCII. -/
def plainReader : Reader where
  floats := fractions
  upper s := String.ofList (s.toList.map Char.toUpper)

/-- Someone of age whose name begins with A, of one of two kinds. -/
def someAdult : Predicate :=
  .and (.leaf (.compare .ge ⟨"age", by decide⟩ (.int 18)))
    [.leaf (.like ⟨"name", by decide⟩ ⟨"A%", by decide⟩),
      .leaf (.isIn ⟨"kind", by decide⟩ ⟨[.str "a", .null], by decide⟩)]

def anna : Row := ⟨[("age", .int 30), ("name", .str "Anna"), ("kind", .str "a")], by decide⟩

theorem someAdult_means_same (d : Dialect) : MeansSame plainReader d someAdult anna := by
  intro t ht
  have htests : someAdult.tests true = [(.compare .ge ⟨"age", by decide⟩ (.int 18), true),
      (.like ⟨"name", by decide⟩ ⟨"A%", by decide⟩, true),
      (.isIn ⟨"kind", by decide⟩ ⟨[.str "a", .null], by decide⟩, true)] := rfl
  rw [htests] at ht
  simp only [mem_cons, not_mem_nil, or_false] at ht
  obtain rfl | rfl | rfl := ht
  · rw [Plain, if_neg (by decide)]
    refine fun _ => ⟨.numbers (.int rfl) (.int rfl), fun s t x y h => ?_⟩
    cases (show int 30 = .str s from h)
  · intro _
    refine ⟨"Anna", rfl, ?_⟩
    cases d <;> rfl
  · have hkind : anna.get ⟨"kind", by decide⟩ = .str "a" := rfl
    refine ⟨fun _ => ⟨.texts "a" "a", ?_, fun b h => ?_⟩, fun _ => ?_⟩
    · intro w hw hn
      simp only [mem_cons, not_mem_nil, or_false] at hw
      obtain rfl | rfl := hw
      · exact .texts "a" "a"
      · exact absurd rfl hn
    · cases (show str "a" = .bool b from h)
    · unfold NullMember
      split
      · exact fun _ h => by cases h
      · exact fun h => by cases h

end WebGis.Query
