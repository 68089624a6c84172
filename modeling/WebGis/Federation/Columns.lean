/-
  A column of a group: what SQL makes of it and what the accumulators of `_AggregateState` do.

  SQL compares numbers by value and texts by their characters, and knows no other types here. The
  accumulators take a number as a float, and anything else by its text.
-/
import WebGis.Federation.Groups

namespace WebGis.Federation

open Data List Cell

/-! ## Aggregates that may be pushed -/

/-- `_SAFE_PUSH_AGG_FUNCS` -/
def safePushAggFunc : AggFunc → Bool
  | .count | .sum | .min | .max | .avg => true
  | .stddev | .distinctCount => false

/-- `float(v)`, where that raises nothing. -/
def toFloat (readFloat : String → Option Rat) : Value → Value
  | .bool b => .float (if b then 1 else 0)
  | .int n => .float n
  | .float q => .float q
  | .decimal d => .float d.value
  | .str s =>
    match readFloat s with
    | some q => .float q
    | none => .str s
  | v => v

/-! ## SQL -/

/-- `<` of SQL: numbers by value, texts by their characters. -/
def sqlLess : Value → Value → Bool
  | .str s, .str t => s < t
  | v, w =>
    match comparable? v, comparable? w with
    | some p, some q => p < q
    | _, _ => false

/-- The first value to which no later one is preferred. -/
def sqlBest (better : Value → Value → Bool) : List Value → Value
  | [] => .null
  | v :: vs => vs.foldl (fun best v => if better v best then v else best) v

/-- The values of a column that are not NULL. -/
def columnValues (field : String) (members : List Row) : List Value :=
  (members.map fun r => r.topKey field).filter fun v => v ≠ .null

/-- The sum of a column. -/
def sqlTotal (vs : List Value) : Rat := (vs.filterMap comparable?).sum

/-- An aggregate of a group. -/
def sqlAggregate (a : AggSpec) (members : List Row) : Value :=
  match a.field with
  | none => if a.func = .count then .int members.length else .null
  | some field =>
    let vs := columnValues field members
    match a.func with
    | .count => .int vs.length
    | .sum => if vs = [] then .null else .float (sqlTotal vs)
    | .avg => if vs = [] then .null else .float (sqlTotal vs / vs.length)
    | .min => sqlBest sqlLess vs
    | .max => sqlBest (fun v w => sqlLess w v) vs
    | .stddev | .distinctCount => .null

/-! ## Values -/

/-- `v == w` -/
def SameValue (v w : Value) : Prop :=
  v = w ∨ ∃ q, comparable? v = some q ∧ comparable? w = some q

/-- What is projected of an aggregate of SQL. -/
def projected (readFloat : String → Option Rat) (func : AggFunc) (v : Value) : Value :=
  if func = .sum ∨ func = .avg then toFloat readFloat v else v

/-- No text or list comes before an integer or a float. -/
def TextsLast (vs : List Value) : Prop :=
  vs.Pairwise fun v w => comparable? v = none → number? w = none

/-- Texts, or booleans. -/
def OneKind (vs : List Value) : Prop :=
  (∀ v ∈ vs, ∃ s, v = .str s) ∨ ∀ v ∈ vs, ∃ b, v = .bool b

/-- A column of which the local accumulators make what SQL does. -/
def PlainColumn (func : AggFunc) (vs : List Value) : Prop :=
  match func with
  | .count => TextsLast vs
  | .min | .max => AllNumbers vs ∨ OneKind vs
  | _ => AllNumbers vs

variable {q : Rat} {v : Value}

theorem comparable_of_number (h : number? v = some q) : comparable? v = some q := by
  cases v <;> simp_all [number?, comparable?]

variable {vs : List Value}

theorem filterMap_comparable (h : AllNumbers vs) :
    vs.filterMap comparable? = vs.filterMap number? := by
  refine filterMap_congr fun v hv => ?_
  obtain ⟨q, hq⟩ := h v hv
  rw [hq, comparable_of_number hq]

theorem sqlLess_of_numbers {w : Value} {p : Rat} (hv : number? v = some p)
    (hw : number? w = some q) : sqlLess v w = decide (p < q) := by
  have hv' := comparable_of_number hv
  have hw' := comparable_of_number hw
  cases v with
  | int n => simp only [sqlLess, hv', hw']
  | float x => simp only [sqlLess, hv', hw']
  | null => cases hv
  | bool b => cases hv
  | decimal d => cases hv
  | str s => cases hv
  | coll t => cases hv

theorem number_sqlBest_min (h : AllNumbers vs) (hv : number? v = some q) :
    number? (vs.foldl (fun best v => if sqlLess v best then v else best) v) =
      some ((vs.filterMap number?).foldl min q) := by
  induction vs generalizing v q with
  | nil => exact hv
  | cons w vs ih =>
    obtain ⟨⟨p, hp⟩, hrest⟩ := forall_mem_cons.mp h
    rw [foldl_cons, filterMap_cons, hp, foldl_cons, sqlLess_of_numbers hp hv]
    by_cases hlt : p < q
    · rw [if_pos (decide_eq_true hlt), min_eq_right hlt.le]
      exact ih hrest hp
    · rw [if_neg (by simpa using hlt), min_eq_left (not_lt.mp hlt)]
      exact ih hrest hv

theorem number_sqlBest_max (h : AllNumbers vs) (hv : number? v = some q) :
    number? (vs.foldl (fun best v => if sqlLess best v then v else best) v) =
      some ((vs.filterMap number?).foldl max q) := by
  induction vs generalizing v q with
  | nil => exact hv
  | cons w vs ih =>
    obtain ⟨⟨p, hp⟩, hrest⟩ := forall_mem_cons.mp h
    rw [foldl_cons, filterMap_cons, hp, foldl_cons, sqlLess_of_numbers hv hp]
    by_cases hlt : q < p
    · rw [if_pos (decide_eq_true hlt), max_eq_right hlt.le]
      exact ih hrest hp
    · rw [if_neg (by simpa using hlt), max_eq_left (not_lt.mp hlt)]
      exact ih hrest hv

variable {F : FloatRepr}

theorem foldl_bestText {better : String → String → Bool} {sqlBetter : Value → Value → Bool}
    {kind : Value → Prop} (hnull : ¬ kind .null)
    (hsame : ∀ v w, kind v → kind w → sqlBetter v w = better (valueText F v) (valueText F w))
    (h : ∀ w ∈ vs, kind w) (hv : kind v) :
    vs.foldl (bestText F better) v =
      vs.foldl (fun best v => if sqlBetter v best then v else best) v := by
  induction vs generalizing v with
  | nil => rfl
  | cons w vs ih =>
    obtain ⟨hw, hrest⟩ := forall_mem_cons.mp h
    have hne : v ≠ .null := fun he => hnull (he ▸ hv)
    rw [foldl_cons, foldl_cons, bestText, if_neg hne, hsame w v hw hv]
    by_cases hb : better (valueText F w) (valueText F v)
    · rw [if_pos hb]
      exact ih hrest hw
    · rw [if_neg hb]
      exact ih hrest hv

theorem sqlLess_bool (F : FloatRepr) (a b : Bool) :
    sqlLess (.bool a) (.bool b) = decide (valueText F (.bool a) < valueText F (.bool b)) := by
  have hft : ("False" : String) < "True" := by decide
  have htf : ¬ ("True" : String) < "False" := by decide
  cases a <;> cases b <;> simp [sqlLess, comparable?, valueText, hft, htf]

theorem number_of_oneKind (h : OneKind vs) : ∀ v ∈ vs, number? v = none := by
  rcases h with h | h
  · intro v hv
    obtain ⟨s, rfl⟩ := h v hv
    rfl
  · intro v hv
    obtain ⟨b, rfl⟩ := h v hv
    rfl

theorem foldl_oneKind (F : FloatRepr) (h : OneKind (v :: vs)) :
    vs.foldl (bestText F fun x y => x < y) v = sqlBest sqlLess (v :: vs) ∧
      vs.foldl (bestText F fun x y => x > y) v =
        sqlBest (fun v w => sqlLess w v) (v :: vs) := by
  rcases h with h | h
  · obtain ⟨hv, hrest⟩ := forall_mem_cons.mp h
    have hnull : ¬ ∃ s, Value.null = .str s := fun ⟨s, hs⟩ => by cases hs
    refine ⟨foldl_bestText hnull (fun x y hx hy => ?_) hrest hv,
      foldl_bestText hnull (fun x y hx hy => ?_) hrest hv⟩
    · obtain ⟨s, rfl⟩ := hx
      obtain ⟨t, rfl⟩ := hy
      rfl
    · obtain ⟨s, rfl⟩ := hx
      obtain ⟨t, rfl⟩ := hy
      rfl
  · obtain ⟨hv, hrest⟩ := forall_mem_cons.mp h
    have hnull : ¬ ∃ b, Value.null = .bool b := fun ⟨b, hb⟩ => by cases hb
    refine ⟨foldl_bestText hnull (fun x y hx hy => ?_) hrest hv,
      foldl_bestText hnull (fun x y hx hy => ?_) hrest hv⟩
    · obtain ⟨a, rfl⟩ := hx
      obtain ⟨b, rfl⟩ := hy
      exact sqlLess_bool F a b
    · obtain ⟨a, rfl⟩ := hx
      obtain ⟨b, rfl⟩ := hy
      exact sqlLess_bool F b a

/-! ### Counting -/

/-- What a number can be compared with. -/
def Open (v : Value) : Prop := v = .null ∨ ∃ q, comparable? v = some q

theorem bestNumber_open (better : Rat → Rat → Bool) {best : Value} (h : Open best) (fv : Rat) :
    ∃ v, bestNumber better best fv = some v ∧ Open v := by
  unfold bestNumber
  by_cases hnull : best = .null
  · rw [if_pos hnull]
    exact ⟨_, rfl, .inr ⟨fv, rfl⟩⟩
  · rw [if_neg hnull]
    obtain ⟨q, hq⟩ := h.resolve_left hnull
    rw [hq]
    refine ⟨_, rfl, ?_⟩
    by_cases hb : better fv q
    · rw [if_pos hb]
      exact .inr ⟨fv, rfl⟩
    · rw [if_neg hb]
      exact .inr ⟨q, hq⟩

theorem bestText_open (F : FloatRepr) (better : String → String → Bool) {best : Value}
    (h : Open best) (hv : comparable? v = some q) : Open (bestText F better best v) := by
  unfold bestText
  by_cases hnull : best = .null
  · rw [if_pos hnull]
    exact .inr ⟨q, hv⟩
  · rw [if_neg hnull]
    by_cases hb : better (valueText F v) (valueText F best)
    · rw [if_pos hb]
      exact .inr ⟨q, hv⟩
    · rw [if_neg hb]
      exact h

theorem foldlM_counts (h : TextsLast vs) (cell : Cell)
    (hopen : (∃ w ∈ vs, number? w ≠ none) → Open cell.min ∧ Open cell.max) :
    ∃ cell', vs.foldlM (update F) cell = some cell' ∧
      cell'.count = cell.count + vs.length := by
  induction vs generalizing cell with
  | nil => exact ⟨cell, rfl, rfl⟩
  | cons v vs ih =>
    obtain ⟨hfirst, hrest⟩ := pairwise_cons.mp h
    obtain ⟨mid, hmid, hcount, hnext⟩ : ∃ mid, cell.update F v = some mid ∧
        mid.count = cell.count + 1 ∧
        ((∃ w ∈ vs, number? w ≠ none) → Open mid.min ∧ Open mid.max) := by
      unfold update
      cases hv : number? v with
      | some q =>
        obtain ⟨hmin, hmax⟩ := hopen ⟨v, mem_cons_self, by rw [hv]; exact Option.some_ne_none q⟩
        obtain ⟨lo, hlo, hlo'⟩ := bestNumber_open (fun x y => x < y) hmin q
        obtain ⟨hi, hhi, hhi'⟩ := bestNumber_open (fun x y => x > y) hmax q
        dsimp only
        rw [hlo, hhi]
        exact ⟨_, rfl, rfl, fun _ => ⟨hlo', hhi'⟩⟩
      | none =>
        refine ⟨_, rfl, rfl, fun hlater => ?_⟩
        obtain ⟨w, hw, hnumber⟩ := hlater
        obtain ⟨hmin, hmax⟩ := hopen ⟨w, mem_cons_of_mem _ hw, hnumber⟩
        cases hc : comparable? v with
        | none => exact absurd (hfirst w hw hc) hnumber
        | some q => exact ⟨bestText_open F (fun x y => x < y) hmin hc,
            bestText_open F (fun x y => x > y) hmax hc⟩
    obtain ⟨cell', hcell', hcount'⟩ := ih hrest mid hnext
    refine ⟨cell', ?_, ?_⟩
    · rw [foldlM_cons, hmid]
      exact hcell'
    · rw [hcount', hcount, length_cons]
      omega

/-! ### Aggregates -/

theorem SameValue.refl (v : Value) : SameValue v v := .inl rfl

theorem SameValue.of_number (h : number? v = some q) :
    SameValue (.float q) v := .inr ⟨q, rfl, comparable_of_number h⟩

variable {members : List Row}

theorem sameValue_numbers (sqrt : Rat → Rat) (readFloat : String → Option Rat) {func : AggFunc}
    {field : String} {cell : Cell} (hsafe : safePushAggFunc func)
    (hcolumn : columnValues field members = v :: vs) (hv : number? v = some q) (hvs : AllNumbers vs)
    (hc : NumberCell q vs cell) :
    SameValue (finalizeCell sqrt func cell)
      (projected readFloat func (sqlAggregate ⟨func, some field⟩ members)) := by
  have htotal : sqlTotal (v :: vs) = q + (vs.filterMap number?).sum := by
    rw [sqlTotal, filterMap_cons, comparable_of_number hv, sum_cons, filterMap_comparable hvs]
  simp only [sqlAggregate, hcolumn]
  cases func with
  | count => simp [finalizeCell, projected, hc.count, SameValue.refl]
  | sum => simp [finalizeCell, projected, hc.count, hc.sum, toFloat, htotal, SameValue.refl]
  | avg => simp [finalizeCell, projected, hc.count, hc.sum, toFloat, htotal, SameValue.refl]
  | min =>
    have hbest := SameValue.of_number (number_sqlBest_min hvs hv)
    simp only [finalizeCell, projected, hc.min, sqlBest]
    exact hbest
  | max =>
    have hbest := SameValue.of_number (number_sqlBest_max hvs hv)
    simp only [finalizeCell, projected, hc.max, sqlBest]
    exact hbest
  | stddev => cases hsafe
  | distinctCount => cases hsafe

/-- The local aggregate of joined rows is the one of SQL over the right rows. -/
theorem sameValue_aggregate {sqrt : Rat → Rat} {readFloat : String → Option Rat} {a : AggSpec}
    {rows : List Row} (hsafe : safePushAggFunc a.func) (hlen : rows.length = members.length)
    (hvalues : ∀ field, a.field = some field → fieldValues field rows = columnValues field members ∧
        PlainColumn a.func (columnValues field members)) :
    ∃ cell, rows.foldlM (cellStep F a) empty = some cell ∧
      SameValue (finalizeCell sqrt a.func cell)
        (projected readFloat a.func (sqlAggregate a members)) := by
  obtain ⟨func, field⟩ := a
  cases field with
  | none =>
    by_cases hcount : func = .count
    · subst hcount
      refine ⟨_, foldlM_cellStep_count rows _, .inl ?_⟩
      simp [finalizeCell, projected, sqlAggregate, empty, hlen]
    · refine ⟨_, foldlM_cellStep_other hcount rows _, .inl ?_⟩
      cases func <;> simp_all [finalizeCell, projected, sqlAggregate, empty,
        safePushAggFunc, toFloat]
  | some field =>
    obtain ⟨hsame, hplain⟩ := hvalues field rfl
    rw [foldlM_cellStep_field, hsame]
    by_cases hcount : func = .count
    · subst hcount
      obtain ⟨cell, hcell, hn⟩ := foldlM_counts (F := F) hplain empty
        fun _ => ⟨.inl rfl, .inl rfl⟩
      refine ⟨cell, hcell, .inl ?_⟩
      simp [finalizeCell, projected, sqlAggregate, hn, empty]
    · cases hvs : columnValues field members with
      | nil =>
        refine ⟨empty, rfl, .inl ?_⟩
        cases func <;> simp_all [finalizeCell, projected, empty, sqlAggregate,
          safePushAggFunc, toFloat, sqlBest]
      | cons v vs =>
        rw [hvs] at hplain
        have hcases : AllNumbers (v :: vs) ∨
            (func = .min ∨ func = .max) ∧ OneKind (v :: vs) := by
          cases func with
          | count => exact absurd rfl hcount
          | min => exact hplain.imp id fun h => ⟨.inl rfl, h⟩
          | max => exact hplain.imp id fun h => ⟨.inr rfl, h⟩
          | sum => exact .inl hplain
          | avg => exact .inl hplain
          | stddev => exact .inl hplain
          | distinctCount => exact .inl hplain
        rcases hcases with hnumbers | ⟨hfunc, hkind⟩
        · obtain ⟨⟨q, hq⟩, hrest⟩ := forall_mem_cons.mp hnumbers
          obtain ⟨cell, hcell, hc⟩ := foldlM_numbers (F := F) hq hrest
          exact ⟨cell, hcell, sameValue_numbers sqrt readFloat hsafe hvs hq hrest hc⟩
        · obtain ⟨hv, hrest⟩ := forall_mem_cons.mp (number_of_oneKind hkind)
          obtain ⟨cell, hcell, hc⟩ := foldlM_texts (F := F) hv hrest
          obtain ⟨hmin, hmax⟩ := foldl_oneKind F hkind
          refine ⟨cell, hcell, .inl ?_⟩
          simp only [sqlAggregate, hvs]
          rcases hfunc with rfl | rfl
          · exact hc.min.trans hmin
          · exact hc.max.trans hmax

end WebGis.Federation
