/-
  `_AggregateState` of `federation.py`: the groups of joined rows and their aggregates.

  Sums are exact. The square root is a parameter. Where Python raises a `TypeError`, because a
  group has a list for a key or a number is compared with a text, there is no result.
-/
import WebGis.Federation.Rows

namespace WebGis.Federation

open Data List Option Dict

/-! ## Requests -/

inductive AggFunc where
  | count | sum | avg | min | max | stddev | distinctCount
  deriving DecidableEq

def AggFunc.text : AggFunc → String
  | count => "count"
  | sum => "sum"
  | avg => "avg"
  | min => "min"
  | max => "max"
  | stddev => "stddev"
  | distinctCount => "distinct_count"

structure AggSpec where
  func : AggFunc
  field : Option String
  deriving DecidableEq

/-- `a.func if a.field is None else f"{a.func}_{a.field}"` -/
def AggSpec.name (a : AggSpec) : String :=
  match a.field with
  | none => a.func.text
  | some field => a.func.text ++ "_" ++ field

/-! ## Accumulators -/

structure Cell where
  count : Nat
  sum : Rat
  sumsq : Rat
  min : Value
  max : Value
  distinct : List String
  deriving DecidableEq

def Cell.empty : Cell := ⟨0, 0, 0, .null, .null, []⟩

structure Group where
  key : List Value
  n : Nat
  cells : Dict String Cell

/-- `isinstance(v, (int, float)) and not isinstance(v, bool)`, and `float(v)` -/
def number? : Value → Option Rat
  | .int n => some n
  | .float q => some q
  | _ => none

/-- What a float is compared with. -/
def comparable? : Value → Option Rat
  | .bool b => some (if b then 1 else 0)
  | .int n => some n
  | .float q => some q
  | .decimal d => some d.value
  | _ => none

/-- `hash(v)`, which a list does not have -/
def hashed? : Value → Option Hashed
  | .coll _ => none
  | v => some (hashableKey v)

section Code

variable (F : FloatRepr) (sqrt : Rat → Rat)

/-- `str(v)` -/
def valueText : Value → String
  | .null => "None"
  | .bool b => if b then "True" else "False"
  | .int n => intText n
  | .float q => String.ofList (F.chars q)
  | .decimal d => d.text
  | .str s => s
  | .coll text => text

/-- `min(cell["min"], fv)` and `max(cell["max"], fv)`, where `better` compares. -/
def bestNumber (better : Rat → Rat → Bool) (best : Value) (fv : Rat) : Option Value :=
  if best = .null then some (.float fv)
  else
    match comparable? best with
    | none => none
    | some q => some (if better fv q then .float fv else best)

/-- `min(cell["min"], v, key=str)` and `max(cell["max"], v, key=str)` -/
def bestText (better : String → String → Bool) (best v : Value) : Value :=
  if best = .null then v
  else if better (valueText F v) (valueText F best) then v
  else best

/-- What a value that is not null does to a cell. -/
def Cell.update (cell : Cell) (v : Value) : Option Cell :=
  let text := valueText F v
  let distinct := if text ∈ cell.distinct then cell.distinct else text :: cell.distinct
  match number? v with
  | some fv => do
      let lo ← bestNumber (fun x y => x < y) cell.min fv
      let hi ← bestNumber (fun x y => x > y) cell.max fv
      some ⟨cell.count + 1, cell.sum + fv, cell.sumsq + fv * fv, lo, hi, distinct⟩
  | none =>
    some { cell with
      count := cell.count + 1
      distinct := distinct
      min := bestText F (fun x y => x < y) cell.min v
      max := bestText F (fun x y => x > y) cell.max v }

/-- The value of a field: on the left, else on the right. -/
def aggregateValue (row : Row) (field : String) : Value :=
  match if "__".toList.isPrefixOf field.toList then none else row.top.find field with
  | some v => v
  | none => (row.right.getD Dict.empty).getD field .null

/-- The loop over the aggregates for one row. -/
def updateCells (row : Row) : List AggSpec → Dict String Cell → Option (Dict String Cell)
  | [], cells => some cells
  | a :: aggs, cells =>
    let cell := cells.getD a.name Cell.empty
    match a.field with
    | none =>
      if a.func = .count then
        updateCells row aggs (cells.set a.name { cell with count := cell.count + 1 })
      else updateCells row aggs cells
    | some field =>
      if aggregateValue row field = .null then updateCells row aggs cells
      else
        match cell.update F (aggregateValue row field) with
        | none => none
        | some cell => updateCells row aggs (cells.set a.name cell)

abbrev Groups : Type := Dict (List Hashed) Group

/-- `tuple(right.get(g) for g in self.group_by)` -/
def groupKey (groupBy : List String) (row : Row) : List Value :=
  groupBy.map fun g => (row.right.getD Dict.empty).getD g .null

/-- `_AggregateState.update(row)` -/
def updateGroups (aggs : List AggSpec) (groupBy : List String) (groups : Groups) (row : Row) :
    Option Groups := do
  let key ← (groupKey groupBy row).mapM hashed?
  let fresh : Group :=
    ⟨groupKey groupBy row, 0, ofList (aggs.map fun a => (a.name, Cell.empty))⟩
  let acc := groups.getD key fresh
  let cells ← updateCells F row aggs acc.cells
  some (groups.set key { acc with n := acc.n + 1, cells := cells })

/-- The value of an aggregate. -/
def finalizeCell (func : AggFunc) (cell : Cell) : Value :=
  match func with
  | .count => .int cell.count
  | .distinctCount => .int cell.distinct.length
  | .sum => if cell.count = 0 then .null else .float cell.sum
  | .avg => if cell.count = 0 then .null else .float (cell.sum / cell.count)
  | .min => cell.min
  | .max => cell.max
  | .stddev =>
    if cell.count < 2 then .null
    else
      let mean := cell.sum / cell.count
      .float (sqrt (max 0 ((cell.sumsq - cell.count * mean * mean) / (cell.count - 1 : Int))))

/-- The row of a group. -/
def finalizeGroup (aggs : List AggSpec) (groupBy : List String) (acc : Group) : Fields :=
  let keys := (groupBy.zip acc.key).foldl (fun result gv => result.set gv.1 gv.2) Dict.empty
  aggs.foldl
    (fun result a =>
      result.set a.name (finalizeCell sqrt a.func (acc.cells.getD a.name Cell.empty)))
    keys

/-- `_AggregateState.finalize()` -/
def finalizeGroups (aggs : List AggSpec) (groupBy : List String) (groups : Groups) : List Fields :=
  groups.items.map fun g => finalizeGroup sqrt aggs groupBy g.2

/-- `aggregate_join_rows(joined_rows, aggregates, group_by)` -/
def aggregateJoinRows (joinedRows : List Row) (aggs : List AggSpec) (groupBy : List String) :
    Option (List Fields) :=
  (joinedRows.foldlM (updateGroups F aggs groupBy) Dict.empty).map
    (finalizeGroups sqrt aggs groupBy)

end Code

/-! ## Counting -/

section Counting

variable {F : FloatRepr} {g : String}

def countAll : List AggSpec := [⟨.count, none⟩]

/-- The one group of `n` rows that have nothing under `g`. -/
def countedGroups (n : Nat) : Groups :=
  ofList [([Hashed.null],
    ⟨[.null], n, ofList [("count", { Cell.empty with count := n })]⟩)]

theorem updateGroups_count {groups : Groups} {n : Nat} {row : Row}
    (hgroups : groups = if n = 0 then Dict.empty else countedGroups n)
    (hrow : (row.right.getD Dict.empty).getD g .null = .null) :
    updateGroups F countAll [g] groups row = some (countedGroups (n + 1)) := by
  have hkey : groupKey [g] row = [.null] := by simp [groupKey, hrow]
  unfold updateGroups
  rw [hkey, hgroups]
  cases n with
  | zero => rfl
  | succ n => rfl

/-- Rows that have nothing under `g` are counted in one group. -/
theorem aggregate_count (F : FloatRepr) (sqrt : Rat → Rat) {rows : List Row}
    (hrows : ∀ row ∈ rows, (row.right.getD Dict.empty).getD g .null = .null) :
    (aggregateJoinRows F sqrt rows countAll [g]).map (List.map fun r => r.find "count") =
      some (if rows.length = 0 then [] else [some (.int rows.length)]) := by
  have hfold : ∀ n groups, (groups = if n = 0 then Dict.empty else countedGroups n) →
      rows.foldlM (updateGroups F countAll [g]) groups =
        some (if n + rows.length = 0 then Dict.empty else countedGroups (n + rows.length)) := by
    induction rows with
    | nil => exact fun n groups hgroups => congrArg some hgroups
    | cons row rows ih =>
      intro n groups hgroups
      rw [forall_mem_cons] at hrows
      rw [foldlM_cons, updateGroups_count hgroups hrows.1, bind_eq_bind,
        bind_some, ih hrows.2 (n + 1) _ (if_neg (Nat.succ_ne_zero n)).symm,
        length_cons, Nat.add_assoc, Nat.add_comm 1]
  unfold aggregateJoinRows
  rw [hfold 0 Dict.empty rfl, map_some, map_some, Nat.zero_add]
  by_cases hlen : rows.length = 0
  · rw [if_pos hlen, if_pos hlen]
    rfl
  · rw [if_neg hlen, if_neg hlen]
    refine congrArg some (congrArg (fun x => [x]) ?_)
    exact find_set_self _ _ _

theorem exists_fresh (rows : List Row) :
    ∃ g, ∀ row ∈ rows, (row.right.getD Dict.empty).getD g .null = .null := by
  obtain ⟨g, hg⟩ := Infinite.exists_notMem_finset
    (rows.flatMap fun row => (row.right.getD Dict.empty).keys).toFinset
  refine ⟨g, fun row hrow => ?_⟩
  have hnot : g ∉ (row.right.getD Dict.empty).keys := fun hin =>
    hg (List.mem_toFinset.mpr (mem_flatMap.mpr ⟨row, hrow, hin⟩))
  rw [Dict.getD, find_eq_none.mpr hnot]
  rfl

end Counting

end WebGis.Federation
