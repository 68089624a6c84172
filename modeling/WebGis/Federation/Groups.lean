/-
  What `_AggregateState` holds after some rows, group by group and aggregate by aggregate.

  The groups are a grouping of the rows, and where the names of the aggregates differ, each cell
  is a fold of its own over the values of its field.
-/
import WebGis.Data.Grouped
import WebGis.Federation.Aggregate

namespace WebGis.Federation

open Data List Dict Cell AggSpec
open Option hiding max_eq_left max_eq_right min_eq_left min_eq_right

section Groups

variable {F : FloatRepr} {aggs : List AggSpec} {groupBy : List String}

def hashedKey (groupBy : List String) (row : Row) : Option (List Hashed) :=
  (groupKey groupBy row).mapM hashed?

def freshGroup (aggs : List AggSpec) (groupBy : List String) (row : Row) : Group :=
  ⟨groupKey groupBy row, 0, ofList (aggs.map fun a => (a.name, empty))⟩

/-- What a row does to its group. -/
def stepGroup (F : FloatRepr) (aggs : List AggSpec) (acc : Group) (row : Row) : Option Group :=
  (updateCells F row aggs acc.cells).map fun cells => { acc with n := acc.n + 1, cells := cells }

theorem updateGroups_eq (groups : Groups) (row : Row) :
    updateGroups F aggs groupBy groups row =
      groupStep (hashedKey groupBy) (freshGroup aggs groupBy) (stepGroup F aggs) groups row := by
  refine congrArg _ (funext fun key => ?_)
  unfold stepGroup freshGroup
  dsimp only
  cases updateCells F row aggs _ <;> rfl

theorem foldlM_updateGroups (rows : List Row) (groups : Groups) :
    rows.foldlM (updateGroups F aggs groupBy) groups =
      rows.foldlM (groupStep (hashedKey groupBy) (freshGroup aggs groupBy) (stepGroup F aggs))
        groups := by
  have hsame : updateGroups F aggs groupBy =
      groupStep (hashedKey groupBy) (freshGroup aggs groupBy) (stepGroup F aggs) :=
    funext fun groups => funext fun row => updateGroups_eq groups row
  rw [hsame]

/-- What a row does to the cell of an aggregate. -/
def cellStep (F : FloatRepr) (a : AggSpec) (cell : Cell) (row : Row) : Option Cell :=
  match a.field with
  | none => some (if a.func = .count then { cell with count := cell.count + 1 } else cell)
  | some field =>
    if aggregateValue row field = .null then some cell
    else cell.update F (aggregateValue row field)

variable {cells cells' : Dict String Cell} {row : Row}

theorem updateCells_other {name : String} (hname : ∀ a ∈ aggs, a.name ≠ name)
    (h : updateCells F row aggs cells = some cells') :
    cells'.getD name empty = cells.getD name empty := by
  induction aggs generalizing cells with
  | nil =>
    obtain rfl : cells = cells' := some.inj h
    rfl
  | cons a aggs ih =>
    rw [forall_mem_cons] at hname
    have hset : ∀ cell : Cell, (cells.set a.name cell).getD name empty =
        cells.getD name empty := by
      intro cell
      rw [Dict.getD, find_set_ne _ _ hname.1, ← Dict.getD]
    unfold updateCells at h
    cases hfield : a.field with
    | none =>
      rw [hfield] at h
      dsimp only at h
      split at h
      · rw [ih hname.2 h, hset]
      · exact ih hname.2 h
    | some field =>
      rw [hfield] at h
      dsimp only at h
      split at h
      · exact ih hname.2 h
      cases hup : (cells.getD a.name empty).update F (aggregateValue row field) with
      | none =>
        rw [hup] at h
        cases h
      | some cell =>
        rw [hup] at h
        rw [ih hname.2 h, hset]

theorem updateCells_own (hnames : (aggs.map name).Nodup)
    (h : updateCells F row aggs cells = some cells') :
    ∀ a ∈ aggs, cellStep F a (cells.getD a.name empty) row =
      some (cells'.getD a.name empty) := by
  induction aggs generalizing cells with
  | nil => exact fun a ha => absurd ha not_mem_nil
  | cons a aggs ih =>
    rw [map_cons, nodup_cons] at hnames
    have hother : ∀ b ∈ aggs, b.name ≠ a.name := fun b hb he =>
      hnames.1 (he ▸ List.mem_map_of_mem hb)
    have hset : ∀ cell : Cell, ∀ b ∈ aggs, (cells.set a.name cell).getD b.name empty =
        cells.getD b.name empty := by
      intro cell b hb
      rw [Dict.getD, find_set_ne _ _ (hother b hb).symm, ← Dict.getD]
    have hself : ∀ cell : Cell, (cells.set a.name cell).getD a.name empty = cell := by
      intro cell
      rw [Dict.getD, find_set_self]
      rfl
    unfold updateCells at h
    rw [forall_mem_cons]
    unfold cellStep
    cases hfield : a.field with
    | none =>
      rw [hfield] at h
      dsimp only at h ⊢
      split at h
      · rename_i hcount
        rw [if_pos hcount, updateCells_other hother h, hself]
        refine ⟨rfl, fun b hb => ?_⟩
        rw [← hset _ b hb]
        exact ih hnames.2 h b hb
      · rename_i hcount
        rw [if_neg hcount, updateCells_other hother h]
        exact ⟨rfl, ih hnames.2 h⟩
    | some field =>
      rw [hfield] at h
      dsimp only at h ⊢
      split at h
      · rename_i hnull
        rw [if_pos hnull, updateCells_other hother h]
        exact ⟨rfl, ih hnames.2 h⟩
      · rename_i hnull
        rw [if_neg hnull]
        cases hup : (cells.getD a.name empty).update F (aggregateValue row field) with
        | none =>
          rw [hup] at h
          cases h
        | some cell =>
          rw [hup] at h
          rw [updateCells_other hother h, hself]
          refine ⟨rfl, fun b hb => ?_⟩
          rw [← hset cell b hb]
          exact ih hnames.2 h b hb

variable {acc : Group} {rows : List Row}

theorem foldlM_stepGroup {acc' : Group} (hnames : (aggs.map name).Nodup)
    (h : rows.foldlM (stepGroup F aggs) acc = some acc') :
    acc'.key = acc.key ∧ acc'.n = acc.n + rows.length ∧
      ∀ a ∈ aggs, rows.foldlM (cellStep F a) (acc.cells.getD a.name empty) =
        some (acc'.cells.getD a.name empty) := by
  induction rows generalizing acc with
  | nil =>
    obtain rfl : acc = acc' := some.inj h
    exact ⟨rfl, rfl, fun a _ => rfl⟩
  | cons row rows ih =>
    rw [foldlM_cons] at h
    obtain ⟨mid, hmid, h⟩ := bind_eq_some_iff.mp h
    obtain ⟨cells, hcells, rfl⟩ := map_eq_some_iff.mp hmid
    obtain ⟨hkey, hn, hall⟩ := ih h
    refine ⟨hkey, ?_, fun a ha => ?_⟩
    · rw [hn, length_cons]
      dsimp only
      omega
    · rw [foldlM_cons, updateCells_own hnames hcells a ha]
      exact hall a ha

theorem updateCells_isSome (hnames : (aggs.map name).Nodup)
    (h : ∀ a ∈ aggs, ∃ c, cellStep F a (cells.getD a.name empty) row = some c) :
    ∃ cells', updateCells F row aggs cells = some cells' := by
  induction aggs generalizing cells with
  | nil => exact ⟨cells, rfl⟩
  | cons a aggs ih =>
    rw [map_cons, nodup_cons] at hnames
    rw [forall_mem_cons] at h
    have hother : ∀ cell : Cell, ∀ b ∈ aggs,
        ∃ c, cellStep F b ((cells.set a.name cell).getD b.name empty) row = some c := by
      intro cell b hb
      have hne : a.name ≠ b.name := fun he => hnames.1 (he ▸ List.mem_map_of_mem hb)
      rw [Dict.getD, find_set_ne _ _ hne, ← Dict.getD]
      exact h.2 b hb
    unfold updateCells
    unfold cellStep at h
    cases hfield : a.field with
    | none =>
      dsimp only
      split
      · exact ih hnames.2 (hother _)
      · exact ih hnames.2 h.2
    | some field =>
      obtain ⟨⟨c, hc⟩, hrest⟩ := h
      rw [hfield] at hc
      dsimp only at hc ⊢
      split at hc
      · rename_i hnull
        rw [if_pos hnull]
        exact ih hnames.2 hrest
      · rename_i hnull
        rw [if_neg hnull, hc]
        exact ih hnames.2 (hother c)

theorem foldlM_stepGroup_isSome (hnames : (aggs.map name).Nodup)
    (h : ∀ a ∈ aggs, ∃ c, rows.foldlM (cellStep F a) (acc.cells.getD a.name empty) = some c) :
    ∃ acc', rows.foldlM (stepGroup F aggs) acc = some acc' := by
  induction rows generalizing acc with
  | nil => exact ⟨acc, rfl⟩
  | cons row rows ih =>
    obtain ⟨cells, hcells⟩ : ∃ cells, updateCells F row aggs acc.cells = some cells :=
      updateCells_isSome hnames fun a ha => by
        obtain ⟨c, hc⟩ := h a ha
        rw [foldlM_cons] at hc
        obtain ⟨mid, hmid, -⟩ := bind_eq_some_iff.mp hc
        exact ⟨mid, hmid⟩
    obtain ⟨acc', hacc'⟩ : ∃ acc', rows.foldlM (stepGroup F aggs)
        { acc with n := acc.n + 1, cells := cells } = some acc' := ih fun a ha => by
      obtain ⟨c, hc⟩ := h a ha
      rw [foldlM_cons, updateCells_own hnames hcells a ha] at hc
      exact ⟨c, hc⟩
    refine ⟨acc', ?_⟩
    rw [foldlM_cons, stepGroup, hcells]
    exact hacc'

theorem getD_freshGroup (row : Row) (name : String) :
    (freshGroup aggs groupBy row).cells.getD name Cell.empty = Cell.empty := by
  have hpairs : (aggs.map fun a => (a.name, Cell.empty)) =
      (aggs.map AggSpec.name).map fun name => (name, Cell.empty) := by
    rw [List.map_map]
    rfl
  unfold freshGroup Dict.getD
  rw [hpairs, find_ofList_const]
  split <;> rfl

/-! ## Result rows -/

/-- What stands in the row of a group: the key of its first member, and the aggregates. -/
structure ResultOf (F : FloatRepr) (sqrt : Rat → Rat) (aggs : List AggSpec) (groupBy : List String)
    (first : Row) (rest : List Row) (result : Fields) : Prop where
  keys : ∀ name, (∀ a ∈ aggs, a.name ≠ name) → result.find name =
    if name ∈ groupBy then some ((first.right.getD Dict.empty).getD name .null) else none
  aggregates : ∀ a ∈ aggs, ∃ cell, (first :: rest).foldlM (cellStep F a) empty = some cell ∧
    result.find a.name = some (finalizeCell sqrt a.func cell)

theorem find_zip_foldl (row : Row) (result : Fields) (name : String) :
    ((groupBy.zip (groupKey groupBy row)).foldl (fun result gv => result.set gv.1 gv.2)
        result).find name =
      if name ∈ groupBy then some ((row.right.getD Dict.empty).getD name .null)
      else result.find name := by
  induction groupBy generalizing result with
  | nil => rfl
  | cons g groupBy ih =>
    rw [groupKey, map_cons, zip_cons_cons, foldl_cons, ← groupKey, ih, find_set]
    by_cases hin : name ∈ groupBy
    · rw [if_pos hin, if_pos (mem_cons_of_mem _ hin)]
    rw [if_neg hin]
    by_cases hg : g = name
    · rw [if_pos hg, if_pos (mem_cons.mpr (.inl hg.symm)), hg]
    · rw [if_neg hg, if_neg fun h => (mem_cons.mp h).elim (fun he => hg he.symm) hin]

theorem find_foldl_named (value : AggSpec → Value) (result : Fields)
    (hnames : (aggs.map name).Nodup) :
    let final := aggs.foldl (fun result a => result.set a.name (value a)) result
    (∀ name, (∀ a ∈ aggs, a.name ≠ name) → final.find name = result.find name) ∧
      ∀ a ∈ aggs, final.find a.name = some (value a) := by
  induction aggs generalizing result with
  | nil => exact ⟨fun name _ => rfl, fun a ha => absurd ha not_mem_nil⟩
  | cons b aggs ih =>
    rw [map_cons, nodup_cons] at hnames
    obtain ⟨hother, hown⟩ := ih (result.set b.name (value b)) hnames.2
    refine ⟨fun name hname => ?_, fun a ha => ?_⟩
    · rw [forall_mem_cons] at hname
      exact (hother name hname.2).trans (find_set_ne _ _ hname.1)
    · rcases mem_cons.mp ha with rfl | ha
      · refine (hother a.name fun c hc he => ?_).trans (find_set_self _ _ _)
        exact hnames.1 (he ▸ List.mem_map_of_mem hc)
      · exact hown a ha

variable {sqrt : Rat → Rat}

theorem resultOf_finalizeGroup {first : Row} {rest : List Row} (hnames : (aggs.map name).Nodup)
    (h : (first :: rest).foldlM (stepGroup F aggs) (freshGroup aggs groupBy first) = some acc) :
    ResultOf F sqrt aggs groupBy first rest (finalizeGroup sqrt aggs groupBy acc) := by
  obtain ⟨hkey, -, hcells⟩ := foldlM_stepGroup hnames h
  obtain ⟨hother, hown⟩ := find_foldl_named
    (fun a => finalizeCell sqrt a.func (acc.cells.getD a.name empty))
    ((groupBy.zip acc.key).foldl (fun result gv => result.set gv.1 gv.2) Dict.empty) hnames
  refine ⟨fun name hname => ?_, fun a ha => ⟨_, ?_, hown a ha⟩⟩
  · refine (hother name hname).trans ?_
    rw [hkey]
    exact find_zip_foldl first Dict.empty name
  · have hcell := hcells a ha
    rwa [getD_freshGroup] at hcell

theorem aggregateJoinRows_isSome (hnames : (aggs.map name).Nodup)
    (hkey : ∀ row ∈ rows, ∃ k, hashedKey groupBy row = some k)
    (hcells : ∀ k first rest, ofKey (hashedKey groupBy) k rows = first :: rest → ∀ a ∈ aggs,
      ∃ c, (first :: rest).foldlM (cellStep F a) Cell.empty = some c) :
    ∃ out, aggregateJoinRows F sqrt rows aggs groupBy = some out := by
  obtain ⟨groups, hgroups⟩ : ∃ groups, groupAll (hashedKey groupBy) (freshGroup aggs groupBy)
      (stepGroup F aggs) rows = some groups :=
    groupAll_isSome hkey fun k first rest hmembers =>
      foldlM_stepGroup_isSome hnames fun a ha => by
        rw [getD_freshGroup]
        exact hcells k first rest hmembers a ha
  refine ⟨finalizeGroups sqrt aggs groupBy groups, ?_⟩
  unfold aggregateJoinRows
  rw [foldlM_updateGroups]
  exact map_eq_some_iff.mpr ⟨groups, hgroups, rfl⟩

/-- The result rows are those of the groups, one for each key. -/
theorem aggregateJoinRows_spec {out : List Fields} (hnames : (aggs.map name).Nodup)
    (h : aggregateJoinRows F sqrt rows aggs groupBy = some out) :
    (∀ result ∈ out, ∃ k first rest, ofKey (hashedKey groupBy) k rows = first :: rest ∧
      ResultOf F sqrt aggs groupBy first rest result) ∧
      ∀ k first rest, ofKey (hashedKey groupBy) k rows = first :: rest →
        ∃ result ∈ out, ResultOf F sqrt aggs groupBy first rest result := by
  unfold aggregateJoinRows at h
  rw [foldlM_updateGroups] at h
  obtain ⟨groups, hgroups, rfl⟩ := map_eq_some_iff.mp h
  constructor
  · intro result hin
    obtain ⟨⟨k, acc⟩, hitem, rfl⟩ := List.mem_map.mp hin
    have hfind := find_groupAll hgroups k
    rw [find_eq_some.mpr hitem] at hfind
    cases hmembers : ofKey (hashedKey groupBy) k rows with
    | nil =>
      rw [hmembers] at hfind
      cases hfind
    | cons first rest =>
      rw [hmembers] at hfind
      obtain ⟨s, hfold, hs⟩ := hfind
      obtain rfl := some.inj hs
      exact ⟨k, first, rest, hmembers, resultOf_finalizeGroup hnames hfold⟩
  · intro k first rest hmembers
    have hfind := find_groupAll hgroups k
    rw [hmembers] at hfind
    obtain ⟨acc, hfold, hs⟩ := hfind
    exact ⟨_, List.mem_map_of_mem (find_eq_some.mp hs), resultOf_finalizeGroup hnames hfold⟩

end Groups

/-! ## Cells of one kind of values -/

section Cells

variable {F : FloatRepr} {field : String}

/-- The values of a field that are not null. -/
def fieldValues (field : String) (rows : List Row) : List Value :=
  (rows.map fun row => aggregateValue row field).filter fun v => v ≠ .null

theorem foldlM_cellStep_field (func : AggFunc) (rows : List Row) (cell : Cell) :
    rows.foldlM (cellStep F ⟨func, some field⟩) cell =
      (fieldValues field rows).foldlM (update F) cell := by
  induction rows generalizing cell with
  | nil => rfl
  | cons row rows ih =>
    have hstep : cellStep F ⟨func, some field⟩ cell row =
        if aggregateValue row field = .null then some cell
        else cell.update F (aggregateValue row field) := rfl
    rw [foldlM_cons, hstep]
    unfold fieldValues
    rw [map_cons, filter_cons]
    by_cases hnull : aggregateValue row field = .null
    · rw [if_pos hnull, if_neg (by simpa using hnull)]
      exact ih cell
    · rw [if_neg hnull, if_pos (by simpa using hnull), foldlM_cons]
      exact congrArg _ (funext ih)

theorem foldlM_cellStep_count (rows : List Row) (cell : Cell) :
    rows.foldlM (cellStep F ⟨.count, none⟩) cell =
      some { cell with count := cell.count + rows.length } := by
  induction rows generalizing cell with
  | nil => rfl
  | cons row rows ih =>
    have hstep : cellStep F ⟨.count, none⟩ cell row =
        some { cell with count := cell.count + 1 } := rfl
    rw [foldlM_cons, hstep, bind_eq_bind, bind_some, ih, length_cons]
    simp only [Nat.add_assoc, Nat.add_comm 1]

/-- Without a field only a count does anything. -/
theorem foldlM_cellStep_other {func : AggFunc} (hfunc : func ≠ .count) (rows : List Row)
    (cell : Cell) : rows.foldlM (cellStep F ⟨func, none⟩) cell = some cell := by
  induction rows generalizing cell with
  | nil => rfl
  | cons row rows ih =>
    have hstep : cellStep F ⟨func, none⟩ cell row = some cell := by
      simp [cellStep, hfunc]
    rw [foldlM_cons, hstep]
    exact ih cell

/-- Integers and floats. -/
def AllNumbers (vs : List Value) : Prop := ∀ v ∈ vs, ∃ q, number? v = some q

/-- The cell of some numbers, of which the first is `q`. -/
structure NumberCell (q : Rat) (vs : List Value) (cell : Cell) : Prop where
  count : cell.count = vs.length + 1
  sum : cell.sum = q + (vs.filterMap number?).sum
  sumsq : cell.sumsq = q * q + ((vs.filterMap number?).map fun x => x * x).sum
  min : cell.min = .float ((vs.filterMap number?).foldl min q)
  max : cell.max = .float ((vs.filterMap number?).foldl max q)

variable {q : Rat} {v : Value}

theorem update_first (h : number? v = some q) :
    ∃ cell, empty.update F v = some cell ∧ NumberCell q [] cell := by
  unfold update
  rw [h]
  exact ⟨_, rfl, ⟨rfl, by simp [Cell.empty], by simp [Cell.empty], rfl, rfl⟩⟩

variable {vs : List Value}

theorem numberCell_update {q' : Rat} {cell : Cell} (hc : NumberCell q vs cell)
    (h : number? v = some q') :
    ∃ cell', cell.update F v = some cell' ∧ NumberCell q (vs ++ [v]) cell' := by
  have hlo : ∀ x : Rat, bestNumber (fun x y => x < y) (.float x) q' = some (.float (min x q')) := by
    intro x
    rw [bestNumber, if_neg (by simp)]
    dsimp only [comparable?]
    by_cases hx : q' < x
    · rw [if_pos (decide_eq_true hx), min_eq_right hx.le]
    · rw [if_neg (by simpa using hx), min_eq_left (not_lt.mp hx)]
  have hhi : ∀ x : Rat, bestNumber (fun x y => x > y) (.float x) q' = some (.float (max x q')) := by
    intro x
    rw [bestNumber, if_neg (by simp)]
    dsimp only [comparable?]
    by_cases hx : q' > x
    · rw [if_pos (decide_eq_true hx), max_eq_right hx.le]
    · rw [if_neg (by simpa using hx), max_eq_left (not_lt.mp hx)]
  have hnums : (vs ++ [v]).filterMap number? = vs.filterMap number? ++ [q'] := by
    rw [filterMap_append, filterMap_cons, h, filterMap_nil]
  unfold update
  rw [h, hc.min, hc.max]
  dsimp only
  rw [hlo, hhi]
  refine ⟨_, rfl, ?_, ?_, ?_, ?_, ?_⟩
  · rw [length_append, length_singleton, hc.count]
  · rw [hnums, sum_append, sum_singleton, hc.sum, add_assoc]
  · rw [hnums, map_append, sum_append, map_singleton, sum_singleton, hc.sumsq, add_assoc]
  · rw [hnums, foldl_append]
    rfl
  · rw [hnums, foldl_append]
    rfl

theorem foldlM_numbers (hv : number? v = some q) (h : AllNumbers vs) :
    ∃ cell, (v :: vs).foldlM (update F) empty = some cell ∧ NumberCell q vs cell := by
  have hfold : ∀ (done rest : List Value) (cell : Cell), AllNumbers rest → NumberCell q done cell →
      ∃ cell', rest.foldlM (update F) cell = some cell' ∧
        NumberCell q (done ++ rest) cell' := by
    intro done rest
    induction rest generalizing done with
    | nil => exact fun cell _ hc => ⟨cell, rfl, by rwa [append_nil]⟩
    | cons w rest ih =>
      intro cell hall hc
      obtain ⟨⟨q', hq'⟩, hrest⟩ := forall_mem_cons.mp hall
      obtain ⟨mid, hmid, hc'⟩ := numberCell_update (F := F) hc hq'
      obtain ⟨cell', hcell', hall'⟩ := ih (done ++ [w]) mid hrest hc'
      refine ⟨cell', ?_, by rwa [append_assoc] at hall'⟩
      rw [foldlM_cons, hmid]
      exact hcell'
  obtain ⟨cell, hcell, hc⟩ := update_first (F := F) hv
  obtain ⟨cell', hcell', hc'⟩ := hfold [] vs cell h hc
  refine ⟨cell', ?_, hc'⟩
  rw [foldlM_cons, hcell]
  exact hcell'

/-- The cell of values that are no numbers, of which the first is `v`. -/
structure TextCell (F : FloatRepr) (v : Value) (vs : List Value) (cell : Cell) : Prop where
  count : cell.count = vs.length + 1
  sum : cell.sum = 0
  min : cell.min = vs.foldl (bestText F fun x y => x < y) v
  max : cell.max = vs.foldl (bestText F fun x y => x > y) v

theorem foldlM_texts (hv : number? v = none) (h : ∀ w ∈ vs, number? w = none) :
    ∃ cell, (v :: vs).foldlM (update F) empty = some cell ∧ TextCell F v vs cell := by
  have hfold : ∀ (done rest : List Value) (cell : Cell), (∀ w ∈ rest, number? w = none) →
      TextCell F v done cell → ∃ cell', rest.foldlM (update F) cell = some cell' ∧
        TextCell F v (done ++ rest) cell' := by
    intro done rest
    induction rest generalizing done with
    | nil => exact fun cell _ hc => ⟨cell, rfl, by rwa [append_nil]⟩
    | cons w rest ih =>
      intro cell hall hc
      obtain ⟨hw, hrest⟩ := forall_mem_cons.mp hall
      obtain ⟨mid, hmid, hc'⟩ : ∃ mid, cell.update F w = some mid ∧
          TextCell F v (done ++ [w]) mid := by
        unfold update
        rw [hw]
        refine ⟨_, rfl, ?_, hc.sum, ?_, ?_⟩
        · rw [length_append, length_singleton, hc.count]
        · rw [foldl_append, hc.min]
          rfl
        · rw [foldl_append, hc.max]
          rfl
      obtain ⟨cell', hcell', hall'⟩ := ih (done ++ [w]) mid hrest hc'
      refine ⟨cell', ?_, by rwa [append_assoc] at hall'⟩
      rw [foldlM_cons, hmid]
      exact hcell'
  obtain ⟨cell, hcell, hc⟩ : ∃ cell, empty.update F v = some cell ∧ TextCell F v [] cell := by
    unfold update
    rw [hv]
    exact ⟨_, rfl, rfl, rfl, rfl, rfl⟩
  obtain ⟨cell', hcell', hc'⟩ := hfold [] vs cell h hc
  refine ⟨cell', ?_, hc'⟩
  rw [foldlM_cons, hcell]
  exact hcell'

end Cells

end WebGis.Federation
