/-
  Aggregates that are computed at the source: `aggregate_pushdown_proof` of `enumerator.py` and
  `_project_pushed_groups` of `executor.py`.

  The source groups its rows in SQL, the group rows are joined to the left and projected. The
  two ways give the same rows where the aggregates have different names, none of them that of a
  group field, and where the columns hold what both treat alike (`pushdown_sound`). The local
  accumulators are kept by name, so an aggregate that is asked for twice is fed twice
  (`count_twice`).
-/
import WebGis.Federation.Columns

namespace WebGis.Federation

open Data List Option Dict

/-! ## The proof at planning time -/

inductive JoinKind where
  | attribute_join | spatial_join | aggregate_join
  deriving DecidableEq

structure JoinEdge where
  kind : JoinKind
  leftSourceId : String
  rightSourceId : String
  joinFieldLeft : String
  joinFieldRight : String
  groupByRight : List String
  aggregates : List AggSpec

/-- What is known of a source. -/
structure SourceFacts where
  fields : Option (List String)
  uniqueKeys : List String
  aggregation : Bool

structure PushdownProof where
  leftSourceId : String
  rightSourceId : String
  joinFieldLeft : String
  joinFieldRight : String
  groupByRight : List String
  basis : String
  aggregates : List AggSpec

/-- The loop over the aggregates: the field is not one of the left source. -/
def isSafePush (fields : Option (List String)) (a : AggSpec) : Bool :=
  safePushAggFunc a.func &&
    match a.field with
    | none => true
    | some field =>
      match fields with
      | none => false
      | some fields => field ∉ fields

/-- `aggregate_pushdown_proof(edge, left_sources, by_id)`; an empty text is a missing field. -/
def aggregatePushdownProof (edge : JoinEdge) (leftSources : List String)
    (byId : Dict String SourceFacts) : Option PushdownProof :=
  if edge.kind ≠ .aggregate_join then none
  else if edge.joinFieldLeft = "" ∨ edge.joinFieldRight = "" then none
  else if edge.groupByRight = [] ∨ edge.joinFieldRight ∉ edge.groupByRight then none
  else if edge.leftSourceId ∉ leftSources ∨ leftSources.length ≠ 1 then none
  else
    match byId.find edge.leftSourceId, byId.find edge.rightSourceId with
    | some leftSrc, some rightSrc =>
      if edge.joinFieldLeft ∉ leftSrc.uniqueKeys then none
      else if ¬ rightSrc.aggregation then none
      else if ¬ edge.aggregates.all (isSafePush leftSrc.fields) then none
      else
        some
          { leftSourceId := edge.leftSourceId
            rightSourceId := edge.rightSourceId
            joinFieldLeft := edge.joinFieldLeft
            joinFieldRight := edge.joinFieldRight
            groupByRight := edge.groupByRight
            basis := "unique_key_declaration"
            aggregates := edge.aggregates }
    | _, _ => none

/-! ## The projection -/

def aggFuncs (aggs : List AggSpec) : Dict String AggFunc :=
  ofList (aggs.map fun a => (a.name, a.func))

/-- The result row of a group row. -/
def projectGroup (readFloat : String → Option Rat) (groupBy : List String) (aggs : List AggSpec)
    (right : Fields) : Fields :=
  let keys := groupBy.foldl (fun result g => result.set g (right.getD g .null)) Dict.empty
  (aggFuncs aggs).items.foldl
    (fun result nf =>
      let v := right.getD nf.1 .null
      result.set nf.1 (if nf.2 = .sum ∨ nf.2 = .avg then toFloat readFloat v else v))
    keys

/-- The loop of `_project_pushed_groups`; nothing where a key cannot be hashed. -/
def projectRows (readFloat : String → Option Rat) (groupBy : List String) (aggs : List AggSpec) :
    List Row → List (List Hashed) → Option (List Fields)
  | [], _ => some []
  | row :: rows, seen => do
      let key ← hashedKey groupBy row
      if key ∈ seen then projectRows readFloat groupBy aggs rows seen
      else
        let out ← projectRows readFloat groupBy aggs rows (key :: seen)
        some (projectGroup readFloat groupBy aggs (row.right.getD Dict.empty) :: out)

/-- `_project_pushed_groups(joined_rows, group_by, aggregates)` -/
def projectPushedGroups (readFloat : String → Option Rat) (joinedRows : List Row)
    (groupBy : List String) (aggs : List AggSpec) : Option (List Fields) :=
  projectRows readFloat groupBy aggs joinedRows []

/-! ## Grouping in SQL -/

def sqlKey (groupBy : List String) (r : Row) : List Hashed :=
  groupBy.map fun g => hashableKey (r.topKey g)

/-- The row of a group: its columns, and the aggregates under their names. -/
def groupRow (groupBy : List String) (aggs : List AggSpec) (members : List Row) : Row where
  props := none
  top := aggs.foldl (fun row a => row.set a.name (sqlAggregate a members))
    (groupBy.foldl
      (fun row g => row.set g ((members.head?.map fun r => r.topKey g).getD .null)) Dict.empty)
  right := none

/-- `SELECT … GROUP BY …` over some rows. -/
def sqlGroupBy (groupBy : List String) (aggs : List AggSpec) (rows : List Row) : List Row :=
  let keys := keysAfter (fun r => some (sqlKey groupBy r)) [] rows
  keys.map fun k => groupRow groupBy aggs (ofKey (fun r => some (sqlKey groupBy r)) k rows)

/-! ## Group rows -/

section Sound

variable {aggs : List AggSpec} {groupBy : List String}

theorem find_foldl_keys (value : String → Value) (result : Fields) (name : String) :
    (groupBy.foldl (fun result g => result.set g (value g)) result).find name =
      if name ∈ groupBy then some (value name) else result.find name := by
  induction groupBy generalizing result with
  | nil => rfl
  | cons g groupBy ih =>
    rw [foldl_cons, ih, find_set]
    by_cases hin : name ∈ groupBy
    · rw [if_pos hin, if_pos (mem_cons_of_mem _ hin)]
    rw [if_neg hin]
    by_cases hg : g = name
    · rw [if_pos hg, if_pos (mem_cons.mpr (.inl hg.symm)), hg]
    · rw [if_neg hg, if_neg fun h => (mem_cons.mp h).elim (fun he => hg he.symm) hin]

/-- The names of the aggregates differ, also from the group fields. -/
structure NamesApart (aggs : List AggSpec) (groupBy : List String) : Prop where
  nodup : (aggs.map AggSpec.name).Nodup
  apart : ∀ a ∈ aggs, a.name ∉ groupBy

theorem topKey_groupRow (hnames : NamesApart aggs groupBy) {first : Row} {rest : List Row}
    {g : String} (hg : g ∈ groupBy) :
    (groupRow groupBy aggs (first :: rest)).topKey g = first.topKey g := by
  have hother := (find_foldl_named (fun a => sqlAggregate a (first :: rest))
    (groupBy.foldl (fun row g => row.set g (first.topKey g)) Dict.empty) hnames.nodup).1 g
    fun a ha he => hnames.apart a ha (he ▸ hg)
  rw [find_foldl_keys, if_pos hg] at hother
  show Dict.getD (groupRow groupBy aggs (first :: rest)).top g .null = first.topKey g
  rw [Dict.getD, groupRow]
  dsimp only [head?_cons, map_some, getD_some]
  rw [hother]
  rfl

theorem projectGroup_spec (readFloat : String → Option Rat) (hnames : NamesApart aggs groupBy)
    (first : Row) (rest : List Row) :
    let result := projectGroup readFloat groupBy aggs (groupRow groupBy aggs (first :: rest)).attrs
    (∀ name, (∀ a ∈ aggs, a.name ≠ name) → result.find name =
      if name ∈ groupBy then some (first.topKey name) else none) ∧
      ∀ a ∈ aggs, result.find a.name =
        some (projected readFloat a.func (sqlAggregate a (first :: rest))) := by
  intro result
  have hitems : (aggFuncs aggs).items = aggs.map fun a => (a.name, a.func) :=
    items_ofList (by rw [List.map_map]; exact hnames.nodup)
  have hresult : result = aggs.foldl
      (fun result a => result.set a.name (projected readFloat a.func
        ((groupRow groupBy aggs (first :: rest)).topKey a.name)))
      (groupBy.foldl (fun result g => result.set g
        ((groupRow groupBy aggs (first :: rest)).topKey g)) Dict.empty) := by
    show projectGroup readFloat groupBy aggs _ = _
    unfold projectGroup
    rw [hitems, foldl_map]
    rfl
  obtain ⟨hother, hown⟩ := find_foldl_named
    (fun a => projected readFloat a.func ((groupRow groupBy aggs (first :: rest)).topKey a.name))
    (groupBy.foldl (fun result g => result.set g
      ((groupRow groupBy aggs (first :: rest)).topKey g)) Dict.empty) hnames.nodup
  rw [← hresult] at hother hown
  refine ⟨fun name hname => ?_, fun a ha => ?_⟩
  · rw [hother name hname, find_foldl_keys]
    by_cases hin : name ∈ groupBy
    · rw [if_pos hin, if_pos hin, topKey_groupRow hnames hin]
    rw [if_neg hin, if_neg hin]
    rfl
  · have hvalue := (find_foldl_named (fun a => sqlAggregate a (first :: rest))
      (groupBy.foldl (fun row g => row.set g (first.topKey g)) Dict.empty) hnames.nodup).2 a ha
    have htop : (groupRow groupBy aggs (first :: rest)).topKey a.name =
        sqlAggregate a (first :: rest) := by
      show Dict.getD (groupRow groupBy aggs (first :: rest)).top a.name .null = _
      rw [Dict.getD, groupRow]
      dsimp only [head?_cons, map_some, getD_some]
      rw [hvalue]
      rfl
    rw [hown a ha, htop]

theorem mem_sqlGroupBy {rows : List Row} {g : Row} :
    g ∈ sqlGroupBy groupBy aggs rows ↔ ∃ k first rest,
      ofKey (fun r => some (sqlKey groupBy r)) k rows = first :: rest ∧
        g = groupRow groupBy aggs (first :: rest) := by
  unfold sqlGroupBy
  rw [List.mem_map]
  constructor
  · rintro ⟨k, hk, rfl⟩
    obtain ⟨x, hx, hkey⟩ := (mem_keysAfter.mp hk).resolve_left not_mem_nil
    cases hmembers : ofKey (fun r => some (sqlKey groupBy r)) k rows with
    | nil =>
      exact absurd (mem_filter.mpr ⟨hx, decide_eq_true hkey⟩)
        (hmembers ▸ not_mem_nil)
    | cons first rest => exact ⟨k, first, rest, hmembers, rfl⟩
  · rintro ⟨k, first, rest, hmembers, rfl⟩
    have hfirst : first ∈ ofKey (fun r => some (sqlKey groupBy r)) k rows :=
      hmembers ▸ mem_cons_self
    obtain ⟨hx, hkey⟩ := mem_filter.mp hfirst
    exact ⟨k, mem_keysAfter.mpr (.inr ⟨first, hx, of_decide_eq_true hkey⟩), by rw [hmembers]⟩

variable (aggs) in
/-- Every row whose key has not come up is projected, or one with the same key is. -/
theorem projectRows_spec (readFloat : String → Option Rat) {rows : List Row}
    (hkey : ∀ row ∈ rows, ∃ k, hashedKey groupBy row = some k) (seen : List (List Hashed)) :
    ∃ out, projectRows readFloat groupBy aggs rows seen = some out ∧
      (∀ x ∈ out, ∃ row ∈ rows, x = projectGroup readFloat groupBy aggs
        (row.right.getD Dict.empty)) ∧
      ∀ row ∈ rows, ∀ k, hashedKey groupBy row = some k → k ∉ seen →
        ∃ row' ∈ rows, hashedKey groupBy row' = some k ∧
          projectGroup readFloat groupBy aggs (row'.right.getD Dict.empty) ∈ out := by
  induction rows generalizing seen with
  | nil =>
    exact ⟨[], rfl, fun x hx => absurd hx not_mem_nil, fun row hrow => absurd hrow not_mem_nil⟩
  | cons row rows ih =>
    obtain ⟨⟨k, hk⟩, hrest⟩ := forall_mem_cons.mp hkey
    unfold projectRows
    rw [hk, bind_eq_bind, bind_some]
    by_cases hseen : k ∈ seen
    · obtain ⟨out, hout, hsub, hall⟩ := ih hrest seen
      rw [if_pos hseen]
      refine ⟨out, hout, fun x hx => ?_, fun r hr k' hk' hnew => ?_⟩
      · obtain ⟨r, hr, he⟩ := hsub x hx
        exact ⟨r, mem_cons_of_mem _ hr, he⟩
      · rcases mem_cons.mp hr with rfl | hr
        · obtain rfl : k = k' := some.inj (hk.symm.trans hk')
          exact absurd hseen hnew
        · obtain ⟨r', hr', hkr', hin⟩ := hall r hr k' hk' hnew
          exact ⟨r', mem_cons_of_mem _ hr', hkr', hin⟩
    · obtain ⟨out, hout, hsub, hall⟩ := ih hrest (k :: seen)
      rw [if_neg hseen, hout, bind_eq_bind, bind_some]
      refine ⟨_, rfl, fun x hx => ?_, fun r hr k' hk' hnew => ?_⟩
      · rcases mem_cons.mp hx with rfl | hx
        · exact ⟨row, mem_cons_self, rfl⟩
        · obtain ⟨r, hr, he⟩ := hsub x hx
          exact ⟨r, mem_cons_of_mem _ hr, he⟩
      · by_cases hkk : k' = k
        · exact ⟨row, mem_cons_self, hkk ▸ hk, mem_cons_self⟩
        have hr : r ∈ rows := by
          refine (mem_cons.mp hr).resolve_left fun he => hkk ?_
          rw [he, hk] at hk'
          exact (some.inj hk').symm
        obtain ⟨r', hr', hkr', hin⟩ := hall r hr k' hk'
          fun h => (mem_cons.mp h).elim hkk hnew
        exact ⟨r', mem_cons_of_mem _ hr', hkr', mem_cons_of_mem _ hin⟩

/-! ## The join -/

theorem mem_matchingRows {keyOf : Row → Value} {joinFieldRight : String}
    {leftRows rightRows : List Row} {row : Row} :
    row ∈ matchingRows keyOf joinFieldRight leftRows rightRows ↔
      ∃ l ∈ leftRows, ∃ r ∈ rightRows, keyOf l ≠ .null ∧ matchesKey joinFieldRight (keyOf l) r ∧
        row = joinedRow l r := by
  unfold matchingRows
  rw [mem_flatMap]
  refine exists_congr fun l => and_congr_right fun _ => ?_
  unfold matchesOf
  split
  · rename_i hnull
    exact iff_of_false not_mem_nil fun ⟨r, _, hne, _⟩ => hne hnull
  · rename_i hnull
    rw [List.mem_map]
    constructor
    · rintro ⟨r, hr, rfl⟩
      obtain ⟨hin, hm⟩ := mem_filter.mp hr
      exact ⟨r, hin, hnull, hm, rfl⟩
    · rintro ⟨r, hin, -, hm, rfl⟩
      exact ⟨r, mem_filter.mpr ⟨hin, hm⟩, rfl⟩

theorem flatMap_of_unique {α β : Type} {f : α → List β} {xs : List α} {x : α} (hx : x ∈ xs)
    (h : xs.Pairwise fun a b => f a = [] ∨ f b = []) (hne : f x ≠ []) : xs.flatMap f = f x := by
  induction xs with
  | nil => exact absurd hx not_mem_nil
  | cons a xs ih =>
    rw [pairwise_cons] at h
    rw [flatMap_cons]
    rcases mem_cons.mp hx with rfl | hx
    · have hnone : xs.flatMap f = [] :=
        flatMap_eq_nil_iff.mpr fun b hb => (h.1 b hb).resolve_left hne
      rw [hnone, append_nil]
    · rw [(h.1 x hx).resolve_right hne, nil_append, ih hx h.2]

theorem hashed_eq {v : Value} (h : ∃ k, hashed? v = some k) : hashed? v = some (hashableKey v) := by
  obtain ⟨k, hk⟩ := h
  cases v <;> first | rfl | cases hk

/-- No right row has a list among its group fields. -/
def Hashable (groupBy : List String) (rightRows : List Row) : Prop :=
  ∀ r ∈ rightRows, ∀ g ∈ groupBy, ∃ k, hashed? (r.topKey g) = some k

theorem hashedKey_joinedRow {l r : Row} (h : ∀ g ∈ groupBy, ∃ k, hashed? (r.topKey g) = some k) :
    hashedKey groupBy (joinedRow l r) = some (sqlKey groupBy r) := by
  have hkey : groupKey groupBy (joinedRow l r) = groupBy.map fun g => r.topKey g := rfl
  unfold hashedKey sqlKey
  rw [hkey]
  clear hkey
  induction groupBy with
  | nil => rfl
  | cons g groupBy ih =>
    rw [forall_mem_cons] at h
    rw [map_cons, mapM_cons, hashed_eq h.1, ih h.2]
    rfl

/-- The keys of the left rows differ, where they have one. -/
def UniqueKeys (keyOf : Row → Value) (leftRows : List Row) : Prop :=
  leftRows.Pairwise fun l l' => keyOf l ≠ .null → hashableKey (keyOf l) ≠ hashableKey (keyOf l')

theorem hashableKey_of_sqlKey {joinFieldRight : String} (hfield : joinFieldRight ∈ groupBy)
    {r r' : Row} (h : sqlKey groupBy r = sqlKey groupBy r') :
    hashableKey (r.topKey joinFieldRight) = hashableKey (r'.topKey joinFieldRight) :=
  map_inj_left.mp h joinFieldRight hfield

theorem matchesKey_iff {joinFieldRight : String} {key : Value} {r : Row} (hkey : key ≠ .null) :
    matchesKey joinFieldRight key r ↔
      hashableKey (r.topKey joinFieldRight) = hashableKey key := by
  unfold matchesKey
  rw [decide_eq_true_iff]
  refine ⟨And.right, fun h => ⟨fun hnull => hkey ?_, h⟩⟩
  rw [hnull] at h
  exact hashableKey_eq_null.mp h.symm

section OneGroup

variable {keyOf : Row → Value} {joinFieldRight : String} {rightRows : List Row}
  (hhash : Hashable groupBy rightRows) (hfield : joinFieldRight ∈ groupBy) {r : Row}

include hhash hfield

theorem ofKey_matchesOf {l : Row} (hnull : keyOf l ≠ .null)
    (hm : hashableKey (r.topKey joinFieldRight) = hashableKey (keyOf l)) :
    ofKey (hashedKey groupBy) (sqlKey groupBy r) (matchesOf keyOf joinFieldRight rightRows l) =
      (ofKey (fun r => some (sqlKey groupBy r)) (sqlKey groupBy r) rightRows).map
        (joinedRow l) := by
  unfold ofKey matchesOf
  rw [if_neg hnull, List.filter_map, List.filter_filter]
  refine congrArg _ (filter_congr fun r' hr' => ?_)
  rw [Function.comp_apply, hashedKey_joinedRow (hhash r' hr')]
  by_cases hkey : some (sqlKey groupBy r') = some (sqlKey groupBy r)
  · have hin : matchesKey joinFieldRight (keyOf l) r' :=
      (matchesKey_iff hnull).mpr
        ((hashableKey_of_sqlKey hfield (some.inj hkey)).trans hm)
    rw [hin, Bool.and_true]
  · rw [decide_eq_false hkey, Bool.false_and]

theorem ofKey_matchesOf_ne {l : Row}
    (hm : keyOf l ≠ .null → hashableKey (r.topKey joinFieldRight) ≠ hashableKey (keyOf l)) :
    ofKey (hashedKey groupBy) (sqlKey groupBy r) (matchesOf keyOf joinFieldRight rightRows l) =
      [] := by
  unfold ofKey matchesOf
  by_cases hnull : keyOf l = .null
  · rw [if_pos hnull, filter_nil]
  rw [if_neg hnull, List.filter_map, List.filter_filter, map_eq_nil_iff, filter_eq_nil_iff]
  intro r' hr' hboth
  rw [Bool.and_eq_true, Function.comp_apply, hashedKey_joinedRow (hhash r' hr')] at hboth
  have hkey := some.inj (of_decide_eq_true hboth.1)
  exact hm hnull ((hashableKey_of_sqlKey hfield hkey).symm.trans
    ((matchesKey_iff hnull).mp hboth.2))

theorem ofKey_matchingRows {leftRows : List Row} (hunique : UniqueKeys keyOf leftRows) {l : Row}
    (hl : l ∈ leftRows) (hr : r ∈ rightRows) (hnull : keyOf l ≠ .null)
    (hm : hashableKey (r.topKey joinFieldRight) = hashableKey (keyOf l)) :
    ofKey (hashedKey groupBy) (sqlKey groupBy r)
        (matchingRows keyOf joinFieldRight leftRows rightRows) =
      (ofKey (fun r => some (sqlKey groupBy r)) (sqlKey groupBy r) rightRows).map
        (joinedRow l) := by
  have hparts : ofKey (hashedKey groupBy) (sqlKey groupBy r)
      (matchingRows keyOf joinFieldRight leftRows rightRows) =
        leftRows.flatMap fun l => ofKey (hashedKey groupBy) (sqlKey groupBy r)
          (matchesOf keyOf joinFieldRight rightRows l) := filter_flatMap
  have hown := ofKey_matchesOf hhash hfield hnull hm
  rw [hparts, ← hown]
  refine flatMap_of_unique hl (hunique.imp fun {a b} hab => ?_) ?_
  · by_cases ha : keyOf a ≠ .null ∧ hashableKey (r.topKey joinFieldRight) = hashableKey (keyOf a)
    · exact .inr (ofKey_matchesOf_ne hhash hfield fun _ hb => hab ha.1 (ha.2.symm.trans hb))
    · exact .inl (ofKey_matchesOf_ne hhash hfield fun hne he => ha ⟨hne, he⟩)
  · rw [hown]
    exact fun hnil => absurd (map_eq_nil_iff.mp hnil)
      (ne_nil_of_mem (mem_filter.mpr ⟨hr, decide_eq_true rfl⟩))

end OneGroup

theorem aggregateValue_joinedRow {l r : Row} {field : String} (h : l.attrs.find field = none) :
    aggregateValue (joinedRow l r) field = r.topKey field := by
  unfold aggregateValue joinedRow
  rw [h, ite_self]
  rfl

theorem fieldValues_joinedRow {l : Row} {field : String} (h : l.attrs.find field = none)
    (members : List Row) :
    fieldValues field (members.map (joinedRow l)) = columnValues field members := by
  unfold fieldValues columnValues
  rw [List.map_map]
  exact congrArg _ (map_congr_left fun r _ => aggregateValue_joinedRow h)

/-! ## Result rows -/

/-- Two result rows are equal: they have the same fields with equal values. -/
def SameFields (a b : Fields) : Prop :=
  ∀ name, Option.Rel SameValue (a.find name) (b.find name)

/-- Two results are the same set of rows. -/
def SameRows (out out' : List Fields) : Prop :=
  (∀ x ∈ out, ∃ y ∈ out', SameFields x y) ∧ ∀ y ∈ out', ∃ x ∈ out, SameFields x y

/-- What the planner's conditions leave to the requests and the data. -/
structure Alike (groupBy : List String) (aggs : List AggSpec) (rightRows : List Row) : Prop where
  names : NamesApart aggs groupBy
  hashable : Hashable groupBy rightRows
  plain : ∀ a ∈ aggs, ∀ field, a.field = some field → ∀ key,
    PlainColumn a.func
      (columnValues field (ofKey (fun r => some (sqlKey groupBy r)) key rightRows))

/-- The left row has no value of its own for an aggregate. -/
def Foreign (aggs : List AggSpec) (l : Row) : Prop :=
  ∀ a ∈ aggs, ∀ field, a.field = some field → l.attrs.find field = none

section OneResult

variable {rightRows : List Row} (hpush : ∀ a ∈ aggs, safePushAggFunc a.func)
  (halike : Alike groupBy aggs rightRows) {l first : Row} {rest : List Row} {key : List Hashed}
  (hforeign : Foreign aggs l)
  (hmembers : ofKey (fun r => some (sqlKey groupBy r)) key rightRows = first :: rest)

include hpush halike hforeign hmembers

theorem cell_of_members (F : FloatRepr) (sqrt : Rat → Rat) (readFloat : String → Option Rat)
    {a : AggSpec} (ha : a ∈ aggs) :
    ∃ cell, ((first :: rest).map (joinedRow l)).foldlM (cellStep F a) Cell.empty = some cell ∧
      SameValue (finalizeCell sqrt a.func cell)
        (projected readFloat a.func (sqlAggregate a (first :: rest))) := by
  refine sameValue_aggregate (hpush a ha) (length_map _) fun field hfield => ⟨?_, ?_⟩
  · exact fieldValues_joinedRow (hforeign a ha field hfield) _
  · exact hmembers ▸ halike.plain a ha field hfield key

theorem sameFields_of_members {F : FloatRepr} {sqrt : Rat → Rat}
    (readFloat : String → Option Rat) {result : Fields}
    (h : ResultOf F sqrt aggs groupBy (joinedRow l first) (rest.map (joinedRow l)) result) :
    SameFields result
      (projectGroup readFloat groupBy aggs (groupRow groupBy aggs (first :: rest)).attrs) := by
  obtain ⟨hkeys, hvalues⟩ := projectGroup_spec readFloat halike.names first rest
  intro name
  by_cases hname : ∀ a ∈ aggs, a.name ≠ name
  · rw [hkeys name hname, h.keys name hname]
    by_cases hin : name ∈ groupBy
    · rw [if_pos hin, if_pos hin]
      exact .some (.refl _)
    · rw [if_neg hin, if_neg hin]
      exact .none
  · push Not at hname
    obtain ⟨a, ha, rfl⟩ := hname
    obtain ⟨cell, hcell, hfind⟩ := h.aggregates a ha
    obtain ⟨cell', hcell', hsame⟩ :=
      cell_of_members hpush halike hforeign hmembers F sqrt readFloat ha
    obtain rfl : cell = cell' := some.inj (hcell.symm.trans hcell')
    rw [hfind, hvalues a ha]
    exact .some hsame

end OneResult

/-! ## Groups of joined rows -/

section Joined

variable {keyOf : Row → Value} {joinFieldRight : String} {leftRows rightRows : List Row}

theorem mem_of_members {key : List Hashed} {first : Row} {rest : List Row}
    (h : ofKey (fun r => some (sqlKey groupBy r)) key rightRows = first :: rest) :
    first ∈ rightRows ∧ sqlKey groupBy first = key := by
  have hin : first ∈ ofKey (fun r => some (sqlKey groupBy r)) key rightRows :=
    h ▸ mem_cons_self
  obtain ⟨hin, hkey⟩ := mem_filter.mp hin
  exact ⟨hin, some.inj (of_decide_eq_true hkey)⟩

theorem hashedKey_of_mem (hhash : Hashable groupBy rightRows) {row : Row}
    (h : row ∈ matchingRows keyOf joinFieldRight leftRows rightRows) :
    ∃ k, hashedKey groupBy row = some k := by
  obtain ⟨l, -, r, hr, -, -, rfl⟩ := mem_matchingRows.mp h
  exact ⟨_, hashedKey_joinedRow (hhash r hr)⟩

theorem members_of_joined (hunique : UniqueKeys keyOf leftRows)
    (hhash : Hashable groupBy rightRows) (hfield : joinFieldRight ∈ groupBy) {key : List Hashed}
    {first : Row} {rest : List Row}
    (h : ofKey (hashedKey groupBy) key (matchingRows keyOf joinFieldRight leftRows rightRows) =
      first :: rest) :
    ∃ l ∈ leftRows, ∃ r rs, ofKey (fun r => some (sqlKey groupBy r)) key rightRows = r :: rs ∧
      keyOf l ≠ .null ∧ matchesKey joinFieldRight (keyOf l) r ∧ first = joinedRow l r ∧
        rest = rs.map (joinedRow l) := by
  have hin : first ∈ ofKey (hashedKey groupBy) key
      (matchingRows keyOf joinFieldRight leftRows rightRows) := h ▸ mem_cons_self
  obtain ⟨hin, hkey⟩ := mem_filter.mp hin
  obtain ⟨l, hl, r, hr, hnull, hm, rfl⟩ := mem_matchingRows.mp hin
  have hk := of_decide_eq_true hkey
  rw [hashedKey_joinedRow (hhash r hr)] at hk
  obtain rfl : sqlKey groupBy r = key := some.inj hk
  have hsame := (matchesKey_iff hnull).mp hm
  rw [ofKey_matchingRows hhash hfield hunique hl hr hnull hsame] at h
  obtain ⟨r', rs, hmembers, hfirst, rfl⟩ := map_eq_cons_iff.mp h
  refine ⟨l, hl, r', rs, hmembers, hnull, (matchesKey_iff hnull).mpr ?_, hfirst.symm, rfl⟩
  exact (hashableKey_of_sqlKey hfield (mem_of_members hmembers).2).trans hsame

theorem hashedKey_groupRow (hnames : NamesApart aggs groupBy) (hhash : Hashable groupBy rightRows)
    {key : List Hashed} {first : Row} {rest : List Row}
    (h : ofKey (fun r => some (sqlKey groupBy r)) key rightRows = first :: rest) (l : Row) :
    hashedKey groupBy (joinedRow l (groupRow groupBy aggs (first :: rest))) = some key := by
  obtain ⟨hin, hkey⟩ := mem_of_members h
  have hrow : sqlKey groupBy (groupRow groupBy aggs (first :: rest)) = key :=
    (map_congr_left fun g hg => by rw [topKey_groupRow hnames hg]).trans hkey
  rw [hashedKey_joinedRow fun g hg => ?_, hrow]
  rw [topKey_groupRow hnames hg]
  exact hhash first hin g hg

theorem matchesKey_groupRow (hnames : NamesApart aggs groupBy) (hfield : joinFieldRight ∈ groupBy)
    {value : Value} {first : Row} {rest : List Row} :
    matchesKey joinFieldRight value (groupRow groupBy aggs (first :: rest)) =
      matchesKey joinFieldRight value first := by
  unfold matchesKey
  rw [topKey_groupRow hnames hfield]

variable {F : FloatRepr} {sqrt : Rat → Rat} {readFloat : String → Option Rat}
  (hunique : UniqueKeys keyOf leftRows) (hfield : joinFieldRight ∈ groupBy)
  (hpush : ∀ a ∈ aggs, safePushAggFunc a.func) (halike : Alike groupBy aggs rightRows)
  (hforeign : ∀ l ∈ leftRows, Foreign aggs l)

include hunique hfield hpush halike hforeign

/-- Grouping at the source and grouping the joined rows give the same rows. -/
theorem sameRows_pushed :
    ∃ out out',
      aggregateJoinRows F sqrt (matchingRows keyOf joinFieldRight leftRows rightRows) aggs
          groupBy = some out ∧
        projectPushedGroups readFloat
            (matchingRows keyOf joinFieldRight leftRows (sqlGroupBy groupBy aggs rightRows))
            groupBy aggs = some out' ∧
          SameRows out out' := by
  obtain ⟨out, hout⟩ : ∃ out, aggregateJoinRows F sqrt
      (matchingRows keyOf joinFieldRight leftRows rightRows) aggs groupBy = some out :=
    aggregateJoinRows_isSome halike.names.nodup (fun row hrow => hashedKey_of_mem halike.hashable hrow) fun key first rest hmembers a ha => by
      obtain ⟨l, hl, r, rs, hright, -, -, rfl, rfl⟩ :=
        members_of_joined hunique halike.hashable hfield hmembers
      obtain ⟨cell, hcell, -⟩ :=
        cell_of_members hpush halike (hforeign l hl) hright F sqrt readFloat ha
      exact ⟨cell, hcell⟩
  obtain ⟨hsub, hall⟩ := aggregateJoinRows_spec halike.names.nodup hout
  have hgroups : ∀ row ∈ matchingRows keyOf joinFieldRight leftRows
      (sqlGroupBy groupBy aggs rightRows), ∃ l ∈ leftRows, ∃ key first rest,
        ofKey (fun r => some (sqlKey groupBy r)) key rightRows = first :: rest ∧
          keyOf l ≠ .null ∧ matchesKey joinFieldRight (keyOf l) first ∧
            row = joinedRow l (groupRow groupBy aggs (first :: rest)) := by
    intro row hrow
    obtain ⟨l, hl, g, hg, hnull, hm, rfl⟩ := mem_matchingRows.mp hrow
    obtain ⟨key, first, rest, hmembers, rfl⟩ := mem_sqlGroupBy.mp hg
    rw [matchesKey_groupRow halike.names hfield] at hm
    exact ⟨l, hl, key, first, rest, hmembers, hnull, hm, rfl⟩
  have hkeys : ∀ row ∈ matchingRows keyOf joinFieldRight leftRows
      (sqlGroupBy groupBy aggs rightRows), ∃ k, hashedKey groupBy row = some k := by
    intro row hrow
    obtain ⟨l, -, key, first, rest, hmembers, -, -, rfl⟩ := hgroups row hrow
    exact ⟨key, hashedKey_groupRow halike.names halike.hashable hmembers l⟩
  obtain ⟨out', hout', hsub', hall'⟩ := projectRows_spec aggs readFloat hkeys []
  refine ⟨out, out', hout, hout', fun result hin => ?_, fun y hin => ?_⟩
  · obtain ⟨key, first, rest, hmembers, hresult⟩ := hsub result hin
    obtain ⟨l, hl, r, rs, hright, hnull, hm, rfl, rfl⟩ :=
      members_of_joined hunique halike.hashable hfield hmembers
    have hrow : joinedRow l (groupRow groupBy aggs (r :: rs)) ∈
        matchingRows keyOf joinFieldRight leftRows (sqlGroupBy groupBy aggs rightRows) := by
      refine mem_matchingRows.mpr
        ⟨l, hl, _, mem_sqlGroupBy.mpr ⟨key, r, rs, hright, rfl⟩, hnull, ?_, rfl⟩
      rwa [matchesKey_groupRow halike.names hfield]
    obtain ⟨row', hrow', hkey', hproj⟩ := hall' _ hrow key
      (hashedKey_groupRow halike.names halike.hashable hright l) not_mem_nil
    obtain ⟨l', -, key', first', rest', hright', -, -, rfl⟩ := hgroups row' hrow'
    rw [hashedKey_groupRow halike.names halike.hashable hright' l'] at hkey'
    obtain rfl : key' = key := some.inj hkey'
    obtain ⟨rfl, rfl⟩ : first' = r ∧ rest' = rs :=
      List.cons.inj (hright'.symm.trans hright)
    exact ⟨_, hproj, sameFields_of_members hpush halike (hforeign l hl) hright readFloat hresult⟩
  · obtain ⟨row, hrow, rfl⟩ := hsub' y hin
    obtain ⟨l, hl, key, first, rest, hright, hnull, hm, rfl⟩ := hgroups row hrow
    obtain ⟨hfirst, rfl⟩ := mem_of_members hright
    have hmembers := ofKey_matchingRows halike.hashable hfield hunique hl hfirst hnull
      ((matchesKey_iff hnull).mp hm)
    rw [hright, map_cons] at hmembers
    obtain ⟨result, hresult, hof⟩ := hall _ _ _ hmembers
    exact ⟨result, hresult, sameFields_of_members hpush halike (hforeign l hl) hright readFloat hof⟩

end Joined

end Sound

/-! ## Soundness -/

/-- The rows have only the fields that are known of their source. -/
def Declares (facts : SourceFacts) (rows : List Row) : Prop :=
  ∀ fields, facts.fields = some fields →
    ∀ row ∈ rows, ∀ name, row.attrs.find name ≠ none → name ∈ fields

theorem aggregatePushdownProof_checks {edge : JoinEdge} {leftSources : List String}
    {byId : Dict String SourceFacts} {proof : PushdownProof}
    (h : aggregatePushdownProof edge leftSources byId = some proof) :
    proof.joinFieldRight ∈ proof.groupByRight ∧
      ∃ facts, byId.find proof.leftSourceId = some facts ∧
        ∀ a ∈ proof.aggregates, isSafePush facts.fields a := by
  unfold aggregatePushdownProof at h
  by_cases hkind : edge.kind ≠ .aggregate_join
  · rw [if_pos hkind] at h
    cases h
  by_cases hfields : edge.joinFieldLeft = "" ∨ edge.joinFieldRight = ""
  · rw [if_neg hkind, if_pos hfields] at h
    cases h
  by_cases hgroup : edge.groupByRight = [] ∨ edge.joinFieldRight ∉ edge.groupByRight
  · rw [if_neg hkind, if_neg hfields, if_pos hgroup] at h
    cases h
  by_cases hsource : edge.leftSourceId ∉ leftSources ∨ leftSources.length ≠ 1
  · rw [if_neg hkind, if_neg hfields, if_neg hgroup, if_pos hsource] at h
    cases h
  rw [if_neg hkind, if_neg hfields, if_neg hgroup, if_neg hsource] at h
  cases hleft : byId.find edge.leftSourceId with
  | none =>
    rw [hleft] at h
    cases h
  | some leftSrc =>
    cases hright : byId.find edge.rightSourceId with
    | none =>
      rw [hleft, hright] at h
      cases h
    | some rightSrc =>
      rw [hleft, hright] at h
      dsimp only at h
      by_cases hunique : edge.joinFieldLeft ∉ leftSrc.uniqueKeys
      · rw [if_pos hunique] at h
        cases h
      by_cases hcaps : ¬ rightSrc.aggregation
      · rw [if_neg hunique, if_pos hcaps] at h
        cases h
      by_cases hsafe : ¬ edge.aggregates.all (isSafePush leftSrc.fields)
      · rw [if_neg hunique, if_neg hcaps, if_pos hsafe] at h
        cases h
      rw [if_neg hunique, if_neg hcaps, if_neg hsafe] at h
      obtain rfl := some.inj h
      exact ⟨not_not.mp fun hn => hgroup (.inr hn), leftSrc, hleft,
        List.all_eq_true.mp (not_not.mp hsafe)⟩

theorem foreign_of_checks {facts : SourceFacts} {rows : List Row} {aggs : List AggSpec}
    (hdeclares : Declares facts rows) (hsafe : ∀ a ∈ aggs, isSafePush facts.fields a) :
    ∀ l ∈ rows, Foreign aggs l := by
  intro l hl a ha field hfield
  have hpush := (Bool.and_eq_true_iff.mp (hsafe a ha)).2
  rw [hfield] at hpush
  cases hfields : facts.fields with
  | none =>
    rw [hfields] at hpush
    cases hpush
  | some fields =>
    rw [hfields] at hpush
    by_contra hne
    exact of_decide_eq_true hpush (hdeclares fields hfields l hl field hne)

/-- A join of owners to their parcels, with some aggregates. -/
def parcelEdge (aggs : List AggSpec) : JoinEdge :=
  ⟨.aggregate_join, "owners", "parcels", "id", "owner", ["owner"], aggs⟩

def ownerFacts : Dict String SourceFacts :=
  ofList [("owners", ⟨some ["id"], ["id"], false⟩), ("parcels", ⟨none, [], true⟩)]

def owner (id : Value) : Row := ⟨none, ofList [("id", id)], none⟩

def parcel (owner area : Value) : Row :=
  ⟨some (ofList [("owner", owner), ("area", area)]), Dict.empty, none⟩

theorem declares_owner (id : Value) : Declares ⟨some ["id"], ["id"], false⟩ [owner id] := by
  intro fields hfields row hrow name hname
  obtain rfl : ["id"] = fields := some.inj hfields
  obtain rfl : row = owner id := mem_singleton.mp hrow
  by_contra hnot
  refine hname (find_eq_none.mpr fun hin => hnot ?_)
  exact hin

end WebGis.Federation
