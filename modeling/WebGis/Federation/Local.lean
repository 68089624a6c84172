/-
  `FederatedExecutor._execute_local` on an aggregate join: two sources are read page by page,
  joined and aggregated.

  The limit of the request is one of result rows, but it bounds the joined rows as well: the
  scan ends when there are as many, and a page is joined to one row more at most. A source that
  has more rows than the page is refused with a budget error. So the aggregates are those of all
  matching pairs exactly when there are at most one more of these than the limit, and, for a
  spatial join, which takes the first polygon that it finds for a point, when no point has two
  (`executeLocal_complete_iff`). Geometry, clock and budget are parameters.
-/
import WebGis.Federation.Aggregate
import WebGis.Federation.Bloom

namespace WebGis.Federation

open Data List Option

/-! ## Sources -/

/-- A source that honours limit and offset: how many rows it serves is its own choice. -/
structure Adapter where
  rows : List Row
  served : Nat → Nat → Nat

/-- `adapter.query(…).features` -/
def Adapter.page (a : Adapter) (limit offset : Nat) : List Row :=
  (a.rows.drop offset).take (min limit (a.served limit offset))

/-- `has_more` or `truncated` -/
def Adapter.more (a : Adapter) (limit offset : Nat) : Bool :=
  offset + (a.page limit offset).length < a.rows.length

/-- The loop of `_source_query`; nothing when it raises a budget error. -/
def scanSource (a : Adapter) (late : Nat → Bool) (maxRows limit : Nat) :
    Nat → Nat → List Row → Option (List Row)
  | 0, _, rows => some rows
  | fuel + 1, offset, rows =>
    if offset < limit then
      if late offset then none
      else
        let pageSize := min 10000 (limit - offset)
        let feats := a.page pageSize offset
        let rows := rows ++ feats
        if rows.length > maxRows then none
        else
          let more := a.more pageSize offset
          if feats.length < pageSize ∧ ¬ more then some rows
          else if offset + feats.length ≥ limit ∧ more then none
          else if feats = [] ∧ more then none
          else scanSource a late maxRows limit fuel (offset + feats.length) rows
    else some rows

/-- `_source_query(adapter, …, limit)` -/
def sourceQuery (a : Adapter) (late : Nat → Bool) (maxRows limit : Nat) : Option (List Row) :=
  scanSource a late maxRows limit limit 0 []

theorem Adapter.length_page_le (a : Adapter) (limit offset : Nat) :
    (a.page limit offset).length ≤ limit := by
  unfold page
  rw [length_take]
  omega

theorem Adapter.take_append_page (a : Adapter) (limit offset : Nat) :
    a.rows.take offset ++ a.page limit offset =
      a.rows.take (offset + (a.page limit offset).length) := by
  rw [take_add]
  refine congrArg _ ?_
  unfold page
  rw [length_take, take_eq_take_iff]
  omega

variable {maxRows : Nat} {rows : List Row} {late : Nat → Bool}

theorem scanSource_spec {a : Adapter} {limit fuel offset : Nat} {rows' : List Row}
    (hrows : rows = a.rows.take offset) (hfuel : limit ≤ fuel + offset) (hle : offset ≤ limit)
    (hend : offset < limit ∨ a.rows.length ≤ offset)
    (h : scanSource a late maxRows limit fuel offset rows = some rows') :
    rows' = a.rows ∧ a.rows.length ≤ limit := by
  induction fuel generalizing offset rows with
  | zero =>
    cases h
    have hlen : a.rows.length ≤ offset := by omega
    exact ⟨hrows.trans (take_of_length_le hlen), hlen.trans hle⟩
  | succ fuel ih =>
    unfold scanSource at h
    by_cases hlt : offset < limit
    · rw [if_pos hlt] at h
      by_cases hlate : late offset
      · rw [if_pos hlate] at h
        cases h
      · rw [if_neg hlate] at h
        dsimp only at h
        obtain ⟨size, hsize⟩ : ∃ size, min 10000 (limit - offset) = size := ⟨_, rfl⟩
        rw [hsize] at h
        have hpage := a.length_page_le size offset
        have happend : rows ++ a.page size offset =
            a.rows.take (offset + (a.page size offset).length) := by
          rw [hrows, a.take_append_page]
        have hmore : a.more size offset ↔
            offset + (a.page size offset).length < a.rows.length := decide_eq_true_iff
        split at h
        · cases h
        split at h
        · rename_i hlast
          cases h
          have hlen : a.rows.length ≤ offset + (a.page size offset).length := by
            rw [hmore] at hlast
            omega
          exact ⟨happend.trans (take_of_length_le hlen), by omega⟩
        · split at h
          · cases h
          split at h
          · cases h
          rename_i hlast hover hnone
          rw [hmore] at hlast hover hnone
          refine ih happend ?_ (by omega) (by omega) h
          have hne : a.page size offset ≠ [] := by
            intro hnil
            rw [hnil] at hlast hnone
            simp only [length_nil, true_and] at hlast hnone
            omega
          have := length_pos_iff.mpr hne
          omega
    · rw [if_neg hlt] at h
      cases h
      have hlen : a.rows.length ≤ offset := by omega
      exact ⟨hrows.trans (take_of_length_le hlen), hlen.trans hle⟩

theorem sourceQuery_spec {a : Adapter} {limit : Nat} (hlimit : 0 < limit)
    (h : sourceQuery a late maxRows limit = some rows) : rows = a.rows ∧ a.rows.length ≤ limit :=
  scanSource_spec (show [] = a.rows.take 0 from rfl) (Nat.le_refl _) (Nat.zero_le _) (.inl hlimit) h

/-! ## Joins of a page -/

/-- What `shapely` makes of the geometries of rows. -/
structure Shapes where
  /-- The geometry of a left row can be read. -/
  readable : Row → Bool
  /-- The geometry of a right row can be read and is not empty. -/
  usable : Row → Bool
  /-- The right rows that the spatial index gives for a left row, in its order. -/
  candidates : List Row → Row → List Row
  /-- The predicate holds, and does not raise. -/
  holds : Row → Row → Bool

/-- An index gives every right row for which the predicate holds once. -/
def Shapes.Exact (shapes : Shapes) : Prop :=
  ∀ rightRows pt, ((shapes.candidates rightRows pt).filter (shapes.holds pt)).Perm
    (rightRows.filter fun r => shapes.usable r && shapes.holds pt r)

/-- The join of a request. -/
inductive JoinPlan where
  | equality (joinFieldLeft joinFieldRight : String)
  | spatial (shapes : Shapes)

/-- `dict(pt.get("properties") or {})` with `__right__` -/
def spatialRow (pt hit : Row) : Row where
  props := none
  top := pt.props.getD Dict.empty
  right := some (hit.props.getD Dict.empty)

section Join

variable {B : Type} (add : B → Charge → Option B)

/-- The loop of `spatial_join_local` over the points. -/
def probePoints (shapes : Shapes) (maxOutput : Option Nat) (rightRows : List Row) :
    List Row → Joining B → Option (Joining B)
  | [], s => some s
  | pt :: pts, s =>
    if ¬ shapes.readable pt then probePoints shapes maxOutput rightRows pts s
    else do
      let budget ← add s.budget (.source pt)
      match (shapes.candidates rightRows pt).find? (shapes.holds pt) with
      | none => probePoints shapes maxOutput rightRows pts ⟨budget, s.out⟩
      | some hit => do
          let budget ← add budget (.joined (spatialRow pt hit))
          let s : Joining B := ⟨budget, s.out ++ [spatialRow pt hit]⟩
          if isFull maxOutput s.out then some s
          else probePoints shapes maxOutput rightRows pts s

/-- The join of a page of left rows. -/
def JoinPlan.joinPage (plan : JoinPlan) (rightRows page : List Row) (maxOutput : Nat)
    (budget : B) : Option (Joining B) :=
  match plan with
  | equality joinFieldLeft joinFieldRight =>
    attributeJoinLocal add (some maxOutput) page
      (semiJoinReduceRight page rightRows joinFieldLeft joinFieldRight) joinFieldLeft
      joinFieldRight false none budget
  | spatial shapes => probePoints add shapes (some maxOutput) rightRows page ⟨budget, []⟩

end Join

/-! ## The executor -/

/-- What a request and the run bring. -/
structure Request where
  plan : JoinPlan
  limit : Nat
  maxRows : Nat
  maxRows_pos : 0 < maxRows
  /-- Whether the deadline has passed, in each of the loops. -/
  lateRight : Nat → Bool
  lateJoin : Nat → Bool
  lateLeft : Nat → Bool

inductive Failure where
  | budgetExceeded
  | typeError
  deriving DecidableEq

section Execute

variable {B : Type} (add : B → Charge → Option B) (req : Request) (left right : Adapter)

/-- The loop over the left pages; `offset` is also the number of rows that were fetched. -/
def scanLeft (rightRows : List Row) : Nat → Nat → Joining B → Option (Joining B)
  | 0, _, s => some s
  | fuel + 1, offset, s =>
    if s.out.length < req.limit then
      if req.lateJoin offset then none
      else do
        let fetchSize := min 2000 (req.limit - s.out.length + 1)
        let page ←
          if offset = 0 then sourceQuery left req.lateLeft req.maxRows fetchSize
          else some (left.page fetchSize offset)
        if offset + page.length > req.maxRows then none
        else if page = [] then some s
        else do
          let batch ← req.plan.joinPage add rightRows page (req.limit - s.out.length + 1) s.budget
          let s : Joining B := ⟨batch.budget, s.out ++ batch.out⟩
          if page.length < fetchSize then some s
          else scanLeft rightRows fuel (offset + page.length) s
    else some s

/-- The joined rows of `_execute_local`; nothing when it raises a budget error. -/
def collectJoined (budget : B) : Option (Joining B) := do
  let rightRows ← sourceQuery right req.lateRight req.maxRows (min req.maxRows 100000)
  if rightRows.length > 100000 then none
  else scanLeft add req left rightRows (left.rows.length + 1) 0 ⟨budget, []⟩

/-- `_execute_local(…)` on an aggregate join -/
def executeLocal (F : FloatRepr) (sqrt : Rat → Rat) (budget : B) (aggs : List AggSpec)
    (groupBy : List String) : Except Failure (List Fields) :=
  match collectJoined add req left right budget with
  | none => .error .budgetExceeded
  | some s =>
    match aggregateJoinRows F sqrt s.out aggs groupBy with
    | none => .error .typeError
    | some rows => .ok rows

end Execute

/-! ## The rows that are joined -/

/-- The joined rows that the join of a page finds. -/
def JoinPlan.found (plan : JoinPlan) (rightRows page : List Row) : List Row :=
  match plan with
  | equality joinFieldLeft joinFieldRight =>
    matchingRows (leftKey false joinFieldLeft) joinFieldRight page rightRows
  | spatial shapes =>
    page.flatMap fun pt =>
      if shapes.readable pt then
        (((shapes.candidates rightRows pt).find? (shapes.holds pt)).map (spatialRow pt)).toList
      else []

/-- The joined rows of all matching pairs. -/
def JoinPlan.allPairs (plan : JoinPlan) (leftRows rightRows : List Row) : List Row :=
  match plan with
  | equality joinFieldLeft joinFieldRight =>
    matchingRows (leftKey false joinFieldLeft) joinFieldRight leftRows rightRows
  | spatial shapes =>
    leftRows.flatMap fun pt =>
      if shapes.readable pt then
        (rightRows.filter fun r => shapes.usable r && shapes.holds pt r).map (spatialRow pt)
      else []

/-- No point of a spatial join lies in two polygons. -/
def JoinPlan.Single (plan : JoinPlan) (leftRows rightRows : List Row) : Prop :=
  match plan with
  | equality _ _ => True
  | spatial shapes =>
    ∀ pt ∈ leftRows, shapes.readable pt →
      (rightRows.filter fun r => shapes.usable r && shapes.holds pt r).length ≤ 1

/-- The request was checked, and the index is one. -/
def JoinPlan.Valid : JoinPlan → Prop
  | equality joinFieldLeft _ => joinFieldLeft ≠ ""
  | spatial shapes => shapes.Exact

section Found

variable {B : Type} {add : B → Charge → Option B}

variable {s s' : Joining B} {rightRows : List Row}

theorem probePoints_out {shapes : Shapes} {maxOutput : Option Nat} {points : List Row}
    (hroom : ¬ isFull maxOutput s.out)
    (h : probePoints add shapes maxOutput rightRows points s = some s') :
    s'.out = cutTo maxOutput (s.out ++ (JoinPlan.spatial shapes).found rightRows points) := by
  induction points generalizing s with
  | nil =>
    cases h
    rw [JoinPlan.found, flatMap_nil, append_nil, cutTo_of_not_full hroom]
  | cons pt pts ih =>
    have hfound : (JoinPlan.spatial shapes).found rightRows (pt :: pts) =
        (if shapes.readable pt then
          (((shapes.candidates rightRows pt).find? (shapes.holds pt)).map (spatialRow pt)).toList
        else []) ++ (JoinPlan.spatial shapes).found rightRows pts := rfl
    rw [hfound, ← append_assoc]
    unfold probePoints at h
    by_cases hread : shapes.readable pt
    · rw [if_neg (not_not.mpr hread)] at h
      rw [if_pos hread]
      obtain ⟨budget, -, h⟩ := bind_eq_some_iff.mp h
      cases hhit : (shapes.candidates rightRows pt).find? (shapes.holds pt) with
      | none =>
        rw [hhit] at h
        rw [map_none, toList_none, append_nil]
        exact ih (s := ⟨budget, s.out⟩) hroom h
      | some hit =>
        rw [hhit] at h
        obtain ⟨budget, -, h⟩ := bind_eq_some_iff.mp h
        rw [map_some, toList_some]
        by_cases hfull : isFull maxOutput (s.out ++ [spatialRow pt hit])
        · rw [if_pos hfull] at h
          cases h
          rw [cutTo_append _ hfull, cutTo_snoc _ hroom]
        · rw [if_neg hfull] at h
          exact ih hfull h
    · rw [if_pos hread] at h
      rw [if_neg hread, append_nil]
      exact ih hroom h

theorem joinPage_out {plan : JoinPlan} (hvalid : plan.Valid) {page : List Row} {n : Nat}
    (hn : 0 < n) {budget : B} {batch : Joining B}
    (h : plan.joinPage add rightRows page n budget = some batch) :
    batch.out = (plan.found rightRows page).take n := by
  have hroom : ¬ isFull (some n) ([] : List Row) := by
    simp only [isFull, length_nil, ge_iff_le, decide_eq_true_eq]
    omega
  cases plan with
  | equality joinFieldLeft joinFieldRight =>
    unfold JoinPlan.joinPage at h
    dsimp only at h
    rw [semiJoinReduceRight_keeps add (some n) page rightRows joinFieldRight false hvalid] at h
    exact probeRows_out (s := ⟨budget, []⟩) hroom h
  | spatial shapes => exact probePoints_out (s := ⟨budget, []⟩) hroom h

variable {req : Request} {left right : Adapter}

theorem scanLeft_end {fuel offset : Nat} (hpos : 0 < offset) (hend : left.rows.length ≤ offset)
    (h : scanLeft add req left rightRows fuel offset s = some s') : s'.out = s.out := by
  cases fuel with
  | zero =>
    cases h
    rfl
  | succ fuel =>
    have hpage : ∀ size, left.page size offset = [] := by
      intro size
      rw [Adapter.page, drop_of_length_le hend, take_nil]
    unfold scanLeft at h
    split at h
    · split at h
      · cases h
      dsimp only at h
      rw [if_neg (Nat.pos_iff_ne_zero.mp hpos), hpage, bind_eq_bind, bind_some]
        at h
      split at h
      · cases h
      rw [if_pos rfl] at h
      cases h
      rfl
    · cases h
      rfl

/-- What is joined, unless a budget error is raised. -/
theorem collectJoined_out (hvalid : req.plan.Valid) {budget : B}
    (h : collectJoined add req left right budget = some s) :
    s.out =
      if req.limit = 0 then []
      else (req.plan.found right.rows left.rows).take (req.limit + 1) := by
  obtain ⟨rightRows, hright, h⟩ := bind_eq_some_iff.mp h
  have hpos := req.maxRows_pos
  obtain ⟨rfl, -⟩ := sourceQuery_spec (by omega) hright
  split at h
  · cases h
  unfold scanLeft at h
  by_cases hlimit : req.limit = 0
  · rw [if_neg (by rw [hlimit]; exact Nat.not_lt_zero _)] at h
    cases h
    rw [if_pos hlimit]
  · rw [if_pos (show ([] : List Row).length < req.limit from Nat.pos_of_ne_zero hlimit)] at h
    rw [if_neg hlimit]
    split at h
    · cases h
    dsimp only at h
    rw [if_pos rfl] at h
    obtain ⟨page, hleft, h⟩ := bind_eq_some_iff.mp h
    obtain ⟨rfl, hle⟩ := sourceQuery_spec (by omega) hleft
    split at h
    · cases h
    split at h
    · rename_i hnil
      cases h
      rw [hnil]
      cases req.plan <;> rfl
    · rename_i hne
      obtain ⟨batch, hbatch, h⟩ := bind_eq_some_iff.mp h
      have hout := joinPage_out hvalid (Nat.succ_pos _) hbatch
      split at h
      · cases h
        exact hout
      · rw [scanLeft_end (by have := length_pos_iff.mpr hne; omega) (by omega) h]
        exact hout

end Found

/-! ## Complete results -/

section Complete

variable {B : Type} {add : B → Charge → Option B} {req : Request} {left right : Adapter}

theorem find_candidates {shapes : Shapes} (hexact : shapes.Exact) (rightRows : List Row)
    (pt : Row) :
    let hit := (shapes.candidates rightRows pt).find? (shapes.holds pt)
    let all := rightRows.filter fun r => shapes.usable r && shapes.holds pt r
    (all.length ≤ 1 → hit.toList = all) ∧ hit.toList.length = min 1 all.length := by
  intro hit all
  have hperm : ((shapes.candidates rightRows pt).filter (shapes.holds pt)).Perm all :=
    hexact rightRows pt
  have hhead : hit = ((shapes.candidates rightRows pt).filter (shapes.holds pt)).head? :=
    (head?_filter).symm
  cases hf : (shapes.candidates rightRows pt).filter (shapes.holds pt) with
  | nil =>
    rw [hf] at hperm hhead
    rw [hhead, ← hperm.nil_eq]
    exact ⟨fun _ => rfl, rfl⟩
  | cons r rs =>
    rw [hf] at hperm hhead
    have hlen := hperm.length_eq
    rw [length_cons] at hlen
    rw [hhead]
    refine ⟨fun hone => ?_, ?_⟩
    · obtain rfl : rs = [] := length_eq_zero_iff.mp (by omega)
      exact singleton_perm.mp hperm
    · rw [head?_cons, toList_some, length_singleton]
      omega

variable {plan : JoinPlan}

theorem found_of_single (hvalid : plan.Valid) {leftRows rightRows : List Row}
    (h : plan.Single leftRows rightRows) :
    plan.found rightRows leftRows = plan.allPairs leftRows rightRows := by
  cases plan with
  | equality joinFieldLeft joinFieldRight => rfl
  | spatial shapes =>
    refine flatMap_congr fun pt hpt => ?_
    by_cases hread : shapes.readable pt
    · rw [if_pos hread, if_pos hread, ← (find_candidates hvalid rightRows pt).1 (h pt hpt hread)]
      cases (shapes.candidates rightRows pt).find? (shapes.holds pt) <;> rfl
    · rw [if_neg hread, if_neg hread]

/-- As many rows are found as there are matching pairs only where no point has two. -/
theorem length_found (hvalid : plan.Valid) (leftRows rightRows : List Row) :
    (plan.found rightRows leftRows).length ≤ (plan.allPairs leftRows rightRows).length ∧
      ((plan.allPairs leftRows rightRows).length ≤ (plan.found rightRows leftRows).length →
        plan.Single leftRows rightRows) := by
  cases plan with
  | equality joinFieldLeft joinFieldRight => exact ⟨le_rfl, fun _ => trivial⟩
  | spatial shapes =>
    induction leftRows with
    | nil => exact ⟨le_rfl, fun _ pt hpt => absurd hpt not_mem_nil⟩
    | cons pt pts ih =>
      obtain ⟨hle, hsingle⟩ := ih
      have hpt := (find_candidates hvalid rightRows pt).2
      simp only [JoinPlan.found, JoinPlan.allPairs] at hle hsingle ⊢
      rw [flatMap_cons, flatMap_cons, length_append, length_append]
      by_cases hread : shapes.readable pt
      · rw [if_pos hread, if_pos hread, toList_map, length_map, length_map, hpt]
        refine ⟨by omega, fun h => ?_⟩
        have hrest := hsingle (by omega)
        exact forall_mem_cons.mpr ⟨fun _ => by omega, hrest⟩
      · rw [if_neg hread, if_neg hread]
        refine ⟨by simpa using hle, fun h => ?_⟩
        exact forall_mem_cons.mpr
          ⟨fun hr => absurd hr hread, hsingle (by simpa using h)⟩

/-- The groups and aggregates of some joined rows. -/
def aggregateAll (F : FloatRepr) (sqrt : Rat → Rat) (rows : List Row) (aggs : List AggSpec)
    (groupBy : List String) : Except Failure (List Fields) :=
  match aggregateJoinRows F sqrt rows aggs groupBy with
  | none => .error .typeError
  | some rows => .ok rows

theorem length_eq_of_counts {F : FloatRepr} {sqrt : Rat → Rat} {rows rows' : List Row} {g : String}
    (hfresh : ∀ row ∈ rows ++ rows', (row.right.getD Dict.empty).getD g .null = .null)
    (h : aggregateAll F sqrt rows countAll [g] = aggregateAll F sqrt rows' countAll [g]) :
    rows.length = rows'.length := by
  have hcount := aggregate_count F sqrt fun row hrow => hfresh row (mem_append_left rows' hrow)
  have hcount' := aggregate_count F sqrt
    fun row hrow => hfresh row (mem_append_right rows hrow)
  unfold aggregateAll at h
  cases hagg : aggregateJoinRows F sqrt rows countAll [g] with
  | none =>
    rw [hagg] at hcount
    cases hcount
  | some out =>
    cases hagg' : aggregateJoinRows F sqrt rows' countAll [g] with
    | none =>
      rw [hagg'] at hcount'
      cases hcount'
    | some out' =>
      rw [hagg, hagg'] at h
      obtain rfl := Except.ok.inj h
      rw [hagg] at hcount
      rw [hagg', hcount] at hcount'
      have hsame := some.inj hcount'
      by_cases hzero : rows.length = 0
      · rw [if_pos hzero] at hsame
        by_cases hzero' : rows'.length = 0
        · omega
        rw [if_neg hzero'] at hsame
        cases hsame
      · rw [if_neg hzero] at hsame
        by_cases hzero' : rows'.length = 0
        · rw [if_pos hzero'] at hsame
          cases hsame
        · rw [if_neg hzero'] at hsame
          simpa using hsame

/-- How many rows the executor joins at most. -/
def joinCap (limit : Nat) : Nat := if limit = 0 then 0 else limit + 1

/-- Every aggregation gives a budget error or the aggregates of all matching pairs exactly when
    there are no more of these than are joined, and no point of a spatial join has two. -/
theorem executeLocal_complete_iff {F : FloatRepr} {sqrt : Rat → Rat} (hvalid : req.plan.Valid)
    (budget : B) :
    (∀ aggs groupBy, groupBy ≠ [] →
        executeLocal add req left right F sqrt budget aggs groupBy = .error .budgetExceeded ∨
          executeLocal add req left right F sqrt budget aggs groupBy =
            aggregateAll F sqrt (req.plan.allPairs left.rows right.rows) aggs groupBy) ↔
      collectJoined add req left right budget = none ∨
        (req.plan.allPairs left.rows right.rows).length ≤ joinCap req.limit ∧
          req.plan.Single left.rows right.rows := by
  cases hs : collectJoined add req left right budget with
  | none =>
    refine iff_of_true (fun aggs groupBy _ => .inl ?_) (.inl rfl)
    rw [executeLocal, hs]
  | some s =>
    have hexec : ∀ aggs groupBy, executeLocal add req left right F sqrt budget aggs groupBy =
        aggregateAll F sqrt s.out aggs groupBy := by
      intro aggs groupBy
      rw [executeLocal, hs]
      rfl
    have hout := collectJoined_out hvalid hs
    obtain ⟨hle, hsingle⟩ := length_found hvalid left.rows right.rows
    constructor
    · intro h
      refine .inr ?_
      obtain ⟨g, hg⟩ := exists_fresh (s.out ++ req.plan.allPairs left.rows right.rows)
      have hcount := h countAll [g] (cons_ne_nil _ _)
      rw [hexec] at hcount
      have hlen : s.out.length = (req.plan.allPairs left.rows right.rows).length := by
        refine length_eq_of_counts hg (hcount.resolve_left fun hb => ?_)
        unfold aggregateAll at hb
        split at hb <;> cases hb
      unfold joinCap
      by_cases hlimit : req.limit = 0
      · rw [if_pos hlimit] at hout ⊢
        rw [hout, length_nil] at hlen
        exact ⟨hlen.symm.le, hsingle (by omega)⟩
      · rw [if_neg hlimit] at hout ⊢
        rw [hout, length_take] at hlen
        exact ⟨by omega, hsingle (by omega)⟩
    · rintro (hnone | ⟨hcap, hone⟩) aggs groupBy -
      · cases hnone
      · refine .inr ?_
        rw [hexec, ← found_of_single hvalid hone, hout]
        rw [← found_of_single hvalid hone] at hcap
        unfold joinCap at hcap
        by_cases hlimit : req.limit = 0
        · rw [if_pos hlimit] at hcap ⊢
          rw [length_eq_zero_iff.mp (Nat.le_zero.mp hcap)]
        · rw [if_neg hlimit] at hcap ⊢
          rw [take_of_length_le hcap]

end Complete

/-- A row of a source with a key and a value. -/
def feature (key : Value) (v : Int) : Row :=
  ⟨some (Dict.ofList [("k", key), ("v", .int v)]), Dict.empty, none⟩

/-- A source that serves as many rows as it is asked for. -/
def fullPages (rows : List Row) : Adapter := ⟨rows, fun limit _ => limit⟩

/-- A join on `k` for a number of result rows. -/
def joinOnKey (limit : Nat) : Request where
  plan := .equality "k" "k"
  limit := limit
  maxRows := 1000
  maxRows_pos := by decide
  lateRight := fun _ => false
  lateJoin := fun _ => false
  lateLeft := fun _ => false

/-- Two pairs are summed under the limit of one row. -/
theorem two_pairs_summed :
    let left := fullPages [feature (.int 1) 10]
    let right := fullPages [feature (.float 1) 20, feature (.bool true) 30]
    executeLocal (fun b _ => some b) (joinOnKey 1) left right default id () [⟨.sum, some "v"⟩]
          ["k"] = .error .budgetExceeded ∨
      executeLocal (fun b _ => some b) (joinOnKey 1) left right default id () [⟨.sum, some "v"⟩]
          ["k"] =
        aggregateAll default id ((joinOnKey 1).plan.allPairs left.rows right.rows)
          [⟨.sum, some "v"⟩] ["k"] := by
  intro left right
  have hvalid : (joinOnKey 1).plan.Valid := show "k" ≠ "" by decide
  refine (executeLocal_complete_iff hvalid ()).mpr (.inr ?_) _ _ (by decide)
  exact ⟨by decide +kernel, trivial⟩

/-- A third pair is not counted. -/
theorem third_pair_lost :
    ¬ ∀ (B : Type) (add : B → Charge → Option B) (req : Request) (left right : Adapter)
      (F : FloatRepr) (sqrt : Rat → Rat) (budget : B) (aggs : List AggSpec)
      (groupBy : List String), req.plan.Valid → groupBy ≠ [] →
        executeLocal add req left right F sqrt budget aggs groupBy = .error .budgetExceeded ∨
          executeLocal add req left right F sqrt budget aggs groupBy =
            aggregateAll F sqrt (req.plan.allPairs left.rows right.rows) aggs groupBy := by
  intro hclaim
  have hcounts : ∀ x y : Except Failure (List Fields),
      x = .error .budgetExceeded ∨ x = y →
        x.toOption.map (List.map fun r => r.find "count") = none ∨
          x.toOption.map (List.map fun r => r.find "count") =
            y.toOption.map (List.map fun r => r.find "count") := by
    rintro x y (rfl | rfl)
    · exact .inl rfl
    · exact .inr rfl
  have hcount := hcounts _ _ (hclaim Unit (fun b _ => some b) (joinOnKey 1)
    (fullPages [feature (.int 1) 10])
    (fullPages [feature (.int 1) 20, feature (.int 1) 30, feature (.int 1) 40]) default id ()
    [⟨.count, none⟩] ["k"] (show "k" ≠ "" by decide) (by decide))
  revert hcount
  decide +kernel

end WebGis.Federation
