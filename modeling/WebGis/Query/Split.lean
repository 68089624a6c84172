/-
  `services/data_fabric/query/pushdown.py`: the part of a filter that a source evaluates.

  A filter is cut along its conjunctions, each part that the source can evaluate is pushed, and the
  others are evaluated here. Both parts hold of a row exactly if the filter does (`split_sound`).
  The operators that a source leaves to the caller are those of tests: a source that lists `or`
  still gets disjunctions (`pushes_or`).
-/
import WebGis.Query.Fingerprint

namespace WebGis.Query

open Data

/-! ## What a source can evaluate -/

inductive PushdownClass where
  | exact | equivalent | coarse | unsupported
  deriving DecidableEq

inductive FilterFamily where
  | scalarFilter | inFilter | rangeFilter
  deriving DecidableEq

structure AdapterCapabilities where
  sourceType : String
  filterPushdown : Bool
  filterOpsLocal : List String

def equivalentFilterSources : List String := ["ogc_api", "arcgis", "wfs"]

/-- `pushdown_profile`, of the families of filters. -/
def pushdownProfile (caps : AdapterCapabilities) : FilterFamily → PushdownClass := fun _ =>
  if caps.filterPushdown ∧ caps.sourceType.toLower ∈ equivalentFilterSources then .equivalent
  else if caps.filterPushdown then .exact
  else .unsupported

/-- `FILTER_LEAF_OP_FAMILIES` -/
def leafOpFamilies : Dict String FilterFamily :=
  .ofList [("eq", .scalarFilter), ("ne", .scalarFilter), ("like", .scalarFilter),
    ("is_null", .scalarFilter), ("in", .inFilter), ("not_in", .inFilter), ("gt", .rangeFilter),
    ("ge", .rangeFilter), ("lt", .rangeFilter), ("le", .rangeFilter), ("between", .rangeFilter)]

def Leaf.op : Leaf → String
  | compare op .. => op.name
  | isIn .. => "in"
  | notIn .. => "not_in"
  | between .. => "between"
  | like .. => "like"
  | isNull .. => "is_null"

namespace Predicate

def subtreeOps (p : Predicate) : List String := p.leaves.map Leaf.op

/-- `filter_leaf_families` -/
def leafFamilies (p : Predicate) : List FilterFamily :=
  (p.subtreeOps.map fun op => (leafOpFamilies.find op).getD .scalarFilter).dedup

/-- `filter_subtree_pushable` -/
def pushable (caps : AdapterCapabilities) (p : Predicate) : Bool :=
  p.subtreeOps.all (· ∉ caps.filterOpsLocal) &&
    !p.leafFamilies.any (pushdownProfile caps · = .unsupported)

/-! ## The split -/

mutual

/-- `flatten_conjunction` -/
def flatten : Predicate → List Predicate
  | and p ps => flatten p ++ flattenAll ps
  | leaf l => [leaf l]
  | or p ps => [or p ps]
  | not p => [not p]

def flattenAll : List Predicate → List Predicate
  | [] => []
  | p :: ps => flatten p ++ flattenAll ps

end

def recombine : List Predicate → Option Predicate
  | [] => none
  | [p] => some p
  | p :: q :: ps => some (and p (q :: ps))

end Predicate

open Predicate

structure FilterPushdownSplit where
  pushed : Option Predicate
  kept : Option Predicate
  isPartial : Bool
  pushedFamilies : List FilterFamily
  keptFamilies : List FilterFamily

def splitFilterPushdown (filter : Predicate) (caps : AdapterCapabilities) : FilterPushdownSplit :=
  let pushedLeaves := filter.flatten.filter (pushable caps)
  let keptLeaves := filter.flatten.filter (!pushable caps ·)
  let pushed := recombine pushedLeaves
  let kept := recombine keptLeaves
  { pushed := pushed
    kept := kept
    isPartial := pushed.isSome && kept.isSome
    pushedFamilies := (pushedLeaves.flatMap leafFamilies).dedup
    keptFamilies := (keptLeaves.flatMap leafFamilies).dedup }

/-- The conjuncts of a part, none of an absent one. -/
def partLeaves (part : Option Predicate) : List Predicate := part.elim [] flatten

/-! ## Conjuncts -/

theorem flattenAll_eq (ps : List Predicate) : flattenAll ps = ps.flatMap flatten := by
  induction ps with
  | nil => rfl
  | cons p ps ih => rw [flattenAll, ih, List.flatMap_cons]

theorem flatten_and (p : Predicate) (ps : List Predicate) :
    (Predicate.and p ps).flatten = (p :: ps).flatMap flatten := by
  rw [flatten, flattenAll_eq, List.flatMap_cons]

variable {p : Predicate}

theorem flatten_leaf {q : Predicate} (h : q ∈ p.flatten) : q.flatten = [q] := by
  induction p using tree_induct with
  | leaf l =>
    obtain rfl := List.mem_singleton.mp h
    rfl
  | and p ps ih =>
    rw [flatten_and] at h
    obtain ⟨r, hr, hq⟩ := List.mem_flatMap.mp h
    exact ih r hr hq
  | or p ps =>
    obtain rfl := List.mem_singleton.mp h
    rfl
  | not p =>
    obtain rfl := List.mem_singleton.mp h
    rfl

variable {ps : List Predicate}

theorem partLeaves_recombine (h : ∀ p ∈ ps, p.flatten = [p]) : partLeaves (recombine ps) = ps := by
  match ps with
  | [] => rfl
  | [p] => exact h p (List.mem_singleton_self p)
  | p :: q :: ps =>
    rw [recombine, partLeaves, Option.elim_some, flatten_and, List.flatMap_congr h]
    simp

/-! ## Rows -/

variable {F : Floats} {row : Row}

def Holds (F : Floats) (row : Row) (p : Predicate) : Prop := evaluatePredicate F p row = .ok true

theorem holds_iff : Holds F row p ↔ evalThreeValued F row p = .ok (some true) := by
  rw [Holds, evaluatePredicate]
  cases evalThreeValued F row p <;> simp [bind, Except.bind, pure, Except.pure]

theorem evalArgs_true :
    (evalArgs F row ps).map Truth.all = .ok (some true) ↔ ∀ p ∈ ps, Holds F row p := by
  induction ps with
  | nil => simp [evalArgs, Except.map, Truth.all_eq_true]
  | cons p ps ih =>
    rw [List.forall_mem_cons, holds_iff, ← ih, evalArgs]
    cases evalThreeValued F row p with
    | error e => simp [bind, Except.bind, Except.map]
    | ok t =>
      cases evalArgs F row ps <;>
        simp [bind, Except.bind, pure, Except.pure, Except.map, Truth.all_eq_true]

theorem holds_and : Holds F row (.and p ps) ↔ ∀ q ∈ p :: ps, Holds F row q := by
  rw [holds_iff, evalThreeValued_and, evalArgs_true]

theorem holds_flatten (p : Predicate) : Holds F row p ↔ ∀ q ∈ p.flatten, Holds F row q := by
  induction p using tree_induct with
  | leaf l => exact List.forall_mem_singleton.symm
  | and p ps ih =>
    rw [holds_and, flatten_and, List.forall_mem_flatMap]
    exact forall₂_congr ih
  | or p ps => exact List.forall_mem_singleton.symm
  | not p => exact List.forall_mem_singleton.symm

theorem holds_part {part : Option Predicate} :
    (∀ q, part = some q → Holds F row q) ↔ ∀ q ∈ partLeaves part, Holds F row q := by
  cases part with
  | none => simp [partLeaves]
  | some p => simp [partLeaves, ← holds_flatten]

theorem leaves_flatten (p : Predicate) : p.flatten.flatMap leaves = p.leaves := by
  induction p using tree_induct with
  | leaf l => rfl
  | and p ps ih =>
    have hall : ∀ qs : List Predicate, leavesOf qs = qs.flatMap leaves := by
      intro qs
      induction qs with
      | nil => rfl
      | cons q qs ihq => rw [leavesOf, ihq, List.flatMap_cons]
    rw [flatten_and, List.flatMap_assoc, List.flatMap_congr ih, ← hall]
    rfl
  | or p ps => exact List.flatMap_singleton _ _
  | not p => exact List.flatMap_singleton _ _

theorem pushed_ops {caps : AdapterCapabilities} (h : ∀ q ∈ p.flatten, pushable caps q) :
    ∀ l ∈ p.leaves, l.op ∉ caps.filterOpsLocal ∧
      pushdownProfile caps ((leafOpFamilies.find l.op).getD .scalarFilter) ≠ .unsupported := by
  intro l hl
  rw [← leaves_flatten] at hl
  obtain ⟨q, hq, hl⟩ := List.mem_flatMap.mp hl
  have hpush := h q hq
  simp only [pushable, leafFamilies, subtreeOps, Bool.and_eq_true, List.all_eq_true,
    Bool.not_eq_true', List.any_eq_false, List.mem_dedup, List.mem_map, decide_eq_true_eq] at hpush
  exact ⟨hpush.1 _ ⟨l, hl, rfl⟩, hpush.2 _ ⟨_, ⟨l, hl, rfl⟩, rfl⟩⟩

theorem split_sound (F : Floats) (filter : Predicate) (caps : AdapterCapabilities) :
    let split := splitFilterPushdown filter caps
    (partLeaves split.pushed = filter.flatten.filter (pushable caps) ∧
      partLeaves split.kept = filter.flatten.filter (!pushable caps ·)) ∧
    (∀ q, split.pushed = some q → ∀ l ∈ q.leaves, l.op ∉ caps.filterOpsLocal ∧
      pushdownProfile caps ((leafOpFamilies.find l.op).getD .scalarFilter) ≠ .unsupported) ∧
    ∀ row, evaluatePredicate F filter row = .ok true ↔
      ∀ q, split.pushed = some q ∨ split.kept = some q → evaluatePredicate F q row = .ok true := by
  intro split
  have hpushed : partLeaves split.pushed = filter.flatten.filter (pushable caps) :=
    partLeaves_recombine fun p hp => flatten_leaf (List.mem_of_mem_filter hp)
  have hkept : partLeaves split.kept = filter.flatten.filter (!pushable caps ·) :=
    partLeaves_recombine fun p hp => flatten_leaf (List.mem_of_mem_filter hp)
  refine ⟨⟨hpushed, hkept⟩, ?_, ?_⟩
  · intro q hq
    refine pushed_ops fun r hr => ?_
    rw [hq, partLeaves, Option.elim_some] at hpushed
    exact (List.mem_filter.mp (hpushed ▸ hr)).2
  · intro row
    have hboth : (∀ q, split.pushed = some q ∨ split.kept = some q → Holds F row q) ↔
        (∀ q, split.pushed = some q → Holds F row q) ∧
          ∀ q, split.kept = some q → Holds F row q := by
      simp only [or_imp, forall_and]
    refine (holds_flatten filter).trans (Iff.trans ?_ hboth.symm)
    rw [holds_part, holds_part, hpushed, hkept]
    simp only [List.mem_filter]
    constructor
    · intro h
      exact ⟨fun q hq => h q hq.1, fun q hq => h q hq.1⟩
    · intro h q hq
      cases hpush : pushable caps q with
      | true => exact h.1 q ⟨hq, hpush⟩
      | false => exact h.2 q ⟨hq, by rw [hpush]; rfl⟩

/-- A source that leaves `or` to the caller is sent a disjunction. -/
theorem pushes_or : ¬ ∀ (filter : Predicate) (caps : AdapterCapabilities) (p : Predicate)
    (ps : List Predicate), (splitFilterPushdown filter caps).pushed = some (.or p ps) →
      "or" ∉ caps.filterOpsLocal := by
  intro h
  let name : Predicate := .leaf (.isNull ⟨"name", by decide⟩ false)
  have hpush : pushable ⟨"wfs", true, ["or"]⟩ (.or name []) = true := by decide +kernel
  refine h (.or name []) ⟨"wfs", true, ["or"]⟩ name [] ?_ (List.mem_singleton_self "or")
  simp only [splitFilterPushdown, flatten, List.filter_cons, hpush, List.filter_nil]
  rfl

end WebGis.Query
