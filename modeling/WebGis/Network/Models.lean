/-
  `services/network/allocation.py`: which of the candidate sites are to serve the demand.

  Costs are exact, a pair without a way costs `⊤`. Small problems are enumerated, larger ones go
  through heuristics that swap or add sites.

  The programs that `services/network/allocation.py` gives to `scipy.optimize.milp`.

  The first columns say which sites are chosen, the columns after them which pair of a demand and a
  site is used, or which demand is covered. What the solver answers is a parameter: the columns of
  an optimum, or nothing.
-/
import Mathlib.Algebra.Order.Field.Rat
import Mathlib.Data.List.MinMax
import Mathlib.Data.Prod.Lex
import Mathlib.Order.WithBot
import WebGis.Data.Milp

namespace WebGis.Network

open List

/-! ## Problems -/

/-- The cost from a demand to a site. -/
abbrev Cost : Type := WithTop Rat

/-- The cost matrix and the weights after the checks: a row for each demand, a column for each
candidate, and a number of sites that can be chosen. -/
structure Problem where
  costs : List (List Cost)
  weights : List Rat
  facilities : Nat
  pCount : Nat
  rect : ∀ row ∈ costs, row.length = facilities
  rows : costs.length = weights.length
  positive : 1 ≤ pCount
  fits : pCount ≤ facilities

namespace Problem

variable (P : Problem)

/-- `n_dem` -/
def demands : Nat := P.weights.length

def cost (i j : Nat) : Cost := (P.costs.getD i []).getD j ⊤

def weight (i : Nat) : Rat := P.weights.getD i 0

/-- `min(cost_matrix[i][j] for j in subset)`, infinite where there is no site -/
def minCost (subset : List Nat) (i : Nat) : Cost := (subset.map (P.cost i)).foldr min ⊤

/-- `min(subset, key=lambda j: cost_matrix[i][j])`: the first of the nearest sites -/
def nearest (subset : List Nat) (i : Nat) : Option Nat := subset.argmin (P.cost i)

/-- The demand can reach one of the sites. -/
def Reaches (subset : List Nat) (i : Nat) : Prop := P.minCost subset i ≠ ⊤

instance (subset : List Nat) (i : Nat) : Decidable (P.Reaches subset i) :=
  inferInstanceAs (Decidable (_ ≠ _))

/-- Some candidate reaches the demand. -/
def Coverable (i : Nat) : Prop := P.Reaches (range P.facilities) i

instance (i : Nat) : Decidable (P.Coverable i) := inferInstanceAs (Decidable (P.Reaches _ i))

/-! ## Objectives -/

/-- The cost that stands for a demand that cannot be served. -/
def unreachable : Rat := 1000000000

/-- The weighted cost of one demand. -/
def demandCost (subset : List Nat) (i : Nat) : Rat :=
  match P.minCost subset i with
  | ⊤ => unreachable * P.weight i
  | some c => c * P.weight i

/-- `total_w_cost` -/
def pMedianObjective (subset : List Nat) : Rat :=
  ((range P.demands).map (P.demandCost subset)).sum

/-- The greatest of the costs of the demands that are reached. -/
def maxCost (subset : List Nat) : Rat :=
  ((range P.demands).map fun i => (P.minCost subset i).untopD 0).foldl max 0

def pCenterObjective (subset : List Nat) : Rat ×ₗ Rat :=
  toLex (P.maxCost subset, P.pMedianObjective subset)

/-- The demand is served within the cutoff. -/
def Covers (cutoff : Cost) (subset : List Nat) (i : Nat) : Prop := P.minCost subset i ≤ cutoff

instance (cutoff : Cost) (subset : List Nat) (i : Nat) : Decidable (P.Covers cutoff subset i) :=
  inferInstanceAs (Decidable (_ ≤ _))

/-- The weight that is served within the cutoff. -/
def coverage (cutoff : Cost) (subset : List Nat) : Rat :=
  ((range P.demands).map fun i => if P.Covers cutoff subset i then P.weight i else 0).sum

/-! ## Enumeration -/

def combinations : Nat → List Nat → List (List Nat)
  | 0, _ => [[]]
  | _ + 1, [] => []
  | p + 1, j :: js => (combinations p js).map (j :: ·) ++ combinations (p + 1) js

/-- The sets of sites that can be chosen. -/
def subsets : List (List Nat) := combinations P.pCount (range P.facilities)

/-- One round of a search: the first of the candidates with the best objective is kept. No bound yet
is worse than every objective. -/
def keepBetter {α β : Type} (better : β → β → Bool) (objective : α → β)
    (best : Option β × Option α) (a : α) : Option β × Option α :=
  match best.1 with
  | none => (some (objective a), some a)
  | some b => if better (objective a) b then (some (objective a), some a) else best

/-- The candidate with the best objective, where one is better than the bound. -/
def pickBest {α β : Type} (better : β → β → Bool) (objective : α → β) (bound : Option β)
    (candidates : List α) : Option α :=
  (candidates.foldl (keepBetter better objective) (bound, none)).2

/-- The enumeration of all sets. -/
def enumerate {β : Type} (better : β → β → Bool) (objective : List Nat → β) (bound : Option β) :
    List Nat :=
  (pickBest better objective bound P.subsets).getD (range P.pCount)

/-- The enumeration for p-median. -/
def pMedianExact : List Nat := P.enumerate (· < ·) P.pMedianObjective none

/-- The enumeration for p-center. -/
def pCenterExact : List Nat := P.enumerate (· < ·) P.pCenterObjective none

/-- The enumeration for the greatest coverage. -/
def maxCoverageExact (cutoff : Cost) : List Nat :=
  P.enumerate (· > ·) (P.coverage cutoff) (some (-1))

/-! ## Heuristics -/

/-- The state of a search by swaps. -/
structure Search (β : Type) where
  subset : List Nat
  best : β
  improved : Bool

/-- One trial: a site of the set for another one, where the objective gets better. -/
def trySwap {β : Type} (better : β → β → Bool) (objective : List Nat → β) (s : Search β)
    (swap : Nat × Nat) : Search β :=
  if swap.2 ∈ s.subset then s
  else
    let trial := s.subset.set swap.1 swap.2
    if better (objective trial) s.best then ⟨trial, objective trial, true⟩ else s

/-- The pass over all positions and candidates. -/
def swapPass {β : Type} (better : β → β → Bool) (objective : List Nat → β) (positions : Nat)
    (s : Search β) : Search β :=
  ((range positions).flatMap fun out => (range P.facilities).map fun cand =>
    (out, cand)).foldl (trySwap better objective) { s with improved := false }

/-- Passes until nothing gets better, at most so many. -/
def swapPasses {β : Type} (better : β → β → Bool) (objective : List Nat → β) (positions : Nat) :
    Nat → Search β → List Nat
  | 0, s => s.subset
  | passes + 1, s =>
    let s' := P.swapPass better objective positions s
    if s'.improved then swapPasses better objective positions passes s' else s'.subset

/-- `_solve_p_median_heuristic` -/
def pMedianHeuristic : List Nat :=
  let start := range P.pCount
  P.swapPasses (fun a b => a < b - 1 / 1000000000000) P.pMedianObjective P.pCount 10
    ⟨start, P.pMedianObjective start, true⟩

/-- Adding one site after the other, as long as one can be picked. -/
def addGreedily (pick : List Nat → Option Nat) : Nat → List Nat → List Nat
  | 0, subset => subset
  | p + 1, subset =>
    match pick subset with
    | none => subset
    | some cand => addGreedily pick p (subset ++ [cand])

/-- The candidates that are not among the sites yet. -/
def unselected (subset : List Nat) : List Nat :=
  (range P.facilities).filter fun j => j ∉ subset

/-- `_solve_p_center_heuristic` -/
def pCenterHeuristic : List Nat :=
  let start := addGreedily (fun subset => pickBest (· < ·)
    (fun cand => P.pCenterObjective (subset ++ [cand])) none (P.unselected subset)) P.pCount []
  P.swapPasses (· < ·) P.pCenterObjective start.length 10
    ⟨start, P.pCenterObjective start, true⟩

/-- The weight that a candidate covers and the sites so far do not. -/
def gain (cutoff : Cost) (subset : List Nat) (cand : Nat) : Rat :=
  ((range P.demands).map fun i =>
    if ¬ (∃ j ∈ subset, P.cost i j ≤ cutoff) ∧ P.cost i cand ≤ cutoff then P.weight i else 0).sum

/-- `_solve_max_coverage_heuristic` -/
def maxCoverageHeuristic (cutoff : Cost) : List Nat :=
  addGreedily (fun subset => pickBest (· > ·) (P.gain cutoff subset) (some (-1))
    (P.unselected subset)) P.pCount []

end Problem

open Data

/-! ## Checks -/

/-- `ValueError`, `ResourceScaleMismatch` and `UnsupportedMethod` -/
inductive AllocationError where
  | value (text : String)
  | scale (estimated limit : String)
  | unsupported (text : String)
  deriving DecidableEq

def validateMilpInputs (costs : List (List Cost)) (weights : List Rat) (pCount : Int) :
    Except AllocationError Problem :=
  if costs = [] ∨ weights = [] then .error (.value "代价矩阵与需求权重不能为空")
  else
    let facilities := (costs.headD []).length
    if hrect : ∀ row ∈ costs, row.length = facilities then
      if hrows : costs.length = weights.length then
        if hp : 1 ≤ pCount ∧ pCount ≤ facilities then
          .ok
            { costs := costs
              weights := weights
              facilities := facilities
              pCount := pCount.toNat
              rect := hrect
              rows := hrows
              positive := by omega
              fits := by omega }
        else
          .error (.value ("p_count=" ++ toString pCount ++ " 必须落在 [1, " ++
            toString facilities ++ "]"))
      else .error (.value "代价矩阵行数与需求权重数量不一致")
    else .error (.value "代价矩阵必须为矩形（n_demand × n_candidates）")

def milpMaxProduct : Nat := 25000

def milpMaxCandidates : Nat := 500

def milpScaleGuard (demands facilities : Nat) : Except AllocationError Unit :=
  if facilities > milpMaxCandidates then
    .error (.scale ("candidates=" ++ toString facilities)
      ("candidates<=" ++ toString milpMaxCandidates))
  else if demands * facilities > milpMaxProduct then
    .error (.scale ("n_demand*n_candidates=" ++ toString (demands * facilities))
      ("<=" ++ toString milpMaxProduct))
  else .ok ()

/-! ## Constraints -/

/-- The rows that assign each demand once. The pairs come demand by demand, and a row ends where the
demand changes. -/
def assignmentRows (xCol : Nat) : List (Nat × Rat) → List (Nat × Nat) → List Constraint
  | _, [] => []
  | row, [_] => [⟨row ++ [(xCol, 1)], some 1, some 1⟩]
  | row, (i, _) :: (i', j') :: pairs =>
    if i' ≠ i then
      ⟨row ++ [(xCol, 1)], some 1, some 1⟩ :: assignmentRows (xCol + 1) [] ((i', j') :: pairs)
    else assignmentRows (xCol + 1) (row ++ [(xCol, 1)]) ((i', j') :: pairs)

/-- The rows that let a pair be used only where its site is chosen. -/
def linkingRows (xCol yCol : Nat) (pairs : List (Nat × Nat)) : List Constraint :=
  (pairs.zipIdx xCol).map fun pk => ⟨[(pk.2, 1), (yCol + pk.1.2, -1)], none, some 0⟩

/-- The row that chooses so many sites. -/
def cardinalityRow (yCol facilities pCount : Nat) : Constraint :=
  ⟨(List.range facilities).map fun j => (yCol + j, 1), some pCount, some pCount⟩

namespace Problem

variable (P : Problem)

/-- `np.argwhere(np.isfinite(C))` -/
def pairs : List (Nat × Nat) :=
  (List.range P.demands).flatMap fun i =>
    ((List.range P.facilities).filter fun j => P.cost i j ≠ ⊤).map fun j => (i, j)

/-- The cost of a pair that has one. -/
def pairCost (pair : Nat × Nat) : Rat := (P.cost pair.1 pair.2).untopD 0

/-! ## Programs -/

/-- The program of `solve_p_median_milp` -/
def pMedianModel : Milp where
  objective := List.replicate P.facilities 0 ++
    P.pairs.map fun pair => P.weight pair.1 * P.pairCost pair
  constraints := assignmentRows P.facilities [] P.pairs ++ linkingRows P.facilities 0 P.pairs ++
    [cardinalityRow 0 P.facilities P.pCount]
  bounds := List.replicate (P.facilities + P.pairs.length) 1

def bigM : Rat := ((P.pairs.map P.pairCost).max?).getD 0

/-- The row that keeps the first column above the cost of a pair that is used. -/
def centerRow (pk : (Nat × Nat) × Nat) : Constraint :=
  ⟨[(0, 1), (pk.2, -(P.pairCost pk.1 + P.bigM))], some (-P.bigM), none⟩

/-- The program of `solve_p_center_milp`; its first column is the greatest cost, and whole like the
others. -/
def pCenterModel : Milp where
  objective := 1 :: List.replicate (P.facilities + P.pairs.length) 0
  constraints := assignmentRows (1 + P.facilities) [] P.pairs ++
    linkingRows (1 + P.facilities) 1 P.pairs ++ [cardinalityRow 1 P.facilities P.pCount] ++
    (P.pairs.zipIdx (1 + P.facilities)).map P.centerRow
  bounds := P.bigM :: List.replicate (P.facilities + P.pairs.length) 1

/-- The pair is within the cutoff. -/
def Within (cutoff : Cost) (i j : Nat) : Prop := P.cost i j ≠ ⊤ ∧ P.cost i j ≤ cutoff

instance (cutoff : Cost) (i j : Nat) : Decidable (P.Within cutoff i j) :=
  inferInstanceAs (Decidable (_ ∧ _))

/-- The candidates that cover a demand. -/
def coverSet (cutoff : Cost) (i : Nat) : List Nat :=
  (List.range P.facilities).filter fun j => P.Within cutoff i j

/-- The demands that some candidate covers. -/
def coverableWithin (cutoff : Cost) : List Nat :=
  (List.range P.demands).filter fun i => P.coverSet cutoff i ≠ []

/-- The row that covers a demand only from a chosen site. -/
def coverRow (cutoff : Cost) (i : Nat) : Constraint :=
  ⟨(P.facilities + i, 1) :: (P.coverSet cutoff i).map fun j => (j, -1), none, some 0⟩

/-- The program of `solve_max_coverage_milp` -/
def maxCoverageModel (cutoff : Cost) : Milp where
  objective := List.replicate P.facilities 0 ++ P.weights.map fun w => -w
  constraints := (P.coverableWithin cutoff).map (P.coverRow cutoff) ++
    [cardinalityRow 0 P.facilities P.pCount]
  bounds := List.replicate (P.facilities + P.demands) 1

/-! ## Solutions -/

/-- `np.where(y > 0.5)`, the columns of the sites starting at `yCol` -/
def selected (yCol : Nat) (x : Nat → Rat) : List Nat :=
  (List.range P.facilities).filter fun j => x (yCol + j) > 1 / 2

/-- The demands that no candidate can serve. -/
def unassignedDemandIndices : List Nat := (List.range P.demands).filter fun i => ¬ P.Coverable i

/-- The weighted cost of the demands that can be served. -/
def coverableCost (subset : List Nat) : Rat :=
  (((List.range P.demands).filter fun i => P.Coverable i).map fun i =>
    P.weight i * (P.minCost subset i).untopD 0).sum

end Problem

/-- What the three solvers return. -/
structure MilpOut where
  selected : List Nat
  objectiveValue : Rat
  unassignedDemandIndices : List Nat
  nVariables : Nat
  nConstraints : Nat
  nPairs : Nat

/-- The answer of the solver as the result of the call. -/
def solved (answer : Option (Nat → Rat)) (out : (Nat → Rat) → MilpOut) :
    Except AllocationError MilpOut :=
  match answer with
  | some x => .ok (out x)
  | none => .error (.unsupported "MILP solver did not produce an optimal finite solution")

namespace Problem

variable (P : Problem)

/-- The result of `solve_p_median_milp` -/
def pMedianOut (x : Nat → Rat) : MilpOut where
  selected := P.selected 0 x
  objectiveValue := P.coverableCost (P.selected 0 x)
  unassignedDemandIndices := P.unassignedDemandIndices
  nVariables := P.facilities + P.pairs.length
  nConstraints := P.pMedianModel.constraints.length
  nPairs := P.pairs.length

/-- The result of `solve_p_center_milp` -/
def pCenterOut (x : Nat → Rat) : MilpOut where
  selected := P.selected 1 x
  objectiveValue :=
    ((((List.range P.demands).filter fun i => P.Coverable i).map fun i =>
      (P.minCost (P.selected 1 x) i).untopD 0).max?).getD 0
  unassignedDemandIndices := P.unassignedDemandIndices
  nVariables := 1 + P.facilities + P.pairs.length
  nConstraints := P.pCenterModel.constraints.length
  nPairs := P.pairs.length

/-- The result of `solve_max_coverage_milp` -/
def maxCoverageOut (cutoff : Cost) (x : Nat → Rat) : MilpOut where
  selected := P.selected 0 x
  objectiveValue := P.coverage cutoff (P.selected 0 x)
  unassignedDemandIndices := (List.range P.demands).filter fun i => P.coverSet cutoff i = []
  nVariables := P.facilities + P.demands
  nConstraints := (P.maxCoverageModel cutoff).constraints.length
  nPairs := ((List.range P.demands).map fun i => (P.coverSet cutoff i).length).sum

end Problem

/-- The checks before a program is built, and the answer to it. -/
def solveMilp (milp : Milp → Option (Nat → Rat)) (costs : List (List Cost)) (weights : List Rat)
    (pCount : Int) (model : Problem → Milp) (out : Problem → (Nat → Rat) → MilpOut) :
    Except AllocationError MilpOut := do
  let P ← validateMilpInputs costs weights pCount
  milpScaleGuard P.demands P.facilities
  solved (milp (model P)) (out P)

def solvePMedianMilp (milp : Milp → Option (Nat → Rat)) (costs : List (List Cost))
    (weights : List Rat) (pCount : Int) : Except AllocationError MilpOut :=
  solveMilp milp costs weights pCount Problem.pMedianModel Problem.pMedianOut

def solvePCenterMilp (milp : Milp → Option (Nat → Rat)) (costs : List (List Cost))
    (weights : List Rat) (pCount : Int) : Except AllocationError MilpOut :=
  solveMilp milp costs weights pCount Problem.pCenterModel Problem.pCenterOut

def solveMaxCoverageMilp (milp : Milp → Option (Nat → Rat)) (costs : List (List Cost))
    (weights : List Rat) (pCount : Int) (cutoff : Cost) : Except AllocationError MilpOut :=
  solveMilp milp costs weights pCount (fun P => P.maxCoverageModel cutoff)
    fun P => P.maxCoverageOut cutoff

end WebGis.Network
