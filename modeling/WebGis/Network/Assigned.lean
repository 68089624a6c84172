/-
  The calls of `NetworkLocationAllocationService`, from the candidates and the demand to a result.

  The costs along the network are given with the call. Two builders make the result: one takes the
  demands that are not served from the costs to the chosen sites, the one after the exact solver from
  the demands that no candidate at all can serve.

  Both builders go through the chosen sites, which are different ones, and give each demand to the
  nearest of them. They differ in what they leave out: the demands that the chosen sites do not
  serve, or those that no candidate serves. The two are the same where the chosen sites serve all
  that some candidate serves, which the programs for p-median and p-center make sure of and the one
  for the greatest coverage does not.
-/
import WebGis.Network.Exact
import WebGis.Network.Models

namespace WebGis.Network

open Data List Problem
open Option hiding min_le_right

/-! ## Inputs -/

structure Facility where
  facilityId : String
  name : String
  deriving Inhabited

structure DemandPoint where
  demandId : String
  weight : Rat

structure OdPair where
  travelTimeS : Rat
  reachable : Bool

/-- What a call is given. -/
structure Request where
  facilities : List Facility
  demands : List DemandPoint
  pCount : Int
  problemType : String
  cutoffCost : Option Cost
  od : List OdPair

/-- `problem_type.lower()` -/
inductive ProblemType where
  | pMedian
  | pCenter
  | maxCoverage
  | other
  deriving DecidableEq

def problemNorm (problemType : String) : ProblemType :=
  if problemType.toLower = "p_median" then .pMedian
  else if problemType.toLower = "p_center" then .pCenter
  else if problemType.toLower = "max_coverage" then .maxCoverage
  else .other

/-! ## Costs -/

def maxOdMatrixPairs : Nat := 10000

def odMatrixScaleGuard (demands facilities limit : Nat) : Except AllocationError Unit :=
  if demands * facilities > limit then
    .error (.scale ("n_demand*n_facility=" ++ toString (demands * facilities))
      ("<=" ++ toString limit))
  else .ok ()

/-- One entry of the cost matrix. -/
def odCost (od : List OdPair) (idx : Nat) : Cost :=
  match od[idx]? with
  | some pair => if pair.reachable then some pair.travelTimeS else ⊤
  | none => ⊤

/-- The demand ids of a call. -/
def Request.ids (q : Request) : List String := q.demands.map DemandPoint.demandId

/-- An entry of `_od_cost_matrix` -/
def Request.cost (q : Request) (i j : Nat) : Cost := odCost q.od (i * q.facilities.length + j)

/-- The cost matrix of a call, with the weights and the number of sites; there is none without
candidates, demand or sites to choose. -/
def Request.problem (q : Request) : Option Problem :=
  if h : q.facilities = [] ∨ q.demands = [] ∨ q.pCount ≤ 0 then none
  else some
    { costs := (List.range q.demands.length).map fun i =>
        (List.range q.facilities.length).map fun j => q.cost i j
      weights := q.demands.map DemandPoint.weight
      facilities := q.facilities.length
      pCount := min q.pCount.toNat q.facilities.length
      rect := by simp
      rows := by simp
      positive := by
        have hpos := length_pos_iff.mpr (not_or.mp h).1
        omega
      fits := min_le_right _ _ }

/-! ## Results -/

/-- One of `allocated_facilities`. The site is the place of the facility among the candidates. -/
structure Allocated where
  site : Nat
  facilityId : String
  name : String
  assignedDemandCount : Nat
  assignedTotalWeight : Rat
  assignedDemandIds : List String

/-- `NetworkAnalysisResult` -/
structure Allocation where
  problemType : String
  pCount : Nat
  selectedFacilitiesCount : Nat
  totalDemandCount : Nat
  candidateFacilityCount : Nat
  solver : String
  unassignedCount : Nat
  unassignedIds : List String
  allocated : List Allocated

/-- The demands at the places of a list. -/
def idsAt (q : Request) (is : List Nat) : List String :=
  is.map fun i => (q.ids[i]?).getD ""

/-- The entry of one site; some demands are not assigned at all. -/
def allocatedAt (q : Request) (P : Problem) (skips : Nat → Bool) (subset : List Nat) (site : Nat) :
    Allocated :=
  let served := (List.range P.demands).filter fun i =>
    !skips i && P.nearest subset i = some site
  { site := site
    facilityId := (q.facilities.getD site default).facilityId
    name := (q.facilities.getD site default).name
    assignedDemandCount := served.length
    assignedTotalWeight := (served.map P.weight).sum
    assignedDemandIds := idsAt q served }

/-- The result for a set of sites. -/
def allocationOf (q : Request) (P : Problem) (solver : String) (skips : Nat → Bool)
    (subset : List Nat) : Allocation where
  problemType := q.problemType
  pCount := P.pCount
  selectedFacilitiesCount := subset.length
  totalDemandCount := P.demands
  candidateFacilityCount := P.facilities
  solver := solver
  unassignedCount := ((List.range P.demands).filter skips).length
  unassignedIds := idsAt q ((List.range P.demands).filter skips)
  allocated := subset.map (allocatedAt q P skips subset)

/-! ## Enumeration and heuristics -/

def maxExactCombinations : Nat := 20000

/-- `_exact_combination_count`: not computed further once it is far too large -/
def exactCombinationCount (m p : Nat) : Nat :=
  if p > m then 0
  else
    let p := min p (m - p)
    (List.range p).foldl (fun count i =>
      if count > maxExactCombinations * 2 then count else count * (m - p + (i + 1)) / (i + 1)) 1

/-- The sites that the enumeration or the heuristic chooses. -/
def chooseSites (P : Problem) (norm : ProblemType) (cutoff : Cost) (useExact : Bool) : List Nat :=
  match norm with
  | .maxCoverage => if useExact then P.maxCoverageExact cutoff else P.maxCoverageHeuristic cutoff
  | .pCenter => if useExact then P.pCenterExact else P.pCenterHeuristic
  | _ => if useExact then P.pMedianExact else P.pMedianHeuristic

/-- The cutoff of the greatest coverage, 15 minutes where none is given. -/
def coverCutoff (q : Request) : Cost := q.cutoffCost.getD (900 : Rat)

/-- The demand is not served from these sites. -/
def unserved (P : Problem) (norm : ProblemType) (cutoff : Cost) (subset : List Nat) (i : Nat) :
    Bool :=
  decide (P.minCost subset i = ⊤) ||
    (decide (norm = .maxCoverage) && decide (cutoff < P.minCost subset i))

/-- `location_allocation` without the exact solver -/
def locationAllocationAuto (q : Request) (useAuto : Bool) :
    Except AllocationError (Option Allocation) :=
  match q.problem with
  | none => .ok none
  | some P => do
      odMatrixScaleGuard P.demands P.facilities maxOdMatrixPairs
      if q.ids.Nodup then
        let useExact := useAuto &&
          decide (exactCombinationCount P.facilities P.pCount ≤ maxExactCombinations)
        let subset := chooseSites P (problemNorm q.problemType) (coverCutoff q) useExact
        .ok (some (allocationOf q P (if useExact then "exact" else "heuristic")
          (unserved P (problemNorm q.problemType) (coverCutoff q) subset) subset))
      else .error (.value "demand IDs must be unique")

/-! ## The exact solver -/

def exactMilpResult (q : Request) (P : Problem) (out : MilpOut) : Allocation :=
  allocationOf q P "milp_highs" (fun i => decide (i ∈ out.unassignedDemandIndices)) out.selected

/-- `p_median_exact`, `p_center_exact` and `max_coverage_exact` -/
def exactCall (q : Request)
    (solve : List (List Cost) → List Rat → Int → Except AllocationError MilpOut) :
    Except AllocationError (Option Allocation) :=
  match q.problem with
  | none => .ok none
  | some P => do
      odMatrixScaleGuard P.demands P.facilities milpMaxProduct
      if q.ids.Nodup then
        let out ← solve P.costs P.weights P.pCount
        .ok (some (exactMilpResult q P out))
      else .error (.value "demand IDs must be unique")

def locationAllocation (milp : Milp → Option (Nat → Rat)) (q : Request) (solver : String) :
    Except AllocationError (Option Allocation) :=
  if solver = "exact_milp" then
    match problemNorm q.problemType with
    | .pMedian => exactCall q (solvePMedianMilp milp)
    | .pCenter => exactCall q (solvePCenterMilp milp)
    | .maxCoverage =>
      exactCall q fun costs weights p => solveMaxCoverageMilp milp costs weights p (coverCutoff q)
    | .other => .error (.unsupported "choose p_median, max_coverage or p_center for exact_milp")
  else if solver = "auto" ∨ solver = "heuristic" then
    locationAllocationAuto q (solver = "auto")
  else .error (.unsupported "choose solver='auto' (default), 'heuristic', or 'exact_milp'")

/-! ## Chosen sites -/

namespace Problem

variable {P : Problem} {α β : Type} {better : β → β → Bool} {objective : List Nat → β}

/-- Different candidates. -/
def Sites (P : Problem) (subset : List Nat) : Prop :=
  subset.Nodup ∧ ∀ j ∈ subset, j < P.facilities

theorem sites_of_mem_subsets {subset : List Nat} (h : subset ∈ P.subsets) : P.Sites subset :=
  ⟨nodup_range.sublist (mem_subsets_sublist h), fun _ => lt_of_mem_subsets h⟩

theorem pickBest_mem {f : α → β} {bound : Option β} {as : List α} {a : α}
    (h : pickBest better f bound as = some a) : a ∈ as := by
  have hkept : ∀ (as : List α) (best : Option β × Option α),
      (as.foldl (keepBetter better f) best).2 = best.2 ∨
        ∃ a ∈ as, (as.foldl (keepBetter better f) best).2 = some a := by
    intro as
    induction as with
    | nil => exact fun best => .inl rfl
    | cons c as ih =>
      intro best
      have hround : keepBetter better f best c = best ∨
          (keepBetter better f best c).2 = some c := by
        unfold keepBetter
        split
        · exact .inr rfl
        · split
          · exact .inr rfl
          · exact .inl rfl
      rw [foldl_cons]
      rcases ih (keepBetter better f best c) with hrest | ⟨a, ha, hrest⟩
      · rcases hround with hsame | hnew
        · rw [hrest, hsame]
          exact .inl rfl
        · exact .inr ⟨c, mem_cons_self, hrest.trans hnew⟩
      · exact .inr ⟨a, mem_cons_of_mem _ ha, hrest⟩
  rcases hkept as (bound, none) with hnone | ⟨b, hb, hsome⟩
  · have heq : some a = none := h.symm.trans hnone
    cases heq
  · have heq : some a = some b := h.symm.trans hsome
    rw [some.inj heq]
    exact hb

theorem enumerate_sites (bound : Option β) : P.Sites (P.enumerate better objective bound) := by
  unfold enumerate
  cases h : pickBest better objective bound P.subsets with
  | none => exact sites_of_mem_subsets range_mem_subsets
  | some s => exact sites_of_mem_subsets (pickBest_mem h)

theorem trySwap_sites {s : Search β} {swap : Nat × Nat} (h : P.Sites s.subset)
    (hswap : swap.2 < P.facilities) : P.Sites (trySwap better objective s swap).subset := by
  unfold trySwap
  split
  · exact h
  rename_i hnew
  dsimp only
  split
  · refine ⟨h.1.set hnew, fun j hj => ?_⟩
    rcases mem_or_eq_of_mem_set hj with hj | rfl
    · exact h.2 j hj
    · exact hswap
  · exact h

theorem swapPass_sites {positions : Nat} {s : Search β} (h : P.Sites s.subset) :
    P.Sites (P.swapPass better objective positions s).subset := by
  refine List.foldlRecOn (motive := fun s : Search β => P.Sites s.subset) _ _ h ?_
  intro s hs swap hswap
  refine trySwap_sites hs ?_
  obtain ⟨out, -, hmem⟩ := mem_flatMap.mp hswap
  obtain ⟨cand, hcand, rfl⟩ := List.mem_map.mp hmem
  exact mem_range.mp hcand

theorem swapPasses_sites {positions passes : Nat} {s : Search β} (h : P.Sites s.subset) :
    P.Sites (P.swapPasses better objective positions passes s) := by
  induction passes generalizing s with
  | zero => exact h
  | succ passes ih =>
    unfold swapPasses
    dsimp only
    split
    · exact ih (swapPass_sites h)
    · exact swapPass_sites h

theorem addGreedily_sites {pick : List Nat → Option Nat}
    (hpick : ∀ s j, pick s = some j → j ∈ P.unselected s) {p : Nat} {subset : List Nat}
    (h : P.Sites subset) : P.Sites (addGreedily pick p subset) := by
  induction p generalizing subset with
  | zero => exact h
  | succ p ih =>
    rw [addGreedily]
    cases hj : pick subset with
    | none => exact h
    | some cand =>
      obtain ⟨hrange, hnew⟩ := mem_filter.mp (hpick subset cand hj)
      refine ih ⟨?_, fun j hj => ?_⟩
      · exact h.1.append (nodup_singleton cand)
          (disjoint_singleton.mpr (of_decide_eq_true hnew))
      · rcases mem_append.mp hj with hj | hj
        · exact h.2 j hj
        · rw [mem_singleton.mp hj]
          exact mem_range.mp hrange

theorem chooseSites_sites (norm : ProblemType) (cutoff : Cost) (useExact : Bool) :
    P.Sites (chooseSites P norm cutoff useExact) := by
  have hrange : P.Sites (List.range P.pCount) := sites_of_mem_subsets range_mem_subsets
  have hnone : P.Sites [] := ⟨nodup_nil, nofun⟩
  have hmedian : P.Sites P.pMedianHeuristic := swapPasses_sites hrange
  have hcenter : P.Sites P.pCenterHeuristic :=
    swapPasses_sites (addGreedily_sites (fun _ _ h => pickBest_mem h) hnone)
  have hcover : P.Sites (P.maxCoverageHeuristic cutoff) :=
    addGreedily_sites (fun _ _ h => pickBest_mem h) hnone
  cases norm <;> cases useExact
  · exact hmedian
  · exact enumerate_sites _
  · exact hcenter
  · exact enumerate_sites _
  · exact hcover
  · exact enumerate_sites _
  · exact hmedian
  · exact enumerate_sites _

end Problem

/-! ## Results that settle every demand -/

/-- The cutoff of a call, where its problem has one. -/
def Request.bound (q : Request) : Option Cost :=
  if problemNorm q.problemType = .maxCoverage then some (coverCutoff q) else none

/-- Every demand is in one list, once; an assigned one at a nearest chosen site, which it can reach
and that is within the cutoff. -/
structure Settled (q : Request) (r : Allocation) : Prop where
  once : (r.allocated.flatMap Allocated.assignedDemandIds ++ r.unassignedIds).Perm q.ids
  nearest : ∀ a ∈ r.allocated, ∀ id ∈ a.assignedDemandIds, ∃ i, q.ids[i]? = some id ∧
    (∀ b ∈ r.allocated, q.cost i a.site ≤ q.cost i b.site) ∧ q.cost i a.site ≠ ⊤ ∧
      ∀ c, q.bound = some c → q.cost i a.site ≤ c

section Builder

variable {q : Request} {P : Problem} {skips : Nat → Bool} {subset : List Nat}

theorem problem_spec (h : q.problem = some P) :
    P.demands = q.demands.length ∧ P.facilities = q.facilities.length ∧
    (∀ i < P.demands, ∀ j < P.facilities, P.cost i j = q.cost i j) ∧ P.costs ≠ [] ∧
    P.weights ≠ [] := by
  unfold Request.problem at h
  split at h
  · cases h
  rename_i hne
  have hdemands : q.demands ≠ [] := fun hnil => hne (.inr (.inl hnil))
  rw [← some.inj h]
  refine ⟨length_map _, rfl, fun i hi j hj => ?_, ?_, ?_⟩
  · have hi : i < q.demands.length := by simpa [demands] using hi
    have hj : j < q.facilities.length := hj
    simp [cost, hi, hj]
  · simpa using hdemands
  · simpa using hdemands

theorem ids_getElem? {i : Nat} (h : i < q.demands.length) :
    ∃ id, q.ids[i]? = some id ∧ idsAt q [i] = [id] := by
  have hlt : i < q.ids.length := by simpa [Request.ids] using h
  refine ⟨q.ids[i], getElem?_eq_getElem hlt, ?_⟩
  simp [idsAt, getElem?_eq_getElem hlt]

theorem idsAt_range : idsAt q (List.range q.demands.length) = q.ids := by
  unfold idsAt
  have hlen : q.demands.length = q.ids.length := by simp [Request.ids]
  rw [hlen]
  refine ext_getElem (by simp) fun n h₁ h₂ => ?_
  simp [h₂]

theorem mem_idsAt {is : List Nat} {id : String} (hlt : ∀ i ∈ is, i < q.demands.length) :
    id ∈ idsAt q is ↔ ∃ i ∈ is, q.ids[i]? = some id := by
  unfold idsAt
  rw [List.mem_map]
  refine exists_congr fun i => and_congr_right fun hi => ?_
  obtain ⟨id', hid, -⟩ := ids_getElem? (hlt i hi)
  rw [hid, getD_some, some.injEq]

/-- The demands that one site is given. -/
def servedBy (P : Problem) (skips : Nat → Bool) (subset : List Nat) (site : Nat) : List Nat :=
  (List.range P.demands).filter fun i => !skips i && P.nearest subset i = some site

theorem mem_servedBy {i site : Nat} : i ∈ servedBy P skips subset site ↔
    i < P.demands ∧ skips i = false ∧ P.nearest subset i = some site := by
  simp [servedBy]

theorem served_perm (hnodup : subset.Nodup)
    (hsome : ∀ i < P.demands, skips i = false → subset ≠ []) :
    (subset.flatMap (servedBy P skips subset) ++ (List.range P.demands).filter skips).Perm
      (List.range P.demands) := by
  have hflat : (subset.flatMap (servedBy P skips subset)).Nodup := by
    rw [nodup_flatMap]
    refine ⟨fun site _ => nodup_range.filter _, hnodup.imp fun hne i hi hi' => ?_⟩
    exact hne (some.inj ((mem_servedBy.mp hi).2.2.symm.trans (mem_servedBy.mp hi').2.2))
  have hdisjoint : (subset.flatMap (servedBy P skips subset)).Disjoint
      ((List.range P.demands).filter skips) := by
    intro i hi hi'
    obtain ⟨site, -, hi⟩ := mem_flatMap.mp hi
    have hskip := (mem_filter.mp hi').2
    rw [(mem_servedBy.mp hi).2.1] at hskip
    cases hskip
  refine (perm_ext_iff_of_nodup (hflat.append (nodup_range.filter _) hdisjoint)
    nodup_range).mpr fun i => ?_
  rw [mem_append, mem_flatMap, mem_filter, mem_range]
  constructor
  · rintro (⟨site, -, hi⟩ | ⟨hi, -⟩)
    · exact (mem_servedBy.mp hi).1
    · exact hi
  · intro hi
    cases hskip : skips i with
    | true => exact .inr ⟨hi, rfl⟩
    | false =>
      obtain ⟨site, hsite⟩ := exists_nearest (P := P) (i := i) (hsome i hi hskip)
      exact .inl ⟨site, (nearest_eq_some hsite).1, mem_servedBy.mpr ⟨hi, hskip, hsite⟩⟩

theorem idsAt_flatMap {sites : List Nat} (f : Nat → List Nat) :
    sites.flatMap (fun site => idsAt q (f site)) = idsAt q (sites.flatMap f) := by
  unfold idsAt
  rw [map_flatMap]

/-- A result settles every demand just where what it does not skip can be served. -/
theorem settled_iff (hP : q.problem = some P) (hids : q.ids.Nodup) (hsites : P.Sites subset)
    (hsome : ∀ i < P.demands, skips i = false → subset ≠ []) (solver : String) :
    Settled q (allocationOf q P solver skips subset) ↔
      ∀ i < P.demands, skips i = false → P.minCost subset i ≠ ⊤ ∧
        ∀ c, q.bound = some c → P.minCost subset i ≤ c := by
  obtain ⟨hdemands, -, hcost, -, -⟩ := problem_spec hP
  constructor
  · intro h i hi hskip
    obtain ⟨site, hsite⟩ := exists_nearest (P := P) (i := i) (hsome i hi hskip)
    obtain ⟨hmem, hleast⟩ := nearest_eq_some hsite
    obtain ⟨id, hid, -⟩ := ids_getElem? (q := q) (hdemands ▸ hi)
    have hthere : id ∈ (allocatedAt q P skips subset site).assignedDemandIds :=
      (mem_idsAt fun k hk => hdemands ▸ (mem_servedBy.mp hk).1).mpr
        ⟨i, mem_servedBy.mpr ⟨hi, hskip, hsite⟩, hid⟩
    obtain ⟨k, hk, -, hreach, hwithin⟩ :=
      h.nearest _ (List.mem_map_of_mem hmem) id hthere
    have hlt : k < q.ids.length := (List.getElem?_eq_some_iff.mp hk).1
    have hki : k = i := (getElem?_inj hlt hids).mp (hk.trans hid.symm)
    rw [hki] at hreach hwithin
    rw [← hleast, hcost i hi site (hsites.2 site hmem)]
    exact ⟨hreach, hwithin⟩
  · intro h
    refine ⟨?_, fun a ha id hid => ?_⟩
    · have hperm := (served_perm (P := P) hsites.1 hsome).map fun i => (q.ids[i]?).getD ""
      rw [map_append] at hperm
      have hall : (allocationOf q P solver skips subset).allocated.flatMap
          Allocated.assignedDemandIds = idsAt q (subset.flatMap (servedBy P skips subset)) := by
        rw [← idsAt_flatMap]
        unfold allocationOf
        rw [flatMap_map]
        rfl
      rw [hall, ← idsAt_range, ← hdemands]
      exact hperm
    · obtain ⟨site, hmem, rfl⟩ := List.mem_map.mp ha
      obtain ⟨i, hi, hget⟩ := (mem_idsAt fun k hk => hdemands ▸ (mem_servedBy.mp hk).1).mp hid
      obtain ⟨hlt, hskip, hsite⟩ := mem_servedBy.mp hi
      have hleast := (nearest_eq_some hsite).2
      obtain ⟨hreach, hwithin⟩ := h i hlt hskip
      rw [← hleast, hcost i hlt site (hsites.2 site hmem)] at hreach hwithin
      refine ⟨i, hget, fun b hb => ?_, hreach, hwithin⟩
      obtain ⟨site', hmem', rfl⟩ := List.mem_map.mp hb
      have hle := minCost_le (P := P) (i := i) hmem'
      rwa [← hleast, hcost i hlt site (hsites.2 site hmem),
        hcost i hlt site' (hsites.2 site' hmem')] at hle

end Builder

/-! ## The solver's answers -/

namespace Problem

variable {P : Problem} {cutoff : Cost} {subset : List Nat}

/-- The sites serve, within the cutoff, all that some candidate serves within it. -/
def CoversAll (P : Problem) (cutoff : Cost) (subset : List Nat) : Prop :=
  ∀ i < P.demands, P.coverSet cutoff i ≠ [] → P.Serves cutoff subset i

instance : Decidable (P.CoversAll cutoff subset) :=
  inferInstanceAs (Decidable (∀ i < P.demands, _ → _))

theorem filter_mem_self {l l' : List Nat} (h : l.Sublist l') (hn : l'.Nodup) :
    l'.filter (· ∈ l) = l := by
  have hperm : (l'.filter (· ∈ l)).Perm l :=
    (perm_ext_iff_of_nodup (hn.filter _) (hn.sublist h)).mpr fun j => by
      rw [mem_filter, decide_eq_true_eq]
      exact ⟨fun hj => hj.2, fun hj => ⟨h.subset hj, hj⟩⟩
  have hsub : l.Sublist (l'.filter (· ∈ l)) := by
    have hfilter := h.filter fun j => decide (j ∈ l)
    rwa [filter_eq_self.mpr fun j hj => decide_eq_true hj] at hfilter
  exact (hsub.eq_of_length hperm.length_eq.symm).symm

theorem selected_coverChoice (hs : subset ∈ P.subsets) :
    P.selected 0 (P.coverChoice cutoff subset) = subset := by
  have hsub := mem_subsets_sublist hs
  rw [← filter_mem_self hsub nodup_range]
  refine filter_congr fun j hj => ?_
  rw [filter_mem_self hsub nodup_range, Nat.zero_add, coverChoice_site (mem_range.mp hj)]
  by_cases h : j ∈ subset
  · rw [if_pos h]
    norm_num [h]
  · rw [if_neg h]
    norm_num [h]

theorem exists_optimum_of_least (hs : subset ∈ P.subsets)
    (hleast : ∀ s ∈ P.subsets, P.coverCost cutoff subset ≤ P.coverCost cutoff s) :
    ∃ x, (P.maxCoverageModel cutoff).IsOptimum x ∧ P.selected 0 x = subset := by
  have hchoice : (P.maxCoverageModel cutoff).Feasible (P.coverChoice cutoff subset) ∧ _ :=
    coverChoice_feasible hs
  obtain ⟨hfeasible, hvalue⟩ := hchoice
  refine ⟨P.coverChoice cutoff subset, ⟨hfeasible, fun y hy => ?_⟩, selected_coverChoice hs⟩
  obtain ⟨hmem, hcost⟩ := encodes_maxCoverage.decoded y hy
  rw [hvalue]
  exact (hleast _ (List.mem_toFinset.mp hmem)).trans hcost

theorem covered_iff :
    (∀ x, (P.maxCoverageModel cutoff).IsOptimum x → P.CoversAll cutoff (P.selected 0 x)) ↔
      ∀ s ∈ P.subsets, (∀ s' ∈ P.subsets, P.coverCost cutoff s ≤ P.coverCost cutoff s') →
        P.CoversAll cutoff s := by
  constructor
  · intro h s hs hleast
    obtain ⟨x, hx, rfl⟩ := exists_optimum_of_least hs hleast
    exact h x hx
  · intro h x hx
    obtain ⟨hmem, hleast⟩ := encodes_maxCoverage.least hx
    exact h _ (List.mem_toFinset.mp hmem) fun s hs => hleast s (List.mem_toFinset.mpr hs)

theorem serves_iff {i : Nat} :
    P.Serves cutoff subset i ↔ P.minCost subset i ≠ ⊤ ∧ P.minCost subset i ≤ cutoff := by
  constructor
  · rintro ⟨j, hj, hfinite, hle⟩
    exact ⟨reaches_iff.mpr ⟨j, hj, hfinite⟩, (minCost_le hj).trans hle⟩
  · rintro ⟨hreach, hle⟩
    obtain ⟨k, hk, -⟩ := reaches_iff.mp hreach
    obtain ⟨j, hj, hcost⟩ := exists_minCost (P := P) (i := i) (ne_nil_of_mem hk)
    exact ⟨j, hj, hcost ▸ hreach, hcost ▸ hle⟩

theorem validate_problem (hcosts : P.costs ≠ []) (hweights : P.weights ≠ []) :
    validateMilpInputs P.costs P.weights P.pCount = .ok P := by
  obtain ⟨costs, weights, facilities, pCount, rect, rows, positive, fits⟩ := P
  have hhead : (costs.headD []).length = facilities := by
    cases costs with
    | nil => exact absurd rfl hcosts
    | cons row costs => exact rect row mem_cons_self
  have hp : 1 ≤ (pCount : Int) ∧ (pCount : Int) ≤ facilities := by
    omega
  unfold validateMilpInputs
  rw [if_neg (not_or.mpr ⟨hcosts, hweights⟩)]
  subst hhead
  rw [dif_pos rect, dif_pos rows, dif_pos hp]
  rfl

theorem solveMilp_ok {milp : Milp → Option (Nat → Rat)} {model : Problem → Milp}
    {out : Problem → (Nat → Rat) → MilpOut} {o : MilpOut} (hcosts : P.costs ≠ [])
    (hweights : P.weights ≠ []) (h : solveMilp milp P.costs P.weights P.pCount model out = .ok o) :
    ∃ x, milp (model P) = some x ∧ o = out P x := by
  unfold solveMilp at h
  rw [validate_problem hcosts hweights] at h
  cases hguard : milpScaleGuard P.demands P.facilities with
  | error e =>
    simp [bind, Except.bind, hguard] at h
  | ok u =>
    have hsolved : solved (milp (model P)) (out P) = .ok o := by
      simpa [bind, Except.bind, hguard] using h
    cases hx : milp (model P) with
    | none =>
      rw [hx] at hsolved
      cases hsolved
    | some x =>
      rw [hx] at hsolved
      exact ⟨x, rfl, (Except.ok.inj hsolved).symm⟩

end Problem

/-! ## Calls -/

section Calls

variable {q : Request} {P : Problem} {r : Allocation} {milp : Milp → Option (Nat → Rat)}

theorem auto_settled {useAuto : Bool} (h : locationAllocationAuto q useAuto = .ok (some r)) :
    Settled q r := by
  unfold locationAllocationAuto at h
  cases hP : q.problem with
  | none =>
    rw [hP] at h
    cases h
  | some P =>
    rw [hP] at h
    dsimp only at h
    cases hguard : odMatrixScaleGuard P.demands P.facilities maxOdMatrixPairs with
    | error e =>
      rw [hguard] at h
      cases h
    | ok u =>
      rw [hguard] at h
      split at h
      · rename_i hids
        rw [← some.inj (Except.ok.inj h)]
        have hsites := chooseSites_sites (P := P) (problemNorm q.problemType)
          (coverCutoff q) (useAuto && decide (exactCombinationCount P.facilities P.pCount ≤
            maxExactCombinations))
        refine (settled_iff hP hids hsites (fun i _ hserved hnil => ?_) _).mpr
          fun i _ hserved => ?_
        · unfold unserved at hserved
          rw [hnil] at hserved
          simp [minCost] at hserved
        · unfold unserved at hserved
          simp only [Bool.or_eq_false_iff, Bool.and_eq_false_iff, decide_eq_false_iff_not]
            at hserved
          refine ⟨hserved.1, fun c hc => ?_⟩
          unfold Request.bound at hc
          split at hc
          · rename_i hnorm
            rw [← some.inj hc]
            rcases hserved.2 with hother | hle
            · exact absurd hnorm hother
            · exact not_lt.mp hle
          · cases hc
      · cases h

theorem exactCall_ok {solve : List (List Cost) → List Rat → Int → Except AllocationError MilpOut}
    (h : exactCall q solve = .ok (some r)) :
    ∃ P out, q.problem = some P ∧ q.ids.Nodup ∧ solve P.costs P.weights P.pCount = .ok out ∧
      r = exactMilpResult q P out := by
  unfold exactCall at h
  cases hP : q.problem with
  | none =>
    rw [hP] at h
    cases h
  | some P =>
    rw [hP] at h
    dsimp only at h
    cases hguard : odMatrixScaleGuard P.demands P.facilities milpMaxProduct with
    | error e =>
      rw [hguard] at h
      cases h
    | ok u =>
      rw [hguard] at h
      split at h
      · rename_i hids
        cases hout : solve P.costs P.weights P.pCount with
        | error e =>
          rw [hout] at h
          cases h
        | ok out =>
          rw [hout] at h
          exact ⟨P, out, rfl, hids, hout, (some.inj (Except.ok.inj h)).symm⟩
      · cases h

theorem selected_ne_nil {yCol : Nat} {x : Nat → Rat} (h : P.selected yCol x ∈ P.subsets) :
    P.selected yCol x ≠ [] := by
  intro hnil
  have hlen := (mem_subsets.mp h).2
  rw [hnil] at hlen
  have hpos := P.positive
  rw [← hlen] at hpos
  exact absurd hpos (by decide)

theorem reaching_settled (hP : q.problem = some P) (hids : q.ids.Nodup)
    (hnorm : problemNorm q.problemType ≠ .maxCoverage) (out : MilpOut)
    (hmem : out.selected ∈ P.subsets) (hall : P.ReachesAll out.selected)
    (hun : out.unassignedDemandIndices = P.unassignedDemandIndices) :
    Settled q (exactMilpResult q P out) := by
  have hcoverable : ∀ i < P.demands, decide (i ∈ out.unassignedDemandIndices) = false →
      P.Coverable i := by
    intro i hi hskip
    by_contra hc
    rw [decide_eq_false_iff_not, hun] at hskip
    exact hskip (mem_filter.mpr ⟨mem_range.mpr hi, decide_eq_true hc⟩)
  refine (settled_iff hP hids (sites_of_mem_subsets hmem) (fun i hi hskip hnil => ?_)
    _).mpr fun i hi hskip => ⟨hall i hi (hcoverable i hi hskip), fun c hc => ?_⟩
  · have hreach := hall i hi (hcoverable i hi hskip)
    rw [hnil] at hreach
    exact hreach rfl
  · unfold Request.bound at hc
    rw [if_neg hnorm] at hc
    cases hc

theorem coverage_settled_iff (hP : q.problem = some P) (hids : q.ids.Nodup)
    (hnorm : problemNorm q.problemType = .maxCoverage) {x : Nat → Rat}
    (hmem : P.selected 0 x ∈ P.subsets) :
    Settled q (exactMilpResult q P (P.maxCoverageOut (coverCutoff q) x)) ↔
      P.CoversAll (coverCutoff q) (P.selected 0 x) := by
  have hskip : ∀ i < P.demands, (decide (i ∈
      (P.maxCoverageOut (coverCutoff q) x).unassignedDemandIndices) = false ↔
        P.coverSet (coverCutoff q) i ≠ []) := by
    intro i hi
    simp [maxCoverageOut, hi]
  refine (settled_iff hP hids (sites_of_mem_subsets hmem)
    (fun _ _ _ => selected_ne_nil hmem) _).trans ?_
  unfold Problem.CoversAll Request.bound
  rw [if_pos hnorm]
  refine forall_congr' fun i => forall_congr' fun hi => ?_
  rw [hskip i hi, serves_iff]
  simp

/-- A call that returns a result settles every demand, unless the exact solver for the greatest
coverage has chosen sites that leave out a demand which another candidate serves. The answers of an
exact solver never do just where no set of sites that covers most does. -/
theorem assignments_settled (hmilp : ∀ Q, Answers Q (milp Q)) {solver : String}
    (h : locationAllocation milp q solver = .ok (some r)) :
    (Settled q r ↔ (solver = "exact_milp" → problemNorm q.problemType = .maxCoverage →
      ∀ P, q.problem = some P → ∀ x, milp (P.maxCoverageModel (coverCutoff q)) = some x →
        P.CoversAll (coverCutoff q) (P.selected 0 x))) ∧
    ∀ P, q.problem = some P →
      ((∀ x, (P.maxCoverageModel (coverCutoff q)).IsOptimum x →
        P.CoversAll (coverCutoff q) (P.selected 0 x)) ↔
      ∀ s ∈ P.subsets, (∀ s' ∈ P.subsets, P.coverCost (coverCutoff q) s ≤
        P.coverCost (coverCutoff q) s') → P.CoversAll (coverCutoff q) s) := by
  refine ⟨?_, fun P _ => covered_iff⟩
  unfold locationAllocation at h
  split at h
  · rename_i hexact
    cases hnorm : problemNorm q.problemType with
    | pMedian =>
      rw [hnorm] at h
      obtain ⟨P, out, hP, hids, hout, rfl⟩ := exactCall_ok h
      obtain ⟨-, -, -, hcosts, hweights⟩ := problem_spec hP
      obtain ⟨x, hx, rfl⟩ := solveMilp_ok hcosts hweights hout
      have hassigns := feasible_pMedian.mp ((hmilp _).optimum x hx).1
      have hother : problemNorm q.problemType ≠ .maxCoverage := by
        rw [hnorm]
        decide
      have hsettled := reaching_settled hP hids hother (P.pMedianOut x) hassigns.selected_mem
        hassigns.reachesAll rfl
      exact ⟨fun _ _ hcover => absurd hcover (by decide), fun _ => hsettled⟩
    | pCenter =>
      rw [hnorm] at h
      obtain ⟨P, out, hP, hids, hout, rfl⟩ := exactCall_ok h
      obtain ⟨-, -, -, hcosts, hweights⟩ := problem_spec hP
      obtain ⟨x, hx, rfl⟩ := solveMilp_ok hcosts hweights hout
      have hassigns := assigns_of_pCenter ((hmilp _).optimum x hx).1
      have hother : problemNorm q.problemType ≠ .maxCoverage := by
        rw [hnorm]
        decide
      have hsettled := reaching_settled hP hids hother (P.pCenterOut x) hassigns.selected_mem
        hassigns.reachesAll rfl
      exact ⟨fun _ _ hcover => absurd hcover (by decide), fun _ => hsettled⟩
    | maxCoverage =>
      rw [hnorm] at h
      obtain ⟨P, out, hP, hids, hout, rfl⟩ := exactCall_ok h
      obtain ⟨-, -, -, hcosts, hweights⟩ := problem_spec hP
      obtain ⟨x, hx, rfl⟩ := solveMilp_ok hcosts hweights hout
      obtain ⟨hmem, -⟩ := encodes_maxCoverage.decoded x ((hmilp _).optimum x hx).1
      refine (coverage_settled_iff hP hids hnorm (List.mem_toFinset.mp hmem)).trans ?_
      constructor
      · intro hcovers _ _ P' hP' x' hx'
        rw [hP] at hP'
        cases hP'
        rw [hx] at hx'
        cases hx'
        exact hcovers
      · exact fun hcovers => hcovers hexact rfl P hP x hx
    | other =>
      rw [hnorm] at h
      cases h
  · rename_i hexact
    split at h
    · exact ⟨fun _ he => absurd he hexact, fun _ => auto_settled h⟩
    · cases h

end Calls

/-! ## Two islands and one site -/

/-- One site for two demands without a way between them. -/
def islandsRequest : Request where
  facilities := [⟨"f1", "North"⟩, ⟨"f2", "South"⟩]
  demands := [⟨"d1", 1⟩, ⟨"d2", 1⟩]
  pCount := 1
  problemType := "max_coverage"
  cutoffCost := some 1
  od := [⟨1, true⟩, ⟨0, false⟩, ⟨0, false⟩, ⟨1, true⟩]

theorem islandsRequest_problem :
    islandsRequest.problem = some (islands 1 (by decide) (by decide)) := by
  rfl

theorem islands_auto : ∃ r, locationAllocation exactAnswer islandsRequest "auto" = .ok (some r) ∧
    Settled islandsRequest r := by
  have hr : ∃ r, locationAllocation exactAnswer islandsRequest "auto" = .ok (some r) := by
    unfold locationAllocation locationAllocationAuto
    rw [if_neg (by decide), if_pos (by decide), islandsRequest_problem]
    exact ⟨_, rfl⟩
  obtain ⟨r, hr⟩ := hr
  exact ⟨r, hr, (assignments_settled exactAnswer_answers hr).1.mpr fun he =>
    absurd he (by decide)⟩

/-- The demand that the chosen site cannot reach is assigned to it all the same. -/
theorem islands_lost :
    ∃ r, locationAllocation exactAnswer islandsRequest "exact_milp" = .ok (some r) ∧
      ¬ Settled islandsRequest r := by
  have hnorm : problemNorm islandsRequest.problemType = .maxCoverage := by decide +kernel
  have hcutoff : coverCutoff islandsRequest = 1 := rfl
  have hids : islandsRequest.ids.Nodup := by decide +kernel
  let P := islands 1 (by decide) (by decide)
  have hexists : ∃ x, (P.maxCoverageModel 1).IsOptimum x :=
    encodes_maxCoverage.exists_optimum.mpr
      ⟨_, List.mem_toFinset.mpr range_mem_subsets⟩
  obtain ⟨x, hx⟩ : ∃ x, exactAnswer (P.maxCoverageModel 1) = some x := by
    cases hx : exactAnswer (P.maxCoverageModel 1) with
    | some x => exact ⟨x, rfl⟩
    | none => exact absurd hexists ((exactAnswer_answers _).nothing hx)
  have hmem : P.selected 0 x ∈ P.subsets := List.mem_toFinset.mp
    (encodes_maxCoverage.least ((exactAnswer_answers _).optimum x hx)).1
  have hsolve : solveMaxCoverageMilp exactAnswer P.costs P.weights P.pCount 1 =
      .ok (P.maxCoverageOut 1 x) := by
    unfold solveMaxCoverageMilp solveMilp
    rw [validate_problem (by decide) (by decide)]
    have hguard : milpScaleGuard P.demands P.facilities = .ok () := rfl
    simp only [bind, Except.bind, hguard, hx, solved]
  have hcall : locationAllocation exactAnswer islandsRequest "exact_milp" =
      .ok (some (exactMilpResult islandsRequest P (P.maxCoverageOut 1 x))) := by
    unfold locationAllocation exactCall
    rw [if_pos rfl, hnorm]
    rw [islandsRequest_problem, hcutoff]
    have hguard : odMatrixScaleGuard P.demands P.facilities milpMaxProduct = .ok () := rfl
    dsimp only
    rw [hguard]
    dsimp only [bind, Except.bind]
    rw [if_pos hids, hsolve]
  have hleft : ∀ s ∈ P.subsets, ¬ P.CoversAll 1 s := by decide +kernel
  refine ⟨_, hcall, fun hsettled => hleft _ hmem ?_⟩
  exact (coverage_settled_iff islandsRequest_problem hids hnorm hmem).mp hsettled

end WebGis.Network
