/-
  The graph of a plan, and what `validate_plan` makes sure of.

  The ready-set scheduler: `_run_ready_set`.

  One thread goes through the rounds of the loop: it looks at the requests to stop, fills the free
  slots from the front of the ready list, and waits. The threads of the nodes set the status of
  their own node and end. When a node settles, its dependents count one input less and those
  without any left become ready. A sweep takes the ready nodes without settling them. The nodes
  that were submitted, swept and settled are remembered; no step reads these lists.
-/
import WebGis.Compute.Plan
import WebGis.Data.Reach

open List

namespace WebGis.Compute

open Data Relation ExecutionNode

/-- Who has whom as an input. -/
def links (nodes : List ExecutionNode) : List (String × String) :=
  nodes.flatMap fun n => n.inputs.map fun s => (n.nodeId, s)

/-- The loop of `src_cycle_via`. -/
def cycleLoop (links : List (String × String)) (nodeId : String) :
    Nat → List String → List String → Bool
  | 0, _, _ => false
  | _ + 1, [], _ => false
  | fuel + 1, cur :: stack, seen =>
    if cur = nodeId then true
    else if cur ∈ seen then cycleLoop links nodeId fuel stack seen
    else cycleLoop links nodeId fuel (targets links cur ++ stack) (cur :: seen)

def srcCycleVia (nodes : List ExecutionNode) (n : ExecutionNode) : Bool :=
  cycleLoop (links nodes) n.nodeId (n.inputs.length + (links nodes).length) n.inputs []

/-- The checks of `validate_plan` on the graph. -/
def validatePlan (nodes : List ExecutionNode) : Bool :=
  nodes ≠ [] ∧ (nodes.map nodeId).Nodup ∧
    nodes.all fun n => n.inputs.all (fun s => s ∈ nodes.map nodeId) &&
      !srcCycleVia nodes n

/-- The inputs of the node of a name. -/
def inputsOf (nodes : List ExecutionNode) (nodeId : String) : List String :=
  (nodes.find? fun n => n.nodeId = nodeId).elim [] inputs

/-- The nodes that have `src` as an input, once for each time they have it. -/
def dependents (nodes : List ExecutionNode) (src : String) : List String :=
  nodes.flatMap fun n => (n.inputs.filter (· = src)).map fun _ => n.nodeId

variable {nodes : List ExecutionNode}

/-! ## Acyclic plans -/

theorem mem_links {a b : String} :
    Linked (links nodes) a b ↔ ∃ n ∈ nodes, n.nodeId = a ∧ b ∈ n.inputs := by
  unfold Linked links
  rw [mem_flatMap]
  constructor
  · rintro ⟨n, hn, hab⟩
    obtain ⟨s, hs, heq⟩ := mem_map.mp hab
    cases heq
    exact ⟨n, hn, rfl, hs⟩
  · rintro ⟨n, hn, rfl, hb⟩
    exact ⟨n, hn, mem_map_of_mem hb⟩

theorem notMem_spread {ls : List (String × String)} {nodeId : String} {fuel : Nat}
    {stack seen : List String} (h : cycleLoop ls nodeId fuel stack seen = false)
    (hseen : nodeId ∉ seen) : nodeId ∉ spread ls fuel stack seen := by
  induction fuel generalizing stack seen with
  | zero => exact hseen
  | succ fuel ih =>
    cases stack with
    | nil => exact hseen
    | cons cur stack =>
      unfold cycleLoop at h
      unfold spread
      split at h
      · cases h
      rename_i hne
      split at h
      · rename_i hmem
        rw [if_pos hmem]
        exact ih h hseen
      · rename_i hmem
        rw [if_neg hmem]
        refine ih h ?_
        rw [mem_cons, not_or]
        exact ⟨Ne.symm hne, hseen⟩

structure Validated (nodes : List ExecutionNode) : Prop where
  unique : (nodes.map nodeId).Nodup
  known : ∀ n ∈ nodes, ∀ s ∈ n.inputs, s ∈ nodes.map nodeId
  acyclic : Acyclic fun a b => Linked (links nodes) b a

theorem validated_of_validatePlan (h : validatePlan nodes) : Validated nodes := by
  unfold validatePlan at h
  rw [decide_eq_true_eq] at h
  obtain ⟨-, hunique, hall⟩ := h
  have hnode : ∀ n ∈ nodes, (n.inputs.all fun s => s ∈ nodes.map nodeId) ∧
      srcCycleVia nodes n = false := by
    intro n hn
    have hboth := List.all_eq_true.mp hall n hn
    rw [Bool.and_eq_true, Bool.not_eq_true'] at hboth
    exact hboth
  refine ⟨hunique, ?_, ?_⟩
  · intro n hn s hs
    exact of_decide_eq_true (List.all_eq_true.mp (hnode n hn).1 s hs)
  · intro a ha
    have hback : TransGen (Linked (links nodes)) a a := by
      have hswap := transGen_swap.mpr ha
      exact hswap
    obtain ⟨s, has, hsa⟩ := TransGen.head'_iff.mp hback
    obtain ⟨n, hn, rfl, hs⟩ := mem_links.mp has
    have hnot := notMem_spread (hnode n hn).2 not_mem_nil
    exact hnot ((mem_spread le_rfl).mpr ⟨s, hs, hsa⟩)

section

variable (hunique : (nodes.map nodeId).Nodup)
include hunique

theorem inputsOf_node {n : ExecutionNode}
    (hn : n ∈ nodes) : inputsOf nodes n.nodeId = n.inputs := by
  unfold inputsOf
  rw [Table.find_of_mem hunique hn]
  rfl

theorem mem_inputsOf {a b : String} :
    a ∈ inputsOf nodes b ↔ Linked (links nodes) b a := by
  rw [mem_links]
  constructor
  · intro h
    unfold inputsOf at h
    cases hfind : nodes.find? fun n => n.nodeId = b with
    | none =>
      rw [hfind] at h
      cases h
    | some n =>
      rw [hfind] at h
      have hid : n.nodeId = b := by simpa using find?_some hfind
      exact ⟨n, mem_of_find?_eq_some hfind, hid, h⟩
  · rintro ⟨n, hn, rfl, ha⟩
    rw [inputsOf_node hunique hn]
    exact ha

theorem count_dependents (src nodeId : String) :
    (dependents nodes src).count nodeId = (inputsOf nodes nodeId).count src := by
  have hlength : ∀ (a : String) (xs : List String),
      ((xs.filter (· = src)).map fun _ => a).count nodeId = if a = nodeId then xs.count src else 0 := by
    intro a xs
    have hconst : (xs.filter (· = src)).map (fun _ => a) = List.replicate (xs.count src) a := by
      rw [map_const', count_eq_length_filter]
      refine congrArg (fun k => List.replicate k a) (congrArg List.length ?_)
      exact filter_congr fun x _ => (beq_eq_decide x src).symm
    rw [hconst, count_replicate]
    simp [beq_iff_eq]
  unfold dependents
  induction nodes with
  | nil => rfl
  | cons n rest ih =>
    rw [map_cons, nodup_cons] at hunique
    rw [flatMap_cons, count_append, hlength, ih hunique.2]
    unfold inputsOf
    rw [find?_cons]
    by_cases hid : n.nodeId = nodeId
    · have hnone : rest.find? (fun n => n.nodeId = nodeId) = none := by
        rw [find?_eq_none]
        intro m hm heq
        refine hunique.1 (mem_map.mpr ⟨m, hm, ?_⟩)
        rw [hid]
        exact of_decide_eq_true heq
      rw [if_pos hid, hnone, decide_eq_true hid]
      rfl
    · rw [if_neg hid, decide_eq_false hid, Nat.zero_add]

end

/-- The statuses of a node's evidence. -/
inductive EvidenceStatus where
  | pending
  | running
  | completed
  | reused
  | failed
  | cancelled
  | skipped
  deriving DecidableEq

/-- Neither pending nor running. -/
def EvidenceStatus.ended : EvidenceStatus → Bool
  | pending => false
  | running => false
  | _ => true

/-- With such an input a node is skipped. -/
def EvidenceStatus.blocks : EvidenceStatus → Bool
  | failed => true
  | cancelled => true
  | skipped => true
  | _ => false

/-- Where the thread of the scheduler is. -/
inductive SchedulerPhase where
  | top
  | fill
  | wait
  | returned
  deriving DecidableEq

structure Scheduler where
  phase : SchedulerPhase := .top
  statuses : String → EvidenceStatus := fun _ => .pending
  indegree : String → Int
  ready : List String
  inflight : List String := []
  done : List String := []
  submitted : List String := []
  swept : List String := []
  settled : List String := []

inductive SchedulerAction where
  /-- A round begins; `sweeps` is whether a request to stop or the deadline is seen. -/
  | round (sweeps : Bool)
  | skip
  | submit
  /-- The slots are full, nothing is ready, or the governor refuses a slot. -/
  | leave (refused : Bool)
  /-- A node's thread ends, with a status or with an exception. -/
  | finish (nodeId : String) (outcome : Option EvidenceStatus)
  /-- A future that is done is taken from those in flight. -/
  | collect (nodeId : String)
  | again

namespace Scheduler

variable (nodes : List ExecutionNode) (maxWorkers : Nat)

def setStatus (s : Scheduler) (nodeId : String) (status : EvidenceStatus) : Scheduler :=
  { s with statuses := Function.update s.statuses nodeId status }

/-- One dependent counts one input less. -/
def release (s : Scheduler) (dep : String) : Scheduler :=
  let indegree := Function.update s.indegree dep (s.indegree dep - 1)
  { s with
    indegree := indegree
    ready := if indegree dep = 0 ∧ s.statuses dep = .pending then s.ready ++ [dep] else s.ready }

def settle (s : Scheduler) (nodeId : String) : Scheduler :=
  let s := (dependents nodes nodeId).foldl release { s with settled := nodeId :: s.settled }
  { s with ready := sortTexts s.ready }

def sweepRemaining (s : Scheduler) : Scheduler :=
  { s with
    statuses := fun nodeId =>
      if nodeId ∈ s.ready ∧ s.statuses nodeId = .pending then .cancelled else s.statuses nodeId
    swept := s.ready ++ s.swept
    ready := [] }

/-- Some input of the node has failed, or was cancelled or skipped. -/
def blocked (s : Scheduler) (nodeId : String) : Bool :=
  (inputsOf nodes nodeId).any fun src => (s.statuses src).blocks

/-- The state before the first round. -/
def start : Scheduler where
  indegree := fun nodeId => (inputsOf nodes nodeId).length
  ready := sortTexts ((nodes.map ExecutionNode.nodeId).filter fun nodeId =>
    inputsOf nodes nodeId = [])

/-- The loop ends when nothing is ready and nothing in flight. -/
def enter (s : Scheduler) (phase : SchedulerPhase) : Scheduler :=
  { s with phase := if s.ready = [] ∧ s.inflight = [] then .returned else phase }

def step (s : Scheduler) : SchedulerAction → Option Scheduler
  | .round sweeps =>
    if s.phase = .top then
      if s.ready = [] ∧ s.inflight = [] then some { s with phase := .returned }
      else some ((if sweeps then s.sweepRemaining else s).enter .fill)
    else none
  | .skip =>
    match s.ready with
    | [] => none
    | nodeId :: rest =>
      if s.phase = .fill ∧ s.inflight.length < maxWorkers ∧ s.blocked nodes nodeId then
        some (({ s with ready := rest }.setStatus nodeId .skipped).settle nodes nodeId)
      else none
  | .submit =>
    match s.ready with
    | [] => none
    | nodeId :: rest =>
      if s.phase = .fill ∧ s.inflight.length < maxWorkers ∧ ¬ s.blocked nodes nodeId then
        some ({ s with
          ready := rest
          inflight := s.inflight ++ [nodeId]
          submitted := s.submitted ++ [nodeId] }.setStatus nodeId .running)
      else none
  | .leave refused =>
    if s.phase = .fill ∧ (s.ready = [] ∨ maxWorkers ≤ s.inflight.length ∨ refused) then
      some (s.enter (if s.inflight = [] then .top else .wait))
    else none
  | .finish nodeId outcome =>
    if nodeId ∈ s.inflight ∧ nodeId ∉ s.done ∧ s.statuses nodeId = .running ∧
        outcome.all EvidenceStatus.ended then
      some ({ s with done := nodeId :: s.done }.setStatus nodeId (outcome.getD .running))
    else none
  | .collect nodeId =>
    if s.phase = .wait ∧ nodeId ∈ s.inflight ∧ nodeId ∈ s.done then
      some (({ s with
        inflight := s.inflight.erase nodeId
        done := s.done.erase nodeId }.setStatus nodeId
          (if (s.statuses nodeId).ended then s.statuses nodeId else .failed)).settle nodes nodeId)
    else none
  | .again => if s.phase = .wait then some { s with phase := .top } else none

/-- The states of a run of the loop. -/
inductive Run : Scheduler → Prop where
  | start : Run (start nodes)
  | step {s s' : Scheduler} {a : SchedulerAction} :
      Run s → step nodes maxWorkers s a = some s' → Run s'

end Scheduler

end WebGis.Compute
