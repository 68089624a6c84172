/-
  The two readings of an endpoint of an edge: the one of the scheduler (`build_adjacency`) and
  the one of a node that gathers its inputs (`upstream_ports`).

  Both cut a port off at the last dot when a node is left. The scheduler first looks whether
  the whole endpoint is a node, the other reading does not: they differ exactly on an
  endpoint that is a node and would be a port of another node (`reads_alike_iff`). What such an
  edge is read as must then come from another edge, or the pairs differ (`pairs_agree_iff`).

  `workflow_runtime/plan_feasibility.py`: the waves in which a plan will be dispatched, and the
  waves in which the driver finds its nodes ready.

  `dag_waves` gives every node a level in passes over what is left, in place: a node whose
  predecessors got theirs in the same pass gets its own at once. What the passes keep is that a
  level is one more than the highest below it (`Leveled`); for a graph without a cycle they reach
  every node. The driver's rounds are then the levels, one after another
  (`readySet_stage`, `readyWaves_stage`).
-/
import WebGis.Data.Total
import WebGis.Workflow.Dag

namespace WebGis.Workflow

open Data List Dict WorkflowDAG
open Option hiding guard or_assoc

/-! ## Endpoints -/

/-- The node that `upstream_ports` reads in an endpoint. -/
def portNode (ids : List String) (raw : String) : String := (splitEndpoint ids raw).1

/-- A node whose name, cut at its last dot, is the name of another one. -/
def Twofold (ids : List String) (ep : String) : Prop :=
  ep ∈ ids ∧ ∃ head port, rpartition '.' ep = some (head, port) ∧ head ∈ ids

theorem rpartition_shorter {c : Char} {s head tail : String}
    (h : rpartition c s = some (head, tail)) : head.length < s.length := by
  have hsplit := span_eq_takeWhile_dropWhile (p := fun x => decide (x ≠ c))
    (l := s.toList.reverse)
  have hlen : (s.toList.reverse.takeWhile fun x => decide (x ≠ c)).length +
      (s.toList.reverse.dropWhile fun x => decide (x ≠ c)).length = s.length := by
    rw [← length_append, takeWhile_append_dropWhile, length_reverse, String.length_toList]
  unfold rpartition at h
  rw [hsplit] at h
  cases hdrop : s.toList.reverse.dropWhile fun x => decide (x ≠ c) with
  | nil => simp only [hdrop, reduceCtorEq] at h
  | cons d rest =>
    simp only [hdrop, some.injEq, Prod.mk.injEq] at h
    rw [← h.1, String.length_ofList, length_reverse]
    rw [hdrop, length_cons] at hlen
    omega

variable {ids : List String}

theorem normEndpoint_eq_empty {ep : String} : normEndpoint ids ep = "" ↔ ep = "" := by
  unfold normEndpoint
  split
  · rfl
  split
  · rename_i head tail hcut
    have hshort := rpartition_shorter hcut
    split
    · rename_i hhead
      refine ⟨fun h => absurd h hhead.1, fun h => ?_⟩
      rw [h] at hshort
      exact absurd hshort (by simp)
    · rfl
  · rfl

theorem portNode_eq_empty (hids : "" ∉ ids) {ep : String} : portNode ids ep = "" ↔ ep = "" := by
  unfold portNode splitEndpoint
  split
  · rename_i head tail hcut
    have hshort := rpartition_shorter hcut
    split
    · rename_i hhead
      refine ⟨fun h => absurd (h ▸ hhead) hids, fun h => ?_⟩
      rw [h] at hshort
      exact absurd hshort (by simp)
    · rfl
  · rfl

theorem reads_alike_iff (hids : "" ∉ ids) (ep : String) :
    normEndpoint ids ep = portNode ids ep ↔ ¬ Twofold ids ep := by
  cases hcut : rpartition '.' ep with
  | none => simp [normEndpoint, portNode, splitEndpoint, Twofold, hcut]
  | some cut =>
    obtain ⟨head, port⟩ := cut
    have hshort := rpartition_shorter hcut
    have hne : ep ≠ head := fun h => absurd (congrArg String.length h) (by omega)
    have hempty : head ∈ ids → head ≠ "" := fun h he => hids (he ▸ h)
    by_cases hep : ep ∈ ids <;> by_cases hhead : head ∈ ids <;>
      simp [normEndpoint, portNode, splitEndpoint, Twofold, hcut, hep, hhead, hne, hempty]

/-! ## The pairs of the data-flow edges -/

/-- The graph with its data-flow edges only. -/
def WorkflowDAG.dataFlow (dag : WorkflowDAG) : WorkflowDAG :=
  { dag with nodes := dag.nodes.map fun n => { n with dependsOn := [] } }

/-- A node and one that the scheduler lets wait for it, for a data-flow edge. -/
def DataPair (dag : WorkflowDAG) (src dst : String) : Prop := src ∈ predecessors dag.dataFlow dst

/-- A node and one that gathers an input from it. -/
def PortPair (dag : WorkflowDAG) (src dst : String) : Prop :=
  ∃ port, (src, port) ∈ (upstreamPorts dag).getD dst []

/-- An edge as one of the readings has it. -/
def ReadAs (norm : String → String) (e : WorkflowEdge) (src dst : String) : Prop :=
  norm e.src = src ∧ norm e.dst = dst

/-- The edges whose ends have a name. -/
def WorkflowDAG.namedEdges (dag : WorkflowDAG) : List WorkflowEdge :=
  dag.edges.filter fun e => e.src ≠ "" && e.dst ≠ ""

theorem empty_notMem_nodeIds (dag : WorkflowDAG) : "" ∉ dag.nodeIds := by
  simp [nodeIds]

theorem mem_successors {dag : WorkflowDAG} {a b : String} :
    b ∈ successors dag a ↔
      (∃ e ∈ dag.edges, e.src ≠ "" ∧ e.dst ≠ "" ∧
        ReadAs (normEndpoint dag.nodeIds) e a b) ∨
      ∃ n ∈ dag.nodes, n.nodeId = b ∧ a ∈ n.dependsOn := by
  have hadj : buildAdjacency dag = (dag.nodes.flatMap fun n =>
      n.dependsOn.map fun dep => (dep, n.nodeId)).foldl (fun d kv => d.push kv.1 kv.2)
        (dag.edges.foldl (fun adjacency e =>
          if normEndpoint dag.nodeIds e.src ≠ "" ∧ normEndpoint dag.nodeIds e.dst ≠ "" then
            adjacency.push (normEndpoint dag.nodeIds e.src) (normEndpoint dag.nodeIds e.dst)
          else adjacency) Dict.empty) := by
    rw [foldl_flatMap]
    simp only [foldl_map]
    rfl
  unfold successors
  rw [hadj, mem_foldl_push, mem_foldl_push_if (fun e : WorkflowEdge =>
    normEndpoint dag.nodeIds e.src ≠ "" ∧ normEndpoint dag.nodeIds e.dst ≠ "")
    (fun e => normEndpoint dag.nodeIds e.src) (fun e => normEndpoint dag.nodeIds e.dst)]
  refine or_congr ?_ ?_
  · simp only [ReadAs, ne_eq, normEndpoint_eq_empty, and_assoc]
  · simp only [mem_flatMap, List.mem_map, Prod.mk.injEq]
    constructor
    · rintro ⟨n, hn, dep, hdep, rfl, rfl⟩
      exact ⟨n, hn, rfl, hdep⟩
    · rintro ⟨n, hn, rfl, hdep⟩
      exact ⟨n, hn, a, hdep, rfl, rfl⟩

theorem dataPair_iff {dag : WorkflowDAG} {src dst : String} :
    DataPair dag src dst ↔ ∃ e ∈ dag.namedEdges, ReadAs (normEndpoint dag.nodeIds) e src dst := by
  have hids : dag.dataFlow.nodeIds = dag.nodeIds := by
    simp [dataFlow, nodeIds, Function.comp_def]
  have hnone : ¬ ∃ n ∈ dag.dataFlow.nodes, n.nodeId = dst ∧ src ∈ n.dependsOn := by
    rintro ⟨n, hn, -, hdep⟩
    obtain ⟨m, -, rfl⟩ := List.mem_map.mp hn
    exact not_mem_nil hdep
  unfold DataPair
  rw [mem_predecessors, mem_successors, or_iff_left hnone, hids]
  simp only [namedEdges, mem_filter, Bool.and_eq_true, decide_eq_true_eq, and_assoc]
  exact Iff.rfl

theorem portPair_iff {dag : WorkflowDAG} {src dst : String} :
    PortPair dag src dst ↔ ∃ e ∈ dag.namedEdges, ReadAs (portNode dag.nodeIds) e src dst := by
  have hports : upstreamPorts dag = dag.edges.foldl (fun out e =>
      if portNode dag.nodeIds e.dst ≠ "" ∧ portNode dag.nodeIds e.src ≠ "" then
        out.push (portNode dag.nodeIds e.dst)
          (portNode dag.nodeIds e.src, (splitEndpoint dag.nodeIds e.dst).2)
      else out) Dict.empty := rfl
  have hname := @portNode_eq_empty dag.nodeIds (empty_notMem_nodeIds dag)
  have hmem : ∀ port, (src, port) ∈ (upstreamPorts dag).getD dst [] ↔ ∃ e ∈ dag.edges,
      (portNode dag.nodeIds e.dst ≠ "" ∧ portNode dag.nodeIds e.src ≠ "") ∧
        portNode dag.nodeIds e.dst = dst ∧
          (portNode dag.nodeIds e.src, (splitEndpoint dag.nodeIds e.dst).2) = (src, port) := by
    intro port
    rw [hports]
    exact mem_foldl_push_if (fun e : WorkflowEdge => portNode dag.nodeIds e.dst ≠ "" ∧
      portNode dag.nodeIds e.src ≠ "") _ _ _ _ _
  simp only [PortPair, hmem, namedEdges, mem_filter, ReadAs, ne_eq, hname,
    Prod.mk.injEq, Bool.and_eq_true, decide_eq_true_eq]
  constructor
  · rintro ⟨port, e, he, ⟨hd, hs⟩, hdst, hsrc, -⟩
    exact ⟨e, ⟨he, hs, hd⟩, hsrc, hdst⟩
  · rintro ⟨e, ⟨he, hs, hd⟩, hsrc, hdst⟩
    exact ⟨_, e, he, ⟨hd, hs⟩, hdst, hsrc, rfl⟩

/-- An edge with an end that can be read in two ways. -/
def WorkflowDAG.Doubtful (dag : WorkflowDAG) (e : WorkflowEdge) : Prop :=
  Twofold dag.nodeIds e.src ∨ Twofold dag.nodeIds e.dst

/-- Either reading of the edge is what some edge is in the other reading. -/
def WorkflowDAG.Backed (dag : WorkflowDAG) (e : WorkflowEdge) : Prop :=
  (∃ other ∈ dag.namedEdges, ReadAs (portNode dag.nodeIds) other
    (normEndpoint dag.nodeIds e.src) (normEndpoint dag.nodeIds e.dst)) ∧
  ∃ other ∈ dag.namedEdges, ReadAs (normEndpoint dag.nodeIds) other
    (portNode dag.nodeIds e.src) (portNode dag.nodeIds e.dst)

/-- A node gathers its inputs from the nodes that it waits for on data-flow edges exactly when
    every edge with an end that can be read in two ways is backed by others. -/
theorem pairs_agree_iff (dag : WorkflowDAG) :
    (∀ src dst, PortPair dag src dst ↔ DataPair dag src dst) ↔
      ∀ e ∈ dag.namedEdges, dag.Doubtful e → dag.Backed e := by
  simp only [portPair_iff, dataPair_iff]
  constructor
  · intro h e he _
    exact ⟨(h _ _).mpr ⟨e, he, rfl, rfl⟩, (h _ _).mp ⟨e, he, rfl, rfl⟩⟩
  · intro h src dst
    constructor
    · rintro ⟨e, he, rfl, rfl⟩
      by_cases hd : dag.Doubtful e
      · exact (h e he hd).2
      · obtain ⟨hs, hd⟩ := not_or.mp hd
        exact ⟨e, he, (reads_alike_iff (empty_notMem_nodeIds dag) _).mpr hs,
          (reads_alike_iff (empty_notMem_nodeIds dag) _).mpr hd⟩
    · rintro ⟨e, he, rfl, rfl⟩
      by_cases hd : dag.Doubtful e
      · exact (h e he hd).1
      · obtain ⟨hs, hd⟩ := not_or.mp hd
        exact ⟨e, he, ((reads_alike_iff (empty_notMem_nodeIds dag) _).mpr hs).symm,
          ((reads_alike_iff (empty_notMem_nodeIds dag) _).mpr hd).symm⟩

/-- `clip.roads` is a node, and `roads` would be a port of the node `clip`. -/
def dottedNode : WorkflowDAG where
  nodes := [{ nodeId := "clip" }, { nodeId := "clip.roads" }, { nodeId := "merge" }]
  edges := [{ src := "clip.roads", dst := "merge" }]

/-- The scheduler lets `merge` wait for `clip.roads`; `merge` gathers its input from `clip`. -/
theorem waits_for_another : ¬ ∀ dag src dst, PortPair dag src dst ↔ DataPair dag src dst := by
  intro h
  have hport : PortPair dottedNode "clip" "merge" := ⟨"", by decide⟩
  have hdata : ¬ DataPair dottedNode "clip" "merge" := by
    unfold DataPair
    decide
  exact hdata ((h dottedNode "clip" "merge").mp hport)

open Data NodeState

/-! ## The levels -/

/-- What one pass over the remaining nodes has done so far. -/
structure LevelPass where
  levels : Dict String Nat
  progressed : Bool := false
  next : List String := []

/-- `ups`: the declared nodes upstream of a node. -/
def ups (dag : WorkflowDAG) (nodeId : String) : List String :=
  (predecessors dag nodeId).filter (· ∈ dag.nodeIds)

/-- One above the highest level of the nodes `us`, 0 without any. -/
def levelAbove (levels : Dict String Nat) (us : List String) : Nat :=
  (us.map fun u => levels.getD u 0 + 1).foldr max 0

def assignLevel (dag : WorkflowDAG) (p : LevelPass) (nodeId : String) : LevelPass :=
  if (ups dag nodeId).all (· ∈ p.levels.keys) then
    { p with
      levels := p.levels.set nodeId (levelAbove p.levels (ups dag nodeId))
      progressed := true }
  else { p with next := p.next ++ [nodeId] }

/-- The loop of `dag_waves`, with the rounds that its guard leaves. What is left when a round does
    nothing is on a cycle and gets one level above all others. -/
def assignLevels (dag : WorkflowDAG) : Nat → Dict String Nat → List String → Dict String Nat
  | 0, levels, _ => levels
  | guard + 1, levels, remaining =>
    if remaining = [] then levels
    else
      let p := remaining.foldl (assignLevel dag) { levels }
      if p.progressed then assignLevels dag guard p.levels p.next
      else
        let base := (p.levels.items.map Prod.snd).foldr max 0 + 1
        p.next.foldl (fun levels n => levels.set n base) p.levels

def nodeLevels (dag : WorkflowDAG) : Dict String Nat :=
  assignLevels dag (dag.nodeIds.length + 2) Dict.empty dag.nodeIds

def dagWaves (dag : WorkflowDAG) : List (List String) :=
  let order : Dict String Nat := ofList dag.nodeIds.zipIdx
  let waves := (nodeLevels dag).items.foldl (fun waves p => waves.push p.2 p.1)
    (Dict.empty : Dict Nat (List String))
  (waves.keys.insertionSort (· ≤ ·)).map fun lv =>
    (waves.getD lv []).insertionSort fun a b => order.getD a 0 ≤ order.getD b 0

/-! ## The rounds of the driver -/

/-- All nodes are pending. -/
def allPending (dag : WorkflowDAG) : States := ofList (dag.nodeIds.map fun n => (n, pending))

/-- The batches that `ready_set` gives one after another, when each of them succeeds. -/
def readyWaves (dag : WorkflowDAG) : Nat → States → List (List String)
  | 0, _ => []
  | rounds + 1, states =>
    let batch := readySet dag states
    if batch = [] then []
    else batch :: readyWaves dag rounds (batch.foldl (fun s n => s.set n succeeded) states)

/-! ## What the passes keep -/

variable {us : List String} {levels : Dict String Nat}

theorem levelAbove_le_iff {k : Nat} : levelAbove levels us ≤ k ↔ ∀ u ∈ us, levels.getD u 0 < k := by
  induction us with
  | nil => simp [levelAbove]
  | cons u us ih =>
    unfold levelAbove at ih ⊢
    rw [map_cons, foldr_cons, max_le_iff, ih, forall_mem_cons]
    exact Iff.rfl

theorem levelAbove_congr {d e : Dict String Nat} (h : ∀ u ∈ us, d.find u = e.find u) :
    levelAbove d us = levelAbove e us := by
  have hmap : (us.map fun u => d.getD u 0 + 1) = us.map fun u => e.getD u 0 + 1 :=
    map_congr_left fun u hu => by rw [Dict.getD, Dict.getD, h u hu]
  unfold levelAbove
  rw [hmap]

/-- The levels given so far, of the nodes that are not among the remaining ones. -/
structure Leveled (dag : WorkflowDAG) (levels : Dict String Nat) (remaining : List String) :
    Prop where
  cover : ∀ n, n ∈ dag.nodeIds ↔ n ∈ levels.keys ∨ n ∈ remaining
  apart : ∀ n ∈ remaining, n ∉ levels.keys
  nodup : remaining.Nodup
  level : ∀ n l, levels.find n = some l →
    (∀ u ∈ ups dag n, u ∈ levels.keys) ∧ l = levelAbove levels (ups dag n)

theorem Leveled.start {dag : WorkflowDAG} (h : dag.nodeIds.Nodup) :
    Leveled dag Dict.empty dag.nodeIds where
  cover n := by simp [mem_keys_iff]
  apart n _ := by simp [mem_keys_iff]
  nodup := h
  level n l hl := by simp at hl

variable {n : String}

theorem Leveled.give {dag : WorkflowDAG} {pre post : List String}
    (h : Leveled dag levels (pre ++ n :: post)) (hups : ∀ u ∈ ups dag n, u ∈ levels.keys) :
    Leveled dag (levels.set n (levelAbove levels (ups dag n))) (pre ++ post) := by
  have hnew : n ∉ levels.keys := h.apart n (by simp)
  have hsame : ∀ m, (∀ u ∈ ups dag m, u ∈ levels.keys) →
      levelAbove (levels.set n (levelAbove levels (ups dag n))) (ups dag m) =
        levelAbove levels (ups dag m) := by
    intro m hm
    refine levelAbove_congr fun u hu => find_set_ne levels _ ?_
    exact fun he => hnew (he ▸ hm u hu)
  have hnodup : n ∉ pre ++ post ∧ (pre ++ post).Nodup :=
    nodup_cons.mp (perm_middle.nodup_iff.mp h.nodup)
  refine ⟨?_, ?_, hnodup.2, ?_⟩
  · intro m
    rw [h.cover, mem_keys_set, perm_middle.mem_iff, mem_cons, or_left_comm, or_assoc]
  · intro m hm hk
    rcases (mem_keys_set _ _ _ _).mp hk with rfl | hk
    · exact hnodup.1 hm
    · exact h.apart m (perm_middle.mem_iff.mpr (mem_cons_of_mem n hm)) hk
  · intro m l hl
    by_cases hmn : n = m
    · subst hmn
      rw [find_set_self, some.injEq] at hl
      exact ⟨fun u hu => (mem_keys_set _ _ _ _).mpr (.inr (hups u hu)), by rw [hsame n hups, hl]⟩
    · rw [find_set_ne _ _ hmn] at hl
      obtain ⟨hkeys, hlevel⟩ := h.level m l hl
      exact ⟨fun u hu => (mem_keys_set _ _ _ _).mpr (.inr (hkeys u hu)),
        by rw [hsame m hkeys, hlevel]⟩

variable {rest : List String} {p : LevelPass}

theorem Leveled.assign {dag : WorkflowDAG} (h : Leveled dag p.levels (p.next ++ n :: rest)) :
    Leveled dag (assignLevel dag p n).levels ((assignLevel dag p n).next ++ rest) := by
  unfold assignLevel
  split
  · rename_i hall
    exact h.give fun u hu => by simpa using List.all_eq_true.mp hall u hu
  · simpa using h

theorem Leveled.pass {dag : WorkflowDAG} (h : Leveled dag p.levels (p.next ++ rest)) :
    Leveled dag (rest.foldl (assignLevel dag) p).levels (rest.foldl (assignLevel dag) p).next := by
  induction rest generalizing p with
  | nil => simpa using h
  | cons n rest ih => exact ih h.assign

theorem length_pass (dag : WorkflowDAG) (rest : List String) (p : LevelPass) :
    (rest.foldl (assignLevel dag) p).next.length +
        (rest.foldl (assignLevel dag) p).progressed.toNat ≤
      p.next.length + rest.length + p.progressed.toNat := by
  induction rest generalizing p with
  | nil => simp
  | cons n rest ih =>
    refine le_trans (ih (assignLevel dag p n)) ?_
    unfold assignLevel
    split
    · simp only [length_cons, Bool.toNat_true]
      omega
    · simp only [length_append, length_cons, length_nil]
      omega

theorem progressed_pass {dag : WorkflowDAG}
    (h : p.progressed ∨ ∃ n ∈ rest, ∀ u ∈ ups dag n, u ∈ p.levels.keys) :
    (rest.foldl (assignLevel dag) p).progressed := by
  induction rest generalizing p with
  | nil => simpa using h
  | cons n rest ih =>
    refine ih ?_
    unfold assignLevel
    split
    · exact .inl rfl
    rename_i hall
    refine h.imp id ?_
    rintro ⟨m, hm, hups⟩
    rcases mem_cons.mp hm with rfl | hm
    · exact absurd (List.all_eq_true.mpr fun u hu => by simpa using hups u hu) hall
    · exact ⟨m, hm, hups⟩

theorem mem_ups {dag : WorkflowDAG} {u : String} :
    u ∈ ups dag n ↔ u ∈ predecessors dag n ∧ u ∈ dag.nodeIds := by
  rw [ups, mem_filter, decide_eq_true_eq]

theorem Leveled.complete {dag : WorkflowDAG} (hr : Acyclic fun a b => a ∈ predecessors dag b)
    {guard : Nat} {remaining : List String} (h : Leveled dag levels remaining)
    (hguard : remaining.length ≤ guard) :
    Leveled dag (assignLevels dag guard levels remaining) [] := by
  induction guard generalizing levels remaining with
  | zero =>
    rw [length_eq_zero_iff.mp (Nat.le_zero.mp hguard)] at h
    exact h
  | succ guard ih =>
    unfold assignLevels
    split
    · rename_i hnil
      exact hnil ▸ h
    · rename_i hne
      obtain ⟨m, hm, hmin⟩ := exists_minimal hr (fun _ ha => ha)
        (exists_mem_of_ne_nil _ hne)
      have hready : ∀ u ∈ ups dag m, u ∈ levels.keys := fun u hu =>
        ((h.cover u).mp (mem_ups.mp hu).2).resolve_right (hmin u (mem_ups.mp hu).1)
      have hprogress : (remaining.foldl (assignLevel dag) { levels }).progressed :=
        progressed_pass (.inr ⟨m, hm, hready⟩)
      have hlen := length_pass dag remaining { levels }
      rw [hprogress] at hlen
      simp only [length_nil, Bool.toNat_true, Bool.toNat_false] at hlen
      rw [if_pos hprogress]
      exact ih (Leveled.pass (p := { levels }) h) (by omega)

/-! ## The levels of a graph without a cycle -/

/-- A graph with distinct ids, whose endpoints and dependencies are declared nodes, without a
    cycle. -/
structure Resolved (dag : WorkflowDAG) : Prop where
  distinct : (dag.nodes.map WorkflowNode.nodeId).Nodup
  named : ∀ n ∈ dag.nodes, n.nodeId ≠ ""
  edges : ∀ e ∈ dag.edges,
    normEndpoint dag.nodeIds e.src ∈ dag.nodeIds ∧ normEndpoint dag.nodeIds e.dst ∈ dag.nodeIds
  dependencies : ∀ n ∈ dag.nodes, ∀ d ∈ n.dependsOn, d ∈ dag.nodeIds
  acyclic : Acyclic fun a b => a ∈ predecessors dag b

/-- The level of a node. -/
def depth (dag : WorkflowDAG) (nodeId : String) : Nat := (nodeLevels dag).getD nodeId 0

/-- The nodes of one level, in the order of their declaration. -/
def layer (dag : WorkflowDAG) (k : Nat) : List String := dag.nodeIds.filter (depth dag · = k)

/-- How many levels there are. -/
def height (dag : WorkflowDAG) : Nat := (dag.nodeIds.map fun n => depth dag n + 1).foldr max 0

section Depth

variable {dag : WorkflowDAG} (h : Resolved dag)

include h

theorem nodup_nodeIds : dag.nodeIds.Nodup := h.distinct.filter _

theorem leveled : Leveled dag (nodeLevels dag) [] :=
  (Leveled.start (nodup_nodeIds h)).complete h.acyclic (by omega)

variable {n : String}

theorem find_nodeLevels (hn : n ∈ dag.nodeIds) : (nodeLevels dag).find n = some (depth dag n) := by
  have hkey := ((leveled h).cover n).mp hn
  obtain ⟨l, hl⟩ := mem_keys_iff.mp (hkey.resolve_right not_mem_nil)
  rw [hl, depth, Dict.getD, hl, getD_some]

variable {k : Nat}

theorem depth_le_iff (hn : n ∈ dag.nodeIds) :
    depth dag n ≤ k ↔ ∀ u ∈ ups dag n, depth dag u < k := by
  rw [((leveled h).level n _ (find_nodeLevels h hn)).2, levelAbove_le_iff]
  exact Iff.rfl

theorem exists_depth (hn : n ∈ dag.nodeIds) (hk : k ≤ depth dag n) :
    ∃ m ∈ dag.nodeIds, depth dag m = k := by
  induction hd : depth dag n generalizing n with
  | zero => exact ⟨n, hn, by omega⟩
  | succ d ih =>
    rcases Nat.lt_or_ge d k with hlt | hle
    · exact ⟨n, hn, by omega⟩
    have hnot : ¬ ∀ u ∈ ups dag n, depth dag u < d := by
      rw [← depth_le_iff h hn]
      omega
    push Not at hnot
    obtain ⟨u, hu, hdu⟩ := hnot
    have hlt : depth dag u < d + 1 := (depth_le_iff h hn).mp (le_of_eq hd) u hu
    exact ih (mem_ups.mp hu).2 (by omega) (by omega)

omit h in
theorem lt_height_iff : k < height dag ↔ ∃ n ∈ dag.nodeIds, k ≤ depth dag n := by
  unfold height
  induction dag.nodeIds with
  | nil => simp
  | cons n ns ih =>
    rw [map_cons, foldr_cons, lt_max_iff, ih]
    simp only [mem_cons, exists_eq_or_imp, Nat.lt_succ_iff]

theorem layer_eq_nil_iff : layer dag k = [] ↔ height dag ≤ k := by
  have hnil : layer dag k = [] ↔ ¬ ∃ n ∈ dag.nodeIds, depth dag n = k := by
    simp [layer, filter_eq_nil_iff]
  rw [hnil, ← not_lt, not_iff_not, lt_height_iff]
  constructor
  · rintro ⟨n, hn, rfl⟩
    exact ⟨n, hn, le_refl _⟩
  · rintro ⟨n, hn, hk⟩
    exact exists_depth h hn hk

theorem height_le : height dag ≤ dag.nodes.length := by
  have hsub : List.range (height dag) ⊆ dag.nodeIds.map (depth dag) := by
    intro k hk
    obtain ⟨n, hn, hle⟩ := lt_height_iff.mp (mem_range.mp hk)
    obtain ⟨m, hm, hd⟩ := exists_depth h hn hle
    exact List.mem_map.mpr ⟨m, hm, hd⟩
  have hlen := (subperm_of_subset nodup_range hsub).length_le
  rw [length_range, length_map] at hlen
  have hids : dag.nodeIds.length ≤ (dag.nodes.map WorkflowNode.nodeId).length :=
    length_filter_le _ _
  rw [length_map] at hids
  exact le_trans hlen hids

end Depth

/-! ## The rounds -/

/-- The states when the nodes below level `k` have succeeded and the others are pending. -/
def Stage (dag : WorkflowDAG) (k : Nat) (states : States) : Prop :=
  ∀ n ∈ dag.nodeIds, states.find n = some (if depth dag n < k then succeeded else pending)

theorem stage_allPending (dag : WorkflowDAG) : Stage dag 0 (allPending dag) := by
  intro n hn
  rw [allPending, find_ofList_const, if_pos hn, if_neg (Nat.not_lt_zero _)]

theorem Stage.next {dag : WorkflowDAG} {k : Nat} {states : States} (hs : Stage dag k states) :
    Stage dag (k + 1) ((layer dag k).foldl (fun s n => s.set n succeeded) states) := by
  intro n hn
  rw [find_foldl_const, hs n hn]
  by_cases hk : depth dag n = k
  · rw [if_pos (by simp [layer, hn, hk]), if_pos (by omega)]
  rw [if_neg (by simp [layer, hk])]
  congr 2
  exact propext (by omega)

section Rounds

variable {dag : WorkflowDAG} (h : Resolved dag)

include h

theorem mem_predecessors_declared {a b : String} (hab : a ∈ predecessors dag b) :
    a ∈ dag.nodeIds ∧ b ∈ dag.nodeIds := by
  rcases mem_successors.mp (mem_predecessors.mp hab) with ⟨e, he, -, -, rfl, rfl⟩ | ⟨n, hn, rfl, hd⟩
  · exact h.edges e he
  · exact ⟨h.dependencies n hn a hd,
      mem_filter.mpr ⟨List.mem_map_of_mem hn, decide_eq_true (h.named n hn)⟩⟩

variable {states : States}

theorem readySet_stage {k : Nat} (hs : Stage dag k states) : readySet dag states = layer dag k := by
  unfold readySet layer nodeIds
  rw [List.filter_filter]
  refine filter_congr fun n hn => ?_
  obtain ⟨node, hnode, rfl⟩ := List.mem_map.mp hn
  have hne := h.named node hnode
  have hin : node.nodeId ∈ dag.nodeIds :=
    mem_filter.mpr ⟨hn, decide_eq_true hne⟩
  have hpred : (∀ d ∈ predecessors dag node.nodeId,
      states.find d = some succeeded ∨ states.find d = some skipped) ↔
      depth dag node.nodeId ≤ k := by
    rw [depth_le_iff h hin]
    constructor
    · intro hall u hu
      have hset := hall u (mem_ups.mp hu).1
      rw [hs u (mem_ups.mp hu).2] at hset
      by_contra hlt
      simp [hlt] at hset
    · intro hall d hd
      have hdec := mem_predecessors_declared h hd
      rw [hs d hdec.1, if_pos (hall d (mem_ups.mpr ⟨hd, hdec.1⟩))]
      exact .inl rfl
  have hstate : states.getD node.nodeId pending =
      if depth dag node.nodeId < k then succeeded else pending := by
    rw [Dict.getD, hs _ hin, getD_some]
  rw [Bool.eq_iff_iff]
  simp only [Bool.and_eq_true, decide_eq_true_eq, hne, not_false_eq_true, ne_eq, true_and,
    not_mem_nil, hstate, Bool.or_eq_true, List.all_eq_true, and_true]
  change (_ ∧ ∀ d ∈ predecessors dag node.nodeId, _) ↔ _
  rw [hpred]
  by_cases hlt : depth dag node.nodeId < k
  · simp [hlt]
    omega
  · simp [hlt]
    omega

theorem readyWaves_stage {rounds k : Nat} (hs : Stage dag k states)
    (hrounds : height dag - k ≤ rounds) :
    readyWaves dag rounds states = (List.range' k (height dag - k)).map (layer dag) := by
  induction rounds generalizing k states with
  | zero =>
    rw [Nat.le_zero.mp hrounds]
    rfl
  | succ rounds ih =>
    unfold readyWaves
    rw [readySet_stage h hs]
    dsimp only
    split
    · rename_i hnil
      rw [Nat.sub_eq_zero_of_le ((layer_eq_nil_iff h).mp hnil)]
      rfl
    · rename_i hne
      have hlt : k < height dag := by
        by_contra hle
        exact hne ((layer_eq_nil_iff h).mpr (by omega))
      obtain ⟨m, hm⟩ : ∃ m, height dag - k = m + 1 := ⟨height dag - k - 1, by omega⟩
      have hrest : height dag - (k + 1) = m := by omega
      rw [ih hs.next (by omega), hm, hrest, range'_succ, map_cons]

end Rounds

/-! ## The waves -/

theorem getD_order {dag : WorkflowDAG} (h : dag.nodeIds.Nodup) {i : Nat}
    (hi : i < dag.nodeIds.length) :
    (ofList dag.nodeIds.zipIdx : Dict String Nat).getD dag.nodeIds[i] 0 = i := by
  have hkeys : (dag.nodeIds.zipIdx.map Prod.fst).Nodup := by rwa [zipIdx_map_fst]
  have hfind : (ofList dag.nodeIds.zipIdx : Dict String Nat).find dag.nodeIds[i] = some i := by
    rw [find_eq_some, items_ofList hkeys, mk_mem_zipIdx_iff_getElem?]
    exact getElem?_eq_getElem hi
  rw [Dict.getD, hfind, getD_some]

section Waves

variable {dag : WorkflowDAG} (h : Resolved dag)

include h

theorem nodeIds_sorted : dag.nodeIds.Pairwise fun a b =>
    (ofList dag.nodeIds.zipIdx : Dict String Nat).getD a 0 ≤
      (ofList dag.nodeIds.zipIdx : Dict String Nat).getD b 0 := by
  rw [pairwise_iff_getElem]
  intro i j hi hj hij
  rw [getD_order (nodup_nodeIds h) hi, getD_order (nodup_nodeIds h) hj]
  exact hij.le

theorem order_inj {a b : String} (ha : a ∈ dag.nodeIds) (hb : b ∈ dag.nodeIds)
    (hab : (ofList dag.nodeIds.zipIdx : Dict String Nat).getD a 0 =
      (ofList dag.nodeIds.zipIdx : Dict String Nat).getD b 0) : a = b := by
  obtain ⟨i, hi, rfl⟩ := getElem_of_mem ha
  obtain ⟨j, hj, rfl⟩ := getElem_of_mem hb
  rw [getD_order (nodup_nodeIds h) hi, getD_order (nodup_nodeIds h) hj] at hab
  subst hab
  rfl

theorem mem_items_nodeLevels {n : String} {k : Nat} :
    (n, k) ∈ (nodeLevels dag).items ↔ n ∈ dag.nodeIds ∧ depth dag n = k := by
  rw [← find_eq_some]
  constructor
  · intro hfind
    have hn : n ∈ dag.nodeIds :=
      ((leveled h).cover n).mpr (.inl (mem_keys_iff.mpr ⟨k, hfind⟩))
    rw [find_nodeLevels h hn, some.injEq] at hfind
    exact ⟨hn, hfind⟩
  · rintro ⟨hn, rfl⟩
    exact find_nodeLevels h hn

theorem dagWaves_eq : dagWaves dag = (List.range (height dag)).map (layer dag) := by
  have hfold : (nodeLevels dag).items.foldl (fun waves p => waves.push p.2 p.1)
      (Dict.empty : Dict Nat (List String)) =
      ((nodeLevels dag).items.map Prod.swap).foldl (fun d kv => d.push kv.1 kv.2) Dict.empty := by
    rw [foldl_map]
    rfl
  have hkeys : (((nodeLevels dag).items.map Prod.swap).foldl (fun d kv => d.push kv.1 kv.2)
      (Dict.empty : Dict Nat (List String))).keys.insertionSort (· ≤ ·) =
      List.range (height dag) := by
    refine List.Perm.eq_of_pairwise' (pairwise_insertionSort _ _)
      (pairwise_le_range) ((perm_insertionSort _ _).trans ?_)
    refine (perm_ext_iff_of_nodup (Table.unique _) nodup_range).mpr fun k => ?_
    change k ∈ Dict.keys _ ↔ _
    rw [mem_keys_foldl_push, mem_range, lt_height_iff, or_iff_right (by
      simp [mem_keys_iff])]
    simp only [List.mem_map, Prod.exists, Prod.swap_prod_mk]
    constructor
    · rintro ⟨_, _, ⟨n, l, hmem, heq⟩, rfl⟩
      obtain ⟨rfl, rfl⟩ := Prod.mk.inj heq
      obtain ⟨hn, hd⟩ := (mem_items_nodeLevels h).mp hmem
      exact ⟨n, hn, hd.ge⟩
    · rintro ⟨n, hn, hk⟩
      obtain ⟨m, hm, hd⟩ := exists_depth h hn hk
      exact ⟨k, m, ⟨m, k, (mem_items_nodeLevels h).mpr ⟨hm, hd⟩, rfl⟩, rfl⟩
  unfold dagWaves
  dsimp only
  rw [hfold, hkeys]
  refine map_congr_left fun k _ => ?_
  have hwave : ((((nodeLevels dag).items.map Prod.swap).foldl (fun d kv => d.push kv.1 kv.2)
      (Dict.empty : Dict Nat (List String))).getD k []).Perm (layer dag k) := by
    rw [getD_foldl_push]
    have hnodup : (((nodeLevels dag).items.map Prod.swap).filter fun kv => kv.1 = k).map
        Prod.snd = ((nodeLevels dag).items.filter fun kv => kv.2 = k).map Prod.fst := by
      rw [List.filter_map, List.map_map]
      rfl
    rw [hnodup]
    refine (perm_ext_iff_of_nodup ?_ ((nodup_nodeIds h).filter _)).mpr fun n => ?_
    · exact (nodeLevels dag).unique.sublist (filter_sublist.map Prod.fst)
    · simp only [Dict.getD, find_empty, getD_none, nil_append, List.mem_map, mem_filter,
        Prod.exists, exists_and_right, exists_eq_right, decide_eq_true_eq, mem_items_nodeLevels h]
  have htotal : Std.Total fun a b : String =>
      (ofList dag.nodeIds.zipIdx : Dict String Nat).getD a 0 ≤
        (ofList dag.nodeIds.zipIdx : Dict String Nat).getD b 0 := ⟨fun _ _ => le_total _ _⟩
  have htrans : IsTrans String fun a b =>
      (ofList dag.nodeIds.zipIdx : Dict String Nat).getD a 0 ≤
        (ofList dag.nodeIds.zipIdx : Dict String Nat).getD b 0 := ⟨fun _ _ _ => le_trans⟩
  refine List.Perm.eq_of_pairwise ?_ (pairwise_insertionSort _ _)
    ((nodeIds_sorted h).filter _) ((perm_insertionSort _ _).trans hwave)
  intro a b ha hb hab hba
  have ha' : a ∈ layer dag k := hwave.mem_iff.mp ((mem_insertionSort _).mp ha)
  exact order_inj h (mem_of_mem_filter ha') (mem_of_mem_filter hb) (le_antisymm hab hba)

/-- The waves of a plan are the batches of the driver; every node is in one of them, once, and
    what it waits for is in an earlier one. -/
theorem waves_refine :
    (∀ rounds, dag.nodes.length ≤ rounds → readyWaves dag rounds (allPending dag) = dagWaves dag) ∧
    (dagWaves dag).flatten.Perm dag.nodeIds ∧
    ∀ a b, a ∈ predecessors dag b → ∃ i j : Nat, i < j ∧
      (∃ wave, (dagWaves dag)[i]? = some wave ∧ a ∈ wave) ∧
      ∃ wave, (dagWaves dag)[j]? = some wave ∧ b ∈ wave := by
  rw [dagWaves_eq h]
  refine ⟨?_, ?_, ?_⟩
  · intro rounds hrounds
    rw [readyWaves_stage h (stage_allPending dag) (by have := height_le h; omega),
      range_eq_range']
    rfl
  · have hnodup : ((List.range (height dag)).flatMap (layer dag)).Nodup := by
      refine nodup_flatMap.mpr ⟨fun k _ => (nodup_nodeIds h).filter _, ?_⟩
      refine nodup_range.imp fun {j k} hjk n hj hk => hjk ?_
      rw [← of_decide_eq_true (mem_filter.mp hj).2, ← of_decide_eq_true (mem_filter.mp hk).2]
    rw [← flatMap_def]
    refine (perm_ext_iff_of_nodup hnodup (nodup_nodeIds h)).mpr fun n => ?_
    simp only [mem_flatMap, mem_range, layer, mem_filter, decide_eq_true_eq]
    constructor
    · rintro ⟨-, -, hn, -⟩
      exact hn
    · intro hn
      exact ⟨depth dag n, lt_height_iff.mpr ⟨n, hn, le_refl _⟩, hn, rfl⟩
  · intro a b hab
    obtain ⟨ha, hb⟩ := mem_predecessors_declared h hab
    have hlt : depth dag a < depth dag b :=
      (depth_le_iff h hb).mp (le_refl _) a (mem_ups.mpr ⟨hab, ha⟩)
    have hwave : ∀ n ∈ dag.nodeIds, ∃ wave,
        ((List.range (height dag)).map (layer dag))[depth dag n]? = some wave ∧ n ∈ wave := by
      intro n hn
      refine ⟨layer dag (depth dag n), ?_, by simp [layer, hn]⟩
      rw [getElem?_map, getElem?_range (lt_height_iff.mpr ⟨n, hn, le_refl _⟩)]
      rfl
    exact ⟨depth dag a, depth dag b, hlt, hwave a ha, hwave b hb⟩

end Waves

/-- A source, two nodes on it and one on both of these, the last of them declared first. -/
def diamond : WorkflowDAG where
  nodes := [{ nodeId := "merge", dependsOn := ["right"] }, { nodeId := "source" },
    { nodeId := "left" }, { nodeId := "right", dependsOn := ["source"] }]
  edges := [{ src := "source.data", dst := "left.in" }, { src := "left.out", dst := "merge.in" }]

theorem diamond_resolved : Resolved diamond where
  distinct := by decide
  named := by decide
  edges := by decide
  dependencies := by decide
  acyclic := by
    have hrank : ∀ p ∈ (upstreamOf diamond).items, ∀ a ∈ p.2,
        ["source", "left", "right", "merge"].idxOf a <
          ["source", "left", "right", "merge"].idxOf p.1 := by decide
    refine acyclic_of_rank (["source", "left", "right", "merge"].idxOf ·) fun a b hab => ?_
    obtain ⟨as, has, ha⟩ := mem_getD.mp hab
    exact hrank (b, as) has a ha

theorem diamond_waves :
    (∀ rounds, 4 ≤ rounds → readyWaves diamond rounds (allPending diamond) = dagWaves diamond) ∧
    (dagWaves diamond).flatten.Perm diamond.nodeIds ∧
    ∀ a b, a ∈ predecessors diamond b → ∃ i j : Nat, i < j ∧
      (∃ wave, (dagWaves diamond)[i]? = some wave ∧ a ∈ wave) ∧
      ∃ wave, (dagWaves diamond)[j]? = some wave ∧ b ∈ wave :=
  waves_refine diamond_resolved

/-- A node is in no later wave than its turn in any order in which its predecessors have earlier
    turns, so no plan has fewer waves. -/
theorem waves_earliest {dag : WorkflowDAG} (h : Resolved dag) (turn : String → Nat)
    (hturn : ∀ a b, a ∈ predecessors dag b → turn a < turn b) :
    (∀ i wave n, (dagWaves dag)[i]? = some wave → n ∈ wave → i ≤ turn n) ∧
      ∀ i < (dagWaves dag).length, ∃ n ∈ dag.nodeIds, i ≤ turn n := by
  have hle : ∀ k, ∀ n ∈ dag.nodeIds, turn n = k → depth dag n ≤ k := by
    intro k
    induction k using Nat.strong_induction_on with
    | _ k ih =>
      rintro n hn rfl
      refine (depth_le_iff h hn).mpr fun u hu => ?_
      obtain ⟨hpred, hmem⟩ := mem_ups.mp hu
      have hlt := hturn u n hpred
      exact (ih (turn u) hlt u hmem rfl).trans_lt hlt
  rw [dagWaves_eq h]
  refine ⟨fun i wave n hwave hn => ?_, fun i hi => ?_⟩
  · rw [getElem?_map] at hwave
    obtain ⟨k, hk, rfl⟩ := Option.map_eq_some_iff.mp hwave
    obtain ⟨hmem, hdepth⟩ := mem_filter.mp hn
    obtain ⟨_, rfl⟩ := List.getElem?_eq_some_iff.mp hk
    rw [getElem_range] at hdepth
    exact (of_decide_eq_true hdepth).ge.trans (hle _ n hmem rfl)
  · rw [length_map, length_range] at hi
    obtain ⟨n, hn, hdepth⟩ := lt_height_iff.mp hi
    exact ⟨n, hn, hdepth.trans (hle _ n hn rfl)⟩

theorem waves_earliest_diamond : diamond.nodeIds.length = 4 ∧
    ∀ i < (dagWaves diamond).length, ∃ n ∈ diamond.nodeIds, i ≤ depth diamond n := by
  refine ⟨rfl, (waves_earliest diamond_resolved (depth diamond) fun a b hab => ?_).2⟩
  obtain ⟨ha, hb⟩ := mem_predecessors_declared diamond_resolved hab
  exact (depth_le_iff diamond_resolved hb).mp le_rfl a (mem_ups.mpr ⟨hab, ha⟩)

end WebGis.Workflow
