/-
  The compiled graph of a workflow: its nodes and edges, who is upstream of whom, and which
  nodes are ready.

  An endpoint of an edge is `node` or `node.port`. Dependencies come from the edges and
  from the `depends_on` lists of the nodes. Fields of the compiled form that no function
  here reads are left out.

  Which nodes a change affects: the pure part of a recomputation.

  A change names a dimension and a target; the targets give seeds in the compiled graph, and
  everything downstream of a seed is to be computed again. The sets of the source are lists
  here, in the order of the graph; what is read off them is sorted or a set again, but for the
  first seed that an explanation of a `recipe` change names.
-/
import WebGis.Data.Reach
import WebGis.Workflow.Contracts

namespace WebGis.Workflow

open Data NodeState List Dict

/-! ## The compiled form -/

structure WorkflowNode where
  nodeId : String
  kind : String := ""
  capability : String := ""
  algorithmId : String := ""
  inputs : List String := []
  dependsOn : List String := []
  optional : Bool := false
  sideEffect : String := ""
  params : Dict String Json := empty
  /-- The names in `parameters`. -/
  parameters : List String := []
  priority : Int := 5

/-- An edge, its ends under `from` and `to`. -/
structure WorkflowEdge where
  src : String
  dst : String

structure WorkflowDAG where
  nodes : List WorkflowNode
  edges : List WorkflowEdge
  compilerVersion : String := ""
  methodologyFingerprint : String := ""

namespace WorkflowDAG

/-- `_dag_node` -/
def node (dag : WorkflowDAG) (nodeId : String) : Option WorkflowNode :=
  dag.nodes.find? fun n => n.nodeId = nodeId

/-- The ids of the nodes, without the empty one. -/
def nodeIds (dag : WorkflowDAG) : List String :=
  (dag.nodes.map WorkflowNode.nodeId).filter (· ≠ "")

end WorkflowDAG

/-- `_node_side_effect` -/
def WorkflowNode.effectiveSideEffect (n : WorkflowNode) : String :=
  if n.sideEffect ≠ "" then n.sideEffect
  else if n.kind = "data_input" then "derived_external"
  else "pure"

/-- `_node_priority` -/
def WorkflowNode.dispatchPriority (n : WorkflowNode) : Int :=
  if -10 ≤ n.priority ∧ n.priority ≤ 10 then n.priority else 5

/-! ## Edges -/

/-- `_norm`: the node an endpoint belongs to. -/
def normEndpoint (nodeIds : List String) (ep : String) : String :=
  if ep ∈ nodeIds then ep
  else match rpartition '.' ep with
    | some (head, _) => if head ≠ "" ∧ head ∈ nodeIds then head else ep
    | none => ep

/-- Every node with its direct successors, along the edges and then the dependencies. -/
def buildAdjacency (dag : WorkflowDAG) : Dict String (List String) :=
  let ids := dag.nodeIds
  let alongEdges := dag.edges.foldl (fun adjacency e =>
    let src := normEndpoint ids e.src
    let dst := normEndpoint ids e.dst
    if src ≠ "" ∧ dst ≠ "" then adjacency.push src dst else adjacency) empty
  dag.nodes.foldl (fun adjacency n =>
    n.dependsOn.foldl (fun adjacency dep => adjacency.push dep n.nodeId) adjacency) alongEdges

/-- Every node with its direct predecessors. -/
def upstreamOf (dag : WorkflowDAG) : Dict String (List String) :=
  (buildAdjacency dag).items.foldl (fun upstream p =>
    p.2.foldl (fun upstream dst => upstream.push dst p.1) upstream) empty

/-- The node and the port of an endpoint; without a dot, or when what stands before it is
    no node, the endpoint is the node. -/
def splitEndpoint (nodeIds : List String) (raw : String) : String × String :=
  match rpartition '.' raw with
  | some (head, port) => (if head ∈ nodeIds then head else raw, port)
  | none => (raw, "")

/-- Every node with the sources of its edges and the ports they lead to, in the order of
    the edges. -/
def upstreamPorts (dag : WorkflowDAG) : Dict String (List (String × String)) :=
  let ids := dag.nodeIds
  dag.edges.foldl (fun out e =>
    let (dst, port) := splitEndpoint ids e.dst
    let (src, _) := splitEndpoint ids e.src
    if dst ≠ "" ∧ src ≠ "" then out.push dst (src, port) else out) empty

/-! ## Readiness -/

/-- `READY` and `PENDING` nodes whose direct predecessors all succeeded or were skipped,
    in the order of their declaration. -/
def readySet (dag : WorkflowDAG) (nodeStates : States) (skipDecided : List String := []) :
    List String :=
  let upstream := upstreamOf dag
  (dag.nodes.map WorkflowNode.nodeId).filter fun nid =>
    nid ≠ "" && nid ∉ skipDecided &&
      (let st := nodeStates.getD nid pending
       st = ready || st = pending) &&
      (upstream.getD nid []).all fun d =>
        nodeStates.find d = some succeeded || nodeStates.find d = some skipped

/-! ## Closures -/

/-- The direct successors of a node. -/
def successors (dag : WorkflowDAG) (nodeId : String) : List String :=
  (buildAdjacency dag).getD nodeId []

/-- The direct predecessors of a node. -/
def predecessors (dag : WorkflowDAG) (nodeId : String) : List String :=
  (upstreamOf dag).getD nodeId []

/-- The targets of all edges and dependencies. -/
def targets (dag : WorkflowDAG) : List String := (buildAdjacency dag).items.flatMap Prod.snd

/-- `downstream_closure`: all that the seeds lead to, by one step or more. Each push is of a
    target that was not pushed before, so the fuel suffices. -/
def downstreamClosure (dag : WorkflowDAG) (seeds : List String) : List String :=
  search (successors dag) (seeds.length + (targets dag).length) seeds []

variable {dag : WorkflowDAG}

theorem mem_predecessors {a b : String} : a ∈ predecessors dag b ↔ b ∈ successors dag a := by
  have hflat : upstreamOf dag = ((buildAdjacency dag).items.flatMap fun p =>
      p.2.map fun dst => (dst, p.1)).foldl (fun d kv => d.push kv.1 kv.2) empty := by
    rw [foldl_flatMap]
    simp only [foldl_map]
    rfl
  unfold predecessors successors
  rw [hflat, mem_foldl_push, mem_getD (d := buildAdjacency dag)]
  simp only [mem_flatMap, mem_map, Prod.mk.injEq]
  constructor
  · rintro (h | ⟨⟨x, dsts⟩, hx, dst, hdst, rfl, rfl⟩)
    · cases h
    · exact ⟨dsts, hx, hdst⟩
  · rintro ⟨dsts, hx, hdst⟩
    exact .inr ⟨(a, dsts), hx, b, hdst, rfl, rfl⟩

theorem mem_targets {a b : String} (h : b ∈ successors dag a) : b ∈ targets dag := by
  obtain ⟨dsts, hd, hb⟩ := mem_getD.mp h
  exact mem_flatMap.mpr ⟨(a, dsts), hd, hb⟩

variable {n : String}

theorem mem_downstreamClosure {seeds : List String} :
    n ∈ downstreamClosure dag seeds ↔
      ∃ s ∈ seeds, Relation.TransGen (fun a b => b ∈ successors dag a) s n :=
  mem_search (fun _ _ => mem_targets) (Nat.le_refl _)

/-- A graph as validation leaves it: distinct ids, dependencies between declared nodes, no
    cycle. -/
structure WorkflowDAG.Valid (dag : WorkflowDAG) : Prop where
  distinct : (dag.nodes.map WorkflowNode.nodeId).Nodup
  declared : ∀ a b, a ∈ predecessors dag b → a ∈ dag.nodeIds
  acyclic : Acyclic fun a b => a ∈ predecessors dag b

theorem WorkflowDAG.valid_of_order (hdistinct : (dag.nodes.map WorkflowNode.nodeId).Nodup)
    (h : ∀ p ∈ (upstreamOf dag).items, ∀ a ∈ p.2,
      a ∈ dag.nodeIds ∧ dag.nodeIds.idxOf a < dag.nodeIds.idxOf p.1) : dag.Valid := by
  have hpred : ∀ a b, a ∈ predecessors dag b →
      a ∈ dag.nodeIds ∧ dag.nodeIds.idxOf a < dag.nodeIds.idxOf b := by
    intro a b hab
    obtain ⟨as, has, ha⟩ := mem_getD.mp hab
    exact h (b, as) has a ha
  exact
    { distinct := hdistinct
      declared := fun a b hab => (hpred a b hab).1
      acyclic := acyclic_of_rank dag.nodeIds.idxOf fun a b hab => (hpred a b hab).2 }

open Data Relation

structure WorkflowChange where
  dimension : String
  targetKind : String
  target : String := ""
  detail : String := ""

structure RecomputePlan where
  recompute : List String := []
  reuse : List String := []
  reuseArtifacts : List String := []
  changedDimensions : List String := []
  explanations : List String := []

def recomputeDimensions : List String := ["data", "algorithm", "parameter", "style", "output"]

/-- The node that owns each parameter; a later node takes a name over. -/
def paramOwners (dag : WorkflowDAG) : Dict String String :=
  dag.nodes.foldl (fun owners n =>
    (n.parameters.filter (· ≠ "")).foldl (fun owners p => owners.set p n.nodeId) owners) empty

def seedNodes (dag : WorkflowDAG) (change : WorkflowChange) : List String :=
  match change.targetKind with
  | "data_role" => ["data:" ++ change.target].filter (· ∈ dag.nodeIds)
  | "parameter" => ((paramOwners dag).find change.target).toList.filter (· ≠ "")
  | "recipe" => dag.nodeIds
  | "algorithm" | "node" | "style" | "output" => [change.target].filter (· ∈ dag.nodeIds)
  | _ => []

/-- `adjacency`: the edges between nodes, then the dependencies. -/
def dataflow (dag : WorkflowDAG) : Dict String (List String) :=
  let ids := dag.nodeIds
  let alongEdges := dag.edges.foldl (fun adjacency e =>
    adjacency.push (normEndpoint ids e.src) (normEndpoint ids e.dst)) empty
  dag.nodes.foldl (fun adjacency n =>
    n.dependsOn.foldl (fun adjacency dep => adjacency.push dep n.nodeId) adjacency) alongEdges

/-- The nodes that data or a dependency leads to from a node. -/
def flowsTo (dag : WorkflowDAG) (nodeId : String) : List String := (dataflow dag).getD nodeId []

/-- The changes along a dimension that exists. -/
def countedChanges (changes : List WorkflowChange) : List WorkflowChange :=
  changes.filter fun ch => ch.dimension ∈ recomputeDimensions

/-- The line that explains a change. -/
def explainChange (dag : WorkflowDAG) (ch : WorkflowChange) : String :=
  if ch.targetKind = "style" then "style:" ++ ch.target ++ " → 呈现态变更，科学子图零触碰"
  else match seedNodes dag ch with
    | first :: _ => ch.dimension ++ ":" ++ ch.targetKind ++ ":" ++ ch.target ++ " → " ++ first
    | [] => ch.targetKind ++ ":" ++ ch.target ++ " → 图中无对应节点（no-op）"

/-- `dirty`: the seeds and everything downstream of them. -/
def dirtyNodes (dag : WorkflowDAG) (changes : List WorkflowChange) : List String :=
  ((countedChanges changes).flatMap (seedNodes dag)).foldl
    (mark (flowsTo dag) dag.nodeIds dag.nodeIds.length) []

/-- `sorted` -/
def sortedIds (ids : List String) : List String := ids.insertionSort (· ≤ ·)

def computeAffectedSubgraph (dag : WorkflowDAG) (changes : List WorkflowChange) : RecomputePlan :=
  let dirty := dirtyNodes dag changes
  let reuse := sortedIds (dag.nodeIds.eraseDups.filter (· ∉ dirty))
  { recompute := sortedIds dirty
    reuse
    reuseArtifacts := reuse.filter (startsWith "output:")
    changedDimensions := ((countedChanges changes).map WorkflowChange.dimension).eraseDups
    explanations := (countedChanges changes).map (explainChange dag) }

variable {changes : List WorkflowChange}

/-- What is computed again is exactly what a seed of a change leads to in the graph, by data or
    by dependencies, the seeds included. -/
theorem mem_recompute :
    n ∈ (computeAffectedSubgraph dag changes).recompute ↔
      ∃ ch ∈ countedChanges changes, ∃ s ∈ seedNodes dag ch, s ∈ dag.nodeIds ∧
        ReflTransGen (Within (flowsTo dag) dag.nodeIds) s n := by
  have hsorted : n ∈ (computeAffectedSubgraph dag changes).recompute ↔ n ∈ dirtyNodes dag changes :=
    (perm_insertionSort _ _).mem_iff
  rw [hsorted, dirtyNodes, mem_mark (Nat.le_refl _)]
  simp only [mem_flatMap]
  constructor
  · rintro ⟨s, ⟨ch, hch, hs⟩, h⟩
    exact ⟨ch, hch, s, hs, h⟩
  · rintro ⟨ch, hch, s, hs, h⟩
    exact ⟨s, ⟨ch, hch, hs⟩, h⟩

theorem mem_reuse :
    n ∈ (computeAffectedSubgraph dag changes).reuse ↔
      n ∈ dag.nodeIds ∧ n ∉ (computeAffectedSubgraph dag changes).recompute := by
  have hsorted : n ∈ (computeAffectedSubgraph dag changes).recompute ↔ n ∈ dirtyNodes dag changes :=
    (perm_insertionSort _ _).mem_iff
  have hreuse : n ∈ (computeAffectedSubgraph dag changes).reuse ↔
      n ∈ dag.nodeIds.eraseDups.filter (· ∉ dirtyNodes dag changes) :=
    (perm_insertionSort _ _).mem_iff
  rw [hsorted, hreuse, mem_filter, mem_eraseDups, decide_eq_true_eq]

/-! ## Changes as the runtime gets them -/

def pendingToWorkflowChanges (changes : List PendingChange) : List WorkflowChange :=
  (changes.take maxApplyChanges).map fun ch =>
    { dimension := ch.dimension, targetKind := ch.targetKind, target := ch.target
      detail := if ch.detail ≠ "" then ch.detail else ch.source }

def planForChanges (dag : WorkflowDAG) (changes : List PendingChange) : RecomputePlan :=
  computeAffectedSubgraph dag (pendingToWorkflowChanges changes)

def isStyleOnly (plan : RecomputePlan) : Bool := plan.changedDimensions = ["style"]

def explanations (plan : RecomputePlan) (marked : List String) (styleOnly : Bool) : List String :=
  if styleOnly then ["style 变更：呈现态刷新，科学子图零触碰"]
  else
    let reuse := plan.reuse.filter fun n => !startsWith "data:" n
    let lines := plan.explanations.take 4 ++
      (if marked = [] then [] else
        ["标记 STALE " ++ toString marked.length ++ " 节点: " ++ join "," (marked.take 6)]) ++
      (if reuse = [] then [] else
        ["未受影响节点 " ++ toString reuse.length ++ " 个保持复用: " ++ join "," (reuse.take 6)])
    (lines.take 6).map (clip 200)

end WebGis.Workflow
