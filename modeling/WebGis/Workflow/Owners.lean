/-
  Which nodes a change names, and what `compute_affected_subgraph` makes of it.

  A change of a parameter names every node that declares it; the source keeps one owner for a
  name, the last node that declares it. What it computes again is therefore a part of what is
  affected, and all of it exactly when the other nodes that declare the parameter are led to from
  a node that the source picks (`recompute_exact_iff`).
-/
import WebGis.Data.Total
import WebGis.Workflow.Dag

namespace WebGis.Workflow

open Data Relation List

/-- Data flows along an edge between two nodes, or one names the other in its `depends_on`. -/
def Feeds (dag : WorkflowDAG) (a b : String) : Prop :=
  b ∈ dag.nodeIds ∧
    ((∃ e ∈ dag.edges, normEndpoint dag.nodeIds e.src = a ∧ normEndpoint dag.nodeIds e.dst = b) ∨
      ∃ n ∈ dag.nodes, n.nodeId = b ∧ a ∈ n.dependsOn)

/-- The nodes that a change names, with `owns` for the nodes that have a parameter. -/
def NamedBy (owns : String → String → Prop) (dag : WorkflowDAG) (ch : WorkflowChange)
    (nodeId : String) : Prop :=
  nodeId ∈ dag.nodeIds ∧
    match ch.targetKind with
    | "data_role" => nodeId = "data:" ++ ch.target
    | "parameter" => owns ch.target nodeId
    | "recipe" => True
    | "algorithm" | "node" | "style" | "output" => nodeId = ch.target
    | _ => False

/-- A node declares a parameter of that name. -/
def Declares (dag : WorkflowDAG) (name nodeId : String) : Prop :=
  ∃ n ∈ dag.nodes, n.nodeId = nodeId ∧ name ∈ n.parameters

/-- The last node that declares a parameter of that name. -/
def LastDeclares (dag : WorkflowDAG) (name nodeId : String) : Prop :=
  name ≠ "" ∧ ∃ n, (dag.nodes.reverse.find? fun n => name ∈ n.parameters) = some n ∧ n.nodeId = nodeId

/-- What a node leads to, itself included. -/
def Leads (dag : WorkflowDAG) : String → String → Prop := ReflTransGen (Feeds dag)

/-- The nodes that the changes affect. -/
def Affected (dag : WorkflowDAG) (changes : List WorkflowChange) (nodeId : String) : Prop :=
  ∃ ch ∈ changes, ∃ s, NamedBy (Declares dag) dag ch s ∧ Leads dag s nodeId

/-! ## The graph -/

variable {dag : WorkflowDAG}

theorem mem_flowsTo {a b : String} :
    b ∈ flowsTo dag a ↔
      (∃ e ∈ dag.edges, normEndpoint dag.nodeIds e.src = a ∧ normEndpoint dag.nodeIds e.dst = b) ∨
        ∃ n ∈ dag.nodes, n.nodeId = b ∧ a ∈ n.dependsOn := by
  have hflat : dataflow dag = (dag.edges.map (fun e => (normEndpoint dag.nodeIds e.src,
        normEndpoint dag.nodeIds e.dst)) ++ dag.nodes.flatMap fun n =>
      n.dependsOn.map fun dep => (dep, n.nodeId)).foldl (fun d kv => d.push kv.1 kv.2) Dict.empty := by
    rw [foldl_append, foldl_map, foldl_flatMap]
    simp only [foldl_map]
    rfl
  unfold flowsTo
  rw [hflat, Dict.mem_foldl_push]
  simp only [mem_append, mem_map, mem_flatMap, Prod.mk.injEq]
  constructor
  · rintro (h | ⟨e, he, hs, hd⟩ | ⟨n, hn, dep, hdep, rfl, rfl⟩)
    · exact absurd h (by simp [Dict.getD])
    · exact .inl ⟨e, he, hs, hd⟩
    · exact .inr ⟨n, hn, rfl, hdep⟩
  · rintro (⟨e, he, hs, hd⟩ | ⟨n, hn, rfl, hdep⟩)
    · exact .inr (.inl ⟨e, he, hs, hd⟩)
    · exact .inr (.inr ⟨n, hn, a, hdep, rfl, rfl⟩)

theorem within_flowsTo : Within (flowsTo dag) dag.nodeIds = Feeds dag := by
  funext a b
  simp only [Within, Feeds, mem_flowsTo, and_comm]

/-! ## The seeds -/

variable {name nodeId : String}

theorem find_paramOwners :
    (paramOwners dag).find name = some nodeId ↔ LastDeclares dag name nodeId := by
  have hfold : ∀ (nodes : List WorkflowNode) (owners : Dict String String), name ≠ "" →
      (nodes.foldl (fun owners n => (n.parameters.filter (· ≠ "")).foldl
        (fun owners p => owners.set p n.nodeId) owners) owners).find name =
      ((nodes.reverse.find? fun n => name ∈ n.parameters).map WorkflowNode.nodeId).or
        (owners.find name) := by
    intro nodes
    induction nodes with
    | nil => simp
    | cons n rest ih =>
      intro owners hname
      rw [foldl_cons, ih _ hname, Dict.find_foldl_const, reverse_cons, find?_append,
        Option.map_or, Option.or_assoc]
      by_cases hn : name ∈ n.parameters <;> simp [hn, hname]
  have hnone : ∀ (nodes : List WorkflowNode) (owners : Dict String String), name = "" →
      (nodes.foldl (fun owners n => (n.parameters.filter (· ≠ "")).foldl
        (fun owners p => owners.set p n.nodeId) owners) owners).find name = owners.find name := by
    intro nodes
    induction nodes with
    | nil => simp
    | cons n rest ih =>
      intro owners hname
      rw [foldl_cons, ih _ hname, Dict.find_foldl_const, if_neg (by simp [hname])]
  unfold paramOwners LastDeclares
  by_cases hname : name = ""
  · rw [hnone _ _ hname]
    simp [hname]
  · rw [hfold _ _ hname]
    simp [hname]

variable {ch : WorkflowChange}

theorem mem_seedNodes :
    nodeId ∈ seedNodes dag ch ∧ nodeId ∈ dag.nodeIds ↔
      NamedBy (LastDeclares dag) dag ch nodeId := by
  have hne : nodeId ∈ dag.nodeIds → nodeId ≠ "" := by
    intro h he
    simp [he, WorkflowDAG.nodeIds] at h
  obtain ⟨dimension, targetKind, target, detail⟩ := ch
  have hself : ∀ x, nodeId ∈ dag.nodeIds →
      (nodeId ∈ [x].filter (fun s => decide (s ∈ dag.nodeIds)) ↔ nodeId = x) := by
    intro x hin
    rw [mem_filter, mem_singleton, decide_eq_true_eq]
    exact ⟨fun h => h.1, fun h => ⟨h, h ▸ hin⟩⟩
  unfold NamedBy seedNodes
  rw [and_comm]
  refine and_congr_right fun hin => ?_
  dsimp only
  split
  · exact hself _ hin
  · simp only [mem_filter, Option.mem_toList, find_paramOwners, decide_eq_true_eq]
    exact ⟨fun h => h.1, fun h => ⟨h, hne hin⟩⟩
  · exact iff_of_true hin trivial
  · exact hself _ hin
  · exact hself _ hin
  · exact hself _ hin
  · exact hself _ hin
  · rename_i hdata hparam hrecipe halgorithm hnode hstyle houtput
    refine iff_of_false not_mem_nil fun h => ?_
    simp_all

theorem namedBy_mono {owns owns' : String → String → Prop}
    (h : ∀ name n, owns name n → owns' name n) (hn : NamedBy owns dag ch nodeId) :
    NamedBy owns' dag ch nodeId := by
  refine ⟨hn.1, ?_⟩
  have hkind := hn.2
  split at hkind
  · exact hkind
  · exact h _ _ hkind
  all_goals trivial

theorem LastDeclares.declares (h : LastDeclares dag name nodeId) : Declares dag name nodeId := by
  obtain ⟨-, n, hfind, hid⟩ := h
  have hdeclared : name ∈ n.parameters := by simpa using find?_some hfind
  exact ⟨n, mem_reverse.mp (mem_of_find?_eq_some hfind), hid, hdeclared⟩

/-! ## What is computed again -/

/-- What the changes lead to from the nodes that the source picks. -/
def Picked (dag : WorkflowDAG) (changes : List WorkflowChange) (nodeId : String) : Prop :=
  ∃ ch ∈ changes, ∃ s, NamedBy (LastDeclares dag) dag ch s ∧ Leads dag s nodeId

theorem mem_recompute_iff {changes : List WorkflowChange}
    (hknown : ∀ ch ∈ changes, ch.dimension ∈ recomputeDimensions) {n : String} :
    n ∈ (computeAffectedSubgraph dag changes).recompute ↔ Picked dag changes n := by
  have hcounted : countedChanges changes = changes :=
    filter_eq_self.mpr fun ch hch => decide_eq_true (hknown ch hch)
  rw [mem_recompute, hcounted, within_flowsTo]
  simp only [Picked, Leads, ← mem_seedNodes, and_assoc]

/-- What is computed again and what is reused are what the changes affect and the rest, exactly
    when every node that declares a changed parameter is led to from a node that a change picks,
    which for a parameter is the last node that declares it. -/
theorem recompute_exact_iff (dag : WorkflowDAG) (changes : List WorkflowChange)
    (hknown : ∀ ch ∈ changes, ch.dimension ∈ recomputeDimensions) :
    (∀ n, (n ∈ (computeAffectedSubgraph dag changes).recompute ↔ Affected dag changes n) ∧
      (n ∈ (computeAffectedSubgraph dag changes).reuse ↔
        n ∈ dag.nodeIds ∧ ¬ Affected dag changes n)) ↔
      ∀ ch ∈ changes, ch.targetKind = "parameter" → ∀ n, n ∈ dag.nodeIds →
        Declares dag ch.target n → Picked dag changes n := by
  constructor
  · intro h ch hch hkind n hn hdeclares
    refine (mem_recompute_iff hknown).mp ((h n).1.mpr ⟨ch, hch, n, ⟨hn, ?_⟩, .refl⟩)
    rw [hkind]
    exact hdeclares
  · intro h
    have hpicked : ∀ n, Picked dag changes n ↔ Affected dag changes n := by
      intro n
      constructor
      · rintro ⟨ch, hch, s, hs, hlead⟩
        exact ⟨ch, hch, s, namedBy_mono (fun _ _ => LastDeclares.declares) hs, hlead⟩
      · rintro ⟨ch, hch, s, hs, hlead⟩
        by_cases hkind : ch.targetKind = "parameter"
        · have hdeclares : Declares dag ch.target s := by
            have hnamed := hs.2
            rw [hkind] at hnamed
            exact hnamed
          obtain ⟨ch', hch', s', hs', hlead'⟩ := h ch hch hkind s hs.1 hdeclares
          exact ⟨ch', hch', s', hs', hlead'.trans hlead⟩
        · refine ⟨ch, hch, s, ⟨hs.1, ?_⟩, hlead⟩
          have hnamed := hs.2
          split at hnamed
          · exact hnamed
          · rename_i hparam
            exact absurd hparam hkind
          all_goals trivial
    intro n
    rw [mem_reuse, mem_recompute_iff hknown, hpicked]
    exact ⟨Iff.rfl, Iff.rfl⟩

/-! ## Two owners -/

/-- Two nodes that both take a parameter `distance`, and none of which leads to the other. -/
def twoOwners : WorkflowDAG where
  nodes := [{ nodeId := "buffer", parameters := ["distance"] },
    { nodeId := "search", parameters := ["distance"] }]
  edges := []

/-- The parameter changes. -/
def distanceChange : WorkflowChange :=
  { dimension := "parameter", targetKind := "parameter", target := "distance" }

/-- The first of the two nodes is reused. -/
theorem first_owner_reused : ¬ ∀ dag changes,
    (∀ ch ∈ changes, ch.dimension ∈ recomputeDimensions) →
    ∀ n, (n ∈ (computeAffectedSubgraph dag changes).recompute ↔ Affected dag changes n) ∧
      (n ∈ (computeAffectedSubgraph dag changes).reuse ↔
        n ∈ dag.nodeIds ∧ ¬ Affected dag changes n) := by
  intro h
  have haffected : Affected twoOwners [distanceChange] "buffer" :=
    ⟨distanceChange, mem_singleton_self _, "buffer",
      ⟨by decide, { nodeId := "buffer", parameters := ["distance"] }, by simp [twoOwners], rfl,
        by simp [distanceChange]⟩, .refl⟩
  have hnot : "buffer" ∉ (computeAffectedSubgraph twoOwners [distanceChange]).recompute := by
    decide
  exact hnot ((h twoOwners [distanceChange] (by decide) "buffer").1.mpr haffected)

/-- The first of the two nodes changes. -/
def bufferChange : WorkflowChange :=
  { dimension := "algorithm", targetKind := "node", target := "buffer" }

theorem both_owners_picked :
    (∀ ch ∈ [distanceChange, bufferChange], ch.dimension ∈ recomputeDimensions) ∧
      ∀ n, (n ∈ (computeAffectedSubgraph twoOwners [distanceChange, bufferChange]).recompute ↔
          Affected twoOwners [distanceChange, bufferChange] n) ∧
        (n ∈ (computeAffectedSubgraph twoOwners [distanceChange, bufferChange]).reuse ↔
          n ∈ twoOwners.nodeIds ∧ ¬ Affected twoOwners [distanceChange, bufferChange] n) := by
  have hbuffer : Picked twoOwners [distanceChange, bufferChange] "buffer" :=
    ⟨bufferChange, by simp, "buffer", ⟨by decide, by simp [bufferChange]⟩, .refl⟩
  have hsearch : Picked twoOwners [distanceChange, bufferChange] "search" :=
    ⟨distanceChange, by simp, "search", ⟨by decide, by
      simp [distanceChange, LastDeclares, twoOwners]⟩, .refl⟩
  refine ⟨by decide, (recompute_exact_iff twoOwners [distanceChange, bufferChange] (by decide)).mpr ?_⟩
  intro _ _ _ n hn _
  rcases mem_cons.mp (show n ∈ ["buffer", "search"] from hn) with rfl | hn
  · exact hbuffer
  · rwa [mem_singleton.mp hn]

end WebGis.Workflow
