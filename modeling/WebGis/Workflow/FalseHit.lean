/-
  When equal fingerprints of a node's work mean equal work.

  The fingerprint sees one identity for each port key and the canonical form of the
  parameters. It misses an input whose edge shares its key with a later one, and it cannot
  tell null from the text that `str` gives it.
-/
import WebGis.Workflow.Reuse

namespace WebGis.Workflow

open Data Json List Dict

/-- Selections that agree as sets of keyed values agree for every index, when each index
    has a key of its own. -/
theorem eq_of_keyed {ι κ β : Type} {key : ι → κ} {f g : ι → Option β} {xs : List ι}
    (hu : (xs.map key).Nodup) (h : ∀ p, p ∈ (xs.filterMap fun i => (f i).map fun b => (key i, b)) ↔
      p ∈ xs.filterMap fun i => (g i).map fun b => (key i, b)) {i : ι} (hi : i ∈ xs) :
    f i = g i := by
  have hside : ∀ {u v : ι → Option β}, (∀ p, p ∈ (xs.filterMap fun i => (u i).map fun b => (key i, b)) →
      p ∈ xs.filterMap fun i => (v i).map fun b => (key i, b)) → ∀ b, u i = some b → v i = some b := by
    intro u v huv b hb
    have hmem : (key i, b) ∈ xs.filterMap fun i => (u i).map fun b => (key i, b) :=
      mem_filterMap.mpr ⟨i, hi, by rw [hb]; rfl⟩
    obtain ⟨j, hj, he⟩ := mem_filterMap.mp (huv _ hmem)
    obtain ⟨c, hc, he⟩ := Option.map_eq_some_iff.mp he
    obtain ⟨hk, rfl⟩ := Prod.mk.inj he
    rwa [← inj_on_of_nodup_map hu hj hi hk]
  refine Option.ext fun b => ⟨?_, ?_⟩
  · exact hside (fun p => (h p).mp) b
  · exact hside (fun p => (h p).mpr) b

variable {R : FloatRepr} {digest : String → String} {dag : WorkflowDAG} {nodeId : String}

/-- The payload that the fingerprint of an evaluation is made from. -/
def evaluationPayload (R : FloatRepr) (digest : String → String) (dag : WorkflowDAG)
    (nodeId : String) (node : WorkflowNode) (ev : Evaluation) : Json :=
  reusePayload ev.packageFp nodeId (orText node.algorithmId node.capability)
    (effectiveParams node ev) (gatherInputs R digest dag nodeId ev).portIdents
    (environmentFingerprint R digest ev.env (orText dag.compilerVersion "4.0.0")
      dag.methodologyFingerprint)

theorem reuseFp_eq (node : WorkflowNode) (ev : Evaluation) :
    reuseFp R digest dag nodeId node ev =
      digest ((evaluationPayload R digest dag nodeId node ev).dumps R) := rfl

/-! ## Equal fingerprints -/

theorem consumedIdentities_eq (hports : (portKeys dag nodeId).Nodup) {e f : Evaluation}
    (h : ∀ p, p ∈ (boundedInputs (gatherInputs R digest dag nodeId e).portIdents).items ↔
      p ∈ (boundedInputs (gatherInputs R digest dag nodeId f).portIdents).items) :
    consumedIdentities R digest dag nodeId e = consumedIdentities R digest dag nodeId f := by
  rw [boundedInputs_items _ _ _ _ e hports, boundedInputs_items _ _ _ _ f hports] at h
  have hkeyed : ∀ ev, ((inputEdges dag nodeId).zipIdx.filterMap fun edge =>
        (passInput R digest ev edge).map fun p => (clip 48 (passPort dag nodeId edge), p.2)) =
      (inputEdges dag nodeId).zipIdx.filterMap fun edge =>
        ((passInput R digest ev edge).map Prod.snd).map fun i =>
          (clip 48 (passPort dag nodeId edge), i) := by
    intro ev
    simp only [Option.map_map, Function.comp_def]
  rw [hkeyed e, hkeyed f] at h
  unfold consumedIdentities consumedInputs
  rw [map_filterMap, map_filterMap]
  exact filterMap_congr fun edge hedge => eq_of_keyed hports h hedge

theorem work_eq_of_reuseFp_eq (hd : ∀ s t, digest s = digest t → s = t) {node : WorkflowNode}
    {e f : Evaluation} (hports : (portKeys dag nodeId).Nodup)
    (hparams : NoneFree (effectiveParams node e))
    (h : reuseFp R digest dag nodeId node e = reuseFp R digest dag nodeId node f) :
    consumedIdentities R digest dag nodeId e = consumedIdentities R digest dag nodeId f ∧
      Same (effectiveParams node e) (effectiveParams node f) := by
  have hpay := dumps_inj (hd _ _ h)
  refine ⟨consumedIdentities_eq hports fun p => ⟨?_, ?_⟩, ?_⟩
  · exact fun hp => inputs_of_payload_eq hpay hp
  · exact fun hp => inputs_of_payload_eq hpay.symm hp
  · exact same_of_canonicalize_eq hparams (params_of_payload_eq hpay)

/-! ## Parameters that cannot be told apart -/

/-- The same evaluation with null and its text exchanged in the parameters. -/
def Evaluation.exchanged (node : WorkflowNode) (ev : Evaluation) : Evaluation :=
  { ev with nodeParams := (node.params.merge ev.nodeParams).mapValues swapped }

theorem exchanged_nodeParams (node : WorkflowNode) (ev : Evaluation) :
    (ev.exchanged node).nodeParams = (node.params.merge ev.nodeParams).mapValues swapped := rfl

theorem swapped_obj (fs : List (String × Json)) :
    swapped (.obj fs) = .obj (fs.map fun f => (f.1, swapped f.2)) :=
  mapTree_obj swapNone id fs

section

variable (node : WorkflowNode) (ev : Evaluation)
include node ev

theorem exchanged_perm :
    (node.params.merge (ev.exchanged node).nodeParams).items.Perm
      ((node.params.merge ev.nodeParams).items.map fun f => (f.1, swapped f.2)) := by
  refine items_perm (e := (node.params.merge ev.nodeParams).mapValues swapped) fun k => ?_
  refine find_merge_of_keys (fun k hk => ?_) k
  obtain ⟨v, hv⟩ := mem_keys_iff.mp hk
  have hmerge : (node.params.merge ev.nodeParams).find k = (ev.nodeParams.find k).or (some v) := by
    rw [find_merge, hv]
  cases hf : ev.nodeParams.find k <;>
    (rw [hf] at hmerge
     exact mem_keys_iff.mpr ⟨_, by rw [exchanged_nodeParams, find_mapValues, hmerge]; rfl⟩)

theorem effectiveParams_exchanged (s : Json → Json) :
    mapTree s byKey (effectiveParams node (ev.exchanged node)) =
      mapTree s byKey (swapped (effectiveParams node ev)) := by
  unfold effectiveParams
  rw [swapped_obj]
  exact mapTree_perm (Table.unique _) (exchanged_perm node ev)

theorem reuseFp_exchanged :
    reuseFp R digest dag nodeId node (ev.exchanged node) = reuseFp R digest dag nodeId node ev := by
  have hparams : canonicalizeParameters (effectiveParams node (ev.exchanged node)) =
      canonicalizeParameters (effectiveParams node ev) :=
    (effectiveParams_exchanged node ev canonicalScalar).trans (canonicalize_swapped _)
  have hgather : gatherInputs R digest dag nodeId (ev.exchanged node) =
      gatherInputs R digest dag nodeId ev := rfl
  rw [reuseFp_eq, reuseFp_eq]
  unfold evaluationPayload reusePayload
  rw [hparams, hgather]
  rfl

end

/-! ## Inputs that cannot be told apart -/

/-- An evaluation in which only the edges read in the passes `i` and `j` have a source, and
    in which the source read in pass `i` has the content `hash`. -/
def twoInputs (nodeParams : Dict String Json) (i j : Nat) (hash : String) : Evaluation where
  packageFp := "package"
  env := ⟨1, 1, "", ""⟩
  getNode := fun idx up =>
    if idx = i ∨ idx = j then some { instanceId := "", nodeId := up, outputRef := some "ref:x" }
    else none
  descriptor := fun idx _ => some { contentHash := if idx = i then hash else "other" }
  nodeParams := nodeParams

theorem readInput_twoInputs (params : Dict String Json) (i j : Nat) (hash : String)
    (idx : Nat) (up : String) :
    readInput (twoInputs params i j hash) idx up =
      if idx = i ∨ idx = j then
        some ("ref:x", some { contentHash := if idx = i then hash else "other" })
      else none := by
  have hx : startsWith "wi:" "ref:x" = false := by decide
  by_cases h : idx = i ∨ idx = j
  · simp [readInput, twoInputs, refOf, orText, h, hx]
  · simp [readInput, twoInputs, refOf, h]

/-- The identity of the content `hash`. -/
def contentOf (hash : String) : ContentIdentity := ⟨fpLevelContent, clip 32 hash, ""⟩

theorem passInput_twoInputs (params : Dict String Json) (i j : Nat) {hash : String}
    (hne : hash ≠ "") (edge : (String × String) × Nat) :
    passInput R digest (twoInputs params i j hash) edge =
      if edge.2 = i ∨ edge.2 = j then
        some ("ref:x", contentOf (if edge.2 = i then hash else "other"))
      else none := by
  rw [passInput, readInput_twoInputs]
  by_cases h : edge.2 = i ∨ edge.2 = j
  · have hother : (if edge.2 = i then hash else "other") ≠ "" := by
      split
      · exact hne
      · decide
    simp [h, inputContentIdentity, orText, hother, RefDescriptor.revision, contentOf]
  · simp [h]

theorem filterMap_pair {α β : Type} {xs : List (α × Nat)} (hu : (xs.map Prod.snd).Nodup)
    {z w : α × Nat} (h : [z, w].Sublist xs) (g : α × Nat → β) :
    (xs.filterMap fun x => if x.2 = z.2 ∨ x.2 = w.2 then some (g x) else none) = [g z, g w] := by
  have hfilter : (xs.filter fun x => x.2 = z.2 ∨ x.2 = w.2) = [z, w] := by
    have hsub : [z, w].Sublist (xs.filter fun x => x.2 = z.2 ∨ x.2 = w.2) := by
      simpa using h.filter fun x => decide (x.2 = z.2 ∨ x.2 = w.2)
    refine (hsub.eq_of_length_le ?_).symm
    refine (subperm_of_subset (List.Nodup.filter _ (List.Nodup.of_map _ hu)) ?_).length_le
    intro x hx
    obtain ⟨hx, hp⟩ := mem_filter.mp hx
    rcases of_decide_eq_true hp with hz | hw
    · rw [inj_on_of_nodup_map hu hx (h.subset (by simp)) hz]
      exact mem_cons_self
    · rw [inj_on_of_nodup_map hu hx (h.subset (by simp)) hw]
      exact mem_cons_of_mem _ mem_cons_self
  have hselect : ∀ ys : List (α × Nat),
      (ys.filterMap fun x => if x.2 = z.2 ∨ x.2 = w.2 then some (g x) else none) =
        (ys.filter fun x => x.2 = z.2 ∨ x.2 = w.2).map g := by
    intro ys
    induction ys with
    | nil => rfl
    | cons y ys ih => by_cases hy : y.2 = z.2 ∨ y.2 = w.2 <;> simp [hy, ih]
  rw [hselect, hfilter, map_cons, map_cons, map_nil]

/-- Two inputs whose ports are cut to one key leave only the second. -/
theorem boundedInputs_pair {p q : String} (h : clip 48 p = clip 48 q) (x y : ContentIdentity) :
    boundedInputs (ofList [(p, x), (q, y)]) = ofList [(clip 48 q, y)] := by
  unfold boundedInputs
  by_cases hpq : p = q
  · rw [hpq, ofList_twice, items_ofList (by simp)]
    rfl
  · rw [items_ofList (by simp [hpq])]
    simp only [List.take, map_cons, map_nil, h, maxFingerprintInputs]
    exact ofList_twice _ _ _

theorem nodup_snd_zipIdx {α : Type} (xs : List α) : (xs.zipIdx.map Prod.snd).Nodup := by
  rw [zipIdx_map_snd]
  exact nodup_range'

section Collision

variable {z w : (String × String) × Nat} (hzw : [z, w].Sublist (inputEdges dag nodeId).zipIdx)
  (params : Dict String Json) {hash : String} (hne : hash ≠ "")

include hzw

theorem collision_ne : w.2 ≠ z.2 := by
  have hu := (nodup_snd_zipIdx (inputEdges dag nodeId)).sublist (hzw.map Prod.snd)
  simp only [map_cons, map_nil, nodup_cons, mem_singleton] at hu
  exact fun h => hu.1 h.symm

include hne

theorem consumedIdentities_collision :
    consumedIdentities R digest dag nodeId (twoInputs params z.2 w.2 hash) =
      [contentOf hash, contentOf "other"] := by
  unfold consumedIdentities consumedInputs
  rw [filterMap_congr fun edge _ => passInput_twoInputs params z.2 w.2 hne edge,
    filterMap_pair (nodup_snd_zipIdx _) hzw fun edge =>
      ("ref:x", contentOf (if edge.2 = z.2 then hash else "other"))]
  simp [collision_ne hzw]

variable (R digest) in
theorem boundedInputs_collision
    (hkey : clip 48 (passPort dag nodeId z) = clip 48 (passPort dag nodeId w)) :
    boundedInputs (gatherInputs R digest dag nodeId (twoInputs params z.2 w.2 hash)).portIdents =
      ofList [(clip 48 (passPort dag nodeId w), contentOf "other")] := by
  rw [(gatherInputs_eq R digest dag nodeId _).2]
  have hpass : ((inputEdges dag nodeId).zipIdx.filterMap fun edge =>
      (passInput R digest (twoInputs params z.2 w.2 hash) edge).map fun p =>
        (passPort dag nodeId edge, p.2)) =
      [(passPort dag nodeId z, contentOf hash), (passPort dag nodeId w, contentOf "other")] := by
    have hw := collision_ne hzw
    rw [show (passPort dag nodeId w, contentOf "other") = (passPort dag nodeId w,
        contentOf (if w.2 = z.2 then hash else "other")) by rw [if_neg hw],
      show (passPort dag nodeId z, contentOf hash) = (passPort dag nodeId z,
        contentOf (if z.2 = z.2 then hash else "other")) by rw [if_pos rfl],
      ← filterMap_pair (nodup_snd_zipIdx _) hzw fun edge =>
        (passPort dag nodeId edge, contentOf (if edge.2 = z.2 then hash else "other"))]
    refine filterMap_congr fun edge _ => ?_
    rw [passInput_twoInputs params z.2 w.2 hne edge]
    split <;> rfl
  rw [hpass]
  exact boundedInputs_pair hkey _ _

end Collision

variable (R digest) in
/-- Input edges with a common key allow two evaluations with one fingerprint that consume
    different contents. -/
theorem exists_collision (node : WorkflowNode) (params : Dict String Json)
    (h : ¬ (portKeys dag nodeId).Nodup) :
    ∃ e f : Evaluation, e.nodeParams = params ∧
      reuseFp R digest dag nodeId node e = reuseFp R digest dag nodeId node f ∧
      consumedIdentities R digest dag nodeId e ≠ consumedIdentities R digest dag nodeId f := by
  have hpair : ∃ z w, [z, w].Sublist (inputEdges dag nodeId).zipIdx ∧
      clip 48 (passPort dag nodeId z) = clip 48 (passPort dag nodeId w) := by
    by_contra hno
    push Not at hno
    refine h (pairwise_map.mpr (pairwise_iff_forall_sublist.mpr fun hzw => ?_))
    exact hno _ _ hzw
  obtain ⟨z, w, hzw, hkey⟩ := hpair
  refine ⟨twoInputs params z.2 w.2 "old", twoInputs params z.2 w.2 "new", rfl, ?_, ?_⟩
  · have hold := boundedInputs_collision R digest hzw params
      (show "old" ≠ "" by decide) hkey
    have hnew := boundedInputs_collision R digest hzw params
      (show "new" ≠ "" by decide) hkey
    rw [reuseFp_eq, reuseFp_eq]
    unfold evaluationPayload reusePayload
    rw [hold, hnew]
    rfl
  · rw [consumedIdentities_collision hzw params (by decide),
      consumedIdentities_collision hzw params (by decide)]
    decide

/-! ## No false hits -/

/-- Whenever an evaluation of the node with the run's parameters `params` has the
    fingerprint of another, both consume the same contents under the same parameters. -/
def NoFalseHit (R : FloatRepr) (digest : String → String) (dag : WorkflowDAG) (nodeId : String)
    (node : WorkflowNode) (params : Dict String Json) : Prop :=
  ∀ e f : Evaluation, e.nodeParams = params →
    reuseFp R digest dag nodeId node e = reuseFp R digest dag nodeId node f →
      consumedIdentities R digest dag nodeId e = consumedIdentities R digest dag nodeId f ∧
        Same (effectiveParams node e) (effectiveParams node f)

/-- An injective digest gives no false hit exactly when no two of the node's first four
    input edges share a port key and the effective parameters hold neither null nor
    `"None"`. -/
theorem noFalseHit_iff (hd : ∀ s t, digest s = digest t → s = t) (node : WorkflowNode)
    (params : Dict String Json) :
    NoFalseHit R digest dag nodeId node params ↔
      (portKeys dag nodeId).Nodup ∧ NoneFree (.obj (node.params.merge params).items) := by
  constructor
  · intro h
    constructor
    · by_contra hports
      obtain ⟨e, f, he, hfp, hne⟩ := exists_collision R digest node params hports
      exact hne (h e f he hfp).1
    · -- the parameters must survive the exchange of null and its text
      have hsame := (h (twoInputs params 0 0 "") _ rfl (reuseFp_exchanged node _).symm).2
      refine noneFree_of_same_swapped (hsame.trans ?_)
      exact effectiveParams_exchanged node (twoInputs params 0 0 "") wholeFloat
  · rintro ⟨hports, hparams⟩ e f rfl hfp
    exact work_eq_of_reuseFp_eq hd hports hparams hfp

/-- Two results are overlaid, each entering by a port of its own. -/
def overlayPorts : WorkflowDAG where
  nodes := [{ nodeId := "cap:buffer" }, { nodeId := "cap:dissolve" },
    { nodeId := "cap:overlay", inputs := ["input", "mask"] }]
  edges := [⟨"cap:buffer.output", "cap:overlay.input"⟩, ⟨"cap:dissolve.output", "cap:overlay.mask"⟩]

theorem noFalseHit_of_ports : NoFalseHit default id overlayPorts "cap:overlay"
    { nodeId := "cap:overlay" } (ofList [("distance", .float 1)]) :=
  (noFalseHit_iff (fun _ _ h => h) _ _).mpr
    ⟨by decide +kernel, by
      intro x hx
      obtain rfl : x = .float 1 := mem_singleton.mp hx
      exact ⟨Json.noConfusion, Json.noConfusion⟩⟩

/-- The same results, both led to the first port, as the compiler of the graph does. -/
def overlayFanIn : WorkflowDAG where
  nodes := [{ nodeId := "cap:buffer" }, { nodeId := "cap:dissolve" },
    { nodeId := "cap:overlay", inputs := ["input"] }]
  edges := [⟨"cap:buffer.output", "cap:overlay.input"⟩, ⟨"cap:dissolve.output", "cap:overlay.input"⟩]

/-- An evaluation in which the buffer's result has the content `hash`. -/
def bufferHas (hash : String) : Evaluation where
  packageFp := "package"
  env := ⟨1, 1, "", ""⟩
  getNode := fun _ up => some { instanceId := "wi", nodeId := up, outputRef := some ("ref:" ++ up) }
  descriptor := fun _ ref => some
    { contentHash := if ref = "ref:cap:buffer" then hash else "dissolved", contentRevision := 1 }
  nodeParams := Dict.empty

/-- What the node gathers when the buffer's result has the content `hash`. -/
def overlayIdents (hash : String) : Dict String ContentIdentity :=
  (gatherInputs default id overlayFanIn "cap:overlay" (bufferHas hash)).portIdents

theorem boundedInputs_overlay :
    boundedInputs (overlayIdents "old") = boundedInputs (overlayIdents "new") :=
  Table.eq_of_rows (by decide +kernel)

/-- The result computed from the old buffer passes for that of the new one. -/
theorem falseHit_of_fanIn :
    reuseFp default id overlayFanIn "cap:overlay" { nodeId := "cap:overlay" } (bufferHas "old") =
        reuseFp default id overlayFanIn "cap:overlay" { nodeId := "cap:overlay" } (bufferHas "new") ∧
      evaluateEligibility (recordReuse "package" (overlayIdents "old")) "package"
        (overlayIdents "new") = none ∧
      consumedIdentities default id overlayFanIn "cap:overlay" (bufferHas "old") ≠
        consumedIdentities default id overlayFanIn "cap:overlay" (bufferHas "new") := by
  refine ⟨?_, by decide +kernel, by decide +kernel⟩
  have hinputs := boundedInputs_overlay
  unfold overlayIdents at hinputs
  rw [reuseFp_eq, reuseFp_eq]
  unfold evaluationPayload reusePayload
  rw [hinputs]
  rfl

end WebGis.Workflow
