/-
  The two ways a mutation is committed: one intent, or a batch of presentation patches.

  Here is the part of both that runs under the session lock, from the guard to the commit: the
  guard on locked targets, the handler, the review with its repairs, the validation. What the
  store, the revision and the deduplication add is outside.

  Most handlers write one branch and neither layers nor layout. For the others there is a
  condition on a layer or on a component under which the candidate still has an equal one.
-/
import WebGis.Data.Outcome
import WebGis.Mapspec.Handlers
import WebGis.Mapspec.Review

open List Option

namespace WebGis.Mapspec

open Data Json

/-- What the engine calls. -/
structure Engine where
  tools : Tools
  reviewer : Reviewer
  /-- The spatial guardrails: the intent, corrected or not. -/
  checkIntent : Intent → Except Stop Intent
  /-- `pre_commit_check` refuses. -/
  preCommitRefuses : Intent → Option MapSpec → Bool
  /-- The blocking codes of `validate_mapspec` -/
  blockingCodes : MapSpec → List String
  /-- The blocking codes of the prior document, from the cache or from a validation -/
  priorBlockingCodes : MapSpec → List String
  lockLost : Bool

/-- What is saved. -/
structure Committed where
  mapspec : MapSpec
  /-- The repairs of the review's attempts. -/
  repairs : List Json
  checkpoint : Bool := false
  layerOp : Option LayerOp := none

/-- The document of a session without one. -/
def skeleton : MapSpec where
  layout :=
    { parts := Dict.ofList
        [("legend", .obj [("visible", .bool true), ("position", .str "top-right")]),
          ("controls",
            .arr [.obj [("type", .str "navigation"), ("position", .str "top-right")]])] }
  branches := Dict.ofList
    [("version", .str "1.0"), ("view", .obj []), ("sources", .obj []),
      ("thresholds", .obj [("maxFeatures", .int 50000), ("timeoutMs", .int 30000)])]

def stripTransientState (m : MapSpec) : MapSpec :=
  { m with branches := m.branches.delete fun kv => kv.1 ∈ ["pan", "zoom", "hover", "selection"] }

/-- The repairs that an explicitly hidden legend forbids. -/
def suppressedRepairs (m : MapSpec) : List String :=
  match m.layout.parts.find "legend" with
  | some (.obj legend) =>
    if field "visible" legend == some (.bool false) then ["set_map_legend_visibility"] else []
  | _ => []

/-- The write to the running layers, with the layer as the review left it. -/
def LayerOp.reviewed (m : MapSpec) : LayerOp → LayerOp
  | .upsert id layer =>
    .upsert id <| (m.layers.find? fun l =>
      l.isObj && equal ((l.get? "id").getD .null) id).getD layer
  | .remove id => .remove id

namespace Engine

variable (E : Engine)

/-- The candidate after its review; as it was, when the review raises. -/
def reviewed (suppressed : List String) (m : MapSpec) : MapSpec × List Json :=
  (reviewAndRepairCartography E.reviewer maxRepairIterations suppressed m).getD (m, [])

/-- No blocking code is new. -/
def validates (loaded : Option MapSpec) (m : MapSpec) : Bool :=
  (E.blockingCodes m).all (· ∈ (loaded.map E.priorBlockingCodes).getD [])

/-- The review and the checks between a candidate and its commit. -/
def commit (loaded : Option MapSpec) (suppressed : List String) (candidate : MapSpec) :
    Except Stop (MapSpec × List Json) := do
  let reviewed := E.reviewed suppressed candidate
  refuseIf (!E.validates loaded reviewed.1)
  refuseIf E.lockLost
  return reviewed

/-- The refusal of an intent that runs into a lock. -/
def passGuard (loaded : Option MapSpec) (intent : Intent) (origin : Origin) : Except Stop Unit :=
  match loaded.bind fun m => guardIntentLocks m intent origin with
  | some partition => .error (.locked partition)
  | none => .ok ()

/-- `apply_mutation`, from the guardrails to the commit. -/
def applyMutation (loaded : Option MapSpec) (intent : Intent) (origin : Origin) :
    Except Stop Committed := do
  let intent ← E.checkIntent intent
  passGuard loaded intent origin
  refuseIf (E.preCommitRefuses intent loaded)
  let plan ← handle E.tools (loaded.getD skeleton) origin intent
  let candidate := stripTransientState plan.mapspec
  let reviewed ← E.commit loaded (suppressedRepairs candidate) candidate
  return {
    mapspec := reviewed.1, repairs := reviewed.2, checkpoint := plan.autoCheckpoint
    layerOp := plan.pendingLayerOp.map (LayerOp.reviewed reviewed.1) }

end Engine

/-! ## Batches -/

/-- An intent of a batch. -/
structure PresentationPatch where
  layerId : String
  visible : Option Bool := none
  opacity : Option Json := none

/-- The status of an intent of a batch. -/
inductive BatchStatus where
  | refused | notFound | applied
  deriving DecidableEq

/-- The candidate and the statuses so far. -/
structure BatchState where
  candidate : Option MapSpec := none
  statuses : List BatchStatus := []

def BatchState.record (s : BatchState) (status : BatchStatus) : BatchState :=
  { s with statuses := s.statuses ++ [status] }

namespace Engine

variable (E : Engine)

/-- The batch refuses the intent. -/
def batchRefuses (loaded : MapSpec) (origin : Origin) (p : PresentationPatch) : Bool :=
  (origin ≠ .user && (guardLockedPartitions loaded [p.layerId] []).hasLocked) ||
    E.preCommitRefuses (.patchLayerPresentation p.layerId p.visible p.opacity) (some loaded)

/-- The layers of the family of `id`. -/
def familyHit (id : String) (layer : Json) : Bool :=
  layer.isObj && shouldRemoveLayer E.tools.str layer id

/-- One intent of `apply_presentation_batch`. -/
def batchStep (loaded : MapSpec) (origin : Origin) (s : BatchState) (p : PresentationPatch) :
    Option BatchState :=
  if E.batchRefuses loaded origin p then some (s.record .refused)
  else do
    let base := s.candidate.getD loaded
    let layers ← rewriteLayers (E.familyHit p.layerId)
      (patchLayerPresentation p.visible p.opacity origin.text) base.layers
    if base.layers.any (E.familyHit p.layerId) then
      some { candidate := some { base with layers := layers }
             statuses := s.statuses ++ [.applied] }
    else some (s.record .notFound)

/-- `apply_presentation_batch`, from the first intent to the commit. -/
def applyPresentationBatch (loaded : Option MapSpec) (intents : List PresentationPatch)
    (origin : Origin) : Except Stop (Committed × List BatchStatus) := do
  let m := loaded.getD skeleton
  let s ← orRaise (intents.foldlM (E.batchStep m origin) {})
  match s.candidate with
  | none => throw .receipt
  | some candidate =>
    let reviewed ← E.commit (some m) [] (stripTransientState candidate)
    return ({ mapspec := reviewed.1, repairs := reviewed.2 }, s.statuses)

end Engine

/-! ## Success of a sequence -/

section Success

variable {α : Type}

variable {o : Option α}

theorem orRaise_eq_ok {a : α} : orRaise o = .ok a ↔ o = some a := by
  cases o <;> simp [orRaise]

theorem orRefuse_eq_ok {a : α} : orRefuse o = .ok a ↔ o = some a := by
  cases o <;> simp [orRefuse]

end Success

/-! ## Handlers of other branches -/

/-- The second document has the layers and the layout of the first. -/
structure SameMap (m m' : MapSpec) : Prop where
  layers : m'.layers = m.layers
  layout : m'.layout = m.layout

theorem SameMap.refl (m : MapSpec) : SameMap m m := ⟨rfl, rfl⟩

theorem SameMap.setBranch (m : MapSpec) (name : String) (v : Json) :
    SameMap m (m.setBranch name v) := ⟨rfl, rfl⟩

theorem SameMap.popBranch (m : MapSpec) (name : String) : SameMap m (m.popBranch name) := ⟨rfl, rfl⟩

section

variable {T : Tools} {m : MapSpec} {origin : Origin} {plan : Plan}

theorem handleSetTemporalView_same {config : Option Json} {patch : Option Fields} {remove : Bool}
    (h : handleSetTemporalView T m config patch remove origin = .ok plan) :
    SameMap m plan.mapspec := by
  unfold handleSetTemporalView at h
  split at h
  · split at h
    · cases h
      exact .popBranch m _
    · cases h
  · split at h
    · obtain ⟨cfg, _, h⟩ := bind_eq_ok.mp h
      cases h
      exact .setBranch m _ _
    · obtain ⟨_, _, h⟩ := bind_eq_ok.mp h
      obtain ⟨cfg, _, h⟩ := bind_eq_ok.mp h
      cases h
      exact .setBranch m _ _
    · cases h

theorem handleSetScenarioMode_same {mode : Option String}
    (h : handleSetScenarioMode m mode = .ok plan) : SameMap m plan.mapspec := by
  unfold handleSetScenarioMode at h
  split at h
  · cases h
    exact .popBranch m _
  · split at h <;> cases h
    exact .setBranch m _ _

theorem handleSetScene_same {scene : Option Json} (h : handleSetScene T m scene = .ok plan) :
    SameMap m plan.mapspec := by
  unfold handleSetScene at h
  split at h
  · cases h
    exact .popBranch m _
  · obtain ⟨_, _, h⟩ := bind_eq_ok.mp h
    obtain ⟨_, _, h⟩ := bind_eq_ok.mp h
    cases h
    exact .setBranch m _ _

theorem handleSetSceneAssets_same {assets : Option Json}
    (h : handleSetSceneAssets T m assets = .ok plan) : SameMap m plan.mapspec := by
  unfold handleSetSceneAssets at h
  split at h
  · obtain ⟨_, _, h⟩ := bind_eq_ok.mp h
    dsimp only at h
    split at h
    · cases h
      exact .refl m
    · obtain ⟨_, _, h⟩ := bind_eq_ok.mp h
      obtain ⟨_, _, h⟩ := bind_eq_ok.mp h
      cases h
      exact .setBranch m _ _
  · cases h

theorem handleUpsertSource_same {id : String} {source : Fields}
    (h : handleUpsertSource T m id source = .ok plan) : SameMap m plan.mapspec := by
  obtain ⟨_, _, h⟩ := bind_eq_ok.mp h
  cases h
  exact .setBranch m _ _

theorem handleRefreshDataRevision_same {ref : String} {revision : Int}
    (h : handleRefreshDataRevision m ref revision = .ok plan) : SameMap m plan.mapspec := by
  unfold handleRefreshDataRevision at h
  dsimp only at h
  split at h <;> cases h
  exact .setBranch m _ _

end

/-! ## Layers -/

/-- A layer that equals the given one is in the list. -/
def Kept (layer : Json) (layers : List Json) : Prop := ∃ layer' ∈ layers, Equal layer' layer

variable {layers : List Json} {layer : Json}

theorem Kept.of_mem (h : layer ∈ layers) : Kept layer layers :=
  ⟨layer, h, Equal.refl layer⟩

variable {layers' : List Json}

theorem Kept.mono (h : Kept layer layers) (hsub : layers ⊆ layers') : Kept layer layers' := by
  obtain ⟨layer', hmem, he⟩ := h
  exact ⟨layer', hsub hmem, he⟩

theorem Kept.cons {v : Json} (h : Kept layer layers) : Kept layer (v :: layers) :=
  h.mono fun _ hx => mem_cons_of_mem v hx

/-- `f` makes another layer of it. -/
def Changes (f : Fields → Option Fields) (layer : Json) : Prop :=
  ∃ fs fs', layer = .obj fs ∧ f fs = some fs' ∧ ¬ Equal (.obj fs') (.obj fs)

variable {f : Fields → Option Fields}

theorem kept_of_not_changes {fs fs' : Fields} {rest : List Json} (hc : ¬ Changes f (.obj fs))
    (hf : f fs = some fs') : Kept (.obj fs) (.obj fs' :: rest) := by
  refine ⟨.obj fs', mem_cons_self, ?_⟩
  by_contra hne
  exact hc ⟨fs, fs', rfl, hf, hne⟩

theorem eachLayer_kept (hmem : layer ∈ layers) (hc : ¬ Changes f layer)
    (h : eachLayer f layers = some layers') : Kept layer layers' := by
  induction layers generalizing layers' with
  | nil => cases hmem
  | cons v rest ih =>
    cases v with
    | obj fs =>
      obtain ⟨fs', hfs, h⟩ := bind_eq_some_iff.mp h
      obtain ⟨rest', hrest, rfl⟩ := map_eq_some_iff.mp h
      rcases mem_cons.mp hmem with rfl | hmem
      · exact kept_of_not_changes hc hfs
      · exact (ih hmem hrest).cons
    | _ =>
      obtain ⟨rest', hrest, rfl⟩ := map_eq_some_iff.mp h
      rcases mem_cons.mp hmem with rfl | hmem
      · exact .of_mem mem_cons_self
      · exact (ih hmem hrest).cons

theorem rewriteLayers_kept {hit : Json → Bool} (hmem : layer ∈ layers)
    (hc : ¬ (hit layer ∧ Changes f layer)) (h : rewriteLayers hit f layers = some layers') :
    Kept layer layers' := by
  refine eachLayer_kept hmem ?_ h
  rintro ⟨fs, fs', rfl, hf, hne⟩
  dsimp only at hf
  split at hf
  · rename_i hhit
    exact hc ⟨hhit, fs, fs', rfl, hf, hne⟩
  · cases hf
    exact hne (Equal.refl _)

theorem upsertLayers_kept {id : Json} {fresh : Fields} {r : List Json × Fields}
    (hmem : layer ∈ layers)
    (hc : ¬ (equal ((layer.get? "id").getD .null) id = true ∧ Changes f layer))
    (h : upsertLayers id f fresh layers = some r) : Kept layer r.1 := by
  induction layers generalizing r with
  | nil => cases hmem
  | cons v rest ih =>
    cases v with
    | obj fs =>
      unfold upsertLayers at h
      split at h
      · rename_i hid
        obtain ⟨new, hnew, rfl⟩ := map_eq_some_iff.mp h
        rcases mem_cons.mp hmem with rfl | hmem
        · exact kept_of_not_changes (fun hch => hc ⟨hid, hch⟩) hnew
        · exact .of_mem (mem_cons_of_mem _ hmem)
      · obtain ⟨r', hr, rfl⟩ := map_eq_some_iff.mp h
        rcases mem_cons.mp hmem with rfl | hmem
        · exact .of_mem mem_cons_self
        · exact (ih hmem hr).cons
    | _ => cases h

theorem restoreLayers_kept {str : Json → String} {origin : String} {snapshot : List Json}
    (hmem : layer ∈ layers) (hc : ¬ Changes (restoreFrom str origin snapshot) layer)
    (h : restoreLayers str origin snapshot layers = some layers') : Kept layer layers' := by
  unfold restoreLayers at h
  split at h
  · exact eachLayer_kept hmem hc h
  · cases h

/-! ## The reordering -/

section Reorder

variable {str : Json → String} {current : List Json} {layerIds : List String}

/-- The matched layers are layers of the list, there is one for each matched id, and each
    matched id has been requested. -/
structure Matched (str : Json → String) (current : List Json) (layerIds : List String)
    (acc : List Json × List String) : Prop where
  layer : ∀ id ∈ acc.2, ∃ l ∈ acc.1, l ∈ current ∧ idText str l = id
  requested : ∀ id ∈ acc.2, ∃ lid ∈ layerIds, Mapspec.requested lid id = true

theorem Matched.step {acc : List Json × List String} (h : Matched str current layerIds acc)
    {lid : String} (hlid : lid ∈ layerIds) {layer : Json} (hmem : layer ∈ current) :
    Matched str current layerIds (matchLayer str lid acc layer) := by
  unfold matchLayer
  split
  · rename_i hm
    rw [Bool.and_eq_true] at hm
    constructor
    · intro id hid
      rcases mem_append.mp hid with hid | hid
      · obtain ⟨l, hl, hc, he⟩ := h.layer id hid
        exact ⟨l, mem_append_left _ hl, hc, he⟩
      · rw [mem_singleton.mp hid]
        exact ⟨layer, mem_append_right _ (mem_singleton_self layer), hmem, rfl⟩
    · intro id hid
      rcases mem_append.mp hid with hid | hid
      · exact h.requested id hid
      · rw [mem_singleton.mp hid]
        exact ⟨lid, hlid, hm.2⟩
  · exact h

theorem matched_matchedLayers :
    Matched str current layerIds (matchedLayers str current layerIds) := by
  have hstart : Matched str current layerIds ([], []) :=
    ⟨fun _ hid => absurd hid not_mem_nil, fun _ hid => absurd hid not_mem_nil⟩
  refine List.foldlRecOn layerIds _ hstart fun acc hacc lid hlid => ?_
  exact List.foldlRecOn current _ hacc fun acc hacc layer hmem => hacc.step hlid hmem

/-- Another layer has the id of the layer, and a requested id means both. -/
def Shadowed (str : Json → String) (current : List Json) (layerIds : List String)
    (layer : Json) : Prop :=
  (∃ other ∈ current, idText str other = idText str layer ∧ ¬ Equal other layer) ∧
    ∃ lid ∈ layerIds, requested lid (idText str layer) = true

theorem reorderLayers_kept {layers' : List Json} {layer : Json} (hmem : layer ∈ current)
    (hobj : layer.isObj) (hs : ¬ Shadowed str current layerIds layer)
    (h : reorderLayers str current layerIds = some layers') : Kept layer layers' := by
  unfold reorderLayers at h
  dsimp only at h
  split at h
  · cases h
  cases h
  have hm : Matched str current layerIds (matchedLayers str current layerIds) :=
    matched_matchedLayers
  by_cases hid : idText str layer ∈ (matchedLayers str current layerIds).2
  · obtain ⟨other, hother, hcur, he⟩ := hm.layer _ hid
    refine ⟨other, mem_append_left _ hother, ?_⟩
    by_contra hne
    exact hs ⟨⟨other, hcur, he, hne⟩, hm.requested _ hid⟩
  · refine .of_mem (mem_append_right _ (mem_filter.mpr ⟨hmem, ?_⟩))
    rw [hobj, decide_eq_true hid]
    rfl

end Reorder

/-! ## Components -/

theorem fieldIf_keys (key : String) (v : Option Json) :
    ((fieldIf key v).map Prod.fst).Sublist [key] := by
  cases v with
  | none => exact nil_sublist _
  | some v => exact List.Sublist.refl _

theorem entry_nodup (c : Component) : (c.entry.map Prod.fst).Nodup := by
  have hsub : (c.entry.map Prod.fst).Sublist
      (["id", "type", "enabled", "position", "priority"] ++ ["placement"] ++ ["style"] ++
        ["options"] ++ ["compatibility"] ++ ["category"] ++ ["variant"] ++ ["templateId"] ++
        ["schemaVersion"]) := by
    unfold Component.entry
    simp only [map_append]
    refine List.Sublist.append (List.Sublist.append (List.Sublist.append (List.Sublist.append
      (List.Sublist.append (List.Sublist.append (List.Sublist.append (List.Sublist.append
        (List.Sublist.refl _) ?_) ?_) ?_) ?_) ?_) ?_) ?_) ?_ <;> exact fieldIf_keys _ _
  exact List.Nodup.sublist hsub (by decide)

theorem id_of_equal {comp : Component} {c : Json} {l : String} (h : Equal comp.toMapspec c)
    (hid : c.get? "id" = some (.str l)) : comp.id = l := by
  cases c with
  | obj gs =>
    obtain ⟨w, hw, he⟩ := get?_of_equal h.symm (entry_nodup comp) hid
    have hentry : field "id" comp.entry = some (.str comp.id) := rfl
    rw [hentry] at hw
    cases hw
    exact Json.str.inj (eq_str_of_equal he)
  | _ => cases hid

/-- The entry that the component is written back as is another one. -/
def Reshaped (S : ComponentSchema) (c : Json) : Prop :=
  ∃ comp, S.validate c = some comp ∧ ¬ Equal comp.toMapspec c

section Components

variable {T : Tools} {m : MapSpec} {cs cs' : List Component} {comp : Component}

theorem readComponents_mem (h : readComponents T m = .ok cs) {c : Json}
    (hmem : c ∈ m.layout.components) (hobj : c.isObj) :
    ∃ comp ∈ cs, T.schema.validate c = some comp := by
  unfold readComponents at h
  have hmem' : c ∈ m.layout.components.filter isObj := mem_filter.mpr ⟨hmem, hobj⟩
  revert h hmem'
  generalize m.layout.components.filter isObj = raw
  intro h hmem'
  induction raw generalizing cs with
  | nil => cases hmem'
  | cons v raw ih =>
    rw [mapM_cons] at h
    obtain ⟨first, hfirst, h⟩ := bind_eq_ok.mp h
    obtain ⟨rest, hrest, h⟩ := bind_eq_ok.mp h
    cases h
    rcases mem_cons.mp hmem' with rfl | hmem'
    · exact ⟨first, mem_cons_self, orRaise_eq_ok.mp hfirst⟩
    · obtain ⟨comp, hc, hv⟩ := ih hrest hmem'
      exact ⟨comp, mem_cons_of_mem _ hc, hv⟩

variable {old : Component} {i : Nat}

theorem mem_set_of_ne {new : Component} (hmem : comp ∈ cs) (hi : cs[i]? = some old)
    (hne : comp ≠ old) : comp ∈ cs.set i new := by
  obtain ⟨j, hj⟩ := mem_iff_getElem?.mp hmem
  have hij : i ≠ j := by
    rintro rfl
    rw [hi] at hj
    exact hne (some.inj hj).symm
  exact mem_of_getElem? (i := j) (by rw [getElem?_set_ne hij, hj])

variable {id : String}

theorem findComponent_id (h : findComponent cs id = some i) (hi : cs[i]? = some old) :
    old.id = id := by
  obtain ⟨hlt, hp, _⟩ := findIdx?_eq_some_iff_getElem.mp h
  rw [getElem?_eq_getElem hlt] at hi
  rw [← some.inj hi]
  simpa using hp

variable {S : ComponentSchema} {p : ComponentPatch}

theorem patchTarget_cases {base : List Component} (h : patchTarget S cs p = some (base, i)) :
    (base = cs ∧ findComponent cs p.componentId = some i) ∨
      ∃ new, base = cs ++ [new] ∧ i = cs.length := by
  unfold patchTarget at h
  split at h
  · rename_i j hj
    cases h
    split at hj
    · cases hj
    · exact .inl ⟨rfl, hj⟩
  · obtain ⟨new, _, he⟩ := map_eq_some_iff.mp h
    cases he
    exact .inr ⟨new, rfl, rfl⟩

theorem mutateComponent_mem (h : mutateComponent S cs p = some (some cs')) (hmem : comp ∈ cs)
    (hid : comp.id ≠ p.componentId) : comp ∈ cs' := by
  obtain ⟨⟨base, i⟩, ht, h⟩ := bind_eq_some_iff.mp h
  obtain ⟨old, hold, h⟩ := bind_eq_some_iff.mp h
  obtain ⟨new, _, rfl⟩ := map_eq_some_iff.mp (some.inj h)
  obtain ⟨rfl, hi⟩ | ⟨created, rfl, rfl⟩ := patchTarget_cases ht
  · exact mem_set_of_ne hmem hold fun he => hid (he ▸ findComponent_id hi hold)
  · show comp ∈ (cs ++ [created]).set cs.length new
    rw [set_append_right _ _ (Nat.le_refl _)]
    exact mem_append_left _ hmem

theorem removeComponent_mem (h : removeComponent cs id = some cs') (hmem : comp ∈ cs)
    (hid : comp.id ≠ id) : comp ∈ cs' := by
  obtain ⟨i, hi, rfl⟩ := map_eq_some_iff.mp h
  obtain ⟨j, hj⟩ := mem_iff_getElem?.mp hmem
  have hij : i ≠ j := by
    rintro rfl
    exact hid (findComponent_id hi hj)
  exact mem_eraseIdx_iff_getElem?.mpr ⟨j, hij.symm, hj⟩

theorem duplicateComponent_mem {newId : String} (h : duplicateComponent cs id newId = some cs')
    (hmem : comp ∈ cs) : comp ∈ cs' := by
  obtain ⟨i, _, h⟩ := bind_eq_some_iff.mp h
  obtain ⟨source, _, h⟩ := bind_eq_some_iff.mp h
  dsimp only at h
  split at h
  · obtain ⟨copyId, _, rfl⟩ := map_eq_some_iff.mp h
    exact mem_append_left _ hmem
  · cases h

theorem rebindComponent_mem {bindings : List (String × String)}
    (h : rebindComponent cs id bindings = some cs') (hmem : comp ∈ cs) (hid : comp.id ≠ id) :
    comp ∈ cs' := by
  obtain ⟨i, hi, h⟩ := bind_eq_some_iff.mp h
  obtain ⟨target, ht, h⟩ := bind_eq_some_iff.mp h
  split at h
  · cases h
    exact mem_set_of_ne hmem ht fun he => hid (he ▸ findComponent_id hi ht)
  · cases h

theorem toEntries_kept {c : Json} (hmem : comp ∈ cs) (he : Equal comp.toMapspec c) :
    Kept c (toEntries cs) :=
  ⟨comp.toMapspec, List.mem_map_of_mem ((perm_insertionSort _ cs).mem_iff.mpr hmem), he⟩

end Components

end WebGis.Mapspec
