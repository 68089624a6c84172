/-
  What the user has locked, and when a mutation of the agent or the system keeps it.

  The guard refuses a target that it takes for a locked id. The layers a handler then touches
  are chosen by a wider reading of the id, so a lock holds exactly where no pinned layer is
  among those that are touched and changed.
-/
import WebGis.Mapspec.Frames

namespace WebGis.Mapspec

open Data Json List Engine

/-- A locked id means the layer, in the reading that the handlers have of an id. -/
def Pinned (str : Json → String) (m : MapSpec) (layer : Json) : Prop :=
  ∃ l ∈ m.lockedLayerIdsOf, shouldRemoveLayer str layer l = true

/-- The id of the component is locked. -/
def LockedComponent (m : MapSpec) (c : Json) : Prop :=
  ∃ l ∈ m.lockedComponentIdsOf, c.get? "id" = some (.str l)

/-- Every pinned layer and every locked component is there, equal to what it was. -/
structure LocksKept (str : Json → String) (m m' : MapSpec) : Prop where
  layers : ∀ layer ∈ m.layers, Pinned str m layer → Kept layer m'.layers
  components : ∀ c ∈ m.layout.components, LockedComponent m c → Kept c m'.layout.components

/-! ## Where a lock does not hold -/

/-- The layer that an upsert brings in. -/
def incoming (T : Tools) (m : MapSpec) (layer : Fields) (data : Option Json) : Option Fields :=
  match T.ingest m layer data with
  | .ok ingested =>
    match T.qualityGate ingested.sourceEntry ingested.layer with
    | .ok gated => some gated.2
    | .error _ => none
  | .error _ => none

/-- The handler of the intent takes the layer for one it is to touch, and removes it or makes
    another one of it. -/
def Alters (T : Tools) (m : MapSpec) (origin : Origin) (layer : Json) : Intent → Prop
  | .removeLayer id => shouldRemoveLayer T.str layer id = true
  | .patchLayerPresentation id visible opacity =>
    shouldRemoveLayer T.str layer id = true ∧
      Changes (patchLayerPresentation visible opacity origin.text) layer
  | .patchLayerStyle id paint =>
    shouldRemoveLayer T.str layer id = true ∧ Changes (patchLayerStyle paint) layer
  | .upsertLayer fs data =>
    ∃ processed, incoming T m fs data = some processed ∧
      equal ((layer.get? "id").getD .null) (layerId processed) = true ∧
      Changes (succeed T processed) layer
  | .reorderLayers ids => Shadowed T.str m.layers ids layer
  | .restoreStyle s => Changes (restoreFrom T.str origin.text s.layers) layer
  | .applyVisualHealPatch defects attempt =>
    ∃ op ∈ T.planHeal m defects attempt, idText T.str layer ∈ op.edited
  | _ => False

/-- The intent writes all components back, and this one as another entry. -/
def Reshapes (S : ComponentSchema) (c : Json) : Intent → Prop
  | .patchComponent _ | .removeComponent _ | .duplicateComponent _ _ | .rebindComponent _ _ =>
    Reshaped S c
  | _ => False

/-- The repairs that the review of the candidate makes. -/
def Engine.repairsMade (E : Engine) (m : MapSpec) (origin : Origin) (intent : Intent) :
    List Json :=
  match handle E.tools m origin intent with
  | .ok plan =>
    let candidate := stripTransientState plan.mapspec
    (E.reviewed (suppressedRepairs candidate) candidate).2
  | .error _ => []

/-- No repair is carried out on a pinned layer or moves a locked component. -/
structure RepairsSpare (str : Json → String) (m : MapSpec) (repairs : List Json) : Prop where
  layers : ∀ layer ∈ m.layers, Pinned str m layer → ∀ layer', Equal layer' layer →
    ∀ r ∈ repairs, repairsLayer layer' r = false
  components : ∀ c ∈ m.layout.components, LockedComponent m c → ∀ c', Equal c' c →
    ∀ r ∈ repairs, movesComponent c' r = false

/-- The intent, and the review after it, leave alone what is locked. -/
structure Spares (E : Engine) (m : MapSpec) (origin : Origin) (intent : Intent) : Prop where
  layers : ∀ layer ∈ m.layers, Pinned E.tools.str m layer →
    ¬ Alters E.tools m origin layer intent
  components : ∀ c ∈ m.layout.components, LockedComponent m c → ¬ Reshapes E.tools.schema c intent
  repairs : RepairsSpare E.tools.str m (E.repairsMade m origin intent)

/-- The repairs that the review of a batch's candidate makes. -/
def Engine.batchRepairs (E : Engine) (m : MapSpec) (origin : Origin)
    (intents : List PresentationPatch) : List Json :=
  match (intents.foldlM (E.batchStep m origin) {}).bind BatchState.candidate with
  | some candidate => (E.reviewed [] (stripTransientState candidate)).2
  | none => []

/-- The intents of a batch that are not refused, and the review after them, leave alone what is
    locked. -/
structure BatchSpares (E : Engine) (m : MapSpec) (origin : Origin)
    (intents : List PresentationPatch) : Prop where
  layers : ∀ layer ∈ m.layers, Pinned E.tools.str m layer → ∀ layer', Equal layer' layer →
    ∀ p ∈ intents, E.batchRefuses m origin p = false →
      ¬ Alters E.tools m origin layer' (.patchLayerPresentation p.layerId p.visible p.opacity)
  repairs : RepairsSpare E.tools.str m (E.batchRepairs m origin intents)

/-! ## The handlers -/

variable {str : Json → String}

theorem Pinned.isObj {m : MapSpec} {layer : Json} (h : Pinned str m layer) :
    layer.isObj := by
  obtain ⟨l, _, hl⟩ := h
  cases layer with
  | obj fs => rfl
  | _ => cases hl

theorem LockedComponent.isObj {m : MapSpec} {c : Json} (h : LockedComponent m c) :
    c.isObj := by
  obtain ⟨l, _, hl⟩ := h
  cases c with
  | obj fs => rfl
  | _ => cases hl

section

variable {T : Tools} {m : MapSpec} {origin : Origin} {plan : Plan} {layer c : Json}

variable {id : String} {f : Fields → Option Fields}

theorem rewriteFamily_kept (hmem : layer ∈ m.layers)
    (hc : ¬ (shouldRemoveLayer T.str layer id ∧ Changes f layer))
    (h : rewriteFamily T m id f = .ok plan) : Kept layer plan.mapspec.layers := by
  obtain ⟨layers, hl, h⟩ := bind_eq_ok.mp h
  obtain ⟨_, _, h⟩ := bind_eq_ok.mp h
  cases h
  refine rewriteLayers_kept hmem ?_ (orRaise_eq_ok.mp hl)
  rintro ⟨hhit, hch⟩
  rw [Bool.and_eq_true] at hhit
  exact hc ⟨hhit.2, hch⟩

theorem handleUpsertLayer_kept {fs : Fields} {data : Option Json} (hmem : layer ∈ m.layers)
    (hc : ¬ Alters T m origin layer (.upsertLayer fs data))
    (h : handleUpsertLayer T m fs data = .ok plan) : Kept layer plan.mapspec.layers := by
  obtain ⟨ingested, hi, h⟩ := bind_eq_ok.mp h
  obtain ⟨gated, hg, h⟩ := bind_eq_ok.mp h
  obtain ⟨r, hr, h⟩ := bind_eq_ok.mp h
  cases h
  have hin : incoming T m fs data = some gated.2 := by simp only [incoming, hi, hg]
  exact upsertLayers_kept hmem (fun hch => hc ⟨gated.2, hin, hch⟩) (orRaise_eq_ok.mp hr)

theorem handleRemoveLayer_kept (hmem : layer ∈ m.layers)
    (hc : ¬ shouldRemoveLayer T.str layer id) (h : handleRemoveLayer T m id = .ok plan) :
    Kept layer plan.mapspec.layers := by
  unfold handleRemoveLayer at h
  split at h <;> cases h
  refine .of_mem (mem_filter.mpr ⟨hmem, ?_⟩)
  rw [Bool.not_eq_true] at hc
  rw [hc]
  rfl

theorem handleRestoreStyle_kept {s : Snapshot} (hmem : layer ∈ m.layers)
    (hc : ¬ Changes (restoreFrom T.str origin.text s.layers) layer)
    (h : handleRestoreStyle T m s origin = .ok plan) : Kept layer plan.mapspec.layers := by
  obtain ⟨layout, _, h⟩ := bind_eq_ok.mp h
  obtain ⟨layers, hl, h⟩ := bind_eq_ok.mp h
  cases h
  have hl := orRaise_eq_ok.mp hl
  unfold restoredLayers at hl
  split at hl
  · exact restoreLayers_kept hmem hc hl
  · cases hl
    exact .of_mem hmem

theorem handleApplyVisualHealPatch_kept {defects : List VisualCritiqueItem} {attempt : Nat}
    (hmem : layer ∈ m.layers)
    (hc : ¬ ∃ op ∈ T.planHeal m defects attempt, idText T.str layer ∈ op.edited)
    (h : handleApplyVisualHealPatch T m defects attempt = .ok plan) :
    Kept layer plan.mapspec.layers := by
  obtain ⟨_, _, h⟩ := bind_eq_ok.mp h
  obtain ⟨layers, hl, h⟩ := bind_eq_ok.mp h
  cases h
  exact .of_mem (mem_applyHealPlan hmem (fun op hop hid => hc ⟨op, hop, hid⟩) (orRaise_eq_ok.mp hl))

variable {intent : Intent}

theorem handle_layers_of_layout (h : handle T m origin intent = .ok plan) (hi : match intent with
      | .patchComponent _ | .removeComponent _ | .duplicateComponent _ _ | .rebindComponent _ _
      | .setLayout _ => True
      | _ => False) : plan.mapspec.layers = m.layers := by
  cases intent with
  | patchComponent p =>
    obtain ⟨_, _, h⟩ := bind_eq_ok.mp h
    obtain ⟨_, _, h⟩ := bind_eq_ok.mp h
    obtain ⟨_, _, h⟩ := bind_eq_ok.mp h
    obtain ⟨_, _, h⟩ := bind_eq_ok.mp h
    obtain ⟨_, _, h⟩ := bind_eq_ok.mp h
    cases h
    rfl
  | removeComponent id =>
    obtain ⟨_, _, h⟩ := bind_eq_ok.mp h
    obtain ⟨_, _, h⟩ := bind_eq_ok.mp h
    cases h
    rfl
  | duplicateComponent id newId =>
    obtain ⟨_, _, h⟩ := bind_eq_ok.mp h
    obtain ⟨_, _, h⟩ := bind_eq_ok.mp h
    obtain ⟨_, _, h⟩ := bind_eq_ok.mp h
    cases h
    rfl
  | rebindComponent id bindings =>
    obtain ⟨_, _, h⟩ := bind_eq_ok.mp h
    obtain ⟨_, _, h⟩ := bind_eq_ok.mp h
    obtain ⟨_, _, h⟩ := bind_eq_ok.mp h
    cases h
    rfl
  | setLayout p =>
    obtain ⟨_, _, h⟩ := bind_eq_ok.mp h
    obtain ⟨_, _, h⟩ := bind_eq_ok.mp h
    obtain ⟨_, _, h⟩ := bind_eq_ok.mp h
    cases h
    rfl
  | _ => cases hi

theorem suggestView_layout (m : MapSpec) (suggested : Option (Json × Json)) :
    (suggestView m suggested).layout = m.layout := by
  unfold suggestView
  dsimp only
  split
  · split <;> rfl
  · rfl

theorem mountSource_layout (processed entry : Fields) (suggested : Option (Json × Json)) :
    (mountSource T m processed entry suggested).layout = m.layout :=
  suggestView_layout _ suggested

theorem rewriteFamily_layout (h : rewriteFamily T m id f = .ok plan) :
    plan.mapspec.layout = m.layout := by
  obtain ⟨_, _, h⟩ := bind_eq_ok.mp h
  obtain ⟨_, _, h⟩ := bind_eq_ok.mp h
  cases h
  rfl

theorem handle_layout_of_layers (h : handle T m origin intent = .ok plan) (hi : match intent with
      | .upsertLayer .. | .patchLayerPresentation .. | .patchLayerStyle .. | .removeLayer _
      | .reorderLayers _ | .applyVisualHealPatch .. => True
      | _ => False) : plan.mapspec.layout = m.layout := by
  cases intent with
  | upsertLayer fs data =>
    obtain ⟨_, _, h⟩ := bind_eq_ok.mp h
    obtain ⟨_, _, h⟩ := bind_eq_ok.mp h
    obtain ⟨_, _, h⟩ := bind_eq_ok.mp h
    cases h
    exact mountSource_layout _ _ _
  | patchLayerPresentation id visible opacity => exact rewriteFamily_layout h
  | patchLayerStyle id paint => exact rewriteFamily_layout h
  | removeLayer id =>
    unfold handle handleRemoveLayer at h
    dsimp only at h
    split at h <;> cases h
    rfl
  | reorderLayers ids =>
    obtain ⟨_, _, h⟩ := bind_eq_ok.mp h
    cases h
    rfl
  | applyVisualHealPatch defects attempt =>
    obtain ⟨_, _, h⟩ := bind_eq_ok.mp h
    obtain ⟨_, _, h⟩ := bind_eq_ok.mp h
    cases h
    rfl
  | _ => cases hi

theorem handle_same (h : handle T m origin intent = .ok plan) (hi : match intent with
      | .setView .. | .upsertSource .. | .checkpoint | .setBasemap .. | .setTime _
      | .setTemporalView .. | .refreshDataRevision .. | .setScenarioMode _ | .setScene _
      | .setSceneAssets _ => True
      | _ => False) : SameMap m plan.mapspec := by
  cases intent with
  | setView center zoom pitch bearing =>
    cases h
    exact .setBranch m _ _
  | upsertSource id source => exact handleUpsertSource_same h
  | checkpoint =>
    cases h
    exact .refl m
  | setBasemap provider filters overlays style =>
    cases h
    exact .setBranch m _ _
  | setTime p =>
    cases h
    exact .setBranch m _ _
  | setTemporalView config patch remove => exact handleSetTemporalView_same h
  | refreshDataRevision ref revision => exact handleRefreshDataRevision_same h
  | setScenarioMode mode => exact handleSetScenarioMode_same h
  | setScene scene => exact handleSetScene_same h
  | setSceneAssets assets => exact handleSetSceneAssets_same h
  | _ => cases hi

theorem handle_layer_kept (hmem : layer ∈ m.layers) (hobj : layer.isObj)
    (hc : ¬ Alters T m origin layer intent) (h : handle T m origin intent = .ok plan) :
    Kept layer plan.mapspec.layers := by
  cases intent with
  | upsertLayer fs data => exact handleUpsertLayer_kept hmem hc h
  | patchLayerPresentation id visible opacity => exact rewriteFamily_kept hmem hc h
  | patchLayerStyle id paint => exact rewriteFamily_kept hmem hc h
  | removeLayer id => exact handleRemoveLayer_kept hmem hc h
  | reorderLayers ids =>
    obtain ⟨layers, hl, h⟩ := bind_eq_ok.mp h
    cases h
    exact reorderLayers_kept hmem hobj hc (orRefuse_eq_ok.mp hl)
  | restoreStyle s => exact handleRestoreStyle_kept hmem hc h
  | applyVisualHealPatch defects attempt => exact handleApplyVisualHealPatch_kept hmem hc h
  | patchComponent | removeComponent | duplicateComponent | rebindComponent | setLayout =>
    exact .of_mem ((handle_layers_of_layout h trivial).symm ▸ hmem)
  | _ => exact .of_mem ((handle_same h trivial).layers.symm ▸ hmem)

/-! ## The components -/

/-- A list of components replaces the old one only when nothing in the old one is locked. -/
theorem not_lockedComponent_of_replaced {kept : List String} (ho : origin ≠ .user)
    (hg : ∀ t ∈ kept, t ≠ "" → ∀ l ∈ m.lockedComponentIdsOf, lockMatches l t = false)
    (hd : refuseLockedComponentDrop m kept origin = .ok ()) (hmem : c ∈ m.layout.components) :
    ¬ LockedComponent m c := by
  rintro ⟨l, hl, hid⟩
  have hne : l ≠ "" := ne_empty_of_mem_lockedIds hl
  have hmatch := lockMatches_self hne
  have hstr : l ∈ stringIds m.layout.components :=
    mem_filterMap.mpr ⟨c, hmem, by rw [hid]⟩
  by_cases hk : l ∈ kept
  · rw [hg l hk hne l hl] at hmatch
    cases hmatch
  · unfold refuseLockedComponentDrop at hd
    dsimp only at hd
    split at hd
    · cases hd
    rename_i hn
    have hfree := Bool.eq_false_iff.mpr fun ht => hn ⟨ho, ht⟩
    have hdrop := (hasLocked_eq_false.mp hfree).2 l
      (mem_filter.mpr ⟨hstr, by simpa using hk⟩) hne l hl
    rw [hdrop] at hmatch
    cases hmatch

theorem id_ne_target {comp : Component} {l t : String} (hid : comp.id = l)
    (hl : l ∈ m.lockedComponentIdsOf)
    (hg : t ≠ "" → ∀ l ∈ m.lockedComponentIdsOf, lockMatches l t = false) : comp.id ≠ t := by
  rintro rfl
  have hne : comp.id ≠ "" := hid ▸ ne_empty_of_mem_lockedIds hl
  have hfree := hg hne l hl
  rw [← hid, lockMatches_self hne] at hfree
  cases hfree

/-- A locked component whose entry is written back as an equal one is read as a component with
    the locked id. -/
theorem readComponents_locked {cs : List Component} (hr : readComponents T m = .ok cs)
    (hmem : c ∈ m.layout.components) (hlock : LockedComponent m c) (hc : ¬ Reshaped T.schema c) :
    ∃ comp ∈ cs, Equal comp.toMapspec c ∧ ∃ l ∈ m.lockedComponentIdsOf, comp.id = l := by
  obtain ⟨comp, hcomp, hv⟩ := readComponents_mem hr hmem hlock.isObj
  obtain ⟨l, hl, hid⟩ := hlock
  have heq : Equal comp.toMapspec c := by
    by_contra hne
    exact hc ⟨comp, hv, hne⟩
  exact ⟨comp, hcomp, heq, l, hl, id_of_equal heq hid⟩

theorem handle_component_kept (ho : origin ≠ .user) (hg : guardIntentLocks m intent origin = none)
    (hmem : c ∈ m.layout.components) (hlock : LockedComponent m c)
    (hc : ¬ Reshapes T.schema c intent) (h : handle T m origin intent = .ok plan) :
    Kept c plan.mapspec.layout.components := by
  have hguard := (guardIntentLocks_eq_none ho hg).2
  cases intent with
  | patchComponent p =>
    obtain ⟨cs, hr, h⟩ := bind_eq_ok.mp h
    obtain ⟨_, _, h⟩ := bind_eq_ok.mp h
    obtain ⟨mutated, hm, h⟩ := bind_eq_ok.mp h
    obtain ⟨cs', hm', h⟩ := bind_eq_ok.mp h
    obtain ⟨_, _, h⟩ := bind_eq_ok.mp h
    cases h
    obtain rfl := orRaise_eq_ok.mp hm'
    obtain ⟨comp, hcomp, heq, l, hl, hid⟩ := readComponents_locked hr hmem hlock hc
    have hne := id_ne_target hid hl (hguard p.componentId (mem_singleton_self _))
    exact toEntries_kept (mutateComponent_mem (orRefuse_eq_ok.mp hm) hcomp hne) heq
  | removeComponent id =>
    obtain ⟨cs, hr, h⟩ := bind_eq_ok.mp h
    obtain ⟨cs', hm, h⟩ := bind_eq_ok.mp h
    cases h
    obtain ⟨comp, hcomp, heq, l, hl, hid⟩ := readComponents_locked hr hmem hlock hc
    have hne := id_ne_target hid hl (hguard id (mem_singleton_self _))
    exact toEntries_kept (removeComponent_mem (orRefuse_eq_ok.mp hm) hcomp hne) heq
  | duplicateComponent id newId =>
    obtain ⟨cs, hr, h⟩ := bind_eq_ok.mp h
    obtain ⟨cs', hm, h⟩ := bind_eq_ok.mp h
    obtain ⟨_, _, h⟩ := bind_eq_ok.mp h
    cases h
    obtain ⟨comp, hcomp, heq, l, hl, hid⟩ := readComponents_locked hr hmem hlock hc
    exact toEntries_kept (duplicateComponent_mem (orRefuse_eq_ok.mp hm) hcomp) heq
  | rebindComponent id bindings =>
    obtain ⟨cs, hr, h⟩ := bind_eq_ok.mp h
    obtain ⟨_, _, h⟩ := bind_eq_ok.mp h
    obtain ⟨cs', hm, h⟩ := bind_eq_ok.mp h
    cases h
    obtain ⟨comp, hcomp, heq, l, hl, hid⟩ := readComponents_locked hr hmem hlock hc
    have hne := id_ne_target hid hl (hguard id (mem_singleton_self _))
    exact toEntries_kept (rebindComponent_mem (orRefuse_eq_ok.mp hm) hcomp hne) heq
  | setLayout p =>
    obtain ⟨components, hn, h⟩ := bind_eq_ok.mp h
    obtain ⟨_, _, h⟩ := bind_eq_ok.mp h
    obtain ⟨_, _, h⟩ := bind_eq_ok.mp h
    cases h
    unfold newComponents at hn
    split at hn
    · rename_i given hgiven
      obtain ⟨_, hd, _⟩ := bind_eq_ok.mp hn
      refine absurd hlock (not_lockedComponent_of_replaced ho ?_ hd hmem)
      simpa [Intent.lockTargets, hgiven] using hguard
    · cases hn
      exact .of_mem hmem
  | restoreStyle s =>
    obtain ⟨layout, hl, h⟩ := bind_eq_ok.mp h
    obtain ⟨layers, _, h⟩ := bind_eq_ok.mp h
    cases h
    unfold restoredLayout at hl
    split at hl
    · rename_i given hgiven
      obtain ⟨_, hd, _⟩ := bind_eq_ok.mp hl
      refine absurd hlock (not_lockedComponent_of_replaced ho ?_ hd hmem)
      simpa [Intent.lockTargets, hgiven] using hguard
    · cases hl
      exact .of_mem hmem
  | upsertLayer | patchLayerPresentation | patchLayerStyle | removeLayer | reorderLayers
  | applyVisualHealPatch =>
    exact .of_mem ((handle_layout_of_layers h trivial).symm ▸ hmem)
  | _ => exact .of_mem ((handle_same h trivial).layout.symm ▸ hmem)

end

/-! ## The review and the commit -/

section

variable {E : Engine} {m m' candidate : MapSpec} {origin : Origin}

variable {suppressed : List String}

/-- What the candidate has of the locked layers and components, the document after repairs that
    spare them has too. -/
theorem reviewed_locksKept {made : List Json} (h : E.reviewed suppressed candidate = (m', made))
    (hr : RepairsSpare E.tools.str m made) (hc : LocksKept E.tools.str m candidate) :
    LocksKept E.tools.str m m' := by
  unfold reviewed reviewAndRepairCartography at h
  cases hl : reviewLoop E.reviewer suppressed candidate.lockedLayerIdsOf
      (min maxRepairIterations maxRepairIterations) candidate [] [] with
  | none =>
    rw [hl] at h
    cases h
    exact hc
  | some r =>
    rw [hl] at h
    cases h
    constructor
    · intro layer hmem hp
      refine reviewLoop_keeps (P := fun s => Kept layer s.layers) hl ?_ (hc.layers layer hmem hp)
      rintro r hrm s s' ⟨layer', hl', he⟩ hs
      exact ⟨layer', mem_layers_applyRepair hl' (hr.layers layer hmem hp layer' he r hrm) hs, he⟩
    · intro c hmem hp
      refine reviewLoop_keeps (P := fun s => Kept c s.layout.components) hl ?_
        (hc.components c hmem hp)
      rintro r hrm s s' ⟨c', hc', he⟩ hs
      exact ⟨c', mem_components_applyRepair hc' (hr.components c hmem hp c' he r hrm) hs, he⟩

theorem commit_reviewed {loaded : Option MapSpec} {r : MapSpec × List Json}
    (h : E.commit loaded suppressed candidate = .ok r) : E.reviewed suppressed candidate = r := by
  obtain ⟨_, _, h⟩ := bind_eq_ok.mp h
  obtain ⟨_, _, h⟩ := bind_eq_ok.mp h
  exact Except.ok.inj h

variable {intent : Intent}

theorem passGuard_eq_ok {u : Unit} (h : passGuard (some m) intent origin = .ok u) :
    guardIntentLocks m intent origin = none := by
  unfold passGuard at h
  split at h
  · cases h
  rename_i hnone
  exact hnone

theorem applyMutation_locksKept {committed : Committed} (ho : origin ≠ .user)
    (h : E.applyMutation (some m) intent origin = .ok committed)
    (hs : ∀ intent', E.checkIntent intent = .ok intent' → Spares E m origin intent') :
    LocksKept E.tools.str m committed.mapspec := by
  obtain ⟨intent', hi, h⟩ := bind_eq_ok.mp h
  obtain ⟨_, hpass, h⟩ := bind_eq_ok.mp h
  obtain ⟨_, _, h⟩ := bind_eq_ok.mp h
  obtain ⟨plan, hplan, h⟩ := bind_eq_ok.mp h
  obtain ⟨reviewed, hcommit, h⟩ := bind_eq_ok.mp h
  cases h
  have hplan : handle E.tools m origin intent' = .ok plan := hplan
  have hsp := hs intent' hi
  have hg := passGuard_eq_ok hpass
  have hr := commit_reviewed hcommit
  have hmade : E.repairsMade m origin intent' = reviewed.2 := by
    unfold repairsMade
    rw [hplan]
    exact congrArg Prod.snd hr
  refine reviewed_locksKept hr (hmade ▸ hsp.repairs) ⟨?_, ?_⟩
  · intro layer hmem hp
    exact handle_layer_kept hmem hp.isObj (hsp.layers layer hmem hp) hplan
  · intro c hmem hp
    exact handle_component_kept ho hg hmem hp (hsp.components c hmem hp) hplan

/-! ## Batches -/

variable {p : PresentationPatch} {s s' : BatchState}

/-- An intent of a batch leaves the candidate as it is, or rewrites the layers of its family in
    it. -/
theorem batchStep_cases (h : E.batchStep m origin s p = some s') :
    s'.candidate = s.candidate ∨
      ∃ layers, E.batchRefuses m origin p = false ∧
        rewriteLayers (E.familyHit p.layerId)
          (patchLayerPresentation p.visible p.opacity origin.text)
          (s.candidate.getD m).layers = some layers ∧
        s'.candidate = some { s.candidate.getD m with layers := layers } := by
  unfold batchStep at h
  split at h
  · cases h
    exact .inl rfl
  rename_i hrefuse
  rw [Bool.not_eq_true] at hrefuse
  obtain ⟨layers, hl, h⟩ := Option.bind_eq_some_iff.mp h
  split at h
  · cases h
    exact .inr ⟨layers, hrefuse, hl, rfl⟩
  · cases h
    exact .inl rfl

theorem batchStep_layout (hs : (s.candidate.getD m).layout = m.layout)
    (h : E.batchStep m origin s p = some s') : (s'.candidate.getD m).layout = m.layout := by
  obtain hsame | ⟨layers, _, _, hnew⟩ := batchStep_cases h
  · rw [hsame]
    exact hs
  · rw [hnew]
    exact hs

theorem batchStep_kept {layer : Json}
    (hc : E.batchRefuses m origin p = false → ∀ layer', Equal layer' layer →
      ¬ Alters E.tools m origin layer' (.patchLayerPresentation p.layerId p.visible p.opacity))
    (hs : Kept layer (s.candidate.getD m).layers) (h : E.batchStep m origin s p = some s') :
    Kept layer (s'.candidate.getD m).layers := by
  obtain hsame | ⟨layers, hrefuse, hl, hnew⟩ := batchStep_cases h
  · rw [hsame]
    exact hs
  · rw [hnew]
    obtain ⟨layer', hmem, he⟩ := hs
    have hfree : ¬ (E.familyHit p.layerId layer' ∧
        Changes (patchLayerPresentation p.visible p.opacity origin.text) layer') := by
      rintro ⟨hhit, hch⟩
      unfold familyHit at hhit
      rw [Bool.and_eq_true] at hhit
      exact hc hrefuse layer' he ⟨hhit.2, hch⟩
    obtain ⟨layer'', hmem', he'⟩ := rewriteLayers_kept hmem hfree hl
    exact ⟨layer'', hmem', he'.trans he⟩

theorem applyPresentationBatch_locksKept {intents : List PresentationPatch}
    {r : Committed × List BatchStatus}
    (h : E.applyPresentationBatch (some m) intents origin = .ok r)
    (hs : BatchSpares E m origin intents) : LocksKept E.tools.str m r.1.mapspec := by
  obtain ⟨s, hfold, h⟩ := bind_eq_ok.mp h
  have hfold : intents.foldlM (E.batchStep m origin) {} = some s := orRaise_eq_ok.mp hfold
  split at h
  · cases h
  rename_i candidate hcand
  obtain ⟨reviewed, hcommit, h⟩ := bind_eq_ok.mp h
  cases h
  have hr := commit_reviewed hcommit
  have hmade : E.batchRepairs m origin intents = reviewed.2 := by
    unfold batchRepairs
    rw [hfold, Option.bind_some, hcand]
    exact congrArg Prod.snd hr
  have hbase : s.candidate.getD m = candidate := by rw [hcand]; rfl
  refine reviewed_locksKept hr (hmade ▸ hs.repairs) ⟨?_, ?_⟩
  · intro layer hmem hp
    have hkept : Kept layer (s.candidate.getD m).layers :=
      foldlM_keeps (P := fun s => Kept layer (s.candidate.getD m).layers)
        (fun p hpm s s' hk hstep => batchStep_kept
          (fun hrefuse layer' he => hs.layers layer hmem hp layer' he p hpm hrefuse) hk hstep)
        (.of_mem hmem) hfold
    rw [hbase] at hkept
    exact hkept
  · intro c hmem _
    have hlayout : (s.candidate.getD m).layout = m.layout :=
      foldlM_keeps (P := fun s => (s.candidate.getD m).layout = m.layout)
        (fun p _ s s' hk hstep => batchStep_layout hk hstep) rfl hfold
    rw [hbase] at hlayout
    exact .of_mem (hlayout ▸ hmem)

end

/-! ## Locks of the user -/

/-- An engine whose review has nothing to say, and whose checks pass. -/
def quietEngine : Engine where
  tools :=
    { str := fun _ => ""
      schema :=
        { validate := fun _ => none
          validatePlacement := fun _ => none
          factory := fun _ => none
          coerceVariant := fun _ v => v
          bytes := fun _ => 0 }
      ingest := fun _ layer _ => .ok { layer := layer, sourceEntry := [] }
      qualityGate := fun entry layer => .ok (entry, layer)
      temporal := some
      sceneValid := fun _ => true
      assetsValid := fun _ => true
      planHeal := fun _ _ _ => []
      recolour := fun _ => some }
  reviewer :=
    { evaluate := fun _ => some { status := "not_evaluated", checks := [] }
      failureFingerprint := fun _ => ""
      fingerprint := fun _ => ""
      applyPaletteChange := fun _ => some }
  checkIntent := .ok
  preCommitRefuses := fun _ _ => false
  blockingCodes := fun _ => []
  priorBlockingCodes := fun _ => []
  lockLost := false

/-- The labels of the roads. -/
def roadLabels : Fields := [("id", .str "roads-label"), ("type", .str "symbol"), ("source", .str "s")]

/-- The rivers. -/
def rivers : Fields := [("id", .str "rivers"), ("type", .str "line"), ("source", .str "s")]

/-- A map with the labels of the roads locked. -/
def roadMap : MapSpec where
  layers := [.obj roadLabels, .obj rivers]
  workbench := some (.obj [("lockedLayerIds", .arr [.str "roads-label"])])
  branches := Dict.ofList [("sources", .obj [("s", .obj [("type", .str "geojson")])])]

theorem pinned_roadMap {layer : Json} (hmem : layer ∈ roadMap.layers)
    (hp : Pinned str roadMap layer) : layer = .obj roadLabels := by
  obtain ⟨l, hl, hlayer⟩ := hp
  have hl : l ∈ ["roads-label"] := hl
  rw [mem_singleton.mp hl] at hlayer
  have hmem : layer ∈ [.obj roadLabels, .obj rivers] := hmem
  rcases mem_cons.mp hmem with rfl | hmem
  · rfl
  rw [mem_singleton.mp hmem] at hlayer
  have hlayer : inFamily "rivers" "roads-label" = true := hlayer
  exact absurd hlayer (by decide)

theorem not_shouldRemoveLayer_rivers {layer : Json} (he : Equal layer (.obj roadLabels)) :
    ¬ shouldRemoveLayer str layer "rivers" = true := by
  intro h
  cases layer with
  | obj fs =>
    cases hid : field "id" fs with
    | none =>
      rw [shouldRemoveLayer, idText, get?, hid] at h
      cases h
    | some v =>
      obtain ⟨w, hw, hwv⟩ := get?_of_equal he (by decide) hid
      cases hw
      obtain rfl := eq_str_of_equal hwv.symm
      rw [shouldRemoveLayer, idText, get?, hid] at h
      have h : inFamily "roads-label" "rivers" = true := h
      exact absurd h (by decide)
  | _ => cases h

theorem repairsSpare_nil (str : Json → String) (m : MapSpec) : RepairsSpare str m [] :=
  ⟨fun _ _ _ _ _ _ hr => absurd hr not_mem_nil, fun _ _ _ _ _ _ hr => absurd hr not_mem_nil⟩

end WebGis.Mapspec
