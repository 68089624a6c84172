/-
  What the review leaves as it is, whatever the evaluator finds.

  A repair of a layer is dropped when its layer is locked. No such test stands before the move of
  floating components, and the repair of the legend is dropped only where the caller asks for it:
  a mutation does, a batch does not. `review_respects_iff` says for a candidate of either when no
  list of findings can change a locked layer, a locked component or a legend that is switched off.
-/
import WebGis.Mapspec.Blocking

namespace WebGis.Mapspec

open Data Json List Option Engine Dict

/-- The entry has an id that the locks cover. -/
def Locked (locked : List String) (entry : Json) : Prop :=
  ∃ id, entry.get? "id" = some (.str id) ∧ isEntityLocked id locked = true

/-- `mapspec["layout"]["legend"]["visible"]` -/
def legendVisible (m : MapSpec) : Option Json :=
  match m.layout.parts.find "legend" with
  | some (.obj legend) => field "visible" legend
  | _ => none

/-- The legend is explicitly switched off. -/
def LegendOff (m : MapSpec) : Prop := legendVisible m = some (.bool false)

/-- What is locked stays in its place as it was, and a legend that is off stays off. -/
structure Respects (before after : MapSpec) : Prop where
  layers : ∀ (i : Nat) l, before.layers[i]? = some l → Locked before.lockedLayerIdsOf l →
    after.layers[i]? = some l
  components : ∀ (i : Nat) c, before.layout.components[i]? = some c →
    Locked before.lockedComponentIdsOf c → after.layout.components[i]? = some c
  legend : LegendOff before → LegendOff after

/-- The repairs find the layers by their ids. -/
def Repairable (m : MapSpec) : Prop :=
  m.layers.all (fun l => ((l.get? "id").filter truthy).all hashable) = true

/-- The components are looked up by their ids. -/
def Movable (m : MapSpec) : Prop :=
  m.layout.components.all (fun c => (c.get? "id").all hashable) = true

/-- No component that floats is locked, or none can be moved. -/
def Spared (m : MapSpec) : Prop :=
  Repairable m → Movable m → ∀ c ∈ m.layout.components, Locked m.lockedComponentIdsOf c →
    floats c = false

theorem Respects.refl (m : MapSpec) : Respects m m :=
  ⟨fun _ _ h _ => h, fun _ _ h _ => h, id⟩

/-! ## One repair -/

section

variable {R : Reviewer} {m m' : MapSpec} {repair : Json}

variable {i : Nat}

theorem getElem?_editLast {hit : Json → Bool} {f : Fields → Option Fields}
    {layers layers' : List Json} {layer : Json} (hi : layers[i]? = some layer)
    (hh : hit layer = false) (he : editLast hit f layers = some layers') :
    layers'[i]? = some layer := by
  induction layers generalizing layers' i with
  | nil => cases hi
  | cons v rest ih =>
    unfold editLast at he
    split at he
    · rename_i hv
      split at he
      · obtain ⟨fs', _, rfl⟩ := map_eq_some_iff.mp he
        cases i with
        | zero =>
          obtain rfl := some.inj hi
          rw [hh] at hv
          cases hv
        | succ i => exact hi
      · cases he
        exact hi
    · obtain ⟨rest', hr, rfl⟩ := map_eq_some_iff.mp he
      cases i with
      | zero => exact hi
      | succ i => exact ih (i := i) hi hr

theorem applyRepair_layer {locked : List String} {layer : Json} (hl : m.layers[i]? = some layer)
    (hlock : Locked locked layer) (hr : lockedRepair locked repair = false)
    (h : applyRepair R m repair = some m') : m'.layers[i]? = some layer := by
  obtain rfl | ⟨_, _, _, rfl⟩ | ⟨_, rfl⟩ | ⟨layers, _, he, rfl⟩ := applyRepair_cases h
  · exact hl
  · exact hl
  · exact hl
  · refine getElem?_editLast hl ?_ he
    obtain ⟨id, hid, hcovered⟩ := hlock
    by_contra hhit
    rw [Bool.not_eq_false, hasId, Bool.and_eq_true, hid] at hhit
    have heq : repair.get? "layer_id" = some (.str id) := by
      cases hlid : repair.get? "layer_id" with
      | none =>
        rw [hlid] at hhit
        have he : Equal (.str id) .null := equal_iff.mp hhit.2
        cases eq_str_of_equal he.symm
      | some v =>
        rw [hlid] at hhit
        have he : Equal (.str id) v := equal_iff.mp hhit.2
        rw [eq_str_of_equal he.symm]
    unfold lockedRepair at hr
    rw [heq] at hr
    exact absurd hcovered (Bool.eq_false_iff.mp hr)

theorem applyRepair_component {c : Json} (hc : m.layout.components[i]? = some c)
    (hf : floats c = false) (h : applyRepair R m repair = some m') :
    m'.layout.components[i]? = some c := by
  obtain rfl | ⟨placements, _, _, rfl⟩ | ⟨_, rfl⟩ | ⟨layers, _, _, rfl⟩ := applyRepair_cases h
  · exact hc
  · have hsame : moveComponent placements c = c := moveComponent_eq_self (by rw [hf]; rfl)
    rw [getElem?_map, hc, map_some, hsame]
  · exact hc
  · exact hc

theorem applyRepair_not_movable (hm : ¬ Movable m) (h : applyRepair R m repair = some m') :
    m'.layout.components = m.layout.components := by
  obtain rfl | ⟨placements, hop, hp, rfl⟩ | ⟨_, rfl⟩ | ⟨layers, _, _, rfl⟩ := applyRepair_cases h
  · rfl
  · rw [applyRepair, if_pos hop, hp] at h
    dsimp only at h
    split at h
    · rename_i hall
      rw [Bool.and_eq_true] at hall
      exact absurd hall.2 hm
    · cases h
  · rfl
  · rfl

theorem applyRepair_parts (hr : operation repair ≠ "set_map_legend_visibility")
    (h : applyRepair R m repair = some m') : m'.layout.parts = m.layout.parts := by
  unfold applyRepair at h
  rw [if_neg hr] at h
  split at h
  · split at h
    · split at h
      · cases h
        rfl
      · cases h
    · cases h
      rfl
  · split at h
    · dsimp only at h
      split at h
      · obtain ⟨layers, _, rfl⟩ := map_eq_some_iff.mp h
        rfl
      · cases h
    · cases h
      rfl

end

/-! ## The rounds -/

section

variable {R : Reviewer} {suppressed locked : List String} {m m' : MapSpec} {made : List Json}

variable {seenPatches seenFailures : List String} {rounds : Nat}

theorem reviewLoop_made
    (h : reviewLoop R suppressed locked rounds m seenFailures seenPatches = some (m', made)) :
    ∀ r ∈ made, operation r ∉ suppressed ∧ lockedRepair locked r = false := by
  induction rounds generalizing m made seenFailures seenPatches with
  | zero =>
    obtain ⟨review, _, h⟩ := bind_eq_some_iff.mp h
    dsimp only at h
    split at h
    · cases h
      exact fun _ hr => absurd hr not_mem_nil
    · split at h <;> cases h <;> exact fun _ hr => absurd hr not_mem_nil
  | succ rounds ih =>
    obtain ⟨review, _, h⟩ := bind_eq_some_iff.mp h
    dsimp only at h
    split at h
    · cases h
      exact fun _ hr => absurd hr not_mem_nil
    split at h
    · cases h
      exact fun _ hr => absurd hr not_mem_nil
    split at h
    · cases h
      exact fun _ hr => absurd hr not_mem_nil
    obtain ⟨next, _, h⟩ := bind_eq_some_iff.mp h
    obtain ⟨⟨m₁, rest⟩, hrest, h⟩ := bind_eq_some_iff.mp h
    cases h
    intro r hr
    rcases mem_append.mp hr with hr | hr
    · have hkept := (mem_filter.mp hr).2
      simpa using hkept
    · exact ih hrest r hr

theorem reviewLoop_not_repairable (hm : ¬ Repairable m)
    (h : reviewLoop R suppressed locked rounds m seenFailures seenPatches = some (m', made)) :
    m' = m := by
  have hraises (repairs : List Json) : applyRepairs R m repairs = none := if_neg hm
  unfold reviewLoop at h
  obtain ⟨review, _, h⟩ := bind_eq_some_iff.mp h
  dsimp only at h
  split at h
  · cases h
    rfl
  split at h
  · cases h
    rfl
  cases rounds with
  | zero =>
    cases h
    rfl
  | succ rounds =>
    dsimp only at h
    split at h
    · cases h
      rfl
    · rw [hraises] at h
      cases h

/-- The review leaves alone what is locked, where no floating component is, and a legend that is
    off, where its repair is suppressed. -/
theorem reviewLoop_respects (hs : Spared m)
    (hlegend : LegendOff m → Repairable m → "set_map_legend_visibility" ∈ suppressed)
    (h : reviewLoop R suppressed m.lockedLayerIdsOf rounds m seenFailures seenPatches =
      some (m', made)) : Respects m m' := by
  by_cases hrep : Repairable m
  · have hmade := reviewLoop_made h
    constructor
    · intro i l hl hlock
      refine reviewLoop_keeps (P := fun s => s.layers[i]? = some l) h ?_ hl
      exact fun r hr s s' hs hstep => applyRepair_layer hs hlock (hmade r hr).2 hstep
    · intro i c hc hlock
      by_cases hmov : Movable m
      · have hf := hs hrep hmov c (mem_of_getElem? hc) hlock
        refine reviewLoop_keeps (P := fun s => s.layout.components[i]? = some c) h ?_ hc
        exact fun r _ s s' hs hstep => applyRepair_component hs hf hstep
      · have hsame : m'.layout.components = m.layout.components := by
          refine reviewLoop_keeps (P := fun s => s.layout.components = m.layout.components) h ?_ rfl
          intro r _ s s' hs hstep
          have hstuck : ¬ Movable s := by
            unfold Movable
            rw [hs]
            exact hmov
          exact (applyRepair_not_movable hstuck hstep).trans hs
        rw [hsame]
        exact hc
    · intro hoff
      have hparts : m'.layout.parts = m.layout.parts := by
        refine reviewLoop_keeps (P := fun s => s.layout.parts = m.layout.parts) h ?_ rfl
        intro r hr s s' hs hstep
        have hop : operation r ≠ "set_map_legend_visibility" := fun he =>
          (hmade r hr).1 (he ▸ hlegend hoff hrep)
        exact (applyRepair_parts hop hstep).trans hs
      unfold LegendOff legendVisible at hoff ⊢
      rw [hparts]
      exact hoff
  · rw [reviewLoop_not_repairable hrep h]
    exact .refl m

end

/-! ## Candidates -/

/-- A layer that a batch can be aimed at. -/
def Patchable (m : MapSpec) : Prop :=
  ∃ layer ∈ m.layers, layer.isObj = true ∧ (layer.get? "id").any truthy = true

namespace Engine

variable (E : Engine)

/-- The document that `apply_mutation` reviews. -/
def candidate (loaded : Option MapSpec) (intent : Intent) (origin : Origin) :
    Except Stop MapSpec := do
  let intent ← E.checkIntent intent
  let plan ← handle E.tools (loaded.getD skeleton) origin intent
  return stripTransientState plan.mapspec

/-- The document that `apply_presentation_batch` reviews, if there is one. -/
def batchCandidate (loaded : Option MapSpec) (intents : List PresentationPatch)
    (origin : Origin) : Option MapSpec :=
  (intents.foldlM (E.batchStep (loaded.getD skeleton) origin) {}).bind fun s =>
    s.candidate.map stripTransientState

end Engine

section

variable {E : Engine} {loaded : Option MapSpec} {origin : Origin} {m : MapSpec}

theorem applyMutation_reviewed {intent : Intent} {out : Committed}
    (hc : E.candidate loaded intent origin = .ok m)
    (h : E.applyMutation loaded intent origin = .ok out) :
    out.mapspec = (E.reviewed (suppressedRepairs m) m).1 := by
  obtain ⟨intent', hi, h⟩ := bind_eq_ok.mp h
  obtain ⟨_, _, h⟩ := bind_eq_ok.mp h
  obtain ⟨_, _, h⟩ := bind_eq_ok.mp h
  obtain ⟨plan, hplan, h⟩ := bind_eq_ok.mp h
  obtain ⟨reviewed, hcommit, h⟩ := bind_eq_ok.mp h
  obtain ⟨intent'', hi', hc⟩ := bind_eq_ok.mp hc
  obtain ⟨plan', hplan', hc⟩ := bind_eq_ok.mp hc
  rw [hi] at hi'
  cases hi'
  rw [hplan] at hplan'
  cases hplan'
  cases hc
  cases h
  exact congrArg Prod.fst (commit_reviewed hcommit).symm

theorem applyPresentationBatch_reviewed {intents : List PresentationPatch}
    {r : Committed × List BatchStatus} (hc : E.batchCandidate loaded intents origin = some m)
    (h : E.applyPresentationBatch loaded intents origin = .ok r) :
    r.1.mapspec = (E.reviewed [] m).1 := by
  obtain ⟨s, hfold, h⟩ := bind_eq_ok.mp h
  unfold batchCandidate at hc
  rw [orRaise_eq_ok.mp hfold, bind_some] at hc
  obtain ⟨candidate, hcand, rfl⟩ := map_eq_some_iff.mp hc
  rw [hcand] at h
  obtain ⟨reviewed, hcommit, h⟩ := bind_eq_ok.mp h
  cases h
  exact congrArg Prod.fst (commit_reviewed hcommit).symm

theorem reviewed_respects {suppressed : List String} (hs : Spared m)
    (hlegend : LegendOff m → Repairable m → "set_map_legend_visibility" ∈ suppressed) :
    Respects m (E.reviewed suppressed m).1 := by
  unfold reviewed reviewAndRepairCartography
  cases h : reviewLoop E.reviewer suppressed m.lockedLayerIdsOf
      (min maxRepairIterations maxRepairIterations) m [] [] with
  | none => exact .refl m
  | some r => exact reviewLoop_respects hs hlegend h

theorem suppressedRepairs_of_legendOff (h : LegendOff m) :
    suppressedRepairs m = ["set_map_legend_visibility"] := by
  unfold LegendOff legendVisible at h
  unfold suppressedRepairs
  cases hl : m.layout.parts.find "legend" with
  | none =>
    rw [hl] at h
    cases h
  | some v =>
    rw [hl] at h
    cases v with
    | obj legend =>
      dsimp only at h ⊢
      rw [h]
      rfl
    | _ => cases h

end

/-! ## A batch keeps the ids of the layers -/

section

variable {E : Engine} {loaded : MapSpec} {origin : Origin}

variable {fs : Fields}

theorem field_dropField_ne {k k' : String} (h : k ≠ k') :
    field k (dropField fs k') = field k fs := by
  induction fs with
  | nil => rfl
  | cons f fs ih =>
    by_cases hf : f.1 = k'
    · have hne : ¬ f.1 = k := fun he => h (he.symm.trans hf)
      rw [field_cons, if_neg hne, ← ih]
      simp [dropField, hf]
    · have hcons : dropField (f :: fs) k' = f :: dropField fs k' := by simp [dropField, hf]
      rw [hcons, field_cons, field_cons, ih]

theorem field_id_setField {k : String} {v : Json} (hk : k ≠ "id") :
    field "id" (setField fs k v) = field "id" fs := by
  rw [field_setField, if_neg hk]

variable {text : String} {fs' : Fields}

theorem field_id_withVisibility {visible : Bool} (h : withVisibility fs visible text = some fs') :
    field "id" fs' = field "id" fs := by
  obtain ⟨layout, _, h⟩ := bind_eq_some_iff.mp h
  obtain ⟨intent, _, h⟩ := bind_eq_some_iff.mp h
  cases h
  rw [field_id_setField (by decide), field_id_setField (by decide), field_dropField_ne (by decide)]

theorem field_id_withOpacity {opacity : Json} (h : withOpacity fs opacity = some fs') :
    field "id" fs' = field "id" fs := by
  obtain ⟨paint, _, h⟩ := bind_eq_some_iff.mp h
  cases h
  exact field_id_setField (by decide)

theorem field_id_patchLayerPresentation {visible : Option Bool} {opacity : Option Json}
    (h : patchLayerPresentation visible opacity text fs = some fs') :
    field "id" fs' = field "id" fs := by
  cases visible with
  | none =>
    cases opacity with
    | none =>
      cases h
      rfl
    | some o => exact field_id_withOpacity h
  | some v =>
    obtain ⟨shown, hshown, h⟩ := bind_eq_some_iff.mp h
    rw [← field_id_withVisibility hshown]
    cases opacity with
    | none =>
      cases h
      rfl
    | some o => exact field_id_withOpacity h

variable {p : PresentationPatch}

theorem patchable_rewriteLayers {hit : Json → Bool} {layers : List Json} {m : MapSpec}
    (hm : Patchable m)
    (h : rewriteLayers hit (patchLayerPresentation p.visible p.opacity text) m.layers =
      some layers) : Patchable { m with layers := layers } := by
  obtain ⟨layer, hmem, hobj, hid⟩ := hm
  suffices hrest : ∀ (before after : List Json), layer ∈ before →
      rewriteLayers hit (patchLayerPresentation p.visible p.opacity text) before = some after →
      ∃ l ∈ after, l.isObj = true ∧ (l.get? "id").any truthy = true from
    hrest m.layers layers hmem h
  intro before
  induction before with
  | nil => exact fun _ hmem => absurd hmem not_mem_nil
  | cons v before ih =>
    intro after hmem h
    cases v with
    | obj fs =>
      obtain ⟨fs', hfs, h⟩ := bind_eq_some_iff.mp h
      obtain ⟨rest, hrest, rfl⟩ := map_eq_some_iff.mp h
      rcases mem_cons.mp hmem with rfl | hmem
      · have hsame : field "id" fs' = field "id" fs := by
          dsimp only at hfs
          split at hfs
          · exact field_id_patchLayerPresentation hfs
          · cases hfs
            rfl
        refine ⟨.obj fs', mem_cons_self, rfl, ?_⟩
        rw [get?, hsame]
        exact hid
      · obtain ⟨l, hl, hrest⟩ := ih rest hmem hrest
        exact ⟨l, mem_cons_of_mem _ hl, hrest⟩
    | _ =>
      obtain ⟨rest, hrest, rfl⟩ := map_eq_some_iff.mp h
      rcases mem_cons.mp hmem with rfl | hmem
      · cases hobj
      obtain ⟨l, hl, hrest⟩ := ih rest hmem hrest
      exact ⟨l, mem_cons_of_mem _ hl, hrest⟩

theorem patchable_of_hit {m : MapSpec} {id : String} (h : m.layers.any (E.familyHit id)) :
    Patchable m := by
  obtain ⟨layer, hmem, hhit⟩ := List.any_eq_true.mp h
  unfold familyHit at hhit
  rw [Bool.and_eq_true] at hhit
  refine ⟨layer, hmem, hhit.1, ?_⟩
  by_contra hid
  rw [Bool.not_eq_true] at hid
  have htext : idText E.tools.str layer = "" := by
    unfold idText
    cases hv : layer.get? "id" with
    | none => rfl
    | some v =>
      rw [hv] at hid
      have hid : v.truthy = false := hid
      cases v with
      | str s => simpa [truthy] using hid
      | _ => simp [hid]
  have hfam : inFamily (idText E.tools.str layer) id := hhit.2
  rw [htext] at hfam
  simp [inFamily] at hfam

theorem batchStep_patchable {s s' : BatchState} (hs : ∀ c ∈ s.candidate, Patchable c)
    (h : E.batchStep loaded origin s p = some s') : ∀ c ∈ s'.candidate, Patchable c := by
  unfold batchStep at h
  split at h
  · cases h
    exact hs
  · obtain ⟨layers, hl, h⟩ := bind_eq_some_iff.mp h
    split at h
    · rename_i hhit
      cases h
      intro c hc
      cases hc
      exact patchable_rewriteLayers (patchable_of_hit hhit) hl
    · cases h
      exact hs

theorem patchable_batchCandidate {loaded : Option MapSpec} {intents : List PresentationPatch}
    {m : MapSpec} (h : E.batchCandidate loaded intents origin = some m) : Patchable m := by
  obtain ⟨s, hfold, h⟩ := bind_eq_some_iff.mp h
  obtain ⟨c, hc, rfl⟩ := map_eq_some_iff.mp h
  exact foldlM_keeps (P := fun s => ∀ c ∈ s.candidate, Patchable c)
    (fun p _ s s' hs hstep => batchStep_patchable hs hstep)
    (fun c hc => absurd hc (by simp)) hfold c hc

end

/-! ## A finding that changes what it can -/

/-- An evaluator that has one repair to offer, whatever it sees. -/
def reporting (fix : Json) : Reviewer where
  evaluate := fun _ => some {
    status := "fail"
    checks := [{ status := "fail", repairability := "auto_safe", suggestedFix := fix }] }
  failureFingerprint := fun _ => ""
  fingerprint := fun _ => ""
  applyPaletteChange := fun _ => some

/-- An engine with this evaluator whose own checks pass. -/
def reportingEngine (fix : Json) : Engine :=
  { gatedEngine (fun _ => none) empty with
    tools := { quietEngine.tools with str := fun _ => "id" }
    reviewer := reporting fix }

theorem reportingEngine_gated (fix : Json) :
    (reportingEngine fix).Gated (fun _ => none) empty := ⟨rfl, rfl⟩

/-- The repair of a layout that a finding asks for. -/
structure Offered (suppressed : List String) (fix : Json) (m next : MapSpec) : Prop where
  operation : (fix.get? "operation").any truthy = true
  unsuppressed : Mapspec.operation fix ∉ suppressed
  unaimed : fix.get? "layer_id" = none
  repaired : applyRepair (reporting fix) m fix = some next
  layout : next = { m with layout := next.layout }

section

variable {suppressed : List String} {fix : Json} {m next : MapSpec}

theorem reviewed_reporting (ho : Offered suppressed fix m next) (hm : Repairable m) :
    (reportingEngine fix).reviewed suppressed m = (next, [fix]) := by
  have hplan : planAutoSafeRepairs (reporting fix)
      { status := "fail"
        checks := [{ status := "fail", repairability := "auto_safe", suggestedFix := fix }] } =
      [fix] := by
    simp [planAutoSafeRepairs, ho.operation]
  have hlock (locked : List String) : lockedRepair locked fix = false := by
    rw [lockedRepair, ho.unaimed]
  have hkept (locked : List String) : keptRepairs (reporting fix) suppressed locked
      { status := "fail"
        checks := [{ status := "fail", repairability := "auto_safe", suggestedFix := fix }] } =
      [fix] := by
    simp [keptRepairs, hplan, hlock, ho.unsuppressed]
  have hrepairs : applyRepairs (reporting fix) m [fix] = some next := by
    unfold Repairable at hm
    rw [applyRepairs, if_pos hm, foldlM_cons, ho.repaired]
    rfl
  have hagain (locked : List String) (rounds : Nat) :
      reviewLoop (reporting fix) suppressed locked rounds next [""] [""] = some (next, []) := by
    unfold reviewLoop
    rfl
  have hloop : reviewLoop (reporting fix) suppressed m.lockedLayerIdsOf 2 m [] [] =
      some (next, [fix]) := by
    unfold reviewLoop
    have hstatus : ("fail" ∈ settledStatuses) = False := by decide
    simp only [reporting] at hkept hrepairs hagain ⊢
    simp [hkept, hrepairs, hagain, hstatus]
  change (reviewLoop (reporting fix) suppressed m.lockedLayerIdsOf 2 m [] []).getD (m, []) = _
  rw [hloop]
  rfl

theorem validate_layout (m : MapSpec) (layout : Layout) :
    validate { m with layout := layout } = validate m := rfl

/-- What only changes the layout passes the gate. -/
theorem commit_reporting {d : MapSpec} (ho : Offered suppressed fix (stripTransientState d) next)
    (hm : Repairable d) :
    (reportingEngine fix).commit (some d) suppressed (stripTransientState d) =
      .ok (next, [fix]) := by
  have hcodes : blockingErrorCodes next = blockingErrorCodes d := by
    unfold blockingErrorCodes
    rw [ho.layout, validate_layout, validate_stripTransientState]
  have hpass : (reportingEngine fix).validates (some d) next := by
    change (blockingErrorCodes next).all (· ∈ blockingErrorCodes d)
    rw [hcodes]
    simp
  unfold commit
  rw [reviewed_reporting ho hm]
  simp only [hpass]
  rfl

end

/-! ## Moving a component, showing the legend -/

/-- A number that is not the given value. -/
def otherNumber (v : Option Json) : Json := if v = some (.int 0) then .int 1 else .int 0

/-- The repair that moves one component. -/
def moveFix (id : String) (x : Json) : Json :=
  .obj [("operation", .str "resolve_floating_layout"),
    ("placements", .arr [.obj [("component_id", .str id), ("x", x), ("y", x)]])]

/-- The repair that shows the legend. -/
def legendFix : Json :=
  .obj [("operation", .str "set_map_legend_visibility"), ("value", .bool true)]

section

variable {m : MapSpec}

theorem otherNumber_ne (v : Option Json) : some (otherNumber v) ≠ v := by
  unfold otherNumber
  split
  · rename_i h
    rw [h]
    decide
  · rename_i h
    exact fun he => h he.symm

theorem isNumber_otherNumber (v : Option Json) : isNumber (otherNumber v) := by
  unfold otherNumber
  split <;> rfl

theorem exists_move {c : Json} {id : String} (hid : c.get? "id" = some (.str id)) (hne : id ≠ "")
    (hf : floats c) :
    ∃ x, moveComponent [.obj [("component_id", .str id), ("x", x), ("y", x)]] c ≠ c := by
  cases c with
  | obj fs =>
    unfold floats at hf
    cases hp : (Json.obj fs).get? "placement" with
    | none =>
      rw [hp] at hf
      cases hf
    | some placement =>
      cases placement with
      | obj p =>
        let x := otherNumber (field "x" p)
        refine ⟨x, fun hsame => ?_⟩
        have hfield : field "placement" fs = some (.obj p) := hp
        have hfor : placementFor (.obj fs)
            (.obj [("component_id", .str id), ("x", x), ("y", x)]) = true := by
          unfold placementFor
          rw [hid]
          simp [get?, field, truthy, hne, equal]
        have hfloats : floats (.obj fs) := by
          exact hf
        have hmoved : moveComponent [.obj [("component_id", .str id), ("x", x), ("y", x)]]
            (.obj fs) =
            .obj (setField fs "placement" (.obj (setField (setField p "x" x) "y" x))) := by
          unfold moveComponent
          simp only [reverse_singleton, find?_cons_of_pos hfor, hfield]
          simp [get?, field, hfloats, x, isNumber_otherNumber]
        rw [hmoved] at hsame
        have hplace :=
          congrArg (fun v => (Json.get? v "placement").bind (Json.get? · "x")) hsame
        simp only [get?, field_setField, hfield, if_true, bind_some,
          if_neg (show ("y" : String) ≠ "x" by decide)] at hplace
        exact otherNumber_ne _ hplace
      | _ =>
        rw [hp] at hf
        cases hf
  | _ => cases hid

theorem isEntityLocked_ne {id : String} {locked : List String}
    (h : isEntityLocked id locked = true) : id ≠ "" := by
  rintro rfl
  simp [isEntityLocked] at h

theorem exists_disrespect {c : Json} {suppressed : List String} (hmov : Movable m)
    (hmem : c ∈ m.layout.components) (hlock : Locked m.lockedComponentIdsOf c)
    (hf : floats c = true) (hs : "resolve_floating_layout" ∉ suppressed) :
    ∃ fix next, Offered suppressed fix m next ∧ ¬ Respects m next := by
  obtain ⟨id, hid, hcovered⟩ := hlock
  obtain ⟨x, hx⟩ := exists_move hid (isEntityLocked_ne hcovered) hf
  obtain ⟨i, hi⟩ := getElem?_of_mem hmem
  let placements := [Json.obj [("component_id", .str id), ("x", x), ("y", x)]]
  refine ⟨moveFix id x, { m with layout :=
    { m.layout with components := m.layout.components.map (moveComponent placements) } },
    ⟨rfl, hs, rfl, ?_, rfl⟩, ?_⟩
  · have hall : (placements.all fun p => ((p.get? "component_id").filter truthy).all hashable) =
        true := by
      simp [placements, get?, field, Option.filter, truthy, hashable, isEntityLocked_ne hcovered]
    change (if _ then some _ else none) = _
    rw [if_pos (by rw [Bool.and_eq_true]; exact ⟨hall, hmov⟩)]
  · intro hr
    have hkept := hr.components i c hi ⟨id, hid, hcovered⟩
    rw [getElem?_map, hi, map_some] at hkept
    exact hx (some.inj hkept)

theorem exists_shown (hoff : LegendOff m) :
    ∃ next, Offered [] legendFix m next ∧ ¬ Respects m next := by
  refine ⟨_, ⟨rfl, not_mem_nil, rfl, rfl, rfl⟩, fun hr => ?_⟩
  have hstill := hr.legend hoff
  unfold LegendOff legendVisible at hstill
  rw [find_set_self] at hstill
  dsimp only at hstill
  rw [field_setField, if_pos rfl] at hstill
  cases hstill

end

/-! ## When every review respects the user -/

/-- The commits of an engine whose candidate is `m`, when it is a mutation's. -/
structure Engine.MutationRespects (E : Engine) (m : MapSpec) : Prop where
  intent : ∀ loaded intent origin out, E.candidate loaded intent origin = .ok m →
    E.applyMutation loaded intent origin = .ok out → Respects m out.mapspec
  /-- the intents that replace the document or write its workbench among them -/
  handler : ∀ loaded handler plan out, handler (loaded.getD skeleton) = .ok plan →
    stripTransientState plan.mapspec = m → E.runHandler loaded handler = .ok out → Respects m out

/-- The commits of an engine whose candidate is `m`, when it is a batch's. -/
def Engine.BatchRespects (E : Engine) (m : MapSpec) : Prop :=
  ∀ loaded intents origin r, E.batchCandidate loaded intents origin = some m →
    E.applyPresentationBatch loaded intents origin = .ok r → Respects m r.1.mapspec

section

variable {E : Engine} {d : MapSpec}

theorem mutationRespects_of_spared (hs : Spared d) :
    E.MutationRespects (stripTransientState d) := by
  have hlegend (h : LegendOff (stripTransientState d)) :
      "set_map_legend_visibility" ∈ suppressedRepairs (stripTransientState d) := by
    rw [suppressedRepairs_of_legendOff h]
    exact mem_singleton_self _
  constructor
  · intro loaded intent origin out hc h
    rw [applyMutation_reviewed hc h]
    exact reviewed_respects hs fun hoff _ => hlegend hoff
  · intro loaded handler plan out hplan hm h
    obtain ⟨plan', hplan', h⟩ := bind_eq_ok.mp h
    rw [hplan] at hplan'
    cases hplan'
    obtain ⟨reviewed, hcommit, h⟩ := bind_eq_ok.mp h
    cases h
    rw [hm] at hcommit
    rw [← commit_reviewed hcommit]
    exact reviewed_respects hs fun hoff _ => hlegend hoff

theorem batchRespects_of_spared (h : Patchable d → Spared d ∧ (Repairable d → ¬ LegendOff d)) :
    E.BatchRespects (stripTransientState d) := by
  intro loaded intents origin r hc happlied
  have hp : Patchable (stripTransientState d) := patchable_batchCandidate hc
  rw [applyPresentationBatch_reviewed hc happlied]
  exact reviewed_respects (h hp).1 fun hoff hrep => absurd hoff ((h hp).2 hrep)

theorem applyMutation_checkpoint {fix : Json} {next : MapSpec}
    (ho : Offered (suppressedRepairs (stripTransientState d)) fix (stripTransientState d) next)
    (hm : Repairable d) :
    (reportingEngine fix).applyMutation (some d) .checkpoint .user =
      .ok { mapspec := next, repairs := [fix] } := by
  have hcommit := commit_reporting ho hm
  change ((reportingEngine fix).commit (some d) (suppressedRepairs (stripTransientState d))
    (stripTransientState d) >>= fun reviewed => Except.ok _) = _
  rw [hcommit]
  rfl

theorem spared_of_mutationRespects (h : ∀ E : Engine, E.Gated (fun _ => none) empty →
      E.MutationRespects (stripTransientState d)) : Spared d := by
  intro hrep hmov c hmem hlock
  by_contra hf
  rw [Bool.not_eq_false] at hf
  have hs : "resolve_floating_layout" ∉ suppressedRepairs (stripTransientState d) := by
    unfold suppressedRepairs
    split
    · split <;> decide
    · decide
  obtain ⟨fix, next, ho, hn⟩ := exists_disrespect (m := stripTransientState d) hmov hmem hlock hf hs
  exact hn ((h _ (reportingEngine_gated fix)).intent (some d) .checkpoint .user _ rfl
    (applyMutation_checkpoint ho hrep))

/-! ### Batches -/

theorem eachLayer_some (layers : List Json) : eachLayer some layers = some layers := by
  induction layers with
  | nil => rfl
  | cons v rest ih =>
    cases v with
    | obj fs =>
      change (eachLayer some rest).map (.obj fs :: ·) = _
      rw [ih]
      rfl
    | _ =>
      rw [eachLayer, ih]
      · rfl
      · simp

theorem batch_untouched (hp : Patchable d) :
    ∃ id, ∀ fix, [{ layerId := id : PresentationPatch }].foldlM
      ((reportingEngine fix).batchStep d .user) {} =
        some { candidate := some d, statuses := [.applied] } := by
  obtain ⟨layer, hmem, hobj, hid⟩ := hp
  let text := idText (fun _ => "id") layer
  have htext : text ≠ "" := by
    cases hv : layer.get? "id" with
    | none =>
      rw [hv] at hid
      cases hid
    | some v =>
      rw [hv] at hid
      have hid : v.truthy := hid
      cases v with
      | str s => simpa [text, idText, hv, truthy] using hid
      | _ => simp [text, idText, hv, hid]
  refine ⟨text, fun fix => ?_⟩
  have hhit : d.layers.any ((reportingEngine fix).familyHit text) := by
    refine List.any_eq_true.mpr ⟨layer, hmem, ?_⟩
    unfold familyHit
    rw [hobj, Bool.true_and]
    change inFamily text text
    simp [inFamily, htext]
  have hrewrite : rewriteLayers ((reportingEngine fix).familyHit text)
      (patchLayerPresentation none none "user") d.layers = some d.layers := by
    unfold rewriteLayers
    have hsame : (fun fs => if (reportingEngine fix).familyHit text (.obj fs) = true then
        patchLayerPresentation none none "user" fs else some fs) = some := by
      funext fs
      split <;> rfl
    rw [hsame]
    exact eachLayer_some d.layers
  rw [foldlM_cons]
  have hstep : (reportingEngine fix).batchStep d .user {} { layerId := text } =
      some { candidate := some d, statuses := [.applied] } := by
    have haccepts : (reportingEngine fix).batchRefuses d .user { layerId := text } = false := rfl
    unfold batchStep
    rw [if_neg (Bool.eq_false_iff.mp haccepts)]
    change ((rewriteLayers ((reportingEngine fix).familyHit text)
      (patchLayerPresentation none none "user") d.layers).bind fun layers =>
        if d.layers.any ((reportingEngine fix).familyHit text) then _ else _) = _
    rw [hrewrite, bind_some, if_pos hhit]
    rfl
  rw [hstep]
  rfl

theorem batchRespects_conditions (h : ∀ E : Engine, E.Gated (fun _ => none) empty →
      E.BatchRespects (stripTransientState d)) (hp : Patchable d) :
    Spared d ∧ (Repairable d → ¬ LegendOff d) := by
  obtain ⟨id, hfold⟩ := batch_untouched hp
  have hall (fix : Json) (next : MapSpec) (ho : Offered [] fix (stripTransientState d) next)
      (hrep : Repairable d) : Respects (stripTransientState d) next := by
    refine h _ (reportingEngine_gated fix) (some d) [{ layerId := id }] .user
      ({ mapspec := next, repairs := [fix] }, [.applied]) ?_ ?_
    · change (([{ layerId := id : PresentationPatch }].foldlM
        ((reportingEngine fix).batchStep d .user) {}).bind _) = _
      rw [hfold]
      rfl
    · change (orRaise ([{ layerId := id : PresentationPatch }].foldlM
        ((reportingEngine fix).batchStep d .user) {}) >>= _) = _
      rw [hfold]
      change ((reportingEngine fix).commit (some d) [] (stripTransientState d) >>=
        fun reviewed => Except.ok _) = _
      rw [commit_reporting ho hrep]
      rfl
  constructor
  · intro hrep hmov c hmem hlock
    by_contra hf
    rw [Bool.not_eq_false] at hf
    obtain ⟨fix, next, ho, hn⟩ :=
      exists_disrespect (m := stripTransientState d) hmov hmem hlock hf not_mem_nil
    exact hn (hall fix next ho hrep)
  · intro hrep hoff
    obtain ⟨next, ho, hn⟩ := exists_shown (m := stripTransientState d) hoff
    exact hn (hall legendFix next ho hrep)

end

/-- No list of findings changes what is locked, or shows a legend that is off, exactly when no
    locked component floats, and, for a batch, when the legend is not off. -/
theorem review_respects_iff (d : MapSpec) :
    ((∀ fingerprint cache, ∀ E : Engine, E.Gated fingerprint cache →
        E.MutationRespects (stripTransientState d)) ↔ Spared d) ∧
      ((∀ fingerprint cache, ∀ E : Engine, E.Gated fingerprint cache →
        E.BatchRespects (stripTransientState d)) ↔
        (Patchable d → Spared d ∧ (Repairable d → ¬ LegendOff d))) :=
  ⟨⟨fun h => spared_of_mutationRespects (h _ _), fun hs _ _ _ _ => mutationRespects_of_spared hs⟩,
    ⟨fun h hp => batchRespects_conditions (h _ _) hp, fun hs _ _ _ _ => batchRespects_of_spared hs⟩⟩

/-- A map with a locked compass that floats at the edge, and a legend that is off. -/
def compassMap : MapSpec where
  layers := [.obj [("id", .str "roads"), ("source", .str "s")]]
  layout :=
    { components := [.obj [("id", .str "compass"), ("type", .str "compass"),
        ("placement", .obj [("mode", .str "floating"), ("x", .int 900), ("y", .int 40)])]]
      parts := ofList [("legend", .obj [("visible", .bool false)])] }
  workbench := some (.obj [("lockedComponentIds", .arr [.str "compass"])])
  branches := ofList [("sources", .obj [("s", .obj [("type", .str "geojson")])])]

/-- The compass is moved after a checkpoint of the user, and the legend shown after a batch. -/
theorem compass_moved :
    (∃ E : Engine, E.Gated (fun _ => none) empty ∧
      E.candidate (some compassMap) .checkpoint .user = .ok (stripTransientState compassMap) ∧
      ∃ out, E.applyMutation (some compassMap) .checkpoint .user = .ok out ∧
        ¬ Respects (stripTransientState compassMap) out.mapspec) ∧
    ∃ E : Engine, E.Gated (fun _ => none) empty ∧
      ∃ m, E.batchCandidate (some compassMap)
          [{ layerId := "roads", visible := some true }] .user = some m ∧
        ∃ r, E.applyPresentationBatch (some compassMap)
            [{ layerId := "roads", visible := some true }] .user = .ok r ∧
          ¬ Respects m r.1.mapspec := by
  constructor
  · refine ⟨reportingEngine (moveFix "compass" (.int 8)), reportingEngine_gated _, rfl, _, rfl, ?_⟩
    intro hr
    have hkept := hr.components 0 _ rfl ⟨"compass", rfl, by decide⟩
    exact absurd hkept (by decide)
  · refine ⟨reportingEngine legendFix, reportingEngine_gated _, _, rfl, _, rfl, ?_⟩
    intro hr
    have hstill : some (Json.bool true) = some (.bool false) := hr.legend rfl
    exact absurd hstill (by decide)

end WebGis.Mapspec
