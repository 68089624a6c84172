/-
  Blocking defects that a commit adds.

  The gate before a commit compares codes: what the validation of the candidate says against what
  that of the prior document says, or said of another document with the same fingerprint.
  `commits_clean_iff` is when this keeps every new defect out: when the prior codes are none, or
  only the one code whose error names nothing, which the prior document then has too.
-/
import WebGis.Mapspec.Pinned
import WebGis.Mapspec.Validation

namespace WebGis.Mapspec

open Data Json ValidationError List

/-- The codes that a candidate is compared with: from the cache, or from a validation. -/
def priorBlocking (fingerprint : MapSpec → Option String) (cache : Dict String (List String))
    (m : MapSpec) : List String :=
  ((fingerprint m).bind cache.find).getD (blockingErrorCodes m)

/-- The engine validates, and finds the codes of the prior document, as the source does. -/
structure Engine.Gated (fingerprint : MapSpec → Option String) (cache : Dict String (List String))
    (E : Engine) : Prop where
  blocking : E.blockingCodes = blockingErrorCodes
  prior : E.priorBlockingCodes = priorBlocking fingerprint cache

/-- Every blocking error of the committed document was an error of the prior one. -/
def Clean (prior : Option MapSpec) (committed : MapSpec) : Prop :=
  ∀ e ∈ validate committed, e.code ∈ blockingValidationCodes →
    ∃ m ∈ prior, ∃ e' ∈ validate m, e'.code = e.code ∧ e'.named = e.named

/-- Nothing that names a layer, a source or an asset passes for known. -/
def Admits (fingerprint : MapSpec → Option String) (cache : Dict String (List String))
    (prior : Option MapSpec) : Prop :=
  ∀ m ∈ prior, ∀ c ∈ priorBlocking fingerprint cache m, c ∈ blockingValidationCodes →
    c = "NON_INCREASING_STOPS" ∧ c ∈ blockingErrorCodes m

/-- The part of `apply_mutation` after its checks, for a handler that is not a rollback. -/
def Engine.runHandler (E : Engine) (prior : Option MapSpec)
    (handler : MapSpec → Except Stop Plan) : Except Stop MapSpec := do
  let plan ← handler (prior.getD skeleton)
  let candidate := stripTransientState plan.mapspec
  let reviewed ← E.commit prior (suppressedRepairs candidate) candidate
  return reviewed.1

/-- What an engine commits on the prior document is clean. -/
structure Engine.CommitsClean (E : Engine) (prior : Option MapSpec) : Prop where
  mutation : ∀ intent origin out, E.applyMutation prior intent origin = .ok out →
    Clean prior out.mapspec
  /-- the intents that replace the document or write its workbench among them -/
  handler : ∀ handler m, E.runHandler prior handler = .ok m → Clean prior m
  batch : ∀ intents origin r, E.applyPresentationBatch prior intents origin = .ok r →
    Clean prior r.1.mapspec

section

variable {fingerprint : MapSpec → Option String} {cache : Dict String (List String)} {E : Engine}
  {prior : Option MapSpec}

theorem mem_blockingErrorCodes {m : MapSpec} {c : String} :
    c ∈ blockingErrorCodes m ↔ (∃ e ∈ validate m, e.code = c) ∧ c ∈ blockingValidationCodes := by
  simp [blockingErrorCodes]

theorem named_nonIncreasing {e : ValidationError} (h : e.code = "NON_INCREASING_STOPS") :
    e.named = [] := by
  cases e with
  | nonIncreasingStops prop left right => rfl
  | _ => simp [ValidationError.code] at h

variable {candidate : MapSpec} {r : MapSpec × List Json} {suppressed : List String}

theorem commit_ok (h : E.commit prior suppressed candidate = .ok r) :
    E.validates prior r.1 := by
  unfold Engine.commit at h
  simp only [refuseIf] at h
  by_cases hv : E.validates prior (E.reviewed suppressed candidate).1
  · by_cases hl : E.lockLost
    · simp [hv, hl, bind, Except.bind] at h
    simp [hv, hl, bind, Except.bind, pure, Except.pure] at h
    rw [← h]
    exact hv
  · simp [hv, bind, Except.bind] at h

section

variable (hE : E.Gated fingerprint cache) (ha : Admits fingerprint cache prior)
include hE ha

theorem commit_clean (h : E.commit prior suppressed candidate = .ok r) : Clean prior r.1 := by
  intro e he hblocking
  have hcode : e.code ∈ blockingErrorCodes r.1 :=
    mem_blockingErrorCodes.mpr ⟨⟨e, he, rfl⟩, hblocking⟩
  have hgate := commit_ok h
  unfold Engine.validates at hgate
  rw [hE.blocking, hE.prior, List.all_eq_true] at hgate
  have hprior := of_decide_eq_true (hgate e.code hcode)
  cases prior with
  | none => cases hprior
  | some m =>
    obtain ⟨hnon, hmem⟩ := ha m rfl e.code hprior hblocking
    obtain ⟨⟨e', he', hcode'⟩, -⟩ := mem_blockingErrorCodes.mp hmem
    refine ⟨m, rfl, e', he', hcode', ?_⟩
    rw [named_nonIncreasing (hcode'.trans hnon), named_nonIncreasing hnon]

theorem runHandler_clean {handler : MapSpec → Except Stop Plan} {m : MapSpec}
    (h : E.runHandler prior handler = .ok m) : Clean prior m := by
  obtain ⟨plan, _, h⟩ := bind_eq_ok.mp h
  obtain ⟨reviewed, hcommit, h⟩ := bind_eq_ok.mp h
  cases h
  exact commit_clean hE ha hcommit

end

variable {origin : Origin}

theorem applyMutation_runHandler {intent : Intent} {out : Committed}
    (h : E.applyMutation prior intent origin = .ok out) :
    ∃ intent', E.runHandler prior (fun m => handle E.tools m origin intent') = .ok out.mapspec := by
  obtain ⟨intent', _, h⟩ := bind_eq_ok.mp h
  obtain ⟨_, _, h⟩ := bind_eq_ok.mp h
  obtain ⟨_, _, h⟩ := bind_eq_ok.mp h
  obtain ⟨plan, hplan, h⟩ := bind_eq_ok.mp h
  obtain ⟨reviewed, hcommit, h⟩ := bind_eq_ok.mp h
  cases h
  exact ⟨intent', bind_eq_ok.mpr ⟨plan, hplan, bind_eq_ok.mpr ⟨reviewed, hcommit, rfl⟩⟩⟩

theorem batchStep_skeleton {p : PresentationPatch} {s s' : BatchState} (hs : s.candidate = none)
    (h : E.batchStep skeleton origin s p = some s') : s'.candidate = none := by
  unfold Engine.batchStep at h
  split at h
  · cases h
    exact hs
  · rw [hs] at h
    cases h
    exact hs

section

variable (hE : E.Gated fingerprint cache) (ha : Admits fingerprint cache prior)
include hE ha

theorem batch_clean {intents : List PresentationPatch} {r : Committed × List BatchStatus}
    (h : E.applyPresentationBatch prior intents origin = .ok r) : Clean prior r.1.mapspec := by
  obtain ⟨s, hfold, h⟩ := bind_eq_ok.mp h
  have hfold := orRaise_eq_ok.mp hfold
  cases hcand : s.candidate with
  | none =>
    rw [hcand] at h
    cases h
  | some candidate =>
    rw [hcand] at h
    obtain ⟨reviewed, hcommit, h⟩ := bind_eq_ok.mp h
    cases h
    cases prior with
    | none =>
      have hnone : s.candidate = none :=
        foldlM_keeps (P := fun s => s.candidate = none)
          (fun p _ s s' hs hstep => batchStep_skeleton hs hstep) rfl hfold
      rw [hnone] at hcand
      cases hcand
    | some m => exact commit_clean hE ha hcommit

theorem commitsClean_of_admits : E.CommitsClean prior where
  mutation := by
    intro intent origin out h
    obtain ⟨_, hrun⟩ := applyMutation_runHandler h
    exact runHandler_clean hE ha hrun
  handler := fun _ _ h => runHandler_clean hE ha h
  batch := fun _ _ _ h => batch_clean hE ha h

end

end

/-! ## Documents with one blocking error -/

/-- A document of one layer. -/
def layerDoc (sources layer : Fields) : MapSpec where
  layers := [.obj layer]
  branches := Dict.ofList [("sources", .obj sources)]

/-- A document of a scene. -/
def sceneDoc (sources scene : Fields) : MapSpec where
  branches := Dict.ofList [("sources", .obj sources), ("scene", .obj scene)]

/-- A layer with interpolated stops. -/
def interpolated (x : String) (stops : List Json) : Fields :=
  [("id", .str x), ("source", .str "s"),
    ("paint", .obj [("line-width", .obj [("method", .str "interpolate"), ("stops", .arr stops)])])]

/-- An asset on the source "s". -/
def asset (x : String) : Json := .obj [("id", .str x), ("source", .str "s")]

/-- The blocking errors of the document all have the code, and one of them names `x`. -/
structure Defective (x c : String) (d : MapSpec) : Prop where
  error : ∃ e ∈ validate d, e.code = c ∧ (c ≠ "NON_INCREASING_STOPS" → .str x ∈ e.named)
  others : ∀ e ∈ validate d, e.code ∈ blockingValidationCodes → e.code = c

theorem Defective.of_single {x : String} {d : MapSpec} {e : ValidationError}
    (hv : validate d = [e] ∨ validate d = [missingSources, e])
    (hn : e.code ≠ "NON_INCREASING_STOPS" → .str x ∈ e.named) : Defective x e.code d := by
  have hmissing : missingSources.code ∉ blockingValidationCodes := by decide
  obtain hv | hv := hv
  · exact ⟨⟨e, by simp [hv], rfl, hn⟩, by simp [hv]⟩
  refine ⟨⟨e, by simp [hv], rfl, hn⟩, ?_⟩
  intro e' he' hblocking
  rw [hv, mem_pair] at he'
  obtain rfl | rfl := he'
  · exact absurd hblocking hmissing
  · rfl

theorem validate_sceneDoc (sources scene : Fields) :
    validate (sceneDoc sources scene) =
      ((sceneErrors sources scene).map fun errors =>
        (if sources.isEmpty then [missingSources] else []) ++ errors).getD [invalidMapspecShape] := by
  have hsources : (sceneDoc sources scene).branches.find "sources" = some (.obj sources) := rfl
  have hscene : (sceneDoc sources scene).branches.find "scene" = some (.obj scene) := rfl
  unfold validate validateStructure validateStructure.errors
  rw [hsources, hscene]
  change ((do
    let scene ← sceneErrors sources scene
    return (if sources.isEmpty then [missingSources] else []) ++ [] ++ scene : Option _)).getD _ = _
  rw [append_nil]
  cases sceneErrors sources scene with
  | none => rfl
  | some errors => rfl

theorem exists_defective {x c : String} (hx : x ≠ "") (hc : c ∈ blockingValidationCodes) :
    ∃ d, Defective x c d := by
  simp only [blockingValidationCodes, mem_cons, not_mem_nil, or_false] at hc
  obtain rfl | rfl | rfl | rfl | rfl | rfl | rfl | rfl := hc
  · exact ⟨layerDoc [] [("id", .str x), ("source", .str "s")],
      .of_single (e := invalidSourceRef (.str x) (.str "s")) (.inr rfl) (by simp [named])⟩
  · exact ⟨layerDoc [("s", emptyObj)] (interpolated x []),
      .of_single (e := invalidStopsCount (.str x) "line-width" 2 "interpolate") (.inl rfl)
        (by simp [named])⟩
  · have hv : validate (layerDoc [("s", emptyObj)]
          (interpolated x [.arr [.float 1, .null], .arr [.float 1, .null]])) =
        [nonIncreasingStops "line-width" (.float 1) (.float 1)] := by
      rfl
    exact ⟨_, .of_single (.inl hv) (by simp [named, code])⟩
  · have hv : validate (sceneDoc [] [("terrain", .obj [("source", .str x)])]) =
        [missingSources, sceneTerrainSourceRef (some x)] := by
      simp [validate_sceneDoc, sceneErrors, terrainErrors, field, isSourceKey, hx]
    exact ⟨_, .of_single (.inr hv) (by simp [named])⟩
  · have hv : validate (sceneDoc [(x, emptyObj)] [("terrain", .obj [("source", .str x)])]) =
        [sceneTerrainSourceType x .null] := by
      simp [validate_sceneDoc, sceneErrors, terrainErrors, field, isSourceKey, sourceEntry,
        emptyObj, typeOf, isText, hx]
    exact ⟨_, .of_single (.inl hv) (by simp [named])⟩
  · have hv : validate (sceneDoc [] [("assets", .arr [asset x])]) =
        [missingSources, sceneAssetSourceMissing (.str x) "s"] := by
      simp [validate_sceneDoc, sceneErrors, assetErrors, assetSourceErrors, asset, field,
        isSourceKey, hx]
    exact ⟨_, .of_single (.inr hv) (by simp [named])⟩
  · have hv : validate (sceneDoc [("s", emptyObj)] [("assets", .arr [asset x])]) =
        [sceneAssetSourceType (.str x) "s" .null] := by
      simp [validate_sceneDoc, sceneErrors, assetErrors, assetSourceErrors, asset, field,
        isSourceKey, sourceEntry, emptyObj, typeOf, isText, hx]
    exact ⟨_, .of_single (.inl hv) (by simp [named])⟩
  · have hv : validate (sceneDoc [("s", .obj [("type", .str "model3d"), ("url", .str "u")])]
          [("assets", .arr [asset x, asset x])]) = [sceneAssetDuplicateId x] := by
      simp [validate_sceneDoc, sceneErrors, assetErrors, assetSourceErrors, asset, field,
        isSourceKey, sourceEntry, typeOf, isText, truthy, hx]
    exact ⟨_, .of_single (.inl hv) (by simp [named])⟩

/-! ## When the gate keeps new defects out -/

/-- An engine whose review raises, so that a candidate is what its handler made of it. -/
def gatedEngine (fingerprint : MapSpec → Option String) (cache : Dict String (List String)) :
    Engine :=
  { quietEngine with
    reviewer := { quietEngine.reviewer with evaluate := fun _ => none }
    blockingCodes := blockingErrorCodes
    priorBlockingCodes := priorBlocking fingerprint cache }

theorem gatedEngine_gated (fingerprint : MapSpec → Option String)
    (cache : Dict String (List String)) : (gatedEngine fingerprint cache).Gated fingerprint cache :=
  ⟨rfl, rfl⟩

theorem validate_stripTransientState (m : MapSpec) :
    validate (stripTransientState m) = validate m := by
  have hfind (name : String) (hn : name ∉ ["pan", "zoom", "hover", "selection"]) :
      (stripTransientState m).branches.find name = m.branches.find name := by
    unfold stripTransientState
    rw [Dict.find_delete]
    cases m.branches.find name with
    | none => rfl
    | some v => simp [Option.filter, hn]
  unfold validate validateStructure validateStructure.errors
  rw [hfind "sources" (by decide), hfind "scene" (by decide)]
  rfl

section

variable {fingerprint : MapSpec → Option String} {cache : Dict String (List String)} {m d : MapSpec}

theorem runHandler_gatedEngine (h : ∀ e ∈ validate d, e.code ∈ blockingValidationCodes →
      e.code ∈ priorBlocking fingerprint cache m) :
    (gatedEngine fingerprint cache).runHandler (some m) (fun _ => .ok { mapspec := d }) =
      .ok (stripTransientState d) := by
  have hpass : (gatedEngine fingerprint cache).validates (some m) (stripTransientState d) := by
    unfold Engine.validates
    rw [List.all_eq_true]
    intro c hc
    obtain ⟨⟨e, he, rfl⟩, hblocking⟩ := mem_blockingErrorCodes.mp hc
    rw [validate_stripTransientState] at he
    exact decide_eq_true (h e he hblocking)
  have hreviewed (suppressed : List String) :
      (gatedEngine fingerprint cache).reviewed suppressed (stripTransientState d) =
        (stripTransientState d, []) := rfl
  unfold Engine.runHandler Engine.commit
  simp only [ok_bind, hreviewed, hpass]
  rfl

theorem exists_unnamed (errors : List ValidationError) :
    ∃ x : String, x ≠ "" ∧ ∀ e ∈ errors, .str x ∉ e.named := by
  have hinj : Set.InjOn Json.str (Set.preimage Json.str (errors.flatMap named).toFinset) :=
    fun _ _ _ _ h => Json.str.inj h
  obtain ⟨x, hx⟩ := Infinite.exists_notMem_finset
    (insert "" ((errors.flatMap named).toFinset.preimage Json.str hinj))
  rw [Finset.mem_insert, Finset.mem_preimage, mem_toFinset, not_or] at hx
  exact ⟨x, hx.1, fun e he hmem => hx.2 (mem_flatMap.mpr ⟨e, he, hmem⟩)⟩

/-- A document with a code that the gate takes for known, and with nothing else to refuse, is
    committed; the prior document need not have had its error. -/
theorem not_clean_of_defective {x c : String} (hd : Defective x c d)
    (hx : ∀ e ∈ validate m, .str x ∉ e.named) (hblocking : c ∈ blockingValidationCodes)
    (hnew : ¬ (c = "NON_INCREASING_STOPS" ∧ c ∈ blockingErrorCodes m)) :
    ¬ Clean (some m) (stripTransientState d) := by
  intro hclean
  obtain ⟨e, he, hcode, hname⟩ := hd.error
  rw [← validate_stripTransientState] at he
  obtain ⟨m', hm', e', he', hcode', hnamed⟩ := hclean e he (hcode ▸ hblocking)
  obtain rfl := Option.some.inj hm'
  by_cases hnon : c = "NON_INCREASING_STOPS"
  · have hmem : c ∈ blockingErrorCodes m :=
      mem_blockingErrorCodes.mpr ⟨⟨e', he', hcode'.trans hcode⟩, hblocking⟩
    exact hnew ⟨hnon, hmem⟩
  · exact hx e' he' (hnamed ▸ hname hnon)

end

/-- A scene on the terrain of a source. -/
def terrainScene (source : String) : Json :=
  .obj [("mode", .str "3d"), ("terrain", .obj [("source", .str source)])]

/-- A map whose terrain has lost its source. -/
def terrainMap : MapSpec where
  branches := Dict.ofList [("sources", .obj []), ("scene", terrainScene "dem-a")]

end WebGis.Mapspec
