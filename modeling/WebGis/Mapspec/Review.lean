/-
  The review of a candidate and the repairs it makes without asking.

  The evaluator, the fingerprints and the recolouring of a layer are taken as they come. A
  review that raises leaves the candidate as it was.
-/
import WebGis.Mapspec.Layers

namespace WebGis.Mapspec

open Data Json List Option

/-- A check of a review. -/
structure Check where
  status : String
  repairability : String
  suggestedFix : Json

structure Review where
  status : String
  checks : List Check

/-- What the review calls. -/
structure Reviewer where
  /-- `evaluate_cartography_semantics` -/
  evaluate : MapSpec → Option Review
  /-- `_failure_fingerprint` -/
  failureFingerprint : Review → String
  /-- `_fingerprint` -/
  fingerprint : Json → String
  /-- `_apply_palette_change` -/
  applyPaletteChange : Json → Fields → Option Fields

def maxRepairIterations : Nat := 2

/-- `v.get("operation")`, when it is a text. -/
def operation (repair : Json) : String :=
  match repair.get? "operation" with
  | some (.str s) => s
  | _ => ""

def planAutoSafeRepairs (R : Reviewer) (review : Review) : List Json :=
  let fixes := review.checks.filterMap fun c =>
    if c.status = "fail" && c.repairability = "auto_safe" &&
        (c.suggestedFix.get? "operation").any truthy then some c.suggestedFix
    else none
  (fixes.foldl (fun (acc : List Json × List String) fix =>
    if R.fingerprint fix ∈ acc.2 then acc
    else (acc.1 ++ [fix], R.fingerprint fix :: acc.2)) ([], [])).1

/-- The repair is aimed at a layer that the lock of the user covers. -/
def lockedRepair (locked : List String) (repair : Json) : Bool :=
  match repair.get? "layer_id" with
  | some (.str lid) => isEntityLocked lid locked
  | _ => false

/-- The planned repairs that are neither suppressed by the caller nor locked. -/
def keptRepairs (R : Reviewer) (suppressed locked : List String) (review : Review) : List Json :=
  (planAutoSafeRepairs R review).filter fun r =>
    operation r ∉ suppressed && !lockedRepair locked r

/-! ## Repairs of a layer -/

/-- A value that can be a key. -/
def hashable : Json → Bool
  | .arr _ | .obj _ => false
  | _ => true

/-- The entry is an object that has an id. -/
def identified (layer : Json) : Bool := layer.isObj && (layer.get? "id").any truthy

/-- The entry is found under the id. -/
def hasId (id layer : Json) : Bool :=
  identified layer && equal ((layer.get? "id").getD .null) id

/-- The last layer that meets `hit` rewritten by `f`. -/
def editLast (hit : Json → Bool) (f : Fields → Option Fields) : List Json → Option (List Json)
  | [] => some []
  | v :: rest =>
    if hit v && !rest.any hit then
      match v with
      | .obj fs => (f fs).map (.obj · :: rest)
      | _ => some (v :: rest)
    else (editLast hit f rest).map (v :: ·)

/-- A layer shown again. -/
def showLayer (visible : Bool) (layer : Fields) : Fields :=
  let layer := setField layer "visible" (.bool visible)
  let layer := match field "layout" layer with
    | some (.obj layout) =>
      if field "visibility" layout == some (.str "none") then
        setField layer "layout" (.obj (setField layout "visibility" (.str "visible")))
      else layer
    | _ => layer
  match field "cartographic_intent" layer with
  | some (.obj intent) =>
    let intent := setField intent "expected_visible" (.bool visible)
    let intent := if field "presentation_owner" intent == some (.str "user") then intent
      else setField intent "presentation_owner" (.str "system")
    setField layer "cartographic_intent" (.obj intent)
  | _ => layer

/-- A paint property set. -/
def setPaint (prop : String) (value : Json) (layer : Fields) : Fields :=
  match field "paint" layer with
  | none => setField layer "paint" (.obj [(prop, value)])
  | some (.obj paint) => setField layer "paint" (.obj (setField paint prop value))
  | some _ => layer

/-- What a repair does to the layer it names. -/
def repairLayer (R : Reviewer) (repair : Json) (layer : Fields) : Option Fields :=
  match operation repair with
  | "change_palette" =>
    match repair.get? "value" with
    | some (.obj value) => R.applyPaletteChange ((field "colors" value).getD .null) layer
    | _ => some layer
  | "set_layer_visibility" =>
    some (showLayer ((repair.get? "visible").any truthy) layer)
  | _ =>
    match repair.get? "property" with
    | some (.str prop) => some (setPaint prop ((repair.get? "value").getD .null) layer)
    | _ => some layer

/-! ## Repairs of the layout -/

def isNumber : Json → Bool
  | .int _ | .float _ | .bool _ => true
  | _ => false

/-- The placement is meant for the component. -/
def placementFor (component placement : Json) : Bool :=
  (placement.get? "component_id").any truthy &&
    equal ((placement.get? "component_id").getD .null) ((component.get? "id").getD .null)

/-- The component floats. -/
def floats (component : Json) : Bool :=
  match component.get? "placement" with
  | some (.obj p) => field "mode" p == some (.str "floating")
  | _ => false

/-- The component at the place that the last placement for it names, if it floats. -/
def moveComponent (placements : List Json) (component : Json) : Json :=
  match component, (placements.reverse.find? (placementFor component)) with
  | .obj fs, some move =>
    match field "placement" fs, move.get? "x", move.get? "y" with
    | some (.obj p), some x, some y =>
      if floats component && isNumber x && isNumber y then
        .obj (setField fs "placement" (.obj (setField (setField p "x" x) "y" y)))
      else component
    | _, _, _ => component
  | _, _ => component

/-- The repairs that are carried out on a layer. -/
def layerOperations : List String :=
  ["normalize_opacity", "refresh_style_from_legend", "set_layer_visibility", "change_palette"]

/-- One repair of `_apply_repairs`. -/
def applyRepair (R : Reviewer) (m : MapSpec) (repair : Json) : Option MapSpec :=
  if operation repair = "resolve_floating_layout" then
    match repair.get? "placements" with
    | some (.arr placements) =>
      if placements.all (fun p => ((p.get? "component_id").filter truthy).all hashable) &&
          m.layout.components.all fun c => (c.get? "id").all hashable then
        some { m with layout :=
          { m.layout with components := m.layout.components.map (moveComponent placements) } }
      else none
    | _ => some m
  else if operation repair = "set_map_legend_visibility" then
    let legend := fieldsOf (m.layout.parts.find "legend")
    let visible := Json.bool ((repair.get? "value").any truthy)
    some { m with layout :=
      { m.layout with parts := m.layout.parts.set "legend" (.obj (setField legend "visible" visible)) } }
  else if operation repair ∈ layerOperations then
    let id := (repair.get? "layer_id").getD .null
    if hashable id then
      (editLast (hasId id) (repairLayer R repair) m.layers).map fun layers =>
        { m with layers := layers }
    else none
  else some m

def applyRepairs (R : Reviewer) (m : MapSpec) (repairs : List Json) : Option MapSpec :=
  if m.layers.all fun l => ((l.get? "id").filter truthy).all hashable then
    repairs.foldlM (applyRepair R) m
  else none

/-! ## The rounds -/

/-- The statuses with which a review is content. -/
def settledStatuses : List String := ["pass", "warning", "not_evaluated"]

/-- The loop of `review_and_repair_cartography`, with the number of rounds left: the document
    it ends with and the repairs of its attempts. -/
def reviewLoop (R : Reviewer) (suppressed locked : List String) (rounds : Nat) (m : MapSpec)
    (seenFailures seenPatches : List String) : Option (MapSpec × List Json) := do
  let review ← R.evaluate m
  if review.status ∈ settledStatuses || R.failureFingerprint review ∈ seenFailures then
    some (m, [])
  else
    let repairs := keptRepairs R suppressed locked review
    if repairs.isEmpty then some (m, [])
    else
      match rounds with
      | 0 => some (m, [])
      | rounds + 1 =>
        if R.fingerprint (.arr repairs) ∈ seenPatches then some (m, [])
        else do
          let next ← applyRepairs R m repairs
          let (m', rest) ← reviewLoop R suppressed locked rounds next
            (R.failureFingerprint review :: seenFailures)
            (R.fingerprint (.arr repairs) :: seenPatches)
          some (m', repairs ++ rest)

def reviewAndRepairCartography (R : Reviewer) (maxIterations : Nat) (suppressed : List String)
    (m : MapSpec) : Option (MapSpec × List Json) :=
  reviewLoop R suppressed m.lockedLayerIdsOf (min maxIterations maxRepairIterations) m [] []

/-! ## What the repairs leave alone -/

/-- The repair is carried out on the layer. -/
def repairsLayer (layer repair : Json) : Bool :=
  operation repair ∈ layerOperations && hasId ((repair.get? "layer_id").getD .null) layer

/-- The repair moves the component. -/
def movesComponent (component repair : Json) : Bool :=
  operation repair = "resolve_floating_layout" && floats component &&
    match repair.get? "placements" with
    | some (.arr placements) => placements.any (placementFor component)
    | _ => false

theorem mem_editLast {hit : Json → Bool} {f : Fields → Option Fields} {layers layers' : List Json}
    {layer : Json} (hmem : layer ∈ layers) (hh : hit layer = false)
    (he : editLast hit f layers = some layers') : layer ∈ layers' := by
  induction layers generalizing layers' with
  | nil => cases hmem
  | cons v rest ih =>
    unfold editLast at he
    split at he
    · rename_i hv
      have hmem' : layer ∈ rest := by
        rcases mem_cons.mp hmem with rfl | h
        · rw [hh] at hv
          cases hv
        · exact h
      split at he
      · obtain ⟨fs', _, rfl⟩ := map_eq_some_iff.mp he
        exact mem_cons_of_mem _ hmem'
      · cases he
        exact hmem
    · obtain ⟨rest', hr, rfl⟩ := map_eq_some_iff.mp he
      rcases mem_cons.mp hmem with rfl | h
      · exact mem_cons_self
      · exact mem_cons_of_mem _ (ih h hr)

theorem moveComponent_eq_self {placements : List Json} {c : Json}
    (h : (floats c && placements.any (placementFor c)) = false) :
    moveComponent placements c = c := by
  unfold moveComponent
  split
  · rename_i fs move hmove
    have hany : placements.any (placementFor (.obj fs)) :=
      List.any_eq_true.mpr ⟨move, mem_reverse.mp (mem_of_find?_eq_some hmove), find?_some hmove⟩
    rw [hany, Bool.and_true] at h
    split
    · rw [h]
      rfl
    · rfl
  · rfl

section Repairs

variable {R : Reviewer} {m m' : MapSpec} {repair : Json}

theorem applyRepair_cases (h : applyRepair R m repair = some m') :
    m' = m ∨
      (∃ placements, operation repair = "resolve_floating_layout" ∧
        repair.get? "placements" = some (.arr placements) ∧
        m' = { m with layout :=
          { m.layout with components := m.layout.components.map (moveComponent placements) } }) ∨
      (∃ legend, m' = { m with layout :=
          { m.layout with parts := m.layout.parts.set "legend" legend } }) ∨
      ∃ layers, operation repair ∈ layerOperations ∧
        editLast (hasId ((repair.get? "layer_id").getD .null)) (repairLayer R repair) m.layers =
          some layers ∧ m' = { m with layers := layers } := by
  unfold applyRepair at h
  split at h
  · rename_i hop
    split at h
    · rename_i placements hp
      split at h
      · cases h
        exact .inr (.inl ⟨placements, hop, hp, rfl⟩)
      · cases h
    · cases h
      exact .inl rfl
  · split at h
    · cases h
      exact .inr (.inr (.inl ⟨_, rfl⟩))
    · split at h
      · rename_i hop
        dsimp only at h
        split at h
        · obtain ⟨layers, hl, rfl⟩ := map_eq_some_iff.mp h
          exact .inr (.inr (.inr ⟨layers, hop, hl, rfl⟩))
        · cases h
      · cases h
        exact .inl rfl

theorem mem_layers_applyRepair {layer : Json} (hmem : layer ∈ m.layers)
    (hr : repairsLayer layer repair = false) (h : applyRepair R m repair = some m') :
    layer ∈ m'.layers := by
  obtain rfl | ⟨_, _, _, rfl⟩ | ⟨_, rfl⟩ | ⟨layers, hop, he, rfl⟩ := applyRepair_cases h
  · exact hmem
  · exact hmem
  · exact hmem
  · rw [repairsLayer, decide_eq_true hop, Bool.true_and] at hr
    exact mem_editLast hmem hr he

theorem mem_components_applyRepair {c : Json} (hmem : c ∈ m.layout.components)
    (hr : movesComponent c repair = false) (h : applyRepair R m repair = some m') :
    c ∈ m'.layout.components := by
  obtain rfl | ⟨placements, hop, hp, rfl⟩ | ⟨_, rfl⟩ | ⟨layers, _, _, rfl⟩ := applyRepair_cases h
  · exact hmem
  · unfold movesComponent at hr
    rw [decide_eq_true hop, Bool.true_and, hp] at hr
    exact List.mem_map.mpr ⟨c, hmem, moveComponent_eq_self hr⟩
  · exact hmem
  · exact hmem

end Repairs

theorem applyRepairs_keeps {R : Reviewer} {P : MapSpec → Prop} {m m' : MapSpec}
    {repairs : List Json} (h : applyRepairs R m repairs = some m')
    (step : ∀ r ∈ repairs, ∀ s s', P s → applyRepair R s r = some s' → P s') (hm : P m) :
    P m' := by
  unfold applyRepairs at h
  split at h
  · exact foldlM_keeps step hm h
  · cases h

theorem reviewLoop_keeps {R : Reviewer} {P : MapSpec → Prop} {suppressed locked : List String}
    {rounds : Nat} {m m' : MapSpec} {seenFailures seenPatches : List String} {made : List Json}
    (h : reviewLoop R suppressed locked rounds m seenFailures seenPatches = some (m', made))
    (step : ∀ r ∈ made, ∀ s s', P s → applyRepair R s r = some s' → P s') (hm : P m) : P m' := by
  induction rounds generalizing m made seenFailures seenPatches with
  | zero =>
    obtain ⟨review, _, h⟩ := bind_eq_some_iff.mp h
    dsimp only at h
    split at h
    · cases h
      exact hm
    · split at h <;> cases h <;> exact hm
  | succ rounds ih =>
    obtain ⟨review, _, h⟩ := bind_eq_some_iff.mp h
    dsimp only at h
    split at h
    · cases h
      exact hm
    split at h
    · cases h
      exact hm
    split at h
    · cases h
      exact hm
    obtain ⟨next, hnext, h⟩ := bind_eq_some_iff.mp h
    obtain ⟨⟨m₁, rest⟩, hrest, h⟩ := bind_eq_some_iff.mp h
    cases h
    have hfirst : P next := applyRepairs_keeps hnext
      (fun r hr => step r (mem_append_left _ hr)) hm
    exact ih hrest (fun r hr => step r (mem_append_right _ hr)) hfirst

end WebGis.Mapspec
