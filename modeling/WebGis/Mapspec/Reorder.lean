/-
  When a reordering of the layers keeps them all.

  The loop takes up a layer for the first requested id that means it, and only the first layer
  of each id; what is left over are the layers whose id was not taken up. An entry that is no
  object and a second layer of a requested id are in neither part. Without such entries the
  new list is a rearrangement of the old one (`reorder_iff`), otherwise they are gone
  (`second_layer_lost`).
-/
import WebGis.Mapspec.Pinned

namespace WebGis.Mapspec

open Data Json List

section Places

variable (str : Json → String) (layerIds : List String)

/-- The layer belongs to a requested id. -/
def meant (layer : Json) : Bool := layerIds.any fun lid => requested lid (idText str layer)

/-- The first requested id that the layer belongs to. -/
def place (layer : Json) : Nat := layerIds.findIdx fun lid => requested lid (idText str layer)

/-- The new layers are the old ones, first those that belong to a requested id in the order of
    the request, then the others in their order. -/
structure Rearranged (current layers : List Json) : Prop where
  perm : layers.Perm current
  order : ∃ front, layers = front ++ current.filter (!meant str layerIds ·) ∧
    (∀ layer ∈ front, meant str layerIds layer) ∧
    front.Pairwise fun a b => place str layerIds a ≤ place str layerIds b

end Places

section Loop

variable {str : Json → String} {current : List Json} {layerIds : List String}

/-- The layers taken up when the ids `done` have been gone through, and for the next one the
    layers `seen`. -/
structure TakenUp (str : Json → String) (current : List Json) (layerIds done : List String)
    (next : Option String) (seen : List Json) (acc : List Json × List String) : Prop where
  ids : acc.2 = acc.1.map (idText str)
  nodup : acc.2.Nodup
  layer : ∀ l ∈ acc.1, l ∈ current ∧ l.isObj ∧
    ∃ lid ∈ done ++ next.toList, requested lid (idText str l)
  earlier : ∀ l ∈ current, l.isObj → (∃ lid ∈ done, requested lid (idText str l)) →
    idText str l ∈ acc.2
  now : ∀ l ∈ seen, l.isObj → (∃ lid ∈ next, requested lid (idText str l)) → idText str l ∈ acc.2
  sorted : acc.1.Pairwise fun a b => place str layerIds a ≤ place str layerIds b

variable {done rest : List String} {lid : String} {l : Json}

theorem place_le (hids : layerIds = done ++ lid :: rest)
    (h : ∃ x ∈ done ++ [lid], requested x (idText str l)) : place str layerIds l ≤ done.length := by
  obtain ⟨x, hx, hreq⟩ := h
  have hsplit : layerIds = (done ++ [lid]) ++ rest := by rw [hids]; simp
  have hlt : (done ++ [lid]).findIdx (fun lid => requested lid (idText str l)) <
      (done ++ [lid]).length := findIdx_lt_length_of_exists ⟨x, hx, hreq⟩
  unfold place
  rw [hsplit, findIdx_append, if_pos hlt]
  rw [length_append, length_singleton] at hlt
  omega

theorem le_place (hids : layerIds = done ++ rest)
    (h : ∀ x ∈ done, requested x (idText str l) = false) : done.length ≤ place str layerIds l := by
  have hnone : done.findIdx (fun lid => requested lid (idText str l)) = done.length :=
    findIdx_eq_length.mpr h
  unfold place
  rw [hids, findIdx_append, hnone, if_neg (lt_irrefl _)]
  exact Nat.le_add_left _ _

variable {acc : List Json × List String}

theorem TakenUp.step {seen : List Json} {layer : Json} (hids : layerIds = done ++ lid :: rest)
    (hmem : layer ∈ current) (h : TakenUp str current layerIds done (some lid) seen acc) :
    TakenUp str current layerIds done (some lid) (seen ++ [layer])
      (matchLayer str lid acc layer) := by
  unfold matchLayer
  split
  · rename_i hm
    simp only [Bool.and_eq_true, decide_eq_true_eq] at hm
    obtain ⟨⟨hobj, hnew⟩, hreq⟩ := hm
    -- no earlier id means it, or it would have been taken up
    have hfirst : ∀ x ∈ done, requested x (idText str layer) = false := by
      intro x hx
      by_contra hx'
      exact hnew (h.earlier layer hmem hobj ⟨x, hx, by simpa using hx'⟩)
    constructor
    · rw [map_append, h.ids]
      rfl
    · rw [nodup_append]
      refine ⟨h.nodup, nodup_singleton _, fun a ha b hb he => hnew ?_⟩
      rwa [← mem_singleton.mp hb, ← he]
    · intro l hl
      rcases mem_append.mp hl with hl | hl
      · exact h.layer l hl
      · obtain rfl := mem_singleton.mp hl
        exact ⟨hmem, hobj, lid, by simp, hreq⟩
    · exact fun l hl hlobj hex => mem_append_left _ (h.earlier l hl hlobj hex)
    · intro l hl hlobj hex
      rcases mem_append.mp hl with hl | hl
      · exact mem_append_left _ (h.now l hl hlobj hex)
      · obtain rfl := mem_singleton.mp hl
        exact mem_append_right _ (mem_singleton_self _)
    · rw [pairwise_append]
      refine ⟨h.sorted, pairwise_singleton _ _, fun a ha b hb => ?_⟩
      obtain rfl := mem_singleton.mp hb
      exact (place_le hids (h.layer a ha).2.2).trans (le_place hids hfirst)
  · rename_i hm
    refine ⟨h.ids, h.nodup, h.layer, h.earlier, fun l hl hlobj hex => ?_, h.sorted⟩
    rcases mem_append.mp hl with hl | hl
    · exact h.now l hl hlobj hex
    obtain rfl := mem_singleton.mp hl
    obtain ⟨x, hx, hreq⟩ := hex
    obtain rfl : lid = x := by simpa using hx
    by_contra hnew
    exact hm (by simp [hlobj, hnew, hreq])

theorem TakenUp.pass (hids : layerIds = done ++ lid :: rest)
    (h : TakenUp str current layerIds done none [] acc) :
    TakenUp str current layerIds (done ++ [lid]) none []
      (current.foldl (matchLayer str lid) acc) := by
  have hloop : ∀ seen todo acc, current = seen ++ todo →
      TakenUp str current layerIds done (some lid) seen acc →
      TakenUp str current layerIds done (some lid) current
        (todo.foldl (matchLayer str lid) acc) := by
    intro seen todo
    induction todo generalizing seen with
    | nil =>
      intro acc hsplit hacc
      rw [append_nil] at hsplit
      rwa [← hsplit] at hacc
    | cons layer todo ih =>
      intro acc hsplit hacc
      refine ih (seen ++ [layer]) _ (by rw [hsplit]; simp) (hacc.step hids ?_)
      rw [hsplit]
      simp
  have hstart : TakenUp str current layerIds done (some lid) [] acc :=
    { h with
      layer := fun l hl => by
        obtain ⟨hmem, hobj, x, hx, hreq⟩ := h.layer l hl
        exact ⟨hmem, hobj, x, mem_append_left _ (by simpa using hx), hreq⟩
      now := fun l hl => absurd hl not_mem_nil }
  have hend := hloop [] current acc rfl hstart
  refine ⟨hend.ids, hend.nodup, fun l hl => ?_, fun l hl hobj hex => ?_,
    fun l hl => absurd hl not_mem_nil, hend.sorted⟩
  · simpa using hend.layer l hl
  · obtain ⟨x, hx, hreq⟩ := hex
    rcases mem_append.mp hx with hx | hx
    · exact hend.earlier l hl hobj ⟨x, hx, hreq⟩
    · exact hend.now l hl hobj ⟨x, congrArg some (mem_singleton.mp hx).symm, hreq⟩

variable (str current layerIds) in
theorem takenUp_matchedLayers :
    TakenUp str current layerIds layerIds none [] (matchedLayers str current layerIds) := by
  have hloop : ∀ done todo acc, layerIds = done ++ todo →
      TakenUp str current layerIds done none [] acc →
      TakenUp str current layerIds layerIds none []
        (todo.foldl (fun acc lid => current.foldl (matchLayer str lid) acc) acc) := by
    intro done todo
    induction todo generalizing done with
    | nil =>
      intro acc hsplit hacc
      rw [append_nil] at hsplit
      rwa [← hsplit] at hacc
    | cons lid todo ih =>
      exact fun acc hsplit hacc =>
        ih (done ++ [lid]) _ (by rw [hsplit]; simp) (hacc.pass hsplit)
  refine hloop [] layerIds ([], []) rfl ⟨rfl, nodup_nil, ?_, ?_, ?_, List.Pairwise.nil⟩
  · exact fun l hl => absurd hl not_mem_nil
  · rintro l - - ⟨x, hx, -⟩
    exact absurd hx not_mem_nil
  · exact fun l hl => absurd hl not_mem_nil

theorem mem_matchedIds (layerIds : List String) (hl : l ∈ current) (hobj : l.isObj) :
    idText str l ∈ (matchedLayers str current layerIds).2 ↔ meant str layerIds l := by
  have h := takenUp_matchedLayers str current layerIds
  unfold meant
  rw [List.any_eq_true]
  constructor
  · intro hid
    rw [h.ids] at hid
    obtain ⟨l', hl', he⟩ := mem_map.mp hid
    obtain ⟨-, -, x, hx, hreq⟩ := h.layer l' hl'
    exact ⟨x, by simpa using hx, by rwa [← he]⟩
  · exact h.earlier l hl hobj

end Loop

/-! ## What is kept -/

section Kept

variable {str : Json → String} {current : List Json} {layerIds : List String}

theorem meant_of_matched {l : Json} (h : l ∈ (matchedLayers str current layerIds).1) :
    meant str layerIds l := by
  obtain ⟨-, -, x, hx, hreq⟩ :=
    (takenUp_matchedLayers str current layerIds).layer l h
  exact List.any_eq_true.mpr ⟨x, by simpa using hx, hreq⟩

theorem leftoverLayers_eq :
    leftoverLayers str current (matchedLayers str current layerIds).2 =
      current.filter fun l => l.isObj && !meant str layerIds l := by
  refine filter_congr fun l hl => ?_
  cases hobj : l.isObj with
  | false => rfl
  | true =>
    have hmem : idText str l ∈ _ ↔ _ := mem_matchedIds layerIds hl hobj
    by_cases hm : meant str layerIds l
    · simp [hm, hmem.mpr hm]
    simp only [Bool.true_and, Bool.not_eq_true _ ▸ hm]
    simpa [hm] using hmem.not.mpr hm

variable {layers : List Json}

/-- A rearrangement holds objects only, and no two of its layers share a requested id. -/
theorem reorderLayers_parts (h : reorderLayers str current layerIds = some layers) :
    layers = (matchedLayers str current layerIds).1 ++
      current.filter (fun l => l.isObj && !meant str layerIds l) := by
  unfold reorderLayers at h
  dsimp only at h
  split at h
  · cases h
  cases h
  rw [leftoverLayers_eq]

/-- The layers that belong to a requested id have ids of their own. -/
def OneEach (str : Json → String) (layerIds : List String) (current : List Json) : Prop :=
  ((current.filter (meant str layerIds)).map (idText str)).Nodup

theorem oneEach_of_perm (h : reorderLayers str current layerIds = some layers)
    (hperm : layers.Perm current) : OneEach str layerIds current := by
  have htaken := takenUp_matchedLayers str current layerIds
  rw [reorderLayers_parts h] at hperm
  have hmeant := (hperm.filter (meant str layerIds)).map (idText str)
  have hfront : (matchedLayers str current layerIds).1.filter (meant str layerIds) =
      (matchedLayers str current layerIds).1 :=
    filter_eq_self.mpr fun l hl => meant_of_matched hl
  have hrest : (current.filter fun l => l.isObj && !meant str layerIds l).filter
      (meant str layerIds) = [] := by
    refine filter_eq_nil_iff.mpr fun l hl hm => ?_
    have hnot := (mem_filter.mp hl).2
    simp [hm] at hnot
  rw [filter_append, hfront, hrest, append_nil, ← htaken.ids] at hmeant
  exact hmeant.nodup_iff.mp htaken.nodup

/-- With objects only and one layer for each requested id, the layers taken up are all those
    that belong to a requested id. -/
theorem matched_perm (hobj : ∀ l ∈ current, l.isObj) (hone : OneEach str layerIds current) :
    (matchedLayers str current layerIds).1.Perm (current.filter (meant str layerIds)) := by
  have htaken := takenUp_matchedLayers str current layerIds
  have hnodup : (matchedLayers str current layerIds).1.Nodup :=
    List.Nodup.of_map (idText str) (htaken.ids ▸ htaken.nodup)
  refine (perm_ext_iff_of_nodup hnodup (List.Nodup.of_map _ hone)).mpr fun l => ?_
  constructor
  · exact fun hl => mem_filter.mpr ⟨(htaken.layer l hl).1, meant_of_matched hl⟩
  · intro hl
    obtain ⟨hmem, hm⟩ := mem_filter.mp hl
    have hid := (mem_matchedIds layerIds hmem (hobj l hmem)).mpr hm
    rw [htaken.ids] at hid
    obtain ⟨l', hl', he⟩ := mem_map.mp hid
    have hin : l' ∈ current.filter (meant str layerIds) :=
      mem_filter.mpr ⟨(htaken.layer l' hl').1, meant_of_matched hl'⟩
    rwa [← inj_on_of_nodup_map hone hin hl he]

end Kept

/-- An accepted reordering rearranges the layers exactly when every entry is an object and no
    two layers with the same id belong to a requested one. -/
theorem reorder_iff (T : Tools) (m : MapSpec) (ids : List String) {plan : Plan}
    (h : handleReorderLayers T m ids = .ok plan) :
    Rearranged T.str ids m.layers plan.mapspec.layers ↔
      (∀ layer ∈ m.layers, layer.isObj) ∧ OneEach T.str ids m.layers := by
  have hlayers : reorderLayers T.str m.layers ids = some plan.mapspec.layers := by
    unfold handleReorderLayers at h
    cases hr : reorderLayers T.str m.layers ids with
    | none =>
      rw [hr] at h
      cases h
    | some layers =>
      rw [hr] at h
      cases h
      rfl
  have htaken := takenUp_matchedLayers T.str m.layers ids
  have hparts := reorderLayers_parts hlayers
  constructor
  · intro hre
    refine ⟨fun layer hmem => ?_, oneEach_of_perm hlayers hre.perm⟩
    have hin := hre.perm.mem_iff.mpr hmem
    rw [hparts] at hin
    rcases mem_append.mp hin with hin | hin
    · exact (htaken.layer layer hin).2.1
    · exact (Bool.and_eq_true_iff.mp (mem_filter.mp hin).2).1
  · rintro ⟨hobj, hone⟩
    have hrest : m.layers.filter (fun l => l.isObj && !meant T.str ids l) =
        m.layers.filter (!meant T.str ids ·) :=
      filter_congr fun l hl => by rw [hobj l hl, Bool.true_and]
    rw [hrest] at hparts
    refine ⟨?_, _, hparts, fun layer hl => meant_of_matched hl, htaken.sorted⟩
    rw [hparts]
    exact ((matched_perm hobj hone).append_right _).trans (filter_append_perm _ _)

/-- A layer with an id and a style. -/
def styled (id style : String) : Json := .obj [("id", .str id), ("style", .str style)]

/-- The layer asked for comes first. -/
theorem rearranged_of_distinct :
    Rearranged quietEngine.tools.str ["roads"] [styled "land" "plain", styled "roads__fill" "red"]
      [styled "roads__fill" "red", styled "land" "plain"] :=
  (reorder_iff quietEngine.tools
    { layers := [styled "land" "plain", styled "roads__fill" "red"] } ["roads"]
    (rfl : handleReorderLayers _ _ _ = .ok
      { mapspec := { layers := [styled "roads__fill" "red", styled "land" "plain"] }
        autoCheckpoint := true })).mpr
    ⟨by decide, by unfold OneEach; decide⟩

/-- The second of two layers with the requested id is in neither part of the new list. -/
theorem second_layer_lost :
    ¬ ∀ (T : Tools) (m : MapSpec) (ids : List String) (plan : Plan),
      handleReorderLayers T m ids = .ok plan →
        Rearranged T.str ids m.layers plan.mapspec.layers := by
  intro hclaim
  have hlost := (hclaim quietEngine.tools
    { layers := [styled "roads" "red", styled "roads" "blue"] } ["roads"] _ rfl).perm.length_eq
  revert hlost
  decide

end WebGis.Mapspec
