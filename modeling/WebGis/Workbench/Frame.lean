/-
  What committing a delta leaves alone in the stored document.

  Layers and groups that a delta does not name, and that no removal reaches, keep what they
  have. The other fields of the document are rebuilt one by one, so a field that
  `apply_delta` does not know is lost: the document keeps everything exactly when it has no
  such field. The locked components are one.
-/
import WebGis.Workbench.Stages

namespace WebGis.Workbench

open Data Data.Json List

/-! ## The commit -/

inductive PatchError where
  | invalid (e : DeltaError)
  | conflict (e : DeltaError)
  | document (e : DocError)
  deriving DecidableEq, Repr

/-- `loaded.get("workbench")`, when it is a document. -/
def storedDoc (loaded : Option Fields) : Option Fields :=
  match loaded.bind (field "workbench") with
  | some (.obj fs) => some fs
  | _ => none

/-- `_handle_patchworkbenchdelta`: the candidate specification. -/
def handlePatchWorkbenchDelta (R : FloatRepr) (loaded : Option Fields) (delta : Json) :
    Except PatchError Fields :=
  match validateDelta R delta with
  | .error e => .error (.invalid e)
  | .ok d =>
    match applyDelta (storedDoc loaded) d with
    | .error e => .error (.conflict e)
    | .ok doc =>
      match workbenchDocError R (.obj doc) with
      | some e => .error (.document e)
      | none =>
        .ok (setField (loaded.getD []) "workbench" (.obj (setField doc "_rev" .null)))

/-- The commit stamps the revision where the handler left its place open. -/
def stampRev (rev : Nat) (mapspec : Fields) : Fields :=
  match field "workbench" mapspec with
  | some (.obj wb) =>
    match field "_rev" wb with
    | some .null => setField mapspec "workbench" (.obj (setField wb "_rev" (.int rev)))
    | _ => mapspec
  | _ => mapspec

/-- The specification that a delta commits. -/
def commitDelta (R : FloatRepr) (loaded : Option Fields) (delta : Json) (rev : Nat) :
    Except PatchError Fields := (handlePatchWorkbenchDelta R loaded delta).map (stampRev rev)

variable {d : Delta} {R : FloatRepr} {loaded : Option Fields}

theorem commitDelta_of {delta : Json} {doc : Fields} (hd : validateDelta R delta = .ok d)
    (happly : applyDelta (storedDoc loaded) d = .ok doc) (hdoc : Accepted R doc) (rev : Nat) :
    commitDelta R loaded delta rev =
      .ok (stampRev rev
        (setField (loaded.getD []) "workbench" (.obj (setField doc "_rev" .null)))) := by
  have hnone : workbenchDocError R (.obj doc) = none := hdoc
  unfold commitDelta handlePatchWorkbenchDelta
  simp only [hd, happly, hnone]
  rfl

/-- A committed document is what `apply_delta` returned, stamped. -/
theorem commitDelta_ok {delta : Json} {rev : Nat} {mapspec : Fields}
    (h : commitDelta R loaded delta rev = .ok mapspec) :
    ∃ d doc, validateDelta R delta = .ok d ∧ applyDelta (storedDoc loaded) d = .ok doc ∧
      Accepted R doc ∧
      storedDoc (some mapspec) = some (setField (setField doc "_rev" .null) "_rev" (.int rev)) := by
  unfold commitDelta handlePatchWorkbenchDelta at h
  split at h
  · cases h
  rename_i d hd
  split at h
  · cases h
  rename_i doc hdoc
  split at h
  · cases h
  rename_i haccepted
  obtain rfl := Except.ok.inj h
  refine ⟨d, doc, hd, hdoc, haccepted, ?_⟩
  have hwb : field "workbench" (setField (loaded.getD []) "workbench"
      (.obj (setField doc "_rev" .null))) = some (.obj (setField doc "_rev" .null)) := by
    rw [field_setField, if_pos rfl]
  have hrev : field "_rev" (setField doc "_rev" .null) = some .null := by
    rw [field_setField, if_pos rfl]
  simp only [storedDoc, stampRev, hwb, hrev, Option.bind_some]
  rw [field_setField, if_pos rfl]

/-! ## The frame -/

/-- The fields that a delta is about, and the stamp of the commit. -/
def coveredKeys : List String := ["groups", "membership", "lockedLayerIds", "_rev"]

def reservedDocKeys : List String :=
  ["version", "groups", "membership", "lockedLayerIds", "mode", "_rev"]

/-- A removal reaches a group. -/
def Reached (fs : Fields) (d : Delta) (gid : String) : Prop :=
  ∃ s ∈ d.removeGroupIds, Below (groupsIn fs) d s gid

/-- What a delta leaves alone of the document `fs`. -/
structure Framed (fs : Fields) (d : Delta) (fs' : Fields) : Prop where
  fields : ∀ k, k ∉ coveredKeys → field k fs' = field k fs
  groups : ∀ gid, gid ∉ d.setGroups.map GroupPatch.id → ¬ Reached fs d gid →
    byId (groupsIn fs') gid = byId (groupsIn fs) gid
  membership : ∀ lid, lid ∉ d.membershipSet.map Prod.fst → lid ∉ d.membershipClear →
    (∀ gid, (membershipIn fs).find lid = some gid → ¬ Reached fs d gid) →
    (membershipIn fs').find lid = (membershipIn fs).find lid

theorem groups_framed {ps ps' : Parts} (hu : (ids ps.groups).Nodup) (h : applyParts ps d = .ok ps')
    {gid : String} (hset : gid ∉ d.setGroups.map GroupPatch.id)
    (hreach : ¬ ∃ s ∈ d.removeGroupIds, Below ps.groups d s gid) :
    byId ps'.groups gid = byId ps.groups gid := by
  obtain ⟨after, hafter, -, -, rfl⟩ := applyParts_ok.mp h
  have hspec := setGroups_spec hu hafter
  rw [byId_kept (mt (mem_cascade hspec).mp hreach), hspec.others gid hset]

theorem membership_framed {ps ps' : Parts} (hu : (ids ps.groups).Nodup)
    (h : applyParts ps d = .ok ps') {lid : String} (hset : lid ∉ d.membershipSet.map Prod.fst)
    (hclear : lid ∉ d.membershipClear) (hreach : ∀ gid, ps.membership.find lid = some gid →
      ¬ ∃ s ∈ d.removeGroupIds, Below ps.groups d s gid) :
    ps'.membership.find lid = ps.membership.find lid := by
  obtain ⟨after, hafter, -, -, rfl⟩ := applyParts_ok.mp h
  have hspec := setGroups_spec hu hafter
  have hcleared : lid ∉ d.cleared := fun hmem => hclear (mem_filter.mp hmem).1
  rw [find_cleared, if_neg hcleared, lastGroup_eq_none.mpr hset, Option.none_or, Dict.find_delete]
  cases hfind : ps.membership.find lid with
  | none => rfl
  | some gid =>
    have hkept := mt (mem_cascade hspec).mp (hreach gid hfind)
    simp [Option.filter, hkept]

theorem field_stamped {doc : Fields} {rev : Nat} {k : String} (h : "_rev" ≠ k) :
    field k (setField (setField doc "_rev" .null) "_rev" (.int rev)) = field k doc := by
  rw [field_setField, if_neg h, field_setField, if_neg h]

theorem groupsIn_stamped (doc : Fields) (rev : Nat) :
    groupsIn (setField (setField doc "_rev" .null) "_rev" (.int rev)) = groupsIn doc := by
  unfold groupsIn readGroups
  rw [field_stamped (by decide)]

theorem membershipIn_stamped (doc : Fields) (rev : Nat) :
    membershipIn (setField (setField doc "_rev" .null) "_rev" (.int rev)) = membershipIn doc := by
  unfold membershipIn readMembership
  rw [field_stamped (by decide)]

theorem field_writeParts (base : Fields) (ps : Parts) {k : String} (h : k ∉ coveredKeys) :
    field k (writeParts base ps) =
      if k = "version" then some ((field "version" base).getD (.int 5))
      else if k = "mode" then some (modeOr ((field "mode" base).getD (.str "explore")))
      else none := by
  simp only [coveredKeys, mem_cons, not_mem_nil, or_false, not_or] at h
  obtain ⟨hgroups, hmembership, hlocked, -⟩ := h
  simp only [writeParts, field_cons, Ne.symm hgroups, Ne.symm hmembership, Ne.symm hlocked,
    if_false]
  by_cases hv : "version" = k
  · simp [← hv]
  by_cases hm : "mode" = k
  · simp [← hm]
  · simp [hv, hm, Ne.symm hv, Ne.symm hm, field]

variable {fs : Fields}

theorem version_of_accepted (h : Rest fs) :
    field "version" fs = some ((field "version" fs).getD (.int 5)) := by
  have hversion := h.version
  cases hf : field "version" fs with
  | none =>
    rw [hf] at hversion
    cases hversion
  | some v => rfl

theorem mode_of_accepted (h : Rest fs) :
    field "mode" fs = some (modeOr ((field "mode" fs).getD (.str "explore"))) := by
  have hmode := h.mode
  unfold modeError at hmode
  split at hmode
  · rename_i m hm
    rw [hm]
    rfl
  all_goals cases hmode

/-- The uncovered fields survive exactly when there are none but the version and the mode. -/
theorem fields_framed_iff (h : Rest fs) (ps : Parts) (rev : Nat) :
    (∀ k, k ∉ coveredKeys → field k (setField (setField (writeParts fs ps) "_rev" .null) "_rev"
        (.int rev)) = field k fs) ↔ ∀ f ∈ fs, f.1 ∈ reservedDocKeys := by
  constructor
  · intro hkeep f hf
    by_contra hout
    have hk : f.1 ∉ coveredKeys ∧ f.1 ≠ "version" ∧ f.1 ≠ "mode" := by
      simp only [reservedDocKeys, coveredKeys, mem_cons, not_mem_nil, or_false, not_or] at hout ⊢
      tauto
    have hrev : "_rev" ≠ f.1 := fun he => hk.1 (he ▸ by decide)
    have hlost := hkeep f.1 hk.1
    rw [field_stamped hrev, field_writeParts fs ps hk.1, if_neg hk.2.1, if_neg hk.2.2] at hlost
    exact field_eq_none.mp hlost.symm f hf rfl
  · intro hall k hk
    have hrev : "_rev" ≠ k := fun he => hk (he ▸ by decide)
    rw [field_stamped hrev, field_writeParts fs ps hk]
    split
    · rename_i hv
      rw [hv, ← version_of_accepted h]
    · rename_i hv
      split
      · rename_i hm
        rw [hm, ← mode_of_accepted h]
      · rename_i hm
        refine (field_eq_none.mpr fun f hf he => ?_).symm
        have hmem := he ▸ hall f hf
        simp only [reservedDocKeys, coveredKeys, mem_cons, not_mem_nil, or_false] at hmem hk
        tauto

/-- A committed delta leaves alone all that it does not name or reach exactly when the stored
    document has only fields that `apply_delta` knows. -/
theorem commitDelta_framed_iff {R : FloatRepr} {loaded : Option Fields} {fs : Fields}
    {delta : Json} {d : Delta} {rev : Nat} {mapspec : Fields} (hstored : storedDoc loaded = some fs)
    (haccepted : Accepted R fs) (hd : validateDelta R delta = .ok d)
    (hcommit : commitDelta R loaded delta rev = .ok mapspec) :
    ∃ fs', storedDoc (some mapspec) = some fs' ∧
      (Framed fs d fs' ↔ ∀ f ∈ fs, f.1 ∈ reservedDocKeys) := by
  obtain ⟨d', doc, hd', happly, -, hafter⟩ := commitDelta_ok hcommit
  obtain rfl := Except.ok.inj (hd.symm.trans hd')
  rw [hstored] at happly
  obtain ⟨ps, ps', hps, hparts, rfl⟩ := applyDelta_ok.mp happly
  obtain ⟨_, -, hvalid⟩ := validateDelta_ok hd
  have hforest := forest_of_accepted haccepted hps
  have hunique := hforest.unique
  have hread := readParts_writeParts fs
    (named_of_applied hunique hparts hforest.named hvalid.id_ne)
  refine ⟨_, hafter, ?_⟩
  rw [← fields_framed_iff haccepted.rest ps' rev]
  refine ⟨Framed.fields, fun hfields => ⟨hfields, ?_, ?_⟩⟩
  · intro gid hset hreach
    rw [groupsIn_stamped, groupsIn_of_parts hread, groupsIn_of_parts hps]
    unfold Reached at hreach
    rw [groupsIn_of_parts hps] at hreach
    exact groups_framed hunique hparts hset hreach
  · intro lid hset hclear hreach
    unfold Reached at hreach
    rw [membershipIn_of_parts hps, groupsIn_of_parts hps] at hreach
    rw [membershipIn_stamped, membershipIn_of_parts hread, membershipIn_of_parts hps]
    exact membership_framed hunique hparts hset hclear hreach

/-! ## A document with locked components -/

/-- A stored document that locks the component `legend`. -/
def lockedDoc : Fields :=
  [("version", .int 5), ("groups", .arr []), ("membership", .obj []),
    ("lockedLayerIds", .arr []), ("lockedComponentIds", .arr [.str "legend"]),
    ("mode", .str "explore"), ("_rev", .int 3)]

/-- Locks the layer `roads`. -/
def lockRoads : Json := .obj [("locksAdd", .arr [.str "roads"])]

def lockRoadsDelta : Delta where
  setGroups := []
  removeGroupIds := []
  membershipSet := []
  membershipClear := []
  locksAdd := ["roads"]
  locksRemove := []

def roadsLocked : Fields :=
  [("version", .int 5), ("groups", .arr []), ("membership", .obj []),
    ("lockedLayerIds", .arr [.str "roads"]), ("mode", .str "explore"), ("_rev", .int 4)]

theorem commitDelta_lockRoads :
    commitDelta default (some [("workbench", .obj lockedDoc)]) lockRoads 4 =
      .ok [("workbench", .obj roadsLocked)] := by
  have happly : applyDelta (storedDoc (some [("workbench", .obj lockedDoc)])) lockRoadsDelta =
      .ok (writeParts lockedDoc
        { groups := [], membership := Dict.empty, locked := ["roads"] }) := rfl
  rw [commitDelta_of (d := lockRoadsDelta) (by decide +kernel) happly (by decide +kernel)]
  rfl

theorem commitDelta_framed_locked :
    ∃ fs', storedDoc (some [("workbench", .obj roadsLocked)]) = some fs' ∧
      (Framed lockedDoc lockRoadsDelta fs' ↔ ∀ f ∈ lockedDoc, f.1 ∈ reservedDocKeys) :=
  commitDelta_framed_iff (d := lockRoadsDelta) rfl (by decide +kernel) (by decide +kernel)
    commitDelta_lockRoads

/-- Locking a layer unlocks the component. -/
theorem commitDelta_unlocks :
    Accepted default lockedDoc ∧
      commitDelta default (some [("workbench", .obj lockedDoc)]) lockRoads 4 =
        .ok [("workbench", .obj roadsLocked)] ∧
      field "lockedComponentIds" lockedDoc = some (.arr [.str "legend"]) ∧
      field "lockedComponentIds" roadsLocked = none :=
  ⟨by decide +kernel, commitDelta_lockRoads, rfl, rfl⟩

end WebGis.Workbench
