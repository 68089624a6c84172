/-
  A plan through its operations, feature by feature: the deltas and renames that it comes to can be
  taken back from what they make of the features.
-/
import WebGis.Edit.Effects

namespace WebGis.Edit

open Data Json List Option Dict Feature

/-! ## Deltas of one operation -/

/-- The deltas of an operation for one feature of the working copy. -/
def opDeltas (S : Shapes) (targets : List String) (payloads : Targets) (f : Feature) :
    EditOp → List FeatureDelta
  | .setFields fields => (attrDelta fields targets f).toList
  | .renameField _ => []
  | .geometry op =>
    match f.wfid with
    | some wfid => if wfid ∈ targets then (geometryDelta S op payloads (wfid, f)).1 else []
    | none => []

/-- A delta that is for the feature and knows its values. -/
structure OwnDelta (f : Feature) (delta : FeatureDelta) : Prop where
  wfid : f.wfid = some delta.wfid
  sets : ∀ k change, delta.change k = some change → change.value ≠ none
  before : ∀ k change, delta.change k = some change → change.invert.value = f.find k
  geometry : (delta.geometryBefore = none ∧ delta.geometryAfter = none) ∨
    (delta.geometryBefore = f.geometry ∧ delta.geometryBefore.isSome ∧ delta.geometryAfter.isSome)

variable {S : Shapes} {targets : List String} {payloads : Targets} {f p w : Feature} {k : String}
  {fields : Dict String Json} {delta : FeatureDelta} {s : Changes} {fs : List Feature}

theorem named_of_wfid {wfid : String} (h : f.wfid = some wfid) : f.properties.isSome := by
  unfold Feature.wfid Feature.find at h
  cases hp : f.properties with
  | some props => rfl
  | none =>
    rw [hp] at h
    cases h

variable {change : FieldChange}

theorem attrDelta_change (h : attrDelta fields targets f = some delta)
    (hk : delta.change k = some change) :
    ∃ v, fields.find k = some v ∧ change.value = some v ∧ change.invert.value = f.find k := by
  unfold attrDelta at h
  split at h
  · rename_i props wfid hp hw
    split at h
    · cases h
      have hkeys : ((fields.items.map fun nv => (nv.1, setChange props nv.1 nv.2)).map
          Prod.fst).Nodup := by
        rw [List.map_map]
        exact fields.unique
      have hfind : (ofList (fields.items.map fun nv =>
          (nv.1, setChange props nv.1 nv.2))).find k = some change := hk
      rw [find_eq_some, items_ofList hkeys, List.mem_map] at hfind
      obtain ⟨nv, hnv, heq⟩ := hfind
      cases heq
      refine ⟨nv.2, find_eq_some.mpr hnv, rfl, ?_⟩
      unfold FieldChange.value FieldChange.invert setChange Feature.find
      rw [hp, bind_some]
      cases props.find nv.1 <;> rfl
    · cases h
  · cases h

theorem geometryDelta_own {op : GeometryOp} {wfid : String} (hw : f.wfid = some wfid)
    (h : delta ∈ (geometryDelta S op payloads (wfid, f)).1) :
    OwnDelta f delta ∧ ∀ k, delta.change k = none := by
  unfold geometryDelta at h
  split at h
  · rename_i geometry hgeometry
    split at h
    · cases h
    · cases mem_singleton.mp h
      exact ⟨⟨hw, nofun, nofun, .inr ⟨hgeometry.symm, rfl, rfl⟩⟩, fun _ => rfl⟩
    · cases h
  · cases h

variable {op : EditOp}

theorem opDeltas_own (h : delta ∈ opDeltas S targets payloads f op) : OwnDelta f delta := by
  cases op with
  | setFields fields =>
    have hdelta := Option.mem_toList.mp h
    obtain ⟨hw, -, hsets⟩ := attrDelta_eq_some hdelta
    refine ⟨hw, fun k change hk => ?_, fun k change hk => ?_, .inl ⟨?_, hsets.1⟩⟩
    · obtain ⟨v, -, hvalue, -⟩ := attrDelta_change hdelta hk
      rw [hvalue]
      nofun
    · obtain ⟨v, -, -, hbefore⟩ := attrDelta_change hdelta hk
      exact hbefore
    · have hdelta : attrDelta fields targets f = some delta := hdelta
      unfold attrDelta at hdelta
      split at hdelta
      · split at hdelta
        · cases hdelta
          rfl
        · cases hdelta
      · cases hdelta
  | renameField op => cases h
  | geometry op =>
    rw [opDeltas] at h
    split at h
    · rename_i wfid hw
      split at h
      · exact (geometryDelta_own hw h).1
      · cases h
    · cases h

theorem opDeltas_cases (S : Shapes) (targets : List String) (payloads : Targets) (f : Feature)
    (op : EditOp) :
    opDeltas S targets payloads f op = [] ∨ ∃ delta, opDeltas S targets payloads f op = [delta] := by
  cases op with
  | setFields fields =>
    rw [opDeltas]
    cases attrDelta fields targets f with
    | none => exact .inl rfl
    | some delta => exact .inr ⟨delta, rfl⟩
  | renameField op => exact .inl rfl
  | geometry op =>
    rw [opDeltas]
    split
    · split
      · unfold geometryDelta
        split
        · split
          · exact .inl rfl
          · exact .inr ⟨_, rfl⟩
          · exact .inl rfl
        · exact .inl rfl
      · exact .inl rfl
    · exact .inl rfl

theorem opDeltas_change (h : delta ∈ opDeltas S targets payloads f op)
    (hk : delta.change k = some change) : ∃ fields, op = .setFields fields ∧ k ∈ fields.keys := by
  cases op with
  | setFields fields =>
    obtain ⟨v, hv, -⟩ := attrDelta_change (Option.mem_toList.mp h) hk
    exact ⟨fields, rfl, mem_keys_iff.mpr ⟨v, hv⟩⟩
  | renameField op => cases h
  | geometry op =>
    rw [opDeltas] at h
    split at h
    · rename_i wfid hw
      split at h
      · have hnone := (geometryDelta_own hw h).2 k
        rw [hk] at hnone
        cases hnone
      · cases h
    · cases h

theorem deltasFor_flatMap {ws : List Feature} (hd : (ws.map wfid).Nodup)
    {g : Feature → List FeatureDelta} (hg : ∀ f, ∀ delta ∈ g f, f.wfid = some delta.wfid)
    (hw : w ∈ ws) : deltasFor (ws.flatMap g) w = g w := by
  induction ws with
  | nil => cases hw
  | cons f ws ih =>
    rw [map_cons, nodup_cons] at hd
    obtain ⟨hf, hd⟩ := hd
    have hone : ∀ f', f'.wfid = w.wfid → deltasFor (g f') w = g f' := by
      intro f' heq
      unfold deltasFor
      rw [filter_eq_self]
      intro delta hdelta
      exact decide_eq_true (heq.symm.trans (hg f' delta hdelta))
    have hother : ∀ f', f'.wfid ≠ w.wfid → deltasFor (g f') w = [] := by
      intro f' hne
      unfold deltasFor
      rw [filter_eq_nil_iff]
      intro delta hdelta heq
      exact hne ((hg f' delta hdelta).trans (of_decide_eq_true heq).symm)
    have happend : deltasFor ((f :: ws).flatMap g) w =
        deltasFor (g f) w ++ deltasFor (ws.flatMap g) w := by
      unfold deltasFor
      rw [flatMap_cons, filter_append]
    rw [happend]
    rcases mem_cons.mp hw with rfl | hw
    · have hnone : deltasFor (ws.flatMap g) w = [] := by
        unfold deltasFor
        rw [filter_eq_nil_iff]
        intro delta hdelta heq
        obtain ⟨f', hf', hdelta⟩ := mem_flatMap.mp hdelta
        refine hf (List.mem_map.mpr ⟨f', hf', ?_⟩)
        rw [hg f' delta hdelta]
        exact (of_decide_eq_true heq).symm
      rw [hone w rfl, hnone, append_nil]
    · have hne : f.wfid ≠ w.wfid := fun heq => hf (heq ▸ List.mem_map_of_mem hw)
      rw [hother f hne, nil_append, ih hd hw]

variable {c : Collection}

theorem commonGuards_selected (h : (commonGuards c targets).2 = []) :
    (commonGuards c targets).1 = selectTargets c.features targets := by
  unfold commonGuards at h ⊢
  split at h
  · cases h
  · rfl

theorem selectTargets_deltas (S : Shapes) (targets : List String) (payloads : Targets)
    (op : GeometryOp) (features : List Feature) :
    (selectTargets features targets).flatMap (fun wf => (geometryDelta S op payloads wf).1) =
      features.flatMap (opDeltas S targets payloads · (.geometry op)) := by
  unfold selectTargets
  induction features with
  | nil => rfl
  | cons f fs ih =>
    rw [flatMap_cons, ← ih, filterMap_cons, opDeltas]
    cases f.wfid with
    | none => rfl
    | some wfid =>
      by_cases hmem : wfid ∈ targets
      · simp [hmem]
      · simp [hmem]

theorem geometryChanges_deltas {op : GeometryOp}
    (h : (geometryChanges S c targets op payloads).2 = []) :
    (geometryChanges S c targets op payloads).1 =
      c.features.flatMap (opDeltas S targets payloads · (.geometry op)) := by
  unfold geometryChanges at h ⊢
  cases hcheck : S.check op payloads with
  | cons f fs =>
    rw [hcheck] at h
    cases h
  | nil =>
    rw [hcheck] at h
    rcases hguards : commonGuards c targets with ⟨selected, findings⟩
    rw [hguards] at h
    cases findings with
    | cons f fs => cases h
    | nil =>
      have hselected := @commonGuards_selected targets c (by rw [hguards])
      rw [hguards] at hselected
      dsimp only at hselected ⊢
      rw [hselected, flatMap_map]
      exact selectTargets_deltas S targets payloads op c.features

theorem opChanges_spec (h : (opChanges S targets payloads s op).2.2 = []) :
    (opChanges S targets payloads s op).1 =
      s.working.features.flatMap (opDeltas S targets payloads · op) ∧
    (opChanges S targets payloads s op).2.1 = renamesOf [op] := by
  cases op with
  | setFields fields =>
    obtain ⟨-, hchanges⟩ := opChanges_set h
    rw [hchanges]
    refine ⟨?_, rfl⟩
    unfold buildAttrDeltas
    rw [filterMap_eq_flatMap_toList]
    rfl
  | renameField op =>
    obtain ⟨-, hchanges⟩ := opChanges_rename h
    rw [hchanges]
    exact ⟨by simp [opDeltas], rfl⟩
  | geometry op =>
    cases op with
    | snapToRef refId tolerance =>
      rw [opChanges] at h ⊢
      split at h
      · cases h
      rename_i hsome
      rw [if_neg hsome]
      exact ⟨geometryChanges_deltas h, rfl⟩
    | repairGeometry fixes => exact ⟨geometryChanges_deltas h, rfl⟩
    | moveBy dx dy => exact ⟨geometryChanges_deltas h, rfl⟩

/-! ## What a profile shows -/

theorem foldl_reaches {σ α : Type} {P : σ → Prop} {g : σ → α → σ} {xs : List α} {x : α}
    (hx : x ∈ xs) (hkeep : ∀ s a, P s → P (g s a)) (hmake : ∀ s, P (g s x)) (s : σ) :
    P (xs.foldl g s) := by
  induction xs generalizing s with
  | nil => cases hx
  | cons a xs ih =>
    rw [foldl_cons]
    rcases mem_cons.mp hx with rfl | hx
    · exact List.foldlRecOn (motive := P) xs g (hmake s) fun t ht b _ => hkeep t b ht
    · exact ih hx (g s a)

variable {profiles : Profiles}

theorem observeField_keeps (kv : String × Json) (h : (profiles.find k).isSome) :
    ((observeField profiles kv).find k).isSome := by
  unfold observeField
  split
  · exact h
  rw [find_set]
  split
  · rfl
  · exact h

theorem observeField_shows (profiles : Profiles) {kv : String × Json} (h : kv.1 ≠ wfidProp) :
    ((observeField profiles kv).find kv.1).isSome := by
  unfold observeField
  rw [if_neg h, find_set_self]
  rfl

theorem observeFeature_keeps (f : Feature) (h : (profiles.find k).isSome) :
    ((observeFeature profiles f).find k).isSome := by
  unfold observeFeature
  split
  · exact h
  rename_i props _
  exact List.foldlRecOn (motive := fun p => (Dict.find p k).isSome) props.items observeField h
    fun _ h kv _ => observeField_keeps kv h

theorem profileFields_shows {features : List Feature} (hn : features.length ≤ profileScanLimit)
    (hf : f ∈ features) (hk : k ≠ wfidProp) (h : f.find k ≠ none) :
    ((profileFields features).find k).isSome := by
  unfold profileFields
  rw [take_of_length_le hn]
  refine foldl_reaches (P := fun p => (Dict.find p k).isSome) hf
    (fun _ g h => observeFeature_keeps g h) (fun profiles => ?_) _
  unfold observeFeature
  cases hp : f.properties with
  | none =>
    unfold Feature.find at h
    rw [hp] at h
    exact absurd rfl h
  | some props =>
    obtain ⟨v, hv⟩ := ne_none_iff_exists'.mp h
    unfold Feature.find at hv
    rw [hp, bind_some] at hv
    exact foldl_reaches (P := fun p => (Dict.find p k).isSome) (find_eq_some.mp hv)
      (fun _ kv h => observeField_keeps kv h) (fun profiles => observeField_shows profiles hk) _

theorem validateSetFields_known (h : validateSetFields fields profiles = [])
    (hk : k ∈ fields.keys) : (profiles.find k).isSome := by
  unfold validateSetFields at h
  split at h
  · cases h
  obtain ⟨nv, hnv, rfl⟩ := List.mem_map.mp hk
  have hfield := flatMap_eq_nil_iff.mp h nv hnv
  unfold validateField at hfield
  split at hfield
  · cases hfield
  split at hfield
  · cases hfield
  split at hfield
  · cases hfield
  split at hfield
  · cases hfield
  rename_i hprofile
  rw [hprofile]
  rfl

theorem validateRename_fresh {op : RenameField} (h : validateRenameField op profiles = []) :
    (profiles.find op.src).isSome ∧ profiles.find op.dst = none := by
  unfold validateRenameField at h
  split at h
  · cases h
  split at h
  · cases h
  split at h
  · cases h
  split at h
  · cases h
  split at h
  · cases h
  rename_i hsrc
  split at h
  · cases h
  rename_i hdst
  exact ⟨by simpa [isSome_iff_ne_none] using hsrc, by simpa using hdst⟩

/-! ## Plans that can be taken back -/

/-- The operation does not use the name. -/
def EditOp.SparesName (name : String) : EditOp → Prop
  | .setFields fields => name ∉ fields.keys
  | .renameField op => op.dst ≠ name
  | .geometry _ => True

/-- Two deltas that do not change the same field of a feature, nor its geometry both. -/
def FeatureDelta.Apart (d e : FeatureDelta) : Prop :=
  d.wfid = e.wfid → (∀ k, d.change k = none ∨ e.change k = none) ∧
    (d.geometryAfter = none ∨ e.geometryAfter = none)

/-- No operation uses a name that a rename before it has freed, nothing of a feature is changed
twice, and no field that is renamed has been added by the plan. -/
structure Reversible (ops : List EditOp) (deltas : List FeatureDelta)
    (schemaOps : List RenameField) : Prop where
  freed : ops.Pairwise fun a b => ∀ r, a = .renameField r → b.SparesName r.src
  once : deltas.Pairwise FeatureDelta.Apart
  there : ∀ r ∈ schemaOps, ∀ delta ∈ deltas, ∀ change, delta.change r.src = some change →
    change.beforeAbsent = false

variable {deltas : List FeatureDelta}

theorem effect_eq_none (h : ∀ delta ∈ deltas, delta.change k = none) : effect deltas k = none := by
  induction deltas using List.reverseRecOn with
  | nil => rfl
  | append_singleton deltas delta ih =>
    rw [effect_append, h delta (by simp), ih fun d hd => h d (mem_append_left _ hd)]
    rfl

theorem lastGeometry_invert_eq_none (h : ∀ delta ∈ deltas, delta.geometryBefore = none) :
    lastGeometry (invertDeltas deltas) = none := by
  induction deltas using List.reverseRecOn with
  | nil => rfl
  | append_singleton deltas delta ih =>
    rw [lastGeometry_invert_append, h delta (by simp),
      ih fun d hd => h d (mem_append_left _ hd)]
    rfl

variable {rs : List RenameField}

theorem wfid_committed (f : Feature) (hdeltas : ∀ delta ∈ deltas, delta.change wfidProp = none)
    (hrenames : ∀ r ∈ rs, r.src ≠ wfidProp ∧ r.dst ≠ wfidProp) :
    (committed f deltas rs).wfid = f.wfid := by
  unfold committed
  rw [wfid_renames hrenames]
  refine wfid_of_find ?_
  rw [find_applyDeltas, effect_eq_none hdeltas]
  rfl

theorem mem_deltasFor (h : delta ∈ deltasFor deltas f) :
    delta ∈ deltas ∧ f.wfid = some delta.wfid := by
  obtain ⟨hmem, hw⟩ := mem_filter.mp h
  exact ⟨hmem, of_decide_eq_true hw⟩

theorem deltasFor_append (deltas new : List FeatureDelta) (f : Feature) :
    deltasFor (deltas ++ new) f = deltasFor deltas f ++ deltasFor new f :=
  filter_append ..

theorem deltasFor_congr (deltas : List FeatureDelta) (h : f.wfid = w.wfid) :
    deltasFor deltas f = deltasFor deltas w := by
  unfold deltasFor
  rw [h]

/-- What is known of all features after some operations without findings. -/
structure Traced (fs : List Feature) (done : List EditOp) (s : Changes) : Prop where
  deltas : ∀ delta ∈ s.deltas, delta.change wfidProp = none ∧
    delta.geometryBefore.isSome = delta.geometryAfter.isSome
  renames : ∀ r ∈ s.schemaOps, r.src ≠ wfidProp ∧ r.dst ≠ wfidProp
  schemaOps : s.schemaOps = renamesOf done
  known : s.schemaOps = [] → ∀ delta ∈ s.deltas, ∀ k, delta.change k ≠ none →
    (s.profiles.find k).isSome
  shown : ∀ w ∈ s.working.features, ∀ k, k ≠ wfidProp → w.find k ≠ none →
    (s.profiles.find k).isSome
  hidden : s.profiles.find wfidProp = none
  tracked : List.Forall₂ (fun p w => w.wfid = p.wfid ∧
    Tracked p (deltasFor s.deltas p) s.schemaOps w) fs s.working.features

variable {done : List EditOp}

theorem Traced.ids (h : Traced fs done s) :
    s.working.features.map wfid = fs.map wfid := by
  have hrel := h.tracked.imp fun _ _ h => h.1
  clear h
  generalize s.working.features = ws at hrel
  induction hrel with
  | nil => rfl
  | cons hw _ ih => rw [map_cons, map_cons, hw, ih]

theorem replay_features (hd : (s.working.features.map wfid).Nodup) :
    (replay s).working.features =
      s.working.features.map fun w => committed w (deltasFor s.deltas w) s.schemaOps := by
  unfold replay
  split
  · rename_i hempty
    rw [hempty.1, hempty.2]
    exact (List.map_id _).symm
  · exact commitFeatures_eq hd s

theorem replay_collected (s : Changes) :
    (replay s).deltas = s.deltas ∧ (replay s).schemaOps = s.schemaOps := by
  unfold replay
  split
  · exact ⟨rfl, rfl⟩
  · exact ⟨rfl, rfl⟩

theorem replay_profiles (s : Changes) :
    (replay s).profiles =
      if s.schemaOps = [] then s.profiles else profileFields (replay s).working.features := by
  unfold replay
  split
  · rename_i hempty
    rw [if_pos hempty.2]
  · rfl

section

variable (h : Traced fs done s)
include h

theorem tracked_step (hw : w ∈ s.working.features) (hwfid : w.wfid = p.wfid)
    (ht : Tracked p (deltasFor s.deltas p) s.schemaOps w)
    (hchanges : (opChanges S targets payloads s op).2.2 = []) (hrev : Reversible (done ++ [op])
      (s.deltas ++ s.working.features.flatMap (opDeltas S targets payloads · op))
      (s.schemaOps ++ renamesOf [op])) :
    Tracked p (deltasFor s.deltas p ++ opDeltas S targets payloads w op)
      (s.schemaOps ++ renamesOf [op])
      (committed w (deltasFor s.deltas p ++ opDeltas S targets payloads w op)
        (s.schemaOps ++ renamesOf [op])) := by
  have hfreed : ∀ r ∈ s.schemaOps, op.SparesName r.src := by
    intro r hr
    rw [h.schemaOps] at hr
    obtain ⟨-, -, hpast⟩ := pairwise_append.mp hrev.freed
    exact hpast _ (mem_renamesOf.mp hr) op (mem_singleton_self op) r rfl
  have hkept : renamesOf [op] = [] →
      Tracked p (deltasFor s.deltas p ++ opDeltas S targets payloads w op)
        (s.schemaOps ++ renamesOf [op])
        (committed w (deltasFor s.deltas p ++ opDeltas S targets payloads w op)
          (s.schemaOps ++ renamesOf [op])) := by
    intro hnone
    rw [hnone, append_nil]
    rcases opDeltas_cases S targets payloads w op with hnil | ⟨delta, hone⟩
    · rw [hnil, append_nil]
      exact { ht with working := ht.replayed }
    · have hmem : delta ∈ opDeltas S targets payloads w op := by
        rw [hone]
        exact mem_singleton_self delta
      have hown := opDeltas_own hmem
      have hnew : delta ∈ s.working.features.flatMap (opDeltas S targets payloads · op) :=
        mem_flatMap.mpr ⟨w, hw, hmem⟩
      have hapart : ∀ d ∈ deltasFor s.deltas p,
          (∀ k, d.change k = none ∨ delta.change k = none) ∧
            (d.geometryAfter = none ∨ delta.geometryAfter = none) := by
        intro d hd
        obtain ⟨hd, hdw⟩ := mem_deltasFor hd
        obtain ⟨-, -, hpast⟩ := pairwise_append.mp hrev.once
        refine hpast d hd delta hnew ?_
        have hwfids := hdw.symm.trans (hwfid.symm.trans hown.wfid)
        exact some.inj hwfids
      rw [hone]
      refine ht.change (named_of_wfid (hwfid.symm.trans hown.wfid)) hown.sets ?_ ?_ hown.before ?_
      · intro r hr
        by_contra hne
        obtain ⟨change, hchange⟩ := ne_none_iff_exists'.mp hne
        obtain ⟨fields, rfl, hk⟩ := opDeltas_change hmem hchange
        exact hfreed r hr hk
      · intro k change hchange
        refine effect_eq_none fun d hd => ?_
        rcases (hapart d hd).1 k with hnone | hnone
        · exact hnone
        · rw [hchange] at hnone
          cases hnone
      · rcases hown.geometry with hnone | ⟨hbefore, hsome, hafter⟩
        · exact .inl hnone
        refine .inr ⟨lastGeometry_invert_eq_none fun d hd => ?_, hbefore, hsome⟩
        have hnone : d.geometryAfter = none := by
          rcases (hapart d hd).2 with hnone | hnone
          · exact hnone
          · rw [hnone] at hafter
            cases hafter
        have hpaired := (h.deltas d (mem_deltasFor hd).1).2
        rw [hnone] at hpaired
        simpa using hpaired
  cases op with
  | setFields fields => exact hkept rfl
  | geometry op => exact hkept rfl
  | renameField r =>
    have hvalid := (opChanges_rename hchanges).1
    obtain ⟨hsrc, hdst⟩ := validateRename_fresh hvalid
    obtain ⟨-, hreserved⟩ := validateRename_spares h.hidden hvalid
    rw [show opDeltas S targets payloads w (.renameField r) = [] from rfl, append_nil]
    refine ht.rename ?_ ?_ ?_ ?_
    · intro heq
      rw [heq, hdst] at hsrc
      cases hsrc
    · by_contra hne
      have hshown := h.shown w hw r.dst hreserved hne
      rw [hdst] at hshown
      cases hshown
    · exact fun r' hr' => Ne.symm (hfreed r' hr')
    · intro delta hdelta change hchange
      exact hrev.there r (by simp [renamesOf]) delta
        (mem_append_left _ (mem_deltasFor hdelta).1) change hchange

theorem known_step (hchanges : (opChanges S targets payloads s op).2.2 = [])
    (hnone : s.schemaOps = []) :
    ∀ delta ∈ s.deltas ++ s.working.features.flatMap (opDeltas S targets payloads · op),
      ∀ k, delta.change k ≠ none → (s.profiles.find k).isSome := by
  intro delta hdelta k hk
  rcases mem_append.mp hdelta with hdelta | hdelta
  · exact h.known hnone delta hdelta k hk
  · obtain ⟨w, -, hmem⟩ := mem_flatMap.mp hdelta
    obtain ⟨change, hchange⟩ := ne_none_iff_exists'.mp hk
    obtain ⟨fields, rfl, hname⟩ := opDeltas_change hmem hchange
    exact validateSetFields_known (opChanges_set hchanges).1 hname

theorem deltas_step (hchanges : (opChanges S targets payloads s op).2.2 = []) :
    ∀ delta ∈ s.deltas ++ s.working.features.flatMap (opDeltas S targets payloads · op),
      delta.change wfidProp = none ∧
        delta.geometryBefore.isSome = delta.geometryAfter.isSome := by
  intro delta hdelta
  rcases mem_append.mp hdelta with hdelta | hdelta
  · exact h.deltas delta hdelta
  obtain ⟨w, -, hmem⟩ := mem_flatMap.mp hdelta
  refine ⟨?_, ?_⟩
  · by_contra hne
    obtain ⟨change, hchange⟩ := ne_none_iff_exists'.mp hne
    obtain ⟨fields, rfl, hname⟩ := opDeltas_change hmem hchange
    exact validateSetFields_spares (opChanges_set hchanges).1 hname
  · rcases (opDeltas_own hmem).geometry with ⟨hbefore, hafter⟩ | ⟨-, hbefore, hafter⟩
    · rw [hbefore, hafter]
    · rw [hbefore, hafter]

theorem renames_step (hchanges : (opChanges S targets payloads s op).2.2 = []) :
    ∀ r ∈ s.schemaOps ++ renamesOf [op], r.src ≠ wfidProp ∧ r.dst ≠ wfidProp := by
  intro r hr
  rcases mem_append.mp hr with hr | hr
  · exact h.renames r hr
  · obtain rfl : op = .renameField r := (mem_singleton.mp (mem_renamesOf.mp hr)).symm
    exact validateRename_spares h.hidden (opChanges_rename hchanges).1

end

theorem Traced.step (hn : fs.length ≤ profileScanLimit) (hd : (fs.map wfid).Nodup)
    (h : Traced fs done s) (hfindings : (deriveOp S targets payloads s op).findings = [])
    (hrev : Reversible (done ++ [op]) (deriveOp S targets payloads s op).deltas
      (deriveOp S targets payloads s op).schemaOps) :
    Traced fs (done ++ [op]) (deriveOp S targets payloads s op) := by
  rw [findings_deriveOp] at hfindings
  have hchanges := (append_eq_nil_iff.mp hfindings).2
  obtain ⟨hdeltas, hschema⟩ := opChanges_spec hchanges
  have hop : opChanges S targets payloads s op =
      (s.working.features.flatMap (opDeltas S targets payloads · op), renamesOf [op],
        (opChanges S targets payloads s op).2.2) := by
    rw [← hdeltas, ← hschema]
  rw [deriveOp_eq hop] at hrev ⊢
  have hknown := known_step h hchanges
  have hspares := deltas_step h hchanges
  have hmoves := renames_step h hchanges
  have hdw : (s.working.features.map wfid).Nodup := by rwa [h.ids]
  generalize hnew : (opChanges S targets payloads s op).2.2 = findings at hrev ⊢
  generalize hext : ({ s with
    deltas := s.deltas ++ s.working.features.flatMap (opDeltas S targets payloads · op)
    schemaOps := s.schemaOps ++ renamesOf [op]
    findings := s.findings ++ findings } : Changes) = t at hrev ⊢
  have htd : t.deltas = s.deltas ++
      s.working.features.flatMap (opDeltas S targets payloads · op) := by rw [← hext]
  have hts : t.schemaOps = s.schemaOps ++ renamesOf [op] := by rw [← hext]
  have htw : t.working = s.working := by rw [← hext]
  have htp : t.profiles = s.profiles := by rw [← hext]
  obtain ⟨hkeepd, hkeeps⟩ := replay_collected t
  have hfeatures := replay_features (s := t) (by rw [htw]; exact hdw)
  have hprofiles := replay_profiles t
  rw [hkeepd, hkeeps, htd, hts] at hrev
  have hlength : (replay t).working.features.length ≤ profileScanLimit := by
    rw [hfeatures, length_map, htw]
    have := congrArg List.length h.ids
    rw [length_map, length_map] at this
    omega
  refine ⟨?_, ?_, ?_, ?_, ?_, ?_, ?_⟩
  · rw [hkeepd, htd]
    exact hspares
  · rw [hkeeps, hts]
    exact hmoves
  · rw [hkeeps, hts, h.schemaOps]
    simp [renamesOf]
  · intro hnone
    rw [hkeeps] at hnone
    rw [hkeepd, htd, hprofiles, if_pos hnone, htp]
    rw [hts] at hnone
    exact hknown (append_eq_nil_iff.mp hnone).1
  · intro w' hw' k hk hfind
    rw [hprofiles]
    by_cases hnone : t.schemaOps = []
    · rw [if_pos hnone, htp]
      rw [hfeatures, htw] at hw'
      obtain ⟨w, hw, rfl⟩ := List.mem_map.mp hw'
      rw [hnone] at hfind
      have hfind : ((deltasFor t.deltas w).foldl applyDelta w).find k ≠ none := hfind
      rw [find_applyDeltas] at hfind
      by_cases htouched : ∃ delta ∈ deltasFor t.deltas w, delta.change k ≠ none
      · obtain ⟨delta, hdelta, hchange⟩ := htouched
        have hmem := (mem_deltasFor hdelta).1
        rw [htd] at hmem
        rw [hts] at hnone
        exact hknown (append_eq_nil_iff.mp hnone).1 delta hmem k hchange
      · have heffect : effect (deltasFor t.deltas w) k = none := effect_eq_none fun delta hdelta => by
          by_contra hne
          exact htouched ⟨delta, hdelta, hne⟩
        rw [heffect] at hfind
        exact h.shown w hw k hk hfind
    · rw [if_neg hnone]
      exact profileFields_shows hlength hw' hk hfind
  · rw [hprofiles]
    split
    · rw [htp]
      exact h.hidden
    · exact profile_wfid _
  · rw [hfeatures, forall₂_map_right_iff, hkeepd, hkeeps, htw]
    obtain ⟨hlen, hzip⟩ := forall₂_iff_zip.mp h.tracked
    refine forall₂_iff_zip.mpr ⟨hlen, fun {p w} hpw => ?_⟩
    obtain ⟨hwfid, ht⟩ := hzip hpw
    have hw := (of_mem_zip hpw).2
    have hown : ∀ f, ∀ delta ∈ opDeltas S targets payloads f op, f.wfid = some delta.wfid :=
      fun f delta hdelta => (opDeltas_own hdelta).wfid
    have hfor : deltasFor t.deltas p =
        deltasFor s.deltas p ++ opDeltas S targets payloads w op := by
      rw [htd, deltasFor_append, deltasFor_congr _ hwfid.symm, deltasFor_congr _ hwfid.symm,
        deltasFor_flatMap hdw hown hw]
    have hsame : deltasFor t.deltas w = deltasFor t.deltas p := deltasFor_congr _ hwfid
    refine ⟨?_, ?_⟩
    · rw [wfid_committed w, hwfid]
      · intro delta hdelta
        have hmem := (mem_deltasFor hdelta).1
        rw [htd] at hmem
        exact (hspares delta hmem).1
      · rw [hts]
        exact hmoves
    · rw [hsame, hfor, hts]
      exact tracked_step h hw hwfid ht hchanges hrev

theorem collected_ops (ops : List EditOp) (s : Changes) :
    (∃ deltas, (ops.foldl (deriveOp S targets payloads) s).deltas = s.deltas ++ deltas) ∧
    ∃ rs, (ops.foldl (deriveOp S targets payloads) s).schemaOps = s.schemaOps ++ rs := by
  induction ops generalizing s with
  | nil => exact ⟨⟨[], by simp⟩, [], by simp⟩
  | cons op ops ih =>
    obtain ⟨⟨deltas, hdeltas⟩, rs, hrs⟩ := ih (deriveOp S targets payloads s op)
    obtain ⟨deltas', rs', fs, hop⟩ : ∃ deltas rs fs,
        opChanges S targets payloads s op = (deltas, rs, fs) := ⟨_, _, _, rfl⟩
    have hstep := deriveOp_eq hop
    rw [foldl_cons, hdeltas, hrs, hstep]
    obtain ⟨hd, hs⟩ := replay_collected
      { s with
        deltas := s.deltas ++ deltas'
        schemaOps := s.schemaOps ++ rs'
        findings := s.findings ++ fs }
    rw [hd, hs]
    exact ⟨⟨deltas' ++ deltas, append_assoc ..⟩, rs' ++ rs, append_assoc ..⟩

variable {ops : List EditOp}

theorem Reversible.left {more : List EditOp} {deltas' : List FeatureDelta} {rs' : List RenameField}
    (h : Reversible (ops ++ more) (deltas ++ deltas') (rs ++ rs')) : Reversible ops deltas rs where
  freed := (pairwise_append.mp h.freed).1
  once := (pairwise_append.mp h.once).1
  there r hr delta hdelta :=
    h.there r (mem_append_left _ hr) delta (mem_append_left _ hdelta)

theorem Traced.run (hn : fs.length ≤ profileScanLimit) (hd : (fs.map wfid).Nodup)
    (h : Traced fs done s) (hfindings : (ops.foldl (deriveOp S targets payloads) s).findings = [])
    (hrev : Reversible (done ++ ops) (ops.foldl (deriveOp S targets payloads) s).deltas
      (ops.foldl (deriveOp S targets payloads) s).schemaOps) :
    Traced fs (done ++ ops) (ops.foldl (deriveOp S targets payloads) s) := by
  induction ops generalizing done s with
  | nil => rwa [append_nil]
  | cons op ops ih =>
    rw [foldl_cons] at hfindings hrev ⊢
    have hassoc : done ++ op :: ops = (done ++ [op]) ++ ops := by simp
    rw [hassoc] at hrev ⊢
    obtain ⟨⟨deltas, hdeltas⟩, rs, hrs⟩ :=
      @collected_ops S targets payloads ops (deriveOp S targets payloads s op)
    have hstep : Reversible (done ++ [op]) (deriveOp S targets payloads s op).deltas
        (deriveOp S targets payloads s op).schemaOps := by
      rw [hdeltas, hrs] at hrev
      exact hrev.left
    exact ih (h.step hn hd (findings_ops hfindings) hstep) hfindings hrev

theorem traced_start (c : Collection) (hn : c.features.length ≤ profileScanLimit) :
    Traced c.features [] ⟨[], [], [], c, profileFields c.features⟩ where
  deltas := nofun
  renames := nofun
  schemaOps := rfl
  known := nofun
  shown _ hw _ hk h := profileFields_shows hn hw hk h
  hidden := profile_wfid _
  tracked := forall₂_same.mpr fun p _ => ⟨rfl, tracked_nil p⟩

/-! ## There and back -/

theorem Traced.feature (h : Traced fs done s) (hf : f ∈ fs) :
    ∃ w, Tracked f (deltasFor s.deltas f) s.schemaOps w := by
  have hrel := h.tracked.imp fun p w h => h.2
  clear h
  generalize s.working.features = ws at hrel
  induction hrel with
  | nil => cases hf
  | cons hp _ ih =>
    rcases mem_cons.mp hf with rfl | hf
    · exact ⟨_, hp⟩
    · exact ih hf

/-- What the inverse of an entry makes of features. -/
def undoFeatures (deltas : List FeatureDelta) (rs : List RenameField) (features : List Feature) :
    List Feature :=
  (applySchemaOpsToFeatures (applyDeltasToFeatures features (invertDeltas deltas)).1
    (invertSchemaOps rs)).1

theorem deltasFor_invert (deltas : List FeatureDelta) (f : Feature) :
    deltasFor (invertDeltas deltas) f = invertDeltas (deltasFor deltas f) := by
  unfold deltasFor invertDeltas
  rw [List.filter_map]
  rfl

theorem Feature.Same.wfid (h : f.Same w) : f.wfid = w.wfid := wfid_of_find (h.find wfidProp)

variable {gs hs : List Feature}

theorem wfids_same (h : SameFeatures gs hs) : gs.map wfid = hs.map wfid := by
  induction h with
  | nil => rfl
  | cons hf _ ih => rw [map_cons, map_cons, hf.wfid, ih]

theorem named_of_deltas (h : deltasFor deltas f ≠ []) : f.properties.isSome := by
  obtain ⟨delta, hdelta⟩ := exists_mem_of_ne_nil _ h
  exact named_of_wfid (mem_deltasFor hdelta).2

theorem committed_same (h : SameFeatures gs hs) (hd : (hs.map wfid).Nodup)
    (deltas : List FeatureDelta) (rs : List RenameField) :
    SameFeatures
      (applySchemaOpsToFeatures (applyDeltasToFeatures gs deltas).1 rs).1
      (hs.map fun f => committed f (deltasFor deltas f) rs) := by
  have hdg : (gs.map wfid).Nodup := by rwa [wfids_same h]
  rw [applySchemaOps_eq, applyDeltas_eq hdg, List.map_map, SameFeatures,
    forall₂_map_left_iff, forall₂_map_right_iff]
  refine h.imp fun g f hgf => ?_
  rw [← deltasFor_congr deltas hgf.wfid]
  exact hgf.committed rs named_of_deltas

/-- The features that a plan is committed to come back from what the commit has made of them. -/
theorem undo_commit (hn : c.features.length ≤ profileScanLimit) (hd : (c.features.map wfid).Nodup)
    (hfindings : (deriveChanges S c ops targets payloads).findings = [])
    (hrev : Reversible ops (deriveChanges S c ops targets payloads).deltas
      (deriveChanges S c ops targets payloads).schemaOps)
    (hgs : SameFeatures gs (commitFeatures (deriveChanges S c ops targets payloads) c.features)) :
    SameFeatures (undoFeatures (deriveChanges S c ops targets payloads).deltas
      (deriveChanges S c ops targets payloads).schemaOps gs) c.features := by
  have htraced : Traced c.features ops (deriveChanges S c ops targets payloads) :=
    (traced_start c hn).run hn hd hfindings hrev
  generalize deriveChanges S c ops targets payloads = s at hgs htraced ⊢
  have hwfid : ∀ f, (committed f (deltasFor s.deltas f) s.schemaOps).wfid = f.wfid := fun f =>
    wfid_committed f (fun delta hdelta => (htraced.deltas delta (mem_deltasFor hdelta).1).1)
      htraced.renames
  rw [commitFeatures_eq hd] at hgs
  have hids : (c.features.map fun f => committed f (deltasFor s.deltas f) s.schemaOps).map
      wfid = c.features.map wfid := by
    rw [List.map_map]
    exact map_congr_left fun f _ => hwfid f
  have hundo := committed_same hgs (by rw [← hids] at hd; exact hd) (invertDeltas s.deltas)
    (invertSchemaOps s.schemaOps)
  refine SameFeatures.trans hundo ?_
  rw [List.map_map, SameFeatures, forall₂_map_left_iff, forall₂_same]
  intro f hf
  have heq : deltasFor (invertDeltas s.deltas)
      (committed f (deltasFor s.deltas f) s.schemaOps) = invertDeltas (deltasFor s.deltas f) := by
    rw [deltasFor_congr _ (hwfid f), deltasFor_invert]
  have hundoes := (htraced.feature hf).choose_spec.undoes
  rw [← heq] at hundoes
  exact hundoes

end WebGis.Edit
