/-
  A plan whose sets name no field that a rename before them has freed means its operations in order.

  The commit applies all sets first and all renames after them. A set may go past a rename before it
  where the rename does not take the field away that is set: to the field that the rename makes, the
  value that is there already is the stronger one.
-/
import WebGis.Edit.Plans

namespace WebGis.Edit

open Data Json List Option Dict Feature

/-! ## One operation after the other -/

/-- The feature is one of the targets. -/
def Feature.isTarget (f : Feature) (targets : List String) : Bool :=
  f.wfid.any (· ∈ targets)

/-- The values set on one feature. -/
def setAll (f : Feature) (fields : Dict String Json) : Feature :=
  { f with properties := some ((f.properties.getD Dict.empty).merge fields) }

/-- What an operation means for one feature. -/
def runFeature (targets : List String) (f : Feature) : EditOp → Feature
  | .setFields fields => if f.isTarget targets then setAll f fields else f
  | .renameField op => renameFeature f op
  | .geometry _ => f

/-- The operations, each on what the one before has left. -/
def runOps (targets : List String) (ops : List EditOp) (features : List Feature) : List Feature :=
  ops.foldl (fun features op => features.map (runFeature targets · op)) features

/-- No set names a field that a rename before it has freed. -/
def SetsNoFreed (ops : List EditOp) : Prop :=
  ops.Pairwise fun a b => ∀ r fields, a = .renameField r → b = .setFields fields →
    r.src ∉ fields.keys

/-! ## Finding values -/

variable {f g : Feature} {fields : Dict String Json} {op : RenameField} {k : String}

theorem find_setAll : (setAll f fields).find k = (fields.find k).or (f.find k) := by
  unfold setAll Feature.find
  rw [bind_some, find_merge]
  cases f.properties <;> rfl

theorem renameKey_eq (props : Properties) (op : RenameField) (v : Json) :
    renameKey props op v =
      (Dict.empty.set op.dst v).merge (Table.delete props fun kv => kv.1 = op.src) := by
  unfold renameKey ofList Dict.merge Table.delete Dict.items
  simp

theorem find_renameKey {props : Properties} {v : Json} (hv : props.find op.src = some v)
    (h : op.src ≠ op.dst) :
    (renameKey props op v).find k =
      if k = op.src then none
      else if k = op.dst then (props.find op.dst).or (props.find op.src)
      else props.find k := by
  rw [renameKey_eq, find_merge, find_delete_key, find_set, hv]
  by_cases hsrc : k = op.src
  · simp [hsrc, Ne.symm h]
  by_cases hdst : k = op.dst
  · simp [hdst, Ne.symm h]
  · simp [hsrc, hdst, Ne.symm hdst]

theorem find_renameFeature (h : op.src ≠ op.dst) :
    (renameFeature f op).find k =
      if k = op.src then none
      else if k = op.dst then (f.find op.dst).or (f.find op.src)
      else f.find k := by
  unfold renameFeature
  rw [if_neg h]
  cases hp : f.properties with
  | none => simp [Feature.find, hp]
  | some props =>
    dsimp only
    cases hv : props.find op.src with
    | none =>
      have hf : ∀ l, f.find l = props.find l := by
        intro l
        rw [Feature.find, hp, bind_some]
      simp only [hf, hv, or_none]
      by_cases hsrc : k = op.src
      · rw [if_pos hsrc, hsrc, hv]
      by_cases hdst : k = op.dst
      · rw [if_neg hsrc, if_pos hdst, hdst]
      · rw [if_neg hsrc, if_neg hdst]
    | some v =>
      simp only [Feature.find, hp, bind_some]
      exact find_renameKey hv h

theorem renameFeature_rest (f : Feature) (op : RenameField) :
    (renameFeature f op).properties.isSome = f.properties.isSome ∧
    (renameFeature f op).geometry = f.geometry ∧ (renameFeature f op).others = f.others := by
  unfold renameFeature
  split
  · exact ⟨rfl, rfl, rfl⟩
  split
  · exact ⟨rfl, rfl, rfl⟩
  · rename_i hp
    split
    · exact ⟨rfl, rfl, rfl⟩
    · exact ⟨by rw [hp]; rfl, rfl, rfl⟩

/-! ## The same features -/

theorem Feature.Same.setAll (h : f.Same g) (fields : Dict String Json) :
    (setAll f fields).Same (setAll g fields) where
  properties := rfl
  find k := by rw [find_setAll, find_setAll, h.find]
  geometry := h.geometry
  others := h.others

theorem Feature.Same.rename (h : f.Same g) (op : RenameField) :
    (renameFeature f op).Same (renameFeature g op) := by
  obtain ⟨hf, hfg, hfo⟩ := renameFeature_rest f op
  obtain ⟨hg, hgg, hgo⟩ := renameFeature_rest g op
  refine ⟨by rw [hf, hg, h.properties], fun k => ?_, by rw [hfg, hgg, h.geometry],
    by rw [hfo, hgo, h.others]⟩
  by_cases hop : op.src = op.dst
  · unfold renameFeature
    rw [if_pos hop, if_pos hop, h.find]
  · rw [find_renameFeature hop, find_renameFeature hop, h.find, h.find, h.find]

theorem setAll_rename (f : Feature) (h : op.src ∉ fields.keys) :
    (renameFeature (setAll f fields) op).Same (setAll (renameFeature f op) fields) := by
  obtain ⟨hp, hg, ho⟩ := renameFeature_rest (setAll f fields) op
  obtain ⟨hp', hg', ho'⟩ := renameFeature_rest f op
  refine ⟨by rw [hp]; rfl, fun k => ?_, by rw [hg]; exact hg'.symm, by rw [ho]; exact ho'.symm⟩
  have hsrc : fields.find op.src = none := find_eq_none.mpr h
  by_cases hop : op.src = op.dst
  · have hsame : ∀ f' : Feature, renameFeature f' op = f' := fun f' => if_pos hop
    rw [hsame, hsame]
  · rw [find_renameFeature hop, find_setAll, find_setAll, find_setAll, find_setAll,
      find_renameFeature hop, hsrc]
    by_cases hk : k = op.src
    · rw [if_pos hk, if_pos hk, hk, hsrc]
      rfl
    · rw [if_neg hk, if_neg hk]
      by_cases hk' : k = op.dst
      · rw [if_pos hk', if_pos hk', hk', none_or, Option.or_assoc]
      · rw [if_neg hk', if_neg hk']

/-! ## Deltas by feature -/

section

variable {features : List Feature}

theorem find_byWfid (hd : (features.map wfid).Nodup) {w : Option String} {i : Nat} :
    (byWfid features).find w = some i ↔ (features[i]?).map wfid = some w := by
  have hkeys : ((features.zipIdx.map fun fi => (fi.1.wfid, fi.2)).map Prod.fst).Nodup := by
    have hfst : (features.zipIdx.map fun fi => (fi.1.wfid, fi.2)).map Prod.fst =
        features.map wfid := by
      rw [List.map_map, ← zipIdx_map_fst 0 features, List.map_map, zipIdx_map_fst]
      rfl
    rwa [hfst]
  rw [find_eq_some, byWfid, items_ofList hkeys]
  simp [mem_zipIdx_iff_getElem?]

theorem meetDelta_map (hd : (features.map wfid).Nodup) (h : Feature → Feature)
    (applied : List String) (delta : FeatureDelta) :
    (meetDelta (byWfid features) (features.map h, applied) delta).1 =
      features.map fun f => if f.wfid = some delta.wfid then applyDelta (h f) delta else h f := by
  unfold meetDelta
  cases hfind : (byWfid features).find (some delta.wfid) with
  | none =>
    refine map_congr_left fun f hf => ?_
    obtain ⟨i, hi⟩ := getElem?_of_mem hf
    rw [if_neg]
    intro hw
    have := (find_byWfid hd (w := some delta.wfid) (i := i)).mpr (by rw [hi]; simp [hw])
    rw [hfind] at this
    cases this
  | some i =>
    have hi := (find_byWfid hd).mp hfind
    refine ext_getElem? fun j => ?_
    simp only [getElem?_modify, getElem?_map]
    cases hj : features[j]? with
    | none => rfl
    | some f =>
      by_cases hij : i = j
      · subst hij
        rw [hj] at hi
        have hw : f.wfid = some delta.wfid := by simpa using hi
        simp [hw]
      · have hw : f.wfid ≠ some delta.wfid := by
          intro hw
          have hj' := (find_byWfid hd (w := some delta.wfid) (i := j)).mpr (by rw [hj]; simp [hw])
          rw [hfind] at hj'
          exact hij (some.inj hj')
        simp [hij, hw]

/-- The deltas for one feature. -/
def deltasFor (deltas : List FeatureDelta) (f : Feature) : List FeatureDelta :=
  deltas.filter fun delta => f.wfid = some delta.wfid

theorem applyDeltas_eq (hd : (features.map wfid).Nodup) (deltas : List FeatureDelta) :
    (applyDeltasToFeatures features deltas).1 =
      features.map fun f => (deltasFor deltas f).foldl applyDelta f := by
  suffices hfold : ∀ (h : Feature → Feature) (applied : List String),
      (deltas.foldl (meetDelta (byWfid features)) (features.map h, applied)).1 =
        features.map fun f => (deltasFor deltas f).foldl applyDelta (h f) by
    have := hfold id []
    rwa [List.map_id] at this
  induction deltas with
  | nil => exact fun _ _ => rfl
  | cons delta deltas ih =>
    intro h applied
    have hstep := meetDelta_map hd h applied delta
    rw [foldl_cons]
    generalize meetDelta (byWfid features) (features.map h, applied) delta = acc at hstep ⊢
    obtain ⟨out, applied'⟩ := acc
    obtain rfl : out = _ := hstep
    rw [ih]
    refine map_congr_left fun f _ => ?_
    unfold deltasFor
    by_cases hw : f.wfid = some delta.wfid
    · simp [hw]
    · simp [hw]

end

/-! ## Ids -/

/-- The operation leaves the ids of the features alone. -/
def EditOp.SparesIds : EditOp → Prop
  | .setFields fields => wfidProp ∉ fields.keys
  | .renameField op => op.src ≠ wfidProp ∧ op.dst ≠ wfidProp
  | .geometry _ => True

theorem wfid_of_find (h : f.find wfidProp = g.find wfidProp) : f.wfid = g.wfid := by
  unfold wfid
  rw [h]

theorem wfid_setAll (h : wfidProp ∉ fields.keys) : (setAll f fields).wfid = f.wfid :=
  wfid_of_find (by rw [find_setAll, find_eq_none.mpr h, none_or])

theorem wfid_rename (hsrc : op.src ≠ wfidProp) (hdst : op.dst ≠ wfidProp) :
    (renameFeature f op).wfid = f.wfid := by
  by_cases hop : op.src = op.dst
  · unfold renameFeature
    rw [if_pos hop]
  · refine wfid_of_find ?_
    rw [find_renameFeature hop, if_neg (Ne.symm hsrc), if_neg (Ne.symm hdst)]

theorem wfid_runFeature {targets : List String} {op : EditOp} (h : op.SparesIds) :
    (runFeature targets f op).wfid = f.wfid := by
  cases op with
  | setFields fields =>
    rw [runFeature]
    split
    · exact wfid_setAll h
    · rfl
  | renameField op => exact wfid_rename h.1 h.2
  | geometry op => rfl

variable {ops : List EditOp}

theorem wfid_runs (targets : List String) (f : Feature) (h : ∀ op ∈ ops, op.SparesIds) :
    (ops.foldl (runFeature targets) f).wfid = f.wfid := by
  induction ops generalizing f with
  | nil => rfl
  | cons op ops ih =>
    obtain ⟨hop, hops⟩ := forall_mem_cons.mp h
    rw [foldl_cons, ih _ hops, wfid_runFeature hop]

/-! ## Sets before renames -/

/-- The renames among the operations. -/
def renamesOf (ops : List EditOp) : List RenameField :=
  ops.filterMap fun
    | .renameField op => some op
    | _ => none

/-- The sets among the operations. -/
def setsOf (ops : List EditOp) : List (Dict String Json) :=
  ops.filterMap fun
    | .setFields fields => some fields
    | _ => none

theorem Feature.Same.renames (h : f.Same g) (rs : List RenameField) :
    (rs.foldl renameFeature f).Same (rs.foldl renameFeature g) := by
  induction rs generalizing f g with
  | nil => exact h
  | cons r rs ih => exact ih (h.rename r)

theorem setAll_renames (f : Feature) {rs : List RenameField} (h : ∀ r ∈ rs, r.src ∉ fields.keys) :
    (rs.foldl renameFeature (setAll f fields)).Same (setAll (rs.foldl renameFeature f) fields) := by
  induction rs generalizing f with
  | nil => exact .refl _
  | cons r rs ih =>
    obtain ⟨hr, hrs⟩ := forall_mem_cons.mp h
    exact ((setAll_rename f hr).renames rs).trans (ih (renameFeature f r) hrs)

theorem mem_renamesOf {r : RenameField} : r ∈ renamesOf ops ↔ .renameField r ∈ ops := by
  unfold renamesOf
  rw [mem_filterMap]
  constructor
  · rintro ⟨op, hop, heq⟩
    cases op with
    | renameField op => exact some.inj heq ▸ hop
    | setFields fields => cases heq
    | geometry op => cases heq
  · exact fun h => ⟨_, h, rfl⟩

/-- For one feature, all sets and then all renames come to the same as the operations in order. -/
theorem replayed_same {targets : List String} (f : Feature) (hids : ∀ op ∈ ops, op.SparesIds)
    (hfree : SetsNoFreed ops) :
    ((renamesOf ops).foldl renameFeature
      ((if f.isTarget targets then setsOf ops else []).foldl setAll f)).Same
      (ops.foldl (runFeature targets) f) := by
  induction ops using List.reverseRecOn with
  | nil => simpa [renamesOf, setsOf] using Feature.Same.refl f
  | append_singleton ops op ih =>
    obtain ⟨hfree, -, hpast⟩ := pairwise_append.mp hfree
    have hids' : ∀ op ∈ ops, op.SparesIds := fun op hop => hids op (mem_append_left _ hop)
    have ih := ih hids' hfree
    have hwfid := wfid_runs targets f hids'
    rw [foldl_append, foldl_cons, foldl_nil]
    cases op with
    | renameField r =>
      have hr : renamesOf (ops ++ [.renameField r]) = renamesOf ops ++ [r] := by
        simp [renamesOf]
      have hs : setsOf (ops ++ [.renameField r]) = setsOf ops := by
        simp [setsOf]
      rw [hr, hs, foldl_append]
      exact ih.rename r
    | geometry op =>
      have hr : renamesOf (ops ++ [.geometry op]) = renamesOf ops := by
        simp [renamesOf]
      have hs : setsOf (ops ++ [.geometry op]) = setsOf ops := by
        simp [setsOf]
      rw [hr, hs]
      exact ih
    | setFields fields =>
      have hr : renamesOf (ops ++ [.setFields fields]) = renamesOf ops := by
        simp [renamesOf]
      have hs : setsOf (ops ++ [.setFields fields]) = setsOf ops ++ [fields] := by
        simp [setsOf]
      have htarget : (ops.foldl (runFeature targets) f).isTarget targets =
          f.isTarget targets := by
        unfold isTarget
        rw [hwfid]
      rw [hr, hs, runFeature, htarget]
      by_cases ht : f.isTarget targets
      · rw [if_pos ht] at ih ⊢
        rw [if_pos ht, foldl_append]
        refine (setAll_renames _ fun r hr => ?_).trans (ih.setAll fields)
        exact hpast _ (mem_renamesOf.mp hr) _ (mem_singleton_self _) r fields rfl rfl
      · rw [if_neg ht] at ih ⊢
        rw [if_neg ht]
        exact ih

/-! ## What a plan without findings collects -/

section

variable {features : List Feature} {targets : List String} {props : Properties}

/-- The delta that sets the values on the feature. -/
def SetsTo (delta : FeatureDelta) (fields : Dict String Json) : Prop :=
  delta.geometryAfter = none ∧ ∃ props, delta.fields =
    some (ofList (fields.items.map fun nv => (nv.1, setChange props nv.1 nv.2)))

variable {delta : FeatureDelta}

theorem applyDelta_sets (h : SetsTo delta fields) (f : Feature) :
    applyDelta f delta = setAll f fields := by
  obtain ⟨hgeometry, props, hfields⟩ := h
  have hkeys : ((fields.items.map fun nv => (nv.1, setChange props nv.1 nv.2)).map
      Prod.fst).Nodup := by
    rw [List.map_map]
    exact fields.unique
  have hset : ∀ (acc : Properties) (nv : String × Json), applyChange acc nv.1 (setChange props nv.1 nv.2) = acc.set nv.1 nv.2 :=
    fun acc nv => rfl
  unfold applyDelta setAll Dict.merge
  rw [hgeometry, hfields]
  dsimp only
  rw [items_ofList hkeys, foldl_map]
  simp only [hset]

variable {profiles : Profiles}

theorem observeField_wfid (h : profiles.find wfidProp = none) (kv : String × Json) :
    (observeField profiles kv).find wfidProp = none := by
  unfold observeField
  by_cases hk : kv.1 = wfidProp
  · rw [if_pos hk]
    exact h
  · rw [if_neg hk, find_set_ne _ _ hk]
    exact h

theorem observeFeature_wfid (h : profiles.find wfidProp = none) (f : Feature) :
    (observeFeature profiles f).find wfidProp = none := by
  unfold observeFeature
  split
  · exact h
  rename_i props _
  exact List.foldlRecOn (motive := fun p => Dict.find p wfidProp = none) props.items observeField h
    fun _ h kv _ => observeField_wfid h kv

theorem profile_wfid (features : List Feature) : (profileFields features).find wfidProp = none :=
  List.foldlRecOn (motive := fun p => Dict.find p wfidProp = none) _ observeFeature
    (find_empty _) fun _ h f _ => observeFeature_wfid h f

theorem validateSetFields_spares (h : validateSetFields fields profiles = []) :
    (EditOp.setFields fields).SparesIds := by
  unfold validateSetFields at h
  split at h
  · cases h
  intro hmem
  obtain ⟨nv, hnv, hname⟩ := List.mem_map.mp hmem
  have hfield := flatMap_eq_nil_iff.mp h nv hnv
  unfold validateField at hfield
  rw [hname] at hfield
  have hreserved : wfidProp ∈ reservedFieldNames := mem_singleton_self _
  have hempty : ¬ wfidProp = "" := by decide
  rw [if_neg hempty, if_pos hreserved] at hfield
  cases hfield

theorem validateRename_spares (hp : profiles.find wfidProp = none)
    (h : validateRenameField op profiles = []) : (EditOp.renameField op).SparesIds := by
  unfold validateRenameField at h
  split at h
  · cases h
  split at h
  · cases h
  split at h
  · cases h
  split at h
  · cases h
  rename_i hreserved
  split at h
  · cases h
  rename_i hsrc
  refine ⟨?_, fun hdst => hreserved (hdst ▸ mem_singleton_self _)⟩
  intro heq
  rw [heq, hp] at hsrc
  exact hsrc rfl

theorem attrDelta_eq_some (h : attrDelta fields targets f = some delta) :
    f.wfid = some delta.wfid ∧ delta.wfid ∈ targets ∧ SetsTo delta fields := by
  unfold attrDelta at h
  split at h
  · rename_i props wfid hp hw
    split at h
    · rename_i hmem
      cases h
      exact ⟨hw, hmem, rfl, props, rfl⟩
    · cases h
  · cases h

theorem attrDelta_isSome (fields : Dict String Json) {w : String} (hw : f.wfid = some w) (hmem : w ∈ targets) :
    ∃ delta, attrDelta fields targets f = some delta := by
  unfold attrDelta
  cases hp : f.properties with
  | none =>
    unfold Feature.wfid Feature.find at hw
    rw [hp] at hw
    cases hw
  | some props =>
    rw [hw]
    exact ⟨_, if_pos hmem⟩

theorem filter_build (hd : (features.map wfid).Nodup) (targets : List String)
    (fields : Dict String Json) {w : String} (hw : some w ∈ features.map wfid) :
    List.Forall₂ SetsTo ((buildAttrDeltas features targets fields).filter
      fun delta => some w = some delta.wfid) (if w ∈ targets then [fields] else []) := by
  have hnone : ∀ fs : List Feature, some w ∉ fs.map wfid →
      (buildAttrDeltas fs targets fields).filter (fun delta => some w = some delta.wfid) = [] := by
    intro fs hfs
    rw [filter_eq_nil_iff]
    intro delta hdelta heq
    obtain ⟨f, hf, hf'⟩ := mem_filterMap.mp hdelta
    refine hfs (List.mem_map.mpr ⟨f, hf, ?_⟩)
    rw [(attrDelta_eq_some hf').1]
    exact (of_decide_eq_true heq).symm
  induction features with
  | nil => cases hw
  | cons f fs ih =>
    rw [map_cons, nodup_cons] at hd
    obtain ⟨hf, hd⟩ := hd
    have hcons : buildAttrDeltas (f :: fs) targets fields =
        (attrDelta fields targets f).toList ++ buildAttrDeltas fs targets fields := by
      unfold buildAttrDeltas
      cases hdelta : attrDelta fields targets f with
      | none => rw [filterMap_cons_none hdelta]; rfl
      | some delta => rw [filterMap_cons_some hdelta]; rfl
    rw [hcons, filter_append]
    by_cases hfw : f.wfid = some w
    · rw [hnone fs (by rwa [← hfw]), append_nil]
      by_cases hmem : w ∈ targets
      · obtain ⟨delta, hdelta⟩ := attrDelta_isSome fields hfw hmem
        obtain ⟨hwfid, -, hsets⟩ := attrDelta_eq_some hdelta
        rw [hdelta, if_pos hmem]
        have hkeep : some w = some delta.wfid := hfw.symm.trans hwfid
        simpa [hkeep] using hsets
      · rw [if_neg hmem]
        cases hdelta : attrDelta fields targets f with
        | none => exact .nil
        | some delta =>
          obtain ⟨hwfid, hmem', -⟩ := attrDelta_eq_some hdelta
          have heq : w = delta.wfid := some.inj (hfw.symm.trans hwfid)
          exact absurd (heq ▸ hmem') hmem
    · have htail : some w ∈ fs.map wfid := by
        rw [map_cons, mem_cons] at hw
        exact hw.resolve_left (Ne.symm hfw)
      have hhead : (attrDelta fields targets f).toList.filter
          (fun delta => some w = some delta.wfid) = [] := by
        rw [filter_eq_nil_iff]
        intro delta hdelta heq
        have hdelta := Option.mem_toList.mp hdelta
        refine hfw ?_
        rw [(attrDelta_eq_some hdelta).1]
        exact (of_decide_eq_true heq).symm
      rw [hhead, nil_append]
      exact ih hd htail

theorem applySchemaOps_eq (features : List Feature) (ops : List RenameField) :
    (applySchemaOpsToFeatures features ops).1 = features.map fun f => ops.foldl renameFeature f := by
  unfold applySchemaOpsToFeatures
  generalize false = changed
  induction ops generalizing features changed with
  | nil => simp
  | cons op ops ih =>
    rw [foldl_cons, ih, List.map_map]
    rfl

theorem commitFeatures_eq (hd : (features.map wfid).Nodup) (s : Changes) :
    commitFeatures s features = features.map fun f =>
      s.schemaOps.foldl renameFeature ((deltasFor s.deltas f).foldl applyDelta f) := by
  unfold commitFeatures
  rw [applySchemaOps_eq, applyDeltas_eq hd, List.map_map]
  rfl

variable {deltas : List FeatureDelta}

theorem wfid_deltas (h : ∀ delta ∈ deltas, ∃ fields, SetsTo delta fields ∧ wfidProp ∉ fields.keys)
    (f : Feature) : (deltas.foldl applyDelta f).wfid = f.wfid := by
  induction deltas generalizing f with
  | nil => rfl
  | cons delta deltas ih =>
    obtain ⟨⟨fields, hsets, hkeys⟩, hdeltas⟩ := forall_mem_cons.mp h
    rw [foldl_cons, ih hdeltas, applyDelta_sets hsets, wfid_setAll hkeys]

theorem wfid_renames {rs : List RenameField}
    (h : ∀ r ∈ rs, r.src ≠ wfidProp ∧ r.dst ≠ wfidProp) (f : Feature) :
    (rs.foldl renameFeature f).wfid = f.wfid := by
  induction rs generalizing f with
  | nil => rfl
  | cons r rs ih =>
    obtain ⟨⟨hsrc, hdst⟩, hrs⟩ := forall_mem_cons.mp h
    rw [foldl_cons, ih hrs, wfid_rename hsrc hdst]

/-- What has been collected after some operations without findings. -/
structure Collected (targets : List String) (ids : List (Option String)) (done : List EditOp)
    (s : Changes) : Prop where
  findings : s.findings = []
  keeps : s.working.features.map wfid = ids
  spares : ∀ op ∈ done, op.SparesIds
  schemaOps : s.schemaOps = renamesOf done
  deltas : ∀ w, some w ∈ ids → List.Forall₂ SetsTo
    (s.deltas.filter fun delta => some w = some delta.wfid)
    (if w ∈ targets then setsOf done else [])
  sets : ∀ delta ∈ s.deltas, ∃ fields, SetsTo delta fields ∧ wfidProp ∉ fields.keys
  profiles : s.profiles.find wfidProp = none

variable {ids : List (Option String)} {done : List EditOp} {s : Changes}

theorem Collected.replay (hd : ids.Nodup) (h : Collected targets ids done s) :
    Collected targets ids done (replay s) := by
  unfold Edit.replay
  split
  · exact h
  refine ⟨h.findings, ?_, h.spares, h.schemaOps, h.deltas, h.sets, ?_⟩
  · dsimp only
    have hnodup : (s.working.features.map wfid).Nodup := by rwa [h.keeps]
    have hcommit := commitFeatures_eq hnodup s
    unfold commitFeatures at hcommit
    rw [hcommit, List.map_map, ← h.keeps]
    refine map_congr_left fun f _ => ?_
    have hsets : ∀ delta ∈ deltasFor s.deltas f, ∃ fields,
        SetsTo delta fields ∧ wfidProp ∉ fields.keys := fun delta hdelta =>
      h.sets delta (mem_filter.mp hdelta).1
    have hrenames : ∀ r ∈ s.schemaOps, r.src ≠ wfidProp ∧ r.dst ≠ wfidProp := by
      intro r hr
      rw [h.schemaOps] at hr
      exact h.spares _ (mem_renamesOf.mp hr)
    rw [Function.comp_apply, wfid_renames hrenames, wfid_deltas hsets]
  · dsimp only
    split
    · exact h.profiles
    · exact profile_wfid _

theorem findings_replay (s : Changes) : (Edit.replay s).findings = s.findings := by
  unfold Edit.replay
  split <;> rfl

theorem findings_deriveOp (S : Shapes) (targets : List String) (payloads : Targets)
    (s : Changes) (op : EditOp) :
    (deriveOp S targets payloads s op).findings =
      s.findings ++ (opChanges S targets payloads s op).2.2 := by
  exact findings_replay _

variable {S : Shapes} {payloads : Targets} {ops : List EditOp}

theorem findings_ops (h : (ops.foldl (deriveOp S targets payloads) s).findings = []) :
    s.findings = [] := by
  induction ops generalizing s with
  | nil => exact h
  | cons op ops ih =>
    have hstep := ih h
    rw [findings_deriveOp] at hstep
    exact (append_eq_nil_iff.mp hstep).1

theorem opChanges_rename {r : RenameField}
    (h : (opChanges S targets payloads s (.renameField r)).2.2 = []) :
    validateRenameField r s.profiles = [] ∧
    opChanges S targets payloads s (.renameField r) = ([], [r], []) := by
  rw [opChanges] at h ⊢
  cases hvalidate : validateRenameField r s.profiles with
  | nil => exact ⟨rfl, rfl⟩
  | cons f fs =>
    rw [hvalidate] at h
    cases h

theorem opChanges_set (h : (opChanges S targets payloads s (.setFields fields)).2.2 = []) :
    validateSetFields fields s.profiles = [] ∧
    opChanges S targets payloads s (.setFields fields) =
      (buildAttrDeltas s.working.features targets fields, [], []) := by
  rw [opChanges] at h ⊢
  cases hvalidate : validateSetFields fields s.profiles with
  | nil => exact ⟨rfl, rfl⟩
  | cons f fs =>
    rw [hvalidate] at h
    cases h

theorem deriveOp_eq {op : EditOp} {schemaOps : List RenameField} {fs : List EditFinding}
    (h : opChanges S targets payloads s op = (deltas, schemaOps, fs)) :
    deriveOp S targets payloads s op = Edit.replay
      { s with
        deltas := s.deltas ++ deltas
        schemaOps := s.schemaOps ++ schemaOps
        findings := s.findings ++ fs } := by
  unfold deriveOp
  rw [h]

theorem Collected.step {op : EditOp} (hd : ids.Nodup) (h : Collected targets ids done s)
    (hattr : op.isAttr) (hfindings : (deriveOp S targets payloads s op).findings = []) :
    Collected targets ids (done ++ [op]) (deriveOp S targets payloads s op) := by
  rw [findings_deriveOp, h.findings, nil_append] at hfindings
  have hspares : ∀ {op : EditOp}, op.SparesIds → ∀ op' ∈ done ++ [op], op'.SparesIds := by
    intro op hop op' hop'
    rcases mem_append.mp hop' with hop' | hop'
    · exact h.spares op' hop'
    · rwa [mem_singleton.mp hop']
  cases op with
  | geometry op => cases hattr
  | renameField r =>
    obtain ⟨hnone, hchanges⟩ := opChanges_rename hfindings
    rw [deriveOp_eq hchanges]
    refine Collected.replay hd ?_
    simp only [append_nil]
    exact
      { findings := h.findings
        keeps := h.keeps
        spares := hspares (validateRename_spares h.profiles hnone)
        schemaOps := by simp [h.schemaOps, renamesOf]
        deltas := fun w hw => by simpa [setsOf] using h.deltas w hw
        sets := h.sets
        profiles := h.profiles }
  | setFields fields =>
    obtain ⟨hnone, hchanges⟩ := opChanges_set hfindings
    have hfields := validateSetFields_spares hnone
    have hnodup : (s.working.features.map wfid).Nodup := by rwa [h.keeps]
    rw [deriveOp_eq hchanges]
    refine Collected.replay hd ?_
    simp only [append_nil]
    exact
      { findings := h.findings
        keeps := h.keeps
        spares := hspares hfields
        schemaOps := by simp [h.schemaOps, renamesOf]
        deltas := fun w hw => by
          have hnew := filter_build hnodup targets fields (h.keeps ▸ hw)
          rw [filter_append]
          have happend := rel_append (h.deltas w hw) hnew
          by_cases hmem : w ∈ targets
          · simpa [hmem, setsOf] using happend
          · simpa [hmem] using happend
        sets := fun delta hdelta => by
          rcases mem_append.mp hdelta with hdelta | hdelta
          · exact h.sets delta hdelta
          · obtain ⟨f, -, hf⟩ := mem_filterMap.mp hdelta
            exact ⟨fields, (attrDelta_eq_some hf).2.2, hfields⟩
        profiles := h.profiles }

theorem Collected.run (hd : ids.Nodup) (h : Collected targets ids done s)
    (hattr : ∀ op ∈ ops, op.isAttr)
    (hfindings : (ops.foldl (deriveOp S targets payloads) s).findings = []) :
    Collected targets ids (done ++ ops) (ops.foldl (deriveOp S targets payloads) s) := by
  induction ops generalizing done s with
  | nil => rwa [append_nil]
  | cons op ops ih =>
    obtain ⟨hop, hops⟩ := forall_mem_cons.mp hattr
    have hstep := h.step hd hop (findings_ops hfindings)
    have hrun := ih hstep hops hfindings
    rwa [append_assoc, singleton_append] at hrun

end

/-! ## The commit -/

theorem foldl_setAll {deltas : List FeatureDelta} {sets : List (Dict String Json)}
    (h : List.Forall₂ SetsTo deltas sets) (f : Feature) :
    deltas.foldl applyDelta f = sets.foldl setAll f := by
  induction h generalizing f with
  | nil => rfl
  | cons hsets _ ih => rw [foldl_cons, foldl_cons, applyDelta_sets hsets, ih]

theorem runOps_eq (targets : List String) (ops : List EditOp) (features : List Feature) :
    runOps targets ops features = features.map fun f => ops.foldl (runFeature targets) f := by
  unfold runOps
  induction ops generalizing features with
  | nil => simp
  | cons op ops ih =>
    rw [foldl_cons, ih, List.map_map]
    rfl

/-- No geometry is changed. -/
def still : Shapes where
  check _ _ := []
  edit _ _ _ := .kept

def measured : Collection where
  features :=
    [{ properties := some ⟨[("_wfid", .str "w1"), ("a", .int 1), ("c", .int 2)], by decide⟩
       geometry := none
       others := [("type", .str "Feature")] }]
  crs := none
  others := [("type", .str "FeatureCollection")]

/-- Values set before a rename, and to the field that the rename has made. -/
def aligned : List EditOp :=
  [.setFields ⟨[("c", .int 5)], by decide⟩, .renameField ⟨"a", "d"⟩,
    .setFields ⟨[("d", .int 7)], by decide⟩]

/-- A value set to a name that one rename has freed and another one has taken. -/
def crossed : List EditOp :=
  [.renameField ⟨"a", "b"⟩, .renameField ⟨"c", "a"⟩, .setFields ⟨[("a", .int 3)], by decide⟩]

theorem aligned_free : SetsNoFreed aligned := by
  unfold SetsNoFreed aligned
  rw [pairwise_cons, pairwise_cons, pairwise_cons]
  refine ⟨?_, ?_, ?_, .nil⟩
  · rintro b - r fields ⟨⟩
  · intro b hb r fields hr hfields
    cases mem_singleton.mp hb
    cases hr
    cases hfields
    decide
  · rintro b ⟨⟩

end WebGis.Edit
