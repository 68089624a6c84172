/-
  What deltas, renames and their inverses do to the fields and to the geometry of one feature.

  A list of deltas has an effect on each field, the value of the last change. Deltas and renames can
  be taken back where no field is changed twice, no geometry is changed twice, no freed name is used
  again, and a renamed field was there before it was changed.
-/
import WebGis.Edit.Ordered

namespace WebGis.Edit

open Data Json List Option FieldChange

/-! ## Deltas -/

/-- The change that a delta makes to a field. -/
def FeatureDelta.change (delta : FeatureDelta) (k : String) : Option FieldChange :=
  delta.fields.bind (·.find k)

/-- The value that a change leaves. -/
def FieldChange.value (change : FieldChange) : Option Json :=
  if change.afterAbsent then none else some change.after

/-- What some deltas leave of a field that they change. -/
def effect (deltas : List FeatureDelta) (k : String) : Option (Option Json) :=
  deltas.foldl (fun acc delta => ((delta.change k).map value).or acc) none

/-- The geometry that some deltas leave. -/
def lastGeometry (deltas : List FeatureDelta) : Option Json :=
  deltas.foldl (fun acc delta => delta.geometryAfter.or acc) none

variable {f g : Feature} {deltas : List FeatureDelta} {delta : FeatureDelta} {k : String}
  {op : RenameField} {rs : List RenameField}

theorem find_applyChange (props : Properties) (name : String) (change : FieldChange) :
    (applyChange props name change).find k = if k = name then change.value else props.find k := by
  unfold applyChange value
  cases change.afterAbsent with
  | true => rw [if_pos rfl, if_pos rfl, Dict.find_delete_key]
  | false =>
    rw [if_neg Bool.false_ne_true, if_neg Bool.false_ne_true, Dict.find_set]
    simp only [eq_comm]

theorem find_foldl_applyChange {ncs : List (String × FieldChange)} (hu : (ncs.map Prod.fst).Nodup)
    (props : Properties) :
    (ncs.foldl (fun props nc => applyChange props nc.1 nc.2) props).find k =
      (((ncs.find? fun nc => nc.1 = k).map Prod.snd).map value).getD (props.find k) := by
  induction ncs generalizing props with
  | nil => rfl
  | cons nc ncs ih =>
    rw [map_cons, nodup_cons] at hu
    rw [foldl_cons, ih hu.2, find_applyChange, find?_cons]
    by_cases hk : nc.1 = k
    · have hnone : ncs.find? (fun nc => nc.1 = k) = none := by
        rw [find?_eq_none]
        intro nc' hnc' heq
        exact hu.1 (List.mem_map.mpr ⟨nc', hnc', (of_decide_eq_true heq).trans hk.symm⟩)
      simp [hk, hnone]
    · simp [hk, Ne.symm hk]

theorem find_applyDelta :
    (applyDelta f delta).find k = ((delta.change k).map value).getD (f.find k) := by
  have hprops : (f.properties.getD Dict.empty).find k = f.find k := by
    unfold Feature.find
    cases f.properties <;> rfl
  unfold applyDelta FeatureDelta.change
  cases hfields : delta.fields with
  | none => exact hprops
  | some fields =>
    have hu : (fields.items.map Prod.fst).Nodup := fields.unique
    rw [Feature.find]
    rw [bind_some, find_foldl_applyChange hu, hprops]
    rfl

theorem effect_append (delta : FeatureDelta) :
    effect (deltas ++ [delta]) k = ((delta.change k).map value).or (effect deltas k) := by
  unfold effect
  rw [foldl_append]
  rfl

theorem lastGeometry_append (delta : FeatureDelta) :
    lastGeometry (deltas ++ [delta]) = delta.geometryAfter.or (lastGeometry deltas) := by
  unfold lastGeometry
  rw [foldl_append]
  rfl

theorem find_applyDeltas :
    (deltas.foldl applyDelta f).find k = (effect deltas k).getD (f.find k) := by
  induction deltas using List.reverseRecOn with
  | nil => rfl
  | append_singleton deltas delta ih =>
    rw [foldl_append, foldl_cons, foldl_nil, find_applyDelta, effect_append, ih]
    cases delta.change k <;> rfl

theorem applyDelta_rest (f : Feature) (delta : FeatureDelta) :
    (applyDelta f delta).properties.isSome ∧
    (applyDelta f delta).geometry = delta.geometryAfter.or f.geometry ∧
    (applyDelta f delta).others = f.others := by
  unfold applyDelta
  refine ⟨?_, ?_, rfl⟩
  · cases delta.fields <;> rfl
  · cases delta.geometryAfter <;> rfl

theorem applyDeltas_rest (f : Feature) (deltas : List FeatureDelta)
    (hf : deltas ≠ [] → f.properties.isSome) :
    (deltas.foldl applyDelta f).properties.isSome = f.properties.isSome ∧
    (deltas.foldl applyDelta f).geometry = (lastGeometry deltas).or f.geometry ∧
    (deltas.foldl applyDelta f).others = f.others := by
  induction deltas using List.reverseRecOn with
  | nil => exact ⟨rfl, rfl, rfl⟩
  | append_singleton deltas delta ih =>
    have hsome := hf (by simp)
    obtain ⟨-, hgeometry, hothers⟩ := ih fun _ => hsome
    obtain ⟨hp, hg, ho⟩ := applyDelta_rest (deltas.foldl applyDelta f) delta
    rw [foldl_append, foldl_cons, foldl_nil, lastGeometry_append, Option.or_assoc, ← hgeometry]
    exact ⟨hp.trans hsome.symm, hg, ho.trans hothers⟩

theorem renames_rest (f : Feature) (rs : List RenameField) :
    (rs.foldl renameFeature f).properties.isSome = f.properties.isSome ∧
    (rs.foldl renameFeature f).geometry = f.geometry ∧
    (rs.foldl renameFeature f).others = f.others := by
  induction rs generalizing f with
  | nil => exact ⟨rfl, rfl, rfl⟩
  | cons r rs ih =>
    obtain ⟨hp, hg, ho⟩ := ih (renameFeature f r)
    obtain ⟨hp', hg', ho'⟩ := renameFeature_rest f r
    exact ⟨hp.trans hp', hg.trans hg', ho.trans ho'⟩

theorem Feature.Same.applyDeltas (h : f.Same g) (deltas : List FeatureDelta)
    (hf : deltas ≠ [] → f.properties.isSome) :
    (deltas.foldl applyDelta f).Same (deltas.foldl applyDelta g) := by
  obtain ⟨hp, hg, ho⟩ := applyDeltas_rest _ _ hf
  obtain ⟨hp', hg', ho'⟩ := applyDeltas_rest _ _ fun hne => h.properties ▸ hf hne
  refine ⟨?_, fun k => ?_, ?_, ?_⟩
  · rw [hp, hp', h.properties]
  · rw [find_applyDeltas, find_applyDeltas, h.find]
  · rw [hg, hg', h.geometry]
  · rw [ho, ho', h.others]

/-! ## Renames -/

/-- The name under which the renames leave a field. -/
def landing (rs : List RenameField) (k : String) : String :=
  rs.foldl (fun k r => if k = r.src then r.dst else k) k

theorem landing_cons (r : RenameField) :
    landing (r :: rs) k = landing rs (if k = r.src then r.dst else k) := rfl

theorem landing_append (r : RenameField) :
    landing (rs ++ [r]) k = if landing rs k = r.src then r.dst else landing rs k := by
  unfold landing
  rw [foldl_append]
  rfl

theorem landing_of_not_mem (h : ∀ r ∈ rs, r.src ≠ k) : landing rs k = k := by
  induction rs with
  | nil => rfl
  | cons r rs ih =>
    obtain ⟨hr, hrs⟩ := forall_mem_cons.mp h
    rw [landing_cons, if_neg (Ne.symm hr), ih hrs]

theorem find_rename_ne_none (h : f.find k ≠ none) :
    (renameFeature f op).find (if k = op.src then op.dst else k) ≠ none := by
  by_cases hop : op.src = op.dst
  · rw [renameFeature, if_pos hop]
    by_cases hk : k = op.src
    · rwa [if_pos hk, ← hop, ← hk]
    · rwa [if_neg hk]
  · rw [find_renameFeature hop]
    by_cases hk : k = op.src
    · rw [if_pos hk, if_neg (Ne.symm hop), if_pos rfl, ← hk]
      intro hor
      exact h (or_eq_none_iff.mp hor).2
    · rw [if_neg hk, if_neg hk]
      split
      · rename_i hdst
        rw [← hdst]
        intro hor
        exact h (or_eq_none_iff.mp hor).1
      · exact h

theorem renames_absorb (hne : ∀ r ∈ rs, r.src ≠ r.dst) (hfree : ∀ r ∈ rs, g.find r.src = none)
    (h : ∀ k, f.find k = g.find k ∨ (g.find k = none ∧ g.find (landing rs k) ≠ none)) :
    ∀ k, (rs.foldl renameFeature f).find k = g.find k := by
  induction rs generalizing f with
  | nil =>
    intro k
    rcases h k with h | ⟨hnone, hland⟩
    · exact h
    · exact absurd hnone hland
  | cons r rs ih =>
    obtain ⟨hr, hrs⟩ := forall_mem_cons.mp hne
    obtain ⟨hsrc, hfree⟩ := forall_mem_cons.mp hfree
    refine ih hrs hfree fun k => ?_
    rw [find_renameFeature hr]
    by_cases hk : k = r.src
    · rw [if_pos hk, hk, hsrc]
      exact .inl rfl
    · rw [if_neg hk]
      have hkeep := h k
      rw [landing_cons, if_neg hk] at hkeep
      by_cases hdst : k = r.dst
      · have hold := h r.src
        rw [landing_cons, if_pos rfl, hsrc, ← hdst] at hold
        rw [if_pos hdst, ← hdst]
        cases hg : g.find k with
        | some v =>
          rw [hg] at hkeep
          rcases hkeep with hkeep | ⟨hnone, -⟩
          · rw [hkeep]
            exact .inl rfl
          · cases hnone
        | none =>
          rw [hg] at hkeep
          rcases hkeep with hkeep | ⟨-, hland⟩
          · rcases hold with hold | ⟨-, hland⟩
            · rw [hkeep, hold]
              exact .inl rfl
            · exact .inr ⟨rfl, hland⟩
          · exact .inr ⟨rfl, hland⟩
      · rw [if_neg hdst]
        exact hkeep

theorem applyDelta_rename (hsrc : delta.change op.src = none)
    (hset : ∀ change, delta.change op.dst = some change → change.value ≠ none) :
    (renameFeature (applyDelta f delta) op).Same (applyDelta (renameFeature f op) delta) := by
  obtain ⟨hp, hg, ho⟩ := renameFeature_rest (applyDelta f delta) op
  obtain ⟨-, hg', ho'⟩ := renameFeature_rest f op
  obtain ⟨hd, hdg, hdo⟩ := applyDelta_rest f delta
  obtain ⟨hd', hdg', hdo'⟩ := applyDelta_rest (renameFeature f op) delta
  refine ⟨?_, fun k => ?_, ?_, ?_⟩
  · rw [hp, hd, hd']
  · by_cases hop : op.src = op.dst
    · have hsame : ∀ f' : Feature, renameFeature f' op = f' := fun f' => if_pos hop
      rw [hsame, hsame]
    · rw [find_renameFeature hop, find_applyDelta, find_applyDelta, find_applyDelta,
        find_applyDelta, find_renameFeature hop, hsrc]
      by_cases hk : k = op.src
      · rw [if_pos hk, if_pos hk, hk, hsrc]
        rfl
      · rw [if_neg hk, if_neg hk]
        by_cases hk' : k = op.dst
        · rw [if_pos hk', if_pos hk', hk']
          cases hchange : delta.change op.dst with
          | none => rfl
          | some change =>
            cases hvalue : change.value with
            | none => exact absurd hvalue (hset change hchange)
            | some v => simp [hvalue]
        · rw [if_neg hk', if_neg hk']
  · rw [hg, hdg, hdg', hg']
  · rw [ho, hdo, hdo', ho']

theorem applyDelta_renames (hsrc : ∀ r ∈ rs, delta.change r.src = none)
    (hset : ∀ k change, delta.change k = some change → change.value ≠ none) :
    (rs.foldl renameFeature (applyDelta f delta)).Same
      (applyDelta (rs.foldl renameFeature f) delta) := by
  induction rs generalizing f with
  | nil => exact .refl _
  | cons r rs ih =>
    obtain ⟨hr, hrs⟩ := forall_mem_cons.mp hsrc
    exact ((applyDelta_rename hr (hset r.dst)).renames rs).trans (ih hrs)

/-! ## Inverses -/

theorem change_invert (delta : FeatureDelta) :
    delta.invert.change k = (delta.change k).map invert := by
  unfold FeatureDelta.change FeatureDelta.invert
  cases delta.fields with
  | none => rfl
  | some fields => exact Dict.find_mapValues _ _ _

theorem invertDeltas_append (delta : FeatureDelta) :
    invertDeltas (deltas ++ [delta]) = invertDeltas deltas ++ [delta.invert] :=
  map_append

theorem effect_invert_append (delta : FeatureDelta) :
    effect (invertDeltas (deltas ++ [delta])) k =
      ((delta.change k).map fun change => change.invert.value).or
        (effect (invertDeltas deltas) k) := by
  rw [invertDeltas_append, effect_append, change_invert, Option.map_map]
  rfl

theorem effect_invert_eq_none : effect (invertDeltas deltas) k = none ↔ effect deltas k = none := by
  induction deltas using List.reverseRecOn with
  | nil => exact Iff.rfl
  | append_singleton deltas delta ih =>
    rw [effect_invert_append, effect_append]
    cases delta.change k with
    | none => exact ih
    | some change => simp

theorem effect_ne_absent
    (h : ∀ delta ∈ deltas, ∀ change, delta.change k = some change → change.value ≠ none) :
    effect deltas k ≠ some none := by
  induction deltas using List.reverseRecOn with
  | nil => nofun
  | append_singleton deltas delta ih =>
    rw [effect_append]
    cases hchange : delta.change k with
    | none => exact ih fun d hd => h d (mem_append_left _ hd)
    | some change =>
      intro heq
      exact h delta (by simp) change hchange (some.inj heq)

theorem effect_invert_ne_absent
    (h : ∀ delta ∈ deltas, ∀ change, delta.change k = some change → change.beforeAbsent = false) :
    effect (invertDeltas deltas) k ≠ some none := by
  induction deltas using List.reverseRecOn with
  | nil => nofun
  | append_singleton deltas delta ih =>
    rw [effect_invert_append]
    cases hchange : delta.change k with
    | none => exact ih fun d hd => h d (mem_append_left _ hd)
    | some change =>
      have hthere := h delta (by simp) change hchange
      intro heq
      have hvalue : change.invert.value = none := some.inj heq
      unfold value invert at hvalue
      rw [hthere] at hvalue
      cases hvalue

theorem invertSchemaOps_append (r : RenameField) :
    invertSchemaOps (rs ++ [r]) = ⟨r.dst, r.src⟩ :: invertSchemaOps rs := by
  unfold invertSchemaOps
  rw [reverse_append]
  rfl

theorem lastGeometry_invert_append (delta : FeatureDelta) :
    lastGeometry (invertDeltas (deltas ++ [delta])) =
      delta.geometryBefore.or (lastGeometry (invertDeltas deltas)) := by
  rw [invertDeltas_append]
  exact lastGeometry_append _

theorem Feature.Same.applyDelta (h : f.Same g) (delta : FeatureDelta) :
    (applyDelta f delta).Same (applyDelta g delta) := by
  obtain ⟨hp, hg, ho⟩ := applyDelta_rest f delta
  obtain ⟨hp', hg', ho'⟩ := applyDelta_rest g delta
  refine ⟨?_, fun k => ?_, ?_, ?_⟩
  · rw [hp, hp']
  · rw [find_applyDelta, find_applyDelta, h.find]
  · rw [hg, hg', h.geometry]
  · rw [ho, ho', h.others]

/-! ## A feature through the operations of a plan -/

/-- All deltas and then all renames, on one feature. -/
def committed (f : Feature) (deltas : List FeatureDelta) (rs : List RenameField) : Feature :=
  rs.foldl renameFeature (deltas.foldl applyDelta f)

/-- What is known of a feature `p`, and of its copy `w` in the work on the plan, after the deltas and
renames that the plan has come to so far. -/
structure Tracked (p : Feature) (deltas : List FeatureDelta) (rs : List RenameField)
    (w : Feature) : Prop where
  named : deltas ≠ [] → p.properties.isSome
  sets : ∀ delta ∈ deltas, ∀ k change, delta.change k = some change → change.value ≠ none
  moves : ∀ r ∈ rs, r.src ≠ r.dst
  working : w.Same (committed p deltas rs)
  unfreed : ∀ r ∈ rs, (committed p deltas rs).find r.src = none
  lands : ∀ k, effect deltas k ≠ none → (committed p deltas rs).find (landing rs k) ≠ none
  holds : ∀ k, effect deltas k ≠ none → (∀ r ∈ rs, r.src ≠ k) →
    effect deltas k = some ((committed p deltas rs).find k)
  undoes : (committed (committed p deltas rs) (invertDeltas deltas) (invertSchemaOps rs)).Same p

variable {p w : Feature}

theorem tracked_nil (p : Feature) : Tracked p [] [] p where
  named h := absurd rfl h
  sets := nofun
  moves := nofun
  working := .refl p
  unfreed := nofun
  lands _ h := absurd rfl h
  holds _ h := absurd rfl h
  undoes := .refl p

theorem committed_rest (f : Feature) (deltas : List FeatureDelta) (rs : List RenameField)
    (hf : deltas ≠ [] → f.properties.isSome) :
    (committed f deltas rs).properties.isSome = f.properties.isSome ∧
    (committed f deltas rs).geometry = (lastGeometry deltas).or f.geometry ∧
    (committed f deltas rs).others = f.others := by
  obtain ⟨hp, hg, ho⟩ := renames_rest (deltas.foldl applyDelta f) rs
  obtain ⟨hp', hg', ho'⟩ := applyDeltas_rest _ _ hf
  exact ⟨hp.trans hp', hg.trans hg', ho.trans ho'⟩

theorem Feature.Same.committed (h : f.Same g) (rs : List RenameField)
    (hf : deltas ≠ [] → f.properties.isSome) :
    (committed f deltas rs).Same (committed g deltas rs) :=
  (h.applyDeltas deltas hf).renames rs

theorem committed_rename (f : Feature) (r : RenameField) :
    committed f deltas (rs ++ [r]) = renameFeature (committed f deltas rs) r := by
  unfold committed
  rw [foldl_append]
  rfl

section

variable (h : Tracked p deltas rs w)
include h

theorem Tracked.again :
    (committed (committed p deltas rs) deltas rs).Same (committed p deltas rs) := by
  obtain ⟨hp, hg, ho⟩ := committed_rest p deltas rs h.named
  obtain ⟨hp', hg', ho'⟩ := committed_rest (committed p deltas rs) deltas rs
    fun hne => hp.trans (h.named hne)
  refine ⟨hp', ?_, ?_, ho'⟩
  · refine renames_absorb h.moves h.unfreed fun k => ?_
    rw [find_applyDeltas]
    cases heffect : effect deltas k with
    | none => exact .inl rfl
    | some e =>
      have hne : effect deltas k ≠ none := by
        rw [heffect]
        nofun
      by_cases hk : ∃ r ∈ rs, r.src = k
      · obtain ⟨r, hr, hk⟩ := hk
        exact .inr ⟨hk ▸ h.unfreed r hr, h.lands k hne⟩
      · have hholds := h.holds k hne fun r hr heq => hk ⟨r, hr, heq⟩
        rw [heffect] at hholds
        exact .inl (some.inj hholds)
  · rw [hg', hg, ← Option.or_assoc, Option.or_self]

theorem Tracked.replayed :
    (committed w deltas rs).Same (committed p deltas rs) := by
  obtain ⟨hp, -, -⟩ := committed_rest p deltas rs h.named
  have hw : deltas ≠ [] → w.properties.isSome := fun hne => by
    rw [h.working.properties, hp]
    exact h.named hne
  exact (h.working.committed rs hw).trans h.again

theorem Tracked.rename (hne : op.src ≠ op.dst)
    (hnew : w.find op.dst = none) (hfresh : ∀ r ∈ rs, r.src ≠ op.dst)
    (hthere : ∀ delta ∈ deltas, ∀ change, delta.change op.src = some change →
      change.beforeAbsent = false) :
    Tracked p deltas (rs ++ [op]) (committed w deltas (rs ++ [op])) := by
  obtain ⟨hp, -, -⟩ := committed_rest p deltas rs h.named
  have hdst : (committed p deltas rs).find op.dst = none := h.working.find op.dst ▸ hnew
  have huntouched : effect deltas op.dst = none := by
    by_contra hne
    have hholds := h.holds op.dst hne hfresh
    rw [hdst] at hholds
    exact effect_ne_absent (fun d hd change => h.sets d hd op.dst change) hholds
  have huntouched' := effect_invert_eq_none.mpr huntouched
  have hback : (renameFeature ((invertDeltas deltas).foldl applyDelta
      (renameFeature (committed p deltas rs) op)) ⟨op.dst, op.src⟩).Same
      ((invertDeltas deltas).foldl applyDelta (committed p deltas rs)) := by
    obtain ⟨hr, hrg, hro⟩ := renameFeature_rest (committed p deltas rs) op
    have hnamed : invertDeltas deltas ≠ [] → (committed p deltas rs).properties.isSome := by
      intro hinv
      rw [hp]
      exact h.named fun hnil => hinv (by rw [hnil]; rfl)
    obtain ⟨hi, hig, hio⟩ := applyDeltas_rest _ _ hnamed
    obtain ⟨hj, hjg, hjo⟩ := applyDeltas_rest _ _ fun hinv => hr.trans (hnamed hinv)
    obtain ⟨hb, hbg, hbo⟩ := renameFeature_rest ((invertDeltas deltas).foldl applyDelta
      (renameFeature (committed p deltas rs) op)) ⟨op.dst, op.src⟩
    refine ⟨?_, fun k => ?_, ?_, ?_⟩
    · rw [hb, hj, hr, hi]
    · rw [find_renameFeature (Ne.symm hne), find_applyDeltas, find_applyDeltas, find_applyDeltas,
        find_applyDeltas, huntouched', find_renameFeature hne, find_renameFeature hne,
        find_renameFeature hne]
      by_cases hkd : k = op.dst
      · rw [if_pos hkd, hkd, huntouched', hdst]
        rfl
      · rw [if_neg hkd]
        by_cases hks : k = op.src
        · -- the renamed field comes back, under the value that it had before a change of it
          have hvalue := effect_invert_ne_absent hthere
          rw [if_pos hks, hks, if_pos rfl, if_neg (Ne.symm hne), if_pos rfl, hdst]
          cases heffect : effect (invertDeltas deltas) op.src with
          | none => rfl
          | some e =>
            cases e with
            | none => exact absurd heffect hvalue
            | some v => rfl
        · rw [if_neg hks, if_neg hks, if_neg hkd]
    · rw [hbg, hjg, hrg, hig]
    · rw [hbo, hjo, hro, hio]
  refine ⟨h.named, h.sets, ?_, ?_, ?_, ?_, ?_, ?_⟩
  · intro r hr
    rcases mem_append.mp hr with hr | hr
    · exact h.moves r hr
    · rwa [mem_singleton.mp hr]
  · rw [committed_rename, committed_rename]
    exact h.replayed.rename op
  · intro r hr
    rw [committed_rename, find_renameFeature hne]
    by_cases hsrc : r.src = op.src
    · rw [if_pos hsrc]
    rw [if_neg hsrc]
    rcases mem_append.mp hr with hr | hr
    · rw [if_neg (hfresh r hr)]
      exact h.unfreed r hr
    · exact absurd (congrArg RenameField.src (mem_singleton.mp hr)) hsrc
  · intro k hk
    rw [committed_rename, landing_append]
    exact find_rename_ne_none (h.lands k hk)
  · intro k hk hsrc
    have hold := h.holds k hk fun r hr => hsrc r (mem_append_left _ hr)
    have hksrc : k ≠ op.src := (hsrc op (by simp)).symm
    have hkdst : k ≠ op.dst := fun heq => hk (heq ▸ huntouched)
    rw [committed_rename, find_renameFeature hne, if_neg hksrc, if_neg hkdst]
    exact hold
  · rw [committed_rename, invertSchemaOps_append]
    exact (hback.renames (invertSchemaOps rs)).trans h.undoes

/-- One more delta, of fields that have not been changed and whose names have not been freed, or of a
geometry that has not been changed. -/
theorem Tracked.change (hp : p.properties.isSome)
    (hset : ∀ k change, delta.change k = some change → change.value ≠ none)
    (hfree : ∀ r ∈ rs, delta.change r.src = none)
    (honce : ∀ k change, delta.change k = some change → effect deltas k = none)
    (hbefore : ∀ k change, delta.change k = some change → change.invert.value = w.find k)
    (hgeometry : (delta.geometryBefore = none ∧ delta.geometryAfter = none) ∨
      (lastGeometry (invertDeltas deltas) = none ∧ delta.geometryBefore = w.geometry ∧
        delta.geometryBefore.isSome)) :
    Tracked p (deltas ++ [delta]) rs (committed w (deltas ++ [delta]) rs) := by
  obtain ⟨hq, -, -⟩ := committed_rest p deltas rs h.named
  have hpast : ∀ f : Feature, (committed f (deltas ++ [delta]) rs).Same
      (applyDelta (committed f deltas rs) delta) := by
    intro f
    unfold committed
    rw [foldl_append]
    exact applyDelta_renames hfree hset
  have hfind : ∀ k, (committed p (deltas ++ [delta]) rs).find k =
      ((delta.change k).map value).getD ((committed p deltas rs).find k) := by
    intro k
    rw [(hpast p).find, find_applyDelta]
  have hsome : (committed p (deltas ++ [delta]) rs).properties.isSome :=
    (hpast p).properties.trans (applyDelta_rest _ delta).1
  have hback : ((invertDeltas (deltas ++ [delta])).foldl applyDelta
      (committed p (deltas ++ [delta]) rs)).Same
      ((invertDeltas deltas).foldl applyDelta (committed p deltas rs)) := by
    obtain ⟨hi, hig, hio⟩ := applyDeltas_rest (committed p deltas rs)
      (invertDeltas deltas) fun _ => hq.trans hp
    obtain ⟨hj, hjg, hjo⟩ := applyDeltas_rest
      (committed p (deltas ++ [delta]) rs) (invertDeltas (deltas ++ [delta])) fun _ => hsome
    obtain ⟨-, hdg, hdo⟩ := applyDelta_rest (committed p deltas rs) delta
    refine ⟨?_, fun k => ?_, ?_, ?_⟩
    · rw [hj, hi, hsome, hq, hp]
    · rw [find_applyDeltas, find_applyDeltas, effect_invert_append, hfind]
      cases hchange : delta.change k with
      | none => rfl
      | some change =>
        have hnone := effect_invert_eq_none.mpr (honce k change hchange)
        have hvalue := (hbefore k change hchange).trans (h.working.find k)
        rw [hnone]
        exact hvalue
    · rw [hjg, hig, lastGeometry_invert_append, (hpast p).geometry, hdg]
      rcases hgeometry with ⟨hb, ha⟩ | ⟨hnone, hb, hsome'⟩
      · rw [hb, ha]
        rfl
      · rw [hnone, ← h.working.geometry, ← hb]
        obtain ⟨g, hg⟩ := isSome_iff_exists.mp hsome'
        rw [hg]
        rfl
    · rw [hjo, hio, (hpast p).others, hdo]
  refine ⟨fun _ => hp, ?_, h.moves, ?_, ?_, ?_, ?_, ?_⟩
  · intro d hd k change hchange
    rcases mem_append.mp hd with hd | hd
    · exact h.sets d hd k change hchange
    · rw [mem_singleton.mp hd] at hchange
      exact hset k change hchange
  · exact ((hpast w).trans (h.replayed.applyDelta delta)).trans (hpast p).symm
  · intro r hr
    rw [hfind, hfree r hr]
    exact h.unfreed r hr
  · intro k hk
    rw [hfind]
    rw [effect_append] at hk
    cases hchange : delta.change k with
    | some change =>
      have hland : landing rs k = k := by
        refine landing_of_not_mem fun r hr heq => ?_
        have hnone := hfree r hr
        rw [heq, hchange] at hnone
        cases hnone
      rw [hland, hchange]
      exact hset k change hchange
    | none =>
      rw [hchange] at hk
      have hold := h.lands k hk
      cases hland : delta.change (landing rs k) with
      | none => exact hold
      | some change => exact hset _ change hland
  · intro k hk hsrc
    rw [hfind, effect_append]
    rw [effect_append] at hk
    cases hchange : delta.change k with
    | some change => rfl
    | none =>
      rw [hchange] at hk
      exact h.holds k hk hsrc
  · exact (hback.renames (invertSchemaOps rs)).trans h.undoes

end

end WebGis.Edit
