/-
  An edit is undone and redone, in any alternation, as long as the entry that was undone is in the
  journal.

  The inverse of an entry applies the inverse deltas and then the inverse renames, and the payload
  has to have the fingerprint that the entry has recorded. So all rests on the features coming back
  the same, up to the order of their keys.
-/
import WebGis.Data.JsonTree
import WebGis.Edit.Journaled
import WebGis.Edit.Traced

namespace WebGis.Edit

open Data Json List Dict Feature

/-! ## Fingerprints -/

theorem sortKeys_field {v w : Json} (h : sortKeys v = sortKeys w) (k : String) (xs ys : Fields) :
    sortKeys (.obj (xs ++ (k, v) :: ys)) = sortKeys (.obj (xs ++ (k, w) :: ys)) := by
  have hfield : onValue sortKeys (k, v) = onValue sortKeys (k, w) := Prod.ext rfl h
  unfold sortKeys at hfield ⊢
  rw [mapTree_obj, mapTree_obj, map_append, map_append, map_cons, map_cons, hfield]

theorem sortKeys_properties {f g : Feature} (h : f.Same g) :
    sortKeys ((f.properties.map fun p => .obj p.items).getD .null) =
      sortKeys ((g.properties.map fun p => .obj p.items).getD .null) := by
  have hsome := h.properties
  have hfind := h.find
  unfold Feature.find at hfind
  cases hf : f.properties with
  | none =>
    cases hg : g.properties with
    | none => rfl
    | some q =>
      rw [hf, hg] at hsome
      cases hsome
  | some p =>
    cases hg : g.properties with
    | none =>
      rw [hf, hg] at hsome
      cases hsome
    | some q =>
      rw [hf, hg] at hfind
      exact mapTree_perm p.unique (items_perm hfind)

theorem sortKeys_feature {f g : Feature} (h : f.Same g) : sortKeys f.toJson = sortKeys g.toJson := by
  unfold toJson
  rw [h.others, h.geometry]
  exact sortKeys_field (sortKeys_properties h) _ _ _

theorem sortKeys_features {fs gs : List Feature} (h : SameFeatures fs gs) :
    sortKeys (.arr (fs.map toJson)) = sortKeys (.arr (gs.map toJson)) := by
  have hitems : (fs.map toJson).map sortKeys = (gs.map toJson).map sortKeys := by
    induction h with
    | nil => rfl
    | cons hfg _ ih => simp only [map_cons, sortKeys_feature hfg, ih]
  unfold sortKeys at hitems ⊢
  rw [mapTree_arr, mapTree_arr, hitems]

theorem withFeatures_same (p : Payload) {fs gs : List Feature} (h : SameFeatures fs gs) :
    (p.withFeatures fs).Same (p.withFeatures gs) := by
  have hcollection : ∀ c : Collection, sortKeys (Collection.toJson { c with features := fs }) =
      sortKeys (Collection.toJson { c with features := gs }) := fun c =>
    sortKeys_field (sortKeys_features h) _ _ _
  cases p with
  | bare c => exact hcollection c
  | enveloped envelope c => exact sortKeys_field (hcollection c) _ _ _
  | other v => rfl

theorem fingerprint_same (K : Kit) {p q : Payload} (h : p.Same q) :
    computePayloadFingerprint K p = computePayloadFingerprint K q := by
  unfold computePayloadFingerprint dumps
  rw [show sortKeys p.toJson = sortKeys q.toJson from h]

theorem withFeatures_twice (p : Payload) (fs gs : List Feature) :
    (p.withFeatures fs).withFeatures gs = p.withFeatures gs := by
  cases p <;> rfl

theorem extractFc_withFeatures {p : Payload} {c : Collection} (h : extractFc p = some c)
    (fs : List Feature) : extractFc (p.withFeatures fs) = some { c with features := fs } := by
  cases p with
  | bare c' =>
    cases h
    rfl
  | enveloped envelope c' =>
    cases h
    rfl
  | other v => cases h

/-! ## The journal that is written last -/

theorem not_mem_take {α κ : Type} {l : List α} (key : α → κ) (ts : α → Rat) {x : α} {n : Nat}
    (hu : (l.map key).Nodup) (hx : x ∈ l) (hmax : ∀ y ∈ l, key y ≠ key x → ts y < ts x)
    (hn : n < l.length) :
    key x ∉ ((l.mergeSort fun a b => ts a ≤ ts b).map key).take n := by
  intro hmem
  have hperm := mergeSort_perm l fun a b => decide (ts a ≤ ts b)
  have hsorted : (l.mergeSort fun a b => ts a ≤ ts b).Pairwise fun a b => ts a ≤ ts b := by
    refine (pairwise_mergeSort ?_ ?_ l).imp fun h => of_decide_eq_true h
    · intro a b c hab hbc
      exact decide_eq_true ((of_decide_eq_true hab).trans (of_decide_eq_true hbc))
    · intro a b
      rcases le_total (ts a) (ts b) with h | h
      · simp [h]
      · simp [h]
  have hnodup := (hperm.map key).nodup_iff.mpr hu
  rw [← map_take] at hmem
  obtain ⟨y, hy, hkey⟩ := mem_map.mp hmem
  generalize (l.mergeSort fun a b => decide (ts a ≤ ts b)) = sorted at hperm hsorted hnodup hy
  have hlen := hperm.length_eq
  rw [← take_append_drop n sorted] at hsorted hnodup
  rw [map_append] at hnodup
  obtain ⟨z, hz⟩ : ∃ z, z ∈ sorted.drop n := by
    refine exists_mem_of_ne_nil _ fun hnil => ?_
    have := drop_eq_nil_iff.mp hnil
    omega
  have hle := (pairwise_append.mp hsorted).2.2 y hy z hz
  have hzl := hperm.mem_iff.mp (mem_of_mem_drop hz)
  have hyl := hperm.mem_iff.mp (mem_of_mem_take hy)
  have hne : key z ≠ key x := by
    rw [← hkey]
    exact fun heq => disjoint_of_nodup_append hnodup (mem_map_of_mem hy)
      (heq ▸ mem_map_of_mem hz)
  have hyx : y = x := (inj_on_of_nodup_map hu) hyl hx hkey
  rw [hyx] at hle
  exact absurd (hmax z hzl hne) (not_lt.mpr hle)

theorem find_saveJournal_newest {journals : Dict String EditJournal} {name : String}
    {j : EditJournal} (hj : journals.find name = some j)
    (hlatest : ∀ kj ∈ journals.items, kj.1 ≠ name → lastTs kj.2 < lastTs j) :
    (saveJournal journals).find name = some j := by
  have hmem := find_eq_some.mp hj
  have hkept : name ∉ evicted journals := by
    have hpos : 0 < journals.items.length := length_pos_of_mem hmem
    refine not_mem_take Prod.fst (fun kj => lastTs kj.2) journals.unique hmem hlatest ?_
    have hlt : journals.items.length - maxJournalsPerSession < journals.items.length :=
      Nat.sub_lt hpos (by decide)
    exact hlt
  unfold saveJournal
  rw [Dict.find_delete, hj]
  simp [Option.filter, hkept]

/-! ## Calls that are answered -/

/-- The store answers the call, and it is later than what the other journals hold. -/
structure Works (ref : String) (s : Session) (r : Replies) : Prop where
  found : r.found = true
  journalsRead : r.journalsRead = true
  overwritten : r.overwritten = true
  recorded : r.recorded = true
  latest : ∀ kj ∈ s.journals.items, kj.1 ≠ ref → lastTs kj.2 < r.now

variable {K : Kit} {ref : String} {s : Session} {r : Replies} {p : Payload} {c : Collection}
  {j : EditJournal} {e : JournalEntry}

theorem journalOf_works (hr : Works ref s r) (hj : s.journals.find ref = some j) :
    journalOf ref r s = j := by
  unfold journalOf loadJournals
  rw [if_pos hr.journalsRead, hj]
  rfl

/-- What a write that is answered leaves behind. -/
theorem writeEntry_works (K : Kit) (hr : Works ref s r) (p : Payload) (hnow : e.createdAt = r.now) :
    ∃ n d revision,
      (writeEntry K ref r s p (loadJournals r s) e).1 =
        .written (filed (journalOf ref r s) e revision) ∧
      (writeEntry K ref r s p (loadJournals r s) e).2.payload = some p ∧
      (writeEntry K ref r s p (loadJournals r s) e).2.journals.find ref =
        some ⟨(journalOf ref r s).entries.drop n ++ [filed (journalOf ref r s) e revision],
          (journalOf ref r s).headSeq + 1, d⟩ := by
  obtain ⟨n, d, revision, -, heq⟩ := writeEntry_eq K ref s p e hr.overwritten
  refine ⟨n, d, revision, ?_, ?_, ?_⟩
  · rw [heq]
  · rw [heq]
  · rw [heq]
    rw [if_pos hr.recorded]
    have hloaded : loadJournals r s = s.journals := if_pos hr.journalsRead
    rw [hloaded]
    refine find_saveJournal_newest (find_set_self _ _ _) fun kj hkj hne => ?_
    have hold : kj ∈ s.journals.items := by
      have hfind := find_eq_some.mpr hkj
      rw [find_set_ne _ _ (Ne.symm hne)] at hfind
      exact find_eq_some.mp hfind
    have hlast := hr.latest kj hold hne
    rw [← hnow] at hlast
    unfold lastTs at hlast ⊢
    rw [headEntry_append]
    exact hlast

theorem entryForKey_eq_none {key : String} (h : ∀ e ∈ j.entries, e.idempotencyKey ≠ key) :
    entryForIdempotencyKey j key = none := by
  unfold entryForIdempotencyKey
  rw [find?_eq_none]
  intro e he heq
  exact h e (mem_reverse.mp he) (of_decide_eq_true heq)

theorem eq_of_seq (h : j.Wf) {d e : JournalEntry} (hd : d ∈ j.entries) (he : e ∈ j.entries)
    (hseq : d.seq = e.seq) : d = e := by
  have hu : (j.entries.map JournalEntry.seq).Nodup :=
    pairwise_map.mpr (h.rising.imp fun hlt => Nat.ne_of_lt hlt)
  exact inj_on_of_nodup_map hu hd he hseq

/-! ## Effects -/

/-- All deltas and then all renames, on all features. -/
def commitOf (deltas : List FeatureDelta) (rs : List RenameField) (features : List Feature) :
    List Feature :=
  (applySchemaOpsToFeatures (applyDeltasToFeatures features deltas).1 rs).1

theorem applyInverse_eq (K : Kit) (ref : String) (s : Session) (r : Replies)
    (effect : JournalEntry) (hc : extractFc p = some c)
    (h : effect.fingerprintAfter = computePayloadFingerprint K
      (p.withFeatures (commitOf effect.deltas effect.schemaOps c.features))) :
    applyInverse K ref s r p effect =
      writeEntry K ref r s (p.withFeatures (commitOf effect.deltas effect.schemaOps c.features))
        (loadJournals r s) { effect with
          fingerprintBefore := computePayloadFingerprint K p
          contentRevisionBefore := currentRevision r.described s
          contentRevisionAfter := currentRevision r.described s
          createdAt := r.now } := by
  unfold applyInverse
  rw [hc]
  dsimp only
  unfold commitOf at h ⊢
  rw [← h, if_neg]
  exact fun hne => hne.2 rfl

theorem applyUndo_eq (hp : s.payload = some p) (hc : extractFc p = some c)
    (hfound : r.found) (hhead : headEntry (journalOf ref r s) = some e)
    (hkind : e.kind ≠ .undo)
    (hkey : entryForIdempotencyKey (journalOf ref r s) ("undo:" ++ toString e.seq) = none)
    (hfp : computePayloadFingerprint K p = e.fingerprintAfter)
    (hback : e.fingerprintBefore = computePayloadFingerprint K (p.withFeatures
      (commitOf (invertDeltas e.deltas) (invertSchemaOps e.schemaOps) c.features)))
    (actor origin : String) :
    ∃ entry : JournalEntry, entry.createdAt = r.now ∧ entry.kind = .undo ∧
      entry.undoOfSeq = some e.seq ∧ entry.fingerprintAfter = e.fingerprintBefore ∧
      applyUndo K ref s actor origin r = writeEntry K ref r s
        (p.withFeatures (commitOf (invertDeltas e.deltas) (invertSchemaOps e.schemaOps) c.features))
        (loadJournals r s) entry := by
  unfold journalOf at hhead hkey
  unfold applyUndo
  rw [hp, hfound]
  dsimp only
  rw [hhead]
  dsimp only
  rw [if_neg hkind, hkey]
  rw [if_neg (not_not.mpr hfp)]
  exact ⟨_, rfl, rfl, rfl, rfl, applyInverse_eq K ref s r _ hc hback⟩

theorem applyRedo_gone {u : JournalEntry} (hp : s.payload = some p) (hfound : r.found)
    (hhead : headEntry (journalOf ref r s) = some u) (hkind : u.kind = .undo)
    (hgone : ∀ e ∈ (journalOf ref r s).entries, some e.seq ≠ u.undoOfSeq) (actor origin : String) :
    applyRedo K ref s actor origin r =
      (.raised (.blocked "undo_unavailable"
        "undone entry no longer in journal (FIFO dropped)"), s) := by
  have hnone : (journalOf ref r s).entries.find? (fun e => some e.seq = u.undoOfSeq) = none :=
    find?_eq_none.mpr fun e he hseq => hgone e he (of_decide_eq_true hseq)
  unfold journalOf at hhead hnone
  unfold applyRedo
  rw [hp, hfound]
  dsimp only
  rw [hhead]
  dsimp only
  rw [if_neg (not_not.mpr hkind), hnone]

/-! ## An edit and its entries -/

/-- An edit of the features of a payload that its inverse takes back. -/
structure Alteration where
  payload : Payload
  collection : Collection
  editable : extractFc payload = some collection
  features : List Feature
  distinct : (features.map wfid).Nodup
  deltas : List FeatureDelta
  schemaOps : List RenameField
  back : ∀ gs, SameFeatures gs (commitOf deltas schemaOps features) →
    SameFeatures (commitOf (invertDeltas deltas) (invertSchemaOps schemaOps) gs) features

namespace Alteration

variable (A : Alteration)

def before : Payload := A.payload.withFeatures A.features

def after : Payload := A.payload.withFeatures (commitOf A.deltas A.schemaOps A.features)

/-- The entry records the edit. -/
structure EntryOf (K : Kit) (e : JournalEntry) : Prop where
  kind : e.kind ≠ .undo
  deltas : e.deltas = A.deltas
  schemaOps : e.schemaOps = A.schemaOps
  before : e.fingerprintBefore = computePayloadFingerprint K A.before
  after : e.fingerprintAfter = computePayloadFingerprint K A.after

/-- The edit is done. -/
structure Applied (K : Kit) (ref : String) (s : Session) : Prop where
  sound : s.Sound ref
  payload : ∃ gs, s.payload = some (A.payload.withFeatures gs) ∧
    SameFeatures gs (commitOf A.deltas A.schemaOps A.features)
  journal : ∃ j e, s.journals.find ref = some j ∧ headEntry j = some e ∧ A.EntryOf K e

/-- The edit is undone; an entry of it that is still there can be done again. -/
structure Reverted (K : Kit) (ref : String) (s : Session) : Prop where
  sound : s.Sound ref
  payload : ∃ gs, s.payload = some (A.payload.withFeatures gs) ∧ SameFeatures gs A.features
  journal : ∃ j u n, s.journals.find ref = some j ∧ headEntry j = some u ∧ u.kind = .undo ∧
    u.undoOfSeq = some n ∧ u.fingerprintAfter = computePayloadFingerprint K A.before ∧
    ∀ e ∈ j.entries, e.seq = n → A.EntryOf K e

variable {A}

theorem fingerprint_of_same {fs gs : List Feature} (h : SameFeatures fs gs) :
    computePayloadFingerprint K (A.payload.withFeatures fs) =
      computePayloadFingerprint K (A.payload.withFeatures gs) :=
  fingerprint_same K (withFeatures_same A.payload h)

theorem undo_applied (h : A.Applied K ref s) (hr : Works ref s r) (actor origin : String) :
    (applyUndo K ref s actor origin r).1.isWritten ∧
    A.Reverted K ref (applyUndo K ref s actor origin r).2 := by
  obtain ⟨gs, hpayload, hgs⟩ := h.payload
  obtain ⟨j, e, hj, hhead, he⟩ := h.journal
  have hwf := h.sound j hj
  have hloaded : journalOf ref r s = j := journalOf_works hr hj
  have hsound : (applyUndo K ref s actor origin r).2.Sound ref :=
    (applyUndo_files h.sound actor origin).sound h.sound
  have hkey : entryForIdempotencyKey j ("undo:" ++ toString e.seq) = none := by
    refine entryForKey_eq_none fun d hd hkey => ?_
    have hlt := hwf.undoKeys d hd e.seq hkey
    have hle := seq_le_headSeq hwf hd
    rw [← hwf.newest e hhead] at hle
    omega
  have hfp : computePayloadFingerprint K (A.payload.withFeatures gs) = e.fingerprintAfter := by
    rw [he.after]
    exact fingerprint_of_same hgs
  have hback := A.back gs hgs
  have heffect : e.fingerprintBefore = computePayloadFingerprint K
      ((A.payload.withFeatures gs).withFeatures
        (commitOf (invertDeltas e.deltas) (invertSchemaOps e.schemaOps) gs)) := by
    rw [withFeatures_twice, he.before, he.deltas, he.schemaOps]
    exact fingerprint_of_same (SameFeatures.symm hback)
  rw [← hloaded] at hkey hhead
  obtain ⟨entry, hnow, hkind, hundone, hafter, hcall⟩ := applyUndo_eq hpayload
    (extractFc_withFeatures A.editable gs) hr.found hhead he.kind hkey hfp heffect actor origin
  rw [withFeatures_twice] at hcall
  rw [hloaded] at hhead
  rw [hcall] at hsound ⊢
  obtain ⟨n, d, revision, hout, hnew, hfind⟩ := writeEntry_works K hr
    (A.payload.withFeatures (commitOf (invertDeltas e.deltas) (invertSchemaOps e.schemaOps) gs)) hnow
  rw [journalOf_works hr hj] at hout hfind
  refine ⟨by rw [hout]; rfl, hsound, ⟨_, hnew, ?_⟩, _, _, e.seq, hfind, headEntry_append .., hkind,
    hundone, hafter.trans he.before, ?_⟩
  · rw [he.deltas, he.schemaOps]
    exact hback
  · intro e' he' hseq
    have hnewest := hwf.newest e hhead
    rcases mem_append.mp he' with he' | he'
    · rw [eq_of_seq hwf (mem_of_mem_drop he') (mem_of_headEntry hhead) hseq]
      exact he
    · rw [mem_singleton.mp he'] at hseq
      have hlast : j.headSeq + 1 = e.seq := hseq
      omega

/-- The entry that has been undone last is still in the journal. -/
def Redoable (ref : String) (s : Session) : Prop :=
  ∃ j u, s.journals.find ref = some j ∧ headEntry j = some u ∧
    ∃ e ∈ j.entries, some e.seq = u.undoOfSeq

theorem redo_reverted (h : A.Reverted K ref s) (hr : Works ref s r) (hthere : Redoable ref s)
    (actor origin : String) :
    (applyRedo K ref s actor origin r).1.isWritten ∧
    A.Applied K ref (applyRedo K ref s actor origin r).2 := by
  obtain ⟨gs, hpayload, hgs⟩ := h.payload
  obtain ⟨j, u, n, hj, hhead, hkind, hundone, hfpu, hentries⟩ := h.journal
  have hwf := h.sound j hj
  have hloaded : ((loadJournals r s).find ref).getD newJournal = j := journalOf_works hr hj
  have hsound : (applyRedo K ref s actor origin r).2.Sound ref :=
    (applyRedo_files h.sound actor origin).sound h.sound
  obtain ⟨target, htarget⟩ : ∃ target,
      j.entries.find? (fun e => some e.seq = u.undoOfSeq) = some target := by
    obtain ⟨j', u', hj', hhead', e, he, hseq⟩ := hthere
    rw [hj] at hj'
    cases hj'
    rw [hhead] at hhead'
    cases hhead'
    cases hfound : j.entries.find? fun e => some e.seq = u.undoOfSeq with
    | some target => exact ⟨target, rfl⟩
    | none => exact absurd (decide_eq_true hseq) (find?_eq_none.mp hfound e he)
  have hseq : target.seq = n := by
    have hfound := find?_some htarget
    have hsome := of_decide_eq_true hfound
    rw [hundone] at hsome
    exact Option.some.inj hsome
  have he := hentries target (mem_of_find?_eq_some htarget) hseq
  have hkey : entryForIdempotencyKey j ("redo:" ++ toString target.seq) = none := by
    refine entryForKey_eq_none fun d hd hkey => ?_
    have hlt := hwf.redoKeys d hd target.seq hkey
    have hle := seq_le_headSeq hwf hd
    have hnext := hwf.undone u (mem_of_headEntry hhead) n hkind hundone
    rw [← hwf.newest u hhead] at hle
    omega
  have hfp : computePayloadFingerprint K (A.payload.withFeatures gs) = u.fingerprintAfter := by
    rw [hfpu]
    exact fingerprint_of_same hgs
  have hforth : SameFeatures (commitOf target.deltas target.schemaOps gs)
      (commitOf A.deltas A.schemaOps A.features) := by
    rw [he.deltas, he.schemaOps]
    refine (committed_same hgs A.distinct _ _).trans ?_
    exact SameFeatures.symm
      (committed_same (forall₂_same.mpr fun f _ => .refl f) A.distinct _ _)
  have heffect : target.fingerprintAfter = computePayloadFingerprint K
      ((A.payload.withFeatures gs).withFeatures (commitOf target.deltas target.schemaOps gs)) := by
    rw [withFeatures_twice, he.after]
    exact fingerprint_of_same (SameFeatures.symm hforth)
  have hcall : ∃ entry : JournalEntry, entry.createdAt = r.now ∧ entry.kind = .redo ∧
      entry.deltas = target.deltas ∧ entry.schemaOps = target.schemaOps ∧
      entry.fingerprintBefore = computePayloadFingerprint K (A.payload.withFeatures gs) ∧
      entry.fingerprintAfter = target.fingerprintAfter ∧
      applyRedo K ref s actor origin r = writeEntry K ref r s
        (A.payload.withFeatures (commitOf target.deltas target.schemaOps gs))
        (loadJournals r s) entry := by
    unfold applyRedo
    rw [hpayload, hr.found]
    dsimp only
    rw [hloaded, hhead]
    dsimp only
    rw [if_neg (not_not.mpr hkind), htarget]
    dsimp only
    rw [hkey]
    rw [if_neg (not_not.mpr hfp)]
    have hcall := applyInverse_eq K ref s r
      (redoEntry target ("redo:" ++ toString target.seq) actor origin ref)
      (extractFc_withFeatures A.editable gs) heffect
    rw [withFeatures_twice] at hcall
    refine ⟨_, ?_, ?_, ?_, ?_, ?_, ?_, hcall⟩ <;> rfl
  obtain ⟨entry, hnow, hredo, hdeltas, hschema, hbefore, hafter, hcall⟩ := hcall
  rw [hcall] at hsound ⊢
  obtain ⟨m, d, revision, hout, hnew, hfind⟩ := writeEntry_works K hr
    (A.payload.withFeatures (commitOf target.deltas target.schemaOps gs)) hnow
  rw [journalOf_works hr hj] at hout hfind
  refine ⟨by rw [hout]; rfl, hsound, ⟨_, hnew, hforth⟩, _, _, hfind, headEntry_append .., ?_⟩
  refine ⟨?_, hdeltas.trans he.deltas, hschema.trans he.schemaOps, ?_, hafter.trans he.after⟩
  · rw [show (filed j entry revision).kind = entry.kind from rfl, hredo]
    nofun
  · exact hbefore.trans (fingerprint_of_same hgs)

theorem redo_dropped (h : A.Reverted K ref s) (hr : Works ref s r) (hgone : ¬ Redoable ref s)
    (actor origin : String) :
    applyRedo K ref s actor origin r =
      (.raised (.blocked "undo_unavailable"
        "undone entry no longer in journal (FIFO dropped)"), s) := by
  obtain ⟨gs, hpayload, -⟩ := h.payload
  obtain ⟨j, u, n, hj, hhead, hkind, -, -, -⟩ := h.journal
  have hloaded : journalOf ref r s = j := journalOf_works hr hj
  refine applyRedo_gone hpayload hr.found (u := u) ?_ hkind ?_ actor origin
  · rw [hloaded]
    exact hhead
  · rw [hloaded]
    exact fun e he hseq => hgone ⟨j, u, hj, hhead, e, he, hseq⟩

end Alteration

/-! ## After a commit -/

/-- Undos and redos in turn, all of them answered; the edit is undone where the flag says so. -/
inductive Alternated (K : Kit) (ref : String) (start : Session) : Bool → Session → Prop
  | committed : Alternated K ref start false start
  | undone {s : Session} (h : Alternated K ref start false s) (actor origin : String) (r : Replies)
      (hr : Works ref s r) : Alternated K ref start true (applyUndo K ref s actor origin r).2
  | redone {s : Session} (h : Alternated K ref start true s) (actor origin : String) (r : Replies)
      (hr : Works ref s r) (hthere : Alteration.Redoable ref s) :
      Alternated K ref start false (applyRedo K ref s actor origin r).2

theorem alternated_states {A : Alteration} {start : Session} (hstart : A.Applied K ref start)
    {b : Bool} {t : Session} (h : Alternated K ref start b t) :
    (b = false → A.Applied K ref t) ∧ (b → A.Reverted K ref t) := by
  induction h with
  | committed => exact ⟨fun _ => hstart, nofun⟩
  | undone h actor origin r hr ih =>
    exact ⟨nofun, fun _ => (Alteration.undo_applied (ih.1 rfl) hr actor origin).2⟩
  | redone h actor origin r hr hthere ih =>
    exact ⟨fun _ => (Alteration.redo_reverted (ih.2 rfl) hr hthere actor origin).2, nofun⟩

theorem commitPlan_written {plan : Plan} {actor origin : String} {key : Option String}
    {entry : JournalEntry} {t : Session} (hp : s.payload = some p) (hc : extractFc p = some c)
    (h : commitPlan K ref s plan actor origin key r = (.written entry, t)) :
    ∃ e : JournalEntry,
      (deriveChanges K.shapes { c with features := planFeatures K plan p c } plan.ops
        plan.targetWfids r.targets).findings = [] ∧
      e.kind = .apply ∧ e.createdAt = r.now ∧
      e.deltas = (deriveChanges K.shapes { c with features := planFeatures K plan p c } plan.ops
        plan.targetWfids r.targets).deltas ∧
      e.schemaOps = (deriveChanges K.shapes { c with features := planFeatures K plan p c } plan.ops
        plan.targetWfids r.targets).schemaOps ∧
      e.fingerprintBefore =
        computePayloadFingerprint K (p.withFeatures (planFeatures K plan p c)) ∧
      e.fingerprintAfter = computePayloadFingerprint K
        (p.withFeatures (commitOf e.deltas e.schemaOps (planFeatures K plan p c))) ∧
      writeEntry K ref r s (p.withFeatures (commitOf e.deltas e.schemaOps
        (planFeatures K plan p c))) (loadJournals r s) e = (.written entry, t) := by
  unfold commitPlan at h
  rw [hp] at h
  cases hfound : r.found with
  | false =>
    rw [hfound] at h
    cases h
  | true =>
    rw [hfound] at h
    dsimp only at h
    split at h
    · cases h
    split at h
    · cases h
    rw [hc] at h
    dsimp only at h
    unfold commitFresh at h
    split at h
    · cases h
    dsimp only at h
    split at h
    · cases h
    rename_i hfindings
    split at h
    · cases h
    · exact ⟨_, not_not.mp hfindings, rfl, rfl, rfl, rfl, rfl, rfl, h⟩

theorem length_planFeatures (K : Kit) (plan : Plan) (p : Payload) (c : Collection) :
    (planFeatures K plan p c).length = c.features.length := by
  unfold planFeatures
  split
  · unfold materializeWfids
    rw [length_map, length_zipIdx]
  · rfl

theorem buildPlan_features {token refId : String} {ops : List EditOp} {opSummaries : Json}
    {requested : List String} {selection : Option SelectionView} {revision : Nat}
    {targets : Targets} {built : Option Plan × List EditFinding} {plan : Plan}
    (h : buildPlan K token refId p ops opSummaries requested selection revision targets = built)
    (hplan : built.1 = some plan) (hc : extractFc p = some c) :
    c.features.length ≤ maxEditableFeatures := by
  unfold buildPlan at h
  rw [hc] at h
  dsimp only at h
  split at h
  · rw [← h] at hplan
    cases hplan
  · omega

def noted : Collection where
  features :=
    [{ properties := some ⟨[("_wfid", .str "w1"), ("note", .null), ("zone", .int 1)], by decide⟩
       geometry := none
       others := [("type", .str "Feature")] }]
  crs := none
  others := [("type", .str "FeatureCollection")]

/-- A note on every feature; another field gets a new name. -/
def writing (s : String) : List EditOp :=
  [.setFields ⟨[("note", .str s)], nodup_singleton _⟩, .renameField ⟨"zone", "area"⟩]

def writingPlan (s : String) : Plan where
  token := "1"
  refId := "ref:a"
  ops := writing s
  opSummaries := .arr []
  targetWfids := ["w1"]
  needsMaterialization := false
  expectedContentRevision := 1
  expectedFingerprint := computePayloadFingerprint plainKit (.bare noted)

def noteDelta (s : String) : FeatureDelta where
  wfid := "w1"
  fields := some ⟨[("note", ⟨.null, .str s, false, false⟩)], nodup_singleton _⟩
  geometryBefore := none
  geometryAfter := none

/-- The collection between the two operations. -/
def halfWritten (s : String) : Collection where
  features :=
    [{ properties := some ⟨[("_wfid", .str "w1"), ("note", .str s), ("zone", .int 1)], by simp⟩
       geometry := none
       others := [("type", .str "Feature")] }]
  crs := none
  others := [("type", .str "FeatureCollection")]

def written (s : String) : Collection where
  features :=
    [{ properties := some ⟨[("area", .int 1), ("_wfid", .str "w1"), ("note", .str s)], by simp⟩
       geometry := none
       others := [("type", .str "Feature")] }]
  crs := none
  others := [("type", .str "FeatureCollection")]

/-- The collection after the undo; the renamed field comes first. -/
def restored : Collection where
  features :=
    [{ properties := some ⟨[("zone", .int 1), ("_wfid", .str "w1"), ("note", .null)], by decide⟩
       geometry := none
       others := [("type", .str "Feature")] }]
  crs := none
  others := [("type", .str "FeatureCollection")]

def noteSession : Session := ⟨some (.bare noted), 1, .empty⟩

def noteEntry (s : String) : JournalEntry where
  kind := .apply
  seq := 1
  undoOfSeq := none
  idempotencyKey := "plan:fep-1"
  actor := "user"
  origin := "user"
  refId := "ref:a"
  deltas := [noteDelta s]
  schemaOps := [⟨"zone", "area"⟩]
  opSummary := [("ops", .arr []), ("materialized", .bool false), ("plan_id", .str "fep-1")]
  fingerprintBefore := computePayloadFingerprint plainKit (.bare noted)
  fingerprintAfter := computePayloadFingerprint plainKit (.bare (written s))
  contentRevisionBefore := 1
  contentRevisionAfter := 2
  createdAt := 0

def noteWritten (s : String) : Session where
  payload := some (.bare (written s))
  revision := 2
  journals := ⟨[("ref:a", ⟨[noteEntry s], 1, 0⟩)], nodup_singleton _⟩

/-- The changes of the plan; only the texts of the note are not evaluated. -/
theorem deriveChanges_writing (s : String) : ∃ working profiles,
    deriveChanges still noted (writing s) ["w1"] .empty =
      ⟨[noteDelta s], [⟨"zone", "area"⟩], [], working, profiles⟩ := by
  have hset : deriveOp still ["w1"] .empty ⟨[], [], [], noted, profileFields noted.features⟩
      (.setFields ⟨[("note", .str s)], nodup_singleton _⟩) =
        ⟨[noteDelta s], [], [], halfWritten s, profileFields noted.features⟩ := by
    cbv
  have hrename : opChanges still ["w1"] .empty
      ⟨[noteDelta s], [], [], halfWritten s, profileFields noted.features⟩
        (.renameField ⟨"zone", "area"⟩) = ([], [⟨"zone", "area"⟩], []) := by
    rfl
  have hids : ["w1"].dedup = ["w1"] := by rfl
  unfold deriveChanges writing
  rw [hids, foldl_cons, foldl_cons, foldl_nil, hset]
  unfold deriveOp
  rw [hrename]
  exact ⟨_, _, rfl⟩

theorem buildPlan_writing (s : String) :
    buildPlan plainKit "1" "ref:a" (.bare noted) (writing s) (.arr []) ["w1"] none 1 .empty =
      (some (writingPlan s), []) := by
  obtain ⟨working, profiles, hchanges⟩ := deriveChanges_writing s
  have hfeatures : ({ noted with features := previewFeatures plainKit (.bare noted) noted } :
      Collection) = noted := by
    rfl
  have hfound : ((resolveFeatureIds (previewFeatures plainKit (.bare noted) noted)
      ["w1"]).map Prod.snd).dedup.insertionSort (· ≤ ·) = ["w1"] := by
    rfl
  have hsize : ¬ noted.features.length > maxEditableFeatures := by decide
  have hids : targetIds ["w1"] none = some ["w1"] := by rfl
  unfold buildPlan extractFc
  dsimp only
  rw [if_neg hsize, hids]
  dsimp only
  rw [hfound, hfeatures, show plainKit.shapes = still from rfl, hchanges]
  rfl

theorem writeEntry_first (p : Payload) (e : JournalEntry) :
    writeEntry plainKit "ref:a" answered noteSession p (loadJournals answered noteSession) e =
      (.written { e with seq := 1, contentRevisionAfter := 2 },
        { payload := some p
          revision := 2
          journals := ⟨[("ref:a", ⟨[{ e with seq := 1, contentRevisionAfter := 2 }], 1, 0⟩)],
            nodup_singleton _⟩ }) := by
  have hnone : ((loadJournals answered noteSession).find "ref:a").getD newJournal = newJournal := by
    rfl
  have happend : appendEntry plainKit.floats newJournal e = ⟨[{ e with seq := 1 }], 1, 0⟩ := by
    simp [appendEntry, newJournal, dropOldest, overBudget, maxUndoHistory]
  unfold writeEntry
  rw [hnone, happend]
  rfl

theorem commitPlan_writing (s : String) :
    commitPlan plainKit "ref:a" noteSession (writingPlan s) "user" "user" none answered =
      (.written (noteEntry s), noteWritten s) := by
  obtain ⟨working, profiles, hchanges⟩ := deriveChanges_writing s
  have hkey : commitKey (writingPlan s) none = "plan:fep-1" := by rfl
  have hnone : entryForIdempotencyKey (((loadJournals answered noteSession).find
      "ref:a").getD newJournal) "plan:fep-1" = none := by
    rfl
  have hfeatures : planFeatures plainKit (writingPlan s) (.bare noted) noted = noted.features := by
    rfl
  have htargets : prefetchTargetRefs (writingPlan s).ops = [] := by rfl
  have hpayload : (Payload.bare noted).withFeatures (commitFeatures
      ⟨[noteDelta s], [⟨"zone", "area"⟩], [], working, profiles⟩ noted.features) =
        .bare (written s) := by
    rfl
  unfold commitPlan
  rw [show noteSession.payload = some (.bare noted) from rfl, show answered.found = true from rfl]
  dsimp only
  rw [hkey, hnone]
  rw [if_neg]
  · unfold extractFc
    dsimp only
    unfold commitFresh
    rw [htargets, if_neg (not_not.mpr nofun)]
    dsimp only
    rw [hfeatures, show ({ noted with features := noted.features } : Collection) = noted from rfl,
      show plainKit.shapes = still from rfl, show (writingPlan s).ops = writing s from rfl,
      show (writingPlan s).targetWfids = ["w1"] from rfl,
      show answered.targets = .empty from rfl, hchanges]
    rw [if_neg (by simp), if_neg (by simp), hpayload, writeEntry_first]
    rfl
  · unfold isStale
    rw [show (writingPlan s).expectedFingerprint =
      computePayloadFingerprint plainKit (.bare noted) from rfl]
    generalize computePayloadFingerprint plainKit (.bare noted) = before
    simp [writingPlan, currentRevision, noteSession, answered]

theorem note_works : Works "ref:a" noteSession answered where
  found := rfl
  journalsRead := rfl
  overwritten := rfl
  recorded := rfl
  latest := fun _ h => absurd h not_mem_nil

theorem noteWritten_works (s : String) : Works "ref:a" (noteWritten s) answered where
  found := rfl
  journalsRead := rfl
  overwritten := rfl
  recorded := rfl
  latest := fun kj h hne => by
    have hkj : kj = ("ref:a", ⟨[noteEntry s], 1, 0⟩) := mem_singleton.mp h
    exact absurd (congrArg Prod.fst hkj) hne

theorem reversible_writing (s : String) :
    Reversible (writing s) [noteDelta s] [⟨"zone", "area"⟩] where
  freed := by
    refine pairwise_pair.mpr fun r h => ?_
    cases h
  once := pairwise_singleton _ _
  there := by
    intro r hr delta hdelta change hchange
    rw [mem_singleton.mp hr, mem_singleton.mp hdelta] at hchange
    have hnone : (noteDelta s).change "zone" = none := by rfl
    rw [hnone] at hchange
    cases hchange

theorem overBudget_note {s : String} (hs : journalByteBudget < s.length) (e : JournalEntry) :
    overBudget plainKit.floats ⟨[noteEntry s, e], 2, 0⟩ := by
  refine .inr ⟨Nat.lt_succ_self 1, hs.trans_le (length_le_dumps plainKit.floats ?_)⟩
  have hdelta : .str s ∈ leaves (FeatureDelta.toJson .apply (noteDelta s)) := by
    simp [FeatureDelta.toJson, noteDelta, FieldChange.toJson, leaves, fieldLeaves, Dict.items]
  have hentry : .str s ∈ leaves (noteEntry s).toJson := by
    refine mem_leaves_obj.mpr
      ⟨("deltas", .arr [FeatureDelta.toJson .apply (noteDelta s)]), ?_, ?_⟩
    · simp [noteEntry]
    · exact mem_leaves_arr.mpr ⟨_, mem_singleton_self _, hdelta⟩
  refine mem_leaves_obj.mpr ⟨("entries", .arr [(noteEntry s).toJson, e.toJson]), ?_, ?_⟩
  · exact mem_cons_self
  · exact mem_leaves_arr.mpr ⟨_, mem_cons_self, hentry⟩

theorem writeEntry_long {s : String} (hs : journalByteBudget < s.length) (p : Payload)
    (e : JournalEntry) :
    writeEntry plainKit "ref:a" answered (noteWritten s) p (loadJournals answered (noteWritten s))
        e =
      (.written { e with seq := 2, contentRevisionAfter := 3 },
        { payload := some p
          revision := 3
          journals := ⟨[("ref:a", ⟨[{ e with seq := 2, contentRevisionAfter := 3 }], 2, 1⟩)],
            nodup_singleton _⟩ }) := by
  have hfound : ((loadJournals answered (noteWritten s)).find "ref:a").getD newJournal =
      ⟨[noteEntry s], 1, 0⟩ := rfl
  have happend : appendEntry plainKit.floats ⟨[noteEntry s], 1, 0⟩ e =
      ⟨[{ e with seq := 2 }], 2, 1⟩ := by
    unfold appendEntry dropOldest
    dsimp only [cons_append, nil_append]
    rw [if_pos (overBudget_note hs _)]
    simp [dropOldest, overBudget, maxUndoHistory]
  unfold writeEntry
  rw [hfound, happend]
  generalize noteEntry s = first
  rfl

/-- A long note is undone, and cannot be redone: its entry is the first that the journal drops. -/
theorem long_note_kept_out {s : String} (hs : journalByteBudget < s.length) :
    ∃ u t, applyUndo plainKit "ref:a" (noteWritten s) "user" "user" answered = (.written u, t) ∧
      Works "ref:a" t answered ∧
      applyRedo plainKit "ref:a" t "user" "user" answered =
        (.raised (.blocked "undo_unavailable"
          "undone entry no longer in journal (FIFO dropped)"), t) := by
  have hback : computePayloadFingerprint plainKit (.bare noted) =
      computePayloadFingerprint plainKit ((Payload.bare (written s)).withFeatures
        (commitOf (invertDeltas [noteDelta s]) (invertSchemaOps [⟨"zone", "area"⟩])
          (written s).features)) := by
    have hrestored : (Payload.bare (written s)).withFeatures
        (commitOf (invertDeltas [noteDelta s]) (invertSchemaOps [⟨"zone", "area"⟩])
          (written s).features) = .bare restored := by
      rfl
    rw [hrestored]
    refine fingerprint_same _ ?_
    unfold Payload.Same
    decide +kernel
  have hkey : entryForIdempotencyKey (journalOf "ref:a" answered (noteWritten s))
      ("undo:" ++ toString (noteEntry s).seq) = none := by
    refine entryForKey_eq_none fun d hd => ?_
    rw [mem_singleton.mp hd]
    have hne : "plan:fep-1" ≠ "undo:" ++ toString 1 := by decide +kernel
    exact hne
  obtain ⟨entry, -, hkind, hundone, -, hcall⟩ := applyUndo_eq (K := plainKit)
    (s := noteWritten s) rfl rfl rfl rfl (e := noteEntry s) nofun hkey rfl hback "user" "user"
  rw [writeEntry_long hs] at hcall
  refine ⟨_, _, hcall, ?_, ?_⟩
  · refine ⟨rfl, rfl, rfl, rfl, fun kj h hne => ?_⟩
    exact absurd (congrArg Prod.fst (mem_singleton.mp h)) hne
  · refine applyRedo_gone rfl rfl (u := { entry with seq := 2, contentRevisionAfter := 3 }) rfl
      hkind (fun e he => ?_) "user" "user"
    rw [mem_singleton.mp he]
    rw [hundone]
    nofun

def longNote : String := String.ofList (List.replicate 70000 'x')

end WebGis.Edit
