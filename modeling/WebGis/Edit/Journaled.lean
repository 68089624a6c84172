/-
  The journal of a dataset over all runs: its entries keep their order, and the key of an undo or of
  a redo is not found before the entry that it is for has been undone or redone.
-/
import WebGis.Edit.Once

namespace WebGis.Edit

open Data Json List Dict

/-! ## Keys -/

theorem toList_key (head : String) (n : Nat) :
    (head ++ toString n).toList = head.toList ++ Nat.toDigits 10 n := by
  rw [String.toList_append]
  exact congrArg _ Nat.toList_repr

theorem key_inj {head : String} {m n : Nat} (h : head ++ toString m = head ++ toString n) :
    m = n := by
  have hchars := congrArg String.toList h
  rw [toList_key, toList_key] at hchars
  exact toDigits_inj (append_cancel_left hchars)

theorem undo_ne_redo (m n : Nat) : "undo:" ++ toString m ≠ "redo:" ++ toString n := by
  intro h
  have hchars := congrArg String.toList h
  rw [toList_key, toList_key] at hchars
  cases hchars

theorem commitKey_ne (plan : Plan) (idempotencyKey : Option String) {head : String}
    (hhead : head.toList.all (· ≠ 'f')) (n : Nat) :
    commitKey plan idempotencyKey ≠ head ++ toString n := by
  intro h
  have hmem : 'f' ∈ (commitKey plan idempotencyKey).toList := by
    have hid : 'f' ∈ plan.planId.toList := by
      unfold Plan.planId
      rw [String.toList_append]
      exact mem_append_left _ (by decide)
    unfold commitKey
    split
    · split <;> simp only [String.toList_append, mem_append, hid, or_true]
    · simp only [String.toList_append, mem_append, hid, or_true]
  rw [h, toList_key, mem_append] at hmem
  rcases hmem with hmem | hmem
  · have := List.all_eq_true.mp hhead 'f' hmem
    simp at this
  · have := isDigit_of_mem hmem
    revert this
    decide

/-! ## Journals -/

/-- What holds of a journal after every run. -/
structure EditJournal.Wf (j : EditJournal) : Prop where
  rising : j.entries.Pairwise fun d e => d.seq < e.seq
  newest : ∀ e, headEntry j = some e → e.seq = j.headSeq
  undone : ∀ e ∈ j.entries, ∀ n, e.kind = .undo → e.undoOfSeq = some n → e.seq = n + 1
  undoKeys : ∀ e ∈ j.entries, ∀ n, e.idempotencyKey = "undo:" ++ toString n → n < e.seq
  redoKeys : ∀ e ∈ j.entries, ∀ n, e.idempotencyKey = "redo:" ++ toString n → n + 1 < e.seq

variable {j : EditJournal} {e : JournalEntry}

theorem wf_new : newJournal.Wf := ⟨.nil, nofun, nofun, nofun, nofun⟩

theorem headEntry_append (entries : List JournalEntry) (e : JournalEntry) (headSeq dropped : Nat) :
    headEntry ⟨entries ++ [e], headSeq, dropped⟩ = some e :=
  getLast?_concat

theorem seq_le_headSeq (h : j.Wf) (he : e ∈ j.entries) : e.seq ≤ j.headSeq := by
  obtain ⟨entries, headSeq, dropped⟩ := j
  cases entries using List.reverseRecOn with
  | nil => cases he
  | append_singleton es head =>
    have hhead := h.newest head (headEntry_append es head headSeq dropped)
    rcases mem_append.mp he with he | he
    · have hlt := (pairwise_append.mp h.rising).2.2 e he head (mem_singleton_self head)
      omega
    · rw [mem_singleton.mp he]
      exact Nat.le_of_eq hhead

theorem EditJournal.Wf.suffix {entries : List JournalEntry} {headSeq dropped : Nat}
    (h : EditJournal.Wf ⟨entries, headSeq, dropped⟩) (n dropped' : Nat) :
    EditJournal.Wf ⟨entries.drop n, headSeq, dropped'⟩ where
  rising := h.rising.sublist (drop_sublist n entries)
  newest e he := by
    refine h.newest e ?_
    unfold headEntry at he ⊢
    rw [getLast?_drop] at he
    split at he
    · cases he
    · exact he
  undone e he := h.undone e (mem_of_mem_drop he)
  undoKeys e he := h.undoKeys e (mem_of_mem_drop he)
  redoKeys e he := h.redoKeys e (mem_of_mem_drop he)

/-- The loop of `append_entry` drops some of the oldest entries, and never the newest. -/
theorem dropOldest_spec (R : FloatRepr) (headSeq dropped : Nat) (es : List JournalEntry)
    (e : JournalEntry) :
    ∃ n d, n ≤ es.length ∧
      dropOldest R headSeq dropped (es ++ [e]) = ⟨(es ++ [e]).drop n, headSeq, d⟩ := by
  induction es generalizing dropped with
  | nil =>
    refine ⟨0, dropped, Nat.le_refl _, ?_⟩
    rw [nil_append, dropOldest, if_neg]
    · rfl
    · rintro (hmany | ⟨hmany, -⟩)
      · have hmany : 1 > maxUndoHistory := hmany
        exact absurd hmany (by decide)
      · have hmany : 1 > 1 := hmany
        exact Nat.lt_irrefl 1 hmany
  | cons d es ih =>
    rw [cons_append, dropOldest]
    split
    · obtain ⟨n, dropped', hn, heq⟩ := ih (dropped + 1)
      exact ⟨n + 1, dropped', Nat.succ_le_succ hn, heq⟩
    · exact ⟨0, dropped, Nat.zero_le _, rfl⟩

theorem appendEntry_spec (R : FloatRepr) (j : EditJournal) (e : JournalEntry) :
    ∃ n d, n ≤ j.entries.length ∧ appendEntry R j e =
      ⟨j.entries.drop n ++ [{ e with seq := j.headSeq + 1 }], j.headSeq + 1, d⟩ := by
  obtain ⟨n, d, hn, heq⟩ := dropOldest_spec R (j.headSeq + 1) j.dropped j.entries
    { e with seq := j.headSeq + 1 }
  refine ⟨n, d, hn, heq.trans ?_⟩
  rw [drop_append_of_le_length hn]

/-- The entry fits behind the journal. -/
structure Follows (j : EditJournal) (e : JournalEntry) : Prop where
  undone : ∀ n, e.kind = .undo → e.undoOfSeq = some n → n = j.headSeq
  undoKey : ∀ n, e.idempotencyKey = "undo:" ++ toString n → n ≤ j.headSeq
  redoKey : ∀ n, e.idempotencyKey = "redo:" ++ toString n → n < j.headSeq

theorem EditJournal.Wf.concat {entries : List JournalEntry} {headSeq dropped dropped' : Nat}
    (h : EditJournal.Wf ⟨entries, headSeq, dropped⟩) (hseq : e.seq = headSeq + 1)
    (hf : Follows ⟨entries, headSeq, dropped⟩ e) :
    EditJournal.Wf ⟨entries ++ [e], headSeq + 1, dropped'⟩ where
  rising := by
    refine pairwise_append.mpr ⟨h.rising, pairwise_singleton _ _, fun d hd e' he' => ?_⟩
    have hle := seq_le_headSeq h hd
    rw [mem_singleton.mp he', hseq]
    exact Nat.lt_succ_of_le hle
  newest e' he' := by
    rw [headEntry_append] at he'
    cases he'
    exact hseq
  undone e' he' n hk hn := by
    rcases mem_append.mp he' with he' | he'
    · exact h.undone e' he' n hk hn
    · cases mem_singleton.mp he'
      rw [hseq, hf.undone n hk hn]
  undoKeys e' he' n hn := by
    rcases mem_append.mp he' with he' | he'
    · exact h.undoKeys e' he' n hn
    · cases mem_singleton.mp he'
      have hle : n ≤ headSeq := hf.undoKey n hn
      omega
  redoKeys e' he' n hn := by
    rcases mem_append.mp he' with he' | he'
    · exact h.redoKeys e' he' n hn
    · cases mem_singleton.mp he'
      have hlt : n < headSeq := hf.redoKey n hn
      omega

/-! ## Runs -/

variable {K : Kit} {ref : String} {s : Session} {r : Replies}

/-- The journal that a call reads. -/
def journalOf (ref : String) (r : Replies) (s : Session) : EditJournal :=
  ((loadJournals r s).find ref).getD newJournal

/-- The entry as it is filed. -/
def filed (j : EditJournal) (entry : JournalEntry) (revision : Nat) : JournalEntry :=
  { entry with seq := j.headSeq + 1, contentRevisionAfter := revision }

theorem writeEntry_eq (K : Kit) (ref : String) (s : Session) (p : Payload) (entry : JournalEntry)
    (h : r.overwritten) :
    ∃ n d revision, n ≤ (journalOf ref r s).entries.length ∧
      writeEntry K ref r s p (loadJournals r s) entry =
        (.written (filed (journalOf ref r s) entry revision),
          { payload := some p
            revision := s.revision + 1
            journals :=
              if r.recorded then
                saveJournal ((loadJournals r s).set ref ⟨(journalOf ref r s).entries.drop n ++
                    [filed (journalOf ref r s) entry revision],
                    (journalOf ref r s).headSeq + 1, d⟩)
              else s.journals }) := by
  obtain ⟨n, d, hn, happend⟩ := appendEntry_spec K.floats (journalOf ref r s) entry
  unfold journalOf at happend hn ⊢
  unfold writeEntry
  dsimp only
  rw [if_pos h, happend]
  unfold EditJournal.modifyHead
  rw [modifyLast_concat, headEntry_append]
  exact ⟨n, d, _, hn, rfl⟩

theorem find_saveJournal {journals : Dict String EditJournal} {name : String}
    (h : (saveJournal journals).find name = some j) : journals.find name = some j := by
  have hmem := find_eq_some.mp h
  exact find_eq_some.mpr (mem_filter.mp hmem).1

/-- The journal of the dataset is well formed. -/
def Session.Sound (ref : String) (s : Session) : Prop :=
  ∀ j, s.journals.find ref = some j → j.Wf

theorem Session.Sound.journalOf (h : s.Sound ref) (r : Replies) : (journalOf ref r s).Wf := by
  unfold Edit.journalOf loadJournals
  split
  · cases hj : s.journals.find ref with
    | none => exact wf_new
    | some j => exact h j hj
  · exact wf_new

/-- A call leaves the session alone, or files an entry that fits. -/
def Files (K : Kit) (ref : String) (s : Session) (r : Replies) (o : Outcome × Session) : Prop :=
  o.2 = s ∨ ∃ p entry, Follows (journalOf ref r s) entry ∧
    o = writeEntry K ref r s p (loadJournals r s) entry

theorem Files.sound {o : Outcome × Session} (h : Files K ref s r o) (hs : s.Sound ref) :
    o.2.Sound ref := by
  rcases h with h | ⟨p, entry, hfollows, rfl⟩
  · rwa [h]
  by_cases hover : r.overwritten
  · obtain ⟨n, d, revision, hn, heq⟩ := writeEntry_eq K ref s p entry hover
    rw [heq]
    intro j hj
    split at hj
    · have hfind := find_saveJournal hj
      rw [find_set_self] at hfind
      cases hfind
      have hwf := (hs.journalOf r).suffix n d
      exact hwf.concat rfl ⟨hfollows.undone, hfollows.undoKey, hfollows.redoKey⟩
    · exact hs j hj
  · unfold writeEntry
    rw [if_neg hover]
    exact hs

theorem files_kept (r : Replies) (o : Outcome) : Files K ref s r (o, s) := .inl rfl

theorem commitFresh_files {plan : Plan} (actor origin : String) (idempotencyKey : Option String)
    (p : Payload) (c : Collection) :
    Files K ref s r (commitFresh K ref s plan actor origin (commitKey plan idempotencyKey) r p c) := by
  unfold commitFresh
  split
  · exact files_kept r _
  dsimp only
  split
  · exact files_kept r _
  split
  · exact files_kept r _
  · refine .inr ⟨_, _, ⟨fun n hkind _ => ?_, fun n hn => ?_, fun n hn => ?_⟩, rfl⟩
    · cases hkind
    · exact absurd hn (commitKey_ne plan idempotencyKey (by decide) n)
    · exact absurd hn (commitKey_ne plan idempotencyKey (by decide) n)

theorem commitPlan_files (plan : Plan) (actor origin : String) (idempotencyKey : Option String) :
    Files K ref s r (commitPlan K ref s plan actor origin idempotencyKey r) := by
  unfold commitPlan
  split
  · dsimp only
    split
    · exact files_kept r _
    split
    · exact files_kept r _
    · split
      · exact files_kept r _
      · exact commitFresh_files actor origin idempotencyKey _ _
  · exact files_kept r _

theorem applyInverse_files {p : Payload} {effect : JournalEntry}
    (h : Follows (journalOf ref r s) effect) :
    Files K ref s r (applyInverse K ref s r p effect) := by
  unfold applyInverse
  split
  · exact files_kept r _
  dsimp only
  split
  · exact files_kept r _
  · refine .inr ⟨_, _, ?_, rfl⟩
    exact ⟨h.undone, h.undoKey, h.redoKey⟩

theorem follows_undo (h : j.Wf) (hhead : headEntry j = some e) (actor origin ref : String) :
    Follows j { invertEntry e with
      idempotencyKey := "undo:" ++ toString e.seq, actor := actor, origin := origin,
      refId := ref } := by
  have hseq := h.newest e hhead
  refine ⟨fun n _ hn => ?_, fun n hn => ?_, fun n hn => ?_⟩
  · cases hn
    exact hseq
  · rw [← key_inj hn]
    exact Nat.le_of_eq hseq
  · exact absurd hn (undo_ne_redo _ _)

theorem mem_of_headEntry (h : headEntry j = some e) : e ∈ j.entries := mem_of_getLast? h

theorem follows_redo (h : j.Wf) {head : JournalEntry} (hhead : headEntry j = some head)
    (hkind : head.kind = .undo) (hundone : head.undoOfSeq = some e.seq) (actor origin ref : String) :
    Follows j (redoEntry e ("redo:" ++ toString e.seq) actor origin ref) := by
  have hseq := h.newest head hhead
  have hnext := h.undone head (mem_of_headEntry hhead) e.seq hkind hundone
  refine ⟨fun n hkind _ => ?_, fun n hn => ?_, fun n hn => ?_⟩
  · cases hkind
  · exact absurd hn.symm (undo_ne_redo _ _)
  · rw [← key_inj hn]
    omega

theorem applyUndo_files (hs : s.Sound ref) (actor origin : String) :
    Files K ref s r (applyUndo K ref s actor origin r) := by
  unfold applyUndo
  split
  · dsimp only
    split
    · exact files_kept r _
    rename_i head hhead
    split
    · exact files_kept r _
    split
    · exact files_kept r _
    · split
      · exact files_kept r _
      · exact applyInverse_files (follows_undo (hs.journalOf r) hhead actor origin ref)
  · exact files_kept r _

theorem applyRedo_files (hs : s.Sound ref) (actor origin : String) :
    Files K ref s r (applyRedo K ref s actor origin r) := by
  unfold applyRedo
  split
  · dsimp only
    split
    · exact files_kept r _
    rename_i head hhead
    split
    · exact files_kept r _
    rename_i hkind
    split
    · exact files_kept r _
    rename_i target htarget
    have hfound := find?_some htarget
    have hundone := (of_decide_eq_true hfound).symm
    split
    · exact files_kept r _
    · split
      · exact files_kept r _
      · exact applyInverse_files (follows_redo (hs.journalOf r) hhead
          (not_not.mp hkind) hundone actor origin ref)
  · exact files_kept r _

theorem sound_act (hs : s.Sound ref) (a : Action) : (act K ref s a).Sound ref := by
  cases a with
  | commit plan actor origin key r =>
    exact (commitPlan_files plan actor origin key).sound hs
  | undo actor origin r => exact (applyUndo_files hs actor origin).sound hs
  | redo actor origin r => exact (applyRedo_files hs actor origin).sound hs
  | overwrite p => exact hs
  | drop name n =>
    intro j hj
    have hj : (dropEntries s.journals name n).find ref = some j := hj
    unfold dropEntries at hj
    split at hj
    · exact hs j hj
    rename_i old hold
    rw [find_set] at hj
    split at hj
    · rename_i hname
      cases hj
      exact (hs old (hname ▸ hold)).suffix n _
    · exact hs j hj
  | evict name =>
    intro j hj
    have hj : Dict.find (Table.delete s.journals fun kj => kj.1 = name) ref = some j := hj
    rw [find_delete_key] at hj
    split at hj
    · cases hj
    · exact hs j hj

theorem sound_actAll (hs : s.Sound ref) (as : List Action) : (actAll K ref s as).Sound ref :=
  List.foldlRecOn (motive := fun s => Session.Sound ref s) as (act K ref) hs
    fun _ hs a _ => sound_act hs a

/-- The journal of a dataset stays well formed, whatever is done. -/
theorem journal_stays_wf (K : Kit) (ref : String) (payload : Option Payload) (revision : Nat)
    (as : List Action) : (actAll K ref ⟨payload, revision, Dict.empty⟩ as).Sound ref :=
  sound_actAll (fun j hj => by cases hj) as

end WebGis.Edit
