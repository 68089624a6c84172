/-
  The journal tells the true history of every node.

  `Recorded` is the invariant: the transitions journalled for a node, in the order of their
  ids, lead from `pending` through the table of legal transitions to the state its row has
  now, and the revision counts them. A quiet step journals nothing, and a transition
  appends the step it makes (`Recorded.quiet`, `Recorded.moves`).
-/
import WebGis.Workflow.Discipline

namespace WebGis.Workflow

open Data Conc NodeState List Option Pool

/-! ## Paths through the table -/

/-- The journal rows lead from one state to another by legal transitions. -/
def Path : NodeState → List EventRow → NodeState → Prop
  | a, [], b => a = b
  | a, e :: es, b => e.fromState = some a ∧ ∃ m, e.toState = some m ∧ Legal a m ∧ Path m es b

theorem Path.append {a m b : NodeState} {es : List EventRow} {e : EventRow} (h : Path a es m)
    (hfrom : e.fromState = some m) (hto : e.toState = some b) (hl : Legal m b) :
    Path a (es ++ [e]) b := by
  induction es generalizing a with
  | nil =>
    cases h
    exact ⟨hfrom, b, hto, hl, rfl⟩
  | cons x es ih =>
    obtain ⟨hx, n, hn, hleg, hrest⟩ := h
    exact ⟨hx, n, hn, hleg, ih hrest⟩

/-- `cancelled` absorbs: a path has no step after the one that reaches it. -/
theorem Path.after_cancelled {a b : NodeState} {before after : List EventRow} {e : EventRow}
    (h : Path a (before ++ e :: after) b) (he : e.toState = some cancelled) : after = [] := by
  induction before generalizing a with
  | nil =>
    obtain ⟨-, m, hm, -, hrest⟩ := h
    have hmc : m = cancelled := some.inj (hm.symm.trans he)
    cases after with
    | nil => rfl
    | cons x xs =>
      obtain ⟨-, n, -, hl, -⟩ := hrest
      rw [hmc] at hl
      exact absurd hl (not_legal_cancelled n)
  | cons x before ih =>
    obtain ⟨-, m, -, -, hrest⟩ := h
    exact ih hrest

/-! ## The journal of a node -/

/-- Whether a journal row tells of a transition of the node with key `k`. -/
def EventRow.tells (k : String × String) (e : EventRow) : Bool :=
  e.kind = .stateTransition && (e.instanceId, e.nodeId) = k

/-- The transitions journalled for a node, in the order of their ids. -/
def World.journal (w : World) (k : String × String) : List EventRow :=
  w.events.filter (EventRow.tells k)

theorem Quiet.journal_eq {w w' : World} (h : Quiet w w') (k : String × String) :
    w'.journal k = w.journal k := by
  obtain ⟨extra, hev, hkind⟩ := h.journal
  have hnone : extra.filter (EventRow.tells k) = [] := by
    rw [filter_eq_nil_iff]
    intro e he
    simp [EventRow.tells, hkind e he]
  rw [World.journal, hev, filter_append, hnone, append_nil]
  rfl

theorem Moves.journal_eq {w w' : World} {c : TransitionCall} {seen row : NodeRow} {now : Nat}
    (h : Moves w w' c seen row now) (hid : row.nodeId.length ≤ 64) (k : String × String) :
    w'.journal k = w.journal k ++ if c.key = k then [c.journalRow seen] else [] := by
  have hkey : row.key = c.key := Table.get_key h.found
  have hclip : clip 64 c.nodeId = c.nodeId := by
    have hn : row.nodeId = c.nodeId := congrArg Prod.snd hkey
    exact clip_of_length_le (hn ▸ hid)
  have htells : (c.journalRow seen).tells k = decide (c.key = k) := by
    simp only [EventRow.tells, TransitionCall.journalRow, hclip, decide_true, Bool.true_and]
    rfl
  rw [h.result]
  simp only [World.journal, filter_append, filter_cons, filter_nil, htells]
  by_cases hk : c.key = k <;> simp [hk]

/-! ## The invariant -/

/-- The journal of every node leads to the state and the revision of its row. -/
structure Recorded (w : World) : Prop where
  idLength : ∀ {k r}, w.nodes.get k = some r → r.nodeId.length ≤ 64
  path : ∀ {k r}, w.nodes.get k = some r → Path pending (w.journal k) r.state
  count : ∀ {k r}, w.nodes.get k = some r → r.stateRevision = 1 + (w.journal k).length
  unborn : ∀ {k}, w.nodes.get k = none → w.journal k = []

namespace Recorded

theorem init : Recorded World.init where
  idLength h := by cases h
  path h := by cases h
  count h := by cases h
  unborn _ := rfl

theorem origin {w w' : World} (h : Quiet w w') {k : String × String} {r' : NodeRow}
    (hr' : w'.nodes.get k = some r') :
    (∃ r, w.nodes.get k = some r ∧ r.key = r'.key ∧ SameCore r r') ∨
      (w.nodes.get k = none ∧ Fresh r') := by
  cases hk : w.nodes.get k with
  | none => exact .inr ⟨rfl, h.fresh hk hr'⟩
  | some r =>
    obtain ⟨r2, hr2, hc⟩ := h.kept hk
    have : r2 = r' := some.inj (hr2.symm.trans hr')
    subst this
    exact .inl ⟨r, rfl, (Table.get_key hk).trans (Table.get_key hr').symm, hc⟩

theorem quiet {w w' : World} (hw : Recorded w) (h : Quiet w w') : Recorded w' where
  idLength {k r'} hr' := by
    rcases origin h hr' with ⟨r, hr, hkey, -⟩ | ⟨-, hf⟩
    · rw [← show r.nodeId = r'.nodeId from congrArg Prod.snd hkey]
      exact hw.idLength hr
    · exact hf.idLength
  path {k r'} hr' := by
    rw [h.journal_eq k]
    rcases origin h hr' with ⟨r, hr, -, hc⟩ | ⟨hn, hf⟩
    · rw [hc.state]
      exact hw.path hr
    · rw [hw.unborn hn, hf.state]
      rfl
  count {k r'} hr' := by
    rw [h.journal_eq k]
    rcases origin h hr' with ⟨r, hr, -, hc⟩ | ⟨hn, hf⟩
    · rw [hc.stateRevision]
      exact hw.count hr
    · rw [hw.unborn hn, hf.stateRevision]
      rfl
  unborn {k} hn := by
    rw [h.journal_eq k]
    cases hk : w.nodes.get k with
    | none => exact hw.unborn hk
    | some r =>
      obtain ⟨r', hr', -⟩ := h.kept hk
      rw [hn] at hr'
      cases hr'

theorem moves {w w' : World} {c : TransitionCall} {seen row : NodeRow} {now : Nat}
    (hw : Recorded w) (h : Moves w w' c seen row now) : Recorded w' := by
  have hid := hw.idLength h.found
  have hseen : seen.state = row.state := h.core.state.symm
  have hrev : seen.stateRevision = row.stateRevision := h.core.stateRevision.symm
  refine ⟨?_, ?_, ?_, ?_⟩
  · intro k r hr
    rw [h.get k] at hr
    split at hr
    · cases hr
      exact hid
    · exact hw.idLength hr
  · intro k r hr
    rw [h.get k] at hr
    rw [h.journal_eq hid k]
    split at hr
    · rename_i hk
      cases hr
      rw [if_pos hk]
      refine (hw.path (hk ▸ h.found)).append ?_ rfl h.legal
      rw [← hseen]
      rfl
    · rename_i hk
      rw [if_neg hk, append_nil]
      exact hw.path hr
  · intro k r hr
    rw [h.get k] at hr
    rw [h.journal_eq hid k]
    split at hr
    · rename_i hk
      cases hr
      have hc := hw.count (hk ▸ h.found)
      rw [if_pos hk, length_append, length_singleton]
      rw [TransitionCall.newRow_stateRevision, hrev]
      omega
    · rename_i hk
      rw [if_neg hk, append_nil]
      exact hw.count hr
  · intro k hn
    rw [h.get k] at hn
    rw [h.journal_eq hid k]
    split at hn
    · cases hn
    rename_i hk
    rw [if_neg hk, append_nil]
    exact hw.unborn hn

theorem step {A : TransitionCall → Prop} {busy : Bool} {s : Past} {o : Op}
    (hw : Recorded s.state) (hs : Followed s) (h : Judged A s o) :
    Recorded (exec busy s.state o).1 := by
  rcases h.step hs busy with ⟨-, hq⟩ | ⟨c, seen, row, now, -, -, -, -, hm⟩
  · exact hw.quiet hq
  · exact hw.moves hm

end Recorded

/-! ## Runs -/

/-- Any transition may be asked for. -/
def anyCall : TransitionCall → Prop := fun _ => True

/-- `Q` is reached from the empty database by programs that change node states through
    `transition_node` only, asking for transitions of `A`. -/
abbrev Reached (A : TransitionCall → Prop) {α : Type} (Q : Pool Op Res α Past) : Prop :=
  Pool.Runs run (Client A) free ⟨Past.init, []⟩ Q

theorem recorded_of_reached {A : TransitionCall → Prop} {α : Type} {Q : Pool Op Res α Past}
    (h : Reached A Q) : Recorded Q.shared.state := by
  let C := (discipline A).strengthen (fun s => Recorded s.state) free
    fun {_ _ _ _} hs hw hg _ _ => hw.step hs hg
  have hruns : Pool.Runs run (Client A) C.guard ⟨Past.init, []⟩ Q :=
    h.mono (fun _ hp => hp) fun _ _ _ _ _ => ⟨trivial, trivial⟩
  exact (C.runs_inv hruns (fun _ hp => hp.ok.strengthen) ⟨Followed.of_nil _, Recorded.init⟩).2

/-- **A legal chain.** After every interleaving, the journal of a node is a path of legal
    transitions from `pending` to the state of its row, the revision is one more than its
    length, and nothing follows a cancellation. -/
theorem journal_legal_chain {A : TransitionCall → Prop} {α : Type} {Q : Pool Op Res α Past}
    (h : Reached A Q) {k : String × String} {row : NodeRow}
    (hrow : Q.shared.state.nodes.get k = some row) :
    Path pending (Q.shared.state.journal k) row.state ∧
      row.stateRevision = 1 + (Q.shared.state.journal k).length ∧
      ∀ before e after, Q.shared.state.journal k = before ++ e :: after →
        e.toState = some cancelled → after = [] := by
  have hw := recorded_of_reached h
  refine ⟨hw.path hrow, hw.count hrow, fun before e after hsplit he => ?_⟩
  have hp := hw.path hrow
  rw [hsplit] at hp
  exact hp.after_cancelled he

/-- An instance with one node is created and the node is bound. -/
def boundOnce : List (Pool.Move Op Res Unit Bool) :=
  solo 0 3 false (createInstance "wi-1" "owner" "" ["a"] >>= fun _ => .ret ()) ++
    solo 1 3 false (transitionNode
      { instanceId := "wi-1", nodeId := "a", toState := ready, event := "attach" } >>=
        fun _ => .ret ())

theorem boundOnce_reached : Reached anyCall (play run ⟨Past.init, []⟩ boundOnce) := by
  refine play_runs run _ _ fun m hm p hp => ?_
  rcases mem_append.mp hm with hm | hm
  · rw [starts_solo hm hp]
    exact (createInstance_client _ _ _ _).bind fun _ => .done ()
  · rw [starts_solo hm hp]
    exact (transitionNode_client trivial).bind fun _ => .done ()

theorem journal_legal_chain_of_boundOnce :
    ∃ (Q : Pool Op Res Unit Past) (row : NodeRow), Reached anyCall Q ∧ row.state = ready ∧
      Q.shared.state.nodes.get ("wi-1", "a") = some row ∧
      Path pending (Q.shared.state.journal ("wi-1", "a")) row.state ∧
      row.stateRevision = 1 + (Q.shared.state.journal ("wi-1", "a")).length ∧
      ∀ before e after, Q.shared.state.journal ("wi-1", "a") = before ++ e :: after →
        e.toState = some cancelled → after = [] := by
  have hst : ((play run ⟨Past.init, []⟩ boundOnce).shared.state.nodes.get
      ("wi-1", "a")).map (·.state) = some ready := by decide
  obtain ⟨row, hrow, hready⟩ := map_eq_some_iff.mp hst
  exact ⟨_, row, boundOnce_reached, hready, hrow, journal_legal_chain boundOnce_reached hrow⟩

end WebGis.Workflow
