/-
  The discipline of the store's clients, as a rely-guarantee protocol.

  Every update of a node state comes from `transition_node`, so it was judged on a row that
  was read before. The invariant `Followed` says what can have become of any row of the past:
  it has the same state, revision and claimant still, or a transition on record found it so
  and moved it on. Hence a row that was read stays a sound basis for a compare-and-set, and
  an update that goes through has the legality its judgement promised (`Judged.step`).
-/
import WebGis.Conc.History
import WebGis.Workflow.Steps

namespace WebGis.Workflow

open Data Conc NodeState List TransitionCall Protocol

/-- A database with the calls that led to it. -/
abbrev Past : Type := Traced Op Bool World

/-- A call of the history. -/
abbrev Done : Type := Call Op Bool World

/-- The statements, with the history kept. -/
abbrev run : Exec Op Res Bool Past := traced exec

/-- The database before anything was stored, with no past. -/
def Past.init : Past := ⟨World.init, []⟩

/-! ## Judged transitions -/

theorem judge_eq_none {c : TransitionCall} {row : NodeRow} :
    c.judge row = none ↔ (c.requireClaim → row.claimant = c.claimedBy) ∧
      Legal row.state c.toState ∧ ∀ st, c.expectedFrom = some st → st = row.state := by
  simp only [TransitionCall.judge, ne_eq, validateTransition_eq_none]
  constructor
  · intro h
    split at h
    · cases h
    rename_i hclaim
    split at h
    · cases h
    rename_i hlegal
    split at h
    · cases h
    rename_i hfrom
    refine ⟨by simpa using hclaim, by simpa using hlegal, fun st hst => ?_⟩
    simpa [hst] using hfrom
  · rintro ⟨hclaim, hlegal, hfrom⟩
    have h1 : ¬ (c.requireClaim ∧ ¬ row.claimant = c.claimedBy) :=
      fun h => h.2 (hclaim h.1)
    have h3 : ¬ (c.expectedFrom.any fun x => !decide (x = row.state)) := by
      cases hst : c.expectedFrom with
      | none => simp
      | some st => simp [hfrom st hst]
    simp [h1, hlegal, h3]

/-- `w'` results from `w` by the transition `c`, judged on `seen`, of the row it found. -/
structure Moves (w w' : World) (c : TransitionCall) (seen row : NodeRow) (now : Nat) :
    Prop where
  found : w.nodes.get c.key = some row
  core : SameCore seen row
  judged : c.judge seen = none
  result : w' = { w with
    nodes := w.nodes.put (c.newRow seen now row)
    events := w.events ++ [c.journalRow seen] }

namespace Moves

variable {w w' : World} {c : TransitionCall} {seen row : NodeRow} {now : Nat}

theorem legal (h : Moves w w' c seen row now) : Legal row.state c.toState := by
  rw [h.core.state]
  exact (judge_eq_none.mp h.judged).2.1

theorem claimant (h : Moves w w' c seen row now) (hc : c.requireClaim) :
    row.claimant = c.claimedBy := by
  rw [NodeRow.claimant, h.core.claimedBy]
  exact (judge_eq_none.mp h.judged).1 hc

theorem get (h : Moves w w' c seen row now) (k : String × String) :
    w'.nodes.get k = if c.key = k then some (c.newRow seen now row) else w.nodes.get k := by
  have hkey : (c.newRow seen now row).key = c.key := (rfl : _ = row.key).trans (Table.get_key h.found)
  have hfound : w.nodes.get (c.newRow seen now row).key = some row := by rw [hkey, h.found]
  rw [h.result, ← hkey]
  exact Table.get_put hfound k

end Moves

/-! ## What became of a row -/

/-- `d` carried out the transition `c` of the node `k`, whose row it found to be `row`. -/
def MovedBy (d : Done) (k : String × String) (c : TransitionCall) (row : NodeRow) : Prop :=
  transitionOf d.env d.before d.op = some (c, row) ∧ c.key = k

/-- What became of a row `r` of the node `k`: it has its core still, or a call of the history
    found it with that core and moved it. -/
def Fate (s : Past) (k : String × String) (r : NodeRow) : Prop :=
  ∃ row, s.state.nodes.get k = some row ∧ (SameCore r row ∨
    r.stateRevision < row.stateRevision ∧ ∃ d ∈ s.log, ∃ c row0, MovedBy d k c row0 ∧
      SameCore r row0)

/-- The fate of every row of every state of the past is on record. -/
def Followed (s : Past) : Prop :=
  ∀ w ∈ s.states, ∀ {k r}, w.nodes.get k = some r → Fate s k r

/-- Someone could have read this row. -/
def WasRow (s : Past) (k : String × String) (r : NodeRow) : Prop :=
  ∃ w ∈ s.states, w.nodes.get k = some r

theorem Followed.of_nil (w : World) : Followed ⟨w, []⟩ := by
  intro w' hw' k r hr
  have : w' = w := by simpa [Traced.states] using hw'
  subst this
  exact ⟨r, hr, .inl (SameCore.refl r)⟩

variable {s : Past} {k : String × String}

/-- A row that was read and whose revision is the present one is what the present row is
    judged on. -/
theorem Followed.core (hs : Followed s) {seen row : NodeRow} (hseen : WasRow s k seen)
    (hrow : s.state.nodes.get k = some row) (hrev : row.stateRevision = seen.stateRevision) :
    SameCore seen row := by
  obtain ⟨w, hw, hr⟩ := hseen
  obtain ⟨row', hrow', hc⟩ := hs w hw hr
  have : row' = row := Option.some.inj (hrow'.symm.trans hrow)
  subst this
  rcases hc with hc | ⟨hlt, -⟩
  · exact hc
  · omega

/-- A statement that a client may send, where `A` says which transitions are asked for: an
    update is judged on a row that was read. -/
def Judged (A : TransitionCall → Prop) (s : Past) : Op → Prop
  | .updateNode c seen _ =>
    A c ∧ seen.key = c.key ∧ WasRow s c.key seen ∧ c.judge seen = none
  | .appendEvent ev => ev.kind ≠ .stateTransition
  | _ => True

variable {o : Op}

theorem Judged.of_plain {A : TransitionCall → Prop} (h : Plain o) : Judged A s o := by
  cases o <;> first | exact trivial | exact h | exact h.elim

/-- **What a judged statement does**: it moves no node, or it carries out one transition of
    `A` that is legal from the state it finds. -/
theorem Judged.step {A : TransitionCall → Prop} (h : Judged A s o) (hs : Followed s) (busy : Bool) :
    (transitionOf busy s.state o = none ∧ Quiet s.state (exec busy s.state o).1) ∨
      ∃ c seen row now, o = .updateNode c seen now ∧ busy = false ∧
        transitionOf busy s.state o = some (c, row) ∧ A c ∧
        Moves s.state (exec busy s.state o).1 c seen row now := by
  cases ht : transitionOf busy s.state o with
  | none => exact .inl ⟨rfl, exec_quiet ht fun ev he => by subst he; exact h⟩
  | some hit =>
    obtain ⟨c, row⟩ := hit
    obtain ⟨seen, now, rfl, rfl, hrow, hrev⟩ := transitionOf_eq_some ht
    obtain ⟨hA, hkey, hseen, hj⟩ := h
    refine .inr ⟨c, seen, row, now, rfl, rfl, rfl, hA, hrow, ?_, hj, ?_⟩
    · exact hs.core hseen hrow hrev
    · rw [exec_updateNode now hrow hrev]

theorem Followed.step {A : TransitionCall → Prop} (hs : Followed s) (h : Judged A s o) (i : Nat)
    (busy : Bool) : Followed (run i busy s o).1 := by
  -- the rows of the new state stand for themselves; those of the past keep their fate
  suffices hold : ∀ k r, Fate s k r → Fate (run i busy s o).1 k r by
    intro w hw k r hr
    rcases mem_cons.mp hw with rfl | hw
    · exact ⟨r, hr, .inl (SameCore.refl r)⟩
    · exact hold k r (hs w hw hr)
  rintro k r ⟨row, hrow, hfate⟩
  have hkeep : (∃ d ∈ s.log, ∃ c row0, MovedBy d k c row0 ∧ SameCore r row0) →
      ∃ d ∈ (run i busy s o).1.log, ∃ c row0, MovedBy d k c row0 ∧ SameCore r row0 := by
    rintro ⟨d, hd, hm⟩
    exact ⟨d, mem_cons_of_mem _ hd, hm⟩
  rcases h.step hs busy with ⟨-, hq⟩ | ⟨c, seen, row1, now, -, -, ht, -, hm⟩
  · obtain ⟨row', hrow', hc⟩ := hq.kept hrow
    refine ⟨row', hrow', ?_⟩
    rcases hfate with hc' | ⟨hlt, hex⟩
    · exact .inl (hc'.trans hc)
    · exact .inr ⟨by rw [hc.stateRevision]; exact hlt, hkeep hex⟩
  · have hget := hm.get k
    by_cases hk : c.key = k
    · subst hk
      have : row1 = row := Option.some.inj (hm.found.symm.trans hrow)
      subst this
      rw [if_pos rfl] at hget
      have hrev : seen.stateRevision = row1.stateRevision := hm.core.stateRevision.symm
      refine ⟨_, hget, .inr ⟨?_, ?_⟩⟩
      · rw [newRow_stateRevision, hrev]
        rcases hfate with hc | ⟨hlt, -⟩
        · rw [hc.stateRevision]
          exact Nat.lt_succ_self _
        · exact Nat.lt_succ_of_lt hlt
      · rcases hfate with hc | ⟨-, hex⟩
        · exact ⟨_, mem_cons_self, c, row1, ⟨ht, rfl⟩, hc⟩
        · exact hkeep hex
    · rw [if_neg hk] at hget
      refine ⟨row, by rw [← hrow]; exact hget, ?_⟩
      rcases hfate with hc | ⟨hlt, hex⟩
      · exact .inl hc
      · exact .inr ⟨hlt, hkeep hex⟩

/-! ## The protocol -/

/-- Every update is judged on a row that was read. Others may move the rows meanwhile, but
    they cannot undo the past nor write in one's own. -/
def discipline (A : TransitionCall → Prop) : Protocol run where
  inv := Followed
  rely i s t := (∀ w ∈ s.states, w ∈ t.states) ∧ own i t.log = own i s.log
  guar _ s o := Judged A s o
  guard := Pool.free
  rely_refl _ _ := ⟨fun _ hw => hw, rfl⟩
  rely_trans h h' := ⟨fun w hw => h'.1 w (h.1 w hw), h'.2.trans h.2⟩
  inv_step hs hg _ := hs.step hg _ _
  rely_step hij _ _ _ := ⟨states_subset_traced exec _ _ _ _, own_cons_ne hij.symm _⟩

theorem WasRow.later {t : Past} {r : NodeRow} (h : WasRow s k r)
    (hst : ∀ w ∈ s.states, w ∈ t.states) : WasRow t k r := by
  obtain ⟨w, hw, hr⟩ := h
  exact ⟨w, hst w hw, hr⟩

/-! ## `transition_node` keeps it -/

section Transition

variable {A : TransitionCall → Prop} {c : TransitionCall}

theorem getNode_ok (i n : String) : (discipline A).Ok (getNode i n) :=
  .act (fun _ _ _ => True.intro) fun r => .ret r

theorem getNode_key {w : World} {row : NodeRow}
    (h : w.node c.instanceId c.nodeId = some row) : row.key = c.key := Table.get_key h

theorem update_safe (hc : A c) {row : NodeRow} (hkey : row.key = c.key)
    (hj : c.judge row = none) (i : Nat) {s : Past} (hs : WasRow s c.key row) :
    (discipline A).Safe i Protocol.anyEnd (c.update row) s := by
  intro s1 h1 _
  refine ⟨True.intro, fun e1 _ => ?_⟩
  have hs1 : WasRow s1 c.key row := hs.later h1.1
  intro s2 h2 _
  have hs2 : WasRow s2 c.key row :=
    (hs1.later (states_subset_traced exec i e1 s1 .utcnow)).later h2.1
  refine ⟨⟨hc, hkey, hs2, hj⟩, fun e2 _ => ?_⟩
  generalize run i e2 s2 (.updateNode c row (run i e1 s1 .utcnow).2) = outcome
  obtain ⟨s3, answer⟩ := outcome
  cases answer with
  | busy => exact safe_ret _ s3
  | done hit => cases hit <;> exact safe_ret _ s3

theorem tryTransition_ok (hc : A c) : (discipline A).Ok c.tryTransition := by
  intro i s _ s1 _ _
  refine ⟨True.intro, fun e1 _ => ?_⟩
  cases e1 with
  | true => exact safe_ret _ _
  | false =>
    have hanswer : (run i false s1 (.selectNode c.instanceId c.nodeId)).2 =
        Answer.done (s1.state.node c.instanceId c.nodeId) := rfl
    rw [hanswer]
    cases hrow : s1.state.node c.instanceId c.nodeId with
    | none => exact safe_ret _ _
    | some row =>
      show (discipline A).Safe i Protocol.anyEnd (c.tryOn row) _
      cases hj : c.judge row with
      | some refusal =>
        simp only [tryOn, hj]
        exact safe_ret _ _
      | none =>
        simp only [tryOn, hj]
        have hseen : WasRow s1 c.key row := ⟨s1.state, mem_cons_self, hrow⟩
        exact update_safe hc (getNode_key hrow) hj i
          (hseen.later (states_subset_traced exec i false s1 _))

theorem rounds_ok (hc : A c) (n : Nat) : (discipline A).Ok (c.rounds n) := by
  induction n with
  | zero => exact (getNode_ok _ _).bind fun fresh => .ret _
  | succ n ih =>
    refine (tryTransition_ok hc).bind fun answer => ?_
    cases answer with
    | busy =>
      by_cases hn : n = 0
      · simp only [hn, if_true]
        exact .ret _
      · simp only [hn, if_false]
        exact ih
    | done result =>
      by_cases hcode : result.code = .casConflict
      · by_cases hcomp : c.complete
        · simp only [hcode, hcomp, ne_eq, not_true, if_false, if_true]
          refine (getNode_ok _ _).bind fun fresh => ?_
          cases c.alreadyThere fresh with
          | none => exact ih
          | some r => exact .ret r
        · simp only [hcode, hcomp, ne_eq, not_true, if_false]
          exact ih
      · simp only [hcode, ne_eq, not_false_eq_true, if_true]
        exact .ret result

theorem transitionNode_ok (hc : A c) : (discipline A).Ok (transitionNode c) := by
  by_cases hcomp : c.complete
  · simp only [transitionNode, hcomp, if_true]
    refine (getNode_ok _ _).bind fun fresh => ?_
    cases c.alreadyThere fresh with
    | none => exact rounds_ok hc maxRounds
    | some r => exact .ret r
  · simp only [transitionNode, hcomp]
    exact rounds_ok hc maxRounds

end Transition

/-! ## Clients -/

/-- The programs that change node states through `transition_node` only, asking for
    transitions of `A`: drivers, recovery sweeps, chat writers and all others. -/
inductive Client (A : TransitionCall → Prop) {α : Type} : Program α → Prop
  | done (a : α) : Client A (.ret a)
  | statement {o : Op} {k : Res o → Program α} :
      Plain o → (∀ r, Client A (k r)) → Client A (.act o k)
  | transition {c : TransitionCall} {k : TransitionResult → Program α} :
      A c → (∀ r, Client A (k r)) → Client A (transitionNode c >>= k)

variable {α : Type} {p : Program α}

theorem Client.bind {A : TransitionCall → Prop} {β : Type} {f : α → Program β} (hp : Client A p)
    (hf : ∀ a, Client A (f a)) : Client A (p >>= f) := by
  induction hp with
  | done a => exact hf a
  | statement ho _ ih => exact .statement ho ih
  | transition hc _ ih =>
    rw [Prog.bind_assoc]
    exact .transition hc ih

theorem Client.of_plain {A : TransitionCall → Prop} (hp : p.Uses Plain) : Client A p := by
  induction p with
  | ret a => exact .done a
  | act o k ih => exact .statement hp.1 fun r => ih r (hp.2 r)

theorem Client.foldEach {A : TransitionCall → Prop} {ι : Type} {f : α → ι → Program α}
    (hf : ∀ a x, Client A (f a x)) (xs : List ι) (a : α) : Client A (Prog.foldEach xs a f) := by
  induction xs generalizing a with
  | nil => exact .done a
  | cons x xs ih => exact (hf a x).bind fun b => ih b

theorem transitionNode_client {A : TransitionCall → Prop} {c : TransitionCall} (hc : A c) :
    Client A (transitionNode c) := by
  rw [← Prog.bind_ret (transitionNode c)]
  exact .transition hc .done

theorem createInstance_client {A : TransitionCall → Prop} (i owner parent : String)
    (ns : List String) : Client A (createInstance i owner parent ns) := by
  unfold createInstance
  cases createRefusal owner ns with
  | some text => exact .done _
  | none =>
    refine .statement True.intro fun now => .statement True.intro fun outcome => ?_
    cases outcome with
    | done => exact .statement True.intro fun row => .done _
    | capacityExceeded => exact .done _
    | duplicateKey => exact .done _

theorem Client.ok {A : TransitionCall → Prop} (hp : Client A p) : (discipline A).Ok p := by
  induction hp with
  | done a => exact .ret a
  | statement ho _ ih => exact .act (fun _ _ _ => Judged.of_plain ho) ih
  | transition hc _ ih => exact (transitionNode_ok hc).bind ih

end WebGis.Workflow
