/-
  The quiescence gate of a change: what a node of its plan can still hold afterwards.

  The states are read once, and nothing runs then. Until the change returns, a node that is not
  claimed can leave the state that was read only through a mark or towards states from which it
  cannot succeed without a new claim. So every node of the plan is either marked or out of the
  way of its old execution, and no later step brings that execution back.
-/
import WebGis.Workflow.Cancellation
import WebGis.Workflow.Fencing
import WebGis.Workflow.Orphans
import WebGis.Workflow.Recompute

namespace WebGis.Workflow

open Data Conc NodeState List Option ChangeApplier Pool

/-! ## Executions and marks -/

/-- The call claimed the node for an execution. -/
def claims (k : String × String) (d : Done) : Bool := (movedCall d k).any fun c => c.toState = running

/-- The call marked the node as stale. -/
def marks (k : String × String) (d : Done) : Bool := (movedCall d k).any fun c => c.toState = stale

/-- The node has been claimed, and it was not marked since the latest claim. -/
def Unmarked (k : String × String) : List Done → Prop
  | [] => False
  | d :: log => claims k d = true ∨ (marks k d = false ∧ Unmarked k log)

/-- The latest execution of the node was claimed in the calls up to `base`, and the node was
    not marked since. -/
def Outdated (k : String × String) (base log : List Done) : Prop :=
  ∃ later, log = later ++ base ∧ Unmarked k base ∧
    ∀ d ∈ later, claims k d = false ∧ marks k d = false

/-- A node that succeeded or runs does so with an execution that was marked since. -/
def Settled (k : String × String) (s : Past) : Prop :=
  ∀ row, s.state.nodes.get k = some row → row.state = succeeded ∨ row.state = running →
    ¬ Unmarked k s.log

/-- The node is not running. -/
def NotRunning (k : String × String) (s : Past) : Prop :=
  ∀ row, s.state.nodes.get k = some row → row.state ≠ running

/-- A stale node was marked after its latest claim. -/
def StaleMarked (s : Past) : Prop :=
  ∀ k row, s.state.nodes.get k = some row → row.state = stale → ¬ Unmarked k s.log

instance decidableUnmarked (k : String × String) : ∀ log, Decidable (Unmarked k log)
  | [] => isFalse id
  | d :: log =>
    have := decidableUnmarked k log
    inferInstanceAs (Decidable (claims k d = true ∨ (marks k d = false ∧ Unmarked k log)))

variable {d : Done} {log : List Done} {k : String × String}

theorem unmarked_cons_of_unmoved (h : movedCall d k = none) :
    Unmarked k (d :: log) ↔ Unmarked k log := by
  simp [Unmarked, claims, marks, h]

theorem unmarked_cons_of_moved {c : TransitionCall} (h : movedCall d k = some c) :
    Unmarked k (d :: log) ↔ c.toState = running ∨ (c.toState ≠ stale ∧ Unmarked k log) := by
  simp [Unmarked, claims, marks, h]

variable {base : List Done}

theorem Outdated.unmarked (h : Outdated k base log) : Unmarked k log := by
  obtain ⟨later, rfl, hbase, hlater⟩ := h
  induction later with
  | nil => exact hbase
  | cons d later ih =>
    rw [forall_mem_cons] at hlater
    exact .inr ⟨hlater.1.2, ih hlater.2⟩

theorem Outdated.of_cons (h : Outdated k base (d :: log)) (hb : base <:+ log) :
    Outdated k base log ∧ claims k d = false ∧ marks k d = false := by
  obtain ⟨later, hlog, hbase, hlater⟩ := h
  cases later with
  | nil =>
    have hlen := hb.length_le
    rw [← show d :: log = base from hlog, length_cons] at hlen
    omega
  | cons d' later =>
    obtain ⟨rfl, rfl⟩ := List.cons.inj hlog
    rw [forall_mem_cons] at hlater
    exact ⟨⟨later, rfl, hbase, hlater.2⟩, hlater.1⟩

/-! ## What one call does to one node -/

/-- The call leaves the row of the node alone, or is the first to write it. -/
structure Unmoved (k : String × String) (w w' : World) (d : Done) : Prop where
  call : movedCall d k = none
  kept : ∀ row, w.nodes.get k = some row → ∃ row', w'.nodes.get k = some row' ∧ SameCore row row'
  origin : ∀ row', w'.nodes.get k = some row' →
    row'.state = pending ∨ ∃ row, w.nodes.get k = some row ∧ SameCore row row'

/-- The call moves the node by the transition `c`. -/
structure MovedTo (k : String × String) (w w' : World) (d : Done) (c : TransitionCall) : Prop where
  call : movedCall d k = some c
  row : ∃ row row', w.nodes.get k = some row ∧ w'.nodes.get k = some row' ∧
    row'.state = c.toState ∧ Legal row.state c.toState

theorem node_step {A : TransitionCall → Prop} {s : Past} {o : Op} (h : Judged A s o)
    (hs : Followed s) (i : Nat) (busy : Bool) (k : String × String) :
    Unmoved k s.state (exec busy s.state o).1 ⟨i, busy, s.state, o⟩ ∨
      ∃ c, MovedTo k s.state (exec busy s.state o).1 ⟨i, busy, s.state, o⟩ c := by
  rcases h.step hs busy with ⟨ht, hq⟩ | ⟨c, seen, row, now, -, -, ht, -, hm⟩
  · refine .inl ⟨movedCall_none i ht k, fun row hrow => hq.kept hrow, fun row' hrow' => ?_⟩
    rcases Recorded.origin hq hrow' with ⟨row, hrow, -, hc⟩ | ⟨-, hf⟩
    · exact .inr ⟨row, hrow, hc⟩
    · exact .inl hf.state
  · have hget := hm.get k
    have hcall := movedCall_some i ht k
    by_cases hk : c.key = k
    · rw [if_pos hk] at hget hcall
      exact .inr ⟨c, hcall, row, _, hk ▸ hm.found, hget, rfl, hm.legal⟩
    · rw [if_neg hk] at hget hcall
      refine .inl ⟨hcall, fun row hrow => ⟨row, hget.trans hrow, SameCore.refl row⟩, ?_⟩
      exact fun row' hrow' => .inr ⟨row', hget ▸ hrow', SameCore.refl row'⟩

theorem eq_of_legal_succeeded {a : NodeState} (h : Legal a succeeded) : a = running ∨ a = stale := by
  cases a <;> first | exact .inl rfl | exact .inr rfl | exact absurd h (by decide)

section Step

variable {A : TransitionCall → Prop} {s : Past} {o : Op} (h : Judged A s o) (hs : Followed s)
  (i : Nat) (busy : Bool)

include h hs

theorem StaleMarked.step (hm : StaleMarked s) : StaleMarked (run i busy s o).1 := by
  intro k row' hrow' hstale
  rcases node_step h hs i busy k with hu | ⟨c, hmv⟩
  · rw [traced_log, unmarked_cons_of_unmoved hu.call]
    rcases hu.origin row' hrow' with hp | ⟨row, hrow, hc⟩
    · rw [hp] at hstale
      cases hstale
    · exact hm k row hrow (hc.state.symm.trans hstale)
  · obtain ⟨row, row1, -, hrow1, hto, -⟩ := hmv.row
    have heq : row1 = row' := some.inj (hrow1.symm.trans hrow')
    rw [traced_log, unmarked_cons_of_moved hmv.call, ← hto, heq, hstale]
    rintro (hr | ⟨hn, -⟩)
    · cases hr
    · exact hn rfl

/-- What steps that do not claim the node do to a node that is not running: it is still not
    running, and it is settled or has its row. -/
structure Calm (k : String × String) (s t : Past) : Prop where
  notRunning : NotRunning k t
  settled : Settled k s → Settled k t
  moved : Settled k t ∨ ∀ row, s.state.nodes.get k = some row →
    ∃ row', t.state.nodes.get k = some row' ∧ SameCore row row'

variable {k : String × String}

omit h hs in
theorem Calm.refl (hk : NotRunning k s) : Calm k s s :=
  ⟨hk, id, .inr fun row hrow => ⟨row, hrow, SameCore.refl row⟩⟩

omit h hs in
theorem Calm.trans {t u : Past} (hst : Calm k s t) (htu : Calm k t u) : Calm k s u := by
  refine ⟨htu.notRunning, fun hk => htu.settled (hst.settled hk), ?_⟩
  rcases hst.moved with hset | hkept
  · exact .inl (htu.settled hset)
  refine htu.moved.imp_right fun hkept' row hrow => ?_
  obtain ⟨row', hrow', hc⟩ := hkept row hrow
  obtain ⟨row'', hrow'', hc'⟩ := hkept' row' hrow'
  exact ⟨row'', hrow'', hc.trans hc'⟩

theorem calm_step (hm : StaleMarked s) (hk : NotRunning k s)
    (hn : claims k ⟨i, busy, s.state, o⟩ = false) : Calm k s (run i busy s o).1 := by
  rcases node_step h hs i busy k with hu | ⟨c, hmv⟩
  · refine ⟨?_, ?_, .inr hu.kept⟩
    · intro row' hrow' hrun
      rcases hu.origin row' hrow' with hp | ⟨row, hrow, hc⟩
      · rw [hp] at hrun
        cases hrun
      · exact hk row hrow (hc.state.symm.trans hrun)
    · intro hset row' hrow' hst
      rw [traced_log, unmarked_cons_of_unmoved hu.call]
      rcases hu.origin row' hrow' with hp | ⟨row, hrow, hc⟩
      · rw [hp] at hst
        rcases hst with hst | hst <;> cases hst
      · rw [hc.state] at hst
        exact hset row hrow hst
  · obtain ⟨row, row', hrow, hrow', hto, hlegal⟩ := hmv.row
    have hnr : c.toState ≠ running := by
      unfold claims at hn
      rw [hmv.call] at hn
      simpa using hn
    -- a node that moves is settled: it succeeds only from a state that was marked
    have hset : Settled k (run i busy s o).1 := by
      intro row1 hrow1 hst
      have heq : row' = row1 := some.inj (hrow'.symm.trans hrow1)
      rw [← heq, hto] at hst
      have hsucc : c.toState = succeeded := hst.resolve_right hnr
      rw [traced_log, unmarked_cons_of_moved hmv.call]
      rintro (hr | ⟨-, hum⟩)
      · exact hnr hr
      · rw [hsucc] at hlegal
        rcases eq_of_legal_succeeded hlegal with hr | hst
        · exact hk row hrow hr
        · exact hm k row hrow hst hum
    refine ⟨?_, fun _ => hset, .inl hset⟩
    intro row1 hrow1
    have heq : row' = row1 := some.inj (hrow'.symm.trans hrow1)
    rw [← heq, hto]
    exact hnr

theorem current_step (hm : StaleMarked s) {base : List Done} (hb : base <:+ s.log)
    (hk : ∀ row, s.state.nodes.get k = some row → row.state = succeeded ∨ row.state = running →
      ¬ Outdated k base s.log) :
    ∀ row, (run i busy s o).1.state.nodes.get k = some row →
      row.state = succeeded ∨ row.state = running → ¬ Outdated k base (run i busy s o).1.log := by
  intro row' hrow' hst hout
  obtain ⟨hold, hnc, -⟩ := hout.of_cons hb
  rcases node_step h hs i busy k with hu | ⟨c, hmv⟩
  · rcases hu.origin row' hrow' with hp | ⟨row, hrow, hc⟩
    · rw [hp] at hst
      rcases hst with hst | hst <;> cases hst
    · rw [hc.state] at hst
      exact hk row hrow hst hold
  · obtain ⟨row, row1, hrow, hrow1, hto, hlegal⟩ := hmv.row
    have heq : row1 = row' := some.inj (hrow1.symm.trans hrow')
    rw [← heq, hto] at hst
    have hnr : c.toState ≠ running := by
      unfold claims at hnc
      rw [hmv.call] at hnc
      simpa using hnc
    rw [hst.resolve_right hnr] at hlegal
    rcases eq_of_legal_succeeded hlegal with hr | hst
    · exact hk row hrow (.inr hr) hold
    · exact hm k row hrow hst hold.unmarked

end Step

/-! ## The window of a change -/

/-- Process `i` has listed the nodes of the instance. -/
def listed (i : Nat) (instanceId : String) (log : List Done) : Bool :=
  (own i log).any (lists instanceId)

/-- The node that a statement of a transition is about. -/
def Op.nodeOf : Op → Option (String × String)
  | .selectNode i n => some (i, n)
  | .updateNode c _ _ => some c.key
  | _ => none

/-- How often process `i` found the database busy on the node. -/
def busyOn (i : Nat) (k : String × String) (log : List Done) : Nat :=
  (own i log).countP fun d => d.env && d.op.nodeOf = some k

/-- From the listing of process `i₀` on, nobody claims one of the nodes; and none of its
    transitions finds the database busy in all its rounds. -/
def Undisturbed (i₀ : Nat) (instanceId : String) (nodeIds : List String) (i : Nat) (busy : Bool)
    (s : Past) (o : Op) : Prop :=
  (listed i₀ instanceId s.log = true →
      ∀ n ∈ nodeIds, claims (instanceId, n) ⟨i, busy, s.state, o⟩ = false) ∧
    (i = i₀ → busy = true → ∀ k ∈ o.nodeOf, busyOn i₀ k s.log + 1 < maxRounds)

instance (i₀ : Nat) (instanceId : String) (nodeIds : List String) (i : Nat) (busy : Bool)
    (s : Past) (o : Op) : Decidable (Undisturbed i₀ instanceId nodeIds i busy s o) :=
  inferInstanceAs (Decidable ((listed i₀ instanceId s.log = true →
      ∀ n ∈ nodeIds, claims (instanceId, n) ⟨i, busy, s.state, o⟩ = false) ∧
    (i = i₀ → busy = true → ∀ k ∈ o.nodeOf, busyOn i₀ k s.log + 1 < maxRounds)))

theorem listed_cons {i j : Nat} {iid : String} {busy : Bool} {w : World} {o : Op}
    (h : listed i iid log = true) : listed i iid (⟨j, busy, w, o⟩ :: log) = true := by
  unfold listed at h ⊢
  by_cases hij : j = i
  · subst hij
    rw [own_cons_self ⟨j, busy, w, o⟩ log, List.any_cons, h, Bool.or_true]
  · rw [own_cons_ne hij]
    exact h

/-- What process `i₀` relies on once it has listed the nodes. -/
def CalmSince (i₀ : Nat) (instanceId : String) (nodeIds : List String) (i : Nat) (s t : Past) :
    Prop :=
  i = i₀ → listed i instanceId s.log = true → listed i instanceId t.log = true ∧
    ∀ n ∈ nodeIds, NotRunning (instanceId, n) s → Calm (instanceId, n) s t

section Window

variable (i₀ : Nat) (instanceId : String) (nodeIds : List String)

/-- The discipline in a run that does not disturb the change of process `i₀`. -/
def undisturbedDiscipline : Protocol run :=
  (discipline anyCall).strengthen StaleMarked (Undisturbed i₀ instanceId nodeIds)
    fun {i busy _ _} hs hm hg _ _ => hm.step hg hs i busy

/-- The same, where process `i₀` relies on the calm of its nodes. -/
def window : Protocol run :=
  (undisturbedDiscipline i₀ instanceId nodeIds).assume (CalmSince i₀ instanceId nodeIds)
    (fun _ _ _ hl => ⟨hl, fun _ _ hk => Calm.refl hk⟩)
    (fun _ _ _ _ hst htu hi hl => by
      obtain ⟨hlt, hcalm⟩ := hst hi hl
      obtain ⟨hlu, hcalm'⟩ := htu hi hlt
      refine ⟨hlu, fun n hn hk => ?_⟩
      have hnt := hcalm n hn hk
      exact hnt.trans (hcalm' n hn hnt.notRunning))
    (fun _ j busy _ _ _ hinv hg hguard hi hl =>
      ⟨listed_cons hl, fun n hn hk =>
        calm_step hg hinv.1 j busy hinv.2 hk (hguard.2.1 (hi ▸ hl) n hn)⟩)

end Window

section Process

variable {i₀ : Nat} {iid : String} {nodeIds : List String}

theorem window_ok {α : Type} {p : Program α} (h : (discipline anyCall).Ok p) :
    (window i₀ iid nodeIds).Ok p := by
  intro i s hs
  have hsafe : (undisturbedDiscipline i₀ iid nodeIds).Safe i Protocol.anyEnd p s :=
    h.strengthen i s hs
  exact hsafe.assume

/-- The process has listed the nodes, and the node is not running. -/
structure Watched (i₀ : Nat) (iid n : String) (s : Past) : Prop where
  listed : listed i₀ iid s.log = true
  notRunning : NotRunning (iid, n) s

variable {s t : Past} {n : String} (hn : n ∈ nodeIds)

include hn

theorem Watched.rely (hw : Watched i₀ iid n s) (h : (window i₀ iid nodeIds).rely i₀ s t) :
    Watched i₀ iid n t ∧ Calm (iid, n) s t := by
  obtain ⟨hl, hcalm⟩ := h.2 rfl hw.listed
  have hk := hcalm n hn hw.notRunning
  exact ⟨⟨hl, hk.notRunning⟩, hk⟩

theorem Watched.own {o : Op} {busy : Bool} (hw : Watched i₀ iid n s)
    (hs : (window i₀ iid nodeIds).inv s) (hg : (window i₀ iid nodeIds).guar i₀ s o)
    (he : (window i₀ iid nodeIds).guard i₀ busy s o) :
    Watched i₀ iid n (run i₀ busy s o).1 ∧ Calm (iid, n) s (run i₀ busy s o).1 := by
  have hcalm := calm_step hg hs.1 i₀ busy hs.2 hw.notRunning (he.2.1 hw.listed n hn)
  exact ⟨⟨listed_cons hw.listed, hcalm.notRunning⟩, hcalm⟩

theorem settled_frame {α : Type} {p : Program α} (hp : (discipline anyCall).Ok p)
    (hs : (window i₀ iid nodeIds).inv s) (hw : Watched i₀ iid n s) (hset : Settled (iid, n) s) :
    (window i₀ iid nodeIds).Safe i₀ (fun _ t => Watched i₀ iid n t ∧ Settled (iid, n) t) p s := by
  have hall : p.Uses fun _ => True := by
    clear hp
    induction p with
    | ret a => trivial
    | act o k ih => exact ⟨trivial, ih⟩
  refine ((window_ok hp i₀ s hs).frame (fun t => Watched i₀ iid n t ∧ Settled (iid, n) t) hall
    ⟨hw, hset⟩ ?_ ?_).weaken fun _ _ _ h => h.2
  · rintro u v hr ⟨hwu, hsu⟩
    obtain ⟨hwv, hcalm⟩ := hwu.rely hn hr
    exact ⟨hwv, hcalm.settled hsu⟩
  · rintro busy u o hinv hg he - ⟨hwu, hsu⟩
    obtain ⟨hwv, hcalm⟩ := hwu.own hn hinv hg he
    exact ⟨hwv, hcalm.settled hsu⟩

end Process

/-! ## One marking -/

theorem busyOn_of_own_eq {i : Nat} {log' : List Done} (h : own i log' = own i log)
    (k : String × String) : busyOn i k log' = busyOn i k log := by
  rw [busyOn, h]
  rfl

theorem busyOn_cons (i : Nat) (busy : Bool) (w : World) (o : Op) (log : List Done)
    (k : String × String) : busyOn i k (⟨i, busy, w, o⟩ :: log) =
      busyOn i k log + if busy && o.nodeOf = some k then 1 else 0 := by
  have hown : own i (⟨i, busy, w, o⟩ :: log) = ⟨i, busy, w, o⟩ :: own i log :=
    own_cons_self ⟨i, busy, w, o⟩ log
  rw [busyOn, hown, countP_cons]
  rfl

/-- The node is settled, or its row is the one that was read. -/
def SettledOr (k : String × String) (row : NodeRow) (s : Past) : Prop :=
  Settled k s ∨ ∃ row', s.state.nodes.get k = some row' ∧ SameCore row row'

variable {row : NodeRow}

theorem SettledOr.calm {s t : Past} (h : SettledOr k row s) (hst : Calm k s t) :
    SettledOr k row t := by
  rcases h with hset | ⟨row1, hrow1, hc⟩
  · exact .inl (hst.settled hset)
  refine hst.moved.imp_right fun hkept => ?_
  obtain ⟨row2, hrow2, hc'⟩ := hkept row1 hrow1
  exact ⟨row2, hrow2, hc.trans hc'⟩

section Marking

variable {i₀ : Nat} {iid : String} {nodeIds : List String} {n : String} {dims : List String}
  (hn : n ∈ nodeIds)

/-- What a round leaves behind: the node is settled, or the database was busy once more and
    may be busy again. -/
def RoundEnd (i₀ : Nat) (iid n : String) (b : Nat) (a : Answer TransitionResult) (t : Past) : Prop :=
  Watched i₀ iid n t ∧ (Settled (iid, n) t ∨
    a = .busy ∧ busyOn i₀ (iid, n) t.log = b + 1 ∧ b + 1 < maxRounds)

include hn

variable {a : Answer TransitionResult}

theorem roundEnd_ret {b : Nat} {t : Past} (h : RoundEnd i₀ iid n b a t) :
    (window i₀ iid nodeIds).Safe i₀ (RoundEnd i₀ iid n b) (.ret a) t := by
  intro t' hr _
  obtain ⟨hw, hend⟩ := h
  obtain ⟨hw', hcalm⟩ := hw.rely hn hr
  refine ⟨hw', hend.imp hcalm.settled ?_⟩
  rintro ⟨ha, hb, hlt⟩
  exact ⟨ha, (busyOn_of_own_eq hr.1.2 _).trans hb, hlt⟩

theorem settled_ret {b : Nat} {t : Past} (hw : Watched i₀ iid n t) (hset : Settled (iid, n) t) :
    (window i₀ iid nodeIds).Safe i₀ (RoundEnd i₀ iid n b) (.ret a) t :=
  roundEnd_ret hn ⟨hw, .inl hset⟩

theorem busy_end {o : Op} {s : Past} (hw : Watched i₀ iid n s)
    (hs : (window i₀ iid nodeIds).inv s) (hg : (window i₀ iid nodeIds).guar i₀ s o)
    (he : (window i₀ iid nodeIds).guard i₀ true s o) (ho : o.nodeOf = some (iid, n)) :
    (window i₀ iid nodeIds).Safe i₀ (RoundEnd i₀ iid n (busyOn i₀ (iid, n) s.log)) (.ret .busy)
      (run i₀ true s o).1 := by
  obtain ⟨hw', -⟩ := hw.own hn hs hg he
  refine roundEnd_ret hn ⟨hw', .inr ⟨rfl, ?_, he.2.2 rfl rfl _ ho⟩⟩
  rw [traced_log, busyOn_cons, ho]
  simp

variable {row : NodeRow}

omit hn in
/-- An update that is not busy settles the node, by its mark or because someone was faster. -/
theorem settled_update {s : Past} (now : Nat)
    (hcalm : Calm (iid, n) s (run i₀ false s (.updateNode (staleCall iid n dims) row now)).1)
    (hrow : SettledOr (iid, n) row s) :
    Settled (iid, n) (run i₀ false s (.updateNode (staleCall iid n dims) row now)).1 := by
  rcases hrow with hset | ⟨row', hrow', hc⟩
  · exact hcalm.settled hset
  -- nobody moved the row, so the update goes through
  intro row3 hrow3 hst
  have hfound : s.state.nodes.get (staleCall iid n dims).key = some row' := hrow'
  rw [traced_state, exec_updateNode now hfound hc.stateRevision] at hrow3
  have hkey : ((staleCall iid n dims).newRow row now row').key = (iid, n) :=
    (rfl : _ = row'.key).trans (Table.get_key hrow')
  have hself : s.state.nodes.get ((staleCall iid n dims).newRow row now row').key =
      some row' := by rw [hkey, hrow']
  have hput := Table.get_put_self hself
  rw [hkey] at hput
  have heq := some.inj (hput.symm.trans hrow3)
  rw [← heq] at hst
  rcases hst with hst | hst <;> cases hst

/-- The update of a marking settles the node, by its mark or because someone was faster. -/
theorem update_end {s : Past} (hw : Watched i₀ iid n s) (hrow : SettledOr (iid, n) row s)
    (hwas : WasRow s (iid, n) row) (hkey : row.key = (staleCall iid n dims).key)
    (hj : (staleCall iid n dims).judge row = none) :
    (window i₀ iid nodeIds).Safe i₀ (RoundEnd i₀ iid n (busyOn i₀ (iid, n) s.log))
      ((staleCall iid n dims).update row) s := by
  intro s1 h1 hi1
  obtain ⟨hw1, hcalm1⟩ := hw.rely hn h1
  have hg1 : (window i₀ iid nodeIds).guar i₀ s1 .utcnow := trivial
  refine ⟨hg1, fun e1 he1 s2 h2 hi2 => ?_⟩
  obtain ⟨hw1', hcalm1'⟩ := hw1.own hn hi1 hg1 he1
  obtain ⟨hw2, hcalm2⟩ := hw1'.rely hn h2
  have hrow2 : SettledOr (iid, n) row s2 := ((hrow.calm hcalm1).calm hcalm1').calm hcalm2
  have hwas2 : WasRow s2 (iid, n) row :=
    ((hwas.later h1.1.1).later (states_subset_traced exec i₀ e1 s1 .utcnow)).later h2.1.1
  have hbusy2 : busyOn i₀ (iid, n) s2.log = busyOn i₀ (iid, n) s.log := by
    rw [busyOn_of_own_eq h2.1.2, traced_log, busyOn_cons, busyOn_of_own_eq h1.1.2]
    simp [Op.nodeOf]
  have hg2 : (window i₀ iid nodeIds).guar i₀ s2
      (.updateNode (staleCall iid n dims) row (run i₀ e1 s1 .utcnow).2) :=
    ⟨trivial, hkey, hwas2, hj⟩
  refine ⟨hg2, fun e2 he2 => ?_⟩
  cases e2 with
  | true =>
    rw [← hbusy2]
    exact busy_end hn hw2 hi2 hg2 he2 rfl
  | false =>
    obtain ⟨hw3, hcalm3⟩ := hw2.own hn hi2 hg2 he2
    have hset3 := settled_update _ hcalm3 hrow2
    generalize run i₀ false s2
      (.updateNode (staleCall iid n dims) row (run i₀ e1 s1 .utcnow).2) = outcome at hw3 hset3
    obtain ⟨s3, answer⟩ := outcome
    cases answer with
    | busy => exact settled_ret hn hw3 hset3
    | done hit => cases hit <;> exact settled_ret hn hw3 hset3

theorem tryTransition_end {s : Past} (hw : Watched i₀ iid n s) :
    (window i₀ iid nodeIds).Safe i₀ (RoundEnd i₀ iid n (busyOn i₀ (iid, n) s.log))
      (staleCall iid n dims).tryTransition s := by
  intro s1 h1 hi1
  obtain ⟨hw1, -⟩ := hw.rely hn h1
  have hbusy1 : busyOn i₀ (iid, n) s1.log = busyOn i₀ (iid, n) s.log :=
    busyOn_of_own_eq h1.1.2 _
  have hg1 : (window i₀ iid nodeIds).guar i₀ s1 (.selectNode iid n) := trivial
  refine ⟨hg1, fun e1 he1 => ?_⟩
  cases e1 with
  | true =>
    rw [← hbusy1]
    exact busy_end hn hw1 hi1 hg1 he1 rfl
  | false =>
    obtain ⟨hw2, hcalm⟩ := hw1.own hn hi1 hg1 he1
    have hbusy2 : busyOn i₀ (iid, n) (run i₀ false s1 (.selectNode iid n)).1.log =
        busyOn i₀ (iid, n) s.log := by
      rw [traced_log, busyOn_cons, hbusy1]
      simp
    have hanswer : (run i₀ false s1 (.selectNode (staleCall iid n dims).instanceId
        (staleCall iid n dims).nodeId)).2 = Answer.done (s1.state.node iid n) := rfl
    rw [hanswer]
    cases hrow : s1.state.node iid n with
    | none =>
      refine settled_ret hn hw2 (hcalm.settled ?_)
      intro row hrow'
      rw [show s1.state.nodes.get (iid, n) = none from hrow] at hrow'
      cases hrow'
    | some row =>
      show (window i₀ iid nodeIds).Safe i₀ _ ((staleCall iid n dims).tryOn row) _
      unfold TransitionCall.tryOn
      cases hj : (staleCall iid n dims).judge row with
      | some refusal =>
        refine settled_ret hn hw2 (hcalm.settled ?_)
        intro row' hrow' hst
        have heq : row = row' := some.inj (hrow.symm.trans hrow')
        rw [← heq] at hst
        have hsucc := hst.resolve_right (hw1.notRunning row hrow)
        have hnone : (staleCall iid n dims).judge row = none := by
          refine judge_eq_none.mpr ⟨fun hc => (by cases hc), ?_, fun _ he => (by cases he)⟩
          rw [hsucc]
          exact (by decide : Legal succeeded stale)
        rw [hnone] at hj
        cases hj
      | none =>
        rw [← hbusy2]
        refine update_end hn hw2 ?_ ?_ (getNode_key hrow) hj
        · exact SettledOr.calm (.inr ⟨row, hrow, SameCore.refl row⟩) hcalm
        · have hseen : WasRow s1 (iid, n) row := ⟨s1.state, mem_cons_self, hrow⟩
          exact hseen.later (states_subset_traced exec i₀ false s1 _)

theorem rounds_end (r : Nat) {s : Past} (hs : (window i₀ iid nodeIds).inv s)
    (hw : Watched i₀ iid n s) (hr : r ≠ 0) (hb : maxRounds ≤ busyOn i₀ (iid, n) s.log + r) :
    (window i₀ iid nodeIds).Safe i₀ (fun _ t => Watched i₀ iid n t ∧ Settled (iid, n) t)
      ((staleCall iid n dims).rounds r) s := by
  induction r generalizing s with
  | zero => exact absurd rfl hr
  | succ r ih =>
    refine (tryTransition_end hn hw).bind hs fun answer t ht hround => ?_
    obtain ⟨hwt, hround⟩ := hround
    cases answer with
    | busy =>
      by_cases hr : r = 0
      · simp only [hr, if_true]
        refine settled_frame hn (.ret _) ht hwt (hround.resolve_right ?_)
        rintro ⟨-, -, hlt⟩
        omega
      · simp only [hr, if_false]
        rcases hround with hset | ⟨-, hbt, -⟩
        · exact settled_frame hn (rounds_ok trivial r) ht hwt hset
        · exact ih ht hwt hr (by omega)
    | done result =>
      have hset : Settled (iid, n) t := hround.resolve_right fun h => (by cases h.1)
      by_cases hcode : result.code = .casConflict
      · simp only [hcode, ne_eq, not_true, if_false]
        exact settled_frame hn (rounds_ok trivial r) ht hwt hset
      · simp only [hcode, ne_eq, not_false_eq_true, if_true]
        exact settled_frame hn (.ret _) ht hwt hset

theorem mark_end {s : Past} (hs : (window i₀ iid nodeIds).inv s) (hw : Watched i₀ iid n s)
    (hb : busyOn i₀ (iid, n) s.log = 0) :
    (window i₀ iid nodeIds).Safe i₀ (fun _ t => Watched i₀ iid n t ∧ Settled (iid, n) t)
      (transitionNode (staleCall iid n dims)) s :=
  rounds_end hn maxRounds hs hw (by decide) (by omega)

end Marking

/-! ## The marking of a plan -/

section Plan

variable {i₀ : Nat} {iid : String} {plan : RecomputePlan}

/-- While the nodes `rest` are still to be marked: the node is settled, or it is one of them and
    has the state that was read. -/
structure Outstanding (i₀ : Nat) (iid : String) (states : States) (n : String)
    (rest : List String) (s : Past) : Prop where
  watched : Watched i₀ iid n s
  node : Settled (iid, n) s ∨ n ∈ rest ∧ busyOn i₀ (iid, n) s.log = 0 ∧
    ∃ row, s.state.nodes.get (iid, n) = some row ∧ states.find n = some row.state

variable {states : States} {n x : String} {rest : List String} {s t : Past}

theorem Outstanding.calm (h : Outstanding i₀ iid states n rest s) (hw : Watched i₀ iid n t)
    (hst : Calm (iid, n) s t) (hb : busyOn i₀ (iid, n) t.log = busyOn i₀ (iid, n) s.log) :
    Outstanding i₀ iid states n rest t := by
  refine ⟨hw, ?_⟩
  rcases h.node with hset | ⟨hn, hbusy, row, hrow, hfind⟩
  · exact .inl (hst.settled hset)
  refine hst.moved.imp_right fun hkept => ?_
  obtain ⟨row', hrow', hc⟩ := hkept row hrow
  exact ⟨hn, hb.trans hbusy, row', hrow', hc.state ▸ hfind⟩

theorem Outstanding.of_settled (hw : Watched i₀ iid n s) (hset : Settled (iid, n) s) :
    Outstanding i₀ iid states n rest s := ⟨hw, .inl hset⟩

theorem Outstanding.skip (h : Outstanding i₀ iid states n (x :: rest) s)
    (hx : markable (states.find x) = false) : Outstanding i₀ iid states n rest s := by
  refine ⟨h.watched, ?_⟩
  rcases h.node with hset | ⟨hn, hbusy, row, hrow, hfind⟩
  · exact .inl hset
  rcases mem_cons.mp hn with rfl | hn
  · left
    intro row' hrow' hst
    have heq : row = row' := some.inj (hrow.symm.trans hrow')
    rw [← heq] at hst
    have hsucc := hst.resolve_right (h.watched.notRunning row hrow)
    rw [hfind, hsucc] at hx
    cases hx
  · exact .inr ⟨hn, hbusy, row, hrow, hfind⟩

theorem Outstanding.other (h : Outstanding i₀ iid states n (x :: rest) s) (hne : n ≠ x)
    {states' : States} (hf : states'.find n = states.find n) :
    Outstanding i₀ iid states' n rest s := by
  refine ⟨h.watched, h.node.imp_right ?_⟩
  rintro ⟨hn, hbusy, row, hrow, hfind⟩
  exact ⟨(mem_cons.mp hn).resolve_left hne, hbusy, row, hrow, hf.trans hfind⟩

section

variable {nodeIds : List String}

theorem Outstanding.rely (hn : n ∈ nodeIds) (h : Outstanding i₀ iid states n rest s)
    (hr : (window i₀ iid nodeIds).rely i₀ s t) : Outstanding i₀ iid states n rest t := by
  obtain ⟨hw, hcalm⟩ := h.watched.rely hn hr
  exact h.calm hw hcalm (busyOn_of_own_eq hr.1.2 _)

theorem transition_end {dims : List String} (hx : x ∈ nodeIds) (hs : (window i₀ iid nodeIds).inv s)
    (hall : ∀ n ∈ nodeIds, Outstanding i₀ iid states n (x :: rest) s) :
    (window i₀ iid nodeIds).Safe i₀
      (fun _ t => (Watched i₀ iid x t ∧ Settled (iid, x) t) ∧
        ∀ n ∈ nodeIds, n ≠ x → Outstanding i₀ iid states n (x :: rest) t)
      (transitionNode (staleCall iid x dims)) s := by
  have hone : (window i₀ iid nodeIds).Safe i₀
      (fun _ t => Watched i₀ iid x t ∧ Settled (iid, x) t)
      (transitionNode (staleCall iid x dims)) s := by
    rcases (hall x hx).node with hset | ⟨-, hbusy, -⟩
    · exact settled_frame hx (transitionNode_ok trivial) hs (hall x hx).watched hset
    · exact mark_end hx hs (hall x hx).watched hbusy
  refine hone.frame (A := fun o => ∀ k ∈ o.nodeOf, k = (iid, x)) _ ?_
    (fun n hn _ => hall n hn) ?_ ?_
  · refine transitionNode_uses _ ?_ ?_ ?_ ?_
    · exact fun k hk => by cases hk
    · exact fun k hk => (some.inj hk).symm
    · exact fun k hk => by cases hk
    · exact fun _ _ k hk => (some.inj hk).symm
  · exact fun u v hr h n hn hne => (h n hn hne).rely hn hr
  · intro busy u o hinv hg he ho h n hn hne
    obtain ⟨hw, hcalm⟩ := (h n hn hne).watched.own hn hinv hg he
    refine (h n hn hne).calm hw hcalm ?_
    have hother : o.nodeOf ≠ some (iid, n) := fun hk => hne (Prod.mk.inj (ho _ hk)).2
    rw [traced_log, busyOn_cons]
    simp [hother]

end

theorem markOne_end {acc : States × List String} (hx : x ∈ plan.recompute)
    (hs : (window i₀ iid plan.recompute).inv s)
    (hall : ∀ n ∈ plan.recompute, Outstanding i₀ iid acc.1 n (x :: rest) s) :
    (window i₀ iid plan.recompute).Safe i₀
      (fun acc' t => ∀ n ∈ plan.recompute, Outstanding i₀ iid acc'.1 n rest t)
      (markOne iid plan acc x) s := by
  unfold markOne
  split
  · refine (transition_end hx hs hall).bind hs fun r t _ hend => ?_
    intro t' hr _ n hn
    by_cases hne : n = x
    · rw [hne]
      obtain ⟨hw, hcalm⟩ := hend.1.1.rely hx hr
      exact .of_settled hw (hcalm.settled hend.1.2)
    · refine ((hend.2 n hn hne).rely hn hr).other hne ?_
      split
      · exact Dict.find_set_ne _ _ (Ne.symm hne)
      · rfl
  · rename_i hnot
    rw [Bool.not_eq_true] at hnot
    intro t hr _ n hn
    exact ((hall n hn).rely hn hr).skip hnot

theorem markPlan_end (hstyle : isStyleOnly plan = false) (hs : (window i₀ iid plan.recompute).inv s)
    (hall : ∀ n ∈ plan.recompute, Outstanding i₀ iid states n plan.recompute s) :
    (window i₀ iid plan.recompute).Safe i₀
      (fun _ t => ∀ n ∈ plan.recompute, Watched i₀ iid n t ∧ Settled (iid, n) t)
      (markPlan iid plan states) s := by
  unfold markPlan
  rw [hstyle]
  have hloop := Protocol.Safe.foldEach (C := window i₀ iid plan.recompute)
    (f := markOne iid plan)
    (fun rest acc t => rest ⊆ plan.recompute ∧
      ∀ n ∈ plan.recompute, Outstanding i₀ iid acc.1 n rest t)
    (fun x rest acc t ht hI => by
      have hx := hI.1 mem_cons_self
      exact (markOne_end hx ht hI.2).weaken fun _ _ _ hend =>
        ⟨fun y hy => hI.1 (mem_cons_of_mem x hy), hend⟩)
    (fun acc u v hr hI => ⟨hI.1, fun n hn => (hI.2 n hn).rely hn hr⟩)
    plan.recompute (a := (states, [])) hs ⟨fun _ hx => hx, hall⟩
  refine hloop.bind hs fun out t _ hend => ?_
  intro t' hr _ n hn
  have hout := (hend.2 n hn).rely hn hr
  exact ⟨hout.watched, hout.node.resolve_right fun h => not_mem_nil h.1⟩

end Plan

/-! ## The change -/

theorem markOne_client {A : TransitionCall → Prop}
    (hA : ∀ iid nid dims, A (staleCall iid nid dims)) (iid : String) (plan : RecomputePlan)
    (acc : States × List String) (nodeId : String) :
    Client A (markOne iid plan acc nodeId) := by
  unfold markOne
  split
  · exact (transitionNode_client (hA _ _ _)).bind fun r => .done _
  · exact .done _

theorem markPlan_client {A : TransitionCall → Prop}
    (hA : ∀ iid nid dims, A (staleCall iid nid dims)) (iid : String) (plan : RecomputePlan)
    (states : States) : Client A (markPlan iid plan states) := by
  unfold markPlan
  split
  · exact .done _
  · exact (Client.foldEach (fun acc nid => markOne_client hA iid plan acc nid) _ _).bind
      fun out => .done _

section Change

variable (A : ChangeApplier) (iid : String)

theorem appendRounds_plain (decision : RecomputeDecision) (r : Nat) (inst : InstanceRow) :
    (A.appendRounds iid decision r inst).Uses Plain := by
  induction r generalizing inst with
  | zero => trivial
  | succ r ih =>
    refine Prog.uses_bind (updateInstance_plain _ _ _ _) fun updated => ?_
    cases updated with
    | some row => trivial
    | none =>
      refine ⟨True.intro, fun fresh => ?_⟩
      cases fresh with
      | none => trivial
      | some row => exact ih row

theorem deferRounds_plain (changes : List PendingChange) (source : String) (r : Nat)
    (inst : InstanceRow) : (A.deferRounds iid changes source r inst).Uses Plain := by
  induction r generalizing inst with
  | zero => trivial
  | succ r ih =>
    unfold deferRounds
    split
    · trivial
    refine Prog.uses_bind (updateInstance_plain _ _ _ _) fun updated => ?_
    cases updated with
    | some row => trivial
    | none =>
      refine ⟨True.intro, fun fresh => ?_⟩
      cases fresh with
      | none => trivial
      | some row => exact ih row

theorem deferRounds_returns (changes : List PendingChange) (source : String) (r : Nat)
    (inst : InstanceRow) :
    (A.deferRounds iid changes source r inst).Returns fun out => out.applied = false := by
  induction r generalizing inst with
  | zero => exact rfl
  | succ r ih =>
    unfold deferRounds
    split
    · exact rfl
    refine Prog.returns_bind fun updated => ?_
    cases updated with
    | some row => exact rfl
    | none =>
      intro fresh
      cases fresh with
      | none => exact rfl
      | some row => exact ih row

variable {B : TransitionCall → Prop}

theorem applyPlan_client (hB : ∀ iid nid dims, B (staleCall iid nid dims)) (inst : InstanceRow)
    (plan : RecomputePlan) (states : States) (changes : List PendingChange) (seq : Nat) :
    Client B (A.applyPlan iid inst plan states changes seq) :=
  (markPlan_client hB iid plan states).bind fun _ =>
    (Client.of_plain (appendRounds_plain A iid _ _ _)).bind fun _ => .done _

theorem apply_client (hB : ∀ iid nid dims, B (staleCall iid nid dims)) (dag : WorkflowDAG)
    (changes : List PendingChange) (seq : Nat) (source : String) :
    Client B (A.apply iid dag changes seq source) := by
  refine .statement True.intro fun inst => ?_
  cases inst with
  | none => exact .done _
  | some inst =>
    refine .statement True.intro fun rows => ?_
    show Client B (if _ then _ else if _ then _ else _)
    split
    · exact .of_plain (deferRounds_plain A iid _ _ _ _)
    · split
      · exact .done _
      · exact applyPlan_client A iid hB _ _ _ _ _

variable {A iid} {i₀ : Nat} {plan : RecomputePlan} {s : Past}

/-- What an applied change ends in: its plan, with every node of it settled. -/
def Applied (iid : String) (plan : RecomputePlan) (r : ChangeResult) (t : Past) : Prop :=
  r.applied = true → r.plan = some (plan.recompute, plan.reuse) ∧
    ∀ n ∈ plan.recompute, Settled (iid, n) t

theorem applied_of_not {r : ChangeResult} {t : Past} (h : r.applied = false) :
    Applied iid plan r t := by
  intro happ
  rw [h] at happ
  cases happ

theorem outstanding_of_listing (hl : listed i₀ iid s.log = true)
    (hown : ∀ k, busyOn i₀ k s.log = 0) {states : States}
    (hstates : ∀ n, states.find n = s.state.stateOf (iid, n))
    (hrun : ∀ p ∈ states.items, p.2 ≠ running) {n : String} {rest : List String} (hn : n ∈ rest) :
    Outstanding i₀ iid states n rest s := by
  have hstate : ∀ row, s.state.nodes.get (iid, n) = some row → states.find n = some row.state := by
    intro row hrow
    rw [hstates, World.stateOf, hrow]
    rfl
  refine ⟨⟨hl, fun row hrow => ?_⟩, ?_⟩
  · exact hrun (n, row.state) (Dict.find_eq_some.mp (hstate row hrow))
  · cases hrow : s.state.nodes.get (iid, n) with
    | none => exact .inl fun row h => by rw [hrow] at h; cases h
    | some row => exact .inr ⟨hn, hown _, row, rfl, hstate row hrow⟩

variable {changes : List PendingChange}

theorem applyPlan_end {inst : InstanceRow} {states : States} {seq : Nat}
    (hstyle : isStyleOnly plan = false) (hs : (window i₀ iid plan.recompute).inv s)
    (hall : ∀ n ∈ plan.recompute, Outstanding i₀ iid states n plan.recompute s) :
    (window i₀ iid plan.recompute).Safe i₀ (Applied iid plan)
      (A.applyPlan iid inst plan states changes seq) s := by
  refine (markPlan_end hstyle hs hall).bind hs fun marked t ht hset => ?_
  have hplain := appendRounds_plain A iid (A.decisionOf plan changes seq marked) maxCasAttempts inst
  have hok : (window i₀ iid plan.recompute).Ok
      (A.appendRounds iid (A.decisionOf plan changes seq marked) maxCasAttempts inst) :=
    window_ok (Client.of_plain hplain).ok
  have happend := (hok i₀ t ht).frame (A := Plain)
      (fun u => ∀ n ∈ plan.recompute, Watched i₀ iid n u ∧ Settled (iid, n) u) hplain hset
      (fun u v hr h n hn => by
        obtain ⟨hw, hcalm⟩ := (h n hn).1.rely hn hr
        exact ⟨hw, hcalm.settled (h n hn).2⟩)
      (fun busy u o hinv hg he _ h n hn => by
        obtain ⟨hw, hcalm⟩ := (h n hn).1.own hn hinv hg he
        exact ⟨hw, hcalm.settled (h n hn).2⟩)
  refine happend.bind ht fun _ u _ hend => ?_
  intro v hr _ _
  refine ⟨rfl, fun n hn => ?_⟩
  obtain ⟨-, hcalm⟩ := (hend.2 n hn).1.rely hn hr
  exact hcalm.settled (hend.2 n hn).2

theorem apply_end {dag : WorkflowDAG} {seq : Nat} {source : String}
    (hstyle : isStyleOnly (planForChanges dag changes) = false)
    (hs : (window i₀ iid (planForChanges dag changes).recompute).inv s) (hown : own i₀ s.log = []) :
    (window i₀ iid (planForChanges dag changes).recompute).Safe i₀
      (Applied iid (planForChanges dag changes)) (A.apply iid dag changes seq source) s := by
  have hret : ∀ r : ChangeResult, r.applied = false → ∀ t,
      (window i₀ iid (planForChanges dag changes).recompute).Safe i₀
        (Applied iid (planForChanges dag changes)) (.ret r) t :=
    fun r hr t _ _ _ => applied_of_not hr
  intro s1 h1 hi1
  have hg1 : (window i₀ iid (planForChanges dag changes).recompute).guar i₀ s1
      (.getInstance iid (some A.ownerScope)) := trivial
  refine ⟨hg1, fun e1 he1 => ?_⟩
  have hinv2 := (window i₀ iid (planForChanges dag changes).recompute).inv_step hi1 hg1 he1
  have hbusy1 : ∀ k, busyOn i₀ k (run i₀ e1 s1 (.getInstance iid (some A.ownerScope))).1.log = 0 := by
    intro k
    rw [traced_log, busyOn_cons, busyOn, h1.1.2, hown]
    simp [Op.nodeOf]
  generalize run i₀ e1 s1 (.getInstance iid (some A.ownerScope)) = found at hinv2 hbusy1
  obtain ⟨s2, inst⟩ := found
  cases inst with
  | none => exact hret _ rfl _
  | some inst =>
    intro s3 h3 hi3
    have hg3 : (window i₀ iid (planForChanges dag changes).recompute).guar i₀ s3
        (.selectNodes iid) := trivial
    refine ⟨hg3, fun e3 he3 => ?_⟩
    have hinv4 := (window i₀ iid (planForChanges dag changes).recompute).inv_step hi3 hg3 he3
    have hbusy3 : ∀ k, busyOn i₀ k (run i₀ e3 s3 (.selectNodes iid)).1.log = 0 := by
      intro k
      rw [traced_log, busyOn_cons, busyOn_of_own_eq h3.1.2, hbusy1 k]
      simp [Op.nodeOf]
    have hlisted : listed i₀ iid (run i₀ e3 s3 (.selectNodes iid)).1.log = true := by
      rw [traced_log, listed, own_cons_self (⟨i₀, e3, s3.state, .selectNodes iid⟩ : Done) s3.log]
      simp [lists]
    show (window i₀ iid (planForChanges dag changes).recompute).Safe i₀ _
      (if _ then _ else if _ then _ else _) _
    split
    · have hdefer := deferRounds_plain A iid changes source maxCasAttempts inst
      refine ((window_ok (Client.of_plain (A := anyCall) hdefer).ok i₀ _ hinv4).returns
        (deferRounds_returns A iid changes source maxCasAttempts inst)).weaken ?_
      exact fun r t _ h => applied_of_not h.2
    · rename_i hrun
      split
      · exact hret _ rfl _
      · refine applyPlan_end hstyle hinv4 fun n hn => ?_
        refine outstanding_of_listing hlisted hbusy3 (fun n => find_statesOf s3.state iid n) ?_ hn
        intro p hp hpr
        exact hrun (List.any_eq_true.mpr ⟨p, hp, decide_eq_true hpr⟩)

end Change

/-! ## The gate -/

variable {α : Type}

theorem discipline_of_reached {Q : Pool Op Res α Past} (h : Reached anyCall Q) :
    Followed Q.shared ∧ StaleMarked Q.shared ∧
      ∀ (i : Nat) p, Q.procs[i]? = some p →
        (discipline anyCall).Safe i Protocol.anyEnd p Q.shared := by
  let C := (discipline anyCall).strengthen StaleMarked Pool.free
    fun {i busy _ _} hs hm hg _ _ => hm.step hg hs i busy
  have hruns : Pool.Runs run (Client anyCall) C.guard ⟨Past.init, []⟩ Q :=
    h.mono (fun _ hp => hp) fun _ _ _ _ _ => ⟨trivial, trivial⟩
  have hstart : StaleMarked Past.init := fun _ _ hrow => by cases hrow
  obtain ⟨hf, hm⟩ := C.runs_inv hruns (fun _ hp => hp.ok.strengthen) ⟨Followed.of_nil _, hstart⟩
  have hsafe := ((discipline anyCall).runs_safe h (fun _ hp => hp.ok) (Followed.of_nil _)
    fun _ _ hp => by cases hp).2
  exact ⟨hf, hm, hsafe⟩

variable {Q : Pool Op Res ChangeResult Past}

/-- What a change that joins as process `i₀` ends in, when nothing disturbs it. -/
theorem applied_of_window {A : ChangeApplier} {iid : String} {dag : WorkflowDAG}
    {changes : List PendingChange} {seq : Nat} {source : String} {P : Pool Op Res ChangeResult Past}
    {r : ChangeResult} (hP : Reached anyCall P)
    (hstyle : isStyleOnly (planForChanges dag changes) = false) (hQ : Pool.Runs run (Client anyCall)
      (Undisturbed P.procs.length iid (planForChanges dag changes).recompute)
      (P.spawn (A.apply iid dag changes seq source)) Q)
    (hr : Q.procs[P.procs.length]? = some (.ret r)) :
    Applied iid (planForChanges dag changes) r Q.shared := by
  obtain ⟨hf, hm, hsafe⟩ := discipline_of_reached hP
  let i₀ := P.procs.length
  let C := window i₀ iid (planForChanges dag changes).recompute
  -- the others may end in anything
  have hother : ∀ {p : Program ChangeResult} {i : Nat} {s : Past}, i ≠ i₀ →
      C.Safe i Protocol.anyEnd p s →
      C.Safe i (fun a t => i = i₀ → Applied iid (planForChanges dag changes) a t) p s :=
    fun hi h => h.weaken fun _ _ _ _ he => absurd he hi
  have hown : own i₀ P.shared.log = [] :=
    own_eq_nil fun c hc => who_lt hP (fun _ h => by cases h) c hc
  have hlen : (P.spawn (A.apply iid dag changes seq source)).procs.length = i₀ + 1 := by
    simp [Pool.spawn, i₀]
  have hruns : Pool.Runs run (Client anyCall) C.guard
      (P.spawn (A.apply iid dag changes seq source)) Q :=
    hQ.mono (fun _ hp => hp) fun _ _ _ _ h => ⟨trivial, h⟩
  have hend : C.inv Q.shared ∧ ∀ (i : Nat) p, Q.procs[i]? = some p →
      C.Safe i (fun a t => i = i₀ → Applied iid (planForChanges dag changes) a t) p Q.shared := by
    refine C.runs_post hruns ?_ ⟨hf, hm⟩ ?_
    · intro p i s hp hi hs
      exact hother (by omega) (window_ok hp.ok i s hs)
    · intro i p hp
      simp only [Pool.spawn, getElem?_append] at hp
      split at hp
      · rename_i hi
        have hdisc : (undisturbedDiscipline i₀ iid (planForChanges dag changes).recompute).Safe i
            Protocol.anyEnd p P.shared := (hsafe i p hp).strengthen
        exact hother (Nat.ne_of_lt hi) hdisc.assume
      · rename_i hi
        have hlast : p = A.apply iid dag changes seq source := by
          simpa using mem_of_getElem? hp
        have hlt := (List.getElem?_eq_some_iff.mp hp).1
        simp only [length_singleton] at hlt
        have hii : i = i₀ := by omega
        rw [hlast, hii]
        exact (apply_end hstyle ⟨hf, hm⟩ hown).weaken fun _ _ _ h _ => h
  exact hend.2 i₀ _ hr Q.shared (C.rely_refl i₀ _) hend.1 rfl

/-- A node that was settled at `base` is not outdated later. -/
theorem not_outdated_later {iid : String} {nodeIds : List String}
    {R : Pool Op Res ChangeResult Past} (hQ : Reached anyCall Q)
    (hset : ∀ n ∈ nodeIds, Settled (iid, n) Q.shared)
    (hR : Pool.Runs run (Client anyCall) Pool.free Q R) {n : String} (hn : n ∈ nodeIds)
    (hrow : R.shared.state.nodes.get (iid, n) = some row) (hsucc : row.state = succeeded) :
    ¬ Outdated (iid, n) Q.shared.log R.shared.log := by
  obtain ⟨hf, hm, hsafe⟩ := discipline_of_reached hQ
  let J : Past → Prop := fun s => StaleMarked s ∧ Q.shared.log <:+ s.log ∧
    ∀ n ∈ nodeIds, ∀ row, s.state.nodes.get (iid, n) = some row →
      row.state = succeeded ∨ row.state = running → ¬ Outdated (iid, n) Q.shared.log s.log
  let C := (discipline anyCall).strengthen J Pool.free
    fun {i busy _ _} hs hj hg _ _ => ⟨hj.1.step hg hs i busy, hj.2.1.trans (suffix_cons _ _),
      fun n hn => current_step hg hs i busy hj.1 hj.2.1 (hj.2.2 n hn)⟩
  have hruns : Pool.Runs run (Client anyCall) C.guard Q R :=
    hR.mono (fun _ hp => hp) fun _ _ _ _ _ => ⟨trivial, trivial⟩
  have hstart : J Q.shared := by
    refine ⟨hm, suffix_refl _, fun n hn row hrow hst hout => ?_⟩
    exact hset n hn row hrow hst hout.unmarked
  have hend := C.runs_safe hruns (fun _ hp => hp.ok.strengthen) ⟨hf, hstart⟩
    fun i p hp => (hsafe i p hp).strengthen
  exact hend.1.2.2.2 n hn row hrow (.inl hsucc)

/-- A program of the pool, whatever it returns. -/
def among {α : Type} (p : Program α) : Program ChangeResult := p >>= fun _ => .ret {}

theorem among_client {p : Program α} (hp : Client anyCall p) :
    Client anyCall (among p) := hp.bind fun _ => .done _

/-- The node `a` is claimed as process `i` and completed as the next one. -/
def computed (i : Nat) (token : String) : List (Pool.Move Op Res ChangeResult Bool) :=
  Pool.solo i 3 false (among (transitionNode (claimOf "a" token))) ++
    Pool.solo (i + 1) 4 false (among (transitionNode
      { instanceId := "wi-1", nodeId := "a", toState := succeeded, requireClaim := true,
        claimedBy := token, complete := true }))

/-- An instance with one node, which becomes ready and is computed. -/
def computedOnce : List (Pool.Move Op Res ChangeResult Bool) :=
  Pool.solo 0 3 false (among (createInstance "wi-1" "owner" "" ["a"])) ++
    Pool.solo 1 3 false (among (transitionNode
      { instanceId := "wi-1", nodeId := "a", toState := ready })) ++ computed 2 "rt-1"

/-- The stale node goes back to ready and is computed again. -/
def computedAgain : List (Pool.Move Op Res ChangeResult Bool) :=
  Pool.solo 5 3 false (among (transitionNode (recomputeCall "wi-1" "a"))) ++ computed 6 "rt-2"

def oneNode : WorkflowDAG := { nodes := [{ nodeId := "a" }], edges := [] }

def someApplier : ChangeApplier := { ownerScope := "owner", sha256 := id }

theorem computed_starts {i : Nat} {token : String} {m : Pool.Move Op Res ChangeResult Bool}
    (hm : m ∈ computed i token) {p : Program ChangeResult} (hp : m.starts = some p) :
    Client anyCall p := by
  rcases mem_append.mp hm with hm | hm <;> rw [starts_solo hm hp] <;>
    exact among_client (transitionNode_client trivial)

theorem computedOnce_reached : Reached anyCall (Pool.play run ⟨Past.init, []⟩ computedOnce) := by
  refine play_runs run _ _ fun m hm p hp => ?_
  rcases mem_append.mp hm with hm | hm
  · rcases mem_append.mp hm with hm | hm <;> rw [starts_solo hm hp]
    · exact among_client (createInstance_client _ _ _ _)
    · exact among_client (transitionNode_client trivial)
  · exact computed_starts hm hp

/-- A change joins and performs its operations. -/
def changed (change : PendingChange) (steps : Nat) : Pool Op Res ChangeResult Past :=
  Pool.play run ((Pool.play run ⟨Past.init, []⟩ computedOnce).spawn
    (someApplier.apply "wi-1" oneNode [change] 1 "api")) (List.replicate steps (.step 4 false))

theorem changed_runs (change : PendingChange) (steps : Nat) {guard : Nat → Bool → Past → Op → Prop}
    (hg : ((Pool.play run ⟨Past.init, []⟩ computedOnce).spawn
      (someApplier.apply "wi-1" oneNode [change] 1 "api")).Respects run guard
        (List.replicate steps (.step 4 false))) :
    Pool.Runs run (Client anyCall) guard ((Pool.play run ⟨Past.init, []⟩ computedOnce).spawn
      (someApplier.apply "wi-1" oneNode [change] 1 "api")) (changed change steps) := by
  refine Pool.play_guarded run _ _ (fun m hm p hp => ?_) hg
  obtain ⟨-, rfl⟩ := mem_replicate.mp hm
  cases hp

/-- What process `i` has returned. -/
def returned {α : Type} (P : Pool Op Res α Past) (i : Nat) : Option α :=
  match P.procs[i]? with
  | some (.ret a) => some a
  | _ => none

theorem returned_eq_some {P : Pool Op Res α Past} {i : Nat} {a : α} (h : returned P i = some a) :
    P.procs[i]? = some (.ret a) := by
  unfold returned at h
  split at h
  · rename_i b hb
    cases h
    exact hb
  · cases h

/-- The data of the node changes. -/
def newData : PendingChange := { dimension := "data", targetKind := "node", target := "a" }

/-- The style of the node changes. -/
def newStyle : PendingChange := { dimension := "style", targetKind := "style", target := "a" }

theorem computedOnce_length : (Pool.play run ⟨Past.init, []⟩ computedOnce).procs.length = 4 := by
  decide +kernel

end WebGis.Workflow
