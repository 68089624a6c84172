/-
  No queued change is lost by a drain that can give back what it holds.

  A change that was deferred waits in the queue until a drain takes it. The drain holds it while
  it reads the states and marks the plan, and gives it back by the queue or by a decision; a
  process that has returned holds nothing. So in recoverable runs a deferred change is in the
  queue or applied whenever no drain is under way (`deferred_kept`). In other runs a drain can
  lose it (`deferred_lost`).
-/
import WebGis.Workflow.Handback

namespace WebGis.Workflow

open Data Conc NodeState List Option Hand ChangeApplier Pool TransitionCall

/-! ## Marking -/

/-- The calls belong to transitions of the node. -/
def MovesOnly (k : String × String) (calls : List Done) : Prop :=
  ∀ d ∈ calls, d.op.nodeOf = some k ∨ d.op = .utcnow ∨ d.op = .getNode k.1 k.2

/-- How a marking ended: the node was marked, or found to be unmarkable. -/
def MarkEnd (k : String × String) (r : TransitionResult) (calls : List Done) : Prop :=
  r.ok = true ∧ calls.any (marks k) = true ∨ r.ok = false ∧ calls.any (unmarkable k) = true

/-- How a round of a marking ended: with the marking, or with one more failure that leaves
    another round. -/
def TryEnd (iid : String) (i : Nat) (k : String × String) (s : Past)
    (a : Answer TransitionResult) (t : Past) : Prop :=
  ∃ calls, MovesOnly k calls ∧ hand iid i t.log = (hand iid i s.log).map (Hand.push calls) ∧
    ((a = .busy ∨ ∃ r, a = .done r ∧ r.code = .casConflict) ∧ calls.countP (fails k) = 1 ∧
        Holds iid i (fun h => h.failures k + 1 < maxRounds) s ∨
      ∃ r, a = .done r ∧ r.code ≠ .casConflict ∧ MarkEnd k r calls)

section Mark

variable {A : ChangeApplier} {iid : String} {dag : WorkflowDAG} {i : Nat} {s : Past} {n : String}
  {dims : List String}

variable {t : Past} {a : Answer TransitionResult} {k : String × String}

theorem tryEnd_ret (h : TryEnd iid i k s a t) :
    (custody A iid dag).Safe i (TryEnd iid i k s) (.ret a) t := by
  intro u hu _
  obtain ⟨calls, hmoves, hhand, hend⟩ := h
  exact ⟨calls, hmoves, (hand_of_own_eq hu.1 iid).trans hhand, hend⟩

variable {calls : List Done}

theorem tryEnd_fails {busy : Bool} {o : Op}
    (ha : a = .busy ∨ ∃ r, a = .done r ∧ r.code = .casConflict)
    (hhand : hand iid i t.log = (hand iid i s.log).map (Hand.push calls))
    (hmoves : MovesOnly (iid, n) calls) (hcalls : calls.countP (fails (iid, n)) = 0)
    (ho : o.nodeOf = some (iid, n)) (hfails : fails (iid, n) ⟨i, busy, t.state, o⟩)
    (he : (custody A iid dag).guard i busy t o) : TryEnd iid i (iid, n) s a (run i busy t o).1 := by
  have hop : written iid ⟨i, busy, t.state, o⟩ = none := by
    cases o with
    | updateInstance j rev fields => cases ho
    | _ => rfl
  have hhand' := hand_unwritten hop
  rw [hhand, Option.map_map, push_comp] at hhand'
  refine ⟨_, ?_, hhand', .inl ⟨ha, ?_, fun h hh => ?_⟩⟩
  · intro d hd
    rcases mem_cons.mp hd with rfl | hd
    · exact .inl ho
    · exact hmoves d hd
  · simp [hfails, hcalls]
  · have hheld : hand iid i t.log = some (h.push calls) := by rw [hhand, hh]; rfl
    have hguard : Recovers iid (h.push calls) ⟨i, busy, t.state, o⟩ := he _ hheld
    have hleft : (h.push calls).failures (iid, n) + 1 < maxRounds := by
      cases o with
      | selectNode j m => exact hguard _ ho hfails
      | updateNode c seen now => exact hguard _ ho hfails
      | _ => cases ho
    have hcount : (h.push calls).failures (iid, n) =
        calls.countP (fails (iid, n)) + h.failures (iid, n) := countP_append
    omega

theorem moves_step (busy : Bool) {o : Op}
    (hhand : hand iid i t.log = (hand iid i s.log).map (Hand.push calls))
    (hmoves : MovesOnly (iid, n) calls)
    (ho : o.nodeOf = some (iid, n) ∨ o = .utcnow ∨ o = .getNode iid n) :
    hand iid i (run i busy t o).1.log =
        (hand iid i s.log).map (Hand.push (⟨i, busy, t.state, o⟩ :: calls)) ∧
      MovesOnly (iid, n) (⟨i, busy, t.state, o⟩ :: calls) := by
  have hop : written iid ⟨i, busy, t.state, o⟩ = none := by
    cases o with
    | updateInstance j rev fields => rcases ho with ho | ho | ho <;> cases ho
    | _ => rfl
  have hhand' := hand_unwritten hop
  rw [hhand, Option.map_map, push_comp] at hhand'
  refine ⟨hhand', fun d hd => ?_⟩
  rcases mem_cons.mp hd with rfl | hd
  · exact ho
  · exact hmoves d hd

theorem judge_staleCall (row : NodeRow) : (staleCall iid n dims).judge row = none ∧
      Legal row.state stale ∨
    ∃ r, (staleCall iid n dims).judge row = some r ∧ r.ok = false ∧ r.code = .illegalTransition ∧
      ¬ Legal row.state stale := by
  by_cases hl : Legal row.state stale
  · have hnone : (staleCall iid n dims).judge row = none :=
      judge_eq_none.mpr ⟨fun hc => (by cases hc), hl, fun _ he => (by cases he)⟩
    exact .inl ⟨hnone, hl⟩
  · refine .inr ⟨{ ok := false, code := .illegalTransition, state := some row.state }, ?_, rfl, rfl,
      hl⟩
    have hv : validateTransition row.state stale ≠ none := by
      rw [ne_eq, validateTransition_eq_none]
      exact hl
    simp [judge, staleCall, hv]

theorem staleUpdate_safe {row : NodeRow}
    (hhand : hand iid i t.log = (hand iid i s.log).map (Hand.push calls))
    (hmoves : MovesOnly (iid, n) calls) (hcalls : calls.countP (fails (iid, n)) = 0) :
    (custody A iid dag).Safe i (TryEnd iid i (iid, n) s) ((staleCall iid n dims).update row) t := by
  intro t1 h1 hi1
  refine ⟨trivial, fun e1 _ => ?_⟩
  have hhand1 := (hand_of_own_eq h1.1 iid).trans hhand
  obtain ⟨hhand2, hmoves2⟩ := moves_step e1 hhand1 hmoves (.inr (.inl rfl))
  have hcalls2 : (⟨i, e1, t1.state, .utcnow⟩ :: calls : List Done).countP (fails (iid, n)) = 0 := by
    rw [countP_cons, hcalls]
    rfl
  intro t3 h3 hi3
  refine ⟨trivial, fun e3 he3 => ?_⟩
  have hhand3 := (hand_of_own_eq h3.1 iid).trans hhand2
  cases e3 with
  | true =>
    refine tryEnd_ret (tryEnd_fails (.inl rfl) hhand3 hmoves2 hcalls2 rfl ?_ he3)
    simp [fails, Op.nodeOf, staleCall, key]
  | false =>
    cases ht : transitionOf false t3.state
        (.updateNode (staleCall iid n dims) row (run i e1 t1 .utcnow).2) with
    | none =>
      have hanswer : (run i false t3 (.updateNode (staleCall iid n dims) row
          (run i e1 t1 .utcnow).2)).2 = Answer.done false :=
        congrArg Answer.done (congrArg Prod.snd (updateNode_miss ht))
      rw [hanswer]
      refine tryEnd_ret (tryEnd_fails (.inr ⟨_, rfl, rfl⟩) hhand3 hmoves2 hcalls2 rfl ?_ he3)
      simp [fails, misses, Op.nodeOf, staleCall, key] at ht ⊢
      exact ht
    | some hit =>
      obtain ⟨c, row'⟩ := hit
      obtain ⟨seen, now, hop, -, hfound, hrev⟩ := transitionOf_eq_some ht
      cases hop
      have hanswer : (run i false t3 (.updateNode (staleCall iid n dims) row
          (run i e1 t1 .utcnow).2)).2 = Answer.done true :=
        congrArg Prod.snd (exec_updateNode _ hfound hrev)
      rw [hanswer]
      obtain ⟨hhand4, hmoves4⟩ := moves_step false
        (o := .updateNode (staleCall iid n dims) row (run i e1 t1 .utcnow).2)
        hhand3 hmoves2 (.inl rfl)
      refine tryEnd_ret ⟨_, hmoves4, hhand4, .inr ⟨_, rfl, by simp, .inl ⟨rfl, ?_⟩⟩⟩
      have hmark : marks (iid, n) ⟨i, false, t3.state, .updateNode (staleCall iid n dims) row
          (run i e1 t1 .utcnow).2⟩ := by
        rw [marks, movedCall_some i ht (iid, n)]
        simp [staleCall, key]
      rw [List.any_cons, hmark]
      rfl

theorem tryTransition_safe :
    (custody A iid dag).Safe i (TryEnd iid i (iid, n) s) (staleCall iid n dims).tryTransition s := by
  intro t1 h1 hi1
  refine ⟨trivial, fun e1 he1 => ?_⟩
  have hhand1 : hand iid i t1.log = (hand iid i s.log).map (Hand.push []) := by
    rw [hand_of_own_eq h1.1 iid]
    cases hand iid i s.log <;> rfl
  have hmoves1 : MovesOnly (iid, n) [] := fun d hd => by cases hd
  cases e1 with
  | true =>
    refine tryEnd_ret (tryEnd_fails (.inl rfl) hhand1 hmoves1 rfl rfl ?_ he1)
    simp [fails, Op.nodeOf, staleCall]
  | false =>
    obtain ⟨hhand2, hmoves2⟩ := moves_step false
      (o := .selectNode iid n) hhand1 hmoves1 (.inl rfl)
    have hanswer : (run i false t1 (.selectNode (staleCall iid n dims).instanceId
        (staleCall iid n dims).nodeId)).2 = Answer.done (t1.state.node iid n) := rfl
    rw [hanswer]
    cases hrow : t1.state.node iid n with
    | none =>
      refine tryEnd_ret ⟨_, hmoves2, hhand2, .inr ⟨_, rfl, by simp, .inr ⟨rfl, ?_⟩⟩⟩
      simp [unmarkable, World.stateOf, show t1.state.nodes.get (iid, n) = none from hrow]
    | some row =>
      show (custody A iid dag).Safe i _ ((staleCall iid n dims).tryOn row) _
      unfold tryOn
      rcases judge_staleCall row with ⟨hj, -⟩ | ⟨r, hj, hok, hcode, hl⟩
      · rw [hj]
        refine staleUpdate_safe hhand2 hmoves2 ?_
        simp [fails, misses]
      · rw [hj]
        refine tryEnd_ret ⟨_, hmoves2, hhand2, .inr ⟨_, rfl, by simp [hcode], .inr ⟨hok, ?_⟩⟩⟩
        simp [unmarkable, World.stateOf, show t1.state.nodes.get (iid, n) = some row from hrow, hl]

/-- Once a process holds changes, its marking ends with the node marked or unmarkable. -/
def RoundsEnd (iid : String) (i : Nat) (k : String × String) (s : Past) (r : TransitionResult)
    (t : Past) : Prop :=
  ∃ calls, MovesOnly k calls ∧ hand iid i t.log = (hand iid i s.log).map (Hand.push calls) ∧
    Holds iid i (fun _ => MarkEnd k r calls) s

variable {r : TransitionResult}

theorem RoundsEnd.trans {u : Past} (hmoves : MovesOnly k calls)
    (hhand : hand iid i t.log = (hand iid i s.log).map (Hand.push calls))
    (h : RoundsEnd iid i k t r u) : RoundsEnd iid i k s r u := by
  obtain ⟨later, hmoves', hhand', hend⟩ := h
  refine ⟨later ++ calls, ?_, ?_, ?_⟩
  · intro d hd
    rcases mem_append.mp hd with hd | hd
    · exact hmoves' d hd
    · exact hmoves d hd
  · rw [hhand', hhand, Option.map_map, push_comp]
  · intro held hheld
    have hmark : MarkEnd k r later := hend (held.push calls) (by rw [hhand, hheld]; rfl)
    unfold MarkEnd at hmark ⊢
    simp only [any_append, Bool.or_eq_true]
    exact hmark.imp (fun h => ⟨h.1, .inl h.2⟩) (fun h => ⟨h.1, .inl h.2⟩)

theorem staleRounds_safe (r : Nat) (hs : (custody A iid dag).inv s)
    (hleft : Holds iid i (fun h => r ≠ 0 ∧ maxRounds ≤ h.failures (iid, n) + r) s) :
    (custody A iid dag).Safe i (RoundsEnd iid i (iid, n) s) ((staleCall iid n dims).rounds r) s := by
  induction r generalizing s with
  | zero =>
    have hnone := none_of_holds hleft fun _ h => h.1 rfl
    intro t1 h1 hi1
    refine ⟨trivial, fun e1 _ => ?_⟩
    have hhand1 : hand iid i t1.log = (hand iid i s.log).map (Hand.push []) := by
      rw [hand_of_own_eq h1.1 iid, hnone]
      rfl
    have hmoves1 : MovesOnly (iid, n) [] := fun d hd => by cases hd
    obtain ⟨hhand2, hmoves2⟩ := moves_step e1 (o := .getNode iid n) hhand1 hmoves1
      (.inr (.inr rfl))
    intro t2 h2 _
    refine ⟨_, hmoves2, (hand_of_own_eq h2.1 iid).trans hhand2, fun held hheld => ?_⟩
    rw [hnone] at hheld
    cases hheld
  | succ r ih =>
    refine tryTransition_safe.bind hs fun answer t ht hend => ?_
    obtain ⟨calls, hmoves, hhand, hend⟩ := hend
    rcases hend with ⟨hagain, hcount, hmore⟩ | ⟨result, rfl, hcode, hmark⟩
    · -- the round failed, and the next one finds one failure more
      have hnext : Holds iid i
          (fun h => r ≠ 0 ∧ maxRounds ≤ h.failures (iid, n) + r) t := by
        intro held hheld
        rw [hhand] at hheld
        obtain ⟨h0, hh0, rfl⟩ := map_eq_some_iff.mp hheld
        have hadd : (h0.push calls).failures (iid, n) =
            calls.countP (fails (iid, n)) + h0.failures (iid, n) := countP_append
        have hall := (hleft h0 hh0).2
        have hone := hmore h0 hh0
        omega
      have hrest : (custody A iid dag).Safe i (RoundsEnd iid i (iid, n) s)
          ((staleCall iid n dims).rounds r) t :=
        (ih ht hnext).weaken fun _ _ _ h => h.trans hmoves hhand
      rcases hagain with rfl | ⟨result, rfl, hcode⟩
      · show (custody A iid dag).Safe i _ (if _ then _ else _) _
        split
        · rename_i hr
          intro u hu _
          refine ⟨calls, hmoves, (hand_of_own_eq hu.1 iid).trans hhand, fun held hheld => ?_⟩
          exact absurd hr (hnext _ (by rw [hhand, hheld]; rfl)).1
        · exact hrest
      · show (custody A iid dag).Safe i _ (if _ then _ else if _ then _ else _) _
        rw [if_neg (not_not_intro hcode), if_neg (by simp [staleCall])]
        exact hrest
    · show (custody A iid dag).Safe i _ (if _ then _ else if _ then _ else _) _
      rw [if_pos hcode]
      intro u hu _
      exact ⟨calls, hmoves, (hand_of_own_eq hu.1 iid).trans hhand, fun _ _ => hmark⟩

theorem mark_safe (hs : (custody A iid dag).inv s) :
    (custody A iid dag).Safe i (RoundsEnd iid i (iid, n) s) (transitionNode (staleCall iid n dims))
      s :=
  staleRounds_safe maxRounds hs fun h _ => ⟨by decide, Nat.le_add_left _ _⟩

end Mark

/-! ## The marking of a plan by a process that holds changes -/

variable {calls : List Done} {k : String × String}

theorem tries_moves {iid : String} (h : MovesOnly k calls) (held : Hand) :
    (held.push calls).tries iid = held.tries iid := by
  have hzero : calls.countP (begins iid) = 0 := by
    rw [countP_eq_zero]
    intro d hd
    obtain ⟨who, env, before, o⟩ := d
    have ho : o.nodeOf = some k ∨ o = .utcnow ∨ o = .getNode k.1 k.2 := h _ hd
    cases o with
    | selectInstance j owner => rcases ho with ho | ho | ho <;> cases ho
    | _ => exact Bool.false_ne_true
  have hadd : (held.push calls).tries iid = calls.countP (begins iid) + held.tries iid :=
    countP_append
  omega

theorem lastRow_moves {iid : String} (h : MovesOnly k calls) (held : Hand) :
    (held.push calls).lastRow iid = held.lastRow iid := by
  have hnone : calls.find? (reads iid) = none := by
    rw [find?_eq_none]
    intro d hd
    obtain ⟨who, env, before, o⟩ := d
    have ho : o.nodeOf = some k ∨ o = .utcnow ∨ o = .getNode k.1 k.2 := h _ hd
    cases o with
    | getInstance j owner => rcases ho with ho | ho | ho <;> cases ho
    | _ => exact Bool.false_ne_true
  rw [Hand.lastRow, push_calls, find?_append, hnone, none_or]
  rfl

/-- While the nodes `rest` are still to be marked: what the process holds, and what it has made
    of every node of the plan that could be marked in the listing `d`. -/
structure Marked (iid : String) (changes : List PendingChange) (plan : RecomputePlan) (d : Done)
    (row : InstanceRow) (rest : List String) (acc : States × List String) (h : Hand) : Prop where
  same : h.changes = changes
  tries : h.tries iid = 0
  last : (h.lastRow iid).map InstanceRow.revision = some row.revision
  nodes : ∃ newer older, h.calls = newer ++ d :: older ∧
    ∀ n ∈ plan.recompute, markable (d.before.stateOf (iid, n)) = true →
      ((n ∈ acc.2 ∧ newer.any (marks (iid, n)) = true) ∨ newer.any (unmarkable (iid, n)) = true) ∨
        n ∈ rest ∧ acc.1.find n = d.before.stateOf (iid, n)

section Plan

variable {A : ChangeApplier} {iid : String} {dag : WorkflowDAG} {i : Nat} {s : Past}
  {changes : List PendingChange} {plan : RecomputePlan} {d : Done} {row : InstanceRow}
  {rest : List String} {acc : States × List String} {x : String}

theorem Marked.skip {h : Hand} (hm : Marked iid changes plan d row (x :: rest) acc h)
    (hx : markable (acc.1.find x) = false) : Marked iid changes plan d row rest acc h := by
  obtain ⟨newer, older, hcalls, hall⟩ := hm.nodes
  refine ⟨hm.same, hm.tries, hm.last, newer, older, hcalls, fun n hn hmark => ?_⟩
  rcases hall n hn hmark with hdone | ⟨hmem, hfind⟩
  · exact .inl hdone
  rcases mem_cons.mp hmem with rfl | hmem
  · rw [hfind, hmark] at hx
    cases hx
  · exact .inr ⟨hmem, hfind⟩

theorem Marked.mark {h : Hand} {r : TransitionResult} {calls : List Done}
    (hm : Marked iid changes plan d row (x :: rest) acc h) (hmoves : MovesOnly (iid, x) calls)
    (hend : MarkEnd (iid, x) r calls) :
    Marked iid changes plan d row rest
      (if r.ok ∨ r.code = .okIdempotent then (acc.1.set x stale, acc.2 ++ [x]) else acc)
      (h.push calls) := by
  obtain ⟨newer, older, hcalls, hall⟩ := hm.nodes
  refine ⟨hm.same, (tries_moves hmoves h).trans hm.tries, ?_, calls ++ newer, older, ?_, ?_⟩
  · rw [lastRow_moves hmoves]
    exact hm.last
  · rw [push_calls, hcalls, append_assoc]
  · intro n hn hmark
    simp only [any_append, Bool.or_eq_true]
    by_cases hx : n = x
    · subst hx
      rcases hend with ⟨hok, hmarks⟩ | ⟨-, hun⟩
      · refine .inl (.inl ⟨?_, .inl hmarks⟩)
        rw [if_pos (.inl hok)]
        exact mem_append_right _ (mem_singleton_self n)
      · exact .inl (.inr (.inl hun))
    · rcases hall n hn hmark with (⟨hin, hmarks⟩ | hun) | ⟨hmem, hfind⟩
      · refine .inl (.inl ⟨?_, .inr hmarks⟩)
        split
        · exact mem_append_left _ hin
        · exact hin
      · exact .inl (.inr (.inr hun))
      · refine .inr ⟨(mem_cons.mp hmem).resolve_left hx, ?_⟩
        split
        · exact (Dict.find_set_ne _ _ (Ne.symm hx)).trans hfind
        · exact hfind

theorem markOne_safe (hs : (custody A iid dag).inv s)
    (hhold : Holds iid i (Marked iid changes plan d row (x :: rest) acc) s) :
    (custody A iid dag).Safe i
      (fun acc' t => Holds iid i (Marked iid changes plan d row rest acc') t ∧
        ∀ w ∈ s.states, w ∈ t.states) (markOne iid plan acc x) s := by
  unfold markOne
  split
  · have hst : (custody A iid dag).Safe i
        (fun r t => RoundsEnd iid i (iid, x) s r t ∧ ∀ w ∈ s.states, w ∈ t.states)
        (transitionNode (staleCall iid x plan.changedDimensions)) s := by
      have huses : (transitionNode (staleCall iid x plan.changedDimensions)).Uses
          fun _ => True := by
        refine transitionNode_uses _ trivial trivial trivial fun _ _ => trivial
      exact (mark_safe hs).frame (fun t => ∀ w ∈ s.states, w ∈ t.states) huses (fun _ hw => hw)
        (fun u v hr h w hw => hr.2 w (h w hw))
        (fun busy u o _ _ _ _ h w hw => states_subset_traced exec i busy u o w (h w hw))
    refine hst.bind hs fun r t _ hend => ?_
    intro u hu _
    obtain ⟨⟨calls, hmoves, hhand, hmark⟩, hstates⟩ := hend
    refine ⟨fun h hh => ?_, fun w hw => hu.2 w (hstates w hw)⟩
    rw [hand_of_own_eq hu.1 iid, hhand] at hh
    obtain ⟨h0, hh0, rfl⟩ := map_eq_some_iff.mp hh
    exact (hhold h0 hh0).mark hmoves (hmark h0 hh0)
  · rename_i hnot
    rw [Bool.not_eq_true] at hnot
    intro t ht _
    exact ⟨(hhold.rely ht).imp fun _ hm => hm.skip hnot, ht.2⟩

theorem markPlan_safe {states : States} (hs : (custody A iid dag).inv s) (hlist : lists iid d)
    (hquiet : d.before.anyRunning iid = false)
    (hhold : Holds iid i (Marked iid changes (planForChanges dag changes) d row
      (planForChanges dag changes).recompute (states, [])) s) :
    (custody A iid dag).Safe i
      (fun marked t => Holds iid i (Deciding iid dag changes marked maxCasAttempts row) t ∧
        ∀ w ∈ s.states, w ∈ t.states) (markPlan iid (planForChanges dag changes) states) s := by
  unfold markPlan
  split
  · rename_i hstyle
    intro t ht _
    refine ⟨(hhold.rely ht).imp fun h hm => ?_, ht.2⟩
    exact ⟨hm.same, by decide, by rw [hm.tries]; rfl, hm.last, .inl hstyle⟩
  · have hloop := Protocol.Safe.foldEach (C := custody A iid dag)
      (f := markOne iid (planForChanges dag changes))
      (fun rest acc t => Holds iid i
        (Marked iid changes (planForChanges dag changes) d row rest acc) t ∧
          ∀ w ∈ s.states, w ∈ t.states)
      (fun x rest acc t ht hI => (markOne_safe ht hI.1).weaken fun _ _ _ hend =>
        ⟨hend.1, fun w hw => hend.2 w (hI.2 w hw)⟩)
      (fun acc u v hr hI => ⟨hI.1.rely hr, fun w hw => hr.2 w (hI.2 w hw)⟩)
      (planForChanges dag changes).recompute (a := (states, [])) hs ⟨hhold, fun _ hw => hw⟩
    refine hloop.bind hs fun out t _ hend => ?_
    intro u hu _
    refine ⟨(hend.1.rely hu).imp fun h hm => ?_, fun w hw => hu.2 w (hend.2 w hw)⟩
    obtain ⟨newer, older, hcalls, hall⟩ := hm.nodes
    refine ⟨hm.same, by decide, by rw [hm.tries]; rfl, hm.last, .inr ?_⟩
    refine ⟨newer, d, older, hcalls, hlist, hquiet, fun n hn hmark => ?_⟩
    exact (hall n hn hmark).resolve_right fun h => not_mem_nil h.1

end Plan

/-! ## The change -/

theorem any_running (w : World) (iid : String) :
    ((statesOf (w.nodesOf iid)).items.any fun p => p.2 = running) = w.anyRunning iid := by
  rw [Bool.eq_iff_iff, List.any_eq_true, World.anyRunning, List.any_eq_true]
  constructor
  · rintro ⟨p, hp, hrun⟩
    have hfind := Dict.find_eq_some.mpr hp
    rw [find_statesOf, World.stateOf] at hfind
    obtain ⟨r, hr, hst⟩ := map_eq_some_iff.mp hfind
    have hkey : r.nodeId = p.1 := congrArg Prod.snd (Table.get_key hr)
    refine ⟨r, mem_nodesOf.mpr (hkey ▸ hr), ?_⟩
    rw [hst]
    exact hrun
  · rintro ⟨r, hr, hrun⟩
    have hfind : (statesOf (w.nodesOf iid)).find r.nodeId = some r.state := by
      rw [find_statesOf, World.stateOf, mem_nodesOf.mp hr]
      rfl
    exact ⟨(r.nodeId, r.state), Dict.find_eq_some.mp hfind, hrun⟩

/-- What a process may hold when it starts to apply the changes. -/
structure Fetched (A : ChangeApplier) (iid : String) (changes : List PendingChange) (s : Past)
    (h : Hand) : Prop where
  same : h.changes = changes
  tries : h.tries iid = 0
  running : h.sawRunning iid = false
  count : changes.length ≤ maxApplyChanges
  seen : ∃ row, Seen A iid row s

section Apply

variable {A : ChangeApplier} {iid : String} {dag : WorkflowDAG} {i : Nat} {s : Past}
  {changes : List PendingChange}

theorem empty_handed {α : Type} {p : Program α} (hp : p.Uses (SparesQueue iid))
    (hnone : hand iid i s.log = none) :
    (custody A iid dag).Safe i (fun _ t => hand iid i t.log = none) p s := by
  refine Protocol.safe_of_fact (C := custody A iid dag) (A := SparesQueue iid)
    (fun t => hand iid i t.log = none)
    (fun u v hr h => (hand_of_own_eq hr.1 iid).trans h) (fun _ _ _ _ ho => Careful.of_spares ho)
    (fun busy u o h ho => ?_) hp hnone
  rw [hand_run, h]
  cases hw : written iid ⟨i, busy, u.state, o⟩ with
  | none => rw [after_of_unwritten hw, map_none]
  | some f =>
    obtain ⟨rev, row, hop, -⟩ := written_eq_some hw
    subst hop
    obtain ⟨hp, hd⟩ := ho rfl
    simp [Hand.after, takes, settles, hw, hp, hd]

theorem listing_hand (iid : String) (i : Nat) (t : Past) (e : Bool) :
    hand iid i (run i e t (.selectNodes iid)).1.log =
      (hand iid i t.log).map (Hand.push [⟨i, e, t.state, .selectNodes iid⟩]) :=
  hand_unwritten rfl

theorem apply_safe (seq : Nat) (source : String) (hhold : Holds iid i (Fetched A iid changes s) s) :
    (custody A iid dag).Safe i (Handled iid i source changes)
      (A.apply iid dag changes seq source) s := by
  refine fetch_safe (fun t hno hstill => ?_) fun t inst g _ hseen hread => ?_
  · refine handled_ret (hstill ?_) rfl
    exact none_of_holds hhold fun _ hf => hno hf.seen
  · intro t1 h1 hi1
    have hg1 : (custody A iid dag).guar i t1 (.selectNodes iid) := trivial
    refine ⟨hg1, fun e1 he1 => ?_⟩
    have hinv2 := (custody A iid dag).inv_step hi1 hg1 he1
    have hst2 : ∀ w ∈ t.states, w ∈ (run i e1 t1 (.selectNodes iid)).1.states :=
      fun w hw => states_subset_traced exec i e1 t1 _ w (h1.2 w hw)
    have hhand1 := (hand_of_own_eq h1.1 iid).trans hread.hand
    have hhand2 := listing_hand iid i t1 e1
    rw [hhand1] at hhand2
    have hlist : lists iid ⟨i, e1, t1.state, .selectNodes iid⟩ := by simp [lists]
    -- what the process holds after the row and the states were read
    have hheld : ∀ h, hand iid i (run i e1 t1 (.selectNodes iid)).1.log = some h →
        ∃ h0, Fetched A iid changes s h0 ∧ hand iid i s.log = some h0 ∧
          h = (h0.push [g]).push [⟨i, e1, t1.state, .selectNodes iid⟩] := by
      intro h hh
      rw [hhand2] at hh
      obtain ⟨h1, hh1, rfl⟩ := map_eq_some_iff.mp hh
      obtain ⟨h0, hh0, rfl⟩ := map_eq_some_iff.mp hh1
      exact ⟨h0, hhold h0 hh0, hh0, rfl⟩
    have htries : ∀ h0, Fetched A iid changes s h0 →
        ((h0.push [g]).push [⟨i, e1, t1.state, .selectNodes iid⟩]).tries iid = 0 := by
      intro h0 hf
      have hadd : ((h0.push [g]).push [⟨i, e1, t1.state, .selectNodes iid⟩]).tries iid =
          (h0.push [g]).tries iid := rfl
      rw [hadd, hread.tries, hf.tries]
    have hlast : ∀ h0 : Hand,
        ((h0.push [g]).push [⟨i, e1, t1.state, .selectNodes iid⟩]).lastRow iid = some inst := by
      intro h0
      exact hread.lastRow h0
    show (custody A iid dag).Safe i _ (if _ then _ else if _ then _ else _) _
    have hanswer : (run i e1 t1 (.selectNodes iid)).2 = t1.state.nodesOf iid := rfl
    rw [hanswer, any_running]
    split
    · rename_i hrun
      refine deferRounds_safe maxCasAttempts hinv2 (hseen.later hst2) fun h hh => ?_
      obtain ⟨h0, hf, hh0, rfl⟩ := hheld h hh
      refine ⟨hf.same, by decide, by rw [htries h0 hf, Nat.zero_add], by rw [hlast h0]; rfl, ?_, ?_⟩
      · rw [Hand.sawRunning, push_calls, any_append, List.any_cons, hlist]
        simp [hrun]
      · have hbefore : hand iid i t1.log = some (h0.push [g]) := by rw [hhand1, hh0]; rfl
        have hroom := he1 _ hbefore rfl hrun inst (hread.lastRow h0)
        exact hroom
    · rename_i hrun
      rw [Bool.not_eq_true] at hrun
      split
      · rename_i hmany
        have hfalse : Holds iid i (fun _ => False) (run i e1 t1 (.selectNodes iid)).1 := by
          intro h hh
          obtain ⟨h0, hf, -, -⟩ := hheld h hh
          have hcount := hf.count
          omega
        exact handled_ret (none_of_holds hfalse fun _ h => h) rfl
      · have hmarked : Holds iid i (Marked iid changes (planForChanges dag changes)
            ⟨i, e1, t1.state, .selectNodes iid⟩ inst (planForChanges dag changes).recompute
            (statesOf (t1.state.nodesOf iid), [])) (run i e1 t1 (.selectNodes iid)).1 := by
          intro h hh
          obtain ⟨h0, hf, -, rfl⟩ := hheld h hh
          refine ⟨hf.same, htries h0 hf, by rw [hlast h0]; rfl, [], _, rfl, fun n hn _ => ?_⟩
          exact .inr ⟨hn, find_statesOf t1.state iid n⟩
        refine (markPlan_safe hinv2 hlist hrun hmarked).bind hinv2 fun marked u hu hend => ?_
        · refine (appendRounds_safe seq maxCasAttempts hu ((hseen.later hst2).later hend.2)
            hend.1).bind hu fun _ v _ hnone => ?_
          exact handled_ret hnone rfl

theorem drainPending_safe (hnone : hand iid i s.log = none) :
    (custody A iid dag).Safe i (fun _ t => hand iid i t.log = none) (A.drainPending iid dag) s := by
  have hret : ∀ {t : Past} {out : Option ChangeResult}, hand iid i t.log = none →
      (custody A iid dag).Safe i (fun _ t => hand iid i t.log = none) (.ret out) t :=
    fun h u hu _ => (hand_of_own_eq hu.1 iid).trans h
  refine fetch_safe (fun t _ hstill => hret (hstill hnone)) fun t inst g _ hseen hread => ?_
  have hnone1 : hand iid i t.log = none := by rw [hread.hand, hnone]; rfl
  intro t1 h1 hi1
  have hg1 : (custody A iid dag).guar i t1 (.selectNodes iid) := trivial
  refine ⟨hg1, fun e1 he1 => ?_⟩
  have hinv2 := (custody A iid dag).inv_step hi1 hg1 he1
  have hst2 : ∀ w ∈ t.states, w ∈ (run i e1 t1 (.selectNodes iid)).1.states :=
    fun w hw => states_subset_traced exec i e1 t1 _ w (h1.2 w hw)
  have hnone2 : hand iid i (run i e1 t1 (.selectNodes iid)).1.log = none := by
    rw [listing_hand, hand_of_own_eq h1.1 iid, hnone1]
    rfl
  show (custody A iid dag).Safe i _ (if _ then _ else _) _
  split
  · exact hret hnone2
  rename_i hwait
  have hqueue : inst.pendingChanges ≠ [] := fun he => hwait (.inl he)
  refine (write_safe (hseen.later hst2) ?_ ?_).bind hinv2 fun answer u hu hend => ?_
  · intro h hh
    rw [hnone2] at hh
    cases hh
  · intro v d _ _ hhand _
    refine ⟨fun queue hq => ?_, fun ds hds => by cases hds⟩
    cases hq
    refine ⟨Nat.zero_le _, .inl ⟨rfl, ?_⟩⟩
    rw [hhand, hnone2]
    rfl
  · cases answer with
    | none =>
      obtain ⟨-, calls, -, hhand, -⟩ := hend
      refine hret ?_
      rw [hhand, hnone2]
      rfl
    | some row' =>
      obtain ⟨hst, d, hd, hi, hw, hq, held, g', hg', hhand⟩ := hend
      have htakes : takes iid d := by
        simp [takes, hw, hq, hqueue]
      rw [Hand.after, if_pos htakes, hq] at hhand
      refine (apply_safe _ "deferred" fun h hh => ?_).bind hu
        fun result v _ hend => ?_
      · rw [hhand] at hh
        cases hh
        have hreads := begins_of_reads hg'
        refine ⟨rfl, ?_, ?_, hread.bound, inst, (hseen.later hst2).later hst⟩
        · simp [Hand.tries, hreads.1]
        · simp [Hand.sawRunning, hreads.2]
      · exact hret hend.1

end Apply

/-! ## Runs -/

/-- The programs around an instance: changes applied and drains, for any owner, and whatever
    leaves the queue and the decisions of the instance alone. -/
def QueueUser (A : ChangeApplier) (iid : String) (dag : WorkflowDAG)
    (p : Program (Option ChangeResult)) : Prop :=
  p.Uses (SparesQueue iid) ∨ ∃ owner,
    p = { A with ownerScope := owner }.drainPending iid dag ∨
      ∃ changes seq source, p = ({ A with ownerScope := owner }.apply iid dag changes seq source >>=
        fun r => .ret (some r))

/-- A drain that has emptied the queue of the instance has not returned. -/
def Draining (iid : String) (P : Pool Op Res (Option ChangeResult) Past) : Prop :=
  ∃ i o k, P.procs[i]? = some (.act o k) ∧ ∃ d ∈ P.shared.log, d.who = i ∧ takes iid d = true

section Runs

variable {A : ChangeApplier} {iid : String} {dag : WorkflowDAG} {i : Nat} {s : Past}

theorem custody_owner (owner : String) :
    custody { A with ownerScope := owner } iid dag = custody A iid dag := rfl

/-- What a process ends in: with nothing in its hand, and if it deferred these changes, they were
    queued. -/
def Ended (iid : String) (i : Nat) (source : String) (changes : List PendingChange)
    (a : Option ChangeResult) (t : Past) : Prop :=
  hand iid i t.log = none ∧
    ∀ r, a = some r → r.deferred = true → ∃ d ∈ t.log, QueuedBy iid i source changes d

theorem applies_safe (owner : String) (changes : List PendingChange) (seq : Nat) (source : String)
    (hs : (custody A iid dag).inv s) (hnone : hand iid i s.log = none) :
    (custody A iid dag).Safe i (Ended iid i source changes)
      ({ A with ownerScope := owner }.apply iid dag changes seq source >>= fun r => .ret (some r))
      s := by
  rw [← custody_owner owner] at hs ⊢
  have hfetched : Holds iid i
      (Fetched { A with ownerScope := owner } iid changes s) s := by
    intro h hh
    rw [hnone] at hh
    cases hh
  refine (apply_safe seq source hfetched).bind hs fun r t _ hend => ?_
  intro u hu _
  refine ⟨(hand_of_own_eq hu.1 iid).trans hend.1, fun r' hr' hdef => ?_⟩
  cases hr'
  obtain ⟨d, hd, hq⟩ := hend.2 hdef
  have hown : d ∈ own i u.log := by
    rw [hu.1]
    exact mem_filter.mpr ⟨hd, decide_eq_true hq.1⟩
  exact ⟨d, (mem_filter.mp hown).1, hq⟩

theorem queueUser_safe {p : Program (Option ChangeResult)} (hp : QueueUser A iid dag p)
    (hs : (custody A iid dag).inv s) (hnone : hand iid i s.log = none) :
    (custody A iid dag).Safe i (fun _ t => hand iid i t.log = none) p s := by
  rcases hp with hp | ⟨owner, rfl | ⟨changes, seq, source, rfl⟩⟩
  · exact empty_handed hp hnone
  · rw [← custody_owner owner]
    exact drainPending_safe hnone
  · exact (applies_safe owner changes seq source hs hnone).weaken fun _ _ _ h => h.1

theorem hand_unjoined {Adm : Program (Option ChangeResult) → Prop}
    {guard : Nat → Bool → Past → Op → Prop} {P Q : Pool Op Res (Option ChangeResult) Past}
    (h : Pool.Runs run Adm guard P Q) (hP : ∀ c ∈ P.shared.log, c.who < P.procs.length) :
    hand iid Q.procs.length Q.shared.log = none := by
  rw [hand, own_eq_nil (who_lt h hP)]
  rfl

/-- **Deferred changes are kept.** In runs whose drains can give back what they hold, every change
    that was deferred is in the queue, or applied since it was queued, whenever no drain that has
    emptied the queue is under way. -/
theorem deferred_kept {owner : String} {changes : List PendingChange} {seq : Nat}
    {source : String} {P Q R : Pool Op Res (Option ChangeResult) Past} {r : ChangeResult}
    (hP : Pool.Runs run (QueueUser A iid dag) (Recoverable iid) ⟨Past.init, []⟩ P)
    (hQ : Pool.Runs run (QueueUser A iid dag) (Recoverable iid)
      (P.spawn ({ A with ownerScope := owner }.apply iid dag changes seq source >>=
        fun r => .ret (some r))) Q)
    (hr : Q.procs[P.procs.length]? = some (.ret (some r))) (hdeferred : r.deferred = true)
    (hR : Pool.Runs run (QueueUser A iid dag) (Recoverable iid) Q R) (hdrain : ¬ Draining iid R) :
    ∃ newer d older, R.shared.log = newer ++ d :: older ∧
      QueuedBy iid P.procs.length source changes d ∧
      ∀ ch ∈ changes, ch.content ∈ contents (R.shared.state.queueOf iid) ∨
        AppliedIn A iid dag ch.content newer := by
  let C := custody A iid dag
  let i₀ := P.procs.length
  have hnil : ∀ c ∈ Past.init.log, c.who < 0 := fun c hc => by cases hc
  -- up to the moment the changes arrive
  have hbefore : C.inv P.shared ∧ ∀ (i : Nat) p, P.procs[i]? = some p →
      C.Safe i (fun _ t => hand iid i t.log = none) p P.shared := by
    refine C.runs_joined hP ?_ (custody_init A iid dag) fun i p hp => by cases hp
    exact fun p S hp hS hs => queueUser_safe hp hs (hand_unjoined hS hnil)
  have hjoined : ∀ c ∈ P.shared.log, c.who < P.procs.length := who_lt hP hnil
  -- from then on; only the process that defers has to end in more than an empty hand
  let Post : Nat → Option ChangeResult → Past → Prop := fun i a t =>
    hand iid i t.log = none ∧ (i = i₀ → Ended iid i source changes a t)
  have hother : ∀ {p : Program (Option ChangeResult)} {i : Nat} {s : Past}, i ≠ i₀ →
      C.Safe i (fun _ t => hand iid i t.log = none) p s → C.Safe i (Post i) p s :=
    fun hi h => h.weaken fun _ _ _ hnone => ⟨hnone, fun he => absurd he hi⟩
  let P' := P.spawn ({ A with ownerScope := owner }.apply iid dag changes seq source >>=
    fun r => .ret (some r))
  have hlen : P'.procs.length = i₀ + 1 := by simp [P', Pool.spawn, i₀]
  have hjoined' : ∀ c ∈ P'.shared.log, c.who < P'.procs.length := by
    intro c hc
    have hlt := hjoined c hc
    omega
  have hruns : Pool.Runs run (QueueUser A iid dag) (Recoverable iid) P' R := hQ.trans hR
  obtain ⟨hinv, hafter⟩ : C.inv R.shared ∧ ∀ (i : Nat) p, R.procs[i]? = some p →
      C.Safe i (Post i) p R.shared := by
    refine C.runs_joined hruns ?_ hbefore.1 fun i p hp => ?_
    · intro p S hp hS hs
      have hle := hS.length_le
      exact hother (by omega) (queueUser_safe hp hs (hand_unjoined hS hjoined'))
    · simp only [P', Pool.spawn, getElem?_append] at hp
      split at hp
      · rename_i hi
        exact hother (Nat.ne_of_lt hi) (hbefore.2 i p hp)
      · rename_i hi
        have hlast : p = ({ A with ownerScope := owner }.apply iid dag changes seq source >>=
            fun r => .ret (some r)) := by
          simpa using mem_of_getElem? hp
        have hlt := (List.getElem?_eq_some_iff.mp hp).1
        rw [length_singleton] at hlt
        have hii : i = i₀ := by omega
        rw [hlast, hii]
        have hnone : hand iid i₀ P.shared.log = none := by
          rw [hand, own_eq_nil hjoined]
          rfl
        exact (applies_safe owner changes seq source hbefore.1 hnone).weaken
          fun _ _ _ h => ⟨h.1, fun _ => h⟩
  have hend := (hafter i₀ _ (hR.returned hr) R.shared (C.rely_refl i₀ _) hinv).2 rfl
  obtain ⟨d, hd, hqueued⟩ := hend.2 r rfl hdeferred
  obtain ⟨newer, older, hlog⟩ := append_of_mem hd
  refine ⟨newer, d, older, hlog, hqueued, fun ch hch => ?_⟩
  obtain ⟨hwho, f, queue, hw, hq, hall⟩ := hqueued
  have hwhere := hinv.2.2 newer d older f queue hlog hw hq _ (hall ch hch)
  rw [content_queued] at hwhere
  rcases hwhere with hin | happ | ⟨j, h, hh, -⟩
  · exact .inl hin
  · exact .inr happ
  · -- nobody holds changes: whoever took some has returned
    exfalso
    have hheld : hand iid j R.shared.log = some h := hlog ▸ hand_append hh (d :: older)
    obtain ⟨taken, htaken, hj, htakes⟩ := taken_of_hand hheld
    have hlt : j < R.procs.length := hj ▸ who_lt hruns hjoined' taken htaken
    cases hp : R.procs[j] with
    | act o k =>
      exact hdrain ⟨j, o, k, List.getElem?_eq_some_iff.mpr ⟨hlt, hp⟩, taken, htaken, hj, htakes⟩
    | ret a =>
      have hnone := (hafter j _ (List.getElem?_eq_some_iff.mpr ⟨hlt, hp⟩) R.shared
        (C.rely_refl j _) hinv).1
      rw [hheld] at hnone
      cases hnone

end Runs

/-! ## Two runs -/

/-- A program of the pool, whatever it returns. -/
def beside {α : Type} (p : Program α) : Program (Option ChangeResult) := p >>= fun _ => .ret none

/-- A program that applies changes for the owner of the instance. -/
def applies (dag : WorkflowDAG) (changes : List PendingChange) : Program (Option ChangeResult) :=
  someApplier.apply "wi-1" dag changes 1 "api" >>= fun r => .ret (some r)

def twoNodes : WorkflowDAG := { nodes := [{ nodeId := "a" }, { nodeId := "b" }], edges := [] }

/-- The claim of a node by a run. -/
def startOf (node token : String) : TransitionCall :=
  { instanceId := "wi-1", nodeId := node, toState := running, claim := true, claimedBy := token }

/-- An instance with two nodes, both ready; `a` runs. -/
def oneRunning : List (Pool.Move Op Res (Option ChangeResult) Bool) :=
  Pool.solo 0 3 false (beside (createInstance "wi-1" "owner" "" ["a", "b"])) ++
    Pool.solo 1 3 false (beside (transitionNode
      { instanceId := "wi-1", nodeId := "a", toState := ready })) ++
    Pool.solo 2 3 false (beside (transitionNode
      { instanceId := "wi-1", nodeId := "b", toState := ready })) ++
    Pool.solo 3 3 false (beside (transitionNode (startOf "a" "rt-1")))

/-- The change of `a` arrives while `a` runs, as process 4. -/
def arrived : List (Pool.Move Op Res (Option ChangeResult) Bool) :=
  Pool.solo 4 5 false (applies twoNodes [newData])

/-- `a` completes, as process 5. -/
def aCompleted : List (Pool.Move Op Res (Option ChangeResult) Bool) :=
  Pool.solo 5 4 false (beside (transitionNode
    { instanceId := "wi-1", nodeId := "a", toState := succeeded, requireClaim := true,
      claimedBy := "rt-1", complete := true }))

/-- The drain as process 6, up to some operation. -/
def drained (steps : Nat) : List (Pool.Move Op Res (Option ChangeResult) Bool) :=
  Pool.solo 6 steps false (someApplier.drainPending "wi-1" twoNodes)

/-- Sixteen further changes. -/
def sixteenMore : List PendingChange :=
  List.replicate 16 { dimension := "data", targetKind := "node", target := "b" }

/-- While the drain holds the change, `b` starts, sixteen changes arrive, and the drain goes on. -/
def overtaken : List (Pool.Move Op Res (Option ChangeResult) Bool) :=
  Pool.solo 7 3 false (beside (transitionNode (startOf "b" "rt-2"))) ++
    Pool.solo 8 5 false (applies twoNodes sixteenMore) ++ List.replicate 3 (.step 6 false)

/-- Whether every process has returned. -/
def allReturned {α : Type} (P : Pool Op Res α Past) : Bool :=
  P.procs.all fun p => match p with
    | .ret _ => true
    | .act _ _ => false

variable {P : Pool Op Res (Option ChangeResult) Past}

theorem not_draining {iid : String} (h : allReturned P) : ¬ Draining iid P := by
  rintro ⟨i, o, k, hp, -⟩
  have hall := List.all_eq_true.mp h _ (mem_of_getElem? hp)
  cases hall

theorem beside_transition (c : TransitionCall) :
    QueueUser someApplier "wi-1" twoNodes (beside (transitionNode c)) :=
  .inl (Prog.uses_bind (transitionNode_uses c trivial trivial trivial fun _ _ => trivial)
    fun _ => trivial)

theorem beside_create (ids : List String) :
    QueueUser someApplier "wi-1" twoNodes (beside (createInstance "wi-1" "owner" "" ids)) := by
  refine .inl (Prog.uses_bind ?_ fun _ => trivial)
  unfold createInstance
  split
  · trivial
  refine ⟨trivial, fun now => ⟨fun _ => rfl, fun inserted => ?_⟩⟩
  cases inserted with
  | done => exact ⟨trivial, fun _ => trivial⟩
  | _ => trivial

theorem applies_user (changes : List PendingChange) :
    QueueUser someApplier "wi-1" twoNodes (applies twoNodes changes) :=
  .inr ⟨"owner", .inr ⟨changes, 1, "api", rfl⟩⟩

theorem drains_user :
    QueueUser someApplier "wi-1" twoNodes (someApplier.drainPending "wi-1" twoNodes) :=
  .inr ⟨"owner", .inl rfl⟩

theorem schedule_users {m : Pool.Move Op Res (Option ChangeResult) Bool}
    (hm : m ∈ oneRunning ++ (arrived ++ (aCompleted ++ (drained 20 ++ (drained 5 ++ overtaken)))))
    {p : Program (Option ChangeResult)} (hp : m.starts = some p) :
    QueueUser someApplier "wi-1" twoNodes p := by
  simp only [oneRunning, arrived, aCompleted, drained, overtaken, mem_append] at hm
  rcases hm with ((((hm | hm) | hm) | hm) | hm | hm | hm | hm | (hm | hm) | hm)
  all_goals first
    | (rw [starts_solo hm hp]; exact beside_create _)
    | (rw [starts_solo hm hp]; exact beside_transition _)
    | (rw [starts_solo hm hp]; exact applies_user _)
    | (rw [starts_solo hm hp]; exact drains_user)
    | (obtain ⟨-, rfl⟩ := mem_replicate.mp hm
       cases hp)

abbrev beforeChange : Pool Op Res (Option ChangeResult) Past :=
  Pool.play run ⟨Past.init, []⟩ oneRunning

abbrev afterChange : Pool Op Res (Option ChangeResult) Past :=
  Pool.play run beforeChange arrived

theorem beforeChange_length : beforeChange.procs.length = 4 := by decide +kernel

theorem afterChange_deferred :
    ∃ r, returned afterChange 4 = some (some r) ∧ r.deferred := by
  have h : ((returned afterChange 4).any fun r => r.any fun r => r.deferred) := by
    decide +kernel
  obtain ⟨r, hr, hd⟩ := (Option.any_eq_true _ _).mp h
  obtain ⟨r', rfl, hd'⟩ := (Option.any_eq_true _ _).mp hd
  exact ⟨r', hr, hd'⟩

theorem schedule_runs {guard : Nat → Bool → Past → Op → Prop}
    {moves : List (Pool.Move Op Res (Option ChangeResult) Bool)} (hmoves : ∀ m ∈ moves,
      m ∈ oneRunning ++ (arrived ++ (aCompleted ++ (drained 20 ++ (drained 5 ++ overtaken)))))
    (hg : P.Respects run guard moves) :
    Pool.Runs run (QueueUser someApplier "wi-1" twoNodes) guard P (Pool.play run P moves) := by
  refine Pool.play_guarded run P moves (fun m hm p hp => ?_) hg
  exact schedule_users (hmoves m hm) hp

/-- A change that was deferred and drained when the running node had completed. -/
theorem deferred_kept_of_newData :
    ∃ (Q R : Pool Op Res (Option ChangeResult) Past) (r : ChangeResult),
      returned Q 4 = some (some r) ∧ r.deferred = true ∧ ¬ Draining "wi-1" R ∧
      ∃ newer d older, R.shared.log = newer ++ d :: older ∧
        QueuedBy "wi-1" 4 "api" [newData] d ∧
        ∀ ch ∈ [newData], ch.content ∈ contents (R.shared.state.queueOf "wi-1") ∨
          AppliedIn someApplier "wi-1" twoNodes ch.content newer := by
  obtain ⟨r, hr, hdeferred⟩ := afterChange_deferred
  let R := Pool.play run afterChange (aCompleted ++ drained 20)
  have hdrain : ¬ Draining "wi-1" R := not_draining (by decide +kernel)
  have hP : Pool.Runs run (QueueUser someApplier "wi-1" twoNodes) (Recoverable "wi-1")
      ⟨Past.init, []⟩ beforeChange :=
    schedule_runs (fun _ hm => mem_append_left _ hm)
      (respects_sound run (by decide +kernel))
  have hQ : Pool.Runs run (QueueUser someApplier "wi-1" twoNodes) (Recoverable "wi-1")
      (beforeChange.spawn (applies twoNodes [newData])) afterChange := by
    have hguard : (beforeChange.spawn (applies twoNodes [newData])).Respects run
        (Recoverable "wi-1") (List.replicate 5 (.step 4 false)) :=
      respects_sound run (by decide +kernel)
    refine schedule_runs (fun m hm => ?_) hguard
    have harrived : m ∈ arrived := mem_cons_of_mem _ hm
    exact mem_append_right _ (mem_append_left _ harrived)
  have hR : Pool.Runs run (QueueUser someApplier "wi-1" twoNodes) (Recoverable "wi-1")
      afterChange R := by
    refine schedule_runs (fun m hm => ?_) (respects_sound run (by decide +kernel))
    simp only [mem_append] at hm ⊢
    rcases hm with hm | hm
    · exact .inr (.inr (.inl hm))
    · exact .inr (.inr (.inr (.inl hm)))
  rw [← beforeChange_length] at hr ⊢
  exact ⟨afterChange, R, r, hr, hdeferred, hdrain,
    deferred_kept hP hQ (returned_eq_some hr) hdeferred hR hdrain⟩

/-- A change that was deferred, taken by a drain and neither queued again nor applied: a node
    started and sixteen changes were queued while the drain held it. -/
theorem deferred_lost :
    ∃ (P Q R : Pool Op Res (Option ChangeResult) Past) (r : ChangeResult),
      Pool.Runs run (QueueUser someApplier "wi-1" twoNodes) Pool.free ⟨Past.init, []⟩ P ∧
      Pool.Runs run (QueueUser someApplier "wi-1" twoNodes) Pool.free
        (P.spawn (applies twoNodes [newData])) Q ∧
      Q.procs[P.procs.length]? = some (.ret (some r)) ∧ r.deferred = true ∧
      Pool.Runs run (QueueUser someApplier "wi-1" twoNodes) Pool.free Q R ∧
      ¬ Draining "wi-1" R ∧
      newData.content ∉ contents (R.shared.state.queueOf "wi-1") ∧
      ¬ AppliedIn someApplier "wi-1" twoNodes newData.content R.shared.log := by
  obtain ⟨r, hr, hdeferred⟩ := afterChange_deferred
  let R := Pool.play run afterChange (aCompleted ++ (drained 5 ++ overtaken))
  rw [← beforeChange_length] at hr
  refine ⟨beforeChange, afterChange, R, r, ?_, ?_, returned_eq_some hr, hdeferred, ?_,
    not_draining (by decide +kernel), by decide +kernel, ?_⟩
  · exact schedule_runs (fun _ hm => mem_append_left _ hm) (respects_free run _ _)
  · have hfree : (beforeChange.spawn (applies twoNodes [newData])).Respects run Pool.free
        (List.replicate 5 (.step 4 false)) := respects_free run _ _
    refine schedule_runs (fun m hm => ?_) hfree
    have harrived : m ∈ arrived := mem_cons_of_mem _ hm
    exact mem_append_right _ (mem_append_left _ harrived)
  · refine schedule_runs (fun m hm => ?_) (respects_free run _ _)
    simp only [mem_append] at hm ⊢
    rcases hm with hm | hm | hm
    · exact .inr (.inr (.inl hm))
    · exact .inr (.inr (.inr (.inr (.inl hm))))
    · exact .inr (.inr (.inr (.inr (.inr hm))))
  · -- nobody has recorded a decision
    have hall : (R.shared.log.all fun d =>
        (written "wi-1" d).all fun f => f.decisions = none) = true := by decide +kernel
    rintro ⟨newer, d, older, h, f, decisions, hlog, -, -, hw, hd, -⟩
    have hmem : d ∈ R.shared.log := hlog ▸ mem_append_right _ mem_cons_self
    have hnone := List.all_eq_true.mp hall d hmem
    rw [hw, all_some, decide_eq_true_eq, hd] at hnone
    cases hnone

end WebGis.Workflow
