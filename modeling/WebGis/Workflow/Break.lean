/-
  The requeue pass and the skip pass of a wave as functions on the state map, and that the
  driver's programs compute them when no other writer acts.

  A transition alone succeeds exactly when the table allows it, so each pass is a fold over
  the map, and the local copy of the driver keeps agreeing with the database.

  Whether the driver's loop can break and leave its instance running.

  The loop breaks when no node is ready, running or waiting for a retry. What is then left
  open is a `READY` node above which something is not settled, or a `STALE` node that the
  requeue pass did not resolve: the skip pass has no legal way to skip either of them.
  `break_terminal_iff` says from the states before the passes when that happens.
-/
import WebGis.Workflow.Cancellation

namespace WebGis.Workflow

open Data Conc NodeState List Dict Prog
open Option hiding or_assoc

/-! ## The passes on a state map -/

/-- One stale node: resolved when the index has an entry, else ready again. -/
def requeueState (dag : WorkflowDAG) (reuse : String → Option ReuseHit) (S : States)
    (nodeId : String) : States :=
  if requeueHeld dag S nodeId then S
  else S.set nodeId (if (reuse nodeId).isSome then succeeded else ready)

/-- One node below a failed optional one: skipped where the table allows it. -/
def skipState (failed : List String) (S : States) (nodeId : String) : States :=
  if nodeId ∈ failed then S
  else if S.find nodeId = some pending ∨ S.find nodeId = some blocked then S.set nodeId skipped
  else S

def afterRequeue (dag : WorkflowDAG) (maxConcurrency : Nat) (reuse : String → Option ReuseHit)
    (S : States) : States :=
  ((staleNodes S).take maxConcurrency).foldl (requeueState dag reuse) S

def afterSkip (dag : WorkflowDAG) (S : States) : States :=
  (downstreamClosure dag (failedOptional dag S)).foldl (skipState (failedOptional dag S)) S

/-- The state map that the two passes leave. -/
def afterPasses (dag : WorkflowDAG) (maxConcurrency : Nat) (reuse : String → Option ReuseHit)
    (S : States) : States :=
  afterSkip dag (afterRequeue dag maxConcurrency reuse S)

theorem mem_staleNodes {S : States} {n : String} :
    n ∈ staleNodes S ↔ S.find n = some stale := by
  unfold staleNodes
  rw [find_eq_some, List.mem_map]
  constructor
  · rintro ⟨⟨m, st⟩, hm, rfl⟩
    obtain ⟨hm, hst⟩ := mem_filter.mp hm
    obtain rfl : st = stale := by simpa using hst
    exact hm
  · intro h
    exact ⟨(n, stale), mem_filter.mpr ⟨h, by simp⟩, rfl⟩

theorem staleNodes_nodup (S : States) : (staleNodes S).Nodup :=
  S.unique.sublist (filter_sublist.map _)

theorem mem_failedOptional {dag : WorkflowDAG} {S : States} {n : String} :
    n ∈ failedOptional dag S ↔
      isOptional dag n ∧ (S.find n = some failed ∨ S.find n = some blocked) := by
  unfold failedOptional
  simp only [find_eq_some, List.mem_map, mem_filter, Bool.and_eq_true, Bool.or_eq_true,
    decide_eq_true_eq]
  constructor
  · rintro ⟨⟨m, st⟩, ⟨hm, hopt, hst⟩, rfl⟩
    rcases hst with rfl | rfl
    · exact ⟨hopt, .inl hm⟩
    · exact ⟨hopt, .inr hm⟩
  · rintro ⟨hopt, h | h⟩
    · exact ⟨(n, failed), ⟨h, hopt, .inl rfl⟩, rfl⟩
    · exact ⟨(n, blocked), ⟨h, hopt, .inr rfl⟩, rfl⟩

/-! ## A transition alone, by its states -/

section Alone

variable {w : World} {c : TransitionCall} {st : NodeState}

theorem row_of_stateOf {k : String × String} (h : w.stateOf k = some st) :
    ∃ row, w.nodes.get k = some row ∧ row.state = st :=
  map_eq_some_iff.mp h

/-- The call needs no claim and names no other state than `st`. -/
def AsksFrom (c : TransitionCall) (st : NodeState) : Prop :=
  c.requireClaim = false ∧ (c.expectedFrom = none ∨ c.expectedFrom = some st)

section

variable (hst : w.stateOf c.key = some st)
include hst

theorem alone_not_there (hcomplete : c.complete → st ≠ c.toState) :
    (transitionNode c).alone calm w = c.settle w (w.nodes.get c.key) := by
  rw [transitionNode_alone]
  split
  · rename_i r hr
    split at hr
    · rename_i hc
      obtain ⟨row, hrow, rfl⟩ := row_of_stateOf hst
      rw [hrow] at hr
      simp [TransitionCall.alreadyThere, hcomplete hc] at hr
    · cases hr
  · rfl

/-- A legal transition is carried out and moves its node only. -/
theorem alone_legal (hasks : AsksFrom c st)
    (hcomplete : c.complete → st ≠ c.toState) (hlegal : Legal st c.toState) :
    ((transitionNode c).alone calm w).2.ok ∧
      ∀ k, ((transitionNode c).alone calm w).1.stateOf k =
        if k = c.key then some c.toState else w.stateOf k := by
  rw [alone_not_there hst hcomplete]
  obtain ⟨row, hrow, rfl⟩ := row_of_stateOf hst
  have hjudge : c.judge row = none := by
    refine judge_eq_none.mpr ⟨fun h => ?_, hlegal, fun st' h => ?_⟩
    · rw [hasks.1] at h
      cases h
    · rcases hasks.2 with he | he <;> rw [he] at h <;> cases h
      rfl
  rw [hrow, TransitionCall.settle, hjudge]
  exact ⟨rfl, stateOf_moved hrow⟩

theorem alone_illegal (hcomplete : c.complete = false) (hillegal : ¬ Legal st c.toState) :
    ((transitionNode c).alone calm w).2.ok = false ∧
      ((transitionNode c).alone calm w).1 = w := by
  rw [alone_not_there hst (fun h => absurd h (by rw [hcomplete]; decide))]
  obtain ⟨row, hrow, rfl⟩ := row_of_stateOf hst
  rw [hrow, TransitionCall.settle]
  cases hj : c.judge row with
  | none => exact absurd (judge_eq_none.mp hj).2.1 hillegal
  | some refusal => exact ⟨c.judge_not_ok hj, rfl⟩

end

end Alone

/-! ## The driver's copy agrees with the database -/

/-- The map has the state of every node of the instance. -/
def Agrees (iid : String) (w : World) (S : States) : Prop :=
  ∀ n, w.stateOf (iid, n) = S.find n

theorem agrees_statesOf (w : World) (iid : String) : Agrees iid w (statesOf (w.nodesOf iid)) :=
  fun n => (find_statesOf w iid n).symm

theorem Agrees.set {iid : String} {w w' : World} {S : States} (h : Agrees iid w S) {nid : String}
    {st : NodeState} (hw : ∀ k, w'.stateOf k = if k = (iid, nid) then some st else w.stateOf k) :
    Agrees iid w' (S.set nid st) := by
  intro n
  rw [hw, find_set, h n]
  by_cases hn : n = nid
  · simp [hn]
  · simp [hn, Ne.symm hn]

section Passes

variable {iid : String} {dag : WorkflowDAG} {reuse : String → Option ReuseHit}

theorem alone_reads (w : World) (edges : List (String × String)) :
    ((Prog.forEach edges fun e => (getNode iid e.1).discard).alone calm w).1 = w := by
  induction edges generalizing w with
  | nil => rfl
  | cons e edges ih =>
    rw [Prog.forEach, alone_bind]
    exact ih w

theorem alone_reuseResolve {w : World} {S : States} (h : Agrees iid w S) {nid : String}
    (hst : S.find nid = some stale) (hit : ReuseHit) :
    ((reuseResolve iid nid stale false "" (some hit)).alone calm w).2 = true ∧
      Agrees iid ((reuseResolve iid nid stale false "" (some hit)).alone calm w).1
        (S.set nid succeeded) := by
  have hw : w.stateOf (iid, nid) = some stale := (h nid).trans hst
  rw [reuseResolve, alone_getNode, alone_bind]
  obtain ⟨hok, hmoved⟩ := alone_legal (c := reuseCall iid nid stale false "" hit
    (((w.node iid nid).map fun r => r.attempts).getD 0)) hw ⟨rfl, .inr rfl⟩
    (fun _ => show stale ≠ succeeded by decide) (show Legal stale succeeded by decide)
  exact ⟨hok, h.set hmoved⟩

variable (dag reuse) in
/-- One stale node: the program does to the database and to the copy what `requeueState`
    does to the copy. -/
theorem alone_requeueOne {w : World} {S : States} (h : Agrees iid w S) {nid : String}
    (hst : S.find nid = some stale) :
    ((requeueOne iid dag reuse S nid).alone calm w).2 = requeueState dag reuse S nid ∧
      Agrees iid ((requeueOne iid dag reuse S nid).alone calm w).1
        (requeueState dag reuse S nid) := by
  unfold requeueOne requeueState
  split
  · exact ⟨rfl, h⟩
  rw [alone_bind, alone_reads, alone_bind]
  cases hreuse : reuse nid with
  | some hit =>
    obtain ⟨hok, hagrees⟩ := alone_reuseResolve h hst hit
    rw [hok]
    exact ⟨rfl, hagrees⟩
  | none =>
    have hw : w.stateOf (iid, nid) = some stale := (h nid).trans hst
    obtain ⟨hok, hmoved⟩ := alone_legal (c := recomputeCall iid nid) hw ⟨rfl, .inr rfl⟩
      (fun hc => by cases hc) (show Legal stale ready by decide)
    show (Prog.alone calm (transitionNode (recomputeCall iid nid) >>= _) w).2 = _ ∧
      Agrees iid (Prog.alone calm (transitionNode (recomputeCall iid nid) >>= _) w).1 _
    rw [alone_bind, hok]
    exact ⟨rfl, h.set hmoved⟩

theorem find_requeueState_ne (S : States) {nid n : String} (h : nid ≠ n) :
    (requeueState dag reuse S nid).find n = S.find n := by
  unfold requeueState
  split
  · rfl
  · exact find_set_ne S _ h

variable (dag reuse) in
theorem alone_requeueStale {w : World} {S : States} (h : Agrees iid w S) (maxc : Nat) :
    ((requeueStale iid dag maxc reuse S).alone calm w).2 = afterRequeue dag maxc reuse S ∧
      Agrees iid ((requeueStale iid dag maxc reuse S).alone calm w).1
        (afterRequeue dag maxc reuse S) := by
  -- the nodes still to come are stale, since each round touches its own node only
  suffices hloop : ∀ (xs : List String) (S : States) (w : World), xs.Nodup →
      (∀ n ∈ xs, S.find n = some stale) → Agrees iid w S →
      ((Prog.foldEach xs S (requeueOne iid dag reuse)).alone calm w).2 =
          xs.foldl (requeueState dag reuse) S ∧
        Agrees iid ((Prog.foldEach xs S (requeueOne iid dag reuse)).alone calm w).1
          (xs.foldl (requeueState dag reuse) S) by
    refine hloop _ S w ((staleNodes_nodup S).sublist (take_sublist _ _)) (fun n hn => ?_) h
    exact mem_staleNodes.mp (mem_of_mem_take hn)
  intro xs
  induction xs with
  | nil => exact fun S w _ _ h => ⟨rfl, h⟩
  | cons x xs ih =>
    intro S w hu hstale h
    rw [nodup_cons] at hu
    obtain ⟨hS, hw⟩ := alone_requeueOne dag reuse h
      (hstale x mem_cons_self)
    rw [Prog.foldEach, alone_bind, hS]
    refine ih _ _ hu.2 (fun n hn => ?_) hw
    have hne : x ≠ n := fun he => hu.1 (he ▸ hn)
    rw [find_requeueState_ne S hne]
    exact hstale n (mem_cons_of_mem _ hn)

theorem alone_skipOne {w : World} {S : States} (h : Agrees iid w S) (bad : List String)
    (nid : String) :
    ((skipOne iid bad S nid).alone calm w).2 = skipState bad S nid ∧
      Agrees iid ((skipOne iid bad S nid).alone calm w).1 (skipState bad S nid) := by
  unfold skipOne skipState
  by_cases hbad : nid ∈ bad
  · rw [if_pos (.inl hbad), if_pos hbad]
    exact ⟨rfl, h⟩
  rw [if_neg hbad]
  by_cases hskip : S.find nid = some pending ∨ S.find nid = some blocked
  · have hsome : ∃ st, S.find nid = some st ∧ Legal st skipped ∧ skippable (some st) := by
      rcases hskip with hs | hs <;> exact ⟨_, hs, by decide, by decide⟩
    obtain ⟨st, hst, hlegal, hable⟩ := hsome
    obtain ⟨hok, hmoved⟩ := alone_legal (c := skipCall iid nid) ((h nid).trans hst)
      ⟨rfl, .inl rfl⟩ (fun hc => by cases hc) hlegal
    rw [if_pos hskip, if_neg (by simp [hbad, hst, hable]), alone_bind, hok]
    exact ⟨rfl, h.set hmoved⟩
  · rw [if_neg hskip]
    split
    · exact ⟨rfl, h⟩
    rename_i hable
    have hsome : ∃ st, S.find nid = some st ∧ ¬ Legal st skipped := by
      cases hf : S.find nid with
      | none => simp [hf, skippable, hbad] at hable
      | some st =>
        refine ⟨st, rfl, ?_⟩
        rw [hf] at hskip hable
        cases st <;> first | decide | simp_all [skippable]
    obtain ⟨st, hst, hillegal⟩ := hsome
    obtain ⟨hok, hsame⟩ := alone_illegal (c := skipCall iid nid) ((h nid).trans hst) rfl hillegal
    rw [alone_bind, hok, hsame]
    exact ⟨rfl, h⟩

theorem alone_skipBelowFailed {w : World} {S : States} (h : Agrees iid w S) :
    ((skipBelowFailed iid dag S).alone calm w).2 = afterSkip dag S ∧
      Agrees iid ((skipBelowFailed iid dag S).alone calm w).1 (afterSkip dag S) := by
  unfold skipBelowFailed afterSkip
  generalize failedOptional dag S = bad
  generalize downstreamClosure dag bad = xs
  induction xs generalizing S w with
  | nil => exact ⟨rfl, h⟩
  | cons x xs ih =>
    obtain ⟨hS, hw⟩ := alone_skipOne h bad x
    rw [Prog.foldEach, alone_bind, hS]
    exact ih hw

variable (dag reuse) in
/-- **The passes alone**: the driver's copy becomes the map of the passes, and agrees with the
    database again. -/
theorem alone_passes {w : World} {S : States} (h : Agrees iid w S) (maxc : Nat) :
    ((passes iid dag maxc reuse S).alone calm w).2 = afterPasses dag maxc reuse S ∧
      Agrees iid ((passes iid dag maxc reuse S).alone calm w).1
        (afterPasses dag maxc reuse S) := by
  obtain ⟨hS, hw⟩ := alone_requeueStale dag reuse h maxc
  rw [passes, alone_bind, hS]
  exact alone_skipBelowFailed hw

end Passes

/-! ## What the passes leave -/

section Requeue

variable {dag : WorkflowDAG} {maxc : Nat} {reuse : String → Option ReuseHit} {S : States}
  {n : String}

theorem find_foldl_requeue (xs : List String) (S : States) (h : n ∉ xs) :
    (xs.foldl (requeueState dag reuse) S).find n = S.find n := by
  induction xs generalizing S with
  | nil => rfl
  | cons x xs ih =>
    rw [mem_cons, not_or] at h
    rw [foldl_cons, ih _ h.2, find_requeueState_ne S (Ne.symm h.1)]

/-- The requeue pass touches stale nodes only. -/
theorem afterRequeue_of_ne_stale (h : S.find n ≠ some stale) :
    (afterRequeue dag maxc reuse S).find n = S.find n :=
  find_foldl_requeue _ S fun hn => h (mem_staleNodes.mp (mem_of_mem_take hn))

theorem afterRequeue_of_stale (h : S.find n = some stale) :
    ∃ st ∈ [stale, succeeded, ready], (afterRequeue dag maxc reuse S).find n = some st := by
  unfold afterRequeue
  generalize (staleNodes S).take maxc = xs
  suffices hloop : ∀ S : States, (∃ st ∈ [stale, succeeded, ready], S.find n = some st) →
      ∃ st ∈ [stale, succeeded, ready],
        (xs.foldl (requeueState dag reuse) S).find n = some st from
    hloop S ⟨stale, by decide, h⟩
  induction xs with
  | nil => exact fun _ h => h
  | cons x xs ih =>
    intro S h
    refine ih _ ?_
    by_cases hx : x = n
    · subst hx
      unfold requeueState
      split
      · exact h
      rw [find_set_self]
      split
      · exact ⟨succeeded, by decide, rfl⟩
      · exact ⟨ready, by decide, rfl⟩
    · rw [find_requeueState_ne S hx]
      exact h

theorem afterRequeue_eq_iff {st : NodeState} (hst : st ∉ [stale, succeeded, ready]) :
    (afterRequeue dag maxc reuse S).find n = some st ↔ S.find n = some st := by
  by_cases hs : S.find n = some stale
  · obtain ⟨st', hmem, hfind⟩ : ∃ st' ∈ [stale, succeeded, ready],
        (afterRequeue dag maxc reuse S).find n = some st' := afterRequeue_of_stale hs
    have hne : st' ≠ st := fun he => hst (he ▸ hmem)
    have hne' : stale ≠ st := fun he => hst (he ▸ mem_cons_self)
    rw [hfind, hs]
    simp [hne, hne']
  · rw [afterRequeue_of_ne_stale hs]

end Requeue

section Skip

variable {dag : WorkflowDAG} {S : States} {n : String}

theorem find_afterSkip :
    (afterSkip dag S).find n =
      if n ∈ downstreamClosure dag (failedOptional dag S) ∧ n ∉ failedOptional dag S ∧
          (S.find n = some pending ∨ S.find n = some blocked)
      then some skipped else S.find n := by
  unfold afterSkip
  generalize failedOptional dag S = bad
  generalize downstreamClosure dag bad = xs
  induction xs generalizing S with
  | nil => simp
  | cons x xs ih =>
    rw [foldl_cons, ih]
    by_cases hx : x = n
    · subst hx
      unfold skipState
      by_cases hbad : x ∈ bad
      · simp [hbad]
      by_cases hs : S.find x = some pending ∨ S.find x = some blocked
      · simp [hbad, hs]
      · simp [hbad, hs]
    · have hfind : (skipState bad S x).find n = S.find n := by
        unfold skipState
        split
        · rfl
        split
        · exact find_set_ne S _ hx
        · rfl
      rw [hfind]
      simp [Ne.symm hx]

theorem afterSkip_eq_iff {st : NodeState} (hst : st ∉ [pending, blocked, skipped]) :
    (afterSkip dag S).find n = some st ↔ S.find n = some st := by
  rw [find_afterSkip]
  split
  · rename_i h
    have hskip : skipped ≠ st := fun he => hst (he ▸ by decide)
    have hpend : pending ≠ st := fun he => hst (he ▸ by decide)
    have hblock : blocked ≠ st := fun he => hst (he ▸ by decide)
    rcases h.2.2 with hs | hs <;> simp [hs, hskip, hpend, hblock]
  · exact Iff.rfl

end Skip

/-! ## Resolved stale nodes -/

section Resolved

variable {dag : WorkflowDAG} {maxc : Nat} {reuse : String → Option ReuseHit} {S : States}

/-- No node of the graph is destructive. -/
def WorkflowDAG.Harmless (dag : WorkflowDAG) : Prop :=
  ∀ node ∈ dag.nodes, node.effectiveSideEffect ≠ "destructive"

theorem exists_node {n : String} (h : n ∈ dag.nodeIds) :
    ∃ node ∈ dag.nodes, dag.node n = some node := by
  obtain ⟨node, hnode, rfl⟩ := List.mem_map.mp (mem_filter.mp h).1
  cases hf : dag.node node.nodeId with
  | none =>
    have hno := find?_eq_none.mp hf node hnode
    simp at hno
  | some found => exact ⟨found, mem_of_find?_eq_some hf, rfl⟩

/-- A declared node of a harmless graph waits only for its direct predecessors. -/
theorem requeueHeld_eq_false (hharm : dag.Harmless) {n : String} (hn : n ∈ dag.nodeIds) :
    requeueHeld dag S n = false ↔ ∀ u ∈ predecessors dag n, settled (S.find u) := by
  obtain ⟨node, hmem, hnode⟩ := exists_node hn
  unfold requeueHeld
  rw [hnode]
  simp [hharm node hmem]

/-- The stale nodes all fit into one requeue pass, the index has an entry for each, and the
    direct predecessors of each are settled or stale and read before it. -/
def AllReused (dag : WorkflowDAG) (maxConcurrency : Nat) (reuse : String → Option ReuseHit)
    (S : States) : Prop :=
  (staleNodes S).length ≤ maxConcurrency ∧
    ∀ before n after, staleNodes S = before ++ n :: after →
      (reuse n).isSome ∧ ∀ u ∈ predecessors dag n, settled (S.find u) ∨ u ∈ before

theorem all_resolved_iff (hharm : dag.Harmless)
    (hdecl : ∀ n st, S.find n = some st → n ∈ dag.nodeIds) :
    (∀ n, S.find n = some stale → (afterRequeue dag maxc reuse S).find n = some succeeded) ↔
      AllReused dag maxc reuse S := by
  have hstale : ∀ n ∈ staleNodes S, n ∈ dag.nodeIds := fun n hn => hdecl n _ (mem_staleNodes.mp hn)
  constructor
  · intro h
    have hlen : (staleNodes S).length ≤ maxc := by
      by_contra hlt
      have hdrop : (staleNodes S).drop maxc ≠ [] := by
        rw [Ne, drop_eq_nil_iff]
        exact hlt
      obtain ⟨n, hn⟩ := exists_mem_of_ne_nil _ hdrop
      -- a node beyond the limit is not touched, so it is still stale
      have hnot : n ∉ (staleNodes S).take maxc := fun ht => by
        have hu := staleNodes_nodup S
        rw [← take_append_drop maxc (staleNodes S)] at hu
        exact (nodup_append.mp hu).2.2 n ht n hn rfl
      have hst := mem_staleNodes.mp (mem_of_mem_drop hn)
      have hend := h n hst
      rw [afterRequeue, find_foldl_requeue _ S hnot, hst] at hend
      cases hend
    refine ⟨hlen, fun before n after hsplit => ?_⟩
    have hu := staleNodes_nodup S
    have hmem : n ∈ staleNodes S := by rw [hsplit]; simp
    have hend := h n (mem_staleNodes.mp hmem)
    rw [hsplit] at hu
    rw [afterRequeue, take_of_length_le hlen, hsplit, foldl_append, foldl_cons] at hend
    have hlater : n ∉ after := (nodup_cons.mp (nodup_append.mp hu).2.1).1
    have hearlier : n ∉ before := fun hb =>
      (nodup_append.mp hu).2.2 n hb n mem_cons_self rfl
    rw [find_foldl_requeue _ _ hlater] at hend
    generalize hB : before.foldl (requeueState dag reuse) S = B at hend
    have hBn : B.find n = some stale := by
      rw [← hB, find_foldl_requeue _ S hearlier, mem_staleNodes.mp hmem]
    unfold requeueState at hend
    split at hend
    · rw [hBn] at hend
      cases hend
    · rename_i hheld
      rw [find_set_self] at hend
      have hsome : (reuse n).isSome := by
        by_contra hno
        rw [if_neg hno] at hend
        cases hend
      refine ⟨hsome, fun u hpred => ?_⟩
      have hsettled := (requeueHeld_eq_false hharm (hstale n hmem)).mp (by simpa using hheld) u hpred
      by_cases hub : u ∈ before
      · exact .inr hub
      · rw [← hB, find_foldl_requeue _ S hub] at hsettled
        exact .inl hsettled
  · rintro ⟨hlen, hall⟩
    -- along the pass, the nodes already seen have succeeded and the others are as before
    suffices hloop : ∀ rest before B, staleNodes S = before ++ rest →
        (∀ n, B.find n = if n ∈ before then some succeeded else S.find n) →
        ∀ n ∈ before ++ rest, (rest.foldl (requeueState dag reuse) B).find n = some succeeded by
      intro n hn
      rw [afterRequeue, take_of_length_le hlen]
      exact hloop (staleNodes S) [] S rfl (fun _ => by simp) n (mem_staleNodes.mpr hn)
    intro rest
    induction rest with
    | nil =>
      intro before B _ hB n hn
      rw [append_nil] at hn
      rw [foldl_nil, hB, if_pos hn]
    | cons x rest ih =>
      intro before B hsplit hB
      obtain ⟨hsome, hpred⟩ := hall before x rest hsplit
      have hx : x ∈ dag.nodeIds := hstale x (by rw [hsplit]; simp)
      have hfree : requeueHeld dag B x = false := by
        refine (requeueHeld_eq_false hharm hx).mpr fun u hu => ?_
        rw [hB]
        split
        · rfl
        rename_i hub
        exact (hpred u hu).resolve_right hub
      have hstep : requeueState dag reuse B x = B.set x succeeded := by
        rw [requeueState, hfree, if_neg (by decide), if_pos hsome]
      have hsplit' : staleNodes S = (before ++ [x]) ++ rest := by rw [hsplit]; simp
      have hend := ih (before ++ [x]) (B.set x succeeded) hsplit' fun n => by
        rw [find_set, hB]
        by_cases hxn : x = n
        · simp [hxn]
        · simp [hxn, Ne.symm hxn]
      intro n hn
      rw [foldl_cons, hstep]
      exact hend n (by simpa using hn)

end Resolved

/-! ## The status after the break -/

section Status

variable {dag : WorkflowDAG} {maxc : Nat} {reuse : String → Option ReuseHit} {S : States}

/-- A node of this state does not keep its instance open. -/
def EndsWell (dag : WorkflowDAG) (n : String) (st : NodeState) : Prop :=
  st = succeeded ∨ st = skipped ∨ isOptional dag n = true ∧ (st = failed ∨ st = blocked)

/-- A required node failed or is blocked. -/
def RequiredFailed (dag : WorkflowDAG) (S : States) : Prop :=
  ∃ n, isOptional dag n = false ∧ (S.find n = some failed ∨ S.find n = some blocked)

theorem status_terminal_iff (hsome : ∃ n st, S.find n = some st)
    (hrun : ∀ n, S.find n ≠ some running) :
    instanceStatusFromNodes S.items (isOptional dag) ∈ instanceTerminalStatuses ↔
      (∃ n, S.find n = some cancelled) ∨ (∀ n st, S.find n = some st → EndsWell dag n st) ∨
        RequiredFailed dag S := by
  have hne : S.items ≠ [] := by
    obtain ⟨n, st, h⟩ := hsome
    exact ne_nil_of_mem (find_eq_some.mp h)
  have hnot : ¬ S.items.any (fun p => p.2 = running) := by
    rw [List.any_eq_true]
    rintro ⟨⟨n, st⟩, hp, hst⟩
    obtain rfl : st = running := by simpa using hst
    exact hrun n (find_eq_some.mpr hp)
  have hcancel : S.items.any (fun p => p.2 = cancelled) ↔ ∃ n, S.find n = some cancelled := by
    simp [find_eq_some]
  have hwell : S.items.all (fun p => (p.2 = succeeded || p.2 = skipped) ||
      (isOptional dag p.1 && (p.2 = failed || p.2 = blocked))) ↔
        ∀ n st, S.find n = some st → EndsWell dag n st := by
    simp only [List.all_eq_true, Prod.forall, find_eq_some, EndsWell, Bool.or_eq_true,
      Bool.and_eq_true, decide_eq_true_eq, or_assoc]
  have hfail : S.items.any (fun p => !isOptional dag p.1 && (p.2 = failed || p.2 = blocked)) ↔
      RequiredFailed dag S := by
    simp only [List.any_eq_true, Prod.exists, find_eq_some, RequiredFailed, Bool.or_eq_true,
      Bool.and_eq_true, decide_eq_true_eq, Bool.not_eq_true']
    constructor
    · rintro ⟨n, st, hp, hopt, rfl | rfl⟩
      · exact ⟨n, hopt, .inl hp⟩
      · exact ⟨n, hopt, .inr hp⟩
    · rintro ⟨n, hopt, hp | hp⟩
      · exact ⟨n, failed, hp, hopt, .inl rfl⟩
      · exact ⟨n, blocked, hp, hopt, .inr rfl⟩
  unfold instanceStatusFromNodes
  rw [if_neg hne, if_neg hnot]
  split
  · rename_i h
    exact iff_of_true (by decide) (.inl (hcancel.mp h))
  · rename_i hc
    split
    · rename_i h
      exact iff_of_true (by decide) (.inr (.inl (hwell.mp h)))
    · rename_i hw
      split
      · rename_i h
        exact iff_of_true (by decide) (.inr (.inr (hfail.mp h)))
      · rename_i hf
        refine iff_of_false (by decide) ?_
        rintro (h | h | h)
        · exact hc (hcancel.mpr h)
        · exact hw (hwell.mpr h)
        · exact hf (hfail.mpr h)

/-! ## Which states close their instance -/

/-- The passes leave a required node failed, or blocked and not below a failed optional one. -/
def RequiredLost (dag : WorkflowDAG) (S : States) : Prop :=
  ∃ n, isOptional dag n = false ∧ (S.find n = some failed ∨
    S.find n = some blocked ∧ n ∉ downstreamClosure dag (failedOptional dag S))

/-- From these states the passes lead to a terminal status, if nothing is ready or runs
    after them. -/
def Closes (dag : WorkflowDAG) (maxConcurrency : Nat) (reuse : String → Option ReuseHit)
    (S : States) : Prop :=
  (∃ n, S.find n = some cancelled) ∨ RequiredLost dag S ∨
    (∀ n, S.find n ≠ some ready) ∧ AllReused dag maxConcurrency reuse S

theorem afterPasses_eq_iff {n : String} {st : NodeState} (hst : st ∈ [running, failed, cancelled]) :
    (afterPasses dag maxc reuse S).find n = some st ↔ S.find n = some st := by
  have hskip : st ∉ [pending, blocked, skipped] := by
    intro h
    cases st <;> simp_all
  have hrequeue : st ∉ [stale, succeeded, ready] := by
    intro h
    cases st <;> simp_all
  rw [afterPasses, afterSkip_eq_iff hskip, afterRequeue_eq_iff hrequeue]

theorem afterPasses_isSome (n : String) :
    (∃ st, (afterPasses dag maxc reuse S).find n = some st) ↔ ∃ st, S.find n = some st := by
  have hrequeue : (∃ st, (afterRequeue dag maxc reuse S).find n = some st) ↔
      ∃ st, S.find n = some st := by
    by_cases hs : S.find n = some stale
    · obtain ⟨st, -, hfind⟩ : ∃ st ∈ [stale, succeeded, ready],
          (afterRequeue dag maxc reuse S).find n = some st := afterRequeue_of_stale hs
      exact iff_of_true ⟨st, hfind⟩ ⟨stale, hs⟩
    · rw [afterRequeue_of_ne_stale hs]
  rw [← hrequeue, afterPasses, find_afterSkip]
  split
  · rename_i h
    exact iff_of_true ⟨skipped, rfl⟩ (h.2.2.elim (⟨_, ·⟩) (⟨_, ·⟩))
  · exact Iff.rfl

theorem mem_failedOptional_afterRequeue {n : String} :
    n ∈ failedOptional dag (afterRequeue dag maxc reuse S) ↔ n ∈ failedOptional dag S := by
  rw [mem_failedOptional, mem_failedOptional, afterRequeue_eq_iff (by decide),
    afterRequeue_eq_iff (by decide)]

theorem mem_closure_afterRequeue {n : String} :
    n ∈ downstreamClosure dag (failedOptional dag (afterRequeue dag maxc reuse S)) ↔
      n ∈ downstreamClosure dag (failedOptional dag S) := by
  simp only [mem_downstreamClosure, mem_failedOptional_afterRequeue]

theorem requiredFailed_afterPasses :
    RequiredFailed dag (afterPasses dag maxc reuse S) ↔ RequiredLost dag S := by
  refine exists_congr fun n => and_congr_right fun hopt => ?_
  rw [afterPasses_eq_iff (by decide)]
  refine or_congr Iff.rfl ?_
  have hreq : n ∉ failedOptional dag (afterRequeue dag maxc reuse S) := fun h => by
    rw [(mem_failedOptional.mp h).1] at hopt
    cases hopt
  rw [afterPasses, find_afterSkip]
  simp only [mem_closure_afterRequeue, hreq, not_false_eq_true, true_and]
  have hblocked : (afterRequeue dag maxc reuse S).find n = some blocked ↔
      S.find n = some blocked := afterRequeue_eq_iff (by decide)
  by_cases hclosure : n ∈ downstreamClosure dag (failedOptional dag S)
  · refine iff_of_false (fun h => ?_) fun h => h.2 hclosure
    split at h
    · cases h
    rename_i hnot
    exact hnot ⟨hclosure, .inr h⟩
  · simp [hclosure, hblocked]

theorem not_mem_closure_of_pending {S : States} {n : String}
    (h : (afterSkip dag S).find n = some pending) :
    n ∉ downstreamClosure dag (failedOptional dag S) := by
  intro hclosure
  rw [find_afterSkip] at h
  split at h
  · cases h
  rename_i hnot
  refine hnot ⟨hclosure, fun hbad => ?_, .inl h⟩
  have := (mem_failedOptional.mp hbad).2
  rw [h] at this
  rcases this with h | h <;> cases h

/-- Among pending nodes without ready ones, one waits for a node that is neither settled nor
    pending. -/
theorem exists_waiting {S : States} (hvalid : dag.Valid)
    (hkeys : ∀ n, (∃ st, S.find n = some st) ↔ n ∈ dag.nodeIds) (hready : readySet dag S = [])
    {n : String} (hn : S.find n = some pending) :
    ∃ m u st, S.find m = some pending ∧ u ∈ predecessors dag m ∧ S.find u = some st ∧
      st ≠ succeeded ∧ st ≠ skipped ∧ st ≠ pending := by
  obtain ⟨m, hm, hmin⟩ := exists_minimal hvalid.acyclic (V := dag.nodeIds)
    (P := fun m => S.find m = some pending) (fun m hm => (hkeys m).mp ⟨_, hm⟩) ⟨n, hn⟩
  have hdeclared : m ∈ dag.nodeIds := (hkeys m).mp ⟨_, hm⟩
  have hnot : m ∉ readySet dag S := by
    rw [hready]
    exact not_mem_nil
  have hunsettled : ∃ u ∈ predecessors dag m,
      S.find u ≠ some succeeded ∧ S.find u ≠ some skipped := by
    by_contra hall
    push Not at hall
    refine hnot (mem_filter.mpr ⟨(mem_filter.mp hdeclared).1, ?_⟩)
    have hne : m ≠ "" := by simpa using (mem_filter.mp hdeclared).2
    have hpend : S.getD m pending = pending := by rw [Dict.getD, hm, getD_some]
    simp only [hne, hpend, ne_eq, not_false_eq_true, decide_true, not_mem_nil, Bool.true_and,
      List.all_eq_true, Bool.or_eq_true, decide_eq_true_eq, Bool.and_eq_true, or_true, true_and]
    intro u hu
    exact Classical.or_iff_not_imp_left.mpr (hall u hu)
  obtain ⟨u, hu, hsucc, hskip⟩ := hunsettled
  obtain ⟨st, hst⟩ := (hkeys u).mpr (hvalid.declared u m hu)
  refine ⟨m, u, st, hm, hu, hst, ?_, ?_, ?_⟩
  · exact fun he => hsucc (he ▸ hst)
  · exact fun he => hskip (he ▸ hst)
  · exact fun he => hmin u hu (he ▸ hst)

/-- **When a break closes its instance**, by the states before the passes. -/
theorem afterPasses_terminal_iff (hvalid : dag.Valid) (hharm : dag.Harmless)
    (hkeys : ∀ n, (∃ st, S.find n = some st) ↔ n ∈ dag.nodeIds) (hsome : dag.nodeIds ≠ [])
    (hready : readySet dag (afterPasses dag maxc reuse S) = [])
    (hrun : ∀ n, (afterPasses dag maxc reuse S).find n ≠ some running) :
    instanceStatusFromNodes (afterPasses dag maxc reuse S).items (isOptional dag) ∈
      instanceTerminalStatuses ↔ Closes dag maxc reuse S := by
  have hkeys' : ∀ n, (∃ st, (afterPasses dag maxc reuse S).find n = some st) ↔ n ∈ dag.nodeIds :=
    fun n => (afterPasses_isSome n).trans (hkeys n)
  have hnode : ∃ n st, (afterPasses dag maxc reuse S).find n = some st := by
    obtain ⟨n, hn⟩ := exists_mem_of_ne_nil _ hsome
    exact ⟨n, (hkeys' n).mpr hn⟩
  rw [status_terminal_iff hnode hrun, requiredFailed_afterPasses]
  have hcancelled : ∀ n, (afterPasses dag maxc reuse S).find n = some cancelled ↔
      S.find n = some cancelled := fun n => afterPasses_eq_iff (by decide)
  simp only [hcancelled]
  -- a stale or ready node of the first pass is one of the second
  have hkept : ∀ {n st}, st ∈ [stale, succeeded, ready] →
      ((afterPasses dag maxc reuse S).find n = some st ↔
        (afterRequeue dag maxc reuse S).find n = some st) := by
    intro n st hst
    refine afterSkip_eq_iff fun h => ?_
    cases st <;> simp_all
  constructor
  · rintro (h | h | h)
    · exact .inl h
    · refine .inr (.inr ⟨fun n hn => ?_, ?_⟩)
      · have hend := h n ready ((hkept (by decide)).mpr
          ((afterRequeue_of_ne_stale (by rw [hn]; decide)).trans hn))
        simp [EndsWell] at hend
      · refine (all_resolved_iff hharm fun n st hn => (hkeys n).mp ⟨st, hn⟩).mp fun n hn => ?_
        obtain ⟨st, hmem, hfind⟩ : ∃ st ∈ [stale, succeeded, ready],
            (afterRequeue dag maxc reuse S).find n = some st := afterRequeue_of_stale hn
        have hend := h n st ((hkept hmem).mpr hfind)
        simp only [mem_cons, not_mem_nil, or_false] at hmem
        rcases hmem with rfl | rfl | rfl
        · simp [EndsWell] at hend
        · exact hfind
        · simp [EndsWell] at hend
    · exact .inr (.inl h)
  · rintro (h | h | ⟨hnoready, hall⟩)
    · exact .inl h
    · exact .inr (.inr h)
    · by_cases hcancel : ∃ n, S.find n = some cancelled
      · exact .inl hcancel
      by_cases hlost : RequiredLost dag S
      · exact .inr (.inr hlost)
      have hresolved := (all_resolved_iff hharm fun n st hn => (hkeys n).mp ⟨st, hn⟩).mpr hall
      -- what is left open could only be pending or failed
      have hopen : ∀ n st, (afterPasses dag maxc reuse S).find n = some st → st ≠ pending →
          EndsWell dag n st := by
        intro n st hn hpend
        have hreq : st = failed ∨ st = blocked → isOptional dag n := by
          intro hst
          by_contra hopt
          have hfail : RequiredFailed dag (afterPasses dag maxc reuse S) := by
            refine ⟨n, by simpa using hopt, ?_⟩
            rcases hst with rfl | rfl
            · exact .inl hn
            · exact .inr hn
          exact hlost (requiredFailed_afterPasses.mp hfail)
        have hopened : st ≠ stale ∧ st ≠ ready := by
          by_cases hs : S.find n = some stale
          · have hsucc := (hkept (by decide)).mpr (hresolved n hs)
            rw [hn] at hsucc
            cases hsucc
            decide
          · have hkeep : (afterRequeue dag maxc reuse S).find n = S.find n :=
              afterRequeue_of_ne_stale hs
            constructor
            · rintro rfl
              exact hs (hkeep ▸ (hkept (by decide)).mp hn)
            · rintro rfl
              exact hnoready n (hkeep ▸ (hkept (by decide)).mp hn)
        cases st with
        | pending => exact absurd rfl hpend
        | ready => exact absurd rfl hopened.2
        | running => exact absurd hn (hrun n)
        | succeeded => exact .inl rfl
        | failed => exact .inr (.inr ⟨hreq (.inl rfl), .inl rfl⟩)
        | blocked => exact .inr (.inr ⟨hreq (.inr rfl), .inr rfl⟩)
        | skipped => exact .inr (.inl rfl)
        | cancelled => exact absurd ⟨n, (afterPasses_eq_iff (by decide)).mp hn⟩ hcancel
        | stale => exact absurd rfl hopened.1
      refine .inr (.inl fun n st hn => ?_)
      by_cases hpend : st = pending
      · -- a pending node would wait for a failed optional one, and would have been skipped
        subst hpend
        obtain ⟨m, u, st, hm, hu, hst, hsucc, hskip, hne⟩ := exists_waiting hvalid hkeys' hready hn
        have hbad : u ∈ failedOptional dag (afterRequeue dag maxc reuse S) := by
          rcases hopen u st hst hne with rfl | rfl | ⟨hopt, rfl | rfl⟩
          · exact absurd rfl hsucc
          · exact absurd rfl hskip
          · exact mem_failedOptional.mpr ⟨hopt, .inl ((afterSkip_eq_iff (by decide)).mp hst)⟩
          · refine mem_failedOptional.mpr ⟨hopt, .inr ?_⟩
            rw [afterPasses, find_afterSkip] at hst
            split at hst
            · cases hst
            · exact hst
        refine absurd ?_ (not_mem_closure_of_pending hm)
        exact mem_downstreamClosure.mpr ⟨u, hbad, .single (mem_predecessors.mp hu)⟩
      · exact hopen n st hn hpend

end Status

/-! ## The driver -/

section Driver

variable (iid owner : String) (dag : WorkflowDAG) (maxc : Nat) (reuse : String → Option ReuseHit)
  (S : States) (w : World)

/-- The database and the state map after the two passes of a wave. -/
def passed : World × States := (passes iid dag maxc reuse S).alone calm w

/-- After its passes the loop breaks with no node ready: none runs and none waits for a
    retry either. -/
def Breaks : Prop :=
  readySet dag (passed iid dag maxc reuse S w).2 = [] ∧
    ((decideWave iid dag maxc (passed iid dag maxc reuse S w).2).alone calm
      (passed iid dag maxc reuse S w).1).2 = .settled

/-- The status that the driver takes from the states after the break. -/
def endStatus : InstanceStatus :=
  ((finishRun iid owner dag).alone calm (passed iid dag maxc reuse S w).1).2.1

variable {iid dag maxc reuse S w}

theorem breaks_iff : Breaks iid dag maxc reuse S w ↔
    readySet dag (passed iid dag maxc reuse S w).2 = [] ∧
      ∀ n, (passed iid dag maxc reuse S w).2.find n ≠ some running := by
  unfold Breaks
  generalize (passed iid dag maxc reuse S w).1 = w'
  generalize (passed iid dag maxc reuse S w).2 = T
  refine and_congr_right fun hready => ?_
  have hany : T.items.any (fun p => p.2 = running) ↔ ∃ n, T.find n = some running := by
    simp [find_eq_some]
  rw [decideWave, hready]
  change ((if _ then _ else _ : Program WaveEnd).alone calm _).2 = _ ↔ _
  split
  · rename_i h
    obtain ⟨n, hn⟩ := hany.mp (h.resolve_right fun hnil => hnil rfl)
    exact iff_of_false (fun hend => by cases hend) fun hall => hall n hn
  · rename_i h
    rw [not_or] at h
    exact iff_of_true rfl fun n hn => h.1 (hany.mpr ⟨n, hn⟩)

theorem instanceStatus_congr {S T : States} (h : ∀ n, S.find n = T.find n) (opt : String → Bool) :
    instanceStatusFromNodes S.items opt = instanceStatusFromNodes T.items opt := by
  have hperm : S.items.Perm T.items := items_perm h
  have hnil : S.items = [] ↔ T.items = [] := by
    rw [← length_eq_zero_iff, hperm.length_eq, length_eq_zero_iff]
  have hany : ∀ p : String × NodeState → Bool, S.items.any p = T.items.any p := fun p => by
    rw [Bool.eq_iff_iff, List.any_eq_true, List.any_eq_true]
    simp only [hperm.mem_iff]
  have hall : ∀ p : String × NodeState → Bool, S.items.all p = T.items.all p := fun p => by
    rw [Bool.eq_iff_iff, List.all_eq_true, List.all_eq_true]
    simp only [hperm.mem_iff]
  unfold instanceStatusFromNodes
  simp only [hnil, hany, hall]

theorem endStatus_eq (h : Agrees iid w S) :
    endStatus iid owner dag maxc reuse S w =
      instanceStatusFromNodes (afterPasses dag maxc reuse S).items (isOptional dag) := by
  obtain ⟨hS, hw⟩ := alone_passes dag reuse h maxc
  have hread : ∀ n, (statesOf ((passed iid dag maxc reuse S w).1.nodesOf iid)).find n =
      (afterPasses dag maxc reuse S).find n := fun n => (find_statesOf _ iid n).trans (hw n)
  rw [← instanceStatus_congr hread (isOptional dag)]
  rw [endStatus, finishRun, alone_bind]
  rw [alone_bind]
  rfl

/-- **When a break closes its instance.** For every acyclic graph without destructive nodes,
    every database with a row for each of its nodes, and every copy of the states that agrees
    with it: if the loop breaks after its passes, the status is terminal exactly when the
    states before the passes close. -/
theorem break_terminal_iff (hvalid : dag.Valid) (hharm : dag.Harmless) (hsome : dag.nodeIds ≠ [])
    (hkeys : ∀ n, (∃ st, w.stateOf (iid, n) = some st) ↔ n ∈ dag.nodeIds) (h : Agrees iid w S)
    (hbreak : Breaks iid dag maxc reuse S w) :
    endStatus iid owner dag maxc reuse S w ∈ instanceTerminalStatuses ↔
      Closes dag maxc reuse S := by
  obtain ⟨hS, -⟩ := alone_passes dag reuse h maxc
  obtain ⟨hready, hrun⟩ := breaks_iff.mp hbreak
  rw [passed, hS] at hready hrun
  rw [endStatus_eq owner h]
  refine afterPasses_terminal_iff hvalid hharm (fun n => ?_) hsome hready hrun
  rw [← hkeys n, h n]

end Driver

/-! ## Two breaks -/

theorem rows_of_ids {dag : WorkflowDAG} {w : World} {iid : String}
    (h : ((w.nodesOf iid).map fun r => r.nodeId) = dag.nodeIds) (n : String) :
    (∃ st, w.stateOf (iid, n) = some st) ↔ n ∈ dag.nodeIds := by
  rw [← h, List.mem_map]
  constructor
  · rintro ⟨st, hst⟩
    obtain ⟨r, hr, -⟩ := map_eq_some_iff.mp hst
    have hn : r.nodeId = n := congrArg Prod.snd (Table.get_key hr)
    subst hn
    exact ⟨r, mem_nodesOf.mpr hr, rfl⟩
  · rintro ⟨r, hr, rfl⟩
    exact ⟨r.state, by rw [World.stateOf, mem_nodesOf.mp hr, map_some]⟩

/-- An optional node and one that depends on it. -/
def optionalFirst : WorkflowDAG where
  nodes := [{ nodeId := "a", optional := true }, { nodeId := "b", dependsOn := ["a"] }]
  edges := []

theorem optionalFirst_valid : optionalFirst.Valid :=
  WorkflowDAG.valid_of_order (by decide) (by decide)

theorem optionalFirst_harmless : optionalFirst.Harmless := by
  unfold WorkflowDAG.Harmless
  decide

/-- The instance is created, then processes move its nodes one after another. -/
def movedInTurn (moves : List (String × NodeState)) : List (Pool.Move Op Res Unit Bool) :=
  Pool.solo 0 3 false (createInstance "wi-1" "owner" "" ["a", "b"]).discard ++
    (moves.zipIdx 1).flatMap fun move => Pool.solo move.2 3 false (transitionNode
      { instanceId := "wi-1", nodeId := move.1.1, toState := move.1.2, event := "driver" }).discard

theorem movedInTurn_reached (moves : List (String × NodeState)) :
    Reached anyCall (Pool.play run ⟨Past.init, []⟩ (movedInTurn moves)) := by
  refine Pool.play_runs run _ _ fun m hm p hp => ?_
  rcases mem_append.mp hm with hm | hm
  · rw [Pool.starts_solo hm hp]
    exact (createInstance_client _ _ _ _).bind fun _ => .done ()
  · obtain ⟨move, -, hm⟩ := mem_flatMap.mp hm
    rw [Pool.starts_solo hm hp]
    exact (transitionNode_client trivial).bind fun _ => .done ()

/-- The database that the moves lead to. -/
def movedTo (moves : List (String × NodeState)) : World :=
  (Pool.play run ⟨Past.init, []⟩ (movedInTurn moves)).shared.state

/-- The optional node fails before the other has started. -/
def failedFirst : List (String × NodeState) := [("a", ready), ("a", running), ("a", failed)]

/-- Both succeed, a change makes both stale, and the optional one fails when it is computed
    again. -/
def failedAgain : List (String × NodeState) :=
  [("a", ready), ("a", running), ("a", succeeded), ("b", ready), ("b", running), ("b", succeeded),
    ("a", stale), ("b", stale), ("a", ready), ("a", running), ("a", failed)]

/-- Nothing can be reused. -/
def noReuse : String → Option ReuseHit := fun _ => none

/-- The states of the two nodes after the moves. -/
def statesAfter (moves : List (String × NodeState)) : States :=
  statesOf ((movedTo moves).nodesOf "wi-1")

theorem breaks_of_none_running {moves : List (String × NodeState)} (h : readySet optionalFirst
        (passed "wi-1" optionalFirst 4 noReuse (statesAfter moves) (movedTo moves)).2 = [] ∧
      ∀ p ∈ (passed "wi-1" optionalFirst 4 noReuse (statesAfter moves) (movedTo moves)).2.items,
        p.2 ≠ running) :
    Breaks "wi-1" optionalFirst 4 noReuse (statesAfter moves) (movedTo moves) :=
  breaks_iff.mpr ⟨h.1, fun n hn => h.2 (n, running) (find_eq_some.mp hn) rfl⟩

/-- The pending node is skipped and the instance succeeds. -/
theorem break_terminal_of_failedFirst :
    endStatus "wi-1" "owner" optionalFirst 4 noReuse (statesAfter failedFirst)
        (movedTo failedFirst) ∈ instanceTerminalStatuses ↔
      Closes optionalFirst 4 noReuse (statesAfter failedFirst) :=
  break_terminal_iff "owner" optionalFirst_valid optionalFirst_harmless (by decide)
    (rows_of_ids (by decide)) (agrees_statesOf _ _)
    (breaks_of_none_running (by decide))

/-- The stale node can neither be skipped nor be computed: the loop breaks and the instance
    stays `running`. -/
theorem stuck_below_optional :
    ¬ ∀ (Q : Pool Op Res Unit Past), Reached anyCall Q → ∀ (iid owner : String) (dag : WorkflowDAG)
      (maxc : Nat) (reuse : String → Option ReuseHit), dag.Valid → dag.Harmless →
      dag.nodeIds ≠ [] →
      (∀ n, (∃ st, Q.shared.state.stateOf (iid, n) = some st) ↔ n ∈ dag.nodeIds) →
      Breaks iid dag maxc reuse (statesOf (Q.shared.state.nodesOf iid)) Q.shared.state →
      endStatus iid owner dag maxc reuse (statesOf (Q.shared.state.nodesOf iid)) Q.shared.state ∈
        instanceTerminalStatuses := by
  intro hclaim
  have hend := hclaim _ (movedInTurn_reached failedAgain) "wi-1" "owner" optionalFirst 4 noReuse
    optionalFirst_valid optionalFirst_harmless (by decide +kernel)
    (rows_of_ids (by decide +kernel)) (breaks_of_none_running (by decide +kernel))
  revert hend
  decide +kernel

end WebGis.Workflow
