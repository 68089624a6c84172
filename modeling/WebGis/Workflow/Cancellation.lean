/-
  A transition with no competing writer.

  The compare-and-set then finds the row that was read, so the loop of `transition_node` ends
  in its first round or repeats one refusal to the last: `transitionNode_alone` gives the
  database and the result at once.

  Whether a cancellation that is consumed reaches every open node.

  The loops of the driver and of recovery ask for `cancelled` from every node that was not
  decided; the table of transitions then decides. It has no way from `blocked` and `stale`
  to `cancelled`, so with no competing writer a cancellation converges exactly when no node
  is in one of these two states (`cancel_converges_iff`).
-/
import WebGis.Workflow.Driver
import WebGis.Workflow.Journal
import WebGis.Workflow.Steps

open List Option

namespace WebGis.Workflow

open Data Conc NodeState Prog Table

/-- No statement meets a locked database. -/
abbrev calm : World → (o : Op) → World × Res o := exec false

/-- The database after the transition `c` of `row`. -/
def World.moved (w : World) (c : TransitionCall) (row : NodeRow) : World :=
  { w with
    nodes := w.nodes.put (c.newRow row w.clock row)
    events := w.events ++ [c.journalRow row] }

theorem alone_sparesNodes {α : Type} {p : Program α} (hp : p.Uses SparesNodes) (w : World) :
    (p.alone calm w).1.nodes = w.nodes := by
  have hstep : ∀ (o : Op) (s : World), SparesNodes o → (calm s o).1.nodes = s.nodes :=
    fun _ s ho => exec_nodes false s ho
  exact alone_of_uses World.nodes hstep hp w

theorem utcnow_sparesNodes : utcnow.Uses SparesNodes := ⟨True.intro, fun _ => True.intro⟩

theorem updateInstance_sparesNodes (iid : String) (owner : Option String) (rev : Option Nat)
    (fields : InstancePatch) : (updateInstance iid owner rev fields).Uses SparesNodes :=
  updateInstance_uses True.intro (fun _ => True.intro) True.intro

section Statements

variable {α : Type} (w : World)

theorem alone_utcnow (f : Nat → Program α) :
    (utcnow >>= f).alone calm w = (f w.clock).alone calm w := rfl

theorem alone_getNode (i n : String) (f : Option NodeRow → Program α) :
    (getNode i n >>= f).alone calm w = (f (w.node i n)).alone calm w := rfl

theorem alone_selectNode (i n : String) (f : Answer (Option NodeRow) → Program α) :
    (selectNode i n >>= f).alone calm w = (f (.done (w.node i n))).alone calm w := rfl

theorem alone_updateNode (c : TransitionCall) (seen : NodeRow) (now : Nat)
    (f : Answer Bool → Program α) :
    (updateNode c seen now >>= f).alone calm w =
      (f (.done (w.updateNode c seen now).2)).alone calm (w.updateNode c seen now).1 := rfl

end Statements

namespace TransitionCall

variable (c : TransitionCall)

/-- The result of a transition that is carried out. -/
def carried (row : NodeRow) : TransitionResult :=
  { ok := true, code := .ok, state := some c.toState, stateRevision := row.stateRevision + 1 }

/-- The database and the result of one transition on the row that is there. -/
def settle (w : World) : Option NodeRow → World × TransitionResult
  | none => (w, { ok := false, code := .noSuchNode })
  | some row =>
    match c.judge row with
    | some refusal => (w, refusal)
    | none => (w.moved c row, c.carried row)

variable {refusal : TransitionResult} {row : NodeRow}

theorem judge_casConflict (h : c.judge row = some refusal) (hc : refusal.code = .casConflict) :
    refusal = { ok := false, code := .casConflict, state := some row.state } := by
  unfold judge at h
  split at h
  · cases h
    cases hc
  · split at h
    · cases h
      cases hc
    · split at h
      · cases h
        rfl
      · cases h

theorem judge_not_ok (h : c.judge row = some refusal) : refusal.ok = false := by
  unfold judge at h
  split at h
  · cases h
    rfl
  · split at h
    · cases h
      rfl
    · split at h
      · cases h
        rfl
      · cases h

theorem alone_update {w : World} (hrow : w.nodes.get c.key = some row) :
    (c.update row).alone calm w = (w.moved c row, Answer.done (c.carried row)) := by
  have hhit : w.updateNode c row w.clock = (w.moved c row, true) := by
    simp [World.updateNode, hrow, World.moved]
  rw [update, alone_utcnow, alone_updateNode, hhit]
  rfl

theorem alone_tryTransition (w : World) :
    c.tryTransition.alone calm w =
      ((c.settle w (w.nodes.get c.key)).1, Answer.done (c.settle w (w.nodes.get c.key)).2) := by
  rw [tryTransition, alone_selectNode, show w.node c.instanceId c.nodeId = w.nodes.get c.key from rfl]
  cases hrow : w.nodes.get c.key with
  | none => rfl
  | some row =>
    show (c.tryOn row).alone calm w = _
    rw [tryOn, settle]
    cases hj : c.judge row with
    | some refusal => rfl
    | none => exact alone_update c hrow

theorem settle_casConflict {w : World} {found : Option NodeRow}
    (h : (c.settle w found).2.code = .casConflict) :
    ∃ row, found = some row ∧ c.settle w found =
      (w, { ok := false, code := .casConflict, state := some row.state }) := by
  cases found with
  | none => cases h
  | some row =>
    rw [settle] at h ⊢
    cases hj : c.judge row with
    | none =>
      rw [hj] at h
      cases h
    | some refusal =>
      rw [hj] at h
      exact ⟨row, rfl, by rw [c.judge_casConflict hj h]⟩

section

variable (w : World) (hopen : c.complete = true → c.alreadyThere (w.nodes.get c.key) = none) (n : Nat)
include w hopen n

/-- One round, where `hrest` says what the rounds after a conflict end in. -/
theorem alone_rounds_succ (hrest : (c.settle w (w.nodes.get c.key)).2.code = .casConflict →
      (c.rounds n).alone calm w = c.settle w (w.nodes.get c.key)) :
    (c.rounds (n + 1)).alone calm w = c.settle w (w.nodes.get c.key) := by
  rw [rounds, alone_bind, alone_tryTransition]
  dsimp only
  by_cases hcode : (c.settle w (w.nodes.get c.key)).2.code = .casConflict
  · obtain ⟨row, -, hsettle⟩ := c.settle_casConflict hcode
    have hworld : (c.settle w (w.nodes.get c.key)).1 = w := by rw [hsettle]
    rw [if_neg (not_not.mpr hcode), hworld]
    by_cases hcomp : c.complete
    · rw [if_pos hcomp, alone_getNode]
      show Prog.alone calm (match c.alreadyThere (w.nodes.get c.key) with
        | some r => _ | none => _) w = _
      rw [hopen hcomp]
      exact hrest hcode
    · rw [if_neg hcomp]
      exact hrest hcode
  · rw [if_pos hcode]
    rfl

theorem alone_rounds :
    (c.rounds (n + 1)).alone calm w = c.settle w (w.nodes.get c.key) := by
  induction n with
  | zero =>
    refine c.alone_rounds_succ w hopen 0 fun hcode => ?_
    obtain ⟨row, hrow, hsettle⟩ := c.settle_casConflict hcode
    rw [hsettle, rounds, alone_getNode, show w.node c.instanceId c.nodeId = some row from hrow]
    rfl
  | succ n ih => exact c.alone_rounds_succ w hopen (n + 1) fun _ => ih

end

end TransitionCall

/-- **A transition alone**: a completion that is there already changes nothing; otherwise the
    row that is there is judged once. -/
theorem transitionNode_alone (c : TransitionCall) (w : World) :
    (transitionNode c).alone calm w =
      match if c.complete then c.alreadyThere (w.nodes.get c.key) else none with
      | some r => (w, r)
      | none => c.settle w (w.nodes.get c.key) := by
  rw [transitionNode]
  by_cases hcomp : c.complete
  · rw [if_pos hcomp, if_pos hcomp, alone_getNode]
    show Prog.alone calm (match c.alreadyThere (w.nodes.get c.key) with | some r => _ | none => _) w = _
    cases ha : c.alreadyThere (w.nodes.get c.key) with
    | some r => rfl
    | none => exact c.alone_rounds w (fun _ => ha) 4
  · rw [if_neg hcomp, if_neg hcomp]
    exact c.alone_rounds w (fun h => absurd h hcomp) 4

/-! ## States of nodes -/

/-- The state of a node. -/
def World.stateOf (w : World) (k : String × String) : Option NodeState :=
  (w.nodes.get k).map fun r => r.state

/-- Whether the cancel flag of a node is set. -/
def World.flagged (w : World) (k : String × String) : Prop :=
  ∃ r, w.nodes.get k = some r ∧ r.cancelRequested = true

theorem stateOf_congr {w w' : World} (h : w'.nodes = w.nodes) (k : String × String) :
    w'.stateOf k = w.stateOf k := by
  rw [World.stateOf, h]
  rfl

theorem mem_nodesOf {w : World} {iid : String} {r : NodeRow} :
    r ∈ w.nodesOf iid ↔ w.nodes.get (iid, r.nodeId) = some r := by
  rw [World.nodesOf, mem_filter]
  constructor
  · rintro ⟨hmem, hid⟩
    have hkey : r.key = (iid, r.nodeId) := by
      rw [NodeRow.key, show r.instanceId = iid by simpa using hid]
    exact hkey ▸ Table.get_of_mem hmem
  · intro h
    have hid : r.instanceId = iid := congrArg Prod.fst (get_key h)
    exact ⟨mem_of_get h, by simpa using hid⟩

theorem nodesOf_nodup (w : World) (iid : String) :
    ((w.nodesOf iid).map fun r => r.nodeId).Nodup := by
  have hkeys : ((w.nodesOf iid).map NodeRow.key).Nodup :=
    w.nodes.unique.sublist (filter_sublist.map _)
  have hmap : (w.nodesOf iid).map NodeRow.key =
      ((w.nodesOf iid).map fun r => r.nodeId).map fun n => (iid, n) := by
    rw [List.map_map]
    refine map_congr_left fun r hr => ?_
    exact get_key (mem_nodesOf.mp hr)
  rw [hmap] at hkeys
  exact List.Nodup.of_map _ hkeys

theorem statesOf_items (w : World) (iid : String) :
    (statesOf (w.nodesOf iid)).items = (w.nodesOf iid).map fun r => (r.nodeId, r.state) := by
  refine Dict.items_ofList ?_
  rw [List.map_map]
  exact nodesOf_nodup w iid

variable {st : NodeState} {n : String}

theorem mem_statesOf {w : World} {iid : String} :
    (n, st) ∈ (statesOf (w.nodesOf iid)).items ↔ w.stateOf (iid, n) = some st := by
  rw [statesOf_items, World.stateOf, List.mem_map]
  constructor
  · rintro ⟨r, hr, he⟩
    cases he
    rw [mem_nodesOf.mp hr]
    rfl
  · intro h
    obtain ⟨r, hr, rfl⟩ := map_eq_some_iff.mp h
    have hn : r.nodeId = n := congrArg Prod.snd (get_key hr)
    subst hn
    exact ⟨r, mem_nodesOf.mpr hr, rfl⟩

theorem find_statesOf (w : World) (iid n : String) :
    (statesOf (w.nodesOf iid)).find n = w.stateOf (iid, n) := by
  ext st
  rw [← mem_statesOf]
  exact Dict.find_eq_some

/-! ## Cancelling nodes one after another -/

/-- What asking for a cancellation makes of a state. -/
def cancelFrom (st : NodeState) : NodeState := if Legal st cancelled then cancelled else st

theorem cancelFrom_idem (st : NodeState) : cancelFrom (cancelFrom st) = cancelFrom st := by
  cases st <;> rfl

/-- An open node is cancelled unless it is blocked or stale. -/
theorem cancelFrom_eq_cancelled (h : isTerminal st = false) :
    cancelFrom st = cancelled ↔ st ≠ blocked ∧ st ≠ stale := by
  cases st <;> first | decide | cases h

theorem stateOf_moved {w : World} {c : TransitionCall} {row : NodeRow}
    (hrow : w.nodes.get c.key = some row) (k : String × String) :
    (w.moved c row).stateOf k = if k = c.key then some c.toState else w.stateOf k := by
  have hm : (c.newRow row w.clock row).key = c.key :=
    (c.newRow_key row w.clock row).trans (get_key hrow)
  have hfound : w.nodes.get (c.newRow row w.clock row).key = some row := by rw [hm, hrow]
  show ((w.nodes.put (c.newRow row w.clock row)).get k).map _ = _
  rw [get_put hfound, hm]
  by_cases hk : c.key = k
  · rw [if_pos hk, if_pos hk.symm]
    rfl
  · rw [if_neg hk, if_neg (Ne.symm hk)]
    rfl

theorem stateOf_cancelCall (w : World) (iid nid reason event : String) (k : String × String) :
    ((transitionNode (cancelCall iid nid reason event)).alone calm w).1.stateOf k =
      if k = (iid, nid) then (w.stateOf k).map cancelFrom else w.stateOf k := by
  have hkey : (cancelCall iid nid reason event).key = (iid, nid) := rfl
  rw [transitionNode_alone]
  show ((cancelCall iid nid reason event).settle w (w.nodes.get (iid, nid))).1.stateOf k = _
  cases hrow : w.nodes.get (iid, nid) with
  | none =>
    show w.stateOf k = _
    by_cases hk : k = (iid, nid)
    · rw [if_pos hk, hk, World.stateOf, hrow]
      rfl
    · rw [if_neg hk]
  | some row =>
    have hst : w.stateOf (iid, nid) = some row.state := by
      rw [World.stateOf, hrow]
      rfl
    have hjudge : (cancelCall iid nid reason event).judge row = none ↔
        Legal row.state cancelled := by
      rw [judge_eq_none]
      simp [cancelCall]
    rw [TransitionCall.settle]
    cases hj : (cancelCall iid nid reason event).judge row with
    | none =>
      have hlegal := hjudge.mp hj
      rw [stateOf_moved hrow, hkey]
      by_cases hk : k = (iid, nid)
      · rw [if_pos hk, if_pos hk, hk, hst, map_some, cancelFrom, if_pos hlegal]
        rfl
      · rw [if_neg hk, if_neg hk]
    | some refusal =>
      have hillegal : ¬ Legal row.state cancelled := fun hl => by
        rw [hjudge.mpr hl] at hj
        cases hj
      by_cases hk : k = (iid, nid)
      · rw [if_pos hk, hk, hst, map_some, cancelFrom, if_neg hillegal]
      · rw [if_neg hk]

section Loop

variable {ι : Type} (iid reason event : String) (target : ι → Option String)

/-- One round of a cancelling loop: the item names a node to cancel, or none. -/
def cancelStep (w : World) (x : ι) : World :=
  match target x with
  | none => w
  | some nid => ((transitionNode (cancelCall iid nid reason event)).alone calm w).1

theorem stateOf_cancelStep (w : World) (x : ι) (n : String) :
    (cancelStep iid reason event target w x).stateOf (iid, n) =
      if target x = some n then (w.stateOf (iid, n)).map cancelFrom else w.stateOf (iid, n) := by
  unfold cancelStep
  cases ht : target x with
  | none => rfl
  | some nid =>
    rw [stateOf_cancelCall]
    by_cases hn : n = nid
    · subst hn
      rw [if_pos rfl, if_pos rfl]
    · rw [if_neg (fun he => hn (congrArg Prod.snd he)), if_neg (fun he => hn (some.inj he).symm)]

theorem stateOf_cancelSteps (xs : List ι) (w : World) (n : String) :
    (xs.foldl (cancelStep iid reason event target) w).stateOf (iid, n) =
      if n ∈ xs.filterMap target then (w.stateOf (iid, n)).map cancelFrom
      else w.stateOf (iid, n) := by
  induction xs generalizing w with
  | nil => simp
  | cons x xs ih =>
    rw [foldl_cons, ih, stateOf_cancelStep]
    by_cases hx : target x = some n
    · have hmem : n ∈ (x :: xs).filterMap target :=
        mem_filterMap.mpr ⟨x, mem_cons_self, hx⟩
      rw [if_pos hx, if_pos hmem]
      split
      · rw [Option.map_map]
        exact congrArg (Option.map · _) (funext cancelFrom_idem)
      · rfl
    · have hmem : n ∈ (x :: xs).filterMap target ↔ n ∈ xs.filterMap target := by
        simp only [mem_filterMap, mem_cons, exists_eq_or_imp, hx, false_or]
      rw [if_neg hx]
      simp only [hmem]

end Loop

/-! ## The three loops -/

/-- The node a loop over the state map asks to cancel. -/
def openNode (p : String × NodeState) : Option String := if isTerminal p.2 then none else some p.1

/-- The node a loop over the flags asks to cancel. -/
def waitingNode (states : States) (nid : String) : Option String :=
  match states.find nid with
  | none => none
  | some st => if st = running ∨ isTerminal st then none else some nid

theorem mem_openNodes {w : World} {iid : String} :
    n ∈ (statesOf (w.nodesOf iid)).items.filterMap openNode ↔
      ∃ st, w.stateOf (iid, n) = some st ∧ isTerminal st = false := by
  rw [mem_filterMap]
  constructor
  · rintro ⟨⟨m, st⟩, hm, hopen⟩
    unfold openNode at hopen
    split at hopen
    · cases hopen
    rename_i hst
    cases hopen
    exact ⟨st, mem_statesOf.mp hm, by simpa using hst⟩
  · rintro ⟨st, hst, hopen⟩
    exact ⟨(n, st), mem_statesOf.mpr hst, by simp [openNode, hopen]⟩

theorem alone_cancelAll (w : World) (iid owner n : String) :
    ((cancelWave iid owner).alone calm w).1.stateOf (iid, n) =
      if n ∈ (statesOf (w.nodesOf iid)).items.filterMap openNode
      then (w.stateOf (iid, n)).map cancelFrom else w.stateOf (iid, n) := by
  have hbody : ∀ (p : String × NodeState) (s : World),
      ((if isTerminal p.2 then return () else (transitionNode
        (cancelCall iid p.1 "INSTANCE_CANCELLED" "cancel")).discard : Program Unit).alone
          calm s).1 = cancelStep iid "INSTANCE_CANCELLED" "cancel" openNode s p := by
    intro p s
    unfold cancelStep openNode
    split
    · rfl
    rw [Prog.discard, alone_bind]
    rfl
  rw [cancelWave, alone_bind]
  rw [cancelAll, alone_bind]
  rw [alone_forEach_state calm _ _ hbody]
  rw [← stateOf_cancelSteps iid "INSTANCE_CANCELLED" "cancel" openNode]
  refine stateOf_congr (alone_sparesNodes ?_ _) _
  refine ⟨True.intro, fun found => ?_⟩
  cases found with
  | none => exact True.intro
  | some inst =>
    show (if _ then _ else _ : Program Unit).Uses SparesNodes
    split
    · exact True.intro
    · refine uses_bind utcnow_sparesNodes fun now => ?_
      exact uses_bind (updateInstance_sparesNodes _ _ _ _) fun _ => True.intro

theorem alone_consumeCancel (w : World) (iid n : String) :
    ((consumeCancel iid).alone calm w).1.stateOf (iid, n) =
      if n ∈ (statesOf (w.nodesOf iid)).items.filterMap openNode
      then (w.stateOf (iid, n)).map cancelFrom else w.stateOf (iid, n) := by
  have hbody : ∀ (a : Nat) (p : String × NodeState) (s : World),
      ((if isTerminal p.2 then return a else do
        let r ← transitionNode (cancelCall iid p.1 "RECOVERY_CANCEL" "recovery")
        return if r.ok then a + 1 else a : Program Nat).alone calm s).1 =
        cancelStep iid "RECOVERY_CANCEL" "recovery" openNode s p := by
    intro a p s
    unfold cancelStep openNode
    split
    · rfl
    rw [alone_bind]
    rfl
  rw [consumeCancel, alone_bind]
  rw [alone_bind, alone_foldEach_state calm _ _ hbody]
  rw [← stateOf_cancelSteps iid "RECOVERY_CANCEL" "recovery" openNode]
  refine stateOf_congr (alone_sparesNodes ?_ _) _
  refine ⟨True.intro, fun found => ?_⟩
  cases found with
  | none => exact True.intro
  | some inst =>
    show (if _ then _ else _ : Program Nat).Uses SparesNodes
    split
    · exact True.intro
    refine uses_bind utcnow_sparesNodes fun now => ?_
    refine uses_bind (updateInstance_sparesNodes _ _ _ _) fun updated => ?_
    cases updated with
    | none => exact True.intro
    | some row => exact ⟨True.intro, fun _ => True.intro⟩

/-- The ids whose flag is set. -/
def World.flags (w : World) (iid : String) : List String :=
  ((w.nodesOf iid).filter fun r => r.cancelRequested).map fun r => r.nodeId

theorem mem_flags {w : World} {iid : String} : n ∈ w.flags iid ↔ w.flagged (iid, n) := by
  simp only [World.flags, List.mem_map, mem_filter, World.flagged]
  constructor
  · rintro ⟨r, ⟨hr, hf⟩, rfl⟩
    exact ⟨r, mem_nodesOf.mp hr, hf⟩
  · rintro ⟨r, hr, hf⟩
    have hn : r.nodeId = n := congrArg Prod.snd (get_key hr)
    subst hn
    exact ⟨r, ⟨mem_nodesOf.mpr hr, hf⟩, rfl⟩

theorem mem_waitingNodes {w : World} {iid : String} :
    n ∈ (w.flags iid).filterMap (waitingNode (statesOf (w.nodesOf iid))) ↔
      w.flagged (iid, n) ∧ ∃ st, w.stateOf (iid, n) = some st ∧ st ≠ running ∧
        isTerminal st = false := by
  rw [mem_filterMap]
  constructor
  · rintro ⟨m, hm, hw⟩
    unfold waitingNode at hw
    rw [find_statesOf] at hw
    split at hw
    · cases hw
    rename_i st hst
    split at hw
    · cases hw
    rename_i hopen
    cases hw
    rw [not_or] at hopen
    exact ⟨mem_flags.mp hm, st, hst, hopen.1, by simpa using hopen.2⟩
  · rintro ⟨hf, st, hst, hne, hopen⟩
    refine ⟨n, mem_flags.mpr hf, ?_⟩
    rw [waitingNode, find_statesOf, hst]
    simp [hne, hopen]

theorem alone_consumeNodeCancels (w : World) (iid n : String) :
    ((consumeNodeCancels iid).alone calm w).1.stateOf (iid, n) =
      if n ∈ (w.flags iid).filterMap (waitingNode (statesOf (w.nodesOf iid)))
      then (w.stateOf (iid, n)).map cancelFrom else w.stateOf (iid, n) := by
  have hbody : ∀ (states : States) (a : Nat) (nid : String) (s : World),
      ((match states.find nid with
        | none => return a
        | some st =>
          if st = running ∨ isTerminal st then return a
          else do
            let r ← transitionNode (cancelCall iid nid "NODE_CANCELLED" "recovery")
            return if r.ok then a + 1 else a : Program Nat).alone calm s).1 =
        cancelStep iid "NODE_CANCELLED" "recovery" (waitingNode states) s nid := by
    intro states a nid s
    unfold cancelStep waitingNode
    cases states.find nid with
    | none => rfl
    | some st =>
      dsimp only
      split
      · rfl
      rw [alone_bind]
      rfl
  rw [consumeNodeCancels, alone_bind]
  show (Prog.alone calm (if w.flags iid = [] then _ else _) w).1.stateOf _ = _
  split
  · rename_i hnil
    rw [hnil]
    rfl
  · rw [alone_bind]
    have hloop := alone_foldEach_state calm _ _ (hbody (statesOf (w.nodesOf iid)))
      (w.flags iid) 0 w
    refine (congrArg (World.stateOf · (iid, n)) hloop).trans ?_
    exact stateOf_cancelSteps iid "NODE_CANCELLED" "recovery" _ (w.flags iid) w n

/-! ## Convergence -/

/-- Run alone, the program cancels every node that was not decided. -/
def CancelsAll {α : Type} (p : Program α) (iid : String) (w : World) : Prop :=
  ∀ n st, w.stateOf (iid, n) = some st → isTerminal st = false →
    (p.alone calm w).1.stateOf (iid, n) = some cancelled

/-- Run alone, the program cancels every flagged node that was neither running nor decided. -/
def CancelsFlagged {α : Type} (p : Program α) (iid : String) (w : World) : Prop :=
  ∀ n st, w.stateOf (iid, n) = some st → w.flagged (iid, n) →
    st ∈ [pending, ready, blocked, stale] →
    (p.alone calm w).1.stateOf (iid, n) = some cancelled

theorem cancelsAll_iff {α : Type} {p : Program α} {iid : String} {w : World}
    (hp : ∀ n, (p.alone calm w).1.stateOf (iid, n) =
      if n ∈ (statesOf (w.nodesOf iid)).items.filterMap openNode
      then (w.stateOf (iid, n)).map cancelFrom else w.stateOf (iid, n)) :
    CancelsAll p iid w ↔ ∀ n st, w.stateOf (iid, n) = some st → st ≠ blocked ∧ st ≠ stale := by
  constructor
  · intro h n st hst
    by_cases hopen : isTerminal st = false
    · have hend := h n st hst hopen
      rw [hp n, if_pos (mem_openNodes.mpr ⟨st, hst, hopen⟩), hst, map_some] at hend
      exact (cancelFrom_eq_cancelled hopen).mp (some.inj hend)
    · constructor <;> rintro rfl <;> exact hopen rfl
  · intro h n st hst hopen
    rw [hp n, if_pos (mem_openNodes.mpr ⟨st, hst, hopen⟩), hst, map_some,
      (cancelFrom_eq_cancelled hopen).mpr (h n st hst)]

theorem cancelsFlagged_iff (iid : String) (w : World) :
    CancelsFlagged (consumeNodeCancels iid) iid w ↔
      ∀ n st, w.stateOf (iid, n) = some st → w.flagged (iid, n) → st ≠ blocked ∧ st ≠ stale := by
  have hwaiting : ∀ {st}, st ∈ [pending, ready, blocked, stale] ↔
      st ≠ running ∧ isTerminal st = false := by
    intro st
    cases st <;> decide
  constructor
  · intro h n st hst hf
    by_cases hopen : isTerminal st = false
    · by_cases hr : st = running
      · subst hr
        decide
      · have hend := h n st hst hf (hwaiting.mpr ⟨hr, hopen⟩)
        rw [alone_consumeNodeCancels, if_pos (mem_waitingNodes.mpr ⟨hf, st, hst, hr, hopen⟩),
          hst, map_some] at hend
        exact (cancelFrom_eq_cancelled hopen).mp (some.inj hend)
    · constructor <;> rintro rfl <;> exact hopen rfl
  · intro h n st hst hf hmem
    obtain ⟨hr, hopen⟩ := hwaiting.mp hmem
    rw [alone_consumeNodeCancels, if_pos (mem_waitingNodes.mpr ⟨hf, st, hst, hr, hopen⟩), hst,
      map_some, (cancelFrom_eq_cancelled hopen).mpr (h n st hst hf)]

/-- **When a cancellation converges.** In every database, the wave of the driver and the
    sweep of recovery cancel every node that was not decided exactly when none of them is
    blocked or stale; for the cancel flags of nodes it is the flagged ones that count. -/
theorem cancel_converges_iff (w : World) (iid owner : String) :
    (CancelsAll (cancelWave iid owner) iid w ↔
      ∀ n st, w.stateOf (iid, n) = some st → st ≠ blocked ∧ st ≠ stale) ∧
    (CancelsAll (consumeCancel iid) iid w ↔
      ∀ n st, w.stateOf (iid, n) = some st → st ≠ blocked ∧ st ≠ stale) ∧
    (CancelsFlagged (consumeNodeCancels iid) iid w ↔
      ∀ n st, w.stateOf (iid, n) = some st → w.flagged (iid, n) → st ≠ blocked ∧ st ≠ stale) :=
  ⟨cancelsAll_iff fun n => alone_cancelAll w iid owner n,
    cancelsAll_iff fun n => alone_consumeCancel w iid n, cancelsFlagged_iff iid w⟩

/-- A data node without a binding is blocked; then its cancellation and that of its instance
    are requested. -/
def cancelledWhileBlocked : List (Pool.Move Op Res Unit Bool) :=
  Pool.solo 0 3 false (createInstance "wi-1" "owner" "" ["a"]).discard ++
    Pool.solo 1 3 false (transitionNode
      { instanceId := "wi-1", nodeId := "a", toState := blocked, reason := "MISSING_BINDING",
        event := "driver" }).discard ++
    Pool.solo 2 1 false (requestNodeCancel "wi-1" ["a"] "owner").discard ++
    Pool.solo 3 3 false (updateInstance "wi-1" (some "owner") none
      { cancelRequested := some true }).discard

theorem cancelledWhileBlocked_reached :
    Reached anyCall (Pool.play run ⟨Past.init, []⟩ cancelledWhileBlocked) := by
  refine Pool.play_runs run _ _ fun m hm p hp => ?_
  simp only [cancelledWhileBlocked, mem_append] at hm
  rcases hm with ((hm | hm) | hm) | hm <;> rw [Pool.starts_solo hm hp]
  · exact (createInstance_client _ _ _ _).bind fun _ => .done ()
  · exact (transitionNode_client trivial).bind fun _ => .done ()
  · exact .statement True.intro fun _ => .done ()
  · refine (Client.of_plain ?_).bind fun _ => .done ()
    exact updateInstance_uses True.intro (fun _ => True.intro) True.intro

/-- The blocked node is open and flagged, and every one of the loops leaves it blocked. -/
theorem cancelledWhileBlocked_states (w : World)
    (hw : w = (Pool.play run ⟨Past.init, []⟩ cancelledWhileBlocked).shared.state) :
    w.stateOf ("wi-1", "a") = some blocked ∧ w.flags "wi-1" = ["a"] ∧
      ((cancelWave "wi-1" "owner").alone calm w).1.stateOf ("wi-1", "a") = some blocked ∧
      ((consumeCancel "wi-1").alone calm w).1.stateOf ("wi-1", "a") = some blocked ∧
      ((consumeNodeCancels "wi-1").alone calm w).1.stateOf ("wi-1", "a") = some blocked := by
  subst hw
  decide +kernel

/-- None of the three loops reaches every open node of every database that can be reached. -/
theorem blocked_outlives_cancel :
    (¬ ∀ Q : Pool Op Res Unit Past, Reached anyCall Q → ∀ iid owner,
      CancelsAll (cancelWave iid owner) iid Q.shared.state) ∧
    (¬ ∀ Q : Pool Op Res Unit Past, Reached anyCall Q → ∀ iid,
      CancelsAll (consumeCancel iid) iid Q.shared.state) ∧
    ¬ ∀ Q : Pool Op Res Unit Past, Reached anyCall Q → ∀ iid,
      CancelsFlagged (consumeNodeCancels iid) iid Q.shared.state := by
  obtain ⟨hst, hflags, hwave, hconsume, hflag⟩ := cancelledWhileBlocked_states _ rfl
  refine ⟨fun hclaim => ?_, fun hclaim => ?_, fun hclaim => ?_⟩
  · have hend := hclaim _ cancelledWhileBlocked_reached "wi-1" "owner" "a" blocked hst rfl
    rw [hwave] at hend
    cases hend
  · have hend := hclaim _ cancelledWhileBlocked_reached "wi-1" "a" blocked hst rfl
    rw [hconsume] at hend
    cases hend
  · have hflagged := mem_flags.mp (hflags ▸ mem_singleton_self "a")
    have hend := hclaim _ cancelledWhileBlocked_reached "wi-1" "a" blocked hst hflagged (by decide)
    rw [hflag] at hend
    cases hend

end WebGis.Workflow
