/-
  Where a queued change is, whatever runs meanwhile.

  A change that was queued waits in the queue, is held by the drain that took it, or was applied:
  its plan was marked and the decision recorded (`Whereabouts`). A drain can fail to give back
  what it holds. `Recoverable` says of each of its statements when it does not; in such runs no
  change is lost.
-/
import WebGis.Workflow.Queue
import WebGis.Workflow.Quiescence

namespace WebGis.Workflow

open Data Conc NodeState Option PendingChange

/-! ## What it is to be applied -/

/-- What a change asks for, as the queue keeps it; where it came from is no part of it. -/
def PendingChange.content (ch : PendingChange) : PendingChange := ch.queued ""

/-- The contents of changes. -/
def contents (changes : List PendingChange) : List PendingChange :=
  changes.map content

theorem content_queued (source : String) (ch : PendingChange) :
    (ch.queued source).content = ch.content := by
  simp [content, queued, toBoundedDict, clip_clip]

theorem contents_queued (source : String) (changes : List PendingChange) :
    contents (changes.map (·.queued source)) = contents changes := by
  simp [contents, content_queued]

/-- Whether a node of the instance runs. -/
def World.anyRunning (w : World) (iid : String) : Bool :=
  (w.nodesOf iid).any fun r => r.state = running

/-- The call read the row of the node, and it cannot be marked: it is gone, stale already or in
    another state without a way to stale. -/
def unmarkable (k : String × String) (d : Done) : Bool :=
  match d.op with
  | .selectNode i n => (i, n) = k && !d.env && (d.before.stateOf k).all fun st => ¬ Legal st stale
  | _ => false

/-- The plan was marked in the calls, newest first: the nodes were listed while none ran, and
    each node of the plan that could be marked then was marked since, or was found to be
    unmarkable. A plan of style only has nothing to mark. -/
def PlanMarked (iid : String) (plan : RecomputePlan) (marked : List String) (calls : List Done) :
    Prop :=
  isStyleOnly plan = true ∨ ∃ newer d older, calls = newer ++ d :: older ∧ lists iid d = true ∧
    d.before.anyRunning iid = false ∧
    ∀ n ∈ plan.recompute, markable (d.before.stateOf (iid, n)) = true →
      (n ∈ marked ∧ newer.any (marks (iid, n)) = true) ∨
        newer.any (unmarkable (iid, n)) = true

section Applied

variable (A : ChangeApplier) (iid : String) (dag : WorkflowDAG)

/-- The decisions end with the one about the changes of the hand, whose plan was marked. -/
def Decided (h : Hand) (decisions : List RecomputeDecision) : Prop :=
  ∃ earlier seq marked, PlanMarked iid (planForChanges dag h.changes) marked h.calls ∧
    decisions = TransitionCall.lastN maxInstanceDecisions (earlier ++ [ChangeApplier.numbered
      earlier (A.decisionOf (planForChanges dag h.changes) h.changes seq marked)])

/-- In these calls, newest first, a process took a change of this content from the queue, marked
    its plan and recorded the decision. -/
def AppliedIn (content : PendingChange) (log : List Done) : Prop :=
  ∃ newer d older h f decisions, log = newer ++ d :: older ∧ hand iid d.who older = some h ∧
    content ∈ contents h.changes ∧ written iid d = some f ∧ f.decisions = some decisions ∧
    Decided A iid dag h decisions

/-- Where a change is: in the queue, applied, or in a hand. -/
def Whereabouts (w : World) (content : PendingChange) (log : List Done) : Prop :=
  content ∈ contents (w.queueOf iid) ∨ AppliedIn A iid dag content log ∨
    ∃ i h, hand iid i log = some h ∧ content ∈ contents h.changes

/-- The whereabouts of every change that was ever queued are on record. -/
def Accounted (s : Past) : Prop :=
  ∀ newer d older f queue, s.log = newer ++ d :: older → written iid d = some f →
    f.pendingChanges = some queue → ∀ ch ∈ queue, Whereabouts A iid dag s.state ch.content newer

end Applied

/-! ## What the writers of the queue promise -/

/-- The row was read at some time. -/
def WasInstance (s : Past) (iid : String) (row : InstanceRow) : Prop :=
  ∃ w ∈ s.states, w.instances.get iid = some row

/-- A process that writes the queue empties it with nothing in its hand, or keeps what it has
    read there and gives back what it holds. A process that holds changes writes no decision
    but one about them. -/
def Careful (A : ChangeApplier) (iid : String) (dag : WorkflowDAG) (i : Nat) (s : Past) :
    Op → Prop
  | .updateInstance j rev fields => j = iid →
      (∀ queue, fields.pendingChanges = some queue → queue.length ≤ maxPendingChanges ∧
        (queue = [] ∧ hand iid i s.log = none ∨
          ∃ row, WasInstance s iid row ∧ row.revision = rev ∧ row.pendingChanges ⊆ queue ∧
            ∀ h, hand iid i s.log = some h → contents h.changes ⊆ contents queue)) ∧
      ∀ decisions, fields.decisions = some decisions →
        ∀ h, hand iid i s.log = some h → Decided A iid dag h decisions
  | .insertInstance row _ _ => row.instanceId = iid → row.pendingChanges = []
  | _ => True

section Step

variable {A : ChangeApplier} {iid : String} {dag : WorkflowDAG} {s : Past} {i : Nat} {o : Op}

theorem Careful.of_spares (h : SparesQueue iid o) : Careful A iid dag i s o := by
  cases o with
  | updateInstance j rev fields =>
    intro hj
    obtain ⟨hp, hd⟩ := h hj
    refine ⟨fun queue hq => ?_, fun ds hds => ?_⟩
    · rw [hp] at hq
      cases hq
    · rw [hd] at hds
      cases hds
  | insertInstance row ns now => exact h
  | _ => trivial

theorem AppliedIn.cons {content : PendingChange} {log : List Done}
    (h : AppliedIn A iid dag content log) (d : Done) : AppliedIn A iid dag content (d :: log) := by
  obtain ⟨newer, d', older, hd, f, ds, hlog, hrest⟩ := h
  exact ⟨d :: newer, d', older, hd, f, ds, by rw [hlog]; rfl, hrest⟩

theorem queueOf_run (hc : Careful A iid dag i s o) (busy : Bool) :
    (run i busy s o).1.state.queueOf iid =
      ((written iid ⟨i, busy, s.state, o⟩).bind InstancePatch.pendingChanges).getD
        (s.state.queueOf iid) := by
  refine queueOf_exec fun row ns now ho hrow => ?_
  subst ho
  exact hc hrow

theorem queue_written (hc : Careful A iid dag i s o) (hrows : RowsFollowed s) {busy : Bool}
    {f : InstancePatch} {queue : List PendingChange}
    (hf : written iid ⟨i, busy, s.state, o⟩ = some f) (hq : f.pendingChanges = some queue) :
    queue = [] ∧ hand iid i s.log = none ∨
      s.state.queueOf iid ⊆ queue ∧
        ∀ h, hand iid i s.log = some h → contents h.changes ⊆ contents queue := by
  obtain ⟨rev, row, hop, -, hrow, hrev⟩ := written_eq_some hf
  subst hop
  refine ((hc rfl).1 queue hq).2.imp_right ?_
  rintro ⟨seen, ⟨w, hw, hseen⟩, hrev', hsub, hheld⟩
  obtain ⟨row', hrow', hfollows⟩ := hrows w hw iid seen hseen
  have heq : row = row' := some.inj (hrow.symm.trans hrow')
  subst heq
  have hpending := hfollows.same (hrev.trans hrev'.symm)
  refine ⟨?_, hheld⟩
  rw [World.queueOf, hrow', map_some, getD_some, hpending]
  exact hsub

theorem Whereabouts.step {content : PendingChange} {newer older : List Done}
    (h : Whereabouts A iid dag s.state content newer) (hlog : s.log = newer ++ older)
    (hc : Careful A iid dag i s o) (hrows : RowsFollowed s) (busy : Bool) :
    Whereabouts A iid dag (run i busy s o).1.state content (⟨i, busy, s.state, o⟩ :: newer) := by
  have hqueue := queueOf_run hc busy
  rcases h with hin | happ | ⟨j, held, hheld, hin⟩
  · cases hw : (written iid ⟨i, busy, s.state, o⟩).bind InstancePatch.pendingChanges with
    | none =>
      left
      rw [hqueue, hw]
      exact hin
    | some queue =>
      obtain ⟨f, hf, hq⟩ := bind_eq_some_iff.mp hw
      rcases queue_written hc hrows hf hq with ⟨rfl, hnone⟩ | ⟨hsub, -⟩
      · -- the queue was taken: the change is in the hand of the process now
        have hne : s.state.queueOf iid ≠ [] := by
          intro he
          rw [he] at hin
          cases hin
        have htakes : takes iid ⟨i, busy, s.state, o⟩ := by
          simp [takes, hf, hq, hne]
        refine .inr (.inr ⟨i, { changes := s.state.queueOf iid }, ?_, hin⟩)
        have hself := hand_cons_self iid ⟨i, busy, s.state, o⟩ newer
        rw [Hand.after, if_pos htakes] at hself
        exact hself
      · left
        rw [hqueue, hw]
        exact List.map_subset _ hsub hin
  · exact .inr (.inl (happ.cons _))
  · by_cases hj : i = j
    · subst hj
      have hfull : hand iid i s.log = some held := hlog ▸ hand_append hheld older
      have hself := hand_cons_self iid ⟨i, busy, s.state, o⟩ newer
      rw [show hand iid (⟨i, busy, s.state, o⟩ : Done).who newer = some held from hheld] at hself
      cases hw : written iid ⟨i, busy, s.state, o⟩ with
      | none =>
        rw [Hand.after_of_unwritten hw] at hself
        exact .inr (.inr ⟨i, _, hself, hin⟩)
      | some f =>
        cases hq : f.pendingChanges with
        | some queue =>
          -- what the process held is in the queue again
          left
          rw [hqueue, hw, bind_some, hq]
          rcases queue_written hc hrows hw hq with ⟨-, hnone⟩ | ⟨-, hsub⟩
          · rw [hnone] at hfull
            cases hfull
          · exact hsub held hfull hin
        | none =>
          cases hd : f.decisions with
          | some decisions =>
            obtain ⟨rev, row, hop, -⟩ := written_eq_some hw
            subst hop
            refine .inr (.inl ⟨[], _, newer, held, f, decisions, rfl, hheld, hin, hw, hd, ?_⟩)
            exact (hc rfl).2 decisions hd held hfull
          | none =>
            have hafter : Hand.after iid ⟨i, busy, s.state, o⟩ (some held) =
                some (held.push [⟨i, busy, s.state, o⟩]) := by
              simp [Hand.after, takes, settles, hw, hq, hd]
            rw [hafter] at hself
            exact .inr (.inr ⟨i, _, hself, hin⟩)
    · refine .inr (.inr ⟨j, held, ?_, hin⟩)
      rw [hand_cons_ne hj]
      exact hheld

theorem Accounted.step (h : Accounted A iid dag s) (hc : Careful A iid dag i s o)
    (hrows : RowsFollowed s) (busy : Bool) : Accounted A iid dag (run i busy s o).1 := by
  intro newer d older f queue hlog hf hq ch hch
  rw [traced_log] at hlog
  cases newer with
  | nil =>
    -- the change was queued just now
    obtain ⟨rfl, -⟩ := List.cons.inj hlog
    left
    rw [queueOf_run hc busy, hf, bind_some, hq]
    exact List.mem_map_of_mem hch
  | cons d' newer =>
    obtain ⟨rfl, hbefore⟩ := List.cons.inj hlog
    exact (h newer d older f queue hbefore hf hq ch hch).step hbefore hc hrows busy

theorem queue_length_step (h : (s.state.queueOf iid).length ≤ maxPendingChanges)
    (hc : Careful A iid dag i s o) (busy : Bool) :
    ((run i busy s o).1.state.queueOf iid).length ≤ maxPendingChanges := by
  rw [queueOf_run hc busy]
  cases hw : (written iid ⟨i, busy, s.state, o⟩).bind InstancePatch.pendingChanges with
  | none => exact h
  | some queue =>
    obtain ⟨f, hf, hq⟩ := bind_eq_some_iff.mp hw
    obtain ⟨rev, row, hop, -⟩ := written_eq_some hf
    subst hop
    exact ((hc rfl).1 queue hq).1

end Step

/-! ## When a drain can give back what it holds -/

/-- The call read the row of the instance. -/
def reads (iid : String) (d : Done) : Bool :=
  match d.op with
  | .getInstance j _ => j = iid
  | _ => false

/-- The call began a write to the row of the instance. -/
def begins (iid : String) (d : Done) : Bool :=
  match d.op with
  | .selectInstance j _ => j = iid
  | _ => false

/-- The call sent an update of a node that found another revision. -/
def misses (d : Done) : Bool :=
  match d.op with
  | .updateNode _ _ _ => (transitionOf d.env d.before d.op).isNone
  | _ => false

/-- The call was to move the node, and found the database busy or another revision. -/
def fails (k : String × String) (d : Done) : Bool := d.op.nodeOf = some k && (d.env || misses d)

namespace Hand

variable (iid : String) (h : Hand)

/-- The row of the instance as the process has read it last. -/
def lastRow : Option InstanceRow :=
  (h.calls.find? (reads iid)).bind fun d => d.before.instances.get iid

/-- The writes that the process has begun. -/
def tries : Nat := h.calls.countP (begins iid)

/-- The process has found a node running. -/
def sawRunning : Bool := h.calls.any fun d => lists iid d && d.before.anyRunning iid

/-- How often the process has failed to move the node. -/
def failures (k : String × String) : Nat := h.calls.countP (fails k)

end Hand

/-- The revision of the row of the instance. -/
def World.revisionOf (w : World) (iid : String) : Option Nat :=
  (w.instances.get iid).map InstanceRow.revision

/-- The queue has room for the changes of the hand. -/
def Room (queue : List PendingChange) (h : Hand) : Prop :=
  queue.length + h.changes.length ≤ maxPendingChanges

instance (queue : List PendingChange) (h : Hand) : Decidable (Room queue h) :=
  inferInstanceAs (Decidable (_ ≤ _))

/-- The call does not cost its process the changes it holds. Once a node was found running,
    every row that is compared with has room for them; the last write finds the database free
    and the revision that was read; and so does a move of a node in its last round. -/
def Recovers (iid : String) (h : Hand) (d : Done) : Prop :=
  match d.op with
  | .selectNodes j =>
    j = iid → d.before.anyRunning iid = true → ∀ row ∈ h.lastRow iid, Room row.pendingChanges h
  | .getInstance j _ => j = iid → h.sawRunning iid = true → Room (d.before.queueOf iid) h
  | .selectInstance j _ => j = iid → h.tries iid + 1 = maxCasAttempts →
      d.env = false ∧ d.before.revisionOf iid = (h.lastRow iid).map InstanceRow.revision
  | .updateInstance j rev _ => j = iid → h.tries iid = maxCasAttempts →
      d.env = false ∧ d.before.revisionOf iid = some rev
  | _ => ∀ k ∈ d.op.nodeOf, fails k d = true → h.failures k + 1 < maxRounds

instance (iid : String) (h : Hand) (d : Done) : Decidable (Recovers iid h d) := by
  unfold Recovers
  split <;> infer_instance

/-- Every call of a process that holds changes spares them. -/
def Recoverable (iid : String) (i : Nat) (busy : Bool) (s : Past) (o : Op) : Prop :=
  ∀ h ∈ hand iid i s.log, Recovers iid h ⟨i, busy, s.state, o⟩

instance (iid : String) (i : Nat) (busy : Bool) (s : Past) (o : Op) :
    Decidable (Recoverable iid i busy s o) :=
  inferInstanceAs (Decidable (∀ h ∈ hand iid i s.log, _))

/-- What the writers of the queue promise one another. -/
def custody (A : ChangeApplier) (iid : String) (dag : WorkflowDAG) : Protocol run where
  inv s := RowsFollowed s ∧ (s.state.queueOf iid).length ≤ maxPendingChanges ∧
    Accounted A iid dag s
  rely i s t := own i t.log = own i s.log ∧ ∀ w ∈ s.states, w ∈ t.states
  guar := Careful A iid dag
  guard := Recoverable iid
  rely_refl _ _ := ⟨rfl, fun _ hw => hw⟩
  rely_trans h h' := ⟨h'.1.trans h.1, fun w hw => h'.2 w (h.2 w hw)⟩
  inv_step hs hc _ :=
    ⟨hs.1.step _ _ _, queue_length_step hs.2.1 hc _, hs.2.2.step hc hs.1 _⟩
  rely_step hij _ _ _ :=
    ⟨own_cons_ne (fun he => hij he.symm) _, states_subset_traced exec _ _ _ _⟩

theorem custody_init (A : ChangeApplier) (iid : String) (dag : WorkflowDAG) :
    (custody A iid dag).inv Past.init := by
  refine ⟨.init, Nat.zero_le _, ?_⟩
  intro newer d older f queue hlog
  have hlen := congrArg List.length hlog
  simp [Past.init] at hlen

end WebGis.Workflow
