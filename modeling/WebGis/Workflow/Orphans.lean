/-
  When orphan recovery spares live work.

  A sweep lists the orphans in one transaction and resets them in later ones; the reset does
  not look at the lease again. What it knows is the lease it listed (`listedRow`). In runs
  in which every reset of a running node finds the lease that the sweep had listed, that
  lease has run out or was never written (`reset_only_lapsed`). Without this a heartbeat
  between the listing and the reset is lost (`reset_of_renewed`).
-/
import WebGis.Workflow.Journal
import WebGis.Workflow.Store

namespace WebGis.Workflow

open Data Conc NodeState List Pool Prog Past

/-! ## Resets and listings of the history -/

/-- A transition that recovery asks for. -/
def IsOrphanReset (c : TransitionCall) : Prop := c.toState = ready ∧ c.reason = "ORPHAN_LEASE_EXPIRED"

instance (c : TransitionCall) : Decidable (IsOrphanReset c) :=
  inferInstanceAs (Decidable (_ ∧ _))

/-- The lease has run out at `t`, or was never written. -/
def Lapsed (t : Nat) (lease : Option Nat) : Prop := ∀ l, lease = some l → l ≤ t

/-- Whether a call listed the nodes of an instance. -/
def lists (instanceId : String) (d : Done) : Bool :=
  match d.op with
  | .selectNodes i => i = instanceId
  | _ => false

/-- The row of a node in the listing that process `i` made last. -/
def listedRow (i : Nat) (k : String × String) (log : List Done) : Option NodeRow :=
  ((own i log).find? (lists k.1)).bind fun d => d.before.nodes.get k

/-- A reset of a running node finds the lease that its process had listed. -/
def Unrenewed (i : Nat) (busy : Bool) (s : Past) (o : Op) : Prop :=
  ∀ p ∈ transitionOf busy s.state o, IsOrphanReset p.1 → p.2.state = running →
    (listedRow i p.1.key s.log).any (fun r => r.leaseExpiresAt = p.2.leaseExpiresAt) = true

instance (i : Nat) (busy : Bool) (s : Past) (o : Op) : Decidable (Unrenewed i busy s o) :=
  inferInstanceAs (Decidable (∀ p ∈ transitionOf busy s.state o,
    IsOrphanReset p.1 → p.2.state = running →
      (listedRow i p.1.key s.log).any (fun r => r.leaseExpiresAt = p.2.leaseExpiresAt) = true))

/-- If the call reset a running node, the lease of the node had lapsed. -/
def SparesLive (d : Done) : Prop :=
  ∀ c row, transitionOf d.env d.before d.op = some (c, row) → IsOrphanReset c → row.state = running →
    Lapsed d.before.clock row.leaseExpiresAt

variable {lease : Option Nat}

theorem Lapsed.later {t u : Nat} (h : Lapsed t lease) (htu : t ≤ u) :
    Lapsed u lease := fun l hl => Nat.le_trans (h l hl) htu

variable {log : List Done} {i : Nat}

theorem listedRow_of_own_eq {log' : List Done} (h : own i log' = own i log) (k : String × String) :
    listedRow i k log' = listedRow i k log := by
  rw [listedRow, h]
  rfl

theorem listedRow_cons {busy : Bool} {w : World} {o : Op} (ho : ∀ j, o ≠ .selectNodes j)
    (k : String × String) : listedRow i k (⟨i, busy, w, o⟩ :: log) = listedRow i k log := by
  have hno : lists k.1 ⟨i, busy, w, o⟩ = false := by
    cases o with
    | selectNodes j => exact absurd rfl (ho j)
    | _ => rfl
  rw [listedRow, show own i (⟨i, busy, w, o⟩ :: log) = ⟨i, busy, w, o⟩ :: own i log from
    own_cons_self ⟨i, busy, w, o⟩ log, find?_cons_of_neg (by simp [hno])]
  rfl

theorem listedRow_listing (i : Nat) (busy : Bool) (w : World) (j n : String) (log : List Done) :
    listedRow i (j, n) (⟨i, busy, w, .selectNodes j⟩ :: log) = w.nodes.get (j, n) := by
  rw [listedRow, show own i (⟨i, busy, w, .selectNodes j⟩ :: log) =
      ⟨i, busy, w, .selectNodes j⟩ :: own i log from
    own_cons_self ⟨i, busy, w, .selectNodes j⟩ log, find?_cons_of_pos (by simp [lists])]
  rfl

/-! ## The protocol -/

/-- The update of a reset is sent by a process whose last listing of the node had a lease
    that has lapsed by now. -/
def ResetListed (i : Nat) (s : Past) : Op → Prop
  | .updateNode c _ _ => IsOrphanReset c → ∀ r, listedRow i c.key s.log = some r →
      Lapsed s.state.clock r.leaseExpiresAt
  | _ => True

/-- In runs whose resets find the lease that was listed, resets spare live work. -/
def recoveryDiscipline : Protocol run where
  inv s := ∀ d ∈ s.log, SparesLive d
  rely i s t := s.state.clock ≤ t.state.clock ∧ own i t.log = own i s.log
  guar i s o := ResetListed i s o
  guard := Unrenewed
  rely_refl _ _ := ⟨Nat.le_refl _, rfl⟩
  rely_trans h h' := ⟨Nat.le_trans h.1 h'.1, h'.2.trans h.2⟩
  inv_step {i busy s o} hs hg hu := by
    intro d hd
    rcases mem_cons.mp hd with rfl | hd
    · intro c row ht hc hrun
      obtain ⟨r, hr, hlease⟩ := (Option.any_eq_true _ _).mp (hu (c, row) ht hc hrun)
      obtain ⟨seen, now, rfl, -⟩ := transitionOf_eq_some ht
      rw [← of_decide_eq_true hlease]
      exact hg hc r hr
    · exact hs d hd
  rely_step hij _ _ _ := ⟨exec_clock_le _ _ _, own_cons_ne hij.symm _⟩

/-- The leases that process `i` listed for these nodes have lapsed. -/
def ListedLapsed (i : Nat) (instanceId : String) (nodeIds : List String) (s : Past) : Prop :=
  ∀ nid ∈ nodeIds, ∀ r, listedRow i (instanceId, nid) s.log = some r →
    Lapsed s.state.clock r.leaseExpiresAt

variable {ns : List String}

theorem ListedLapsed.rely {iid : String} {s t : Past} (h : ListedLapsed i iid ns s)
    (hr : recoveryDiscipline.rely i s t) : ListedLapsed i iid ns t := by
  intro nid hn r hrow
  rw [listedRow_of_own_eq hr.2] at hrow
  exact (h nid hn r hrow).later hr.1

theorem ListedLapsed.own {iid : String} {s : Past} {o : Op} (h : ListedLapsed i iid ns s)
    (ho : ∀ j, o ≠ .selectNodes j) (busy : Bool) : ListedLapsed i iid ns (run i busy s o).1 := by
  intro nid hn r hrow
  rw [traced_log, listedRow_cons ho] at hrow
  exact (h nid hn r hrow).later (exec_clock_le busy s.state o)

theorem listedLapsed_of_listing (i : Nat) (busy : Bool) (s : Past) (iid token : String)
    {now : Nat} (hnow : now ≤ s.state.clock) :
    ListedLapsed i iid
      (((s.state.nodesOf iid).filter (isOrphan token now)).map fun r => r.nodeId)
      (run i busy s (.selectNodes iid)).1 := by
  intro nid hn r hrow
  obtain ⟨r', hr', rfl⟩ := mem_map.mp hn
  obtain ⟨hmem, horphan⟩ := mem_filter.mp hr'
  obtain ⟨hrows, hiid⟩ := mem_filter.mp hmem
  have hkey : r'.key = (iid, r'.nodeId) := by
    rw [NodeRow.key, show r'.instanceId = iid by simpa using hiid]
  have hget : s.state.nodes.get (iid, r'.nodeId) = some r' := hkey ▸ Table.get_of_mem hrows
  rw [traced_log, listedRow_listing, hget] at hrow
  obtain rfl : r' = r := Option.some.inj hrow
  intro l hl
  have hall : r'.leaseExpiresAt.all (· ≤ now) := by
    simp only [isOrphan, Bool.and_eq_true] at horphan
    exact horphan.2
  rw [hl] at hall
  have : l ≤ now := by simpa using hall
  exact Nat.le_trans this hnow

theorem listOrphans_safe (i : Nat) (iid token : String) (s : Past) :
    recoveryDiscipline.Safe i (ListedLapsed i iid) (listOrphans iid token) s := by
  intro s1 _ _
  refine ⟨True.intro, fun e1 _ => ?_⟩
  intro s2 h2 _
  refine ⟨True.intro, fun e2 _ => ?_⟩
  intro s3 h3 _
  have hnow : s1.state.clock ≤ s2.state.clock := h2.1
  exact (listedLapsed_of_listing i e2 s2 iid token hnow).rely h3

theorem findOrphanRunningNodes_safe (i : Nat) (iid token : String) (s : Past) :
    recoveryDiscipline.Safe i (ListedLapsed i iid) (findOrphanRunningNodes iid token) s := by
  have hnil : ∀ t, recoveryDiscipline.Safe i (ListedLapsed i iid) (.ret []) t :=
    fun t t' _ _ nid hn => by cases hn
  intro s1 _ _
  refine ⟨True.intro, fun e1 _ => ?_⟩
  generalize run i e1 s1 (.getInstance iid none) = outcome
  obtain ⟨s1', found⟩ := outcome
  cases found with
  | none => exact hnil s1'
  | some inst =>
    show recoveryDiscipline.Safe i _ (if inst.status ≠ .running then _ else _) s1'
    split
    · exact hnil s1'
    intro s2 _ _
    refine ⟨True.intro, fun e2 _ => ?_⟩
    generalize run i e2 s2 .utcnow = outcome
    obtain ⟨s2', now⟩ := outcome
    show recoveryDiscipline.Safe i _ (if leaseHeldElsewhere inst token now then _ else _) s2'
    split
    · exact hnil s2'
    · exact listOrphans_safe i iid token s2'

/-- A statement that neither lists nodes nor resets one. -/
def Unrelated : Op → Prop
  | .selectNodes _ => False
  | .updateNode c _ _ => ¬ IsOrphanReset c
  | _ => True

variable {α : Type}

theorem resetEach_safe (i : Nat) (iid token : String) (a : α)
    {after : α → String → TransitionResult → Program α}
    (hafter : ∀ a nid r, (after a nid r).Uses fun o => Plain o ∧ Unrelated o) (s : Past)
    (hs : recoveryDiscipline.inv s) :
    recoveryDiscipline.Safe i Protocol.anyEnd (resetEach iid token a after) s := by
  refine (findOrphanRunningNodes_safe i iid token s).bind hs fun orphans t ht hl => ?_
  have huses : (foldEach orphans a fun a nid => do
      let r ← transitionNode (resetCall iid nid)
      after a nid r).Uses fun o => Unrelated o ∨
        ∃ nid ∈ orphans, ∃ seen now, o = .updateNode (resetCall iid nid) seen now := by
    refine uses_foldEach fun a nid hn => uses_bind ?_ fun r => ?_
    · exact transitionNode_uses _ (.inl True.intro) (.inl True.intro) (.inl True.intro)
        fun seen now => .inr ⟨nid, hn, seen, now, rfl⟩
    · exact Prog.Uses.mono (hafter a nid r) fun o ho => .inl ho.2
  refine (Protocol.safe_of_fact (ListedLapsed i iid orphans) (fun _ _ hr h => h.rely hr) ?_ ?_
    huses hl).anyEnd
  · rintro s o - hF (ho | ⟨nid, hn, seen, now, rfl⟩)
    · cases o with
      | updateNode c seen now => exact fun hc => absurd hc ho
      | _ => exact True.intro
    · exact fun _ => hF nid hn
  · rintro e s o hF (ho | ⟨nid, hn, seen, now, rfl⟩)
    · exact hF.own (fun j he => by subst he; exact ho) e
    · exact hF.own (fun j he => by cases he) e

/-! ## The programs -/

/-- Programs in which a running node is put back to `READY` by the sweeps only: recovery's
    and the drivers', with the continuation each of them has. -/
inductive SweepClient {α : Type} : Program α → Prop
  | done (a : α) : SweepClient (.ret a)
  | statement {o : Op} {k : Res o → Program α} :
      Plain o → (∀ r, SweepClient (k r)) → SweepClient (.act o k)
  | transition {c : TransitionCall} {k : TransitionResult → Program α} :
      ¬ IsOrphanReset c → (∀ r, SweepClient (k r)) → SweepClient (transitionNode c >>= k)
  | sweep {β : Type} {iid token : String} {b : β}
      {after : β → String → TransitionResult → Program β} {k : β → Program α} :
      (∀ b nid r, (after b nid r).Uses fun o => Plain o ∧ Unrelated o) →
      (∀ b, SweepClient (k b)) →
      SweepClient (resetEach iid token b after >>= k)

variable {p : Program α}

theorem SweepClient.bind {β : Type} {f : α → Program β} (hp : SweepClient p)
    (hf : ∀ a, SweepClient (f a)) : SweepClient (p >>= f) := by
  induction hp with
  | done a => exact hf a
  | statement ho _ ih => exact .statement ho ih
  | transition hc _ ih =>
    rw [bind_assoc]
    exact .transition hc ih
  | sweep ha _ ih =>
    rw [bind_assoc]
    exact .sweep ha ih

theorem SweepClient.ok (hp : SweepClient p) : recoveryDiscipline.Ok p := by
  induction hp with
  | done a => exact .ret a
  | @statement o k ho _ ih =>
    refine .act (fun i s _ => ?_) ih
    cases o with
    | updateNode c seen now => exact ho.elim
    | _ => exact True.intro
  | @transition c k hc _ ih =>
    refine Protocol.Ok.bind (fun i s hs => ?_) ih
    have huses : (transitionNode c).Uses Unrelated :=
      transitionNode_uses c True.intro True.intro True.intro fun _ _ => hc
    refine (Protocol.safe_of_fact (fun _ => True) (fun _ _ _ h => h) ?_ (fun _ _ _ h _ => h)
      huses trivial).anyEnd
    intro s o _ _ ho
    cases o with
    | updateNode c' seen now => exact fun hc' => absurd hc' ho
    | _ => exact True.intro
  | sweep ha _ ih => exact Protocol.Ok.bind (fun i s hs => resetEach_safe i _ _ _ ha s hs) ih

theorem SweepClient.foldEach {ι : Type} {f : α → ι → Program α} (hf : ∀ a x, SweepClient (f a x))
    (xs : List ι) (a : α) : SweepClient (foldEach xs a f) := by
  induction xs generalizing a with
  | nil => exact .done a
  | cons x xs ih => exact (hf a x).bind fun b => ih b

theorem SweepClient.forEach {ι : Type} {f : ι → Program Unit} (hf : ∀ x, SweepClient (f x))
    (xs : List ι) : SweepClient (forEach xs f) := by
  induction xs with
  | nil => exact .done ()
  | cons x xs ih => exact (hf x).bind fun _ => ih

theorem SweepClient.of_plain (hp : p.Uses Plain) : SweepClient p := by
  induction p with
  | ret a => exact .done a
  | act o k ih => exact .statement hp.1 fun r => ih r (hp.2 r)

theorem SweepClient.of_transition {c : TransitionCall} (hc : ¬ IsOrphanReset c) :
    SweepClient (transitionNode c) := by
  rw [← bind_ret (transitionNode c)]
  exact .transition hc .done

theorem findOrphanRunningNodes_plain (iid token : String) :
    (findOrphanRunningNodes iid token).Uses Plain := by
  refine ⟨True.intro, fun found => ?_⟩
  cases found with
  | none => exact True.intro
  | some inst =>
    show (if _ then _ else _ : Program (List String)).Uses Plain
    split
    · exact True.intro
    refine ⟨True.intro, fun now => ?_⟩
    show (if _ then _ else _ : Program (List String)).Uses Plain
    split
    · exact True.intro
    · exact ⟨True.intro, fun _ => ⟨True.intro, fun _ => True.intro⟩⟩

theorem SweepClient.client (hp : SweepClient p) : Client anyCall p := by
  induction hp with
  | done a => exact .done a
  | statement ho _ ih => exact .statement ho ih
  | transition _ _ ih => exact .transition trivial ih
  | @sweep β iid token b after k ha _ ih =>
    refine Client.bind ((Client.of_plain (findOrphanRunningNodes_plain iid token)).bind
      fun orphans => .foldEach (fun b nid => ?_) orphans b) ih
    exact .transition trivial fun r => .of_plain ((ha b nid r).mono fun o ho => ho.1)

/-! ## The sweep of recovery is one of these programs -/

theorem resetOrphans_sweepClient (iid : String) : SweepClient (resetOrphans iid) := by
  rw [← bind_ret (resetOrphans iid)]
  refine .sweep (fun reset nid r => ?_) .done
  split
  · refine ⟨⟨fun h => ?_, True.intro⟩, fun _ => True.intro⟩
    cases h
  · exact True.intro

theorem not_isOrphanReset_cancelCall (iid nid reason event : String) :
    ¬ IsOrphanReset (cancelCall iid nid reason event) := fun h => by cases h.1

theorem updateInstance_plain (iid : String) (owner : Option String) (rev : Option Nat)
    (fields : InstancePatch) : (updateInstance iid owner rev fields).Uses Plain :=
  updateInstance_uses True.intro (fun _ => True.intro) True.intro

theorem utcnow_sweepClient : SweepClient utcnow := .statement True.intro .done

theorem getNodeStates_sweepClient (iid : String) : SweepClient (getNodeStates iid) :=
  .statement True.intro fun _ => .done _

theorem consumeCancel_sweepClient (iid : String) : SweepClient (consumeCancel iid) := by
  refine (getNodeStates_sweepClient iid).bind fun states => ?_
  refine SweepClient.bind (.foldEach (fun n p => ?_) _ _) fun count => ?_
  · split
    · exact .done n
    · exact (SweepClient.of_transition (not_isOrphanReset_cancelCall _ _ _ _)).bind fun r => .done _
  · refine .statement True.intro fun found => ?_
    cases found with
    | none => exact .done count
    | some fresh =>
      show SweepClient (if _ then _ else _)
      split
      · exact .done count
      refine utcnow_sweepClient.bind fun now => ?_
      refine SweepClient.bind (.of_plain (updateInstance_plain _ _ _ _)) fun updated => ?_
      cases updated with
      | none => exact .done count
      | some row => exact .statement (fun h => by cases h) fun _ => .done count

theorem consumeNodeCancels_sweepClient (iid : String) : SweepClient (consumeNodeCancels iid) := by
  refine .statement True.intro fun rows => ?_
  show SweepClient (if _ then _ else _)
  split
  · exact .done 0
  refine (getNodeStates_sweepClient iid).bind fun states => .foldEach (fun n nid => ?_) _ _
  split
  · exact .done n
  · split
    · exact .done n
    · exact (SweepClient.of_transition (not_isOrphanReset_cancelCall _ _ _ _)).bind
        fun r => .done _

theorem finalizeIfDecided_sweepClient (optionalNodes : InstanceRow → String → Bool)
    (iid : String) : SweepClient (finalizeIfDecided optionalNodes iid) := by
  refine .statement True.intro fun found => ?_
  cases found with
  | none => exact .done 0
  | some inst =>
    show SweepClient (if _ then _ else _)
    split
    · exact .done 0
    refine (getNodeStates_sweepClient iid).bind fun states => ?_
    dsimp only
    split
    · exact .done 0
    refine utcnow_sweepClient.bind fun now => ?_
    refine SweepClient.bind (.of_plain (updateInstance_plain _ _ _ _)) fun updated => ?_
    cases updated with
    | none => exact .done 0
    | some row => exact .statement (fun h => by cases h) fun _ => .done 1

/-- **Recovery spares live work** in every run in which each reset of a running node finds
    the lease that its sweep had listed. -/
theorem reset_only_lapsed {α : Type} {Q : Pool Op Res α Past}
    (h : Pool.Runs run SweepClient Unrenewed ⟨init, []⟩ Q) :
    ∀ d ∈ Q.shared.log, ∀ c row, transitionOf d.env d.before d.op = some (c, row) →
      IsOrphanReset c → row.state = running → Lapsed d.before.clock row.leaseExpiresAt :=
  recoveryDiscipline.runs_inv h (fun _ hp => hp.ok) fun _ hd => by cases hd

/-- A node is claimed with a lease of one second, and two seconds pass. -/
def claimedBriefly : List (Pool.Move Op Res Unit Bool) :=
  Pool.solo 0 3 false (createInstance "wi-1" "owner" "" ["a"]).discard ++
    Pool.solo 1 3 false (transitionNode
      { instanceId := "wi-1", nodeId := "a", toState := ready }).discard ++
    Pool.solo 2 3 false (transitionNode
      { instanceId := "wi-1", nodeId := "a", toState := running, expectedFrom := some ready,
        claim := true, claimedBy := "rt-1", leaseTtl := some second }).discard ++
    Pool.solo 3 1 false (tick (2 * second))

/-- A sweep lists the node and resets it. -/
def sweptAlone : List (Pool.Move Op Res Unit Bool) :=
  claimedBriefly ++ Pool.solo 4 7 false (resetOrphans "wi-1").discard

/-- A sweep lists the node, the claimant renews its lease, and the sweep goes on. -/
def renewedMeanwhile : List (Pool.Move Op Res Unit Bool) :=
  claimedBriefly ++ Pool.solo 4 4 false (resetOrphans "wi-1").discard ++
    Pool.solo 5 2 false (heartbeatNode "wi-1" "a" "rt-1" (60 * second)).discard ++
    List.replicate 3 (.step 4 false)

theorem claimedBriefly_starts {m : Pool.Move Op Res Unit Bool} (hm : m ∈ claimedBriefly)
    {p : Program Unit} (hp : m.starts = some p) : SweepClient p := by
  simp only [claimedBriefly, mem_append] at hm
  rcases hm with ((hm | hm) | hm) | hm <;> rw [starts_solo hm hp]
  · refine SweepClient.bind (.statement True.intro fun now => .statement True.intro fun out => ?_)
      fun _ => .done ()
    cases out with
    | done => exact .statement True.intro fun row => .done _
    | capacityExceeded => exact .done _
    | duplicateKey => exact .done _
  · exact (SweepClient.of_transition fun h => absurd h.2 (by decide)).bind fun _ => .done ()
  · exact (SweepClient.of_transition fun h => by cases h.1).bind fun _ => .done ()
  · exact .statement True.intro fun _ => .done ()

/-- The lease of a reset running node, and the time. -/
def resetLease (d : Done) : Option (Option Nat × Nat) :=
  match transitionOf d.env d.before d.op with
  | some (c, row) =>
    if IsOrphanReset c ∧ row.state = running then some (row.leaseExpiresAt, d.before.clock)
    else none
  | none => none

theorem resetLease_eq_some {d : Done} {t : Nat} (h : resetLease d = some (lease, t)) :
    ∃ c row, transitionOf d.env d.before d.op = some (c, row) ∧ IsOrphanReset c ∧
      row.state = running ∧ row.leaseExpiresAt = lease ∧ d.before.clock = t := by
  unfold resetLease at h
  split at h
  · rename_i c row ht
    split at h
    · rename_i hc
      cases h
      exact ⟨c, row, ht, hc.1, hc.2, rfl, rfl⟩
    · cases h
  · cases h

theorem reset_only_lapsed_of_sweptAlone :
    ∃ (Q : Pool Op Res Unit Past) (d : Done) (c : TransitionCall) (row : NodeRow),
      Pool.Runs run SweepClient Unrenewed ⟨init, []⟩ Q ∧ d ∈ Q.shared.log ∧
      transitionOf d.env d.before d.op = some (c, row) ∧ IsOrphanReset c ∧
      row.state = running ∧ Lapsed d.before.clock row.leaseExpiresAt := by
  have hrun : Pool.Runs run SweepClient Unrenewed ⟨init, []⟩
      (Pool.play run ⟨init, []⟩ sweptAlone) := by
    refine Pool.play_guarded run _ _ (fun m hm p hp => ?_) (respects_sound run ?_)
    · rcases mem_append.mp hm with hm | hm
      · exact claimedBriefly_starts hm hp
      · rw [starts_solo hm hp]
        exact (resetOrphans_sweepClient _).bind fun _ => .done ()
    · decide +kernel
  have hreset : (((Pool.play run ⟨init, []⟩ sweptAlone).shared.log.filterMap
      resetLease).head?) = some (some second, 2 * second) := by
    decide +kernel
  obtain ⟨d, hd, hlease⟩ := mem_filterMap.mp (mem_of_head? hreset)
  obtain ⟨c, row, ht, hc, hrunning, -, -⟩ := resetLease_eq_some hlease
  exact ⟨_, d, c, row, hrun, hd, ht, hc, hrunning, reset_only_lapsed hrun d hd c row ht hc hrunning⟩

/-- A reset may hit a node whose lease was renewed after the sweep had listed it. -/
theorem reset_of_renewed :
    ¬ ∀ Q : Pool Op Res Unit Past, Pool.Runs run SweepClient Pool.free ⟨init, []⟩ Q →
      ∀ d ∈ Q.shared.log, ∀ c row, transitionOf d.env d.before d.op = some (c, row) →
        IsOrphanReset c → row.state = running → Lapsed d.before.clock row.leaseExpiresAt := by
  intro hclaim
  have hrun : Pool.Runs run SweepClient Pool.free ⟨init, []⟩
      (Pool.play run ⟨init, []⟩ renewedMeanwhile) := by
    refine play_runs run _ _ fun m hm p hp => ?_
    simp only [renewedMeanwhile, mem_append] at hm
    rcases hm with ((hm | hm) | hm) | hm
    · exact claimedBriefly_starts hm hp
    · rw [starts_solo hm hp]
      exact (resetOrphans_sweepClient _).bind fun _ => .done ()
    · rw [starts_solo hm hp]
      refine .statement True.intro fun now => .statement True.intro fun answer => ?_
      cases answer <;> exact .done ()
    · obtain ⟨-, rfl⟩ := mem_replicate.mp hm
      cases hp
  have hreset : (((Pool.play run ⟨init, []⟩ renewedMeanwhile).shared.log.filterMap
      resetLease).head?) = some (some (62 * second), 2 * second) := by
    decide +kernel
  obtain ⟨d, hd, hlease⟩ := mem_filterMap.mp (mem_of_head? hreset)
  obtain ⟨c, row, ht, hc, hrunning, hrow, hclock⟩ := resetLease_eq_some hlease
  have hlapsed := hclaim _ hrun d hd c row ht hc hrunning (62 * second) hrow
  rw [hclock] at hlapsed
  exact absurd hlapsed (by decide)

end WebGis.Workflow
