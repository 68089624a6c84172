/-
  What the ready-set scheduler has done when it returns.

  `Consistent` is the invariant: the ready list is exactly the pending nodes without unsettled
  inputs, the counts are right, and everything that has ended was settled, is in flight or was
  swept. A swept node is never settled, so whatever has it as an input stays pending:
  `returned_settled` says that a run from a validated plan ends every node if and only if no sweep
  took a node that is an input of another.
-/
import WebGis.Compute.Scheduler

namespace WebGis.Compute

open Data List Function

variable {nodes : List ExecutionNode} {maxWorkers : Nat}

namespace Scheduler

/-! ## Settling -/

/-- The ready list is that of the pending nodes that count no input. -/
structure Queued (nodes : List ExecutionNode) (s : Scheduler) : Prop where
  nodup : s.ready.Nodup
  ready : ∀ n, n ∈ s.ready ↔
    n ∈ nodes.map ExecutionNode.nodeId ∧ s.statuses n = .pending ∧ s.indegree n = 0

variable {s s' : Scheduler} {nodeId dep : String}

theorem queued_release (h : Queued nodes s) (hdep : dep ∈ nodes.map ExecutionNode.nodeId)
    (hpos : 0 < s.indegree dep) : Queued nodes (s.release dep) := by
  have hnew : dep ∉ s.ready := by
    intro hmem
    have hzero := ((h.ready dep).mp hmem).2.2
    omega
  have hdegree : (s.release dep).indegree dep = s.indegree dep - 1 := update_self ..
  have hother : ∀ n, n ≠ dep → (s.release dep).indegree n = s.indegree n :=
    fun n hn => update_of_ne hn _ _
  have hready : (s.release dep).ready =
      if (s.release dep).indegree dep = 0 ∧ s.statuses dep = .pending then s.ready ++ [dep]
      else s.ready := rfl
  refine ⟨?_, fun n => ?_⟩
  · rw [hready]
    split
    · exact h.nodup.append (nodup_singleton dep) (disjoint_singleton.mpr hnew)
    · exact h.nodup
  · change n ∈ (s.release dep).ready ↔ _ ∧ s.statuses n = _ ∧ _
    by_cases hn : n = dep
    · subst hn
      rw [hready]
      by_cases hcond : (s.release n).indegree n = 0 ∧ s.statuses n = .pending
      · rw [if_pos hcond]
        exact ⟨fun _ => ⟨hdep, hcond.2, hcond.1⟩, fun _ => by simp⟩
      · rw [if_neg hcond]
        exact ⟨fun hmem => absurd hmem hnew, fun hall => absurd ⟨hall.2.2, hall.2.1⟩ hcond⟩
    · rw [hother n hn, ← h.ready n, hready]
      split
      · rw [mem_append, mem_singleton]
        exact or_iff_left hn
      · exact Iff.rfl

theorem release_foldl {deps : List String} (h : Queued nodes s)
    (hdeps : ∀ d ∈ deps, d ∈ nodes.map ExecutionNode.nodeId)
    (hcount : ∀ n, (deps.count n : Int) ≤ s.indegree n) :
    Queued nodes (deps.foldl release s) ∧
      ∀ n, (deps.foldl release s).indegree n = s.indegree n - deps.count n := by
  induction deps generalizing s with
  | nil => exact ⟨h, fun n => (sub_zero _).symm⟩
  | cons d deps ih =>
    have hd := hcount d
    rw [count_cons_self] at hd
    have hqueued := queued_release h (hdeps d mem_cons_self) (by omega)
    have hdegree : ∀ n, (s.release d).indegree n =
        s.indegree n - (if d = n then 1 else 0 : Nat) := by
      intro n
      by_cases hn : d = n
      · rw [← hn, if_pos rfl]
        exact update_self ..
      · rw [if_neg hn, Nat.cast_zero, sub_zero]
        exact update_of_ne (Ne.symm hn) _ _
    have hcons : ∀ n, (d :: deps).count n = deps.count n + if d = n then 1 else 0 := by
      intro n
      rw [count_cons]
      simp
    obtain ⟨hq, hall⟩ := ih hqueued (fun e he => hdeps e (mem_cons_of_mem d he)) fun n => by
      have hle := hcount n
      rw [hcons] at hle
      rw [hdegree]
      omega
    refine ⟨hq, fun n => ?_⟩
    rw [foldl_cons, hall n, hdegree, hcons]
    omega

/-- Nothing but the counts and the ready list changes. -/
theorem release_foldl_same (deps : List String) (s : Scheduler) :
    let s' := deps.foldl release s
    s'.phase = s.phase ∧ s'.statuses = s.statuses ∧ s'.inflight = s.inflight ∧ s'.done = s.done ∧
      s'.submitted = s.submitted ∧ s'.swept = s.swept ∧ s'.settled = s.settled := by
  induction deps generalizing s with
  | nil => exact ⟨rfl, rfl, rfl, rfl, rfl, rfl, rfl⟩
  | cons d deps ih => exact ih (s.release d)

/-! ## The invariant -/

/-- How many of the node's inputs are not settled. -/
def unsettled (nodes : List ExecutionNode) (s : Scheduler) (nodeId : String) : List String :=
  (inputsOf nodes nodeId).filter fun m => m ∉ s.settled

structure Consistent (nodes : List ExecutionNode) (s : Scheduler) : Prop where
  queued : Queued nodes s
  degree : ∀ n, s.indegree n = ((unsettled nodes s n).length : Int)
  settled : ∀ n ∈ s.settled, (s.statuses n).ended
  running : ∀ n, s.statuses n = .running → n ∈ s.inflight
  flying : s.inflight.Nodup ∧ ∀ n ∈ s.inflight, n ∈ nodes.map ExecutionNode.nodeId ∧
    s.statuses n ≠ .pending ∧ n ∉ s.settled ∧ n ∈ s.submitted
  ended : ∀ n, (s.statuses n).ended → n ∈ s.settled ∨ n ∈ s.inflight ∨ n ∈ s.swept
  swept : ∀ n ∈ s.swept, n ∈ nodes.map ExecutionNode.nodeId ∧ n ∉ s.settled ∧ n ∉ s.inflight ∧
    s.statuses n = .cancelled
  fed : ∀ n, s.statuses n ≠ .pending → ∀ m ∈ inputsOf nodes n, m ∈ s.settled
  submitted : s.submitted.Nodup ∧ ∀ n ∈ s.submitted, s.statuses n ≠ .pending ∧
    ∀ m ∈ inputsOf nodes n, s.statuses m = .completed ∨ s.statuses m = .reused
  returned : s.phase = .returned → s.ready = [] ∧ s.inflight = []

theorem unsettled_eq_nil (h : Consistent nodes s) {n : String} (hn : s.indegree n = 0) :
    ∀ m ∈ inputsOf nodes n, m ∈ s.settled := by
  intro m hm
  by_contra hnot
  have hlen := h.degree n
  have hmem : m ∈ unsettled nodes s n := mem_filter.mpr ⟨hm, decide_eq_true hnot⟩
  have hpos := length_pos_of_mem hmem
  omega

variable {xs : List String}

theorem mem_sortTexts {x : String} : x ∈ sortTexts xs ↔ x ∈ xs :=
  mem_insertionSort _

theorem nodup_sortTexts (h : xs.Nodup) : (sortTexts xs).Nodup :=
  (perm_insertionSort _ xs).nodup_iff.mpr h

/-- A node settles that has ended, is nowhere else, and whose inputs are settled. -/
theorem consistent_settle (hv : Validated nodes) (hq : Queued nodes s)
    (hdegree : ∀ n, s.indegree n = ((unsettled nodes s n).length : Int))
    (hsettled : ∀ n ∈ s.settled, (s.statuses n).ended)
    (hrunning : ∀ n, s.statuses n = .running → n ∈ s.inflight)
    (hflying : s.inflight.Nodup ∧ ∀ n ∈ s.inflight, n ∈ nodes.map ExecutionNode.nodeId ∧
      s.statuses n ≠ .pending ∧ n ∉ s.settled ∧ n ∈ s.submitted)
    (hended : ∀ n, (s.statuses n).ended → n ≠ nodeId → n ∈ s.settled ∨ n ∈ s.inflight ∨ n ∈ s.swept)
    (hswept : ∀ n ∈ s.swept, n ∈ nodes.map ExecutionNode.nodeId ∧ n ∉ s.settled ∧
      n ∉ s.inflight ∧ s.statuses n = .cancelled)
    (hfed : ∀ n, s.statuses n ≠ .pending → ∀ m ∈ inputsOf nodes n, m ∈ s.settled)
    (hsubmitted : s.submitted.Nodup ∧ ∀ n ∈ s.submitted, s.statuses n ≠ .pending ∧
      ∀ m ∈ inputsOf nodes n, s.statuses m = .completed ∨ s.statuses m = .reused)
    (hphase : s.phase ≠ .returned)
    (hend : (s.statuses nodeId).ended) (hnew : nodeId ∉ s.settled) (hair : nodeId ∉ s.inflight)
    (hkept : nodeId ∉ s.swept) : Consistent nodes (s.settle nodes nodeId) := by
  have hcount : ∀ n, (inputsOf nodes n).count nodeId + ((inputsOf nodes n).filter
      fun m => m ∉ nodeId :: s.settled).length = (unsettled nodes s n).length := by
    intro n
    unfold unsettled
    induction inputsOf nodes n with
    | nil => rfl
    | cons m ms ih =>
      by_cases hm : m = nodeId
      · subst hm
        rw [count_cons_self, filter_cons_of_neg (by simp),
          filter_cons_of_pos (by simpa using hnew), length_cons]
        omega
      · rw [count_cons_of_ne hm]
        by_cases hs : m ∈ s.settled
        · rw [filter_cons_of_neg (by simp [hs]), filter_cons_of_neg (by simp [hs])]
          exact ih
        · rw [filter_cons_of_pos (by simp [hs, hm]),
            filter_cons_of_pos (by simp [hs]), length_cons, length_cons]
          omega
  have hq' : Queued nodes { s with settled := nodeId :: s.settled } :=
    ⟨hq.nodup, hq.ready⟩
  have hdeps : ∀ d ∈ dependents nodes nodeId, d ∈ nodes.map ExecutionNode.nodeId := by
    intro d hd
    obtain ⟨n, hn, hd⟩ := mem_flatMap.mp hd
    obtain ⟨-, -, rfl⟩ := mem_map.mp hd
    exact mem_map_of_mem hn
  obtain ⟨hqueued, hfold⟩ := release_foldl hq' hdeps fun n => by
    rw [count_dependents hv.unique]
    have hle := hcount n
    have hdeg := hdegree n
    change _ ≤ s.indegree n
    omega
  obtain ⟨hp, hst, hif, -, hsub, hsw, hse⟩ :=
    release_foldl_same (dependents nodes nodeId) { s with settled := nodeId :: s.settled }
  generalize hs' : (dependents nodes nodeId).foldl release
    { s with settled := nodeId :: s.settled } = t at *
  have hsettle : s.settle nodes nodeId = { t with ready := sortTexts t.ready } := by
    unfold settle
    rw [hs']
  rw [hsettle]
  refine ⟨⟨nodup_sortTexts hqueued.nodup, ?_⟩, ?_, ?_, ?_, ?_, ?_, ?_, ?_, ?_, ?_⟩
  · exact fun n => mem_sortTexts.trans (hqueued.ready n)
  · intro n
    rw [hfold n, hse, count_dependents hv.unique]
    have hle := hcount n
    have hdeg := hdegree n
    change s.indegree n - _ =
      (((inputsOf nodes n).filter fun m => m ∉ nodeId :: s.settled).length : Int)
    omega
  · intro n hn
    rw [hst]
    rw [hse] at hn
    rcases mem_cons.mp hn with rfl | hn
    · exact hend
    · exact hsettled n hn
  · intro n hn
    rw [hst] at hn
    rw [hif]
    exact hrunning n hn
  · change t.inflight.Nodup ∧ ∀ n ∈ t.inflight, _ ∧ t.statuses n ≠ _ ∧ n ∉ t.settled ∧
      n ∈ t.submitted
    rw [hif, hst, hse, hsub]
    refine ⟨hflying.1, fun n hn => ?_⟩
    obtain ⟨hid, hpend, hset, hsubm⟩ := hflying.2 n hn
    refine ⟨hid, hpend, ?_, hsubm⟩
    rw [mem_cons, not_or]
    exact ⟨fun heq => hair (heq ▸ hn), hset⟩
  · intro n hn
    rw [hst] at hn
    rw [hse, hif, hsw]
    by_cases heq : n = nodeId
    · exact .inl (by rw [heq]; exact mem_cons_self)
    rcases hended n hn heq with h | h
    · exact .inl (mem_cons_of_mem _ h)
    · exact .inr h
  · change ∀ n ∈ t.swept, _ ∧ n ∉ t.settled ∧ n ∉ t.inflight ∧ t.statuses n = _
    rw [hst, hse, hif, hsw]
    intro n hn
    obtain ⟨hid, hset, hfly, hcan⟩ := hswept n hn
    refine ⟨hid, ?_, hfly, hcan⟩
    rw [mem_cons, not_or]
    exact ⟨fun heq => hkept (heq ▸ hn), hset⟩
  · change ∀ n, t.statuses n ≠ _ → ∀ m ∈ _, m ∈ t.settled
    rw [hst, hse]
    exact fun n hn m hm => mem_cons_of_mem _ (hfed n hn m hm)
  · change t.submitted.Nodup ∧ ∀ n ∈ t.submitted, t.statuses n ≠ _ ∧ ∀ m ∈ _,
      t.statuses m = _ ∨ t.statuses m = _
    rw [hst, hsub]
    exact hsubmitted
  · intro hret
    rw [hp] at hret
    exact absurd hret hphase

/-! ## Steps -/

theorem consistent_start (hv : Validated nodes) : Consistent nodes (start nodes) := by
  have hunsettled : ∀ n, unsettled nodes (start nodes) n = inputsOf nodes n :=
    fun n => filter_eq_self.mpr fun m _ => rfl
  refine ⟨⟨nodup_sortTexts (hv.unique.filter _), fun n => ?_⟩, fun n => ?_,
    fun n hn => absurd hn not_mem_nil, fun n hn => ?_,
    ⟨nodup_nil, fun n hn => absurd hn not_mem_nil⟩, fun n hn => ?_,
    fun n hn => absurd hn not_mem_nil, fun n hn => absurd rfl hn,
    ⟨nodup_nil, fun n hn => absurd hn not_mem_nil⟩, fun hret => ?_⟩
  · refine mem_sortTexts.trans (mem_filter.trans (and_congr_right fun _ => ?_))
    change decide (inputsOf nodes n = []) ↔
      EvidenceStatus.pending = .pending ∧ ((inputsOf nodes n).length : Int) = 0
    rw [decide_eq_true_eq, ← length_eq_zero_iff]
    exact ⟨fun hzero => ⟨rfl, by omega⟩, fun hzero => by omega⟩
  · rw [hunsettled]
    rfl
  · cases hn
  · cases hn
  · cases hret

variable {phase : SchedulerPhase}

theorem consistent_enter (h : Consistent nodes s) (hphase : phase ≠ .returned) :
    Consistent nodes (s.enter phase) := by
  refine ⟨⟨h.queued.nodup, h.queued.ready⟩, h.degree, h.settled, h.running, h.flying, h.ended,
    h.swept, h.fed, h.submitted, ?_⟩
  intro hret
  change (if s.ready = [] ∧ s.inflight = [] then .returned else phase) = .returned at hret
  split at hret
  · rename_i hempty
    exact hempty
  · exact absurd hret hphase

theorem consistent_sweep (h : Consistent nodes s) (hphase : s.phase ≠ .returned) :
    Consistent nodes s.sweepRemaining := by
  have hstatus : ∀ n, s.sweepRemaining.statuses n =
      if n ∈ s.ready then .cancelled else s.statuses n := by
    intro n
    change (if n ∈ s.ready ∧ s.statuses n = .pending then _ else _) = _
    by_cases hn : n ∈ s.ready
    · rw [if_pos ⟨hn, ((h.queued.ready n).mp hn).2.1⟩, if_pos hn]
    · rw [if_neg (fun hboth => hn hboth.1), if_neg hn]
  have hfree : ∀ n ∈ s.ready, n ∉ s.settled ∧ n ∉ s.inflight ∧ n ∉ s.submitted := by
    intro n hn
    have hpending := ((h.queued.ready n).mp hn).2.1
    refine ⟨fun hset => ?_, fun hfly => ?_, fun hsub => ?_⟩
    · have hended := h.settled n hset
      rw [hpending] at hended
      cases hended
    · exact (h.flying.2 n hfly).2.1 hpending
    · exact (h.submitted.2 n hsub).1 hpending
  have hkeep : ∀ n, n ∉ s.ready → s.sweepRemaining.statuses n = s.statuses n :=
    fun n hn => by rw [hstatus, if_neg hn]
  refine ⟨⟨nodup_nil, ?_⟩, h.degree, ?_, ?_, ?_, ?_, ?_, ?_, ?_, ?_⟩
  · intro n
    refine ⟨fun hn => absurd hn not_mem_nil, fun hn => ?_⟩
    have hpending := hn.2.1
    rw [hstatus] at hpending
    split at hpending
    · cases hpending
    rename_i hnot
    exact absurd ((h.queued.ready n).mpr ⟨hn.1, hpending, hn.2.2⟩) hnot
  · intro n hn
    rw [hkeep n fun hready => (hfree n hready).1 hn]
    exact h.settled n hn
  · intro n hn
    rw [hstatus] at hn
    split at hn
    · cases hn
    · exact h.running n hn
  · refine ⟨h.flying.1, fun n hn => ?_⟩
    rw [hkeep n fun hready => (hfree n hready).2.1 hn]
    exact h.flying.2 n hn
  · intro n hn
    change n ∈ s.settled ∨ n ∈ s.inflight ∨ n ∈ s.ready ++ s.swept
    rw [mem_append]
    rw [hstatus] at hn
    split at hn
    · rename_i hready
      exact .inr (.inr (.inl hready))
    · rcases h.ended n hn with hset | hfly | hsw
      · exact .inl hset
      · exact .inr (.inl hfly)
      · exact .inr (.inr (.inr hsw))
  · intro n hn
    rcases mem_append.mp hn with hready | hsw
    · refine ⟨((h.queued.ready n).mp hready).1, (hfree n hready).1, (hfree n hready).2.1, ?_⟩
      rw [hstatus, if_pos hready]
    · obtain ⟨hid, hset, hfly, hcan⟩ := h.swept n hsw
      refine ⟨hid, hset, hfly, ?_⟩
      rw [hstatus, hcan, ite_self]
  · intro n hn m hm
    by_cases hready : n ∈ s.ready
    · exact unsettled_eq_nil h ((h.queued.ready n).mp hready).2.2 m hm
    · rw [hkeep n hready] at hn
      exact h.fed n hn m hm
  · refine ⟨h.submitted.1, fun n hn => ?_⟩
    obtain ⟨hpending, hinputs⟩ := h.submitted.2 n hn
    refine ⟨?_, fun m hm => ?_⟩
    · rw [hkeep n fun hready => (hfree n hready).2.2 hn]
      exact hpending
    · rw [hkeep m fun hready => (hfree m hready).1 (h.fed n hpending m hm)]
      exact hinputs m hm
  · exact fun hret => absurd hret hphase

variable {rest : List String} {status : EvidenceStatus}

theorem queued_rest (h : Consistent nodes s) (hready : s.ready = nodeId :: rest)
    (hstatus : status ≠ .pending) {t : Scheduler} (hrest : t.ready = rest)
    (hst : t.statuses = update s.statuses nodeId status) (hdeg : t.indegree = s.indegree) :
    Queued nodes t := by
  have hnodup := h.queued.nodup
  rw [hready, nodup_cons] at hnodup
  refine ⟨hrest ▸ hnodup.2, fun n => ?_⟩
  rw [hrest, hst, hdeg]
  have hiff := h.queued.ready n
  rw [hready, mem_cons] at hiff
  by_cases hn : n = nodeId
  · rw [hn, update_self]
    exact ⟨fun hmem => absurd hmem hnodup.1, fun hall => absurd hall.2.1 hstatus⟩
  · rw [update_of_ne hn, ← hiff]
    exact (or_iff_right hn).symm

theorem head_free (h : Consistent nodes s) (hready : s.ready = nodeId :: rest) :
    s.statuses nodeId = .pending ∧
      nodeId ∈ nodes.map ExecutionNode.nodeId ∧ (∀ m ∈ inputsOf nodes nodeId, m ∈ s.settled) ∧
      nodeId ∉ s.settled ∧ nodeId ∉ s.inflight ∧ nodeId ∉ s.submitted ∧ nodeId ∉ s.swept := by
  have hmem : nodeId ∈ s.ready := by
    rw [hready]
    exact mem_cons_self
  obtain ⟨hid, hpending, hzero⟩ := (h.queued.ready nodeId).mp hmem
  refine ⟨hpending, hid, unsettled_eq_nil h hzero, fun hset => ?_, fun hfly => ?_, fun hsub => ?_,
    fun hsw => ?_⟩
  · have hended := h.settled nodeId hset
    rw [hpending] at hended
    cases hended
  · exact (h.flying.2 nodeId hfly).2.1 hpending
  · exact (h.submitted.2 nodeId hsub).1 hpending
  · have hcancelled := (h.swept nodeId hsw).2.2.2
    rw [hpending] at hcancelled
    cases hcancelled

theorem consistent_skip (hv : Validated nodes) (h : Consistent nodes s)
    (hready : s.ready = nodeId :: rest) (hphase : s.phase ≠ .returned) :
    Consistent nodes (({ s with ready := rest }.setStatus nodeId .skipped).settle nodes nodeId) := by
  obtain ⟨hpending, hid, hfed, hset, hfly, hsub, hsw⟩ := head_free h hready
  have hself : update s.statuses nodeId .skipped nodeId = .skipped :=
    update_self ..
  have hother : ∀ n, n ≠ nodeId →
      update s.statuses nodeId .skipped n = s.statuses n :=
    fun n hn => update_of_ne hn _ _
  refine consistent_settle hv (queued_rest h hready (by decide) rfl rfl rfl) h.degree ?_ ?_ ?_ ?_
    ?_ ?_ ?_ hphase ?_ hset hfly hsw
  · intro n hn
    change (update s.statuses nodeId .skipped n).ended
    rw [hother n fun heq => hset (heq ▸ hn)]
    exact h.settled n hn
  · intro n hn
    change update s.statuses nodeId .skipped n = _ at hn
    by_cases heq : n = nodeId
    · rw [heq, hself] at hn
      cases hn
    · rw [hother n heq] at hn
      exact h.running n hn
  · refine ⟨h.flying.1, fun n hn => ?_⟩
    change _ ∧ update s.statuses nodeId .skipped n ≠ _ ∧ _
    rw [hother n fun heq => hfly (heq ▸ hn)]
    exact h.flying.2 n hn
  · intro n hn hne
    change (update s.statuses nodeId .skipped n).ended at hn
    rw [hother n hne] at hn
    exact h.ended n hn
  · intro n hn
    change _ ∧ _ ∧ _ ∧ update s.statuses nodeId .skipped n = _
    rw [hother n fun heq => hsw (heq ▸ hn)]
    exact h.swept n hn
  · intro n hn
    by_cases heq : n = nodeId
    · rw [heq]
      exact hfed
    · change update s.statuses nodeId .skipped n ≠ _ at hn
      rw [hother n heq] at hn
      exact h.fed n hn
  · refine ⟨h.submitted.1, fun n hn => ?_⟩
    obtain ⟨hne, hinputs⟩ := h.submitted.2 n hn
    change update s.statuses nodeId .skipped n ≠ _ ∧ ∀ m ∈ _,
      update s.statuses nodeId .skipped m = _ ∨
        update s.statuses nodeId .skipped m = _
    rw [hother n fun heq => hsub (heq ▸ hn)]
    refine ⟨hne, fun m hm => ?_⟩
    rw [hother m fun heq => hset (heq ▸ h.fed n hne m hm)]
    exact hinputs m hm
  · change (update s.statuses nodeId .skipped nodeId).ended
    rw [hself]
    rfl

section

variable (h : Consistent nodes s)
include h

theorem fed_of_not_blocked (hsettled : ∀ m ∈ inputsOf nodes nodeId, m ∈ s.settled) (hblocked : ¬ s.blocked nodes nodeId) :
    ∀ m ∈ inputsOf nodes nodeId, s.statuses m = .completed ∨ s.statuses m = .reused := by
  intro m hm
  have hended := h.settled m (hsettled m hm)
  have hfree : (s.statuses m).blocks = false := by
    rw [Bool.eq_false_iff]
    exact fun hb => hblocked (List.any_eq_true.mpr ⟨m, hm, hb⟩)
  cases hst : s.statuses m with
  | completed => exact .inl rfl
  | reused => exact .inr rfl
  | pending | running =>
    rw [hst] at hended
    cases hended
  | failed | cancelled | skipped =>
    rw [hst] at hfree
    cases hfree

theorem consistent_submit (hready : s.ready = nodeId :: rest)
    (hphase : s.phase ≠ .returned) (hblocked : ¬ s.blocked nodes nodeId) :
    Consistent nodes ({ s with
      ready := rest
      inflight := s.inflight ++ [nodeId]
      submitted := s.submitted ++ [nodeId] }.setStatus nodeId .running) := by
  obtain ⟨hpending, hid, hfed, hset, hfly, hsub, hsw⟩ := head_free h hready
  have hself : update s.statuses nodeId .running nodeId = .running :=
    update_self ..
  have hother : ∀ n, n ≠ nodeId →
      update s.statuses nodeId .running n = s.statuses n :=
    fun n hn => update_of_ne hn _ _
  have hinputs := fed_of_not_blocked h hfed hblocked
  refine ⟨queued_rest h hready (by decide) rfl rfl rfl, h.degree, ?_, ?_, ?_, ?_, ?_, ?_, ?_, ?_⟩
  · intro n hn
    change (update s.statuses nodeId .running n).ended
    rw [hother n fun heq => hset (heq ▸ hn)]
    exact h.settled n hn
  · intro n hn
    change n ∈ s.inflight ++ [nodeId]
    change update s.statuses nodeId .running n = _ at hn
    by_cases heq : n = nodeId
    · rw [heq]
      simp
    · rw [hother n heq] at hn
      exact mem_append_left _ (h.running n hn)
  · refine ⟨h.flying.1.append (nodup_singleton nodeId) (disjoint_singleton.mpr hfly),
      fun n hn => ?_⟩
    change _ ∧ update s.statuses nodeId .running n ≠ _ ∧ _ ∧ n ∈ s.submitted ++ [nodeId]
    rcases mem_append.mp hn with hold | hnew
    · rw [hother n fun heq => hfly (heq ▸ hold)]
      obtain ⟨h₁, h₂, h₃, h₄⟩ := h.flying.2 n hold
      exact ⟨h₁, h₂, h₃, mem_append_left _ h₄⟩
    · rw [mem_singleton.mp hnew, hself]
      exact ⟨hid, by decide, hset, by simp⟩
  · intro n hn
    change (update s.statuses nodeId .running n).ended at hn
    by_cases heq : n = nodeId
    · rw [heq, hself] at hn
      cases hn
    · rw [hother n heq] at hn
      rcases h.ended n hn with h₁ | h₁ | h₁
      · exact .inl h₁
      · exact .inr (.inl (mem_append_left _ h₁))
      · exact .inr (.inr h₁)
  · intro n hn
    have hne : n ≠ nodeId := fun heq => hsw (heq ▸ hn)
    change _ ∧ _ ∧ n ∉ s.inflight ++ [nodeId] ∧ update s.statuses nodeId .running n = _
    rw [hother n hne, mem_append, mem_singleton, not_or]
    obtain ⟨h₁, h₂, h₃, h₄⟩ := h.swept n hn
    exact ⟨h₁, h₂, ⟨h₃, hne⟩, h₄⟩
  · intro n hn
    by_cases heq : n = nodeId
    · rw [heq]
      exact hfed
    · change update s.statuses nodeId .running n ≠ _ at hn
      rw [hother n heq] at hn
      exact h.fed n hn
  · refine ⟨h.submitted.1.append (nodup_singleton nodeId)
      (disjoint_singleton.mpr hsub), fun n hn => ?_⟩
    change update s.statuses nodeId .running n ≠ _ ∧ ∀ m ∈ _,
      update s.statuses nodeId .running m = _ ∨
        update s.statuses nodeId .running m = _
    rcases mem_append.mp hn with hold | hnew
    · obtain ⟨hne, hin⟩ := h.submitted.2 n hold
      rw [hother n fun heq => hsub (heq ▸ hold)]
      refine ⟨hne, fun m hm => ?_⟩
      rw [hother m fun heq => hset (heq ▸ h.fed n hne m hm)]
      exact hin m hm
    · rw [mem_singleton.mp hnew, hself]
      refine ⟨by decide, fun m hm => ?_⟩
      rw [hother m fun heq => hset (heq ▸ hfed m hm)]
      exact hinputs m hm
  · exact fun hret => absurd hret hphase

theorem consistent_setStatus (hrunning : s.statuses nodeId = .running)
    (hstatus : status ≠ .pending) : Consistent nodes (s.setStatus nodeId status) := by
  have hfly := h.running nodeId hrunning
  have hself : (s.setStatus nodeId status).statuses nodeId = status := update_self ..
  have hother : ∀ n, n ≠ nodeId → (s.setStatus nodeId status).statuses n = s.statuses n :=
    fun n hn => update_of_ne hn _ _
  have hpending : ∀ n, (s.setStatus nodeId status).statuses n = .pending ↔
      s.statuses n = .pending := by
    intro n
    by_cases heq : n = nodeId
    · rw [heq, hself, hrunning]
      exact ⟨fun hp => absurd hp hstatus, fun hp => by cases hp⟩
    · rw [hother n heq]
  refine ⟨⟨h.queued.nodup, fun n => ?_⟩, h.degree, ?_, ?_, ?_, ?_, ?_, ?_, ?_, h.returned⟩
  · rw [hpending]
    exact h.queued.ready n
  · intro n hn
    have hne : n ≠ nodeId := fun heq => (h.flying.2 nodeId hfly).2.2.1 (heq ▸ hn)
    rw [hother n hne]
    exact h.settled n hn
  · intro n hn
    by_cases heq : n = nodeId
    · rw [heq]
      exact hfly
    · rw [hother n heq] at hn
      exact h.running n hn
  · refine ⟨h.flying.1, fun n hn => ?_⟩
    rw [ne_eq, hpending]
    exact h.flying.2 n hn
  · intro n hn
    by_cases heq : n = nodeId
    · rw [heq]
      exact .inr (.inl hfly)
    · rw [hother n heq] at hn
      exact h.ended n hn
  · intro n hn
    have hne : n ≠ nodeId := by
      intro heq
      have hcancelled := (h.swept n hn).2.2.2
      rw [heq, hrunning] at hcancelled
      cases hcancelled
    rw [hother n hne]
    exact h.swept n hn
  · intro n hn
    rw [ne_eq, hpending] at hn
    exact h.fed n hn
  · refine ⟨h.submitted.1, fun n hn => ?_⟩
    obtain ⟨hne, hinputs⟩ := h.submitted.2 n hn
    rw [ne_eq, hpending]
    refine ⟨hne, fun m hm => ?_⟩
    have hmne : m ≠ nodeId := by
      intro heq
      have hdone := hinputs m hm
      rw [heq, hrunning] at hdone
      rcases hdone with hdone | hdone <;> cases hdone
    rw [hother m hmne]
    exact hinputs m hm

/-- The lists of futures are no part of the invariant but for those in flight. -/
theorem consistent_done (done : List String) :
    Consistent nodes { s with done := done } :=
  ⟨⟨h.queued.nodup, h.queued.ready⟩, h.degree, h.settled, h.running, h.flying, h.ended, h.swept,
    h.fed, h.submitted, h.returned⟩

end

theorem consistent_landed (hv : Validated nodes) (h : Consistent nodes s)
    (hfly : nodeId ∈ s.inflight) (hend : (s.statuses nodeId).ended) (hphase : s.phase ≠ .returned) :
    Consistent nodes ({ s with inflight := s.inflight.erase nodeId }.settle nodes nodeId) := by
  have hleft : ∀ n, n ∈ s.inflight.erase nodeId ↔ n ≠ nodeId ∧ n ∈ s.inflight :=
    fun n => h.flying.1.mem_erase_iff
  refine consistent_settle hv ⟨h.queued.nodup, h.queued.ready⟩ h.degree h.settled ?_ ?_ ?_ ?_ h.fed
    h.submitted hphase hend (h.flying.2 nodeId hfly).2.2.1 ?_ ?_
  · intro n hn
    refine (hleft n).mpr ⟨fun heq => ?_, h.running n hn⟩
    rw [← heq, hn] at hend
    cases hend
  · exact ⟨h.flying.1.erase nodeId, fun n hn => h.flying.2 n ((hleft n).mp hn).2⟩
  · intro n hn hne
    rcases h.ended n hn with hset | hin | hsw
    · exact .inl hset
    · exact .inr (.inl ((hleft n).mpr ⟨hne, hin⟩))
    · exact .inr (.inr hsw)
  · intro n hn
    obtain ⟨hid, hset, hin, hcan⟩ := h.swept n hn
    exact ⟨hid, hset, fun hmem => hin ((hleft n).mp hmem).2, hcan⟩
  · exact fun hmem => ((hleft nodeId).mp hmem).1 rfl
  · exact fun hsw => (h.swept nodeId hsw).2.2.1 hfly

theorem consistent_phase (h : Consistent nodes s)
    (hphase : phase = .returned → s.ready = [] ∧ s.inflight = []) :
    Consistent nodes { s with phase := phase } :=
  ⟨⟨h.queued.nodup, h.queued.ready⟩, h.degree, h.settled, h.running, h.flying, h.ended, h.swept,
    h.fed, h.submitted, hphase⟩

theorem consistent_step (hv : Validated nodes) (h : Consistent nodes s) {a : SchedulerAction}
    (hstep : s.step nodes maxWorkers a = some s') : Consistent nodes s' := by
  cases a with
  | round sweeps =>
    rw [step] at hstep
    split at hstep
    · rename_i hphase
      have hne : s.phase ≠ .returned := by
        rw [hphase]
        decide
      split at hstep
      · rename_i hempty
        cases hstep
        exact consistent_phase h fun _ => hempty
      · cases hstep
        refine consistent_enter ?_ (by decide)
        cases sweeps with
        | true => exact consistent_sweep h hne
        | false => exact h
    · cases hstep
  | skip =>
    rw [step] at hstep
    cases hready : s.ready with
    | nil =>
      rw [hready] at hstep
      cases hstep
    | cons nodeId rest =>
      rw [hready] at hstep
      dsimp only at hstep
      split at hstep
      · rename_i hcond
        cases hstep
        exact consistent_skip hv h hready (by rw [hcond.1]; decide)
      · cases hstep
  | submit =>
    rw [step] at hstep
    cases hready : s.ready with
    | nil =>
      rw [hready] at hstep
      cases hstep
    | cons nodeId rest =>
      rw [hready] at hstep
      dsimp only at hstep
      split at hstep
      · rename_i hcond
        cases hstep
        exact consistent_submit h hready (by rw [hcond.1]; decide) hcond.2.2
      · cases hstep
  | leave refused =>
    rw [step] at hstep
    split at hstep
    · cases hstep
      refine consistent_enter h ?_
      split <;> decide
    · cases hstep
  | finish nodeId outcome =>
    rw [step] at hstep
    split at hstep
    · rename_i hcond
      cases hstep
      refine consistent_setStatus (consistent_done h (nodeId :: s.done)) hcond.2.2.1 ?_
      intro heq
      cases outcome with
      | none => cases heq
      | some o =>
        change o = .pending at heq
        rw [heq] at hcond
        exact absurd hcond.2.2.2 (by decide)
    · cases hstep
  | collect nodeId =>
    rw [step] at hstep
    split at hstep
    · rename_i hcond
      cases hstep
      obtain ⟨hphase, hfly, hdone⟩ := hcond
      have hne : s.phase ≠ .returned := by
        rw [hphase]
        decide
      have hcons := consistent_done h (s.done.erase nodeId)
      have hself : ∀ status, update s.statuses nodeId status nodeId = status :=
        fun status => update_self ..
      by_cases hend : (s.statuses nodeId).ended
      · rw [if_pos hend]
        have hsame : update s.statuses nodeId (s.statuses nodeId) = s.statuses :=
          update_eq_self nodeId s.statuses
        unfold setStatus
        rw [hsame]
        exact consistent_landed hv hcons hfly hend hne
      · rw [if_neg hend]
        have hrunning : s.statuses nodeId = .running := by
          have hpending := (h.flying.2 nodeId hfly).2.1
          cases hst : s.statuses nodeId with
          | running => rfl
          | pending => exact absurd hst hpending
          | completed | reused | failed | cancelled | skipped =>
            rw [hst] at hend
            exact absurd rfl hend
        have hfailed : EvidenceStatus.failed ≠ .pending := by decide
        refine consistent_landed hv (consistent_setStatus hcons hrunning hfailed) hfly ?_ hne
        change (update s.statuses nodeId .failed nodeId).ended
        rw [hself]
        rfl
    · cases hstep
  | again =>
    rw [step] at hstep
    split at hstep
    · cases hstep
      exact consistent_phase h fun hret => by cases hret
    · cases hstep

theorem consistent_of_run (hv : Validated nodes) (hrun : Run nodes maxWorkers s) :
    Consistent nodes s := by
  induction hrun with
  | start => exact consistent_start hv
  | step _ hstep ih => exact consistent_step hv ih hstep

/-! ## When the loop has returned -/

/-- Every node has ended, none was submitted twice, and what was submitted had its inputs. -/
structure AllSettled (nodes : List ExecutionNode) (s : Scheduler) : Prop where
  ended : ∀ n ∈ nodes.map ExecutionNode.nodeId, (s.statuses n).ended
  once : s.submitted.Nodup
  fed : ∀ n ∈ s.submitted, ∀ m ∈ inputsOf nodes n,
    s.statuses m = .completed ∨ s.statuses m = .reused

/-- A run from a validated plan settles every node if and only if no sweep took a node that is an
    input of another. -/
theorem returned_settled (hvalid : validatePlan nodes) (hrun : Run nodes maxWorkers s)
    (hreturned : s.phase = .returned) :
    AllSettled nodes s ↔ ∀ x ∈ s.swept, dependents nodes x = [] := by
  have hv := validated_of_validatePlan hvalid
  have h := consistent_of_run hv hrun
  obtain ⟨hready, hair⟩ := h.returned hreturned
  have hdepends : ∀ {x n : String}, x ∈ inputsOf nodes n → n ∈ dependents nodes x := by
    intro x n hx
    rw [← count_pos_iff, count_dependents hv.unique]
    exact count_pos_iff.mpr hx
  constructor
  · intro hall x hx
    by_contra hne
    obtain ⟨n, hn⟩ := exists_mem_of_ne_nil _ hne
    have hinput : x ∈ inputsOf nodes n := by
      rw [← count_pos_iff, ← count_dependents hv.unique]
      exact count_pos_iff.mpr hn
    obtain ⟨m, hm, hmem⟩ := mem_flatMap.mp hn
    obtain ⟨-, -, rfl⟩ := mem_map.mp hmem
    have hended := hall.ended m.nodeId (mem_map_of_mem hm)
    have hpending : (s.statuses m.nodeId) ≠ .pending := by
      intro heq
      rw [heq] at hended
      cases hended
    exact (h.swept x hx).2.1 (h.fed m.nodeId hpending x hinput)
  · intro hswept
    refine ⟨fun n hn => ?_, h.submitted.1, fun n hn => (h.submitted.2 n hn).2⟩
    by_contra hopen
    -- the first node, in the order of inputs, that has not ended
    obtain ⟨k, ⟨hk, hkopen⟩, hmin⟩ := exists_minimal hv.acyclic
      (P := fun k => k ∈ nodes.map ExecutionNode.nodeId ∧ ¬ (s.statuses k).ended)
      (fun k hk => hk.1) ⟨n, hn, hopen⟩
    have hpending : s.statuses k = .pending := by
      cases hst : s.statuses k with
      | pending => rfl
      | running =>
        have hfly := h.running k hst
        rw [hair] at hfly
        cases hfly
      | completed | reused | failed | cancelled | skipped =>
        rw [hst] at hkopen
        exact absurd rfl hkopen
    have hcount : s.indegree k ≠ 0 := by
      intro hzero
      have hmem := (h.queued.ready k).mpr ⟨hk, hpending, hzero⟩
      rw [hready] at hmem
      cases hmem
    have hlen := h.degree k
    obtain ⟨m, hm⟩ := exists_mem_of_length_pos
      (show 0 < (unsettled nodes s k).length by omega)
    obtain ⟨hinput, hunsettled⟩ := mem_filter.mp hm
    have hnot : m ∉ s.settled := of_decide_eq_true hunsettled
    have hlinked := (mem_inputsOf hv.unique).mp hinput
    obtain ⟨p, hp, hpk, hpm⟩ := mem_links.mp hlinked
    have hended : (s.statuses m).ended := by
      by_contra hmopen
      exact hmin m hlinked ⟨hv.known p hp m hpm, hmopen⟩
    rcases h.ended m hended with hset | hfly | hsw
    · exact hnot hset
    · rw [hair] at hfly
      cases hfly
    · have hdep := hdepends hinput
      rw [hswept m hsw] at hdep
      cases hdep

/-! ## While the loop runs -/

/-- A node with a result was submitted. -/
structure Launched (maxWorkers : Nat) (s : Scheduler) : Prop where
  slots : s.inflight.length ≤ maxWorkers
  fruits : ∀ n, s.statuses n = .completed ∨ s.statuses n = .reused → n ∈ s.submitted

theorem Launched.setStatus {status : EvidenceStatus} (h : Launched maxWorkers s)
    (hstatus : nodeId ∉ s.submitted → status ≠ .completed ∧ status ≠ .reused) :
    Launched maxWorkers (s.setStatus nodeId status) := by
  refine ⟨h.slots, fun n hn => ?_⟩
  change update s.statuses nodeId status n = _ ∨ update s.statuses nodeId status n = _ at hn
  by_cases hself : n = nodeId
  · subst hself
    rw [update_self] at hn
    by_contra hnot
    exact hn.elim (hstatus hnot).1 (hstatus hnot).2
  · rw [update_of_ne hself] at hn
    exact h.fruits n hn

theorem Launched.settle (h : Launched maxWorkers s) :
    Launched maxWorkers (s.settle nodes nodeId) := by
  obtain ⟨-, hstatuses, hair, -, hsubmitted, -⟩ :=
    release_foldl_same (dependents nodes nodeId) { s with settled := nodeId :: s.settled }
  exact ⟨hair ▸ h.slots, hstatuses ▸ hsubmitted ▸ h.fruits⟩

theorem Launched.step (hl : Launched maxWorkers s) (h : Consistent nodes s) {a : SchedulerAction}
    (hstep : s.step nodes maxWorkers a = some s') : Launched maxWorkers s' := by
  have hflying : ∀ n ∈ s.inflight, n ∈ s.submitted := fun n hn => (h.flying.2 n hn).2.2.2
  unfold Scheduler.step at hstep
  cases a with
  | round sweeps =>
    obtain ⟨-, hstep⟩ := Option.ite_none_right_eq_some.mp hstep
    split at hstep <;> cases hstep
    · exact ⟨hl.slots, hl.fruits⟩
    cases sweeps with
    | false => exact ⟨hl.slots, hl.fruits⟩
    | true =>
      refine ⟨hl.slots, fun n hn => hl.fruits n ?_⟩
      change (if _ then _ else _) = _ ∨ (if _ then _ else _) = _ at hn
      split at hn
      · rcases hn with hn | hn <;> cases hn
      · exact hn
  | skip =>
    dsimp only at hstep
    split at hstep
    · cases hstep
    obtain ⟨-, hstep⟩ := Option.ite_none_right_eq_some.mp hstep
    cases hstep
    exact .settle (.setStatus ⟨hl.slots, hl.fruits⟩ fun _ => by decide)
  | submit =>
    dsimp only at hstep
    split at hstep
    · cases hstep
    obtain ⟨⟨-, hfree, -⟩, hstep⟩ := Option.ite_none_right_eq_some.mp hstep
    cases hstep
    refine .setStatus ⟨?_, fun n hn => mem_append_left _ (hl.fruits n hn)⟩ fun _ => by decide
    rw [length_append]
    exact hfree
  | leave refused | again =>
    obtain ⟨-, hstep⟩ := Option.ite_none_right_eq_some.mp hstep
    cases hstep
    exact ⟨hl.slots, hl.fruits⟩
  | finish nodeId outcome =>
    obtain ⟨⟨hfly, -⟩, hstep⟩ := Option.ite_none_right_eq_some.mp hstep
    cases hstep
    exact .setStatus ⟨hl.slots, hl.fruits⟩ fun hnot => absurd (hflying _ hfly) hnot
  | collect nodeId =>
    obtain ⟨⟨-, hfly, -⟩, hstep⟩ := Option.ite_none_right_eq_some.mp hstep
    cases hstep
    refine .settle (.setStatus ⟨?_, hl.fruits⟩ fun hnot => absurd (hflying _ hfly) hnot)
    exact erase_sublist.length_le.trans hl.slots

/-- In every state of a run, no more nodes are in flight than there are workers, none has been
    submitted twice, and all that is upstream of a submitted node has a result. -/
theorem dispatched_safely (hvalid : validatePlan nodes) (hrun : Run nodes maxWorkers s) :
    s.inflight.length ≤ maxWorkers ∧ s.submitted.Nodup ∧
    ∀ n ∈ s.submitted, ∀ m, Relation.TransGen (fun a b => b ∈ inputsOf nodes a) n m →
      s.statuses m = .completed ∨ s.statuses m = .reused := by
  have hv := validated_of_validatePlan hvalid
  have hl : Launched maxWorkers s := by
    induction hrun with
    | start => exact ⟨Nat.zero_le _, fun n hn => by rcases hn with hn | hn <;> cases hn⟩
    | step hrun hstep ih => exact ih.step (consistent_of_run hv hrun) hstep
  have h := (consistent_of_run hv hrun).submitted
  refine ⟨hl.slots, h.1, fun n hn m hm => ?_⟩
  induction hm with
  | single hm => exact (h.2 n hn).2 _ hm
  | tail _ hm ih => exact (h.2 _ (hl.fruits _ ih)).2 _ hm

/-! ## A chain of two nodes -/

def chain : List ExecutionNode :=
  [{ nodeId := "a", category := .query }, { nodeId := "b", category := .filter, inputs := ["a"] }]

/-- Actions one after the other. -/
def play (nodes : List ExecutionNode) (maxWorkers : Nat) (s : Scheduler) :
    List SchedulerAction → Option Scheduler
  | [] => some s
  | a :: rest => (s.step nodes maxWorkers a).bind fun s => play nodes maxWorkers s rest

theorem run_play {s : Scheduler} (hrun : Run nodes maxWorkers s) :
    ∀ {s' : Scheduler} {actions : List SchedulerAction},
      play nodes maxWorkers s actions = some s' → Run nodes maxWorkers s' := by
  intro s' actions
  induction actions generalizing s with
  | nil =>
    intro h
    cases h
    exact hrun
  | cons a rest ih =>
    intro h
    obtain ⟨s₁, hstep, h⟩ := Option.bind_eq_some_iff.mp h
    exact ih (hrun.step hstep) h

/-- A request to stop is seen before the first node begins, and the second stays pending. -/
theorem swept_source : ¬ ∀ (nodes : List ExecutionNode) (maxWorkers : Nat) (s : Scheduler),
    validatePlan nodes → Run nodes maxWorkers s → s.phase = .returned → AllSettled nodes s := by
  intro hall
  obtain ⟨s, hs⟩ : ∃ s, play chain 2 (start chain) [.round true] = some s := ⟨_, rfl⟩
  have hsettled := hall chain 2 s (by decide) (run_play .start hs)
  cases hs
  exact absurd ((hsettled rfl).ended "b" (by decide)) (by decide)

/-- Both nodes are completed. -/
theorem chain_settled : ∃ s, play chain 2 (start chain) [.round false, .submit, .leave false,
    .finish "a" (some .completed), .collect "a", .again, .round false, .submit, .leave false,
    .finish "b" (some .completed), .collect "b", .again, .round false] = some s ∧
      AllSettled chain s := by
  obtain ⟨s, hs⟩ : ∃ s, play chain 2 (start chain) [.round false, .submit, .leave false,
      .finish "a" (some .completed), .collect "a", .again, .round false, .submit, .leave false,
      .finish "b" (some .completed), .collect "b", .again, .round false] = some s := ⟨_, rfl⟩
  have hvalid : validatePlan chain := by decide
  have hiff := returned_settled hvalid (run_play .start hs)
  cases hs
  exact ⟨_, rfl, (hiff rfl).mpr fun x hx => absurd hx not_mem_nil⟩

theorem chain_dispatched_safely : ∃ s : Scheduler, s.submitted = ["a", "b"] ∧ s.inflight = ["b"] ∧
    (s.statuses "a" = .completed ∨ s.statuses "a" = .reused) := by
  obtain ⟨s, hs⟩ : ∃ s, play chain 1 (start chain) [.round false, .submit, .leave false,
    .finish "a" (some .completed), .collect "a", .again, .round false, .submit] = some s := ⟨_, rfl⟩
  have hsafe := (dispatched_safely (by decide) (run_play .start hs)).2.2 "b"
  cases hs
  exact ⟨_, rfl, rfl, hsafe (by decide) "a" (.single (by decide))⟩

end Scheduler

end WebGis.Compute
