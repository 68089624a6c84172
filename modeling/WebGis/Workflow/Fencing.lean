/-
  Fencing: only the latest claimant of a node completes it, and a revision is claimed once.

  `holder` replays the claims and resets of the history. The invariant `Held` says that the
  column `claimed_by` of every row is what the replay gives, so a completion that checks
  the column checks the history. Each transition leaves a revision behind that no later row
  has, so no two transitions start from one revision (`Spent`).
-/
import WebGis.Workflow.Journal

namespace WebGis.Workflow

open Data Conc NodeState List Option TransitionCall Pool

/-! ## Tokens -/

/-- The tokens that drivers and chat writers draw: not empty, and no longer than the column. -/
structure RunToken where
  text : String
  nonempty : text ≠ ""
  short : text.length ≤ 64

theorem RunToken.stored (t : RunToken) : nonEmpty (clip 64 t.text) = some t.text := by
  rw [clip_of_length_le t.short, nonEmpty, if_neg t.nonempty]

/-- Claims, and transitions that require a claim, carry a run token. -/
structure Tokened (c : TransitionCall) : Prop where
  claim : c.claim = true → ∃ t : RunToken, c.claimedBy = t.text
  require : c.requireClaim = true → ∃ t : RunToken, c.claimedBy = t.text

variable {c : TransitionCall}

theorem Tokened.of_unclaimed (hc : c.claim = false) (hr : c.requireClaim = false) : Tokened c := by
  refine ⟨fun he => ?_, fun he => ?_⟩
  · rw [hc] at he
    cases he
  · rw [hr] at he
    cases he

/-! ## Who holds a node, from the history -/

/-- The transition of the node `k` that a call carried out. -/
def movedCall (d : Done) (k : String × String) : Option TransitionCall :=
  ((transitionOf d.env d.before d.op).map Prod.fst).filter fun c => c.key = k

variable {k : String × String}

theorem movedCall_eq_some {d : Done} : movedCall d k = some c ↔ ∃ row, MovedBy d k c row := by
  simp [movedCall, MovedBy, filter_eq_some_iff]

/-- The claimant of the node `k` after the calls of the log. -/
def holder (k : String × String) : List Done → Option String
  | [] => none
  | d :: earlier =>
    match movedCall d k with
    | some c => c.newClaimedBy (holder k earlier)
    | none => holder k earlier

/-- The latest claim of `k` was made with the token `t`, and the node was not reset since. -/
def LatestClaim (log : List Done) (k : String × String) (t : String) : Prop :=
  ∃ newer d older c row, log = newer ++ d :: older ∧ MovedBy d k c row ∧ c.claim = true ∧
    c.claimedBy = t ∧
    ∀ d' ∈ newer, ∀ c' row', MovedBy d' k c' row' → c'.claim = false ∧ c'.toState ≠ ready

/-- Every claim of the log carries a run token. -/
def TokenedLog (log : List Done) : Prop :=
  ∀ d ∈ log, ∀ k c row, MovedBy d k c row → Tokened c

theorem latestClaim_of_holder {log : List Done} {t : String} (htok : TokenedLog log)
    (h : holder k log = some t) : LatestClaim log k t := by
  induction log with
  | nil => cases h
  | cons d earlier ih =>
    have htok' : TokenedLog earlier := fun d' hd' => htok d' (mem_cons_of_mem _ hd')
    rw [holder] at h
    cases hm : movedCall d k with
    | none =>
      rw [hm] at h
      obtain ⟨newer, d0, older, c0, row0, rfl, hmv, hcl, ht, hrest⟩ := ih htok' h
      refine ⟨d :: newer, d0, older, c0, row0, rfl, hmv, hcl, ht, fun d' hd' c' row' h' => ?_⟩
      rcases mem_cons.mp hd' with rfl | hd'
      · have := movedCall_eq_some.mpr ⟨row', h'⟩
        rw [hm] at this
        cases this
      · exact hrest d' hd' c' row' h'
    | some c =>
      rw [hm] at h
      obtain ⟨row, hmv⟩ := movedCall_eq_some.mp hm
      simp only [newClaimedBy] at h
      split at h
      · cases h
      rename_i hstay
      split at h
      · rename_i hcl
        obtain ⟨tok, htext⟩ := (htok d mem_cons_self k c row hmv).claim hcl
        rw [htext, tok.stored] at h
        exact ⟨[], d, earlier, c, row, rfl, hmv, hcl, htext.trans (some.inj h), by simp⟩
      · rename_i hcl
        obtain ⟨newer, d0, older, c0, row0, rfl, hmv0, hcl0, ht, hrest⟩ := ih htok' h
        refine ⟨d :: newer, d0, older, c0, row0, rfl, hmv0, hcl0, ht, fun d' hd' c' row' h' => ?_⟩
        rcases mem_cons.mp hd' with rfl | hd'
        · have := movedCall_eq_some.mpr ⟨row', h'⟩
          rw [hm] at this
          cases this
          exact ⟨by simpa using hcl, fun he => hstay (.inl he)⟩
        · exact hrest d' hd' c' row' h'

/-! ## The column follows the history -/

/-- The claimant column of every row is what the history gives; a node that does not exist
    has no claimant. -/
structure Held (s : Past) : Prop where
  column : ∀ {k r}, s.state.nodes.get k = some r → r.claimedBy = holder k s.log
  absent : ∀ {k}, s.state.nodes.get k = none → holder k s.log = none
  tokened : TokenedLog s.log

variable {w : World} {o : Op}

theorem movedCall_none {busy : Bool} (i : Nat) (h : transitionOf busy w o = none)
    (k : String × String) : movedCall ⟨i, busy, w, o⟩ k = none := by
  simp [movedCall, h]

variable {row : NodeRow}

theorem movedCall_some {busy : Bool} (i : Nat) (h : transitionOf busy w o = some (c, row))
    (k : String × String) : movedCall ⟨i, busy, w, o⟩ k = if c.key = k then some c else none := by
  by_cases hk : c.key = k <;> simp [movedCall, h, hk, Option.filter]

theorem Held.init : Held Past.init := ⟨fun h => (by cases h), fun _ => rfl, fun _ hd => (by cases hd)⟩

variable {A : TransitionCall → Prop} {s : Past}

theorem Held.step (hA : ∀ c, A c → Tokened c) (hh : Held s) (hs : Followed s) (h : Judged A s o)
    (i : Nat) (busy : Bool) : Held (run i busy s o).1 := by
  rcases h.step hs busy with ⟨ht, hq⟩ | ⟨c, seen, row, now, -, -, ht, hc, hm⟩
  · have hhold : ∀ k, holder k (run i busy s o).1.log = holder k s.log := fun k => by
      rw [traced_log, holder, movedCall_none i ht k]
    refine ⟨fun {k r'} hr' => ?_, fun {k} hn => ?_, ?_⟩
    · rw [hhold k]
      rcases Recorded.origin hq hr' with ⟨r, hr, -, hcore⟩ | ⟨hn, hf⟩
      · rw [hcore.claimedBy, hh.column hr]
      · rw [hf.claimedBy, hh.absent hn]
    · rw [hhold k]
      cases hk : s.state.nodes.get k with
      | none => exact hh.absent hk
      | some r =>
        obtain ⟨r', hr', -⟩ := hq.kept hk
        rw [traced_state] at hn
        rw [hn] at hr'
        cases hr'
    · intro d hd k c row hmv
      rcases mem_cons.mp hd with rfl | hd
      · rw [MovedBy, ht] at hmv
        cases hmv.1
      · exact hh.tokened d hd k c row hmv
  · have hhold : ∀ k, holder k (run i busy s o).1.log =
        if c.key = k then c.newClaimedBy (holder k s.log) else holder k s.log := fun k => by
      rw [traced_log, holder, movedCall_some i ht k]
      by_cases hk : c.key = k <;> simp [hk]
    refine ⟨fun {k r'} hr' => ?_, fun {k} hn => ?_, ?_⟩
    · rw [hhold k]
      rw [traced_state, hm.get k] at hr'
      split at hr'
      · rename_i hk
        cases hr'
        rw [if_pos hk, newRow_claimedBy, hh.column (hk ▸ hm.found)]
      · rename_i hk
        rw [if_neg hk, hh.column hr']
    · rw [hhold k]
      rw [traced_state, hm.get k] at hn
      split at hn
      · cases hn
      rename_i hk
      rw [if_neg hk, hh.absent hn]
    · intro d hd k c' row' hmv
      rcases mem_cons.mp hd with rfl | hd
      · rw [MovedBy, ht] at hmv
        cases hmv.1
        exact hA c hc
      · exact hh.tokened d hd k c' row' hmv

/-! ## Fencing -/

/-- Whoever moved a node under a required claim was its latest claimant. -/
def Fenced (d : Done) (earlier : List Done) : Prop :=
  ∀ k c row, MovedBy d k c row → c.requireClaim = true → LatestClaim earlier k c.claimedBy

theorem fenced_step (hA : ∀ c, A c → Tokened c) (hh : Held s) (hs : Followed s) (h : Judged A s o)
    (i : Nat) (busy : Bool) : Fenced ⟨i, busy, s.state, o⟩ s.log := by
  rintro k c row ⟨ht, rfl⟩ hreq
  rcases h.step hs busy with ⟨hnone, -⟩ | ⟨c', seen, row', now, -, -, ht', hc, hm⟩
  · rw [hnone] at ht
    cases ht
  · have hcc : c' = c := by
      have he := some.inj (ht'.symm.trans ht)
      exact congrArg Prod.fst he
    subst hcc
    obtain ⟨tok, htext⟩ := (hA c' hc).require hreq
    have hcl : row'.claimant = tok.text := (hm.claimant hreq).trans htext
    have hcol : row'.claimedBy = some tok.text := by
      cases hb : row'.claimedBy with
      | none =>
        rw [NodeRow.claimant, hb] at hcl
        exact absurd hcl.symm tok.nonempty
      | some t =>
        rw [NodeRow.claimant, hb] at hcl
        exact congrArg some hcl
    rw [htext]
    exact latestClaim_of_holder hh.tokened ((hh.column hm.found).symm.trans hcol)

variable {α : Type} {Q : Pool Op Res α Past}

theorem held_of_reached (hA : ∀ c, A c → Tokened c) (h : Reached A Q) :
    Held Q.shared ∧ Always Fenced Q.shared.log := by
  let C := (discipline A).strengthen (fun s => Held s ∧ Always Fenced s.log) free
    fun {i e _ _} hs hh hg _ _ =>
      ⟨hh.1.step hA hs hg i e, fenced_step hA hh.1 hs hg i e, hh.2⟩
  have hruns : Pool.Runs run (Client A) C.guard ⟨Past.init, []⟩ Q :=
    h.mono (fun _ hp => hp) fun _ _ _ _ _ => ⟨trivial, trivial⟩
  exact (C.runs_inv hruns (fun _ hp => hp.ok.strengthen) ⟨Followed.of_nil _, Held.init, trivial⟩).2

/-! ## A revision is left once -/

/-- The node a call moved, and the revision it moved it from. -/
def movedAt (d : Done) : Option ((String × String) × Nat) :=
  (transitionOf d.env d.before d.op).map fun p => (p.1.key, p.2.stateRevision)

/-- No two transitions left the same revision of a node, and no node is back at a revision
    that was left. -/
structure Spent (s : Past) : Prop where
  once : (s.log.filterMap movedAt).Nodup
  gone : ∀ p ∈ s.log.filterMap movedAt,
    ∃ row, s.state.nodes.get p.1 = some row ∧ p.2 < row.stateRevision

theorem Spent.of_nil (w : World) : Spent ⟨w, []⟩ := ⟨nodup_nil, fun _ hp => by cases hp⟩

theorem Spent.step (hp : Spent s) (hs : Followed s) (h : Judged A s o) (i : Nat) (busy : Bool) :
    Spent (run i busy s o).1 := by
  rcases h.step hs busy with ⟨ht, hq⟩ | ⟨c, seen, row, now, -, -, ht, -, hm⟩
  · have hlog : (run i busy s o).1.log.filterMap movedAt = s.log.filterMap movedAt := by
      simp [movedAt, ht]
    refine ⟨hlog ▸ hp.once, fun p hpm => ?_⟩
    rw [hlog] at hpm
    obtain ⟨row, hrow, hlt⟩ := hp.gone p hpm
    obtain ⟨row', hrow', hc⟩ := hq.kept hrow
    exact ⟨row', hrow', by rw [hc.stateRevision]; exact hlt⟩
  · have hlog : (run i busy s o).1.log.filterMap movedAt =
        (c.key, row.stateRevision) :: s.log.filterMap movedAt := by
      simp [movedAt, ht]
    have hrev : seen.stateRevision = row.stateRevision := hm.core.stateRevision.symm
    have hnew : (run i busy s o).1.state.nodes.get c.key = some (c.newRow seen now row) := by
      rw [traced_state, hm.get, if_pos rfl]
    refine ⟨?_, fun p hpm => ?_⟩
    · rw [hlog, nodup_cons]
      refine ⟨fun hmem => ?_, hp.once⟩
      obtain ⟨row', hrow', hlt⟩ := hp.gone _ hmem
      have : row' = row := some.inj (hrow'.symm.trans hm.found)
      subst this
      exact Nat.lt_irrefl _ hlt
    · rw [hlog] at hpm
      by_cases hk : p.1 = c.key
      · refine ⟨_, by rw [hk, hnew], ?_⟩
        rw [newRow_stateRevision, hrev]
        rcases mem_cons.mp hpm with rfl | hpm
        · exact Nat.lt_succ_self _
        · obtain ⟨row', hrow', hlt⟩ := hp.gone p hpm
          have : row' = row := some.inj (hrow'.symm.trans (hk ▸ hm.found))
          subst this
          exact Nat.lt_succ_of_lt hlt
      · rcases mem_cons.mp hpm with rfl | hpm
        · exact absurd rfl hk
        obtain ⟨row', hrow', hlt⟩ := hp.gone p hpm
        refine ⟨row', ?_, hlt⟩
        rw [traced_state, hm.get, if_neg (Ne.symm hk), hrow']

/-! ## Claims from one revision -/

/-- A claim of `k` that had read revision `r` sent its update. -/
def claimTried (k : String × String) (r : Nat) (d : Done) : Bool :=
  match d.op with
  | .updateNode c seen _ => !d.env && c.claim && c.key = k && seen.stateRevision = r
  | _ => false

/-- A claim of `k` at revision `r` succeeded. -/
def claimWon (k : String × String) (r : Nat) (d : Done) : Bool :=
  match transitionOf d.env d.before d.op with
  | some (c, row) => c.claim && c.key = k && row.stateRevision = r
  | none => false

theorem claimWon_iff {r : Nat} {d : Done} :
    claimWon k r d ↔ ∃ c row, MovedBy d k c row ∧ c.claim ∧
      row.stateRevision = r := by
  unfold claimWon MovedBy
  cases transitionOf d.env d.before d.op with
  | none => simp
  | some p =>
    obtain ⟨c, row⟩ := p
    simp only [Bool.and_eq_true, decide_eq_true_eq, some.injEq, Prod.mk.injEq]
    constructor
    · rintro ⟨⟨hcl, hk⟩, hr⟩
      exact ⟨c, row, ⟨⟨rfl, rfl⟩, hk⟩, hcl, hr⟩
    · rintro ⟨_, _, ⟨⟨rfl, rfl⟩, hk⟩, hcl, hr⟩
      exact ⟨⟨hcl, hk⟩, hr⟩

theorem claimWon_le_one (hp : Spent s) (k : String × String) (r : Nat) :
    (s.log.filter (claimWon k r)).length ≤ 1 := by
  have hcount : ∀ log : List Done,
      (log.filter (claimWon k r)).length ≤ (log.filterMap movedAt).count (k, r) := by
    intro log
    induction log with
    | nil => exact Nat.le_refl _
    | cons d log ih =>
      by_cases hw : claimWon k r d
      · obtain ⟨c, row, ⟨ht, hk⟩, -, hr⟩ := claimWon_iff.mp hw
        have hat : movedAt d = some (k, r) := by simp [movedAt, ht, hk, hr]
        simp only [filter_cons, hw, if_true, length_cons, filterMap_cons, hat, count_cons_self]
        omega
      · simp only [filter_cons, hw, filterMap_cons]
        cases movedAt d with
        | none => exact ih
        | some p => exact Nat.le_trans ih count_le_count_cons
  exact Nat.le_trans (hcount s.log) (nodup_iff_count_le_one.mp hp.once _)

/-! ## Claims, completions and resets only -/

/-- `READY` to `RUNNING` with the claimant's token. -/
structure IsClaim (c : TransitionCall) : Prop where
  toState : c.toState = running
  expectedFrom : c.expectedFrom = some ready
  claim : c.claim = true
  requireClaim : c.requireClaim = false
  token : ∃ t : RunToken, c.claimedBy = t.text

/-- To an end state, for the holder of the claim. -/
structure IsCompletion (c : TransitionCall) : Prop where
  toState : c.toState = succeeded ∨ c.toState = failed ∨ c.toState = cancelled
  claim : c.claim = false
  requireClaim : c.requireClaim = true
  token : ∃ t : RunToken, c.claimedBy = t.text

/-- Back to `READY`, unconditionally, as recovery does it. -/
structure IsReset (c : TransitionCall) : Prop where
  toState : c.toState = ready
  claim : c.claim = false
  requireClaim : c.requireClaim = false

/-- A claim, a completion or a reset; heartbeats are no transitions. -/
def ClaimTraffic (c : TransitionCall) : Prop := IsClaim c ∨ IsCompletion c ∨ IsReset c

/-- Nobody holds a ready node. -/
def ReadyFree (w : World) : Prop :=
  ∀ k r, w.nodes.get k = some r → r.state = ready → r.claimedBy = none

theorem ReadyFree.step (hr : ReadyFree s.state) (hs : Followed s) (h : Judged A s o) (busy : Bool) :
    ReadyFree (exec busy s.state o).1 := by
  intro k r' hr' hready
  rcases h.step hs busy with ⟨-, hq⟩ | ⟨c, seen, row, now, -, -, -, -, hm⟩
  · rcases Recorded.origin hq hr' with ⟨r, hrow, -, hc⟩ | ⟨-, hf⟩
    · rw [hc.claimedBy]
      exact hr k r hrow (hc.state.symm.trans hready)
    · exact hf.claimedBy
  · rw [hm.get k] at hr'
    split at hr'
    · cases hr'
      rw [newRow_state] at hready
      rw [newRow_claimedBy, newClaimedBy, if_pos (.inl hready)]
    · exact hr k r' hr' hready

theorem readyFree_of_reached (h : Reached A Q) : ReadyFree Q.shared.state := by
  let C := (discipline A).strengthen (fun s => ReadyFree s.state) free
    fun {_ e _ _} hs hr hg _ _ => hr.step hs hg e
  have hruns : Pool.Runs run (Client A) C.guard ⟨Past.init, []⟩ Q :=
    h.mono (fun _ hp => hp) fun _ _ _ _ _ => ⟨trivial, trivial⟩
  exact (C.runs_inv hruns (fun _ hp => hp.ok.strengthen)
    ⟨Followed.of_nil _, fun _ _ h => by cases h⟩).2

/-- From a ready node only a claim moves on: resets are illegal, and completions do not
    match the empty claimant. -/
theorem claim_of_ready {w' : World} {seen : NodeRow} {now : Nat} (hc : ClaimTraffic c)
    (hm : Moves w w' c seen row now) (hready : row.state = ready) (hfree : row.claimedBy = none) :
    c.claim := by
  have hl := hm.legal
  rw [hready] at hl
  rcases hc with h | h | h
  · exact h.claim
  · obtain ⟨tok, htext⟩ := h.token
    have hcl := hm.claimant h.requireClaim
    rw [NodeRow.claimant, hfree, htext] at hcl
    exact absurd hcl.symm tok.nonempty
  · rw [h.toState] at hl
    exact absurd hl (by decide)

/-- The transitions of the log that left a ready node were claims, and wherever a claim was
    tried, a claim has succeeded. -/
structure Contested (s : Past) : Prop where
  free : ReadyFree s.state
  spent : Spent s
  left : ∀ d ∈ s.log, ∀ k c row, MovedBy d k c row → row.state = ready → c.claim = true
  won : ∀ k r, (∃ d ∈ s.log, claimTried k r d = true) → ∃ d ∈ s.log, claimWon k r d = true

section

variable (hc : Contested s) (hs : Followed s) (h : Judged ClaimTraffic s o) (i : Nat) (busy : Bool)
include hc hs h i busy

theorem Contested.left_step (hmv : MovedBy ⟨i, busy, s.state, o⟩ k c row)
    (hready : row.state = ready) : c.claim := by
  rcases h.step hs busy with ⟨ht, -⟩ | ⟨c', seen, row', now, -, -, ht, hA, hm⟩
  · rw [MovedBy, ht] at hmv
    cases hmv.1
  · have he := some.inj (ht.symm.trans hmv.1)
    cases he
    exact claim_of_ready hA hm hready (hc.free _ _ hm.found hready)

/-- A claim that sends its update finds the ready row it read, or another claim has taken
    that row since. -/
theorem Contested.won_step {r : Nat} (htried : claimTried k r ⟨i, busy, s.state, o⟩) :
    ∃ d ∈ (run i busy s o).1.log, claimWon k r d := by
  cases o with
  | updateNode c seen now =>
    simp only [claimTried, Bool.and_eq_true, Bool.not_eq_true', decide_eq_true_eq] at htried
    obtain ⟨⟨⟨rfl, hcl⟩, rfl⟩, rfl⟩ := htried
    obtain ⟨hA, hkey, ⟨w, hw, hseen⟩, hj⟩ := h
    have hready : seen.state = ready := by
      rcases hA with hA | hA | hA
      · exact ((judge_eq_none.mp hj).2.2 ready hA.expectedFrom).symm
      · rw [hA.claim] at hcl
        cases hcl
      · rw [hA.claim] at hcl
        cases hcl
    obtain ⟨row, hrow, hfate⟩ := hs w hw hseen
    rcases hfate with hcore | ⟨-, d, hd, c0, row0, hmv, hcore⟩
    · refine ⟨_, mem_cons_self, claimWon_iff.mpr ⟨c, row, ⟨?_, rfl⟩, hcl, hcore.stateRevision⟩⟩
      simp [transitionOf, hrow, hcore.stateRevision]
    · have hclaim := hc.left d hd c.key c0 row0 hmv (hcore.state.trans hready)
      exact ⟨d, mem_cons_of_mem _ hd, claimWon_iff.mpr ⟨c0, row0, hmv, hclaim, hcore.stateRevision⟩⟩
  | _ => cases htried

theorem Contested.step : Contested (run i busy s o).1 where
  free := hc.free.step hs h busy
  spent := hc.spent.step hs h i busy
  left d hd k c row hmv hready := by
    rcases mem_cons.mp hd with rfl | hd
    · exact hc.left_step hs h i busy hmv hready
    · exact hc.left d hd k c row hmv hready
  won k r := by
    rintro ⟨d, hd, htried⟩
    rcases mem_cons.mp hd with rfl | hd
    · exact hc.won_step hs h i busy htried
    · obtain ⟨d', hd', hwon⟩ := hc.won k r ⟨d, hd, htried⟩
      exact ⟨d', mem_cons_of_mem _ hd', hwon⟩

end

theorem contested_of_runs (hw : ReadyFree w)
    (h : Pool.Runs run (Client ClaimTraffic) free ⟨⟨w, []⟩, []⟩ Q) : Contested Q.shared := by
  let C := (discipline ClaimTraffic).strengthen Contested free
    fun {i e _ _} hs hc hg _ _ => hc.step hs hg i e
  have hruns : Pool.Runs run (Client ClaimTraffic) C.guard ⟨⟨w, []⟩, []⟩ Q :=
    h.mono (fun _ hp => hp) fun _ _ _ _ _ => ⟨trivial, trivial⟩
  exact (C.runs_inv hruns (fun _ hp => hp.ok.strengthen)
    ⟨Followed.of_nil w, hw, Spent.of_nil w, fun _ hd => (by cases hd),
      fun _ _ ⟨_, hd, _⟩ => (by cases hd)⟩).2

/-- **Node fencing.** In every run, whoever moves a node under a required claim is its
    latest claimant and the node was not reset since. And in every run of claims,
    completions, resets and heartbeats from a database reached so, at most one claim of a
    revision succeeds, and exactly one when any was tried. -/
theorem node_fencing {α β : Type} {P : Pool Op Res α Past} (hP : Reached Tokened P)
    {Q : Pool Op Res β Past}
    (hQ : Pool.Runs run (Client ClaimTraffic) free ⟨⟨P.shared.state, []⟩, []⟩ Q) :
    (∀ later d earlier, P.shared.log = later ++ d :: earlier → ∀ k c row, MovedBy d k c row →
      c.requireClaim = true → LatestClaim earlier k c.claimedBy) ∧
    ∀ k r, (Q.shared.log.filter (claimWon k r)).length ≤ 1 ∧
      ((∃ d ∈ Q.shared.log, claimTried k r d = true) →
        (Q.shared.log.filter (claimWon k r)).length = 1) := by
  have hfenced := (held_of_reached (fun _ hc => hc) hP).2
  have hcontested := contested_of_runs (readyFree_of_reached hP) hQ
  refine ⟨fun later d earlier hlog => ?_, fun k r => ?_⟩
  · rw [hlog] at hfenced
    exact hfenced.split
  · have hle := claimWon_le_one hcontested.spent k r
    refine ⟨hle, fun htried => ?_⟩
    obtain ⟨d, hd, hwon⟩ := hcontested.won k r htried
    have hmem : d ∈ Q.shared.log.filter (claimWon k r) := mem_filter.mpr ⟨hd, hwon⟩
    have hpos := length_pos_of_mem hmem
    omega

/-- A claim of the node `a` or `b` of `wi-1`. -/
def claimOf (nodeId token : String) : TransitionCall :=
  { instanceId := "wi-1", nodeId, toState := running, expectedFrom := some ready, claim := true,
    claimedBy := token, reason := "DISPATCH", event := "driver" }

/-- Two nodes become ready, and one of them is claimed and completed. -/
def completedOnce : List (Pool.Move Op Res Unit Bool) :=
  let quietly {α : Type} (p : Program α) : Program Unit := p >>= fun _ => .ret ()
  solo 0 3 false (quietly (createInstance "wi-1" "owner" "" ["a", "b"])) ++
    solo 1 3 false (quietly (transitionNode
      { instanceId := "wi-1", nodeId := "a", toState := ready })) ++
    solo 2 3 false (quietly (transitionNode
      { instanceId := "wi-1", nodeId := "b", toState := ready })) ++
    solo 3 3 false (quietly (transitionNode (claimOf "a" "rt-1"))) ++
    solo 4 4 false (quietly (transitionNode
      { instanceId := "wi-1", nodeId := "a", toState := succeeded, requireClaim := true,
        claimedBy := "rt-1", complete := true }))

/-- Two drivers read the ready node `b` and race for it. -/
def race : List (Pool.Move Op Res Unit Bool) :=
  [.spawn (transitionNode (claimOf "b" "rt-1") >>= fun _ => .ret ()),
    .spawn (transitionNode (claimOf "b" "rt-2") >>= fun _ => .ret ()),
    .step 0 false, .step 1 false, .step 0 false, .step 1 false, .step 1 false, .step 0 false]

theorem claimOf_isClaim (nodeId : String) (t : RunToken) : IsClaim (claimOf nodeId t.text) :=
  ⟨rfl, rfl, rfl, rfl, t, rfl⟩

theorem completedOnce_reached : Reached Tokened (play run ⟨Past.init, []⟩ completedOnce) := by
  have hrt : ∃ t : RunToken, "rt-1" = t.text := ⟨⟨"rt-1", by decide, by decide⟩, rfl⟩
  refine play_runs run _ _ fun m hm p hp => ?_
  simp only [completedOnce, mem_append] at hm
  rcases hm with (((hm | hm) | hm) | hm) | hm <;> rw [starts_solo hm hp]
  · exact (createInstance_client _ _ _ _).bind fun _ => .done ()
  · exact (transitionNode_client (Tokened.of_unclaimed rfl rfl)).bind fun _ => .done ()
  · exact (transitionNode_client (Tokened.of_unclaimed rfl rfl)).bind fun _ => .done ()
  · refine (transitionNode_client ⟨fun _ => hrt, fun he => ?_⟩).bind fun _ => .done ()
    cases he
  · refine (transitionNode_client ⟨fun he => ?_, fun _ => hrt⟩).bind fun _ => .done ()
    cases he

theorem race_runs (s : Past) :
    Pool.Runs run (Client ClaimTraffic) free ⟨s, []⟩ (play run ⟨s, []⟩ race) := by
  refine play_runs run _ _ fun m hm p hp => ?_
  simp only [race, mem_cons, not_mem_nil, or_false] at hm
  rcases hm with rfl | rfl | rfl | rfl | rfl | rfl | rfl | rfl <;> cases hp
  · exact (transitionNode_client (.inl (claimOf_isClaim "b" ⟨"rt-1", by decide, by decide⟩))).bind
      fun _ => .done ()
  · exact (transitionNode_client (.inl (claimOf_isClaim "b" ⟨"rt-2", by decide, by decide⟩))).bind
      fun _ => .done ()

/-- What the last call of `completedOnce` carried out. -/
theorem completedOnce_last :
    (((play run ⟨Past.init, []⟩ completedOnce).shared.log.head?.bind
      (movedCall · ("wi-1", "a"))).map fun c => (c.requireClaim, c.claimedBy)) =
      some (true, "rt-1") := by
  decide +kernel

theorem race_tried :
    ((play run ⟨⟨(play run ⟨Past.init, []⟩ completedOnce).shared.state, []⟩, []⟩
      race).shared.log.any (claimTried ("wi-1", "b") 2)) = true := by
  decide +kernel

theorem node_fencing_of_race :
    ∃ (P Q : Pool Op Res Unit Past) (d : Done) (earlier : List Done),
      Reached Tokened P ∧
      Pool.Runs run (Client ClaimTraffic) free ⟨⟨P.shared.state, []⟩, []⟩ Q ∧
      P.shared.log = d :: earlier ∧ LatestClaim earlier ("wi-1", "a") "rt-1" ∧
      (Q.shared.log.filter (claimWon ("wi-1", "b") 2)).length = 1 := by
  have hboth := node_fencing completedOnce_reached (race_runs ⟨_, []⟩)
  have hlast := completedOnce_last
  obtain ⟨d', hd', ht'⟩ := List.any_eq_true.mp race_tried
  have hone := (hboth.2 _ _).2 ⟨d', hd', ht'⟩
  have hreached := completedOnce_reached
  generalize play run ⟨Past.init, []⟩ completedOnce = P at *
  cases hlog : P.shared.log with
  | nil =>
    rw [hlog] at hlast
    cases hlast
  | cons d earlier =>
    rw [hlog] at hlast
    obtain ⟨c, hmoved, hc⟩ := map_eq_some_iff.mp hlast
    obtain ⟨row, hmv⟩ := movedCall_eq_some.mp hmoved
    have hlatest := hboth.1 [] d earlier hlog _ c row hmv (congrArg Prod.fst hc)
    rw [show c.claimedBy = "rt-1" from congrArg Prod.snd hc] at hlatest
    exact ⟨P, _, d, earlier, hreached, race_runs _, hlog, hlatest, hone⟩

end WebGis.Workflow
