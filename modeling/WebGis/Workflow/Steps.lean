/-
  What one statement can do to the node rows and the journal.

  There are two cases. Either the statement is the compare-and-set of a transition that
  found the revision it had read (`transitionOf` gives the call and the row it found), and
  then one row and one journal row are written. Or the step is `Quiet`: every row keeps its
  state, revision and claimant, rows that appear are fresh, and no transition is journalled.
  Every invariant below is proved from these two cases.
-/
import WebGis.Workflow.Store

namespace WebGis.Workflow

open Data Conc NodeState List Option Table

/-- The transition that a statement carries out in `w`, and the row it finds. -/
def transitionOf (busy : Bool) (w : World) : Op → Option (TransitionCall × NodeRow)
  | .updateNode c seen _ =>
    if busy then none
    else ((w.nodes.get c.key).filter fun r => r.stateRevision = seen.stateRevision).map
      fun r => (c, r)
  | _ => none

/-- The columns that a transition is judged on. -/
structure SameCore (r r' : NodeRow) : Prop where
  state : r'.state = r.state
  stateRevision : r'.stateRevision = r.stateRevision
  claimedBy : r'.claimedBy = r.claimedBy

namespace SameCore

theorem refl (r : NodeRow) : SameCore r r := ⟨rfl, rfl, rfl⟩

theorem trans {r s t : NodeRow} (h : SameCore r s) (h' : SameCore s t) : SameCore r t :=
  ⟨h'.state.trans h.state, h'.stateRevision.trans h.stateRevision, h'.claimedBy.trans h.claimedBy⟩

end SameCore

/-- A row as `create_instance` writes it. -/
structure Fresh (r : NodeRow) : Prop where
  state : r.state = pending
  stateRevision : r.stateRevision = 1
  claimedBy : r.claimedBy = none
  idLength : r.nodeId.length ≤ 64

/-- A step that moves no node. -/
structure Quiet (w w' : World) : Prop where
  kept : ∀ {k r}, w.nodes.get k = some r → ∃ r', w'.nodes.get k = some r' ∧ SameCore r r'
  fresh : ∀ {k r'}, w.nodes.get k = none → w'.nodes.get k = some r' → Fresh r'
  journal : ∃ extra, w'.events = w.events ++ extra ∧ ∀ e ∈ extra, e.kind ≠ .stateTransition

namespace Quiet

variable {w : World}

theorem of_eq {w' : World} (hn : w'.nodes = w.nodes) (he : w'.events = w.events) : Quiet w w' where
  kept {k r} hr := ⟨r, by rw [hn, hr], SameCore.refl r⟩
  fresh h hs := by rw [hn, h] at hs; cases hs
  journal := ⟨[], by simp [he], by simp⟩

theorem refl (w : World) : Quiet w w := of_eq rfl rfl

theorem trans {w' w'' : World} (h : Quiet w w') (h' : Quiet w' w'') : Quiet w w'' where
  kept hr := by
    obtain ⟨r', hr', hc⟩ := h.kept hr
    obtain ⟨r'', hr'', hc'⟩ := h'.kept hr'
    exact ⟨r'', hr'', hc.trans hc'⟩
  fresh {k r''} hn hs := by
    cases hk : w'.nodes.get k with
    | none => exact h'.fresh hk hs
    | some r' =>
      obtain ⟨r3, hr3, hc⟩ := h'.kept hk
      have hf := h.fresh hn hk
      have : r3 = r'' := some.inj (hr3.symm.trans hs)
      subst this
      refine ⟨hc.state.trans hf.state, hc.stateRevision.trans hf.stateRevision,
        hc.claimedBy.trans hf.claimedBy, ?_⟩
      have hid : r3.key = r'.key := (get_key hr3).trans (get_key hk).symm
      rw [show r3.nodeId = r'.nodeId from congrArg Prod.snd hid]
      exact hf.idLength
  journal := by
    obtain ⟨xs, hxs, hx⟩ := h.journal
    obtain ⟨ys, hys, hy⟩ := h'.journal
    refine ⟨xs ++ ys, by rw [hys, hxs, append_assoc], fun e he => ?_⟩
    rcases mem_append.mp he with he | he
    · exact hx e he
    · exact hy e he

theorem put {r r' : NodeRow} (h : w.nodes.get r.key = some r) (hkey : r'.key = r.key)
    (hc : SameCore r r') : Quiet w { w with nodes := w.nodes.put r' } where
  kept {k s} hs := by
    rw [← hkey] at h
    by_cases hk : r'.key = k
    · subst hk
      have : s = r := some.inj (hs.symm.trans h)
      subst this
      exact ⟨r', get_put_self h, hc⟩
    · exact ⟨s, (get_put_ne hk).trans hs, SameCore.refl s⟩
  fresh {k s} hn hs := by
    rw [← hkey] at h
    have hk : r'.key ≠ k := fun he => by rw [he, hn] at h; cases h
    rw [get_put_ne hk, hn] at hs
    cases hs
  journal := ⟨[], by simp, by simp⟩

theorem events (extra : List EventRow) (h : ∀ e ∈ extra, e.kind ≠ .stateTransition) :
    Quiet w { w with events := w.events ++ extra } where
  kept hr := ⟨_, hr, SameCore.refl _⟩
  fresh hn hs := by rw [hn] at hs; cases hs
  journal := ⟨extra, rfl, h⟩

end Quiet

variable {w : World}

theorem node_eq_some {i n : String} {r : NodeRow} (h : w.node i n = some r) :
    w.nodes.get r.key = some r := by
  rw [get_key h]
  exact h

theorem renewLease_quiet (w : World) (i n token : String) (expires now : Nat) :
    Quiet w (w.renewLease i n token expires now).1 := by
  unfold World.renewLease
  split
  · rename_i row hrow
    split
    · exact Quiet.put (node_eq_some hrow) rfl ⟨rfl, rfl, rfl⟩
    · exact Quiet.refl w
  · exact Quiet.refl w

theorem flagNode_quiet (w : World) (i n : String) : Quiet w (w.flagNode i n).1 := by
  unfold World.flagNode
  split
  · rename_i row hrow
    split
    · exact Quiet.put (node_eq_some hrow) rfl ⟨rfl, rfl, rfl⟩
    · exact Quiet.refl w
  · exact Quiet.refl w

theorem flagNodes_quiet (i : String) (ns : List String) (w : World) :
    Quiet w (World.flagNodes i ns w).1 := by
  induction ns generalizing w with
  | nil => exact Quiet.refl w
  | cons n ns ih => exact (flagNode_quiet w i n).trans (ih _)

theorem requestNodeCancel_quiet (w : World) (i : String) (ns : List String) (actor : String) :
    Quiet w (w.requestNodeCancel i ns actor).1 := by
  refine (flagNodes_quiet i _ w).trans (Quiet.events _ fun e he => ?_)
  obtain ⟨n, -, rfl⟩ := List.mem_map.mp he
  exact fun h => by cases h

theorem clearNodeCancel_quiet (w : World) (i n : String) : Quiet w (w.clearNodeCancel i n).1 := by
  unfold World.clearNodeCancel
  split
  · rename_i row hrow
    exact Quiet.put (node_eq_some hrow) rfl ⟨rfl, rfl, rfl⟩
  · exact Quiet.refl w

theorem insertInstance_quiet (w : World) (row : InstanceRow) (ns : List String) (now : Nat) :
    Quiet w (w.insertInstance row ns now).1 := by
  unfold World.insertInstance
  split
  · exact Quiet.refl w
  split
  · rename_i is rows hi hrows
    refine ⟨fun hr => ⟨_, get_insert_some hrows hr, SameCore.refl _⟩, ?_, [], by simp,
      by simp⟩
    intro k r' hn hs
    obtain ⟨hmem, -⟩ := get_insert_none hrows hn hs
    obtain ⟨n, -, rfl⟩ := List.mem_map.mp hmem
    exact ⟨rfl, rfl, rfl, clip_length_le 64 n⟩
  · exact Quiet.refl w

/-! ## The two cases -/

/-- Statements a client of the store may send by itself: all but the update inside
    `transition_node`; and nobody journals a transition by hand. -/
def Plain : Op → Prop
  | .updateNode _ _ _ => False
  | .appendEvent ev => ev.kind ≠ .stateTransition
  | _ => True

variable {c : TransitionCall} {o : Op} {row : NodeRow}

theorem transitionOf_eq_some {busy : Bool} (h : transitionOf busy w o = some (c, row)) :
    ∃ seen now, o = .updateNode c seen now ∧ busy = false ∧ w.nodes.get c.key = some row ∧
      row.stateRevision = seen.stateRevision := by
  cases o with
  | updateNode c' seen now =>
    cases busy with
    | true => cases h
    | false =>
      obtain ⟨r, hr, he⟩ := map_eq_some_iff.mp h
      obtain ⟨hget, hrev⟩ := filter_eq_some_iff.mp hr
      cases he
      exact ⟨seen, now, rfl, rfl, hget, by simpa using hrev⟩
  | _ => cases h

variable {seen : NodeRow}

theorem exec_updateNode (now : Nat) (hrow : w.nodes.get c.key = some row)
    (hrev : row.stateRevision = seen.stateRevision) :
    exec false w (.updateNode c seen now) =
      ({ w with
          nodes := w.nodes.put (c.newRow seen now row)
          events := w.events ++ [c.journalRow seen] }, Answer.done true) := by
  have h : w.updateNode c seen now =
      ({ w with
          nodes := w.nodes.put (c.newRow seen now row)
          events := w.events ++ [c.journalRow seen] }, true) := by
    simp [World.updateNode, hrow, hrev]
  show guarded false w (w.updateNode c seen now) = _
  rw [h]
  rfl

theorem exec_quiet_plain (busy : Bool) (w : World) (h : Plain o) : Quiet w (exec busy w o).1 := by
  cases o with
  | updateNode c seen now => exact h.elim
  | renewLease i n token expires now =>
    cases busy
    · exact renewLease_quiet w i n token expires now
    · exact Quiet.refl w
  | requestNodeCancel i ns actor => exact requestNodeCancel_quiet w i ns actor
  | clearNodeCancel i n => exact clearNodeCancel_quiet w i n
  | insertInstance row ns now => exact insertInstance_quiet w row ns now
  | appendEvent ev =>
    refine Quiet.events [ev] fun e he => ?_
    rw [mem_singleton.mp he]
    exact h
  | updateInstance i rev fields =>
    cases busy
    · show Quiet w (w.updateInstance i rev fields).1
      unfold World.updateInstance
      split
      · split
        · exact Quiet.of_eq rfl rfl
        · exact Quiet.refl w
      · exact Quiet.refl w
    · exact Quiet.refl w
  | releaseRunLease i owner token =>
    show Quiet w (w.releaseRunLease i owner token).1
    unfold World.releaseRunLease
    split
    · split
      · exact Quiet.of_eq rfl rfl
      · exact Quiet.refl w
    · exact Quiet.refl w
  | tick d => exact Quiet.of_eq rfl rfl
  | selectNode i n => cases busy <;> exact Quiet.refl w
  | selectInstance i owner => cases busy <;> exact Quiet.refl w
  | _ => exact Quiet.refl w

theorem updateNode_miss {now : Nat} (h : transitionOf false w (.updateNode c seen now) = none) :
    w.updateNode c seen now = (w, false) := by
  unfold World.updateNode
  cases hrow : w.nodes.get c.key with
  | none => rfl
  | some row =>
    have : row.stateRevision ≠ seen.stateRevision := by
      intro he
      simp [transitionOf, hrow, he] at h
    simp [this]

theorem exec_quiet {busy : Bool} (h : transitionOf busy w o = none)
    (ho : ∀ ev, o = .appendEvent ev → ev.kind ≠ .stateTransition) : Quiet w (exec busy w o).1 := by
  cases o with
  | updateNode c seen now =>
    cases busy with
    | true => exact Quiet.refl w
    | false =>
      show Quiet w (w.updateNode c seen now).1
      rw [updateNode_miss h]
      exact Quiet.refl w
  | appendEvent ev => exact exec_quiet_plain busy w (o := .appendEvent ev) (ho ev rfl)
  | _ => exact exec_quiet_plain busy w trivial

/-! ## Statements about other tables -/

/-- The statements that do not write node rows. -/
def SparesNodes : Op → Prop
  | .updateNode _ _ _ => False
  | .renewLease _ _ _ _ _ => False
  | .requestNodeCancel _ _ _ => False
  | .clearNodeCancel _ _ => False
  | .insertInstance _ _ _ => False
  | _ => True

theorem exec_nodes (busy : Bool) (w : World) (ho : SparesNodes o) :
    (exec busy w o).1.nodes = w.nodes := by
  cases o with
  | updateInstance i rev fields =>
    cases busy with
    | true => rfl
    | false =>
      show (w.updateInstance i rev fields).1.nodes = w.nodes
      unfold World.updateInstance
      repeat' split
      all_goals rfl
  | releaseRunLease i owner token =>
    show (w.releaseRunLease i owner token).1.nodes = w.nodes
    unfold World.releaseRunLease
    repeat' split
    all_goals rfl
  | selectNode i n => cases busy <;> rfl
  | selectInstance i owner => cases busy <;> rfl
  | _ => first | rfl | exact ho.elim

/-! ## The clock -/

theorem flagNode_clock (w : World) (i n : String) : (w.flagNode i n).1.clock = w.clock := by
  unfold World.flagNode
  repeat' split
  all_goals rfl

theorem flagNodes_clock (i : String) (ns : List String) (w : World) :
    (World.flagNodes i ns w).1.clock = w.clock := by
  induction ns generalizing w with
  | nil => rfl
  | cons n ns ih => exact (ih _).trans (flagNode_clock w i n)

/-- Only `tick` moves the clock. -/
theorem exec_clock (busy : Bool) (w : World) (ho : ∀ d, o ≠ .tick d) :
    (exec busy w o).1.clock = w.clock := by
  cases o with
  | tick d => exact absurd rfl (ho d)
  | requestNodeCancel i ns actor => exact flagNodes_clock i _ w
  | updateNode c seen now =>
    cases busy with
    | true => rfl
    | false =>
      show (w.updateNode c seen now).1.clock = w.clock
      unfold World.updateNode
      repeat' split
      all_goals rfl
  | renewLease i n token expires now =>
    cases busy with
    | true => rfl
    | false =>
      show (w.renewLease i n token expires now).1.clock = w.clock
      unfold World.renewLease
      repeat' split
      all_goals rfl
  | updateInstance i rev fields =>
    cases busy with
    | true => rfl
    | false =>
      show (w.updateInstance i rev fields).1.clock = w.clock
      unfold World.updateInstance
      repeat' split
      all_goals rfl
  | clearNodeCancel i n =>
    show (w.clearNodeCancel i n).1.clock = w.clock
    unfold World.clearNodeCancel
    split <;> rfl
  | releaseRunLease i owner token =>
    show (w.releaseRunLease i owner token).1.clock = w.clock
    unfold World.releaseRunLease
    repeat' split
    all_goals rfl
  | insertInstance row ns now =>
    show (w.insertInstance row ns now).1.clock = w.clock
    unfold World.insertInstance
    repeat' split
    all_goals rfl
  | selectNode i n => cases busy <;> rfl
  | selectInstance i owner => cases busy <;> rfl
  | _ => rfl

theorem exec_clock_le (busy : Bool) (w : World) (o : Op) :
    w.clock ≤ (exec busy w o).1.clock := by
  cases o with
  | tick d => exact Nat.le_add_right w.clock d
  | _ => exact Nat.le_of_eq (exec_clock busy w fun d he => by cases he).symm

end WebGis.Workflow
