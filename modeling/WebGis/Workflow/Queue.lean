/-
  The queue of changes in an instance row, and the changes that a process has taken from it.

  A drain empties the queue by one write and accounts for its changes by another: a decision, or
  the queue again. What a process has taken and not yet accounted for is its hand, which is read
  off the calls of this process alone.
-/
import WebGis.Workflow.Discipline

namespace WebGis.Workflow

open Data Conc NodeState List Option Table World

/-! ## Instance rows -/

/-- What can become of an instance row. -/
structure Follows (row row' : InstanceRow) : Prop where
  owner : row'.ownerScope = row.ownerScope
  revision : row.revision ≤ row'.revision
  same : row'.revision = row.revision → row'.pendingChanges = row.pendingChanges

theorem Follows.refl (row : InstanceRow) : Follows row row := ⟨rfl, Nat.le_refl _, fun _ => rfl⟩

theorem Follows.trans {a b c : InstanceRow} (hab : Follows a b) (hbc : Follows b c) :
    Follows a c := by
  have hle := hab.revision
  have hle' := hbc.revision
  refine ⟨hbc.owner.trans hab.owner, hle.trans hle', fun he => ?_⟩
  rw [hbc.same (by omega), hab.same (by omega)]

variable {w : World} {iid : String} {row : InstanceRow}

theorem follows_put {row' : InstanceRow} (h : w.instances.get row'.instanceId = some row)
    (hf : Follows row row') {r : InstanceRow} (hr : w.instances.get iid = some r) :
    ∃ r', (w.instances.put row').get iid = some r' ∧ Follows r r' := by
  by_cases hk : row'.instanceId = iid
  · subst hk
    have heq : row = r := some.inj (h.symm.trans hr)
    subst heq
    exact ⟨row', get_put_self h, hf⟩
  · exact ⟨r, (get_put_ne hk).trans hr, Follows.refl r⟩

theorem instanceOf_eq_some {owner : Option String} (h : w.instanceOf iid owner = some row) :
    w.instances.get iid = some row ∧ ∀ o, owner = some o → row.ownerScope = o := by
  obtain ⟨hrow, ho⟩ := filter_eq_some_iff.mp h
  refine ⟨hrow, fun o he => ?_⟩
  subst he
  simpa using ho

/-- The statements that do not write instance rows. -/
def SparesInstances : Op → Prop
  | .updateInstance _ _ _ => False
  | .releaseRunLease _ _ _ => False
  | .insertInstance _ _ _ => False
  | _ => True

theorem flagNodes_instances (i : String) (ns : List String) (w : World) :
    (flagNodes i ns w).1.instances = w.instances := by
  induction ns generalizing w with
  | nil => rfl
  | cons n ns ih =>
    have hflag : (w.flagNode i n).1.instances = w.instances := by
      unfold flagNode
      repeat' split
      all_goals rfl
    exact (ih _).trans hflag

theorem exec_instances (busy : Bool) (w : World) {o : Op} (ho : SparesInstances o) :
    (exec busy w o).1.instances = w.instances := by
  cases o with
  | updateNode c seen now =>
    cases busy with
    | true => rfl
    | false =>
      show (w.updateNode c seen now).1.instances = w.instances
      unfold World.updateNode
      repeat' split
      all_goals rfl
  | renewLease i n token expires now =>
    cases busy with
    | true => rfl
    | false =>
      show (w.renewLease i n token expires now).1.instances = w.instances
      unfold renewLease
      repeat' split
      all_goals rfl
  | requestNodeCancel i ns actor => exact flagNodes_instances i _ w
  | clearNodeCancel i n =>
    show (w.clearNodeCancel i n).1.instances = w.instances
    unfold World.clearNodeCancel
    split <;> rfl
  | selectNode i n => cases busy <;> rfl
  | selectInstance i owner => cases busy <;> rfl
  | _ => first | rfl | exact ho.elim

theorem exec_follows (busy : Bool) (w : World) (o : Op) (hrow : w.instances.get iid = some row) :
    ∃ row', (exec busy w o).1.instances.get iid = some row' ∧ Follows row row' := by
  have hsame : ∀ w' : World, w'.instances = w.instances →
      ∃ row', w'.instances.get iid = some row' ∧ Follows row row' := by
    intro w' h
    exact ⟨row, h ▸ hrow, Follows.refl row⟩
  cases o with
  | updateInstance i rev fields =>
    cases busy with
    | true => exact hsame _ rfl
    | false =>
      show ∃ row', (w.updateInstance i rev fields).1.instances.get iid = some row' ∧ _
      unfold World.updateInstance
      split
      · rename_i r hr
        split
        · have hput : w.instances.get (fields.apply r).instanceId = some r :=
            (get_key hr).symm ▸ hr
          refine follows_put hput ⟨rfl, Nat.le_succ _, fun he => ?_⟩ hrow
          have hrev : (fields.apply r).revision = r.revision + 1 := rfl
          omega
        · exact hsame _ rfl
      · exact hsame _ rfl
  | releaseRunLease i owner token =>
    show ∃ row', (w.releaseRunLease i owner token).1.instances.get iid = some row' ∧ _
    unfold World.releaseRunLease
    split
    · rename_i r hr
      split
      · have hr := (instanceOf_eq_some hr).1
        have hput : w.instances.get (InstanceRow.instanceId
            { r with runLeaseOwner := none, runLeaseExpiresAt := none }) = some r :=
          (get_key hr).symm ▸ hr
        exact follows_put hput ⟨rfl, Nat.le_refl _, fun _ => rfl⟩ hrow
      · exact hsame _ rfl
    · exact hsame _ rfl
  | insertInstance r ns now =>
    show ∃ row', (w.insertInstance r ns now).1.instances.get iid = some row' ∧ _
    unfold World.insertInstance
    split
    · exact hsame _ rfl
    · split
      · rename_i is rows hi _
        exact ⟨row, get_insert_some hi hrow, Follows.refl row⟩
      · exact hsame _ rfl
  | _ => exact hsame _ (exec_instances busy w trivial)

/-- The row that was read at some time is followed by the present one. -/
def RowsFollowed (s : Past) : Prop :=
  ∀ w ∈ s.states, ∀ iid row, w.instances.get iid = some row →
    ∃ row', s.state.instances.get iid = some row' ∧ Follows row row'

theorem RowsFollowed.init : RowsFollowed Past.init := by
  intro w hw iid row hrow
  have heq : w = World.init := by simpa [Traced.states, Past.init] using hw
  rw [heq] at hrow
  cases hrow

theorem RowsFollowed.step {s : Past} (h : RowsFollowed s) (i : Nat) (busy : Bool) (o : Op) :
    RowsFollowed (run i busy s o).1 := by
  intro w hw iid row hrow
  rcases mem_cons.mp hw with rfl | hw
  · exact ⟨row, hrow, Follows.refl row⟩
  · obtain ⟨row', hrow', hf⟩ := h w hw iid row hrow
    obtain ⟨row'', hrow'', hf'⟩ := exec_follows busy s.state o hrow'
    exact ⟨row'', hrow'', hf.trans hf'⟩

/-! ## The queue -/

/-- The changes that wait in an instance. -/
def World.queueOf (w : World) (iid : String) : List PendingChange :=
  ((w.instances.get iid).map InstanceRow.pendingChanges).getD []

theorem queueOf_congr {w' : World} (h : w'.instances = w.instances) (iid : String) :
    w'.queueOf iid = w.queueOf iid := by
  unfold queueOf
  rw [h]

/-- What a call wrote to the row of the instance. -/
def written (iid : String) (d : Done) : Option InstancePatch :=
  match d.op with
  | .updateInstance i rev fields =>
    if d.env = false ∧ i = iid ∧ (d.before.instances.get iid).any fun r => r.revision = rev then
      some fields
    else none
  | _ => none

/-- A statement that leaves the queue and the decisions of the instance alone. -/
def SparesQueue (iid : String) : Op → Prop
  | .updateInstance i _ fields =>
    i = iid → fields.pendingChanges = none ∧ fields.decisions = none
  | .insertInstance row _ _ => row.instanceId = iid → row.pendingChanges = []
  | _ => True

variable {d : Done}

theorem written_eq_some {f : InstancePatch} (h : written iid d = some f) :
    ∃ rev row, d.op = .updateInstance iid rev f ∧ d.env = false ∧
      d.before.instances.get iid = some row ∧ row.revision = rev := by
  unfold written at h
  split at h
  · rename_i i rev fields hop
    split at h
    · rename_i hc
      obtain ⟨henv, rfl, hrev⟩ := hc
      cases h
      obtain ⟨row, hrow, hr⟩ := (Option.any_eq_true _ _).mp hrev
      exact ⟨rev, row, hop, henv, hrow, of_decide_eq_true hr⟩
    · cases h
  · cases h

variable {i : Nat}

theorem queueOf_exec {busy : Bool} {o : Op}
    (hins : ∀ row ns now, o = .insertInstance row ns now → row.instanceId = iid →
      row.pendingChanges = []) :
    (exec busy w o).1.queueOf iid =
      ((written iid ⟨i, busy, w, o⟩).bind InstancePatch.pendingChanges).getD (w.queueOf iid) := by
  cases o with
  | updateInstance j rev fields =>
    cases busy with
    | true => rfl
    | false =>
      show (w.updateInstance j rev fields).1.queueOf iid = _
      unfold World.updateInstance
      cases hrow : w.instances.get j with
      | none =>
        have hw : written iid ⟨i, false, w, .updateInstance j rev fields⟩ = none := by
          refine if_neg ?_
          rintro ⟨-, rfl, hany⟩
          rw [hrow] at hany
          cases hany
        rw [hw]
        rfl
      | some r =>
        by_cases hrev : r.revision = rev
        · have hput : w.instances.get (fields.apply r).instanceId = some r :=
            (get_key hrow).symm ▸ hrow
          have hkey : (fields.apply r).instanceId = j :=
            (rfl : _ = r.instanceId).trans (get_key hrow)
          simp only [hrev, if_true]
          by_cases hj : j = iid
          · subst hj
            have hw : written j ⟨i, false, w, .updateInstance j rev fields⟩ = some fields := by
              exact if_pos ⟨rfl, rfl, by simp [hrow, hrev]⟩
            have hget := get_put_self hput
            rw [hkey] at hget
            rw [hw, queueOf, hget, queueOf, hrow]
            rfl
          · have hw : written iid ⟨i, false, w, .updateInstance j rev fields⟩ = none := by
              exact if_neg fun hc => hj hc.2.1
            have hne : (fields.apply r).instanceId ≠ iid := fun he => hj (hkey.symm.trans he)
            rw [hw, queueOf, get_put_ne hne]
            rfl
        · have hw : written iid ⟨i, false, w, .updateInstance j rev fields⟩ = none := by
            refine if_neg ?_
            rintro ⟨-, rfl, hany⟩
            rw [hrow] at hany
            exact hrev (by simpa using hany)
          simp only [hrev, if_false]
          rw [hw]
          rfl
  | releaseRunLease j owner token =>
    show (w.releaseRunLease j owner token).1.queueOf iid = w.queueOf iid
    unfold World.releaseRunLease
    split
    · rename_i r hr
      split
      · have hr := (instanceOf_eq_some hr).1
        have hput : w.instances.get (InstanceRow.instanceId
            { r with runLeaseOwner := none, runLeaseExpiresAt := none }) = some r :=
          (get_key hr).symm ▸ hr
        unfold queueOf
        rw [get_put hput]
        split
        · rename_i hk
          have hri : w.instances.get iid = some r := hk ▸ hput
          rw [hri]
          rfl
        · rfl
      · rfl
    · rfl
  | insertInstance row ns now =>
    show (w.insertInstance row ns now).1.queueOf iid = w.queueOf iid
    unfold World.insertInstance
    split
    · rfl
    split
    · rename_i is rows hi _
      unfold queueOf
      cases hrow : w.instances.get iid with
      | some r =>
        rw [get_insert_some hi hrow]
      | none =>
        cases hnew : is.get iid with
        | none => rfl
        | some r =>
          obtain ⟨hmem, -⟩ := get_insert_none hi hrow hnew
          have hkey := get_key hnew
          rw [mem_singleton.mp hmem] at hkey ⊢
          exact hins row ns now rfl hkey
    · rfl
  | _ => exact queueOf_congr (exec_instances busy w (by trivial)) iid

/-! ## What a process has taken -/

/-- The call emptied the queue of the instance, which held changes. -/
def takes (iid : String) (d : Done) : Bool :=
  (written iid d).any fun f => f.pendingChanges = some [] && d.before.queueOf iid ≠ []

/-- The call wrote the queue or the decisions of the instance. -/
def settles (iid : String) (d : Done) : Bool :=
  (written iid d).any fun f => f.pendingChanges.isSome || f.decisions.isSome

/-- The changes that a process has taken from the queue, and its calls since, newest first. -/
structure Hand where
  changes : List PendingChange
  calls : List Done := []

/-- The hand after further calls. -/
def Hand.push (calls : List Done) (h : Hand) : Hand := { h with calls := calls ++ h.calls }

/-- What one call makes of the hand of its process. -/
def Hand.after (iid : String) (d : Done) (held : Option Hand) : Option Hand :=
  if takes iid d then some { changes := d.before.queueOf iid }
  else if settles iid d then none
  else held.map (Hand.push [d])

/-- The hand that calls of one process leave it. -/
def handOf (iid : String) : List Done → Option Hand
  | [] => none
  | d :: log => Hand.after iid d (handOf iid log)

/-- The hand of process `i`. -/
def hand (iid : String) (i : Nat) (log : List Done) : Option Hand := handOf iid (own i log)

@[simp] theorem Hand.push_changes (calls : List Done) (h : Hand) :
    (h.push calls).changes = h.changes := rfl

@[simp] theorem Hand.push_calls (calls : List Done) (h : Hand) :
    (h.push calls).calls = calls ++ h.calls := rfl

theorem Hand.push_comp (calls calls' : List Done) :
    Hand.push calls ∘ Hand.push calls' = Hand.push (calls ++ calls') := by
  funext h
  simp [Hand.push]

variable {log : List Done}

theorem hand_of_own_eq {log' : List Done} (h : own i log' = own i log) (iid : String) :
    hand iid i log' = hand iid i log := by
  rw [hand, h]
  rfl

theorem hand_cons_ne (h : d.who ≠ i) (iid : String) (log : List Done) :
    hand iid i (d :: log) = hand iid i log := hand_of_own_eq (own_cons_ne h log) iid

theorem hand_cons_self (iid : String) (d : Done) (log : List Done) :
    hand iid d.who (d :: log) = Hand.after iid d (hand iid d.who log) := by
  rw [hand, own_cons_self]
  rfl

theorem hand_run (iid : String) (i : Nat) (busy : Bool) (s : Past) (o : Op) :
    hand iid i (run i busy s o).1.log =
      Hand.after iid ⟨i, busy, s.state, o⟩ (hand iid i s.log) :=
  hand_cons_self iid ⟨i, busy, s.state, o⟩ s.log

theorem Hand.after_of_unwritten (h : written iid d = none) (held : Option Hand) :
    Hand.after iid d held = held.map (Hand.push [d]) := by
  simp [Hand.after, takes, settles, h]

/-- The hand is what the latest calls made it, whatever came before. -/
theorem hand_append {newer : List Done} {h : Hand} (hh : hand iid i newer = some h)
    (older : List Done) : hand iid i (newer ++ older) = some h := by
  have happ : own i (newer ++ older) = own i newer ++ own i older := filter_append ..
  unfold hand at hh ⊢
  rw [happ]
  generalize own i newer = mine at hh
  induction mine generalizing h with
  | nil => cases hh
  | cons d mine ih =>
    rw [handOf, Hand.after] at hh
    rw [cons_append, handOf, Hand.after]
    split
    · rename_i ht
      rw [if_pos ht] at hh
      exact hh
    · rename_i ht
      rw [if_neg ht] at hh
      split
      · rename_i hs
        rw [if_pos hs] at hh
        cases hh
      · rename_i hs
        rw [if_neg hs] at hh
        obtain ⟨h', hh', rfl⟩ := map_eq_some_iff.mp hh
        rw [ih hh']
        rfl

theorem taken_of_hand {h : Hand} (hh : hand iid i log = some h) :
    ∃ d ∈ log, d.who = i ∧ takes iid d := by
  induction log generalizing h with
  | nil => cases hh
  | cons d log ih =>
    have hlater : (∃ d ∈ log, d.who = i ∧ takes iid d) →
        ∃ d' ∈ d :: log, d'.who = i ∧ takes iid d' := by
      rintro ⟨d', hd', h'⟩
      exact ⟨d', mem_cons_of_mem _ hd', h'⟩
    by_cases hi : d.who = i
    · subst hi
      by_cases ht : takes iid d
      · exact ⟨d, mem_cons_self, rfl, ht⟩
      rw [hand_cons_self, Hand.after, if_neg ht] at hh
      split at hh
      · cases hh
      obtain ⟨h', hh', -⟩ := map_eq_some_iff.mp hh
      exact hlater (ih hh')
    · rw [hand_cons_ne hi] at hh
      exact hlater (ih hh)

end WebGis.Workflow
