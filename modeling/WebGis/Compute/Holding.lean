/-
  What a run holds in the scopes of its chain, and that these scopes are there.

  An operation adds to the scopes of its chain one by one, so that a run holds in a scope what it
  has reserved, charged and taken, and what its operations on their way have added there so far
  (`BudgetRun.held`). `Booked` is about the books of the run: a release takes from a scope no more
  than the run holds there (`held_gives`), and an operation that has been through its chain has
  become part of them (`held_finish`). `Mounted` is about the tree.
-/
import WebGis.Compute.Budgets

namespace WebGis.Compute

open Data List Option Dict BudgetRun ChainOp

/-! ## The tree -/

namespace ResourceGovernor

variable {g : ResourceGovernor}

@[simp] theorem modify_self (id : Nat) (f : Scope → Scope) :
    (g.modify id f).scopes id = f (g.scopes id) := by
  simp [modify]

theorem modify_ne {id id' : Nat} (h : id' ≠ id) (f : Scope → Scope) :
    (g.modify id f).scopes id' = g.scopes id' := by
  simp [modify, h]

theorem modify_keeps {α : Type} (part : Scope → α) {id : Nat} {f : Scope → Scope}
    (h : part (f (g.scopes id)) = part (g.scopes id)) (id' : Nat) :
    part ((g.modify id f).scopes id') = part (g.scopes id') := by
  by_cases hid : id' = id
  · subst hid
    rw [modify_self, h]
  · rw [modify_ne hid]

theorem walk_eq {parts : ScopePath} : ∀ {above : ScopePath} {ids : List Nat},
    ids.length = parts.length →
    (∀ i < ids.length, g.tree.find (above ++ parts.take (i + 1)) = ids[i]?) →
    g.walk above parts = ids := by
  induction parts with
  | nil =>
    intro above ids hlength _
    rw [length_nil, length_eq_zero_iff] at hlength
    rw [hlength, walk]
  | cons part rest ih =>
    intro above ids hlength hfound
    cases ids with
    | nil => simp at hlength
    | cons id ids =>
      have hfirst : g.tree.find (above ++ [part]) = some id := by
        simpa using hfound 0 (by simp)
      have hrest : g.walk (above ++ [part]) rest = ids := by
        refine ih (by simpa using hlength) fun i hi => ?_
        have := hfound (i + 1) (by simpa using hi)
        simpa using this
      rw [walk, hfirst]
      exact congrArg (id :: ·) hrest

theorem refs_unref (chain : List Nat) (id : Nat) :
    ((g.unref chain).scopes id).refs = (g.scopes id).refs - chain.count id := by
  induction chain generalizing g with
  | nil => simp [unref]
  | cons first rest ih =>
    have hfold : g.unref (first :: rest) =
        (g.modify first fun s => { s with refs := s.refs - 1 }).unref rest := rfl
    rw [hfold, ih]
    by_cases hid : id = first
    · subst hid
      rw [modify_self, count_cons_self]
      dsimp only
      omega
    · rw [modify_ne hid, count_cons_of_ne (Ne.symm hid)]

theorem unref_keeps {α : Type} (part : Scope → α)
    (h : ∀ s : Scope, part { s with refs := s.refs - 1 } = part s) (chain : List Nat) (id : Nat) :
    part ((g.unref chain).scopes id) = part (g.scopes id) := by
  induction chain generalizing g with
  | nil => rfl
  | cons first rest ih =>
    refine (ih (g := g.modify first fun s => { s with refs := s.refs - 1 })).trans ?_
    exact modify_keeps part (h _) id

theorem unref_tree (chain : List Nat) :
    (g.unref chain).tree = g.tree ∧ (g.unref chain).next = g.next := by
  induction chain generalizing g with
  | nil => exact ⟨rfl, rfl⟩
  | cons first rest ih =>
    exact ih (g := g.modify first fun s => { s with refs := s.refs - 1 })

/-- What goes from the tree has no mount left, and is not the scope of an execution. -/
structure Idle (g : ResourceGovernor) (ids : List Nat) (p : ScopePath) : Prop where
  idle : ∃ id ∈ ids, g.tree.find p = some id ∧ (g.scopes id).refs = 0
  kind : ∀ part ∈ p.getLast?, part.1 ≠ .execution

theorem reclaimChain_keeps (ids : List Nat) :
    (g.reclaimChain ids).scopes = g.scopes ∧ (g.reclaimChain ids).next = g.next := by
  induction ids generalizing g with
  | nil => exact ⟨rfl, rfl⟩
  | cons id rest ih =>
    rw [reclaimChain]
    split
    · obtain ⟨hscopes, hnext⟩ := ih (g := if g.tree.find (g.scopes id).path = some id then
        g.erase (g.scopes id).path else g)
      refine ⟨hscopes.trans ?_, hnext.trans ?_⟩
      · split <;> rfl
      · split <;> rfl
    · exact ⟨rfl, rfl⟩

variable {p q : ScopePath}

theorem find_erase_ne (h : p ≠ q) : (g.erase q).tree.find p = g.tree.find p :=
  Dict.find_delete_ne g.tree h

theorem find_of_erase {id : Nat} (h : (g.erase q).tree.find p = some id) :
    g.tree.find p = some id := by
  by_cases hp : p = q
  · subst hp
    rw [erase, Dict.find_delete_self] at h
    cases h
  · rwa [find_erase_ne hp] at h

theorem find_reclaimChain (ids : List Nat) (p : ScopePath) :
    (g.reclaimChain ids).tree.find p = g.tree.find p ∨
      (g.reclaimChain ids).tree.find p = none ∧ g.Idle ids p := by
  induction ids generalizing g with
  | nil => exact .inl rfl
  | cons id rest ih =>
    rw [reclaimChain]
    split
    case isFalse => exact .inl rfl
    case isTrue hfree =>
      simp only [reclaimable, decide_eq_true_eq] at hfree
      dsimp only
      split
      · rename_i hfound
        obtain heq | ⟨hnone, hrest⟩ := ih (g := g.erase (g.scopes id).path)
        · by_cases hp : p = (g.scopes id).path
          · right
            subst hp
            refine ⟨heq.trans (Dict.find_delete_self _ _),
              ⟨id, mem_cons_self, hfound, hfree.2.1⟩, fun part hpart => ?_⟩
            have hkind := hfree.1
            rw [hpart] at hkind
            simpa using hkind
          · exact .inl (heq.trans (find_erase_ne hp))
        · obtain ⟨id', hid', hfind, hrefs⟩ := hrest.idle
          exact .inr ⟨hnone, ⟨id', mem_cons_of_mem id hid', find_of_erase hfind, hrefs⟩, hrest.kind⟩
      · refine ih.imp_right fun h => ⟨h.1, h.2.idle.imp fun _ h => ?_, h.2.kind⟩
        exact ⟨mem_cons_of_mem id h.1, h.2⟩

end ResourceGovernor

/-! ## What a run holds -/

/-- The stages in which an operation is under way. -/
def OpKind.suits : OpKind → RunStage → Prop
  | .plan, stage => stage = .created
  | .slot _ _, stage => stage = .active
  | .unslot _, stage => stage = .active
  | .charge, stage => stage = .active ∨ stage = .draining
  | .final, stage => stage = .releasing

/-- The amount of an operation, as the run knows it. -/
def BudgetRun.Owes (r : BudgetRun) (amount : Usage) : OpKind → Prop
  | .plan => 0 ≤ amount
  | .slot node units => amount = slotUsage units ∧ r.slots.find node = none
  | .unslot node => ∃ units, r.slots.find node = some units ∧ amount = -slotUsage units
  | .charge => 0 ≤ amount
  | .final => amount = -(r.reserved + r.charged)

structure OpOk (r : BudgetRun) (thread : Option String) (op : ChainOp) : Prop where
  thread : thread = none ↔ op.kind ≠ .charge
  stage : op.kind.suits r.stage
  owes : r.Owes op.amount op.kind
  past : op.past ⊆ r.chain
  nodup : op.past.Nodup
  whole : op.undoing = false → op.past ++ op.todo = r.chain
  undoing : op.undoing = true → op.kind.checks = true

/-- The run has a scope of its own. -/
def RunStage.inside : RunStage → Bool
  | created => true
  | active => true
  | draining => true
  | releasing => true
  | closing => true
  | _ => false

/-- The run may have something to give back. -/
def RunStage.busy : RunStage → Bool
  | active => true
  | draining => true
  | releasing => true
  | _ => false

/-- The books of a run. -/
structure Booked (r : BudgetRun) : Prop where
  inside : r.stage.inside = r.scope.isSome
  reserved : 0 ≤ r.reserved
  charged : 0 ≤ r.charged
  idle : r.stage.busy = false → r.reserved = 0 ∧ r.charged = 0
  slots : r.stage ≠ .active → r.slots.items = []
  ops : ∀ thread op, r.ops.find thread = some op → OpOk r thread op

/-- The scopes of a run are in the tree. -/
structure Mounted (g : ResourceGovernor) (k : String) (r : BudgetRun) : Prop where
  short : r.mounts.length ≤ r.identity.length
  full : r.stage ≠ .mounting → r.stage ≠ .ended → r.mounts.length = r.identity.length
  found : ∀ i < r.mounts.length, g.tree.find (r.identity.take (i + 1)) = r.mounts[i]?
  own : ∀ id ∈ r.scope, g.tree.find (r.path k) = some id
  kinds : ∀ part ∈ r.identity, part.1 ≠ .execution
  left : r.stage = .leaving → r.leaving = 0 :: r.mounts

theorem slotUsage_nonneg (units : Nat) : 0 ≤ slotUsage units := by
  intro d
  change (0 : Int) ≤ if d = .concurrency then (units : Int) else 0
  split <;> omega

theorem nodeUsage_nonneg (rows bytes : Nat) : 0 ≤ nodeUsage rows bytes := by
  intro d
  cases d with
  | rows => exact Int.natCast_nonneg rows
  | bytes => exact Int.natCast_nonneg bytes
  | nodes => exact Int.one_nonneg
  | concurrency => exact le_rfl

theorem planUsage_nonneg {rows : Int} (h : 0 ≤ rows) : 0 ≤ planUsage rows := by
  intro d
  cases d with
  | rows => exact h
  | bytes => exact le_rfl
  | nodes => exact Int.one_nonneg
  | concurrency => exact le_rfl

theorem sum_nonneg {κ ν : Type} [DecidableEq κ] {f : ν → Usage} {d : Dict κ ν}
    (h : ∀ k v, d.find k = some v → 0 ≤ f v) : 0 ≤ Dict.sum f d := by
  refine List.sum_nonneg fun u hu => ?_
  obtain ⟨kv, hkv, rfl⟩ := List.mem_map.mp hu
  exact h kv.1 kv.2 (find_eq_some.mpr hkv)

theorem slots_nonneg (r : BudgetRun) : 0 ≤ Dict.sum slotUsage r.slots :=
  sum_nonneg fun _ _ _ => slotUsage_nonneg _

section

variable {r : BudgetRun} {thread : Option String} {op : ChainOp} {id : Nat}

theorem gives_bounded (hb : Booked r) (ho : OpOk r thread op) (hgives : op.kind.gives) :
    0 ≤ r.base + op.amount := by
  have howes := ho.owes
  have hslots := slots_nonneg r
  cases hkind : op.kind with
  | plan => rw [hkind] at hgives; cases hgives
  | slot node units => rw [hkind] at hgives; cases hgives
  | charge => rw [hkind] at hgives; cases hgives
  | unslot node =>
    rw [hkind] at howes
    obtain ⟨units, hfind, hamount⟩ := howes
    have hrest := sum_delete slotUsage hfind
    have hnonneg : 0 ≤ Dict.sum slotUsage (Table.delete r.slots fun kv => kv.1 = node) :=
      sum_nonneg fun _ _ _ => slotUsage_nonneg _
    have hbase : r.base + op.amount = r.reserved + r.charged +
        Dict.sum slotUsage (Table.delete r.slots fun kv => kv.1 = node) := by
      rw [base, hamount, ← hrest]
      abel
    rw [hbase]
    exact add_nonneg (add_nonneg hb.reserved hb.charged) hnonneg
  | final =>
    rw [hkind] at howes
    have hamount : op.amount = -(r.reserved + r.charged) := howes
    have hbase : r.base + op.amount = Dict.sum slotUsage r.slots := by
      rw [base, hamount]
      abel
    rw [hbase]
    exact hslots

theorem adds_nonneg (ho : OpOk r thread op) (hgives : op.kind.gives = false) : 0 ≤ op.amount := by
  have howes := ho.owes
  cases hkind : op.kind with
  | plan => rw [hkind] at howes; exact howes
  | slot node units => rw [hkind] at howes; exact howes.1 ▸ slotUsage_nonneg units
  | charge => rw [hkind] at howes; exact howes
  | unslot node => rw [hkind] at hgives; cases hgives
  | final => rw [hkind] at hgives; cases hgives

theorem base_nonneg (hb : Booked r) : 0 ≤ r.base :=
  add_nonneg (add_nonneg hb.reserved hb.charged) (slots_nonneg r)

theorem applied_nonneg (h : 0 ≤ op.amount) : 0 ≤ op.applied id := by
  rw [applied]
  split
  · exact h
  · exact le_rfl

/-- The operations of the nodes only add. -/
theorem others_nonneg (hb : Booked r) (id : Nat) {ops : Dict (Option String) ChainOp}
    (h : ∀ thread op, ops.find thread = some op → thread ≠ none ∧ r.ops.find thread = some op) :
    0 ≤ Dict.sum (applied id) ops := by
  refine sum_nonneg fun thread op hfind => ?_
  obtain ⟨hthread, hfind⟩ := h thread op hfind
  have ho := hb.ops thread op hfind
  have hkind : op.kind = .charge := by
    by_contra hkind
    exact hthread (ho.thread.mpr hkind)
  refine applied_nonneg (adds_nonneg ho ?_)
  rw [hkind]
  rfl

theorem rest_nonneg (hb : Booked r) (id : Nat) :
    0 ≤ Dict.sum (applied id) (Table.delete r.ops fun kv => kv.1 = none) := by
  refine others_nonneg hb id fun thread op hfind => ?_
  have hthread : thread ≠ none := by
    rintro rfl
    rw [Dict.find_delete_self] at hfind
    cases hfind
  exact ⟨hthread, (Dict.find_delete_ne r.ops hthread).symm.trans hfind⟩

theorem held_nonneg (hb : Booked r) (id : Nat) : 0 ≤ r.held id := by
  have hbase := base_nonneg hb
  have hrest := rest_nonneg hb id
  cases hfind : r.ops.find none with
  | none =>
    refine add_nonneg ?_ (others_nonneg hb id fun thread op hop => ⟨?_, hop⟩)
    · split
      · exact hbase
      · exact le_rfl
    · rintro rfl
      rw [hfind] at hop
      cases hop
  | some op =>
    have ho := hb.ops none op hfind
    have hsum := sum_delete (applied id) hfind
    have hone : 0 ≤ (if id ∈ r.chain then r.base else 0) + op.applied id := by
      by_cases hpast : id ∈ op.past
      · rw [if_pos (ho.past hpast), applied, if_pos hpast]
        cases hgives : op.kind.gives with
        | true => exact gives_bounded hb ho hgives
        | false => exact add_nonneg hbase (adds_nonneg ho hgives)
      · rw [applied, if_neg hpast, add_zero]
        split
        · exact hbase
        · exact le_rfl
    rw [held, ← hsum, add_comm (Dict.sum _ _), ← add_assoc]
    exact add_nonneg hone hrest

theorem held_gives (hb : Booked r) (hfind : r.ops.find thread = some op)
    (hgives : op.kind.gives) (hid : id ∈ r.chain) (hpast : id ∉ op.past) :
    0 ≤ r.held id + op.amount := by
  have ho := hb.ops thread op hfind
  have hthread : thread = none := by
    refine ho.thread.mpr fun hkind => ?_
    rw [hkind] at hgives
    cases hgives
  subst hthread
  have hsum := sum_delete (applied id) hfind
  rw [applied, if_neg hpast, add_zero] at hsum
  rw [held, if_pos hid, ← hsum, add_right_comm]
  exact add_nonneg (gives_bounded hb ho hgives) (rest_nonneg hb id)

/-! ### Operations on their way -/

theorem held_launch (hfind : r.ops.find thread = none) (hpast : op.past = []) :
    (r.launch thread op).held id = r.held id := by
  have hsum := sum_set_new (applied id) hfind op
  have hnone : op.applied id = 0 := by
    rw [applied, hpast, if_neg not_mem_nil]
  rw [hnone, add_zero] at hsum
  rw [held, held]
  exact congrArg _ hsum

theorem held_relaunch (id : Nat) (op' : ChainOp) (hfind : r.ops.find thread = some op) :
    (r.launch thread op').held id + op.applied id = r.held id + op'.applied id := by
  have hsum := Dict.sum_set (applied id) hfind op'
  rw [held, held, add_assoc, add_assoc, ← hsum]
  rfl

theorem held_clear (id : Nat) (hfind : r.ops.find thread = some op) :
    (r.clear thread).held id + op.applied id = r.held id := by
  have hsum := sum_delete (applied id) hfind
  rw [held, held, ← hsum, add_assoc]
  rfl

theorem OpOk.transfer {r' : BudgetRun} (ho : OpOk r thread op) (hstage : op.kind.suits r'.stage)
    (howes : r'.Owes op.amount op.kind) (hchain : r'.chain = r.chain) : OpOk r' thread op where
  thread := ho.thread
  stage := hstage
  owes := howes
  past := hchain ▸ ho.past
  nodup := ho.nodup
  whole := hchain ▸ ho.whole
  undoing := ho.undoing

variable {op' : ChainOp} {thread' : Option String}

/-- Beside an operation of the scheduler's thread there are only those of the nodes. -/
theorem charge_beside (hb : Booked r) (hfind : r.ops.find thread = some op)
    (hkind : op.kind ≠ .charge) (hfind' : r.ops.find thread' = some op') (hne : thread' ≠ thread) :
    op'.kind = .charge := by
  by_contra hkind'
  have hthread := (hb.ops thread op hfind).thread.mpr hkind
  have hthread' := (hb.ops thread' op' hfind').thread.mpr hkind'
  exact hne (hthread'.trans hthread.symm)

theorem find_clear (h : (r.clear thread).ops.find thread' = some op') :
    thread' ≠ thread ∧ r.ops.find thread' = some op' := by
  have hne : thread' ≠ thread := by
    rintro rfl
    rw [clear, Dict.find_delete_self] at h
    cases h
  exact ⟨hne, (Dict.find_delete_ne r.ops hne).symm.trans h⟩

theorem base_finish (hb : Booked r) (hfind : r.ops.find thread = some op) :
    ((r.clear thread).finish op).base = r.base + op.amount := by
  have ho := hb.ops thread op hfind
  have hstage := ho.stage
  have howes := ho.owes
  cases hkind : op.kind with
  | plan =>
    rw [hkind] at hstage
    have hcreated : r.stage = .created := hstage
    have hzero := (hb.idle (by rw [hcreated]; rfl)).1
    simp only [finish, hkind, base, clear, hzero]
    abel
  | slot node units =>
    rw [hkind] at howes
    have hsum := sum_set_new slotUsage howes.2 units
    simp only [finish, hkind, base, clear, hsum, howes.1]
    abel
  | unslot node =>
    rw [hkind] at howes
    obtain ⟨units, hslot, hamount⟩ := howes
    have hsum := sum_delete slotUsage hslot
    simp only [finish, hkind, base, clear, hamount, ← hsum]
    abel
  | charge =>
    simp only [finish, hkind, base, clear]
    abel
  | final =>
    rw [hkind] at howes
    have hamount : op.amount = -(r.reserved + r.charged) := howes
    simp only [finish, hkind, base, clear, hamount]
    abel

@[simp] theorem finish_chain (r : BudgetRun) (op : ChainOp) : (r.finish op).chain = r.chain := by
  unfold finish
  split <;> rfl

@[simp] theorem finish_ops (r : BudgetRun) (op : ChainOp) : (r.finish op).ops = r.ops := by
  unfold finish
  split <;> rfl

theorem held_finish (hb : Booked r) (hfind : r.ops.find thread = some op)
    (hundoing : op.undoing = false) (htodo : op.todo = []) :
    ((r.clear thread).finish op).held id = r.held id := by
  have hwhole := (hb.ops thread op hfind).whole hundoing
  rw [htodo, append_nil] at hwhole
  have hclear := held_clear id hfind
  rw [applied, hwhole] at hclear
  rw [← hclear, held, held, finish_chain, finish_ops, base_finish hb hfind]
  change (if id ∈ r.chain then r.base + op.amount else 0) + _ =
    (if id ∈ r.chain then r.base else 0) + _ + _
  split
  · abel
  · abel

theorem booked_finish (hb : Booked r) (hfind : r.ops.find thread = some op) :
    Booked ((r.clear thread).finish op) := by
  have ho := hb.ops thread op hfind
  have hstage := ho.stage
  have howes := ho.owes
  have hinside := hb.inside
  cases hkind : op.kind with
  | plan =>
    rw [hkind] at hstage howes
    have hcreated : r.stage = .created := hstage
    simp only [finish, hkind]
    refine ⟨?_, howes, hb.charged, fun h => Bool.noConfusion h, fun h => absurd rfl h, ?_⟩
    · rw [hcreated] at hinside
      exact hinside
    · intro thread' op' hfind'
      obtain ⟨hne, hfind'⟩ := find_clear hfind'
      have hkind' := charge_beside hb hfind (by rw [hkind]; exact OpKind.noConfusion) hfind' hne
      have hstage' := (hb.ops thread' op' hfind').stage
      rw [hkind', hcreated] at hstage'
      rcases hstage' with h | h <;> cases h
  | slot _ _ | unslot _ =>
    rw [hkind] at hstage
    have hactive : r.stage = .active := hstage
    simp only [finish, hkind]
    refine ⟨hinside, hb.reserved, hb.charged, hb.idle, fun h => absurd hactive h, ?_⟩
    intro thread' op' hfind'
    obtain ⟨hne, hfind'⟩ := find_clear hfind'
    have hkind' := charge_beside hb hfind (by rw [hkind]; exact OpKind.noConfusion) hfind' hne
    have ho' := hb.ops thread' op' hfind'
    refine ho'.transfer ho'.stage ?_ rfl
    rw [hkind']
    exact adds_nonneg ho' (by rw [hkind']; rfl)
  | charge =>
    rw [hkind] at hstage howes
    simp only [finish, hkind]
    refine ⟨hinside, hb.reserved, add_nonneg hb.charged howes, fun h => ?_, hb.slots, ?_⟩
    · change r.stage.busy = false at h
      rcases hstage with hstage | hstage <;> rw [hstage] at h <;> cases h
    · intro thread' op' hfind'
      obtain ⟨hne, hfind'⟩ := find_clear hfind'
      have ho' := hb.ops thread' op' hfind'
      refine ho'.transfer ho'.stage ?_ rfl
      have howes' := ho'.owes
      have hstage' := ho'.stage
      cases hkind' : op'.kind with
      | final =>
        rw [hkind'] at hstage'
        have hreleasing : r.stage = .releasing := hstage'
        rcases hstage with hstage | hstage <;> rw [hreleasing] at hstage <;> cases hstage
      | plan => rw [hkind'] at howes'; exact howes'
      | slot node units => rw [hkind'] at howes'; exact howes'
      | unslot node => rw [hkind'] at howes'; exact howes'
      | charge => rw [hkind'] at howes'; exact howes'
  | final =>
    rw [hkind] at hstage
    have hreleasing : r.stage = .releasing := hstage
    simp only [finish, hkind]
    refine ⟨?_, le_rfl, le_rfl, fun _ => ⟨rfl, rfl⟩, fun _ => ?_, ?_⟩
    · rw [hreleasing] at hinside
      exact hinside
    · exact hb.slots (by rw [hreleasing]; exact RunStage.noConfusion)
    · intro thread' op' hfind'
      obtain ⟨hne, hfind'⟩ := find_clear hfind'
      have hkind' := charge_beside hb hfind (by rw [hkind]; exact OpKind.noConfusion) hfind' hne
      have hstage' := (hb.ops thread' op' hfind').stage
      rw [hkind', hreleasing] at hstage'
      rcases hstage' with h | h <;> cases h

theorem booked_launch (hb : Booked r) (ho : OpOk r thread op) : Booked (r.launch thread op) where
  inside := hb.inside
  reserved := hb.reserved
  charged := hb.charged
  idle := hb.idle
  slots := hb.slots
  ops := by
    intro thread' op' hfind
    by_cases hthread : thread' = thread
    · subst hthread
      rw [launch, find_set_self, some_inj] at hfind
      exact hfind ▸ ho.transfer ho.stage ho.owes rfl
    · rw [launch, find_set_ne r.ops op (Ne.symm hthread)] at hfind
      have ho' := hb.ops thread' op' hfind
      exact ho'.transfer ho'.stage ho'.owes rfl

theorem booked_clear (hb : Booked r) : Booked (r.clear thread) where
  inside := hb.inside
  reserved := hb.reserved
  charged := hb.charged
  idle := hb.idle
  slots := hb.slots
  ops := by
    intro thread' op' hfind
    have ho' := hb.ops thread' op' (find_clear hfind).2
    exact ho'.transfer ho'.stage ho'.owes rfl

/-- The plan is the only operation of a run that is not active yet. -/
theorem created_ops (hb : Booked r) (hstage : r.stage = .created)
    (hfind : r.ops.find thread' = some op') : thread' = none := by
  have ho := hb.ops thread' op' hfind
  refine ho.thread.mpr fun hkind => ?_
  have hsuits := ho.stage
  rw [hkind, hstage] at hsuits
  rcases hsuits with h | h <;> cases h

theorem no_ops (h : ∀ thread op, r.ops.find thread ≠ some op) : r.ops.items = [] := by
  refine eq_nil_iff_forall_not_mem.mpr fun kv hkv => ?_
  exact h kv.1 kv.2 (find_eq_some.mpr hkv)

theorem stage_of_suits {kind : OpKind} {stage : RunStage} (h : kind.suits stage) :
    stage = .created ∨ stage.busy := by
  cases kind with
  | plan => exact .inl h
  | slot node units => exact .inr (congrArg RunStage.busy h)
  | unslot node => exact .inr (congrArg RunStage.busy h)
  | charge => exact .inr (h.elim (congrArg RunStage.busy) (congrArg RunStage.busy))
  | final => exact .inr (congrArg RunStage.busy h)

theorem no_ops_idle (hb : Booked r) (hcreated : r.stage ≠ .created)
    (hbusy : r.stage.busy = false) : r.ops.items = [] := by
  refine no_ops fun thread op hfind => ?_
  rcases stage_of_suits (hb.ops thread op hfind).stage with h | h
  · exact hcreated h
  · rw [hbusy] at h
    cases h

theorem held_idle (hb : Booked r) (hbusy : r.stage.busy = false) (hops : r.ops.items = [])
    (id : Nat) : r.held id = 0 := by
  obtain ⟨hreserved, hcharged⟩ := hb.idle hbusy
  have hactive : r.stage ≠ .active := by
    intro h
    rw [h] at hbusy
    cases hbusy
  have hslots : Dict.sum slotUsage r.slots = 0 := by
    rw [Dict.sum, hb.slots hactive]
    rfl
  have hsum : Dict.sum (applied id) r.ops = 0 := by
    rw [Dict.sum, hops]
    rfl
  rw [held, base, hreserved, hcharged, hslots, hsum]
  split <;> rfl

theorem booked_moved (hb : Booked r) (hcreated : r.stage ≠ .created) (hbusy : r.stage.busy = false)
    (mounts : List Nat) (scope : Option Nat) (stage : RunStage) (hbusy' : stage.busy = false)
    (hinside : stage.inside = scope.isSome) :
    Booked { r with mounts := mounts, scope := scope, stage := stage } ∧ ∀ id,
      ({ r with mounts := mounts, scope := scope, stage := stage } : BudgetRun).held id =
        r.held id := by
  have hops := no_ops_idle hb hcreated hbusy
  have hactive : r.stage ≠ .active := by
    intro h
    rw [h] at hbusy
    cases hbusy
  have hbooked : Booked { r with mounts := mounts, scope := scope, stage := stage } := by
    refine ⟨hinside, hb.reserved, hb.charged, fun _ => hb.idle hbusy, fun _ => hb.slots hactive,
      fun thread op hop => ?_⟩
    rw [find_eq_some] at hop
    exact absurd (hops ▸ hop) not_mem_nil
  exact ⟨hbooked, fun id =>
    (held_idle hbooked hbusy' hops id).trans (held_idle hb hbusy hops id).symm⟩

theorem held_out (hb : Booked r) (hid : id ∉ r.chain) : r.held id = 0 := by
  have hzero : Dict.sum (applied id) r.ops = Dict.sum (fun _ => 0) r.ops := by
    refine Dict.sum_congr _ fun kv hkv => ?_
    have ho := hb.ops kv.1 kv.2 (find_eq_some.mpr hkv)
    exact if_neg fun hpast => hid (ho.past hpast)
  have hsum : Dict.sum (fun _ => (0 : Usage)) r.ops = 0 := by
    rw [Dict.sum]
    simp
  rw [held, if_neg hid, hzero, hsum, zero_add]

end

/-! ## The scopes of a run -/

section

variable {g : ResourceGovernor} {k : String} {r : BudgetRun} {id : Nat}

variable {r' : BudgetRun}

theorem Mounted.restage (hm : Mounted g k r) (hidentity : r'.identity = r.identity)
    (hmounts : r'.mounts = r.mounts) (hscope : r'.scope = r.scope)
    (hfull : r'.stage ≠ .mounting → r'.stage ≠ .ended → r.mounts.length = r.identity.length)
    (hleft : r'.stage = .leaving → r'.leaving = 0 :: r.mounts) : Mounted g k r' where
  short := by rw [hmounts, hidentity]; exact hm.short
  full := by rw [hmounts, hidentity]; exact hfull
  found := by rw [hmounts, hidentity]; exact hm.found
  own := by rw [hscope, path, hidentity]; exact hm.own
  kinds := by rw [hidentity]; exact hm.kinds
  left := by rw [hmounts]; exact hleft

theorem Mounted.full_of_suits (hm : Mounted g k r) {kind : OpKind} (h : kind.suits r.stage) :
    r.mounts.length = r.identity.length := by
  refine hm.full ?_ ?_
  · intro hstage
    rcases stage_of_suits h with h | h <;> rw [hstage] at h <;> cases h
  · intro hstage
    rcases stage_of_suits h with h | h <;> rw [hstage] at h <;> cases h

/-- Under this path the run has this scope. -/
inductive Relies (k : String) (r : BudgetRun) : ScopePath → Nat → Prop where
  | mount {i id : Nat} : i < r.mounts.length → r.mounts[i]? = some id →
      Relies k r (r.identity.take (i + 1)) id
  | own {id : Nat} : r.scope = some id → Relies k r (r.path k) id

variable {p : ScopePath}

theorem Mounted.relied (hm : Mounted g k r) (h : Relies k r p id) : g.tree.find p = some id := by
  cases h with
  | mount hi hid => rw [hm.found _ hi, hid]
  | own hid => exact hm.own id hid

theorem Mounted.congr {g' : ResourceGovernor} (hm : Mounted g k r)
    (hfinds : ∀ p id, Relies k r p id → g'.tree.find p = some id) : Mounted g' k r where
  short := hm.short
  full := hm.full
  found := by
    intro i hi
    have hid : r.mounts[i]? = some r.mounts[i] := getElem?_eq_getElem hi
    rw [hid]
    exact hfinds _ _ (.mount hi hid)
  own := fun id hid => hfinds _ _ (.own hid)
  kinds := hm.kinds
  left := hm.left

theorem Mounted.take_ne (hm : Mounted g k r) (n : Nat) (above : ScopePath) (execution : String) :
    r.identity.take n ≠ above ++ [(.execution, execution)] := by
  intro heq
  have hmem : (ScopeKind.execution, execution) ∈ r.identity.take n := by
    rw [heq]
    exact mem_append_right above mem_cons_self
  exact hm.kinds _ (mem_of_mem_take hmem) rfl

theorem path_inj {k' : String} (h : r.path k = r'.path k') : k = k' := by
  have hlast := congrArg List.getLast? h
  simpa [path] using hlast

theorem Mounted.relies_ne (r' : BudgetRun) {k' : String} (hm : Mounted g k r) (hk : k ≠ k')
    (h : Relies k r p id) : p ≠ r'.path k' := by
  cases h with
  | mount hi hid => exact hm.take_ne _ _ _
  | own hid => exact fun heq => hk (path_inj heq)

theorem Mounted.mem_mounts (_hm : Mounted g k r) (h : id ∈ r.mounts) :
    ∃ i < r.mounts.length, Relies k r (r.identity.take (i + 1)) id := by
  obtain ⟨i, hi⟩ := mem_iff_getElem?.mp h
  have hlt := (List.getElem?_eq_some_iff.mp hi).1
  exact ⟨i, hlt, .mount hlt hi⟩

/-- The tree begins at the root, and keeps every scope under its own path. -/
structure Rooted (g : ResourceGovernor) : Prop where
  root : g.tree.find [] = some 0
  paths : ∀ p id, g.tree.find p = some id → (g.scopes id).path = p ∧ id < g.next

theorem Rooted.inj (hg : Rooted g) {q : ScopePath} (hp : g.tree.find p = some id)
    (hq : g.tree.find q = some id) : p = q :=
  (hg.paths p id hp).1.symm.trans (hg.paths q id hq).1

theorem Mounted.depth (hm : Mounted g k r) (hg : Rooted g)
    (hfull : r.scope ≠ none → r.mounts.length = r.identity.length) {i : Nat}
    (hid : r.chain[i]? = some id) : ∃ p, g.tree.find p = some id ∧ p.length = i := by
  cases i with
  | zero =>
    have hzero : id = 0 := by simpa [chain, eq_comm] using hid
    exact ⟨[], hzero ▸ hg.root, rfl⟩
  | succ i =>
    rw [chain, cons_append, getElem?_cons_succ] at hid
    have hshort := hm.short
    by_cases hi : i < r.mounts.length
    · rw [getElem?_append_left hi] at hid
      refine ⟨r.identity.take (i + 1), hm.relied (.mount hi hid), ?_⟩
      rw [length_take]
      omega
    · rw [getElem?_append_right (by omega)] at hid
      cases hscope : r.scope with
      | none =>
        rw [hscope] at hid
        simp at hid
      | some own =>
        rw [hscope, toList_some, getElem?_singleton] at hid
        have hmounts := hfull (by rw [hscope]; exact some_ne_none own)
        split at hid
        · rename_i hlast
          refine ⟨r.path k, (some_inj.mp hid) ▸ hm.own own hscope, ?_⟩
          rw [path, length_append, length_singleton]
          omega
        · cases hid

theorem full_of_scope (hm : Mounted g k r) (hb : Booked r) (h : r.scope ≠ none) :
    r.mounts.length = r.identity.length := by
  have hinside := hb.inside
  rw [isSome_iff_ne_none.mpr h] at hinside
  refine hm.full ?_ ?_
  · intro hstage
    rw [hstage] at hinside
    cases hinside
  · intro hstage
    rw [hstage] at hinside
    cases hinside

theorem Mounted.chain_nodup (hm : Mounted g k r) (hg : Rooted g)
    (hfull : r.scope ≠ none → r.mounts.length = r.identity.length) : r.chain.Nodup := by
  have hdepths : r.chain.map (fun id => (g.scopes id).path.length) =
      List.range r.chain.length := by
    refine ext_getElem (by simp) fun i hi _ => ?_
    rw [length_map] at hi
    obtain ⟨p, hp, hlength⟩ := hm.depth hg hfull (getElem?_eq_getElem hi)
    rw [getElem_map, getElem_range, (hg.paths p _ hp).1, hlength]
  exact List.Nodup.of_map _ (hdepths ▸ nodup_range)

theorem Mounted.lt_next (hm : Mounted g k r) (hg : Rooted g)
    (hfull : r.scope ≠ none → r.mounts.length = r.identity.length) (hid : id ∈ r.chain) :
    id < g.next := by
  obtain ⟨i, hi⟩ := mem_iff_getElem?.mp hid
  obtain ⟨p, hp, -⟩ := hm.depth hg hfull hi
  exact (hg.paths p id hp).2

theorem Mounted.zero_not_mem (hm : Mounted g k r) (hg : Rooted g) : 0 ∉ r.mounts := by
  intro hzero
  obtain ⟨i, hi, hrelies⟩ := hm.mem_mounts hzero
  have hpath := hg.inj (hm.relied hrelies) hg.root
  have hlength := congrArg List.length hpath
  have hshort := hm.short
  rw [length_take, length_nil] at hlength
  omega

/-- `_chain` finds the mounts of the run. -/
theorem Mounted.chain_identity (hm : Mounted g k r)
    (hfull : r.mounts.length = r.identity.length) : g.chain r.identity = 0 :: r.mounts := by
  refine congrArg (0 :: ·) (ResourceGovernor.walk_eq hfull fun i hi => ?_)
  exact hm.found i hi

/-- `_chain` finds the run's own scope at the end. -/
theorem Mounted.chain_path (hm : Mounted g k r) (hb : Booked r) (hscope : r.scope.isSome) :
    g.chain (r.path k) = r.chain := by
  obtain ⟨own, hown⟩ := isSome_iff_exists.mp hscope
  have hfull := full_of_scope hm hb (by rw [hown]; exact some_ne_none own)
  rw [chain, hown, toList_some, cons_append]
  refine congrArg (0 :: ·) (ResourceGovernor.walk_eq ?_ fun i hi => ?_)
  · rw [path, length_append, length_append, hfull]
    rfl
  · rw [length_append, length_singleton] at hi
    rw [nil_append, path]
    by_cases hlast : i < r.mounts.length
    · rw [getElem?_append_left hlast, ← hm.found i hlast, take_append_of_le_length (by omega)]
    have hi : i = r.mounts.length := by omega
    rw [take_of_length_le (by simp; omega), hi, getElem?_concat_length]
    exact hm.own own hown

end

end WebGis.Compute
