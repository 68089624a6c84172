/-
  `fair_pick`: which of the candidates take the free slots.

  The candidates wait in one queue for each tenant. The tenants stand in a cycle, the one
  that was dispatched least recently first, and a cursor goes round it: each tenant with a
  candidate left gives its first one, until the slots are filled or nothing waits.
-/
import WebGis.Cluster.Store
import WebGis.Data.Total

namespace WebGis.Cluster

open Data List Dict

/-! ## The rotation -/

/-- The tenant that a candidate counts for, the empty name when it has none. -/
def RunRow.tenant (row : RunRow) : String := row.tenantKey.getD ""

/-- `_default_key`: higher priorities first, then the order of submission. -/
def defaultOrder (a b : RunRow) : Prop := toLex (-a.priority, a.id) ≤ toLex (-b.priority, b.id)

instance : DecidableRel defaultOrder := fun _ _ => inferInstanceAs (Decidable (_ ≤ _))

/-- The queues of the tenants, each in the order `within`. -/
def queuesOf (within : RunRow → RunRow → Prop) [DecidableRel within] (candidates : List RunRow) :
    Dict String (List RunRow) :=
  ((candidates.insertionSort within).map fun row => (row.tenant, row)).foldl
    (fun queues kv => queues.push kv.1 kv.2) Dict.empty

/-- Where a tenant stands in the rotation. One that is not in `last` comes first. -/
def turn (last : Dict String Nat) (t : String) : Int ×ₗ String :=
  toLex ((last.find t).elim (-1) fun n => (n : Int), t)

def tenantCycle (last : Dict String Nat) (queues : Dict String (List RunRow)) : List String :=
  queues.keys.insertionSort fun t t' => turn last t ≤ turn last t'

/-- The loop of `fair_pick`. -/
def rotate (cycle : List String) (slots : Nat) :
    Nat → Dict String (List RunRow) → Nat → List RunRow → List RunRow
  | 0, _, _, picked => picked
  | fuel + 1, queues, cursor, picked =>
    if slots ≤ picked.length then picked
    else if cycle.all fun t => (queues.getD t []).isEmpty then picked
    else
      let tenant := cycle.getD (cursor % cycle.length) ""
      match queues.getD tenant [] with
      | [] => rotate cycle slots fuel queues (cursor + 1) picked
      | row :: rest =>
        rotate cycle slots fuel (queues.set tenant rest) (cursor + 1) (picked ++ [row])

/-- `fair_pick`. As long as something waits, one round of the cycle finds it, so a round for
    each candidate is enough (`length_fairPick`). -/
def fairPick (candidates : List RunRow) (slots : Int) (last : Dict String Nat)
    (within : RunRow → RunRow → Prop) [DecidableRel within] : List RunRow :=
  if slots ≤ 0 ∨ candidates = [] then []
  else
    let queues := queuesOf within candidates
    let cycle := tenantCycle last queues
    rotate cycle slots.toNat (cycle.length * candidates.length) queues 0 []

/-! ## The queues -/

section Queues

variable {within : RunRow → RunRow → Prop} [DecidableRel within] {candidates : List RunRow}

variable {t : String}

theorem mem_queuesOf {row : RunRow} :
    row ∈ (queuesOf within candidates).getD t [] ↔ row ∈ candidates ∧ row.tenant = t := by
  unfold queuesOf
  rw [mem_foldl_push, mem_map]
  constructor
  · rintro (h | ⟨row', hrow, he⟩)
    · cases h
    · obtain ⟨rfl, rfl⟩ := Prod.mk.inj he
      exact ⟨(mem_insertionSort within).mp hrow, rfl⟩
  · rintro ⟨hrow, rfl⟩
    exact .inr ⟨row, (mem_insertionSort within).mpr hrow, rfl⟩

theorem mem_keys_queuesOf :
    t ∈ (queuesOf within candidates).keys ↔ ∃ row ∈ candidates, row.tenant = t := by
  have hfold : ∀ (rows : List RunRow) (queues : Dict String (List RunRow)),
      t ∈ ((rows.map fun row => (row.tenant, row)).foldl
        (fun queues kv => queues.push kv.1 kv.2) queues).keys ↔
        t ∈ queues.keys ∨ ∃ row ∈ rows, row.tenant = t := by
    intro rows
    induction rows with
    | nil => simp
    | cons row rows ih =>
      intro queues
      rw [map_cons, foldl_cons, ih, Dict.push, mem_keys_set]
      simp only [mem_cons, exists_eq_or_imp]
      tauto
  have hempty : t ∉ (Dict.empty : Dict String (List RunRow)).keys := not_mem_nil
  unfold queuesOf
  rw [hfold, or_iff_right hempty]
  simp only [mem_insertionSort]

/-- How many candidates wait in the queues. -/
def waiting (queues : Dict String (List RunRow)) : Nat :=
  Table.total (fun kv => kv.2.length) queues

theorem waiting_set (queues : Dict String (List RunRow)) (t : String) (rows : List RunRow) :
    waiting (queues.set t rows) + (queues.getD t []).length = waiting queues + rows.length := by
  have h := total_set queues t rows fun kv => kv.2.length
  unfold waiting Dict.getD
  cases hfind : queues.find t with
  | none =>
    rw [hfind] at h
    exact h
  | some rows0 =>
    rw [hfind] at h
    exact h

theorem length_le_waiting (queues : Dict String (List RunRow)) (t : String) :
    (queues.getD t []).length ≤ waiting queues := by
  have h := waiting_set queues t []
  rw [length_nil] at h
  omega

theorem waiting_push (queues : Dict String (List RunRow)) (t : String) (row : RunRow) :
    waiting (queues.push t row) = waiting queues + 1 := by
  have h := waiting_set queues t (queues.getD t [] ++ [row])
  rw [length_append, length_singleton] at h
  unfold Dict.push
  omega

theorem waiting_queuesOf : waiting (queuesOf within candidates) = candidates.length := by
  have hfold : ∀ (rows : List RunRow) (queues : Dict String (List RunRow)),
      waiting ((rows.map fun row => (row.tenant, row)).foldl
        (fun queues kv => queues.push kv.1 kv.2) queues) = waiting queues + rows.length := by
    intro rows
    induction rows with
    | nil => exact fun queues => rfl
    | cons row rows ih =>
      intro queues
      rw [map_cons, foldl_cons, ih, waiting_push, length_cons]
      omega
  unfold queuesOf
  rw [hfold, length_insertionSort]
  exact Nat.zero_add _

variable {queues : Dict String (List RunRow)}

theorem mem_keys_of_getD (h : queues.getD t [] ≠ []) : t ∈ queues.keys := by
  by_contra hno
  refine h ?_
  unfold Dict.getD
  rw [find_eq_none.mpr hno]
  rfl

theorem waiting_eq_zero (h : ∀ t ∈ queues.keys, queues.getD t [] = []) : waiting queues = 0 := by
  refine sum_eq_zero_iff.mpr fun n hn => ?_
  obtain ⟨⟨t, rows⟩, hkv, rfl⟩ := mem_map.mp hn
  have hempty := h t (mem_map_of_mem hkv)
  unfold Dict.getD at hempty
  rw [find_eq_some.mpr hkv] at hempty
  exact length_eq_zero_iff.mpr hempty

variable {last : Dict String Nat}

theorem mem_tenantCycle : t ∈ tenantCycle last queues ↔ t ∈ queues.keys :=
  mem_insertionSort _

theorem tenant_mem_cycle {row : RunRow} (h : row ∈ candidates) :
    row.tenant ∈ tenantCycle last (queuesOf within candidates) :=
  mem_tenantCycle.mpr
    (mem_keys_of_getD (ne_nil_of_mem (mem_queuesOf.mpr ⟨h, rfl⟩)))

end Queues

/-! ## The loop -/

/-- There is a candidate within `k` steps of the cursor, and the fuel reaches the last one. -/
def Reaches (cycle : List String) (queues : Dict String (List RunRow)) (cursor fuel : Nat) : Prop :=
  waiting queues = 0 ∨ ∃ k < cycle.length,
    queues.getD (cycle.getD ((cursor + k) % cycle.length) "") [] ≠ [] ∧
      cycle.length * (waiting queues - 1) + k < fuel

variable {cycle : List String}

theorem exists_ahead {t : String} (ht : t ∈ cycle) (cursor : Nat) :
    ∃ k < cycle.length, cycle.getD ((cursor + k) % cycle.length) "" = t := by
  obtain ⟨j, hj, hget⟩ := mem_iff_getElem.mp ht
  have hpos : 0 < cycle.length := by omega
  have hcur : cursor % cycle.length < cycle.length := Nat.mod_lt _ hpos
  have hpick : ∀ k, (cursor + k) % cycle.length = j →
      cycle.getD ((cursor + k) % cycle.length) "" = t := by
    intro k hk
    rw [hk, getD_eq_getElem?_getD, getElem?_eq_getElem hj, hget]
    rfl
  refine ⟨(j + cycle.length - cursor % cycle.length) % cycle.length, Nat.mod_lt _ hpos, hpick _ ?_⟩
  have hsum : cursor % cycle.length + (j + cycle.length - cursor % cycle.length) =
      j + cycle.length := by omega
  rw [Nat.add_mod_mod, ← Nat.mod_add_mod, hsum, Nat.add_mod_right]
  exact Nat.mod_eq_of_lt hj

variable {queues : Dict String (List RunRow)}

theorem reaches_of_round (hkeys : ∀ t ∈ queues.keys, t ∈ cycle) (cursor : Nat) {fuel : Nat}
    (hfuel : cycle.length * waiting queues ≤ fuel) : Reaches cycle queues cursor fuel := by
  by_cases hzero : waiting queues = 0
  · exact .inl hzero
  have hsome : ∃ t ∈ queues.keys, queues.getD t [] ≠ [] := by
    by_contra hno
    push Not at hno
    exact hzero (waiting_eq_zero hno)
  obtain ⟨t, ht, hne⟩ := hsome
  obtain ⟨k, hk, hat⟩ := exists_ahead (hkeys t ht) cursor
  refine .inr ⟨k, hk, by rw [hat]; exact hne, ?_⟩
  obtain ⟨n, hn⟩ := Nat.exists_eq_succ_of_ne_zero hzero
  rw [hn, Nat.mul_succ] at hfuel
  rw [hn, Nat.succ_sub_one]
  omega

variable {picked : List RunRow}

theorem length_rotate {slots : Nat} (fuel : Nat) (hkeys : ∀ t ∈ queues.keys, t ∈ cycle)
    {cursor : Nat} (hpicked : picked.length ≤ slots) (hfuel : Reaches cycle queues cursor fuel) :
    (rotate cycle slots fuel queues cursor picked).length =
      min slots (picked.length + waiting queues) := by
  induction fuel generalizing queues cursor picked with
  | zero =>
    rcases hfuel with hnone | ⟨k, -, -, hlt⟩
    · show picked.length = _
      omega
    · omega
  | succ fuel ih =>
    unfold rotate
    split
    · omega
    split
    · rename_i hall
      have hzero : waiting queues = 0 := waiting_eq_zero fun t ht =>
        List.isEmpty_iff.mp (List.all_eq_true.mp hall t (hkeys t ht))
      omega
    · rename_i hsome
      rcases hfuel with hzero | ⟨k, hk, hne, hlt⟩
      · refine absurd (List.all_eq_true.mpr fun t _ => ?_) hsome
        have hle := length_le_waiting queues t
        exact isEmpty_iff_length_eq_zero.mpr (by omega)
      · dsimp only
        split
        · -- an empty queue: the next candidate is one step nearer
          rename_i hempty
          cases k with
          | zero => exact absurd hempty hne
          | succ k =>
            refine ih hkeys hpicked (.inr ⟨k, by omega, ?_, by omega⟩)
            rw [Nat.add_assoc, Nat.add_comm 1 k]
            exact hne
        · rename_i row rest hqueue
          have hset := waiting_set queues (cycle.getD (cursor % cycle.length) "") rest
          rw [hqueue, length_cons] at hset
          have hkey := mem_keys_of_getD (ne_nil_of_mem (hqueue ▸ mem_cons_self))
          have hkeys' : ∀ t ∈ (queues.set (cycle.getD (cursor % cycle.length) "") rest).keys,
              t ∈ cycle := by
            rw [keys_set_of_mem queues rest hkey]
            exact hkeys
          rw [ih hkeys' (by rw [length_append, length_singleton]; omega)
            (reaches_of_round hkeys' _ ?_), length_append, length_singleton]
          · omega
          · have hw : waiting (queues.set (cycle.getD (cursor % cycle.length) "") rest) =
                waiting queues - 1 := by omega
            rw [hw]
            omega

/-- **Every free slot is used**: `fair_pick` returns as many candidates as there are slots, or
    all of them. -/
theorem length_fairPick (candidates : List RunRow) (slots : Int) (last : Dict String Nat)
    (within : RunRow → RunRow → Prop) [DecidableRel within] :
    (fairPick candidates slots last within).length = min slots.toNat candidates.length := by
  unfold fairPick
  split
  · rename_i hnone
    rcases hnone with h | h
    · rw [Int.toNat_of_nonpos h]
      exact (Nat.zero_min _).symm
    · rw [h]
      exact (Nat.min_zero _).symm
  · have hkeys : ∀ t ∈ (queuesOf within candidates).keys,
        t ∈ tenantCycle last (queuesOf within candidates) := fun t ht => mem_tenantCycle.mpr ht
    rw [length_rotate _ hkeys (Nat.zero_le _) (reaches_of_round hkeys 0 ?_), waiting_queuesOf]
    · exact congrArg _ (Nat.zero_add _)
    · rw [waiting_queuesOf]

theorem rotate_of_full {slots : Nat} (h : slots ≤ picked.length) (fuel : Nat)
    (queues : Dict String (List RunRow)) (cursor : Nat) :
    rotate cycle slots fuel queues cursor picked = picked := by
  cases fuel with
  | zero => rfl
  | succ fuel => exact if_pos h

theorem rotate_one {t : String} {row : RunRow} {queue : List RunRow}
    (h : queues.getD t [] = row :: queue) (fuel : Nat) :
    rotate (t :: cycle) 1 (fuel + 1) queues 0 [] = [row] := by
  have hwaits : ¬ ((t :: cycle).all fun t => (queues.getD t []).isEmpty) := by
    rw [List.all_cons, h, isEmpty_cons, Bool.false_and]
    exact Bool.false_ne_true
  have hfirst : (t :: cycle).getD (0 % (t :: cycle).length) "" = t := by
    rw [Nat.zero_mod]
    rfl
  unfold rotate
  rw [if_neg (by decide), if_neg hwaits]
  dsimp only
  rw [hfirst, h]
  exact rotate_of_full (le_refl 1) _ _ _

theorem fairPick_one {candidates : List RunRow} {last : Dict String Nat}
    {within : RunRow → RunRow → Prop} [DecidableRel within] {row : RunRow}
    (h : row ∈ fairPick candidates 1 last within) :
    row ∈ candidates ∧ ∀ row' ∈ candidates, turn last row.tenant ≤ turn last row'.tenant := by
  unfold fairPick at h
  split at h
  · cases h
  have hsorted : (tenantCycle last (queuesOf within candidates)).Pairwise
      fun t t' => turn last t ≤ turn last t' := pairwise_insertionSort _ _
  have hcycle : ∀ t, t ∈ tenantCycle last (queuesOf within candidates) ↔
      ∃ row ∈ candidates, row.tenant = t := fun t => mem_tenantCycle.trans mem_keys_queuesOf
  dsimp only at h
  cases hc : tenantCycle last (queuesOf within candidates) with
  | nil =>
    rw [hc, length_nil, Nat.zero_mul] at h
    cases h
  | cons t cycle =>
    rw [hc] at h hsorted hcycle
    obtain ⟨first, hfirst, ht⟩ := (hcycle t).mp mem_cons_self
    have hqueue := (mem_queuesOf : first ∈ (queuesOf within candidates).getD t [] ↔ _).mpr ⟨hfirst, ht⟩
    cases hq : (queuesOf within candidates).getD t [] with
    | nil =>
      rw [hq] at hqueue
      cases hqueue
    | cons first' queue =>
      have hpos : 0 < candidates.length := length_pos_of_mem hfirst
      obtain ⟨fuel, hfuel⟩ : ∃ fuel, (t :: cycle).length * candidates.length = fuel + 1 :=
        Nat.exists_eq_succ_of_ne_zero (Nat.mul_pos (Nat.succ_pos _) hpos).ne'
      rw [hfuel, show (1 : Int).toNat = 1 from rfl, rotate_one hq, mem_singleton] at h
      subst h
      obtain ⟨hmem, htenant⟩ := mem_queuesOf.mp (hq ▸ mem_cons_self)
      refine ⟨hmem, fun row' hrow' => ?_⟩
      rw [htenant]
      rcases mem_cons.mp ((hcycle row'.tenant).mpr ⟨row', hrow', rfl⟩) with he | hin
      · exact le_of_eq (congrArg _ he.symm)
      · exact rel_of_pairwise_cons hsorted hin

end WebGis.Cluster
