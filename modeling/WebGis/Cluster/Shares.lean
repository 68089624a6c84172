/-
  The shares that `fair_pick` gives the tenants.

  After `c` steps of the cursor a tenant has been visited once for each full round, and once
  more if the cursor has already passed it in the current one. What it has given up to then
  is the front of its queue of that length (`Visited`). So two tenants differ by one
  candidate at most, unless the queue of the one with less has run dry (`fairPick_fair`).
-/
import WebGis.Cluster.Fairness
import WebGis.Data.Total

namespace WebGis.Cluster

open Data List

section Visits

variable {m i j : Nat}

/-- How often the cursor stood at position `i` of a cycle of length `m` in its first `c` steps. -/
def visits (m i c : Nat) : Nat := Nat.count (· ≡ i [MOD m]) c

theorem visits_succ_self (hi : i < m) {c : Nat} (h : c % m = i) :
    visits m i (c + 1) = visits m i c + 1 := by
  have hmod : c ≡ i [MOD m] := by rw [Nat.ModEq, h, Nat.mod_eq_of_lt hi]
  rw [visits, Nat.count_succ, if_pos hmod]
  rfl

theorem visits_succ_ne (hi : i < m) {c : Nat} (h : c % m ≠ i) :
    visits m i (c + 1) = visits m i c := by
  have hmod : ¬ c ≡ i [MOD m] := by rwa [Nat.ModEq, Nat.mod_eq_of_lt hi]
  rw [visits, Nat.count_succ, if_neg hmod]
  rfl

theorem visits_le (i : Nat) (hj : j < m) (c : Nat) : visits m i c ≤ visits m j c + 1 := by
  have hpos : 0 < m := by omega
  unfold visits
  rw [Nat.count_modEq_card c hpos, Nat.count_modEq_card c hpos]
  split <;> split <;> omega

end Visits

/-! ## The loop -/

/-- The candidates of a tenant in the order of their queue. -/
def tenantQueue {κ : Type} [LinearOrder κ] (key : RunRow → κ) (candidates : List RunRow)
    (t : String) : List RunRow :=
  (candidates.insertionSort fun a b => key a ≤ key b).filter fun row => row.tenant = t

/-- What was picked from a tenant's queue. -/
def picksOf (picked : List RunRow) (t : String) : List RunRow :=
  picked.filter fun row => row.tenant = t

/-- Up to the cursor each tenant has given the front of its queue, one candidate a visit. -/
structure Visited (cycle : List String) (queue : String → List RunRow)
    (queues : Dict String (List RunRow)) (cursor : Nat) (picked : List RunRow) : Prop where
  left : ∀ (i : Nat) (hi : i < cycle.length),
    queues.getD cycle[i] [] = (queue cycle[i]).drop (visits cycle.length i cursor)
  given : ∀ (i : Nat) (hi : i < cycle.length),
    picksOf picked cycle[i] = (queue cycle[i]).take (visits cycle.length i cursor)
  inCycle : ∀ row ∈ picked, row.tenant ∈ cycle

section Loop

variable {cycle : List String} {queue : String → List RunRow} {queues : Dict String (List RunRow)}
  {cursor : Nat} {picked : List RunRow}

theorem cycle_getD (hcur : cursor % cycle.length < cycle.length) :
    cycle.getD (cursor % cycle.length) "" = cycle[cursor % cycle.length] := by
  rw [getD_eq_getElem?_getD, getElem?_eq_getElem hcur]
  rfl

theorem Visited.pass (h : Visited cycle queue queues cursor picked)
    (hempty : queues.getD (cycle.getD (cursor % cycle.length) "") [] = []) :
    Visited cycle queue queues (cursor + 1) picked := by
  have hdry : ∀ (i : Nat) (hi : i < cycle.length), cursor % cycle.length = i →
      (queue cycle[i]).length ≤ visits cycle.length i cursor := by
    rintro i hi rfl
    rw [cycle_getD hi, h.left _ hi] at hempty
    exact drop_eq_nil_iff.mp hempty
  constructor
  · intro i hi
    rw [h.left i hi]
    by_cases hat : cursor % cycle.length = i
    · have hlen := hdry i hi hat
      rw [visits_succ_self hi hat, drop_eq_nil_iff.mpr hlen, drop_eq_nil_iff.mpr (by omega)]
    · rw [visits_succ_ne hi hat]
  · intro i hi
    rw [h.given i hi]
    by_cases hat : cursor % cycle.length = i
    · have hlen := hdry i hi hat
      rw [visits_succ_self hi hat, take_of_length_le hlen, take_of_length_le (by omega)]
    · rw [visits_succ_ne hi hat]
  · exact h.inCycle

/-- The tenant at the cursor gives the first candidate that it has left. -/
theorem Visited.pick (hnodup : cycle.Nodup) (htenant : ∀ t, ∀ row ∈ queue t, row.tenant = t)
    (h : Visited cycle queue queues cursor picked) (hpos : 0 < cycle.length) {row : RunRow}
    {rest : List RunRow}
    (hfirst : queues.getD (cycle.getD (cursor % cycle.length) "") [] = row :: rest) :
    Visited cycle queue (queues.set (cycle.getD (cursor % cycle.length) "") rest) (cursor + 1)
      (picked ++ [row]) := by
  have hcur := Nat.mod_lt cursor hpos
  rw [cycle_getD hcur] at hfirst ⊢
  have hdrop : (queue cycle[cursor % cycle.length]).drop
      (visits cycle.length (cursor % cycle.length) cursor) = row :: rest :=
    (h.left _ hcur).symm.trans hfirst
  have hrow : row.tenant = cycle[cursor % cycle.length] :=
    htenant _ row (mem_of_mem_drop (hdrop ▸ mem_cons_self))
  have hne : ∀ (i : Nat) (hi : i < cycle.length), cursor % cycle.length ≠ i →
      cycle[cursor % cycle.length] ≠ cycle[i] := fun i hi hat he =>
    hat ((List.Nodup.getElem_inj_iff hnodup).mp he)
  constructor
  · intro i hi
    by_cases hat : cursor % cycle.length = i
    · subst hat
      rw [visits_succ_self hi rfl, Dict.getD, Dict.find_set_self, Option.getD_some,
        ← drop_drop, hdrop]
      rfl
    · rw [visits_succ_ne hi hat, Dict.getD, Dict.find_set_ne _ _ (hne i hi hat)]
      exact h.left i hi
  · intro i hi
    have hgiven := h.given i hi
    unfold picksOf at hgiven ⊢
    rw [filter_append, hgiven]
    by_cases hat : cursor % cycle.length = i
    · subst hat
      rw [visits_succ_self hi rfl, take_add, hdrop]
      simp [hrow]
    · rw [visits_succ_ne hi hat]
      simp [hrow, hne i hi hat]
  · intro row' hrow'
    rcases mem_append.mp hrow' with hold | hnew
    · exact h.inCycle row' hold
    · obtain rfl := mem_singleton.mp hnew
      rw [hrow]
      exact getElem_mem hcur

/-- The loop ends with each tenant's visits given, whatever the fuel. -/
theorem visited_rotate (slots : Nat) (hnodup : cycle.Nodup) (htenant : ∀ t, ∀ row ∈ queue t, row.tenant = t)
    (hpos : 0 < cycle.length) (fuel : Nat) (h : Visited cycle queue queues cursor picked) :
    ∃ queues' cursor', Visited cycle queue queues' cursor'
      (rotate cycle slots fuel queues cursor picked) := by
  induction fuel generalizing queues cursor picked with
  | zero => exact ⟨queues, cursor, h⟩
  | succ fuel ih =>
    unfold rotate
    split
    · exact ⟨queues, cursor, h⟩
    split
    · exact ⟨queues, cursor, h⟩
    dsimp only
    split
    · rename_i hempty
      exact ih (h.pass hempty)
    · rename_i row rest hfirst
      exact ih (h.pick hnodup htenant hpos hfirst)

end Loop

/-! ## The shares -/

/-- What a fair selection of the candidates for the slots is. -/
structure FairShares {κ : Type} [LinearOrder κ] (key : RunRow → κ) (candidates : List RunRow)
    (slots : Int) (picked : List RunRow) : Prop where
  /-- All slots are filled, or all candidates are picked. -/
  length : picked.length = min slots.toNat candidates.length
  /-- No candidate is picked twice. -/
  distinct : picked.Subperm candidates
  /-- Each tenant's picks are the front of its queue, which is in the order of the key. -/
  front : ∀ t, picksOf picked t <+: tenantQueue key candidates t
  sorted : ∀ t, (tenantQueue key candidates t).Pairwise fun a b => key a ≤ key b
  /-- A tenant that is behind another by more than one candidate has none left. -/
  even : ∀ t t', (picksOf picked t).length ≤ (picksOf picked t').length + 1 ∨
    picksOf picked t' = tenantQueue key candidates t'

section Shares

variable {κ : Type} [LinearOrder κ] {key : RunRow → κ} {candidates : List RunRow}

theorem getD_queuesOf (t : String) :
    (queuesOf (fun a b => key a ≤ key b) candidates).getD t [] = tenantQueue key candidates t := by
  unfold queuesOf
  rw [Dict.getD_foldl_push, filter_map, map_map]
  exact map_id _

theorem tenant_of_mem_tenantQueue {t : String} {row : RunRow}
    (h : row ∈ tenantQueue key candidates t) : row.tenant = t := by
  simpa using (mem_filter.mp h).2

theorem tenantQueue_eq_nil {last : Dict String Nat} {t : String}
    (h : t ∉ tenantCycle last (queuesOf (fun a b => key a ≤ key b) candidates)) :
    tenantQueue key candidates t = [] := by
  rw [← getD_queuesOf]
  by_contra hne
  exact h (mem_tenantCycle.mpr (mem_keys_of_getD hne))

theorem sorted_tenantQueue (t : String) :
    (tenantQueue key candidates t).Pairwise fun a b => key a ≤ key b := by
  have hsort : (candidates.insertionSort fun a b => key a ≤ key b).Pairwise
      fun a b => key a ≤ key b := by
    have : Std.Total fun a b : RunRow => key a ≤ key b := ⟨fun a b => le_total _ _⟩
    have : IsTrans RunRow fun a b => key a ≤ key b := ⟨fun _ _ _ => le_trans⟩
    exact pairwise_insertionSort _ _
  exact hsort.filter _

theorem subperm_of_front {picked : List RunRow}
    (h : ∀ t, picksOf picked t <+: tenantQueue key candidates t) : picked.Subperm candidates := by
  classical
  refine subperm_ext_iff.mpr fun row _ => ?_
  have hpicks : picked.count row = (picksOf picked row.tenant).count row :=
    (count_filter (by simp)).symm
  have hqueue : (tenantQueue key candidates row.tenant).count row = candidates.count row := by
    rw [tenantQueue, count_filter (by simp)]
    exact (perm_insertionSort _ candidates).count_eq row
  rw [hpicks, ← hqueue]
  exact (h row.tenant).sublist.count_le row

/-- `fair_pick` fills the slots and serves the tenants in turn. -/
theorem fairPick_fair (candidates : List RunRow) (slots : Int) (last : Dict String Nat)
    (key : RunRow → κ) :
    FairShares key candidates slots
      (fairPick candidates slots last fun a b => key a ≤ key b) := by
  suffices h : (∀ t, picksOf (fairPick candidates slots last fun a b => key a ≤ key b) t <+:
      tenantQueue key candidates t) ∧
      ∀ t t', (picksOf (fairPick candidates slots last fun a b => key a ≤ key b) t).length ≤
          (picksOf (fairPick candidates slots last fun a b => key a ≤ key b) t').length + 1 ∨
        picksOf (fairPick candidates slots last fun a b => key a ≤ key b) t' =
          tenantQueue key candidates t' from
    ⟨length_fairPick _ _ _ _, subperm_of_front h.1, h.1, sorted_tenantQueue, h.2⟩
  unfold fairPick
  split
  · exact ⟨fun t => nil_prefix, fun t t' => .inl (Nat.zero_le _)⟩
  rename_i hsome
  rw [not_or] at hsome
  dsimp only
  generalize hcycle : tenantCycle last (queuesOf (fun a b => key a ≤ key b) candidates) = cycle
  have hnodup : cycle.Nodup := by
    rw [← hcycle]
    exact (perm_insertionSort _ _).nodup_iff.mpr (Table.unique _)
  have hpos : 0 < cycle.length := by
    obtain ⟨row, hrow⟩ := exists_mem_of_ne_nil _ hsome.2
    rw [← hcycle]
    exact length_pos_of_mem (tenant_mem_cycle hrow)
  have hstart : Visited cycle (tenantQueue key candidates)
      (queuesOf (fun a b => key a ≤ key b) candidates) 0 [] := by
    refine ⟨fun i hi => ?_, fun i hi => ?_, fun row hrow => absurd hrow not_mem_nil⟩
    · rw [getD_queuesOf, visits, Nat.count_zero]
      rfl
    · rw [visits, Nat.count_zero]
      rfl
  obtain ⟨queues, cursor, hend⟩ := visited_rotate slots.toNat hnodup
    (fun t row => tenant_of_mem_tenantQueue) hpos (cycle.length * candidates.length) hstart
  generalize rotate cycle slots.toNat (cycle.length * candidates.length)
    (queuesOf (fun a b => key a ≤ key b) candidates) 0 [] = picked at hend
  -- outside the cycle nobody waits and nothing is picked
  have hout : ∀ t, t ∉ cycle → picksOf picked t = [] ∧ tenantQueue key candidates t = [] := by
    intro t ht
    refine ⟨filter_eq_nil_iff.mpr fun row hrow hat => ht ?_, tenantQueue_eq_nil (hcycle ▸ ht)⟩
    rw [← of_decide_eq_true hat]
    exact hend.inCycle row hrow
  constructor
  · intro t
    by_cases ht : t ∈ cycle
    · obtain ⟨i, hi, rfl⟩ := mem_iff_getElem.mp ht
      rw [hend.given i hi]
      exact take_prefix _ _
    · rw [(hout t ht).1]
      exact nil_prefix
  · intro t t'
    by_cases ht : t ∈ cycle
    · by_cases ht' : t' ∈ cycle
      · obtain ⟨i, hi, rfl⟩ := mem_iff_getElem.mp ht
        obtain ⟨j, hj, rfl⟩ := mem_iff_getElem.mp ht'
        have hvisits := visits_le i hj cursor
        rw [hend.given i hi, hend.given j hj]
        by_cases hdry : (tenantQueue key candidates cycle[j]).length ≤
            visits cycle.length j cursor
        · exact .inr (take_of_length_le hdry)
        · rw [length_take, length_take]
          exact .inl (by omega)
      · exact .inr ((hout t' ht').1.trans (hout t' ht').2.symm)
    · rw [(hout t ht).1]
      exact .inl (Nat.zero_le _)

end Shares

end WebGis.Cluster
