/-
  Grouping a list: one accumulator for every key, fed with the elements of that key in order.

  The keys stand in the order in which they first come up. What stands under a key
  depends on the elements of that key only (`find_groupAll`).
-/
import WebGis.Data.Dict

namespace Data

open List Dict
open Option hiding or_assoc

section Grouping

variable {α κ σ : Type} [DecidableEq κ] (key : α → Option κ) (init : α → σ)
  (step : σ → α → Option σ)

/-- An element is fed to the accumulator of its key. -/
def groupStep (d : Dict κ σ) (x : α) : Option (Dict κ σ) := do
  let k ← key x
  let s ← step (d.getD k (init x)) x
  some (d.set k s)

def groupAll (xs : List α) : Option (Dict κ σ) :=
  xs.foldlM (groupStep key init step) Dict.empty

/-- The elements of a key. -/
def ofKey (k : κ) (xs : List α) : List α := xs.filter fun x => key x = some k

/-- The keys, as they first come up after some others. -/
def keysAfter (ks : List κ) (xs : List α) : List κ :=
  xs.foldl
    (fun ks x =>
      match key x with
      | some k => if k ∈ ks then ks else ks ++ [k]
      | none => ks)
    ks

variable {key init step}

variable {x : α} {k : κ}

theorem ofKey_cons_self (h : key x = some k) (xs : List α) :
    ofKey key k (x :: xs) = x :: ofKey key k xs :=
  filter_cons_of_pos (decide_eq_true h)

theorem ofKey_cons_ne (h : key x ≠ some k) (xs : List α) : ofKey key k (x :: xs) = ofKey key k xs :=
  filter_cons_of_neg (by simpa using h)

variable {d d' : Dict κ σ}

theorem groupStep_eq_some :
    groupStep key init step d x = some d' ↔
      ∃ k s, key x = some k ∧ step (d.getD k (init x)) x = some s ∧ d' = d.set k s := by
  unfold groupStep
  simp only [bind_eq_bind, bind_eq_some_iff, some.injEq]
  constructor
  · rintro ⟨k, hk, s, hs, rfl⟩
    exact ⟨k, s, hk, hs, rfl⟩
  · rintro ⟨k, s, hk, hs, rfl⟩
    exact ⟨k, hk, s, hs, rfl⟩

variable {xs : List α}

/-- Under a key stands what its elements make of what stood there, or of a fresh accumulator. -/
theorem find_foldlM (h : xs.foldlM (groupStep key init step) d = some d') (k : κ) :
    match d.find k, ofKey key k xs with
    | none, [] => d'.find k = none
    | none, x :: rest => ∃ s, (x :: rest).foldlM step (init x) = some s ∧ d'.find k = some s
    | some s₀, rest => ∃ s, rest.foldlM step s₀ = some s ∧ d'.find k = some s := by
  induction xs generalizing d with
  | nil =>
    obtain rfl : d = d' := some.inj h
    cases hd : d.find k with
    | none => rfl
    | some s => exact ⟨s, rfl, rfl⟩
  | cons x xs ih =>
    rw [foldlM_cons] at h
    obtain ⟨e, he, h⟩ := bind_eq_some_iff.mp h
    obtain ⟨k', s, hk', hs, rfl⟩ := groupStep_eq_some.mp he
    have hrest := ih h
    by_cases hkk : k' = k
    · subst hkk
      rw [find_set_self] at hrest
      obtain ⟨s', hfold, hfind⟩ := hrest
      rw [ofKey_cons_self hk']
      unfold Dict.getD at hs
      cases hd : d.find k' with
      | none =>
        rw [hd] at hs
        refine ⟨s', ?_, hfind⟩
        rw [foldlM_cons]
        exact bind_eq_some_iff.mpr ⟨s, hs, hfold⟩
      | some s₀ =>
        rw [hd] at hs
        refine ⟨s', ?_, hfind⟩
        rw [foldlM_cons]
        exact bind_eq_some_iff.mpr ⟨s, hs, hfold⟩
    · rw [ofKey_cons_ne (by rw [hk']; simpa using hkk)]
      rwa [find_set_ne _ _ hkk] at hrest

/-- What stands under a key is made of its elements. -/
theorem find_groupAll (h : groupAll key init step xs = some d) (k : κ) :
    match ofKey key k xs with
    | [] => d.find k = none
    | x :: rest => ∃ s, (x :: rest).foldlM step (init x) = some s ∧ d.find k = some s := by
  have hfind := find_foldlM h k
  rw [find_empty] at hfind
  cases hk : ofKey key k xs with
  | nil => simpa [hk] using hfind
  | cons x rest => simpa [hk] using hfind

theorem mem_keysAfter {ks : List κ} :
    k ∈ keysAfter key ks xs ↔ k ∈ ks ∨ ∃ x ∈ xs, key x = some k := by
  induction xs generalizing ks with
  | nil => simp [keysAfter]
  | cons x xs ih =>
    unfold keysAfter at ih ⊢
    rw [foldl_cons, ih, exists_mem_cons_iff, ← or_assoc]
    refine or_congr ?_ Iff.rfl
    cases hx : key x with
    | none => simp
    | some k' =>
      dsimp only
      by_cases hin : k' ∈ ks
      · rw [if_pos hin, some_inj]
        exact (or_iff_left_of_imp fun he => he ▸ hin).symm
      · rw [if_neg hin, mem_append, mem_singleton, some_inj, eq_comm (a := k)]

theorem ofKey_append (key : α → Option κ) (k : κ) (xs ys : List α) :
    ofKey key k (xs ++ ys) = ofKey key k xs ++ ofKey key k ys := filter_append ..

/-- A grouping gets through where the elements of every key do. -/
theorem groupAll_isSome (hkey : ∀ x ∈ xs, ∃ k, key x = some k)
    (hfold : ∀ k x rest, ofKey key k xs = x :: rest →
      ∃ s, (x :: rest).foldlM step (init x) = some s) :
    ∃ d, groupAll key init step xs = some d := by
  induction xs using List.reverseRecOn with
  | nil => exact ⟨_, rfl⟩
  | append_singleton xs x ih =>
    obtain ⟨d, hd⟩ := ih (fun y hy => hkey y (mem_append_left _ hy))
      fun k y rest hk => by
        have happ := ofKey_append key k xs [x]
        rw [hk, cons_append] at happ
        obtain ⟨s, hs⟩ := hfold k y _ happ
        rw [← cons_append, foldlM_append] at hs
        obtain ⟨mid, hmid, -⟩ := bind_eq_some_iff.mp hs
        exact ⟨mid, hmid⟩
    obtain ⟨k, hk⟩ := hkey x (mem_append_right _ (mem_singleton_self x))
    -- the accumulator that the last element finds is the one of its key before
    have hfind := find_groupAll hd k
    have happ := ofKey_append key k xs [x]
    rw [ofKey_cons_self hk [], show ofKey key k [] = [] from rfl] at happ
    obtain ⟨s, hs⟩ : ∃ s, step (d.getD k (init x)) x = some s := by
      unfold Dict.getD
      cases hold : ofKey key k xs with
      | nil =>
        rw [hold] at hfind happ
        obtain ⟨s, hs⟩ := hfold k x [] happ
        rw [foldlM_cons] at hs
        obtain ⟨mid, hmid, -⟩ := bind_eq_some_iff.mp hs
        rw [hfind]
        exact ⟨mid, hmid⟩
      | cons y rest =>
        rw [hold] at hfind happ
        obtain ⟨s₀, hs₀, hfound⟩ := hfind
        obtain ⟨s, hs⟩ := hfold k y (rest ++ [x]) happ
        rw [← cons_append, foldlM_append, hs₀, bind_eq_bind, bind_some, foldlM_cons] at hs
        obtain ⟨mid, hmid, -⟩ := bind_eq_some_iff.mp hs
        rw [hfound]
        exact ⟨mid, hmid⟩
    refine ⟨d.set k s, ?_⟩
    unfold groupAll at hd ⊢
    rw [foldlM_append, hd, bind_eq_bind, bind_some, foldlM_cons,
      groupStep_eq_some.mpr ⟨k, s, hk, hs, rfl⟩]
    rfl

end Grouping

end Data
