/-
  Patterns with wildcards, as in `LIKE`: `%` stands for any characters, `_` for one, and an escape
  character, if there is one, takes the wildcard away from the character after it.

  Three-valued logic: true, false and unknown.

  A conjunction is false where one part is false, whatever the others are, and true only where
  all of them are; a disjunction the other way round.
-/
import Mathlib

namespace Data

open List

inductive Piece where
  | any
  | one
  | lit (c : Char)
  deriving DecidableEq

namespace Piece

/-- The pieces of a pattern. -/
def pieces (escape : Option Char) : List Char → List Piece
  | [] => []
  | c :: cs =>
    if some c = escape then
      match cs with
      | [] => [lit c]
      | d :: cs => lit d :: pieces escape cs
    else (if c = '%' then any else if c = '_' then one else lit c) :: pieces escape cs

/-- The pieces match the whole text. -/
def matchAll : List Piece → List Char → Bool
  | [], s => s.isEmpty
  | any :: ps, s => s.tails.any (matchAll ps)
  | one :: ps, s =>
    match s with
    | [] => false
    | _ :: s => matchAll ps s
  | lit d :: ps, s =>
    match s with
    | [] => false
    | c :: s => d = c && matchAll ps s

end Piece

/-- `none` is unknown. -/
abbrev Truth : Type := Option Bool

namespace Truth

def not (t : Truth) : Truth := t.map (!·)

/-- The conjunction of a list. -/
def all (ts : List Truth) : Truth :=
  if ts.any (· = some false) then some false
  else if ts.any (· = none) then none
  else some true

/-- The disjunction of a list. -/
def any (ts : List Truth) : Truth :=
  if ts.any (· = some true) then some true
  else if ts.any (· = none) then none
  else some false

variable {t : Truth} {ts : List Truth}

@[simp] theorem not_eq_some {b : Bool} : t.not = some b ↔ t = some (!b) := by
  cases t with
  | none => simp [not]
  | some c => cases b <;> cases c <;> simp [not]

theorem any_decide {s : Truth} : ts.any (· = s) ↔ s ∈ ts := by
  simp

/-- A value that is neither false nor unknown is true. -/
theorem eq_true_of_known (hf : some false ∉ ts) (hn : none ∉ ts) : ∀ t ∈ ts, t = some true := by
  intro t ht
  match t with
  | none => exact absurd ht hn
  | some false => exact absurd ht hf
  | some true => rfl

theorem eq_false_of_known (ht : some true ∉ ts) (hn : none ∉ ts) :
    ∀ t ∈ ts, t = some false := by
  intro t hmem
  match t with
  | none => exact absurd hmem hn
  | some false => rfl
  | some true => exact absurd hmem ht

theorem all_eq_false : all ts = some false ↔ some false ∈ ts := by
  unfold all
  simp only [any_decide]
  by_cases hf : some false ∈ ts
  · simp [hf]
  rw [if_neg hf]
  split <;> simp [hf]

theorem all_eq_true : all ts = some true ↔ ∀ t ∈ ts, t = some true := by
  unfold all
  simp only [any_decide]
  constructor
  · intro h
    split at h
    · cases h
    rename_i hf
    split at h
    · cases h
    rename_i hn
    exact eq_true_of_known hf hn
  · intro h
    have hf : some false ∉ ts := fun hmem => by cases h _ hmem
    have hn : none ∉ ts := fun hmem => by cases h _ hmem
    rw [if_neg hf, if_neg hn]

theorem all_eq_none : all ts = none ↔ some false ∉ ts ∧ none ∈ ts := by
  unfold all
  simp only [any_decide]
  by_cases hf : some false ∈ ts
  · simp [hf]
  rw [if_neg hf]
  split <;> simp_all

theorem any_eq_true : any ts = some true ↔ some true ∈ ts := by
  unfold any
  simp only [any_decide]
  by_cases ht : some true ∈ ts
  · simp [ht]
  rw [if_neg ht]
  split <;> simp [ht]

theorem any_eq_false : any ts = some false ↔ ∀ t ∈ ts, t = some false := by
  unfold any
  simp only [any_decide]
  constructor
  · intro h
    split at h
    · cases h
    rename_i ht
    split at h
    · cases h
    rename_i hn
    exact eq_false_of_known ht hn
  · intro h
    have ht : some true ∉ ts := fun hmem => by cases h _ hmem
    have hn : none ∉ ts := fun hmem => by cases h _ hmem
    rw [if_neg ht, if_neg hn]

theorem not_any : (any ts).not = all (ts.map not) := by
  have hmem : ∀ b : Bool, some b ∈ ts.map not ↔ some (!b) ∈ ts := by
    intro b
    simp only [mem_map, not_eq_some]
    simp
  have hnone : none ∈ ts.map not ↔ none ∈ ts := by
    simp [not]
  unfold any all
  simp only [any_decide, hmem, hnone, Bool.not_false]
  by_cases ht : some true ∈ ts
  · simp [ht, not]
  rw [if_neg ht, if_neg ht]
  split <;> rfl

theorem any_singleton : any [t] = t := by
  cases t with
  | none => rfl
  | some b => cases b <;> rfl

theorem all_singleton : all [t] = t := by
  cases t with
  | none => rfl
  | some b => cases b <;> rfl

/-- A disjunction of a part and a disjunction is one disjunction. -/
theorem any_cons : any [t, any ts] = any (t :: ts) := by
  refine Option.ext fun b => ?_
  cases b with
  | true =>
    rw [any_eq_true, any_eq_true, mem_pair, mem_cons, eq_comm (b := any ts), any_eq_true]
  | false => simp [any_eq_false]

/-- A conjunction of a part and a conjunction is one conjunction. -/
theorem all_cons : all [t, all ts] = all (t :: ts) := by
  refine Option.ext fun b => ?_
  cases b with
  | true => simp [all_eq_true]
  | false =>
    rw [all_eq_false, all_eq_false, mem_pair, mem_cons, eq_comm (b := all ts), all_eq_false]

section

variable {ss : List Truth} {b : Bool}

section

variable (h : List.Forall₂ (fun s t => s = some b ↔ t = some b) ss ts)
include h

/-- Whether a conjunction is `b` depends on which of its parts are. -/
theorem all_congr :
    all ss = some b ↔ all ts = some b := by
  cases b with
  | true =>
    rw [all_eq_true, all_eq_true]
    induction h with
    | nil => rfl
    | cons ht _ ih => rw [forall_mem_cons, forall_mem_cons, ht, ih]
  | false =>
    rw [all_eq_false, all_eq_false]
    induction h with
    | nil => rfl
    | cons ht _ ih => rw [mem_cons, mem_cons, eq_comm, ht, eq_comm, ih]

/-- Whether a disjunction is `b` depends on which of its parts are. -/
theorem any_congr :
    any ss = some b ↔ any ts = some b := by
  cases b with
  | true =>
    rw [any_eq_true, any_eq_true]
    induction h with
    | nil => rfl
    | cons ht _ ih => rw [mem_cons, mem_cons, eq_comm, ht, eq_comm, ih]
  | false =>
    rw [any_eq_false, any_eq_false]
    induction h with
    | nil => rfl
    | cons ht _ ih => rw [forall_mem_cons, forall_mem_cons, ht, ih]

end

end

end Truth

end Data
