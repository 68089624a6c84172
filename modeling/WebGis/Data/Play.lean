/-
  Runs of a step function: one action after the other, where each is allowed.
-/
import Mathlib.Logic.Relation

namespace Data

variable {σ α : Type} (step : σ → α → Option σ) (allowed : σ → α → Bool)

/-- A step with an action that is allowed. -/
def Step (s s' : σ) : Prop := ∃ a, allowed s a = true ∧ step s a = some s'

/-- The actions one after the other. -/
def play (s : σ) : List α → Option σ
  | [] => some s
  | a :: rest => if allowed s a then (step s a).bind fun s' => play s' rest else none

variable {step allowed}

theorem run_play {s₀ : σ} {actions : List α} : ∀ {s s' : σ},
    Relation.ReflTransGen (Step step allowed) s₀ s → play step allowed s actions = some s' →
      Relation.ReflTransGen (Step step allowed) s₀ s' := by
  induction actions with
  | nil =>
    intro s s' hrun hplay
    cases hplay
    exact hrun
  | cons a rest ih =>
    intro s s' hrun hplay
    rw [play, Option.ite_none_right_eq_some, Option.bind_eq_some_iff] at hplay
    obtain ⟨hallowed, t, hstep, hrest⟩ := hplay
    exact ih (hrun.tail ⟨a, hallowed, hstep⟩) hrest

theorem run_of_play {s s' : σ} {actions : List α} (h : play step allowed s actions = some s') :
    Relation.ReflTransGen (Step step allowed) s s' :=
  run_play .refl h

/-- What every step keeps, every run keeps. -/
theorem run_induction {I : σ → Prop} {s s' : σ}
    (hstep : ∀ {s a s'}, I s → allowed s a → step s a = some s' → I s') (hs : I s)
    (hrun : Relation.ReflTransGen (Step step allowed) s s') : I s' := by
  induction hrun with
  | refl => exact hs
  | tail _ h ih =>
    obtain ⟨a, hallowed, hstep'⟩ := h
    exact hstep ih hallowed hstep'

end Data
