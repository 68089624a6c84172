/-
  Scanners: what reads a text character by character and gives tokens as it goes.

  A scanner holds a state; what it has not given yet it gives at the end. The tokens of a text are
  those of its parts wherever the second part begins with a character that ends a token.
-/
import Mathlib

namespace Data

open Option

/-- What a character does to the state, and what the state still gives at the end of the text. -/
structure Scanner (σ τ : Type) where
  start : σ
  step : σ → Char → Option (σ × List τ)
  flush : σ → Option (List τ)

namespace Scanner

variable {σ τ : Type} (S : Scanner σ τ)

/-- The state after a text, and the tokens given on the way. -/
def run : σ → List Char → Option (σ × List τ)
  | s, [] => some (s, [])
  | s, c :: cs => do
      let (s, ts) ← S.step s c
      let (s, us) ← run s cs
      some (s, ts ++ us)

/-- All tokens of a text. -/
def scan (cs : List Char) : Option (List τ) := do
  let (s, ts) ← S.run S.start cs
  let us ← S.flush s
  some (ts ++ us)

variable {S} {s s' : σ} {cs ds : List Char} {ts us post : List τ}

theorem run_append (h : S.run s cs = some (s', ts)) :
    S.run s (cs ++ ds) = (S.run s' ds).map fun r => (r.1, ts ++ r.2) := by
  induction cs generalizing s ts with
  | nil =>
    obtain ⟨rfl, rfl⟩ := Prod.mk.inj (some.inj h)
    simp
  | cons c cs ih =>
    obtain ⟨⟨s₁, us⟩, hstep, h⟩ := bind_eq_some_iff.mp h
    obtain ⟨⟨s₂, vs⟩, hrun, h⟩ := bind_eq_some_iff.mp h
    obtain ⟨rfl, rfl⟩ := Prod.mk.inj (some.inj h)
    rw [List.cons_append, run, hstep]
    dsimp only [bind_eq_bind, bind_some]
    rw [ih hrun]
    cases S.run s₂ ds with
    | none => rfl
    | some r => simp

/-- A text is scanned to the tokens. -/
def Scans (S : Scanner σ τ) (cs : List Char) (ts : List τ) : Prop := S.scan cs = some ts

/-- A character that ends the token before it. -/
def Breaks (S : Scanner σ τ) (c : Char) : Prop :=
  ∀ s post, S.flush s = some post →
    S.step s c = (S.step S.start c).map fun r => (r.1, post ++ r.2)

theorem run_of_breaks {c : Char} (hc : S.Breaks c) (hs : S.flush s = some post) :
    S.run s (c :: ds) = (S.run S.start (c :: ds)).map fun r => (r.1, post ++ r.2) := by
  rw [run, run, hc s post hs]
  cases S.step S.start c with
  | none => rfl
  | some r =>
    dsimp only [map_some, bind_eq_bind, bind_some]
    cases S.run r.1 ds with
    | none => rfl
    | some r' => simp

/-- A text, and another that begins with the end of a token. -/
theorem Scans.append (h : S.Scans cs ts) {c : Char} (hc : S.Breaks c)
    (h' : S.Scans (c :: ds) us) : S.Scans (cs ++ c :: ds) (ts ++ us) := by
  obtain ⟨⟨s, pre⟩, hrun, h⟩ := bind_eq_some_iff.mp h
  obtain ⟨post, hflush, h⟩ := bind_eq_some_iff.mp h
  obtain ⟨⟨s', pre'⟩, hrun', h'⟩ := bind_eq_some_iff.mp h'
  obtain ⟨post', hflush', h'⟩ := bind_eq_some_iff.mp h'
  obtain rfl := some.inj h
  obtain rfl := some.inj h'
  unfold Scans scan
  rw [run_append hrun, run_of_breaks hc hflush, hrun']
  simp [hflush']

/-- A text after which nothing is open, and another. -/
theorem Scans.after (h : S.run S.start cs = some (S.start, ts)) (h' : S.Scans ds us) :
    S.Scans (cs ++ ds) (ts ++ us) := by
  obtain ⟨⟨s', pre'⟩, hrun', h'⟩ := bind_eq_some_iff.mp h'
  obtain ⟨post', hflush', h'⟩ := bind_eq_some_iff.mp h'
  obtain rfl := some.inj h'
  unfold Scans scan
  rw [run_append h, hrun']
  simp [hflush']

theorem Scans.of_run (h : S.run S.start cs = some (s, ts)) (hs : S.flush s = some us) :
    S.Scans cs (ts ++ us) := by
  unfold Scans scan
  rw [h]
  simp [hs]

end Scanner

end Data
