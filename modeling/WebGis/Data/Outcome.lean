/-
  Computations that end with a value or an error.
-/
import Mathlib

namespace Data

open List

variable {ε α β σ ε' σ' : Type}

theorem ok_bind (a : α) (f : α → Except ε β) : (Except.ok a >>= f) = f a := rfl

variable {f : α → Except ε β}

theorem bind_eq_ok {x : Except ε α} {b : β} : (x >>= f) = .ok b ↔ ∃ a, x = .ok a ∧ f a = .ok b := by
  cases x with
  | error e => simp [bind, Except.bind]
  | ok a => simp [bind, Except.bind]

/-- A loop that got through kept what each round keeps, of the entries it is done with. -/
theorem foldlM_prefix {f : σ → α → Except ε σ} {Q : List α → σ → Prop}
    (hstep : ∀ done s a s', Q done s → f s a = .ok s' → Q (done ++ [a]) s') {l : List α}
    {s s' : σ} (h : l.foldlM f s = .ok s') (h0 : Q [] s) : Q l s' := by
  suffices hall : ∀ (done l : List α) (s : σ), Q done s → l.foldlM f s = .ok s' → Q (done ++ l) s' from
    hall [] l s h0 h
  intro done l
  induction l generalizing done with
  | nil =>
    intro s hs h
    obtain rfl : s = s' := Except.ok.inj h
    rwa [append_nil]
  | cons a l ih =>
    intro s hs h
    rw [foldlM_cons] at h
    obtain ⟨t, ht, h⟩ := bind_eq_ok.mp h
    have hrest := ih (done ++ [a]) t (hstep done s a t hs ht) h
    rwa [append_assoc, singleton_append] at hrest

/-- A loop whose rounds all succeed in the state they leave succeeds. -/
theorem foldlM_pure {f : σ → α → Except ε σ} {g : σ → α → σ} {P : σ → Prop} {l : List α}
    (hstep : ∀ s a, a ∈ l → P s → f s a = .ok (g s a) ∧ P (g s a)) {s : σ} (hs : P s) :
    l.foldlM f s = .ok (l.foldl g s) := by
  induction l generalizing s with
  | nil => rfl
  | cons a l ih =>
    obtain ⟨ha, hP⟩ := hstep s a mem_cons_self hs
    rw [foldlM_cons, ha, foldl_cons]
    exact ih (fun s b hb => hstep s b (mem_cons_of_mem a hb)) hP

variable {ys : List β} {xs : List α}

/-- Every result of a loop that gets through comes from an entry. -/
theorem mapM_mem (h : xs.mapM f = .ok ys) : ∀ y ∈ ys, ∃ x ∈ xs, f x = .ok y := by
  induction xs generalizing ys with
  | nil =>
    obtain rfl : [] = ys := Except.ok.inj h
    exact fun _ hy => absurd hy not_mem_nil
  | cons x xs ih =>
    rw [mapM_cons, bind_eq_ok] at h
    obtain ⟨z, hz, h⟩ := h
    obtain ⟨zs, hzs, h⟩ := bind_eq_ok.mp h
    obtain rfl : z :: zs = ys := Except.ok.inj h
    refine forall_mem_cons.mpr ⟨⟨x, mem_cons_self, hz⟩, fun y hy => ?_⟩
    obtain ⟨w, hw, hwy⟩ := ih hzs y hy
    exact ⟨w, mem_cons_of_mem x hw, hwy⟩

theorem mapM_some {f : α → Option β} (g : β → α) (h : ∀ b, f (g b) = some b)
    (bs : List β) : (bs.map g).mapM f = some bs := by
  induction bs with
  | nil => rfl
  | cons b bs ih => simp [h b, ih]

theorem mapM_forall₂ (h : xs.mapM f = .ok ys) : List.Forall₂ (fun x y => f x = .ok y) xs ys := by
  induction xs generalizing ys with
  | nil =>
    obtain rfl : [] = ys := Except.ok.inj h
    exact .nil
  | cons x xs ih =>
    rw [mapM_cons, bind_eq_ok] at h
    obtain ⟨y, hy, h⟩ := h
    obtain ⟨ys', hys', h⟩ := bind_eq_ok.mp h
    obtain rfl : y :: ys' = ys := Except.ok.inj h
    exact .cons hy (ih hys')

variable {g : α → Option β}

theorem mapM_option_imp {f : α → Option β} (hfg : ∀ a b, f a = some b → g a = some b)
    (h : xs.mapM f = some ys) : xs.mapM g = some ys := by
  induction xs generalizing ys with
  | nil => exact h
  | cons x xs ih =>
    rw [mapM_cons] at h
    obtain ⟨y, hy, h⟩ := Option.bind_eq_some_iff.mp h
    obtain ⟨ys', hys, h⟩ := Option.bind_eq_some_iff.mp h
    rw [mapM_cons, hfg _ _ hy, ih hys]
    exact h

theorem mapM_some_of_ok (hfg : ∀ a b, f a = .ok b → g a = some b) (h : xs.mapM f = .ok ys) :
    xs.mapM g = some ys := by
  have hall := mapM_forall₂ h
  clear h
  induction hall with
  | nil => rfl
  | cons hx _ ih =>
    rw [mapM_cons, hfg _ _ hx, ih]
    rfl

/-! ## Two computations side by side -/

section Agree

variable {α' β' : Type} {E : ε → ε' → Prop}

/-- Both end with a value and `P` relates the values, or both with an error and `E` relates
    the errors. -/
def Agree (E : ε → ε' → Prop) (P : α → α' → Prop) : Except ε α → Except ε' α' → Prop
  | .ok a, .ok a' => P a a'
  | .error e, .error e' => E e e'
  | _, _ => False

variable {x : Except ε α} {P : α → α' → Prop} {y : Except ε' α'}

theorem Agree.bind {Q : β → β' → Prop} {f : α → Except ε β} {g : α' → Except ε' β'}
    (h : Agree E P x y) (hf : ∀ a a', P a a' → Agree E Q (f a) (g a')) :
    Agree E Q (x >>= f) (y >>= g) := by
  cases x with
  | error e =>
    cases y with
    | error e' => exact h
    | ok a' => exact h.elim
  | ok a =>
    cases y with
    | error e' => exact h.elim
    | ok a' => exact hf a a' h

theorem Agree.imp {Q : α → α' → Prop} {F : ε → ε' → Prop} (h : Agree E P x y)
    (hE : ∀ e e', E e e' → F e e') (hP : ∀ a a', x = .ok a → y = .ok a' → P a a' → Q a a') :
    Agree F Q x y := by
  cases x with
  | error e =>
    cases y with
    | error e' => exact hE e e' h
    | ok a' => exact h.elim
  | ok a =>
    cases y with
    | error e' => exact h.elim
    | ok a' => exact hP a a' rfl rfl h

theorem Agree.error_left (h : Agree E P x y) {e : ε} (hx : x = .error e) :
    ∃ e', y = .error e' ∧ E e e' := by
  subst hx
  cases y with
  | error e' => exact ⟨e', rfl, h⟩
  | ok a' => exact h.elim

theorem Agree.trans {α'' ε'' : Type} {F : ε' → ε'' → Prop} {Q : α' → α'' → Prop}
    {z : Except ε'' α''} (h : Agree E P x y) (h' : Agree F Q y z) :
    Agree (fun e e'' => ∃ e', E e e' ∧ F e' e'') (fun a a'' => ∃ a', P a a' ∧ Q a' a'') x z := by
  cases x with
  | error e =>
    cases y with
    | error e' =>
      cases z with
      | error e'' => exact ⟨e', h, h'⟩
      | ok a'' => exact h'.elim
    | ok a' => exact h.elim
  | ok a =>
    cases y with
    | error e' => exact h.elim
    | ok a' =>
      cases z with
      | error e'' => exact h'.elim
      | ok a'' => exact ⟨a', h, h'⟩

/-- Two loops stay related when each round keeps them so, of the entries they are done with. -/
theorem Agree.foldlM {f : σ → α → Except ε σ} {g : σ' → α' → Except ε' σ'}
    {Q : List α → σ → σ' → Prop} {c : α → α'} {l : List α} {s : σ} {s' : σ'}
    (hstep : ∀ done a s s', a ∈ l → Q done s s' → Agree E (Q (done ++ [a])) (f s a) (g s' (c a)))
    (h0 : Q [] s s') : Agree E (Q l) (l.foldlM f s) ((l.map c).foldlM g s') := by
  suffices hall : ∀ (done rest : List α) (s : σ) (s' : σ'), (∀ a ∈ rest, a ∈ l) → Q done s s' →
      Agree E (Q (done ++ rest)) (rest.foldlM f s) ((rest.map c).foldlM g s') from
    hall [] l s s' (fun _ ha => ha) h0
  intro done rest
  induction rest generalizing done with
  | nil =>
    intro s s' _ hs
    rw [append_nil]
    exact hs
  | cons a rest ih =>
    intro s s' hmem hs
    obtain ⟨ha, hrest⟩ := forall_mem_cons.mp hmem
    rw [foldlM_cons, map_cons, foldlM_cons]
    refine (hstep done a s s' ha hs).bind fun t t' ht => ?_
    have := ih (done ++ [a]) t t' hrest ht
    rwa [append_assoc, singleton_append] at this

end Agree

end Data
