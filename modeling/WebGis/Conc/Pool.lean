/-
  Sequential programs over atomic operations.

  A program is a tree: it stops with a value, or it performs one operation and goes on with
  the answer. The operations are the only points at which other programs can act, so the
  tree of a function that talks to a store has one node for each statement it sends.

  `Prog.alone` runs a program with nobody else acting. `Conc.Pool` interleaves many.

  A pool is a shared state and the programs in flight. A run adds programs and lets any
  program perform its next operation; nothing else happens, so a run is one interleaving
  of the operations. A program that is never scheduled again is one that crashed.

  `Protocol` states what a family of programs promises one another: an invariant of the
  shared state, what process `i` may rely on while others act, and what it guarantees
  about each operation it performs. `Safe` is the obligation of one program. `runs_safe`
  is the rule: when every program admitted is safe, the invariant holds after every run.
  A `guard` restricts the runs to those whose steps meet a condition.
-/
import Mathlib

open List

namespace Conc

/-- A sequential program whose only effects are the atomic operations `Op`. The answer
    to `o` has type `Res o`. -/
inductive Prog (Op : Type) (Res : Op → Type) (α : Type) : Type where
  | ret (a : α)
  | act (o : Op) (k : Res o → Prog Op Res α)

namespace Prog

variable {Op : Type} {Res : Op → Type} {σ α β γ ι : Type}

/-- Sequencing: the value of the first program starts the second. -/
def bind : Prog Op Res α → (α → Prog Op Res β) → Prog Op Res β
  | ret a, f => f a
  | act o k, f => act o fun r => (k r).bind f

instance : Monad (Prog Op Res) where
  pure := ret
  bind := bind

/-- The program that performs `o` and returns its answer. -/
def lift (o : Op) : Prog Op Res (Res o) := act o ret

theorem bind_assoc (p : Prog Op Res α) (f : α → Prog Op Res β) (g : β → Prog Op Res γ) :
    ((p >>= f) >>= g) = (p >>= fun a => f a >>= g) := by
  induction p with
  | ret a => rfl
  | act o k ih => exact congrArg (act o) (funext ih)

theorem bind_ret (p : Prog Op Res α) : (p >>= ret) = p := by
  induction p with
  | ret a => rfl
  | act o k ih => exact congrArg (act o) (funext ih)

/-- The program, its value dropped. -/
def discard (p : Prog Op Res α) : Prog Op Res Unit := p >>= fun _ => ret ()

/-- `f x` for every `x` of the list, in its order. -/
def forEach : List ι → (ι → Prog Op Res Unit) → Prog Op Res Unit
  | [], _ => ret ()
  | x :: xs, f => f x >>= fun _ => forEach xs f

/-- A loop over a list that carries an accumulator. -/
def foldEach : List ι → α → (α → ι → Prog Op Res α) → Prog Op Res α
  | [], a, _ => ret a
  | x :: xs, a, f => f a x >>= fun b => foldEach xs b f

/-! ## Running alone -/

section Alone

variable (exec : σ → (o : Op) → σ × Res o)

/-- The final state and value when no other program acts. -/
def alone : Prog Op Res α → σ → σ × α
  | ret a, s => (s, a)
  | act o k, s => (k (exec s o).2).alone (exec s o).1

theorem alone_bind (p : Prog Op Res α) (f : α → Prog Op Res β) (s : σ) :
    (p >>= f).alone exec s = (f (p.alone exec s).2).alone exec (p.alone exec s).1 := by
  induction p generalizing s with
  | ret a => rfl
  | act o k ih => exact ih (exec s o).2 (exec s o).1

/-- A loop whose rounds act as `g` on the state acts as the fold of `g`. -/
theorem alone_foldEach_state (g : σ → ι → σ) (f : α → ι → Prog Op Res α)
    (hf : ∀ a x s, ((f a x).alone exec s).1 = g s x) (xs : List ι) (a : α) (s : σ) :
    ((foldEach xs a f).alone exec s).1 = xs.foldl g s := by
  induction xs generalizing a s with
  | nil => rfl
  | cons x xs ih => rw [foldEach, alone_bind, ih, hf, foldl_cons]

theorem alone_forEach_state (g : σ → ι → σ) (f : ι → Prog Op Res Unit)
    (hf : ∀ x s, ((f x).alone exec s).1 = g s x) (xs : List ι) (s : σ) :
    ((forEach xs f).alone exec s).1 = xs.foldl g s := by
  induction xs generalizing s with
  | nil => rfl
  | cons x xs ih => rw [forEach, alone_bind, ih, hf, foldl_cons]

end Alone

/-! ## Programs that keep to some operations -/

/-- Every operation the program can perform satisfies `A`. -/
def Uses (A : Op → Prop) : Prog Op Res α → Prop
  | ret _ => True
  | act o k => A o ∧ ∀ r, (k r).Uses A

variable {f : α → Prog Op Res β} {p : Prog Op Res α} {A : Op → Prop}

theorem uses_bind (hp : p.Uses A) (hf : ∀ a, (f a).Uses A) : (p >>= f).Uses A := by
  induction p with
  | ret a => exact hf a
  | act o k ih => exact ⟨hp.1, fun r => ih r (hp.2 r)⟩

theorem Uses.mono {B : Op → Prop} (hp : p.Uses A) (h : ∀ o, A o → B o) : p.Uses B := by
  induction p with
  | ret a => trivial
  | act o k ih => exact ⟨h o hp.1, fun r => ih r (hp.2 r)⟩

/-- What each of the operations leaves as it was, the program leaves as it was. -/
theorem alone_of_uses {exec : σ → (o : Op) → σ × Res o} (view : σ → β)
    (hA : ∀ o s, A o → view (exec s o).1 = view s) (hp : p.Uses A) (s : σ) :
    view (p.alone exec s).1 = view s := by
  induction p generalizing s with
  | ret a => rfl
  | act o k ih => exact (ih _ (hp.2 _) _).trans (hA o s hp.1)

theorem uses_foldEach {f : α → ι → Prog Op Res α} {xs : List ι} (hf : ∀ a, ∀ x ∈ xs, (f a x).Uses A)
    {a : α} : (foldEach xs a f).Uses A := by
  induction xs generalizing a with
  | nil => trivial
  | cons x xs ih =>
    refine uses_bind (hf a x mem_cons_self) fun b => ?_
    exact ih fun a y hy => hf a y (mem_cons_of_mem _ hy)

theorem uses_forEach {f : ι → Prog Op Res Unit} (hf : ∀ x, (f x).Uses A) (xs : List ι) :
    (forEach xs f).Uses A := by
  induction xs with
  | nil => trivial
  | cons x xs ih => exact uses_bind (hf x) fun _ => ih

/-! ## What programs stop with -/

/-- Every value that the program can stop with satisfies `φ`. -/
def Returns (φ : α → Prop) : Prog Op Res α → Prop
  | ret a => φ a
  | act _ k => ∀ r, (k r).Returns φ

theorem returns_bind {φ : β → Prop} (hf : ∀ a, (f a).Returns φ) : (p >>= f).Returns φ := by
  induction p with
  | ret a => exact hf a
  | act o k ih => exact ih

end Prog

/-- How an operation of process `i` acts on the shared state. `Env` is what the outside
    decides at that moment (a failure of the store, for one). -/
abbrev Exec (Op : Type) (Res : Op → Type) (Env σ : Type) : Type :=
  Nat → Env → σ → (o : Op) → σ × Res o

/-- The shared state and the programs in flight, numbered by their position. -/
structure Pool (Op : Type) (Res : Op → Type) (α σ : Type) where
  shared : σ
  procs : List (Prog Op Res α)

variable {Op : Type} {Res : Op → Type} {Env σ α β ι : Type}

namespace Pool

variable (exec : Exec Op Res Env σ)

/-- A new program joins, with the next number. -/
def spawn (P : Pool Op Res α σ) (p : Prog Op Res α) : Pool Op Res α σ :=
  { P with procs := P.procs ++ [p] }

/-- Process `i`, whose next operation is `o`, performs it. -/
def perform (P : Pool Op Res α σ) (i : Nat) (e : Env) (o : Op) (k : Res o → Prog Op Res α) :
    Pool Op Res α σ :=
  { shared := (exec i e P.shared o).1, procs := P.procs.set i (k (exec i e P.shared o).2) }

/-- `Q` is reached from `P` by an interleaving in which only programs of `Adm` join and
    every operation meets `guard` when it is performed. -/
inductive Runs (Adm : Prog Op Res α → Prop) (guard : Nat → Env → σ → Op → Prop) :
    Pool Op Res α σ → Pool Op Res α σ → Prop
  | refl (P : Pool Op Res α σ) : Runs Adm guard P P
  | spawn {P Q : Pool Op Res α σ} {p : Prog Op Res α} :
      Runs Adm guard P Q → Adm p → Runs Adm guard P (Q.spawn p)
  | step {P Q : Pool Op Res α σ} {i : Nat} {e : Env} {o : Op} {k : Res o → Prog Op Res α} :
      Runs Adm guard P Q → Q.procs[i]? = some (.act o k) → guard i e Q.shared o →
      Runs Adm guard P (Q.perform exec i e o k)

/-- The runs without a condition on the steps. -/
def free : Nat → Env → σ → Op → Prop := fun _ _ _ _ => True

/-- One move of a schedule. -/
inductive Move (Op : Type) (Res : Op → Type) (α Env : Type) where
  | spawn (p : Prog Op Res α)
  | step (i : Nat) (e : Env)

/-- Plays one move; a process that has stopped does nothing. -/
def move (P : Pool Op Res α σ) : Move Op Res α Env → Pool Op Res α σ
  | .spawn p => P.spawn p
  | .step i e =>
    match P.procs[i]? with
    | some (.act o k) => P.perform exec i e o k
    | _ => P

/-- Plays a schedule. -/
def play (P : Pool Op Res α σ) (ms : List (Move Op Res α Env)) : Pool Op Res α σ :=
  ms.foldl (move exec) P

/-- A program joins as number `i` and performs `n` operations at once. -/
def solo (i n : Nat) (e : Env) (p : Prog Op Res α) : List (Move Op Res α Env) :=
  .spawn p :: List.replicate n (.step i e)

/-- The programs a schedule starts. -/
def Move.starts : Move Op Res α Env → Option (Prog Op Res α)
  | .spawn p => some p
  | .step _ _ => none

/-- Whether every operation of a schedule meets `guard` when it is performed. -/
def Respects (guard : Nat → Env → σ → Op → Prop) (P : Pool Op Res α σ) :
    List (Move Op Res α Env) → Prop
  | [] => True
  | m :: ms =>
    (∀ i e o k, m = .step i e → P.procs[i]? = some (.act o k) → guard i e P.shared o) ∧
      Respects guard (P.move exec m) ms

/-- `Respects` as a computation. -/
def respects (guard : Nat → Env → σ → Op → Prop) [∀ i e s o, Decidable (guard i e s o)]
    (P : Pool Op Res α σ) : List (Move Op Res α Env) → Bool
  | [] => true
  | .spawn p :: ms => respects guard (P.spawn p) ms
  | .step i e :: ms =>
    match P.procs[i]? with
    | some (.act o k) => guard i e P.shared o && respects guard (P.perform exec i e o k) ms
    | _ => respects guard P ms

variable {guard : Nat → Env → σ → Op → Prop} {P : Pool Op Res α σ}

theorem respects_sound [∀ i e s o, Decidable (guard i e s o)] {ms : List (Move Op Res α Env)}
    (h : P.respects exec guard ms) : P.Respects exec guard ms := by
  induction ms generalizing P with
  | nil => trivial
  | cons m ms ih =>
    cases m with
    | spawn p =>
      refine ⟨fun _ _ _ _ he => ?_, ih h⟩
      cases he
    | step i e =>
      simp only [respects] at h
      split at h
      · rename_i o k hp
        rw [Bool.and_eq_true, decide_eq_true_eq] at h
        refine ⟨fun i' e' o' k' he hp' => ?_, ?_⟩
        · cases he
          rw [hp] at hp'
          cases hp'
          exact h.1
        · simp only [move, hp]
          exact ih h.2
      · rename_i hp
        refine ⟨fun i' e' o' k' he hp' => ?_, ?_⟩
        · cases he
          exact absurd hp' (hp o' k')
        · have hstay : P.move exec (.step i e) = P := by
            rcases hq : P.procs[i]? with _ | p
            · simp only [move, hq]
            cases p with
            | ret a => simp only [move, hq]
            | act o k => exact absurd hq (hp o k)
          rw [hstay]
          exact ih h

theorem respects_free (P : Pool Op Res α σ) (ms : List (Move Op Res α Env)) :
    P.Respects exec free ms := by
  induction ms generalizing P with
  | nil => trivial
  | cons m ms ih => exact ⟨fun _ _ _ _ _ _ => trivial, ih _⟩

variable {Adm : Prog Op Res α → Prop}

/-- A schedule that starts programs of `Adm` only and respects the guard is a run. -/
theorem play_guarded (P : Pool Op Res α σ) (ms : List (Move Op Res α Env))
    (hms : ∀ m ∈ ms, ∀ p, m.starts = some p → Adm p) (hg : P.Respects exec guard ms) :
    Runs exec Adm guard P (P.play exec ms) := by
  suffices h : ∀ Q, Q.Respects exec guard ms → Runs exec Adm guard P Q →
      Runs exec Adm guard P (Q.play exec ms) from h P hg (.refl P)
  clear hg
  induction ms with
  | nil => exact fun Q _ hQ => hQ
  | cons m ms ih =>
    intro Q hg hQ
    refine ih (fun m' hm' => hms m' (mem_cons_of_mem _ hm')) _ hg.2 ?_
    cases m with
    | spawn p => exact hQ.spawn (hms _ mem_cons_self p rfl)
    | step i e =>
      cases hp : Q.procs[i]? with
      | none => simpa only [move, hp] using hQ
      | some p =>
        cases p with
        | ret a => simpa only [move, hp] using hQ
        | act o k => simpa only [move, hp] using hQ.step hp (hg.1 i e o k rfl hp)

/-- A schedule that starts programs of `Adm` only is a run. -/
theorem play_runs (P : Pool Op Res α σ) (ms : List (Move Op Res α Env))
    (hms : ∀ m ∈ ms, ∀ p, m.starts = some p → Adm p) : Runs exec Adm free P (P.play exec ms) :=
  play_guarded exec P ms hms (respects_free exec P ms)

theorem starts_solo {i n : Nat} {e : Env} {p q : Prog Op Res α} {m : Move Op Res α Env}
    (hm : m ∈ solo i n e p) (hq : m.starts = some q) : q = p := by
  rcases mem_cons.mp hm with rfl | hm
  · cases hq
    rfl
  · obtain ⟨-, rfl⟩ := mem_replicate.mp hm
    cases hq

variable {exec}

variable {Q : Pool Op Res α σ}

theorem Runs.trans {R : Pool Op Res α σ} (h1 : Runs exec Adm guard P Q)
    (h2 : Runs exec Adm guard Q R) : Runs exec Adm guard P R := by
  induction h2 with
  | refl => exact h1
  | spawn _ hp ih => exact ih.spawn hp
  | step _ hk hg ih => exact ih.step hk hg

/-- No process is ever removed. -/
theorem Runs.length_le (h : Runs exec Adm guard P Q) : P.procs.length ≤ Q.procs.length := by
  induction h with
  | refl => exact Nat.le_refl _
  | spawn _ _ ih =>
    simp only [Pool.spawn, length_append]
    omega
  | step _ _ _ ih =>
    simp only [Pool.perform, length_set]
    exact ih

/-- A process that has returned stays as it is. -/
theorem Runs.returned (h : Runs exec Adm guard P Q) {i : Nat} {a : α}
    (hi : P.procs[i]? = some (.ret a)) : Q.procs[i]? = some (.ret a) := by
  induction h with
  | refl => exact hi
  | @spawn Q p _ _ ih =>
    have hlt := (List.getElem?_eq_some_iff.mp ih).1
    simp only [Pool.spawn, getElem?_append_left hlt]
    exact ih
  | @step Q j e o k _ hk _ ih =>
    have hne : j ≠ i := by
      intro he
      rw [he, ih] at hk
      cases hk
    simp only [Pool.perform, getElem?_set_ne hne]
    exact ih

theorem Runs.mono {Adm' : Prog Op Res α → Prop} {guard' : Nat → Env → σ → Op → Prop}
    (h : Runs exec Adm guard P Q) (hA : ∀ p, Adm p → Adm' p)
    (hg : ∀ i e s o, guard i e s o → guard' i e s o) : Runs exec Adm' guard' P Q := by
  induction h with
  | refl => exact .refl _
  | spawn _ hp ih => exact ih.spawn (hA _ hp)
  | step _ hk hgd ih => exact ih.step hk (hg _ _ _ _ hgd)

/-- What every operation of `A` preserves holds after every run of programs that keep to
    `A`. -/
theorem Runs.keeps {A : Op → Prop} {I : σ → Prop}
    (hstep : ∀ i e s o, A o → guard i e s o → I s → I (exec i e s o).1)
    (h : Runs exec (Prog.Uses A) guard P Q)
    (hprocs : ∀ (i : Nat) p, P.procs[i]? = some p → Prog.Uses A p) (hP : I P.shared) :
    I Q.shared ∧ ∀ (i : Nat) p, Q.procs[i]? = some p → Prog.Uses A p := by
  induction h with
  | refl => exact ⟨hP, hprocs⟩
  | @spawn Q p _ hp ih =>
    refine ⟨ih.1, fun i q hq => ?_⟩
    simp only [Pool.spawn, getElem?_append] at hq
    split at hq
    · exact ih.2 i q hq
    · have hqp : q = p := by simpa using mem_of_getElem? hq
      rw [hqp]
      exact hp
  | @step Q j e o k _ hk hg ih =>
    obtain ⟨ho, hrest⟩ := ih.2 j _ hk
    refine ⟨hstep j e _ o ho hg ih.1, fun i q hq => ?_⟩
    simp only [Pool.perform, getElem?_set] at hq
    split at hq
    · split at hq
      · cases hq
        exact hrest _
      · cases hq
    · exact ih.2 i q hq

end Pool

/-! ## Rely-guarantee -/

/-- What a family of programs promises one another. -/
structure Protocol (exec : Exec Op Res Env σ) where
  /-- Holds of the shared state between any two operations. -/
  inv : σ → Prop
  /-- What process `i` may assume about the steps of the others. -/
  rely : Nat → σ → σ → Prop
  /-- What process `i` promises about the state in which it performs an operation. -/
  guar : Nat → σ → Op → Prop
  /-- The condition the steps of a run meet. -/
  guard : Nat → Env → σ → Op → Prop
  rely_refl : ∀ i s, rely i s s
  rely_trans : ∀ {i s t u}, rely i s t → rely i t u → rely i s u
  inv_step : ∀ {i e s o}, inv s → guar i s o → guard i e s o → inv (exec i e s o).1
  rely_step : ∀ {i j e s o}, i ≠ j → inv s → guar j s o → guard j e s o →
    rely i s (exec j e s o).1

namespace Protocol

variable {exec : Exec Op Res Env σ} (C : Protocol exec)

/-- Process `i` running this program from `s` keeps its promises whatever the others do,
    and stops only where `Post` holds. -/
def Safe (i : Nat) (Post : α → σ → Prop) : Prog Op Res α → σ → Prop
  | .ret a, s => ∀ s', C.rely i s s' → C.inv s' → Post a s'
  | .act o k, s => ∀ s', C.rely i s s' → C.inv s' → C.guar i s' o ∧
      ∀ e, C.guard i e s' o → Safe i Post (k (exec i e s' o).2) (exec i e s' o).1

/-- Nothing is said about the end. -/
def anyEnd : α → σ → Prop := fun _ _ => True

variable {C} {i : Nat}

theorem safe_ret (a : α) (s : σ) : C.Safe i anyEnd (.ret a) s := fun _ _ _ => trivial

variable {Post : α → σ → Prop} {p : Prog Op Res α} {s : σ}

theorem Safe.later {t : σ} (h : C.Safe i Post p s) (hr : C.rely i s t) : C.Safe i Post p t := by
  cases p with
  | ret a => exact fun s' hs' hi => h s' (C.rely_trans hr hs') hi
  | act o k => exact fun s' hs' hi => h s' (C.rely_trans hr hs') hi

theorem Safe.weaken {Post' : α → σ → Prop} (h : C.Safe i Post p s)
    (hP : ∀ a t, C.inv t → Post a t → Post' a t) : C.Safe i Post' p s := by
  induction p generalizing s with
  | ret a => exact fun s' hs' hi => hP a s' hi (h s' hs' hi)
  | act o k ih =>
    intro s' hs' hi
    obtain ⟨hg, hk⟩ := h s' hs' hi
    exact ⟨hg, fun e he => ih _ (hk e he)⟩

theorem Safe.anyEnd (h : C.Safe i Post p s) : C.Safe i anyEnd p s :=
  h.weaken fun _ _ _ _ => trivial

variable {f : α → Prog Op Res β}

/-- Sequencing: what the first program ends in is what the second starts from. -/
theorem Safe.bind {Mid : α → σ → Prop} {Post : β → σ → Prop} (hp : C.Safe i Mid p s) (hs : C.inv s)
    (hf : ∀ a t, C.inv t → Mid a t → C.Safe i Post (f a) t) : C.Safe i Post (p >>= f) s := by
  induction p generalizing s with
  | ret a => exact hf a s hs (hp s (C.rely_refl i s) hs)
  | act o k ih =>
    intro s' hs' hi
    obtain ⟨hg, hk⟩ := hp s' hs' hi
    exact ⟨hg, fun e he => ih _ (hk e he) (C.inv_step hi hg he)⟩

variable {A : Op → Prop}

/-- A fact that others cannot undo, nor the operations that the program uses, may be carried
    along. -/
theorem Safe.frame (F : σ → Prop) (h : C.Safe i Post p s) (hp : p.Uses A) (hs : F s)
    (hrely : ∀ s t, C.rely i s t → F s → F t)
    (hown : ∀ e s o, C.inv s → C.guar i s o → C.guard i e s o → A o → F s →
      F (exec i e s o).1) : C.Safe i (fun a t => Post a t ∧ F t) p s := by
  induction p generalizing s with
  | ret a => exact fun s' hs' hi => ⟨h s' hs' hi, hrely s s' hs' hs⟩
  | act o k ih =>
    intro s' hs' hi
    obtain ⟨hg, hk⟩ := h s' hs' hi
    exact ⟨hg, fun e he => ih _ (hk e he) (hp.2 _) (hown e s' o hi hg he hp.1 (hrely s s' hs' hs))⟩

/-- What a program stops with by itself is part of what it stops in. -/
theorem Safe.returns {φ : α → Prop} (h : C.Safe i Post p s) (hp : p.Returns φ) :
    C.Safe i (fun a t => Post a t ∧ φ a) p s := by
  induction p generalizing s with
  | ret a => exact fun s' hs' hi => ⟨h s' hs' hi, hp⟩
  | act o k ih =>
    intro s' hs' hi
    obtain ⟨hg, hk⟩ := h s' hs' hi
    exact ⟨hg, fun e he => ih _ (hk e he) (hp _)⟩

/-- A program is safe when each operation it uses is covered by a fact that neither others
    nor these operations can undo. -/
theorem safe_of_fact (F : σ → Prop) (hrely : ∀ s t, C.rely i s t → F s → F t)
    (hguar : ∀ s o, C.inv s → F s → A o → C.guar i s o)
    (hown : ∀ e s o, F s → A o → F (exec i e s o).1) (hp : p.Uses A) (hs : F s) :
    C.Safe i (fun _ t => F t) p s := by
  induction p generalizing s with
  | ret a => exact fun s' hs' _ => hrely s s' hs' hs
  | act o k ih =>
    intro s' hs' hi
    have hF : F s' := hrely s s' hs' hs
    exact ⟨hguar s' o hi hF hp.1, fun e _ => ih _ (hp.2 _) (hown e s' o hF hp.1)⟩

variable (C) in
/-- Safe for every process and from every state with the invariant. -/
def Ok (p : Prog Op Res α) : Prop := ∀ i s, C.inv s → C.Safe i Protocol.anyEnd p s

theorem Ok.ret (a : α) : C.Ok (.ret a) := fun _ s _ => safe_ret a s

/-- An operation that may be performed by anyone at any time. -/
theorem Ok.act {o : Op} {k : Res o → Prog Op Res α} (ho : ∀ i s, C.inv s → C.guar i s o)
    (hk : ∀ r, C.Ok (k r)) : C.Ok (.act o k) :=
  fun i _ _ s' _ hi => ⟨ho i s' hi, fun _ he => hk _ i _ (C.inv_step hi (ho i s' hi) he)⟩

theorem Ok.bind (hp : C.Ok p) (hf : ∀ a, C.Ok (f a)) : C.Ok (p >>= f) :=
  fun i s hs => (hp i s hs).bind hs fun a t ht _ => hf a i t ht

/-- The loop rule with an accumulator, for a property of the items left. -/
theorem Safe.foldEach {f : α → ι → Prog Op Res α} (I : List ι → α → σ → Prop)
    (hf : ∀ x xs a s, C.inv s → I (x :: xs) a s → C.Safe i (fun b t => I xs b t) (f a x) s)
    (hI : ∀ a s t, C.rely i s t → I [] a s → I [] a t) (xs : List ι) {a : α} (hs : C.inv s)
    (h : I xs a s) : C.Safe i (fun b t => I [] b t) (Prog.foldEach xs a f) s := by
  induction xs generalizing a s with
  | nil => exact fun s' hs' _ => hI a s s' hs' h
  | cons x xs ih => exact (hf x xs a s hs h).bind hs fun b t ht hIt => ih ht hIt

/-! ### Stronger invariants -/

variable (C) in
/-- The same promises under a further invariant `J`, in runs whose steps also meet `G`. -/
def strengthen (J : σ → Prop) (G : Nat → Env → σ → Op → Prop)
    (step : ∀ {i e s o}, C.inv s → J s → C.guar i s o → C.guard i e s o → G i e s o →
      J (exec i e s o).1) : Protocol exec where
  inv s := C.inv s ∧ J s
  rely := C.rely
  guar := C.guar
  guard i e s o := C.guard i e s o ∧ G i e s o
  rely_refl := C.rely_refl
  rely_trans := C.rely_trans
  inv_step hs hg he := ⟨C.inv_step hs.1 hg he.1, step hs.1 hs.2 hg he.1 he.2⟩
  rely_step hij hs hg he := C.rely_step hij hs.1 hg he.1

variable {G : Nat → Env → σ → Op → Prop} {J : σ → Prop}
  {step : ∀ {i e s o}, C.inv s → J s → C.guar i s o → C.guard i e s o → G i e s o → J (exec i e s o).1}

theorem Safe.strengthen (h : C.Safe i Post p s) : (C.strengthen J G step).Safe i Post p s := by
  induction p generalizing s with
  | ret a => exact fun s' hs' hi => h s' hs' hi.1
  | act o k ih =>
    intro s' hs' hi
    obtain ⟨hg, hk⟩ := h s' hs' hi.1
    exact ⟨hg, fun e he => ih _ (hk e he.1)⟩

theorem Ok.strengthen (h : C.Ok p) : (C.strengthen J G step).Ok p :=
  fun i s hs => (h i s hs.1).strengthen

/-! ### More to rely on -/

variable (C) in
/-- The same promises where each process may also rely on `L` about the steps of the others. -/
def assume (L : Nat → σ → σ → Prop) (hrefl : ∀ i s, L i s s)
    (htrans : ∀ i s t u, L i s t → L i t u → L i s u)
    (hstep : ∀ i j e s o, i ≠ j → C.inv s → C.guar j s o → C.guard j e s o →
      L i s (exec j e s o).1) : Protocol exec where
  inv := C.inv
  rely i s t := C.rely i s t ∧ L i s t
  guar := C.guar
  guard := C.guard
  rely_refl i s := ⟨C.rely_refl i s, hrefl i s⟩
  rely_trans h h' := ⟨C.rely_trans h.1 h'.1, htrans _ _ _ _ h.2 h'.2⟩
  inv_step := C.inv_step
  rely_step hij hs hg he := ⟨C.rely_step hij hs hg he, hstep _ _ _ _ _ hij hs hg he⟩

theorem Safe.assume {L : Nat → σ → σ → Prop} {hrefl : ∀ i s, L i s s}
    {htrans : ∀ i s t u, L i s t → L i t u → L i s u}
    {hstep : ∀ i j e s o, i ≠ j → C.inv s → C.guar j s o → C.guard j e s o →
      L i s (exec j e s o).1}
    (h : C.Safe i Post p s) : (C.assume L hrefl htrans hstep).Safe i Post p s := by
  induction p generalizing s with
  | ret a => exact fun s' hs' hi => h s' hs'.1 hi
  | act o k ih =>
    intro s' hs' hi
    obtain ⟨hg, hk⟩ := h s' hs'.1 hi
    exact ⟨hg, fun e he => ih _ (hk e he)⟩

/-! ### Runs -/

variable {P Q : Pool Op Res α σ} {Adm : Prog Op Res α → Prop}

variable (C) in
/-- **The interleaving rule, with what programs end in.** If every program that joins a pool that
    was reached is safe there and ends in `Post` of its number, then after every run the invariant
    holds and every program in flight is still safe. -/
theorem runs_joined {Post : Nat → α → σ → Prop} (h : Pool.Runs exec Adm C.guard P Q)
    (hadm : ∀ p R, Adm p → Pool.Runs exec Adm C.guard P R → C.inv R.shared →
      C.Safe R.procs.length (Post R.procs.length) p R.shared) (hP : C.inv P.shared)
    (hsafe : ∀ (i : Nat) p, P.procs[i]? = some p → C.Safe i (Post i) p P.shared) :
    C.inv Q.shared ∧ ∀ (i : Nat) p, Q.procs[i]? = some p → C.Safe i (Post i) p Q.shared := by
  induction h with
  | refl => exact ⟨hP, hsafe⟩
  | @spawn Q p hQ hp ih =>
    obtain ⟨hinv, hall⟩ := ih
    refine ⟨hinv, fun i q hq => ?_⟩
    simp only [Pool.spawn, getElem?_append] at hq
    split at hq
    · exact hall i q hq
    have hlt := (List.getElem?_eq_some_iff.mp hq).1
    rw [length_singleton] at hlt
    have hlast : i = Q.procs.length := by omega
    have hqp : q = p := by simpa using mem_of_getElem? hq
    rw [hqp, hlast]
    exact hadm p Q hp hQ hinv
  | @step Q j e o k _ hk hg ih =>
    obtain ⟨hinv, hall⟩ := ih
    obtain ⟨hguar, hnext⟩ := hall j _ hk Q.shared (C.rely_refl j _) hinv
    refine ⟨C.inv_step hinv hguar hg, fun i q hq => ?_⟩
    simp only [Pool.perform, getElem?_set] at hq ⊢
    split at hq
    · rename_i hij
      split at hq
      · cases hij
        cases hq
        exact hnext e hg
      · cases hq
    · rename_i hij
      exact (hall i q hq).later (C.rely_step (fun he => hij he.symm) hinv hguar hg)

variable (C) in
/-- The rule for programs that are safe under any number that is not taken yet. -/
theorem runs_post {Post : Nat → α → σ → Prop} (h : Pool.Runs exec Adm C.guard P Q)
    (hadm : ∀ p i s, Adm p → P.procs.length ≤ i → C.inv s → C.Safe i (Post i) p s)
    (hP : C.inv P.shared)
    (hsafe : ∀ (i : Nat) p, P.procs[i]? = some p → C.Safe i (Post i) p P.shared) :
    C.inv Q.shared ∧ ∀ (i : Nat) p, Q.procs[i]? = some p → C.Safe i (Post i) p Q.shared :=
  C.runs_joined h (fun p _ hp hR hs => hadm p _ _ hp hR.length_le hs) hP hsafe

variable (C) in
/-- **The interleaving rule.** If every program admitted is safe from every state with the
    invariant, then after every run the invariant holds and every program in flight is
    still safe. -/
theorem runs_safe (h : Pool.Runs exec Adm C.guard P Q) (hadm : ∀ p, Adm p → C.Ok p)
    (hP : C.inv P.shared) (hsafe : ∀ i p, P.procs[i]? = some p → C.Safe i anyEnd p P.shared) :
    C.inv Q.shared ∧ ∀ i p, Q.procs[i]? = some p → C.Safe i anyEnd p Q.shared :=
  C.runs_post h (fun p i s hp _ hs => hadm p hp i s hs) hP hsafe

variable (C) in
/-- The rule for runs that start with no program in flight. -/
theorem runs_inv (h : Pool.Runs exec Adm C.guard ⟨s, []⟩ Q) (hadm : ∀ p, Adm p → C.Ok p)
    (hs : C.inv s) : C.inv Q.shared :=
  (C.runs_safe h hadm hs fun _ _ hp => by cases hp).1

end Protocol

end Conc
