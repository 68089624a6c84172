/-
  A history beside the state.

  `traced exec` keeps, next to the state, every call that was made: by whom, in which state
  and with which operation. Programs cannot read it. Properties of runs that speak about
  the past (the latest claim, what a process last saw) are stated over this log, newest
  call first.
-/
import WebGis.Conc.Pool

namespace Conc

open List

/-- One operation that was performed, with the state it was performed in. -/
structure Call (Op Env σ : Type) where
  who : Nat
  env : Env
  before : σ
  op : Op

/-- A state with the calls that led to it, newest first. -/
structure Traced (Op Env σ : Type) where
  state : σ
  log : List (Call Op Env σ) := []

variable {Op : Type} {Res : Op → Type} {Env σ α : Type}

/-- The operations of `base`, each recorded in the log. -/
def traced (base : Env → σ → (o : Op) → σ × Res o) : Exec Op Res Env (Traced Op Env σ) :=
  fun i e s o => (⟨(base e s.state o).1, ⟨i, e, s.state, o⟩ :: s.log⟩, (base e s.state o).2)

@[simp] theorem traced_state (base : Env → σ → (o : Op) → σ × Res o) (i : Nat) (e : Env)
    (s : Traced Op Env σ) (o : Op) : (traced base i e s o).1.state = (base e s.state o).1 := rfl

@[simp] theorem traced_log (base : Env → σ → (o : Op) → σ × Res o) (i : Nat) (e : Env)
    (s : Traced Op Env σ) (o : Op) :
    (traced base i e s o).1.log = ⟨i, e, s.state, o⟩ :: s.log := rfl

/-- The states passed through, the present one first. -/
def Traced.states (s : Traced Op Env σ) : List σ := s.state :: s.log.map Call.before

section

variable (base : Env → σ → (o : Op) → σ × Res o) (i : Nat) (e : Env) (s : Traced Op Env σ) (o : Op)
include base i e s o

theorem states_traced :
    (traced base i e s o).1.states = (base e s.state o).1 :: s.states := rfl

/-- No state of the past is forgotten. -/
theorem states_subset_traced : ∀ w ∈ s.states, w ∈ (traced base i e s o).1.states :=
  fun _ hw => mem_cons_of_mem _ hw

end

/-! ## Facts about every call -/

/-- `P c earlier` for every call `c` of the log and the calls before it. -/
def Always (P : Call Op Env σ → List (Call Op Env σ) → Prop) :
    List (Call Op Env σ) → Prop
  | [] => True
  | c :: earlier => P c earlier ∧ Always P earlier

theorem Always.split {P : Call Op Env σ → List (Call Op Env σ) → Prop}
    {later earlier : List (Call Op Env σ)} {c : Call Op Env σ}
    (h : Always P (later ++ c :: earlier)) : P c earlier := by
  induction later with
  | nil => exact h.1
  | cons _ _ ih => exact ih h.2

/-! ## The calls of one process -/

/-- The calls of process `i`. -/
def own (i : Nat) (log : List (Call Op Env σ)) : List (Call Op Env σ) :=
  log.filter fun c => c.who = i

theorem own_cons_self (c : Call Op Env σ) (log : List (Call Op Env σ)) :
    own c.who (c :: log) = c :: own c.who log := by
  simp [own]

theorem own_cons_ne {i : Nat} {c : Call Op Env σ} (h : c.who ≠ i)
    (log : List (Call Op Env σ)) : own i (c :: log) = own i log := by
  simp [own, h]

/-- Every call was made by a process of the pool. -/
theorem who_lt {base : Env → σ → (o : Op) → σ × Res o} {Adm : Prog Op Res α → Prop}
    {guard : Nat → Env → Traced Op Env σ → Op → Prop} {P Q : Pool Op Res α (Traced Op Env σ)}
    (h : Pool.Runs (traced base) Adm guard P Q) (hP : ∀ c ∈ P.shared.log, c.who < P.procs.length) :
    ∀ c ∈ Q.shared.log, c.who < Q.procs.length := by
  induction h with
  | refl => exact hP
  | spawn _ _ ih =>
    intro c hc
    have hlt := ih c hc
    simp only [Pool.spawn, length_append]
    omega
  | @step Q i e o k _ hk _ ih =>
    intro c hc
    simp only [Pool.perform, length_set]
    rcases mem_cons.mp hc with rfl | hc
    · exact (List.getElem?_eq_some_iff.mp hk).1
    · exact ih c hc

/-- A process that has not joined yet has made no call. -/
theorem own_eq_nil {i : Nat} {log : List (Call Op Env σ)} (h : ∀ c ∈ log, c.who < i) :
    own i log = [] := by
  unfold own
  rw [filter_eq_nil_iff]
  intro c hc
  have hlt := h c hc
  simp only [decide_eq_true_eq]
  omega

end Conc
