/-
  Leases on resources, with an expiry each.

  A register says for each resource of a scope who has it until when. What is expired may still
  be written in a register, or be swept from it: two registers that agree from now on
  (`SameFrom`) are the same to everyone who asks later. `Lawful` is what one operation may do;
  `holder_of_holds` and `Limited.step` carry exclusion and the limit of a client along a run.
-/
import Mathlib

namespace Data.Leasing

open Option

variable {σ ρ χ τ : Type} [LinearOrder τ]

/-- Who has a resource, and the last instant at which. -/
structure Term (χ τ : Type) where
  client : χ
  expiry : τ

abbrev Register (σ ρ χ τ : Type) : Type := σ → ρ → Option (Term χ τ)

namespace Register

variable (R : Register σ ρ χ τ)

/-- The term that is not over. -/
def live (now : τ) (s : σ) (r : ρ) : Option (Term χ τ) := (R s r).filter (now ≤ ·.expiry)

def holder (now : τ) (s : σ) (r : ρ) : Option χ := (R.live now s r).map Term.client

/-- The register with another entry for one resource. -/
noncomputable def assign (s : σ) (r : ρ) (v : Option (Term χ τ)) : Register σ ρ χ τ :=
  open Classical in fun s' r' => if s' = s ∧ r' = r then v else R s' r'

end Register

/-- The registers do not differ in what is not over. -/
def SameFrom (now : τ) (R R' : Register σ ρ χ τ) : Prop := ∀ s r, R.live now s r = R'.live now s r

section

variable {R R' R'' : Register σ ρ χ τ} {now t : τ}

theorem SameFrom.refl (R : Register σ ρ χ τ) : SameFrom now R R := fun _ _ => rfl

theorem SameFrom.symm (h : SameFrom now R R') : SameFrom now R' R := fun s r => (h s r).symm

theorem SameFrom.trans (h : SameFrom now R R') (h' : SameFrom now R' R'') : SameFrom now R R'' :=
  fun s r => (h s r).trans (h' s r)

/-- What is not over later is not over now. -/
theorem live_of_le (hle : now ≤ t) (s : σ) (r : ρ) :
    R.live t s r = (R.live now s r).filter (t ≤ ·.expiry) := by
  unfold Register.live
  cases R s r with
  | none => rfl
  | some v =>
    by_cases hv : t ≤ v.expiry
    · simp [Option.filter, hv, hle.trans hv]
    · by_cases hn : now ≤ v.expiry <;> simp [Option.filter, hv, hn]

theorem SameFrom.later (h : SameFrom now R R') (hle : now ≤ t) : SameFrom t R R' := by
  intro s r
  rw [live_of_le hle, live_of_le hle, h s r]

theorem SameFrom.holder (h : SameFrom now R R') (s : σ) (r : ρ) :
    R.holder now s r = R'.holder now s r := by
  unfold Register.holder
  rw [h s r]

variable {s : σ} {r : ρ}

theorem holder_eq_some {c : χ} :
    R.holder now s r = some c ↔ ∃ v, R s r = some v ∧ now ≤ v.expiry ∧ v.client = c := by
  unfold Register.holder Register.live
  cases R s r with
  | none => simp
  | some v => by_cases hv : now ≤ v.expiry <;> simp [Option.filter, hv]

/-- Who holds a resource later holds it now. -/
theorem holder_of_later (hle : now ≤ t) {c : χ} (h : R.holder t s r = some c) :
    R.holder now s r = some c := by
  obtain ⟨v, hv, ht, hc⟩ := holder_eq_some.mp h
  exact holder_eq_some.mpr ⟨v, hv, hle.trans ht, hc⟩

omit [LinearOrder τ] in
theorem assign_self (s : σ) (r : ρ) (v : Option (Term χ τ)) : R.assign s r v s r = v := by
  simp [Register.assign]

omit [LinearOrder τ] in
theorem assign_ne {s' : σ} {r' : ρ} (v : Option (Term χ τ)) (h : ¬ (s' = s ∧ r' = r)) :
    R.assign s r v s' r' = R s' r' := by
  simp [Register.assign, h]

theorem holder_assign_ne {s' : σ} {r' : ρ} (v : Option (Term χ τ)) (h : ¬ (s' = s ∧ r' = r)) :
    (R.assign s r v).holder now s' r' = R.holder now s' r' := by
  unfold Register.holder Register.live
  rw [assign_ne v h]

theorem SameFrom.assign (h : SameFrom now R R') (s : σ) (r : ρ) (v : Option (Term χ τ)) :
    SameFrom now (R.assign s r v) (R'.assign s r v) := by
  intro s' r'
  by_cases hsr : s' = s ∧ r' = r
  · obtain ⟨rfl, rfl⟩ := hsr
    unfold Register.live
    rw [assign_self, assign_self]
  · have hlive := h s' r'
    unfold Register.live at hlive ⊢
    rw [assign_ne v hsr, assign_ne v hsr]
    exact hlive

end

/-! ## Operations -/

inductive Op (σ ρ χ : Type) where
  | acquire (s : σ) (r : ρ) (c : χ)
  | renew (s : σ) (r : ρ) (c : χ)
  | release (s : σ) (r : ρ) (c : χ)
  | sweep

/-- An operation at an instant, and whether it was granted. -/
structure Event (σ ρ χ τ : Type) where
  time : τ
  op : Op σ ρ χ
  granted : Bool

/-- The event leaves the resource with the client. -/
def Event.Gives (e : Event σ ρ χ τ) (s : σ) (r : ρ) (c : χ) : Prop :=
  (e.op = .acquire s r c ∨ e.op = .renew s r c) ∧ e.granted = true

/-- The client gives the resource back. -/
def Event.Ends (e : Event σ ρ χ τ) (s : σ) (r : ρ) (c : χ) : Prop :=
  e.op = .release s r c ∧ e.granted = true

/-- The client has been granted the resource until `t` at least, and has not given it back. The
    latest event comes first; `stamp` is the expiry of a grant. -/
def Holds (stamp : τ → τ) : List (Event σ ρ χ τ) → χ → σ → ρ → τ → Prop
  | [], _, _, _, _ => False
  | e :: h, c, s, r, t =>
    e.Gives s r c ∧ t ≤ stamp e.time ∨ ¬ e.Ends s r c ∧ Holds stamp h c s r t

/-- The client holds fewer resources of the scope than the limit. -/
def Room (limit : Nat) (R : Register σ ρ χ τ) (now : τ) (s : σ) (c : χ) : Prop :=
  ∀ rs : Finset ρ, (∀ r ∈ rs, R.holder now s r = some c) → rs.card < limit

/-- No client holds more resources of a scope than the limit. -/
def Limited (limit : Nat) (R : Register σ ρ χ τ) (now : τ) : Prop :=
  ∀ s c, ∀ rs : Finset ρ, (∀ r ∈ rs, R.holder now s r = some c) → rs.card ≤ limit

/-- The resource is the client's, or nobody's while the client has room. -/
def Grants (limit : Nat) (R : Register σ ρ χ τ) (now : τ) (s : σ) (r : ρ) (c : χ) : Prop :=
  R.holder now s r = some c ∨ R.holder now s r = none ∧ Room limit R now s c

/-- What an operation may do to the register. -/
inductive Lawful (limit : Nat) (stamp : τ → τ) (R R' : Register σ ρ χ τ) :
    Event σ ρ χ τ → Prop where
  | acquired {now s r c} : Grants limit R now s r c →
      SameFrom now R' (R.assign s r (some ⟨c, stamp now⟩)) →
      Lawful limit stamp R R' ⟨now, .acquire s r c, true⟩
  | renewed {now s r c} : R.holder now s r = some c →
      SameFrom now R' (R.assign s r (some ⟨c, stamp now⟩)) →
      Lawful limit stamp R R' ⟨now, .renew s r c, true⟩
  | released {now s r c} : R.holder now s r = none ∨ R.holder now s r = some c →
      SameFrom now R' (R.assign s r none) → Lawful limit stamp R R' ⟨now, .release s r c, true⟩
  | refused {now op} : SameFrom now R' R → Lawful limit stamp R R' ⟨now, op, false⟩
  | swept {now} : SameFrom now R' R → Lawful limit stamp R R' ⟨now, .sweep, true⟩

section

variable {limit : Nat} {stamp : τ → τ} {R R' : Register σ ρ χ τ} {e : Event σ ρ χ τ}
  {h : List (Event σ ρ χ τ)} {last : τ}

/-- The register knows every holder. -/
def Known (stamp : τ → τ) (h : List (Event σ ρ χ τ)) (R : Register σ ρ χ τ) (last : τ) : Prop :=
  ∀ c s r t, last ≤ t → Holds stamp h c s r t → R.holder t s r = some c

variable {c : χ} {s : σ} {r : ρ}

/-- Who is given a resource is its holder from then on, or nobody was before. -/
theorem Lawful.gives (hl : Lawful limit stamp R R' e) (hg : e.Gives s r c) :
    (R.holder e.time s r = some c ∨ R.holder e.time s r = none) ∧
      SameFrom e.time R' (R.assign s r (some ⟨c, stamp e.time⟩)) := by
  obtain ⟨hop, hgranted⟩ := hg
  cases hl with
  | acquired hgrants hsame =>
    obtain hop | hop := hop <;> cases hop
    exact ⟨hgrants.imp_right And.left, hsame⟩
  | renewed hholder hsame =>
    obtain hop | hop := hop <;> cases hop
    exact ⟨.inl hholder, hsame⟩
  | released _ _ => obtain hop | hop := hop <;> cases hop
  | refused _ => cases hgranted
  | swept _ => obtain hop | hop := hop <;> cases hop

/-- A client whose lease is not over keeps it, unless it gives it back or is given it anew. -/
theorem Lawful.keeps (hl : Lawful limit stamp R R' e) (hc : R.holder e.time s r = some c)
    (hend : ¬ e.Ends s r c) (hgive : ¬ e.Gives s r c) {t : τ} (ht : e.time ≤ t)
    (hlater : R.holder t s r = some c) : R'.holder t s r = some c := by
  have hassign {s' : σ} {r' : ρ} {c' : χ} {v : Option (Term χ τ)}
      (hfree : R.holder e.time s' r' = none ∨ R.holder e.time s' r' = some c')
      (hne : c' ≠ c) (hsame : SameFrom e.time R' (R.assign s' r' v)) :
      R'.holder t s r = some c := by
    have hother : ¬ (s = s' ∧ r = r') := by
      rintro ⟨rfl, rfl⟩
      rw [hc] at hfree
      obtain hfree | hfree := hfree
      · cases hfree
      · exact hne (some.inj hfree).symm
    rw [(hsame.later ht).holder, holder_assign_ne v hother]
    exact hlater
  have hself {s' : σ} {r' : ρ} {v : Option (Term χ τ)} (hne : ¬ (s = s' ∧ r = r'))
      (hsame : SameFrom e.time R' (R.assign s' r' v)) : R'.holder t s r = some c := by
    rw [(hsame.later ht).holder, holder_assign_ne v hne]
    exact hlater
  cases hl with
  | @acquired now s' r' c' hgrants hsame =>
    by_cases hcc : c' = c
    · refine hself ?_ hsame
      rintro ⟨rfl, rfl⟩
      exact hgive ⟨.inl (by rw [hcc]), rfl⟩
    · exact hassign (hgrants.imp_right And.left).symm hcc hsame
  | @renewed now s' r' c' hholder hsame =>
    by_cases hcc : c' = c
    · refine hself ?_ hsame
      rintro ⟨rfl, rfl⟩
      exact hgive ⟨.inr (by rw [hcc]), rfl⟩
    · exact hassign (.inr hholder) hcc hsame
  | @released now s' r' c' hfree hsame =>
    by_cases hcc : c' = c
    · refine hself ?_ hsame
      rintro ⟨rfl, rfl⟩
      exact hend ⟨by rw [hcc], rfl⟩
    · exact hassign hfree hcc hsame
  | refused hsame =>
    rw [(hsame.later ht).holder]
    exact hlater
  | swept hsame =>
    rw [(hsame.later ht).holder]
    exact hlater

/-- A lease lasts no longer than one that were granted now. -/
theorem le_of_holds (hmono : Monotone stamp) {t : τ} (htimes : ∀ e ∈ h, e.time ≤ last)
    (hh : Holds stamp h c s r t) : t ≤ stamp last := by
  induction h with
  | nil => exact absurd hh id
  | cons e h ih =>
    obtain ⟨_, hexpiry⟩ | ⟨_, hbefore⟩ := hh
    · exact hexpiry.trans (hmono (htimes e List.mem_cons_self))
    · exact ih (fun e' he => htimes e' (List.mem_cons_of_mem e he)) hbefore

theorem Holds.earlier {now t : τ} (hle : now ≤ t) (hh : Holds stamp h c s r t) :
    Holds stamp h c s r now := by
  induction h with
  | nil => exact hh
  | cons e h ih => exact hh.imp (And.imp_right hle.trans) (And.imp_right ih)

/-- The register knows the holders after the event too. -/
theorem Known.step (hmono : Monotone stamp) (hk : Known stamp h R last)
    (htimes : ∀ e' ∈ h, e'.time ≤ e.time) (hle : last ≤ e.time)
    (hl : Lawful limit stamp R R' e) : Known stamp (e :: h) R' e.time := by
  intro c s r t ht hholds
  by_cases hgive : e.Gives s r c
  · obtain ⟨_, hsame⟩ := hl.gives hgive
    have hexpiry : t ≤ stamp e.time := by
      obtain ⟨_, hexpiry⟩ | ⟨_, hbefore⟩ := hholds
      · exact hexpiry
      · exact le_of_holds hmono htimes hbefore
    rw [(hsame.later ht).holder]
    exact holder_eq_some.mpr ⟨_, assign_self _ _ _, hexpiry, rfl⟩
  · obtain ⟨hg, _⟩ | ⟨hend, hbefore⟩ := hholds
    · exact absurd hg hgive
    have hlater := hk c s r t (hle.trans ht) hbefore
    exact hl.keeps (holder_of_later ht hlater) hend hgive ht hlater

theorem Limited.sameFrom (hlim : Limited limit R last) (hsame : SameFrom last R' R) :
    Limited limit R' last := by
  intro s c rs hrs
  refine hlim s c rs fun r hr => ?_
  rw [← hsame.holder]
  exact hrs r hr

theorem Limited.later {now : τ} (hlim : Limited limit R last) (hle : last ≤ now) :
    Limited limit R now :=
  fun s c rs hrs => hlim s c rs fun r hr => holder_of_later hle (hrs r hr)

/-- One more resource for a client that holds it, or that has room. -/
theorem Limited.assign {now : τ} {expiry : τ} (hlim : Limited limit R now)
    (hg : R.holder now s r = some c ∨ Room limit R now s c) :
    Limited limit (R.assign s r (some ⟨c, expiry⟩)) now := by
  classical
  intro s' c' rs hrs
  have hbefore : ∀ r' ∈ rs.erase r, s' = s → R.holder now s' r' = some c' := by
    intro r' hr' _
    obtain ⟨hne, hmem⟩ := Finset.mem_erase.mp hr'
    rw [← holder_assign_ne (some ⟨c, expiry⟩) (fun h => hne h.2)]
    exact hrs r' hmem
  by_cases hs : s' = s
  · by_cases hmem : r ∈ rs
    · have hc : c = c' := by
        have hnew := hrs r hmem
        rw [hs] at hnew
        obtain ⟨v, hv, _, hc⟩ := holder_eq_some.mp hnew
        rw [assign_self] at hv
        cases hv
        exact hc
      subst hc hs
      obtain hold | hroom := hg
      · refine hlim s' c rs fun r' hr' => ?_
        by_cases hr : r' = r
        · rw [hr]
          exact hold
        · exact hbefore r' (Finset.mem_erase.mpr ⟨hr, hr'⟩) rfl
      · have hcard := hroom (rs.erase r) fun r' hr' => hbefore r' hr' rfl
        have herase := Finset.card_erase_add_one hmem
        omega
    · refine hlim s' c' rs fun r' hr' => hbefore r' (Finset.mem_erase.mpr ⟨?_, hr'⟩) hs
      rintro rfl
      exact hmem hr'
  · refine hlim s' c' rs fun r' hr' => ?_
    rw [← holder_assign_ne (some ⟨c, expiry⟩) (fun h => hs h.1)]
    exact hrs r' hr'

theorem Limited.assign_none {now : τ} (hlim : Limited limit R now) :
    Limited limit (R.assign s r none) now := by
  intro s' c' rs hrs
  refine hlim s' c' rs fun r' hr' => ?_
  have hr := hrs r' hr'
  by_cases hsr : s' = s ∧ r' = r
  · obtain ⟨rfl, rfl⟩ := hsr
    obtain ⟨v, hv, _⟩ := holder_eq_some.mp hr
    rw [assign_self] at hv
    cases hv
  · rwa [holder_assign_ne none hsr] at hr

theorem Limited.step (hlim : Limited limit R last) (hle : last ≤ e.time)
    (hl : Lawful limit stamp R R' e) : Limited limit R' e.time := by
  have hnow := hlim.later hle
  cases hl with
  | acquired hgrants hsame =>
    exact (hnow.assign (hgrants.imp_right And.right)).sameFrom hsame
  | renewed hholder hsame => exact (hnow.assign (.inl hholder)).sameFrom hsame
  | released _ hsame => exact hnow.assign_none.sameFrom hsame
  | refused hsame => exact hnow.sameFrom hsame
  | swept hsame => exact hnow.sameFrom hsame

/-- Who gives back what it does not hold changes nothing. -/
theorem Lawful.unheld (hl : Lawful limit stamp R R' e) (hop : e.op = .release s r c)
    (hne : R.holder e.time s r ≠ some c) : SameFrom e.time R' R := by
  cases hl with
  | acquired _ _ => cases hop
  | renewed _ _ => cases hop
  | @released now s' r' c' hfree hsame =>
    cases hop
    have hnone : R.live now s r = none := by
      have hholder := hfree.resolve_right hne
      exact map_eq_none_iff.mp hholder
    refine hsame.trans fun s' r' => ?_
    by_cases hsr : s' = s ∧ r' = r
    · obtain ⟨rfl, rfl⟩ := hsr
      rw [hnone, Register.live, assign_self]
      rfl
    · unfold Register.live
      rw [assign_ne none hsr]
  | refused hsame => exact hsame
  | swept hsame => exact hsame

/-- Nothing is given to a second client before the lease of the first is over. -/
theorem Known.not_given (hk : Known stamp h R last) (hle : last ≤ e.time)
    (hl : Lawful limit stamp R R' e) {c' : χ} (hc : Holds stamp h c s r e.time)
    (hg : e.Gives s r c') : c' = c := by
  have hholder := hk c s r e.time hle hc
  obtain ⟨hfree | hfree, _⟩ := hl.gives hg
  · rw [hholder] at hfree
    exact (some.inj hfree).symm
  · rw [hholder] at hfree
    cases hfree

end

end Data.Leasing
