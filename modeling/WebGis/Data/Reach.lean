/-
  Search along a successor function with a stack, and minimal elements of finite acyclic
  relations.

  `search` is the loop that pops a node, collects its unseen successors and pushes them.
  With fuel for every push it returns exactly what can be reached from the seeds by one
  step or more (`mem_search`), whatever cycles there are. `mark` is the recursion that marks
  a node of a given set and then its successors; it marks what the seeds reach inside the set
  (`mem_mark`). `spread` is the loop that takes a popped node in unless it is there already and
  pushes all its targets; it takes in the seeds and what they lead to (`mem_spread`).
-/
import Mathlib

namespace Data

open Relation List

section Search

variable {α : Type} [DecidableEq α]

/-- An unseen successor is collected and pushed. -/
def visit (acc : List α × List α) (x : α) : List α × List α :=
  if x ∈ acc.2 then acc else (x :: acc.1, acc.2 ++ [x])

/-- The loop over the stack; `out` is what was collected. -/
def search (next : α → List α) : Nat → List α → List α → List α
  | 0, _, out => out
  | _ + 1, [], out => out
  | fuel + 1, cur :: stack, out =>
    search next fuel ((next cur).foldl visit (stack, out)).1
      ((next cur).foldl visit (stack, out)).2

/-- How many entries of `U` are not yet in `out`. -/
def missing (U out : List α) : Nat := (U.filter (· ∉ out)).length

theorem missing_append_lt {U out : List α} {x : α} (hU : x ∈ U) (hx : x ∉ out) :
    missing U (out ++ [x]) < missing U out := by
  have hfilter : U.filter (· ∉ out ++ [x]) = (U.filter (· ∉ out)).filter (· ≠ x) := by
    rw [filter_filter]
    refine filter_congr fun y _ => ?_
    simp [and_comm]
  unfold missing
  rw [hfilter, length_filter_lt_length_iff_exists]
  exact ⟨x, mem_filter.mpr ⟨hU, by simpa using hx⟩, by simp⟩

/-- What one round over the successors `xs` does to the stack and to what was collected. -/
structure Visited (xs : List α) (acc acc' : List α × List α) : Prop where
  stack : ∀ y ∈ acc.1, y ∈ acc'.1
  out : ∀ y ∈ acc.2, y ∈ acc'.2
  all : ∀ y ∈ xs, y ∈ acc'.2
  new : ∀ y ∈ acc'.2, y ∈ acc.2 ∨ (y ∈ xs ∧ y ∈ acc'.1)
  pushed : ∀ y ∈ acc'.1, y ∈ acc.1 ∨ y ∈ xs

theorem visited_foldl (xs : List α) (acc : List α × List α) :
    Visited xs acc (xs.foldl visit acc) := by
  induction xs generalizing acc with
  | nil => exact ⟨fun _ h => h, fun _ h => h, by simp, fun _ h => .inl h, fun _ h => .inl h⟩
  | cons x xs ih =>
    rw [foldl_cons]
    have h := ih (visit acc x)
    unfold visit at h ⊢
    split at h
    · rename_i hx
      rw [if_pos hx]
      refine ⟨h.stack, h.out, ?_, ?_, ?_⟩
      · exact forall_mem_cons.mpr ⟨h.out x hx, h.all⟩
      · exact fun y hy => (h.new y hy).imp_right fun hn => ⟨mem_cons_of_mem _ hn.1, hn.2⟩
      · exact fun y hy => (h.pushed y hy).imp_right (mem_cons_of_mem _)
    · rename_i hx
      rw [if_neg hx]
      have hxo : x ∈ acc.2 ++ [x] := mem_append_right _ (mem_singleton_self x)
      refine ⟨?_, ?_, ?_, ?_, ?_⟩
      · exact fun y hy => h.stack y (mem_cons_of_mem _ hy)
      · exact fun y hy => h.out y (mem_append_left _ hy)
      · exact forall_mem_cons.mpr ⟨h.out x hxo, h.all⟩
      · intro y hy
        rcases h.new y hy with hy | hn
        · rcases mem_append.mp hy with hy | hy
          · exact .inl hy
          obtain rfl := mem_singleton.mp hy
          exact .inr ⟨mem_cons_self, h.stack y mem_cons_self⟩
        · exact .inr ⟨mem_cons_of_mem _ hn.1, hn.2⟩
      · intro y hy
        rcases h.pushed y hy with hy | hy
        · rcases mem_cons.mp hy with rfl | hy
          · exact .inr mem_cons_self
          · exact .inl hy
        · exact .inr (mem_cons_of_mem _ hy)

/-- Every push is paid for by an entry that is no longer missing. -/
theorem measure_foldl {U : List α} (xs : List α) (hU : ∀ x ∈ xs, x ∈ U) (acc : List α × List α) :
    (xs.foldl visit acc).1.length + missing U (xs.foldl visit acc).2 ≤
      acc.1.length + missing U acc.2 := by
  induction xs generalizing acc with
  | nil => exact Nat.le_refl _
  | cons x xs ih =>
    rw [foldl_cons]
    have hrest := ih (fun y hy => hU y (mem_cons_of_mem _ hy)) (visit acc x)
    have hone : (visit acc x).1.length + missing U (visit acc x).2 ≤
        acc.1.length + missing U acc.2 := by
      unfold visit
      split
      · exact Nat.le_refl _
      rename_i hx
      have hlt := missing_append_lt (hU x mem_cons_self) hx
      show (x :: acc.1).length + missing U (acc.2 ++ [x]) ≤ _
      rw [length_cons]
      omega
    omega

variable {next : α → List α} {U : List α} (hU : ∀ a, ∀ b ∈ next a, b ∈ U)

include hU

/-- With fuel for every push the result holds the successors of all that was to be
    expanded (`D`) and of all that it collected. -/
theorem search_closed (fuel : Nat) (stack out : List α) (D : α → Prop)
    (hD : ∀ y, D y → y ∈ stack ∨ ∀ z ∈ next y, z ∈ out) (hout : ∀ y ∈ out, D y)
    (hfuel : stack.length + missing U out ≤ fuel) :
    (∀ y ∈ out, y ∈ search next fuel stack out) ∧
      ∀ y, D y ∨ y ∈ search next fuel stack out →
        ∀ z ∈ next y, z ∈ search next fuel stack out := by
  have hdone : ∀ fuel, (∀ y, D y → ∀ z ∈ next y, z ∈ out) →
      search next fuel ([] : List α) out = out →
      (∀ y ∈ out, y ∈ search next fuel [] out) ∧
        ∀ y, D y ∨ y ∈ search next fuel [] out → ∀ z ∈ next y, z ∈ search next fuel [] out := by
    intro fuel h hs
    rw [hs]
    exact ⟨fun _ hy => hy, fun y hy => h y (hy.elim id (hout y))⟩
  induction fuel generalizing stack out D with
  | zero =>
    have hnil : stack = [] := eq_nil_of_length_eq_zero (by omega)
    subst hnil
    exact hdone 0 (fun y hy => (hD y hy).resolve_left not_mem_nil) rfl
  | succ fuel ih =>
    cases stack with
    | nil => exact hdone _ (fun y hy => (hD y hy).resolve_left not_mem_nil) rfl
    | cons cur stack =>
      rw [search]
      have hv := visited_foldl (next cur) (stack, out)
      have hm := measure_foldl (next cur) (hU cur) (stack, out)
      obtain ⟨hsub, hclosed⟩ := ih _ _ (fun y => D y ∨ y ∈ ((next cur).foldl visit (stack, out)).2)
        (by
          rintro y (hy | hy)
          · rcases hD y hy with hs | hs
            · rcases mem_cons.mp hs with rfl | hs
              · exact .inr hv.all
              · exact .inl (hv.stack y hs)
            · exact .inr fun z hz => hv.out z (hs z hz)
          · rcases hv.new y hy with ho | hn
            · rcases hD y (hout y ho) with hs | hs
              · rcases mem_cons.mp hs with rfl | hs
                · exact .inr hv.all
                · exact .inl (hv.stack y hs)
              · exact .inr fun z hz => hv.out z (hs z hz)
            · exact .inl hn.2)
        (fun y hy => .inr hy)
        (by
          rw [length_cons] at hfuel
          exact hm.trans (by dsimp only; omega))
        (by
          intro fuel h hs
          rw [hs]
          exact ⟨fun _ hy => hy, fun y hy => h y (hy.elim id .inr)⟩)
      refine ⟨fun y hy => hsub y (hv.out y hy), fun y hy => hclosed y ?_⟩
      exact hy.elim (fun h => .inl (.inl h)) .inr

omit hU in
/-- Whatever is collected was reached. -/
theorem search_sound (R : α → Prop) (hR : ∀ y, R y → ∀ z ∈ next y, R z) (fuel : Nat)
    (stack out : List α) (P : α → Prop) (hP : ∀ y, P y → ∀ z ∈ next y, R z)
    (hstack : ∀ y ∈ stack, P y ∨ R y) (hout : ∀ y ∈ out, R y) :
    ∀ y ∈ search next fuel stack out, R y := by
  induction fuel generalizing stack out with
  | zero => exact hout
  | succ fuel ih =>
    cases stack with
    | nil => exact hout
    | cons cur stack =>
      rw [search]
      have hv := visited_foldl (next cur) (stack, out)
      have hcur : ∀ z ∈ next cur, R z :=
        (hstack cur mem_cons_self).elim (hP cur) (hR cur)
      refine ih _ _ (fun y hy => ?_) fun y hy => ?_
      · rcases hv.pushed y hy with hs | hn
        · exact hstack y (mem_cons_of_mem _ hs)
        · exact .inr (hcur y hn)
      · rcases hv.new y hy with ho | hn
        · exact hout y ho
        · exact hcur y hn.1

/-- The search finds exactly what the seeds reach in one step or more. -/
theorem mem_search {seeds : List α} {fuel : Nat} (hfuel : seeds.length + U.length ≤ fuel) {x : α} :
    x ∈ search next fuel seeds [] ↔ ∃ s ∈ seeds, TransGen (fun a b => b ∈ next a) s x := by
  constructor
  · intro hx
    refine search_sound (fun y => ∃ s ∈ seeds, TransGen (fun a b => b ∈ next a) s y) ?_ fuel seeds []
      (· ∈ seeds) ?_ (fun y hy => .inl hy) (by simp) x hx
    · rintro y ⟨s, hs, hsy⟩ z hz
      exact ⟨s, hs, hsy.tail hz⟩
    · exact fun y hy z hz => ⟨y, hy, .single hz⟩
  · rintro ⟨s, hs, hsx⟩
    have hmissing : missing U ([] : List α) ≤ U.length := length_filter_le _ _
    obtain ⟨-, hclosed⟩ := search_closed hU fuel seeds [] (· ∈ seeds) (fun y hy => .inl hy)
      (by simp) (by omega)
    induction hsx with
    | single h => exact hclosed s (.inl hs) _ h
    | tail _ h ih => exact hclosed _ (.inr ih) _ h

end Search

/-! ## Marking -/

section Mark

variable {α : Type} [DecidableEq α] (next : α → List α) (U : List α)

/-- A node of `U` that is not marked yet is marked, then its successors are. -/
def mark : Nat → List α → α → List α
  | 0, marked, _ => marked
  | fuel + 1, marked, x =>
    if x ∈ marked ∨ x ∉ U then marked else (next x).foldl (mark fuel) (x :: marked)

/-- `b` is a successor of `a` and in `U`. -/
def Within (a b : α) : Prop := b ∈ next a ∧ b ∈ U

/-- What marking the nodes `xs` and all below them makes of the marks. -/
structure Marking (xs marked out : List α) : Prop where
  keeps : ∀ y ∈ marked, y ∈ out
  all : ∀ y ∈ xs, y ∈ U → y ∈ out
  closed : ∀ y ∈ out, y ∈ marked ∨ ∀ z, Within next U y z → z ∈ out
  new : ∀ y ∈ out, y ∈ marked ∨ ∃ x ∈ xs, x ∈ U ∧ ReflTransGen (Within next U) x y

variable {next U}

theorem missing_le {marked out : List α} (h : ∀ y ∈ marked, y ∈ out) :
    missing U out ≤ missing U marked := by
  unfold missing
  rw [← countP_eq_length_filter, ← countP_eq_length_filter]
  refine countP_mono_left fun x _ hx => ?_
  rw [decide_eq_true_eq] at hx ⊢
  exact fun hm => hx (h x hm)

theorem missing_cons_lt {marked : List α} {x : α} (hU : x ∈ U) (hx : x ∉ marked) :
    missing U (x :: marked) < missing U marked := by
  have hle : missing U (x :: marked) ≤ missing U (marked ++ [x]) :=
    missing_le fun y hy => by
      rcases mem_append.mp hy with hy | hy
      · exact mem_cons_of_mem x hy
      · rw [mem_singleton.mp hy]
        exact mem_cons_self
  exact Nat.lt_of_le_of_lt hle (missing_append_lt hU hx)

theorem marking_foldl {f : List α → α → List α} {bound : Nat}
    (hf : ∀ marked x, missing U marked ≤ bound → Marking next U [x] marked (f marked x))
    (xs : List α) {marked : List α} (hm : missing U marked ≤ bound) :
    Marking next U xs marked (xs.foldl f marked) := by
  induction xs generalizing marked with
  | nil => exact ⟨fun _ hy => hy, by simp, fun _ hy => .inl hy, fun _ hy => .inl hy⟩
  | cons x xs ih =>
    rw [foldl_cons]
    have hx := hf marked x hm
    have hxs := ih ((missing_le hx.keeps).trans hm)
    refine ⟨fun y hy => hxs.keeps y (hx.keeps y hy), ?_, ?_, ?_⟩
    · intro y hy hU
      rcases mem_cons.mp hy with rfl | hy
      · exact hxs.keeps y (hx.all y (mem_singleton_self y) hU)
      · exact hxs.all y hy hU
    · intro y hy
      rcases hxs.closed y hy with hy | hy
      · exact (hx.closed y hy).imp_right fun hc z hz => hxs.keeps z (hc z hz)
      · exact .inr hy
    · intro y hy
      rcases hxs.new y hy with hy | ⟨z, hz, hn⟩
      · refine (hx.new y hy).imp_right ?_
        rintro ⟨z, hz, hn⟩
        rw [mem_singleton.mp hz] at hn
        exact ⟨x, mem_cons_self, hn⟩
      · exact .inr ⟨z, mem_cons_of_mem x hz, hn⟩

/-- With fuel for every node that is not marked, nothing below is left out. -/
theorem marking_mark (fuel : Nat) (marked : List α) (x : α) (hm : missing U marked ≤ fuel) :
    Marking next U [x] marked (mark next U fuel marked x) := by
  induction fuel generalizing marked x with
  | zero =>
    have hall : ∀ y ∈ U, y ∈ marked := by
      intro y hy
      by_contra hn
      have hpos := Nat.lt_of_le_of_lt (Nat.zero_le _) (missing_cons_lt hy hn)
      omega
    refine ⟨fun _ hy => hy, ?_, fun _ hy => .inl hy, fun _ hy => .inl hy⟩
    exact fun y _ hU => hall y hU
  | succ fuel ih =>
    unfold mark
    split
    · rename_i hskip
      refine ⟨fun _ hy => hy, ?_, fun _ hy => .inl hy, fun _ hy => .inl hy⟩
      intro y hy hU
      rw [mem_singleton.mp hy] at hU ⊢
      exact hskip.resolve_right fun hn => hn hU
    · rename_i hnew
      push Not at hnew
      obtain ⟨hx, hU⟩ := hnew
      have hlt : missing U (x :: marked) ≤ fuel := by
        have hless := missing_cons_lt hU hx
        omega
      have hrest := marking_foldl (fun marked x => ih marked x) (next x) hlt
      refine ⟨fun y hy => hrest.keeps y (mem_cons_of_mem x hy), ?_, ?_, ?_⟩
      · intro y hy _
        rw [mem_singleton.mp hy]
        exact hrest.keeps x mem_cons_self
      · intro y hy
        rcases hrest.closed y hy with hy | hy
        · rcases mem_cons.mp hy with rfl | hy
          · exact .inr fun z hz => hrest.all z hz.1 hz.2
          · exact .inl hy
        · exact .inr hy
      · intro y hy
        rcases hrest.new y hy with hy | ⟨z, hz, hzU, hzy⟩
        · rcases mem_cons.mp hy with rfl | hy
          · exact .inr ⟨y, mem_singleton_self y, hU, .refl⟩
          · exact .inl hy
        · exact .inr ⟨x, mem_singleton_self x, hU, hzy.head ⟨hz, hzU⟩⟩

/-- Exactly what the seeds reach inside the set is marked. -/
theorem mem_mark {seeds : List α} {fuel : Nat} (hfuel : U.length ≤ fuel) {y : α} :
    y ∈ seeds.foldl (mark next U fuel) [] ↔
      ∃ s ∈ seeds, s ∈ U ∧ ReflTransGen (Within next U) s y := by
  have h : Marking next U seeds [] (seeds.foldl (mark next U fuel) []) :=
    marking_foldl (fun marked x => marking_mark fuel marked x) seeds
      ((length_filter_le _ _).trans hfuel)
  constructor
  · exact fun hy => (h.new y hy).resolve_left not_mem_nil
  · rintro ⟨s, hs, hU, hsy⟩
    induction hsy with
    | refl => exact h.all s hs hU
    | tail _ hstep ih => exact (h.closed _ ih).resolve_left not_mem_nil _ hstep

end Mark

/-! ## Spreading -/

section Spread

variable {α : Type} [DecidableEq α] (links : List (α × α))

/-- Where the links from `a` lead. -/
def targets (a : α) : List α := (links.filter fun l => l.1 = a).map Prod.snd

/-- The loop that pops a node, takes it in unless it is there, and pushes its targets. -/
def spread : Nat → List α → List α → List α
  | 0, _, out => out
  | _ + 1, [], out => out
  | fuel + 1, cur :: stack, out =>
    if cur ∈ out then spread fuel stack out
    else spread fuel (targets links cur ++ stack) (cur :: out)

/-- One node is linked to another. -/
def Linked (a b : α) : Prop := (a, b) ∈ links

/-- The links from outside of `out`. -/
def unspread (out : List α) : List (α × α) := links.filter fun l => l.1 ∉ out

variable {links}

theorem mem_targets {a b : α} : b ∈ targets links a ↔ Linked links a b := by
  simp [targets, Linked]

/-- The links from a node are paid for once. -/
theorem length_unspread_cons {out : List α} {cur : α} (h : cur ∉ out) :
    (targets links cur).length + (unspread links (cur :: out)).length =
      (unspread links out).length := by
  unfold targets unspread
  rw [length_map]
  induction links with
  | nil => rfl
  | cons l links ih =>
    by_cases hl : l.1 = cur
    · have hout : l.1 ∉ out := hl ▸ h
      simp only [filter_cons, hl, h, mem_cons, decide_true, if_true, true_or, not_true,
        decide_false, Bool.false_eq_true, if_false, not_false_eq_true, length_cons] at ih ⊢
      omega
    · by_cases hout : l.1 ∈ out
      · simpa [filter_cons, hl, hout] using ih
      simp only [filter_cons, hl, hout, mem_cons, decide_false, Bool.false_eq_true,
        if_false, or_self, not_false_eq_true, decide_true, if_true, length_cons] at ih ⊢
      omega

theorem spread_sound (R : α → Prop) (hR : ∀ a b, R a → Linked links a b → R b) (fuel : Nat)
    (stack out : List α) (hstack : ∀ y ∈ stack, R y) (hout : ∀ y ∈ out, R y) :
    ∀ y ∈ spread links fuel stack out, R y := by
  induction fuel generalizing stack out with
  | zero => exact hout
  | succ fuel ih =>
    cases stack with
    | nil => exact hout
    | cons cur stack =>
      obtain ⟨hcur, hstack⟩ := forall_mem_cons.mp hstack
      unfold spread
      split
      · exact ih stack out hstack hout
      · refine ih _ _ (fun y hy => ?_) (forall_mem_cons.mpr ⟨hcur, hout⟩)
        rcases mem_append.mp hy with hy | hy
        · exact hR cur y hcur (mem_targets.mp hy)
        · exact hstack y hy

/-- What spreading from a stack makes of what was taken in. -/
structure Filled (links : List (α × α)) (stack out res : List α) : Prop where
  keeps : ∀ y ∈ out, y ∈ res
  all : ∀ y ∈ stack, y ∈ res
  closed : ∀ a ∈ res, ∀ b, Linked links a b → b ∈ res

omit [DecidableEq α] in
theorem filled_nil {out : List α} (h : ∀ a ∈ out, ∀ b, Linked links a b → b ∈ out ∨ b ∈ ([] : List α)) :
    Filled links [] out out where
  keeps := fun _ hy => hy
  all := fun _ hy => absurd hy not_mem_nil
  closed := fun a ha b hb => (h a ha b hb).resolve_right not_mem_nil

/-- With fuel for the stack and for every link from outside, everything is taken in. -/
theorem filled_spread (fuel : Nat) (stack out : List α)
    (hfuel : stack.length + (unspread links out).length ≤ fuel)
    (hclosed : ∀ a ∈ out, ∀ b, Linked links a b → b ∈ out ∨ b ∈ stack) :
    Filled links stack out (spread links fuel stack out) := by
  induction fuel generalizing stack out with
  | zero =>
    obtain rfl : stack = [] := eq_nil_of_length_eq_zero (by omega)
    exact filled_nil hclosed
  | succ fuel ih =>
    cases stack with
    | nil => exact filled_nil hclosed
    | cons cur stack =>
      rw [length_cons] at hfuel
      unfold spread
      split
      · rename_i hcur
        have h := ih stack out (by omega) fun a ha b hb => by
          rcases hclosed a ha b hb with hout | hstack
          · exact .inl hout
          rcases mem_cons.mp hstack with rfl | hstack
          · exact .inl hcur
          · exact .inr hstack
        exact ⟨h.keeps, forall_mem_cons.mpr ⟨h.keeps cur hcur, h.all⟩, h.closed⟩
      · rename_i hcur
        have hpaid : (targets links cur).length + (unspread links (cur :: out)).length =
            (unspread links out).length := length_unspread_cons hcur
        have h := ih (targets links cur ++ stack) (cur :: out)
          (by rw [length_append]; omega) fun a ha b hb => by
            rcases mem_cons.mp ha with rfl | ha
            · exact .inr (mem_append_left _ (mem_targets.mpr hb))
            rcases hclosed a ha b hb with hout | hstack
            · exact .inl (mem_cons_of_mem _ hout)
            rcases mem_cons.mp hstack with rfl | hstack
            · exact .inl mem_cons_self
            · exact .inr (mem_append_right _ hstack)
        obtain ⟨hnew, hkeeps⟩ := forall_mem_cons.mp h.keeps
        exact ⟨hkeeps, forall_mem_cons.mpr
          ⟨hnew, fun y hy => h.all y (mem_append_right _ hy)⟩, h.closed⟩

/-- The loop takes in exactly what the seeds lead to. -/
theorem mem_spread {seeds : List α} {fuel : Nat} (hfuel : seeds.length + links.length ≤ fuel)
    {x : α} : x ∈ spread links fuel seeds [] ↔ ∃ s ∈ seeds, ReflTransGen (Linked links) s x := by
  constructor
  · intro hx
    refine spread_sound (fun y => ∃ s ∈ seeds, ReflTransGen (Linked links) s y) ?_ fuel seeds []
      (fun y hy => ⟨y, hy, .refl⟩) (by simp) x hx
    rintro a b ⟨s, hs, hsa⟩ hab
    exact ⟨s, hs, hsa.tail hab⟩
  · rintro ⟨s, hs, hsx⟩
    have hle : (unspread links ([] : List α)).length ≤ links.length := length_filter_le _ _
    have h : Filled links seeds [] _ := filled_spread fuel seeds [] (by omega) (by simp)
    induction hsx with
    | refl => exact h.all s hs
    | tail _ hab ih => exact h.closed _ ih _ hab

end Spread

/-! ## Minimal elements -/

/-- No element is reached from itself. -/
def Acyclic {α : Type} (r : α → α → Prop) : Prop := ∀ a, ¬ TransGen r a a

/-- A relation along which a number grows is acyclic. -/
theorem acyclic_of_rank {α : Type} {r : α → α → Prop} (rank : α → Nat)
    (h : ∀ a b, r a b → rank a < rank b) : Acyclic r := by
  have hlt : ∀ a b, TransGen r a b → rank a < rank b := by
    intro a b hab
    induction hab with
    | single hab => exact h _ _ hab
    | tail _ hbc ih => exact Nat.lt_trans ih (h _ _ hbc)
  exact fun a ha => Nat.lt_irrefl _ (hlt a a ha)

/-- Among the elements of a list that have a property, one has no predecessor with it, when
    the relation is acyclic. -/
theorem exists_minimal {α : Type} {r : α → α → Prop} (hr : Acyclic r) {V : List α}
    {P : α → Prop} (hP : ∀ a, P a → a ∈ V) (h : ∃ a, P a) : ∃ a, P a ∧ ∀ b, r b a → ¬ P b := by
  have hfin : Finite {a // P a} :=
    Set.Finite.subset (finite_toSet V) fun a ha => hP a ha
  have hwf : WellFounded fun a b : {a // P a} => TransGen r a.1 b.1 := by
    have : IsTrans {a // P a} fun a b => TransGen r a.1 b.1 := ⟨fun _ _ _ => TransGen.trans⟩
    have : Std.Irrefl fun a b : {a // P a} => TransGen r a.1 b.1 := ⟨fun a => hr a.1⟩
    exact Finite.wellFounded_of_trans_of_irrefl _
  obtain ⟨a, ha⟩ := h
  obtain ⟨⟨m, hm⟩, -, hmin⟩ := hwf.has_min Set.univ ⟨⟨a, ha⟩, trivial⟩
  exact ⟨m, hm, fun b hb hPb => hmin ⟨b, hPb⟩ trivial (.single hb)⟩

end Data
