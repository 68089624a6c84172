/-
  Usage as a gauge: every scope carries what the runs hold there, and no more.

  A run whose `yield_check` raises leaves the slots of its nodes behind (`raised_leaves_slot`).
  Where no slot is held when it raises, and no plan is estimated at less than nothing, the usage of
  every scope is the sum over the runs that have not ended, and every scope that a run has mounted
  is in the tree (`gauge_kept`).
-/
import WebGis.Compute.Holding
import WebGis.Data.Play

namespace WebGis.Compute

open Data List Dict ResourceGovernor BudgetRun ChainOp
open Option hiding max_eq_right

/-! ## Runs of the governor -/

namespace BudgetWorld

variable {w w' : BudgetWorld} {k : String} {r : BudgetRun}

/-- What holds between the governor and its runs. -/
structure Sound (w : BudgetWorld) : Prop where
  rooted : Rooted w.gov
  mounted : ∀ k r, w.runs.find k = some r → Mounted w.gov k r
  booked : ∀ k r, w.runs.find k = some r → Booked r
  balanced : ∀ id, (w.gov.scopes id).usage = Dict.sum (held id) w.runs
  refs : ∀ id ≠ 0, Dict.sum (fun r => r.mounts.count id) w.runs ≤ (w.gov.scopes id).refs

variable {r' : BudgetRun} {gov : ResourceGovernor}

section

variable (hs : Sound w) (hfind : w.runs.find k = some r)
include hs hfind

theorem Sound.evolve (hrooted : Rooted gov)
    (hothers : ∀ k' r₀, k' ≠ k → w.runs.find k' = some r₀ → ∀ p id, Relies k' r₀ p id →
      gov.tree.find p = some id) (hmounted : Mounted gov k r') (hbooked : Booked r')
    (husage : ∀ id, (gov.scopes id).usage + r.held id = (w.gov.scopes id).usage + r'.held id)
    (hrefs : ∀ id ≠ 0, Dict.sum (fun r => r.mounts.count id) w.runs + r'.mounts.count id ≤
      (gov.scopes id).refs + r.mounts.count id) :
    Sound { gov := gov, runs := w.runs.set k r' } where
  rooted := hrooted
  mounted := by
    intro k' r₀ hfind'
    by_cases hk : k' = k
    · subst hk
      rw [find_set_self, some_inj] at hfind'
      exact hfind' ▸ hmounted
    · rw [find_set_ne w.runs r' (Ne.symm hk)] at hfind'
      exact (hs.mounted k' r₀ hfind').congr (hothers k' r₀ hk hfind')
  booked := by
    intro k' r₀ hfind'
    by_cases hk : k' = k
    · subst hk
      rw [find_set_self, some_inj] at hfind'
      exact hfind' ▸ hbooked
    · rw [find_set_ne w.runs r' (Ne.symm hk)] at hfind'
      exact hs.booked k' r₀ hfind'
  balanced := by
    intro id
    have hsum := Dict.sum_set (held id) hfind r'
    refine add_right_cancel (b := r.held id) ?_
    rw [hsum, ← hs.balanced id]
    exact husage id
  refs := by
    intro id hid
    have hsum := Dict.sum_set (fun r => r.mounts.count id) hfind r'
    have hnew := hrefs id hid
    dsimp only at hsum ⊢
    omega

theorem Sound.change (htree : gov.tree = w.gov.tree)
    (hnext : gov.next = w.gov.next) (hpaths : ∀ id, (gov.scopes id).path = (w.gov.scopes id).path)
    (hcounts : ∀ id, (gov.scopes id).refs = (w.gov.scopes id).refs) (hmounts : r'.mounts = r.mounts)
    (hmounted : Mounted w.gov k r') (hbooked : Booked r')
    (husage : ∀ id, (gov.scopes id).usage + r.held id = (w.gov.scopes id).usage + r'.held id) :
    Sound { gov := gov, runs := w.runs.set k r' } := by
  refine hs.evolve hfind ⟨?_, ?_⟩ ?_ ?_ hbooked husage ?_
  · rw [htree]
    exact hs.rooted.root
  · intro p id hp
    rw [htree] at hp
    rw [hpaths, hnext]
    exact hs.rooted.paths p id hp
  · intro k' r₀ _ hfind' p id hrelies
    rw [htree]
    exact (hs.mounted k' r₀ hfind').relied hrelies
  · refine hmounted.congr fun p id hrelies => ?_
    rw [htree]
    exact hmounted.relied hrelies
  · intro id hid
    rw [hcounts, hmounts]
    exact Nat.add_le_add_right (hs.refs id hid) _

theorem Sound.put (hmounts : r'.mounts = r.mounts)
    (hmounted : Mounted w.gov k r') (hbooked : Booked r') (hheld : ∀ id, r'.held id = r.held id) :
    Sound (w.put k r') :=
  hs.change hfind rfl rfl (fun _ => rfl) (fun _ => rfl) hmounts hmounted hbooked
    fun id => congrArg _ (hheld id).symm

end

/-! ### Operations go on -/

section

variable {thread : Option String} {op : ChainOp}

section

variable (hs : Sound w) (hfind : w.runs.find k = some r)
include hs hfind

theorem Sound.finish (hop : r.ops.find thread = some op) (hundoing : op.undoing = false) (htodo : op.todo = []) :
    Sound (w.put k ((r.clear thread).finish op)) := by
  have hm := hs.mounted k r hfind
  have hb := hs.booked k r hfind
  have hstage := (hb.ops thread op hop).stage
  have hfull := hm.full_of_suits hstage
  refine hs.put hfind ?_ ?_ (booked_finish hb hop) fun id => held_finish hb hop hundoing htodo
  · unfold BudgetRun.finish
    split <;> rfl
  · refine hm.restage ?_ ?_ ?_ (fun _ _ => hfull) ?_
    · unfold BudgetRun.finish
      split <;> rfl
    · unfold BudgetRun.finish
      split <;> rfl
    · unfold BudgetRun.finish
      split <;> rfl
    · intro hleaving
      have hbusy : ((r.clear thread).finish op).stage = r.stage ∨
          ((r.clear thread).finish op).stage = .active ∨
          ((r.clear thread).finish op).stage = .closing := by
        unfold BudgetRun.finish
        split
        · exact .inr (.inl rfl)
        · exact .inl rfl
        · exact .inl rfl
        · exact .inl rfl
        · exact .inr (.inr rfl)
      rw [hleaving] at hbusy
      rcases hbusy with h | h | h
      · rcases stage_of_suits hstage with h' | h' <;> rw [← h] at h' <;> cases h'
      · cases h
      · cases h

theorem Sound.refused (hop : r.ops.find thread = some op) (hundoing : op.undoing) (hpast : op.past = []) :
    Sound (w.put k ((r.clear thread).refused op)) := by
  have hm := hs.mounted k r hfind
  have hb := hs.booked k r hfind
  have ho := hb.ops thread op hop
  have hfull := hm.full_of_suits ho.stage
  have hheld : ∀ id, (r.clear thread).held id = r.held id := by
    intro id
    have hclear := held_clear id hop
    rwa [applied, hpast, if_neg not_mem_nil, add_zero] at hclear
  cases hkind : op.kind with
  | plan =>
    have hstage := ho.stage
    rw [hkind] at hstage
    have hstage : r.stage = .created := hstage
    have hops : (r.clear thread).ops.items = [] := by
      refine no_ops fun thread' op' hfind' => ?_
      obtain ⟨hne, hfind'⟩ := find_clear hfind'
      exact hne ((created_ops hb hstage hfind').trans (created_ops hb hstage hop).symm)
    have hidle := hb.idle (by rw [hstage]; rfl)
    have hinside := hb.inside
    rw [hstage] at hinside
    rw [BudgetRun.refused, hkind]
    refine hs.put hfind rfl ?_ ?_ fun id => ?_
    · exact hm.restage rfl rfl rfl (fun _ _ => hfull) fun h => RunStage.noConfusion h
    · refine ⟨hinside, hb.reserved, hb.charged, fun _ => hidle, fun _ => ?_, ?_⟩
      · exact hb.slots (by rw [hstage]; exact RunStage.noConfusion)
      · intro thread' op' hfind'
        rw [find_eq_some] at hfind'
        exact absurd (hops ▸ hfind') not_mem_nil
    · exact hheld id
  | slot node units =>
    rw [BudgetRun.refused, hkind]
    exact hs.put hfind rfl (hm.restage rfl rfl rfl hm.full hm.left) (booked_clear hb) hheld
  | unslot node =>
    have hchecks := ho.undoing hundoing
    rw [hkind] at hchecks
    cases hchecks
  | charge =>
    have hchecks := ho.undoing hundoing
    rw [hkind] at hchecks
    cases hchecks
  | final =>
    have hchecks := ho.undoing hundoing
    rw [hkind] at hchecks
    cases hchecks

theorem Sound.held_le (id : Nat) :
    r.held id ≤ (w.gov.scopes id).usage := by
  have hsum := sum_delete (held id) hfind
  have hrest : 0 ≤ Dict.sum (held id)
      (Table.delete w.runs fun kv => kv.1 = k) := by
    refine sum_nonneg fun k' r' hfind' => held_nonneg (hs.booked k' r' ?_) id
    by_cases hk : k' = k
    · subst hk
      rw [Dict.find_delete_self] at hfind'
      cases hfind'
    · rwa [Dict.find_delete_ne w.runs hk] at hfind'
  rw [hs.balanced, ← hsum]
  exact le_add_of_nonneg_left hrest

end

variable {rest : List Nat}

section

variable (hs : Sound w) (hfind : w.runs.find k = some r) (hop : r.ops.find thread = some op)
include hs hfind hop

theorem Sound.take (hundoing : op.undoing = false) {id : Nat} (htodo : op.todo = id :: rest) :
    Sound { gov := w.gov.modify id fun s => s.take op
            runs := w.runs.set k
              (r.launch thread { op with past := op.past ++ [id], todo := rest }) } := by
  have hm := hs.mounted k r hfind
  have hb := hs.booked k r hfind
  have ho := hb.ops thread op hop
  have hwhole := ho.whole hundoing
  rw [htodo] at hwhole
  have hnodup := hm.chain_nodup hs.rooted (full_of_scope hm hb)
  rw [← hwhole, nodup_append] at hnodup
  have hnew : id ∉ op.past := fun hpast => hnodup.2.2 id hpast id mem_cons_self rfl
  have hchain : id ∈ r.chain := by
    rw [← hwhole]
    exact mem_append_right _ mem_cons_self
  refine hs.change hfind rfl rfl (modify_keeps Scope.path rfl)
    (modify_keeps Scope.refs rfl) rfl
    (hm.restage rfl rfl rfl hm.full hm.left) (booked_launch hb ?_) fun id' => ?_
  · refine ⟨ho.thread, ho.stage, ho.owes, ?_, ?_, fun _ => ?_, ho.undoing⟩
    · exact append_subset.mpr ⟨ho.past, by simpa using hchain⟩
    · exact List.Nodup.append ho.nodup (nodup_singleton id) (by simpa using hnew)
    · rw [append_assoc]
      exact hwhole
  · have hheld := held_relaunch id'
      { op with past := op.past ++ [id], todo := rest } hop
    by_cases hid : id' = id
    · subst hid
      rw [applied, if_neg hnew, add_zero, applied,
        if_pos (mem_append_right _ mem_cons_self)] at hheld
      have htake : ((w.gov.scopes id').take op).usage = (w.gov.scopes id').usage + op.amount := by
        rw [Scope.take]
        split
        · rename_i hgives
          have hbound := (held_gives hb hop hgives hchain hnew).trans
            (add_le_add_left (hs.held_le hfind id') _)
          funext d
          exact max_eq_right (hbound d)
        · rfl
      rw [modify_self, htake, hheld]
      abel
    · have hsame : ({ op with past := op.past ++ [id], todo := rest } : ChainOp).applied id' =
          op.applied id' := by
        simp [applied, hid]
      rw [hsame] at hheld
      rw [modify_ne hid, add_right_cancel hheld]

theorem Sound.undo (hundoing : op.undoing) {id : Nat} (hpast : op.past = id :: rest) :
    Sound { gov := w.gov.modify id fun s => { s with usage := s.usage - op.amount }
            runs := w.runs.set k (r.launch thread { op with past := rest }) } := by
  have hm := hs.mounted k r hfind
  have hb := hs.booked k r hfind
  have ho := hb.ops thread op hop
  have hnodup := ho.nodup
  rw [hpast, nodup_cons] at hnodup
  refine hs.change hfind rfl rfl (modify_keeps Scope.path rfl)
    (modify_keeps Scope.refs rfl) rfl
    (hm.restage rfl rfl rfl hm.full hm.left) (booked_launch hb ?_) fun id' => ?_
  · refine ⟨ho.thread, ho.stage, ho.owes, fun id' hid' => ho.past ?_, hnodup.2, fun h => ?_,
      ho.undoing⟩
    · rw [hpast]
      exact mem_cons_of_mem id hid'
    · rw [hundoing] at h
      cases h
  · have hheld := held_relaunch id' { op with past := rest } hop
    by_cases hid : id' = id
    · subst hid
      rw [applied, hpast, if_pos mem_cons_self, applied, if_neg hnodup.1,
        add_zero] at hheld
      rw [modify_self, ← hheld]
      dsimp only
      abel
    · have hsame : ({ op with past := rest } : ChainOp).applied id' = op.applied id' := by
        simp [applied, hpast, hid]
      rw [hsame] at hheld
      rw [modify_ne hid, add_right_cancel hheld]

theorem Sound.move : Sound (w.move k r thread op) := by
  have hm := hs.mounted k r hfind
  have hb := hs.booked k r hfind
  have ho := hb.ops thread op hop
  unfold BudgetWorld.move
  split
  · rename_i hundoing
    split
    · rename_i hpast
      exact hs.refused hfind hop hundoing hpast
    · rename_i id rest hpast
      exact hs.undo hfind hop hundoing hpast
  · rename_i hundoing
    have hundoing : op.undoing = false := Bool.eq_false_iff.mpr hundoing
    split
    · rename_i htodo
      exact hs.finish hfind hop hundoing htodo
    · rename_i id rest htodo
      split
      · rename_i hrefuses
        refine hs.put hfind rfl (hm.restage rfl rfl rfl hm.full hm.left) (booked_launch hb ?_)
          fun id' => ?_
        · exact ⟨ho.thread, ho.stage, ho.owes, ho.past, ho.nodup, fun h => Bool.noConfusion h,
            fun _ => hrefuses.1⟩
        · have hheld := held_relaunch id' { op with undoing := true } hop
          exact add_right_cancel hheld
      · exact hs.take hfind hop hundoing htodo

end

end

/-! ### Scopes come and go -/

theorem Sound.unborn (hs : Sound w) :
    (w.gov.scopes w.gov.next).usage = 0 ∧
      Dict.sum (fun r => r.mounts.count w.gov.next) w.runs = 0 := by
  have hchain : ∀ kv ∈ w.runs.items, w.gov.next ∉ kv.2.chain := by
    intro kv hkv hmem
    have hfind := find_eq_some.mpr hkv
    have hm := hs.mounted kv.1 kv.2 hfind
    have hlt := hm.lt_next hs.rooted (full_of_scope hm (hs.booked kv.1 kv.2 hfind)) hmem
    exact lt_irrefl _ hlt
  constructor
  · have hzero : Dict.sum (held w.gov.next) w.runs = Dict.sum (fun _ => 0) w.runs :=
      Dict.sum_congr _ fun kv hkv =>
        held_out (hs.booked kv.1 kv.2 (find_eq_some.mpr hkv)) (hchain kv hkv)
    rw [hs.balanced, hzero, Dict.sum]
    simp
  · have hzero : Dict.sum (fun r => r.mounts.count w.gov.next) w.runs =
        Dict.sum (fun _ => 0) w.runs := by
      refine Dict.sum_congr _ fun kv hkv => count_eq_zero.mpr fun hmem => ?_
      exact hchain kv hkv (mem_cons_of_mem 0 (mem_append_left _ hmem))
    rw [hzero, Dict.sum]
    simp

variable {path : ScopePath} {g : ResourceGovernor}

theorem rooted_make (hg : Rooted g) (hpath : path ≠ []) (limits : Dim → Option Nat) :
    Rooted (g.make path limits) where
  root := by
    rw [ResourceGovernor.make, find_set_ne g.tree g.next hpath]
    exact hg.root
  paths := by
    intro p id hp
    simp only [ResourceGovernor.make] at hp ⊢
    by_cases hpp : p = path
    · subst hpp
      rw [find_set_self, some_inj] at hp
      subst hp
      rw [Function.update_self]
      exact ⟨rfl, Nat.lt_succ_self _⟩
    · rw [find_set_ne g.tree g.next (Ne.symm hpp)] at hp
      obtain ⟨hpath, hlt⟩ := hg.paths p id hp
      rw [Function.update_of_ne (Nat.ne_of_lt hlt)]
      exact ⟨hpath, Nat.lt_succ_of_lt hlt⟩

variable {limits : Dim → Option Nat}

theorem Sound.make (hs : Sound w) (hfind : w.runs.find k = some r) (hpath : path ≠ [])
    (hothers : ∀ k' r₀, k' ≠ k → w.runs.find k' = some r₀ → ∀ p id, Relies k' r₀ p id → p ≠ path)
    (hmounted : Mounted (w.gov.make path limits) k r') (hbooked : Booked r')
    (hheld : ∀ id, r'.held id = r.held id)
    (hmounts : ∀ id ≠ w.gov.next, r'.mounts.count id = r.mounts.count id)
    (hlast : r'.mounts.count w.gov.next ≤ 1) :
    Sound { gov := w.gov.make path limits, runs := w.runs.set k r' } := by
  obtain ⟨husage, hcount⟩ := hs.unborn
  refine hs.evolve hfind (rooted_make hs.rooted hpath limits) ?_ hmounted hbooked ?_ ?_
  · intro k' r₀ hk hfind' p id hrelies
    have hne := hothers k' r₀ hk hfind' p id hrelies
    rw [ResourceGovernor.make, find_set_ne w.gov.tree w.gov.next (Ne.symm hne)]
    exact (hs.mounted k' r₀ hfind').relied hrelies
  · intro id
    rw [hheld]
    by_cases hid : id = w.gov.next
    · subst hid
      simp [ResourceGovernor.make, husage]
    · simp [ResourceGovernor.make, hid]
  · intro id hzero
    by_cases hid : id = w.gov.next
    · subst hid
      simp only [ResourceGovernor.make, Function.update_self, hcount]
      omega
    · rw [hmounts id hid, ResourceGovernor.make]
      simp only [Function.update_of_ne hid]
      exact Nat.add_le_add_right (hs.refs id hzero) _

variable {rest : ScopePath} {part : Segment} {id : Nat}

theorem mounted_mount (hm : Mounted w.gov k r) (hstage : r.stage = .mounting)
    (hdrop : r.identity.drop r.mounts.length = part :: rest) (hscope : r.scope = none)
    (hkept : ∀ i < r.mounts.length, g.tree.find (r.identity.take (i + 1)) = r.mounts[i]?)
    (hnew : g.tree.find (r.identity.take r.mounts.length ++ [part]) = some id) :
    Mounted g k { r with mounts := r.mounts ++ [id] } := by
  have hlength := congrArg List.length hdrop
  rw [length_drop, length_cons] at hlength
  have htake : r.identity.take (r.mounts.length + 1) =
      r.identity.take r.mounts.length ++ [part] := by
    rw [take_add, hdrop]
    rfl
  refine ⟨?_, fun h => absurd hstage h, fun i hi => ?_, fun id' hid' => ?_, hm.kinds, fun h => ?_⟩
  · dsimp only
    rw [length_append, length_singleton]
    omega
  · dsimp only at hi ⊢
    rw [length_append, length_singleton] at hi
    by_cases hlt : i < r.mounts.length
    · rw [getElem?_append_left hlt]
      exact hkept i hlt
    · have hi : i = r.mounts.length := by omega
      rw [hi, getElem?_concat_length, htake]
      exact hnew
  · change id' ∈ r.scope at hid'
    rw [hscope] at hid'
    cases hid'
  · have hleaving : r.stage = .leaving := h
    rw [hstage] at hleaving
    cases hleaving

theorem scope_none (hb : Booked r) (h : r.stage.inside = false) : r.scope = none := by
  have hinside := hb.inside
  rw [h] at hinside
  exact isSome_eq_false_iff.mp hinside.symm |> isNone_iff_eq_none.mp

section

variable (hs : Sound w) (hfind : w.runs.find k = some r)
include hs hfind

theorem Sound.mount (hstage : r.stage = .mounting)
    (hdrop : r.identity.drop r.mounts.length = part :: rest)
    (hensure : w.gov.ensureScope (r.identity.take r.mounts.length) part limits = some (gov, id)) :
    Sound { gov := gov, runs := w.runs.set k { r with mounts := r.mounts ++ [id] } } := by
  have hm := hs.mounted k r hfind
  have hb := hs.booked k r hfind
  have hscope := scope_none hb (by rw [hstage]; rfl)
  have hbusy : r.stage.busy = false := by rw [hstage]; rfl
  obtain ⟨hbooked, hheld⟩ := booked_moved hb
    (by rw [hstage]; exact RunStage.noConfusion) hbusy (r.mounts ++ [id]) r.scope r.stage hbusy
    hb.inside
  unfold ResourceGovernor.ensureScope at hensure
  split at hensure
  · -- The scope is there.
    rename_i id' hfound
    simp only [some.injEq, Prod.mk.injEq] at hensure
    obtain ⟨rfl, rfl⟩ := hensure
    have hrooted : Rooted (w.gov.modify id' fun s => { s with refs := s.refs + 1 }) := by
      refine ⟨hs.rooted.root, fun p id hp => ?_⟩
      rw [modify_keeps Scope.path rfl]
      exact hs.rooted.paths p id hp
    refine hs.evolve hfind hrooted ?_
      (mounted_mount hm hstage hdrop hscope hm.found hfound) hbooked ?_ ?_
    · exact fun k' r₀ _ hfind' p id hrelies => (hs.mounted k' r₀ hfind').relied hrelies
    · intro id
      rw [modify_keeps Scope.usage rfl, hheld]
    · intro id hzero
      have hrefs := hs.refs id hzero
      rw [count_append]
      by_cases hid : id = id'
      · subst hid
        rw [modify_self, count_singleton_self]
        dsimp only
        omega
      · rw [modify_ne hid, count_singleton, if_neg (by simpa using Ne.symm hid)]
        omega
  · rename_i hfound
    split at hensure
    · cases hensure
    obtain ⟨rfl, rfl⟩ := hensure
    have hrelied : ∀ {k' r₀ p id}, Mounted w.gov k' r₀ → Relies k' r₀ p id →
        p ≠ r.identity.take r.mounts.length ++ [part] := by
      rintro k' r₀ p id hm hrelies rfl
      rw [hm.relied hrelies] at hfound
      cases hfound
    refine hs.make hfind (by simp) (fun k' r₀ _ hfind' p id hrelies =>
      hrelied (hs.mounted k' r₀ hfind') hrelies) ?_ hbooked hheld ?_ ?_
    · refine mounted_mount hm hstage hdrop hscope (fun i hi => ?_) (find_set_self _ _ _)
      have hid := getElem?_eq_getElem hi
      rw [ResourceGovernor.make, find_set_ne w.gov.tree w.gov.next
        (Ne.symm (hrelied hm (.mount hi hid)))]
      exact hm.found i hi
    · intro id hid
      simp [count_append, Ne.symm hid]
    · have hold : r.mounts.count w.gov.next = 0 := by
        refine count_eq_zero.mpr fun hmem => ?_
        have hlt := hm.lt_next hs.rooted (full_of_scope hm hb)
          (mem_cons_of_mem 0 (mem_append_left _ hmem))
        exact lt_irrefl _ hlt
      simp [count_append, hold]

theorem Sound.parent :
    ∃ id, w.gov.tree.find (r.identity.take r.mounts.length) = some id := by
  have hm := hs.mounted k r hfind
  cases hlength : r.mounts.length with
  | zero => exact ⟨0, hs.rooted.root⟩
  | succ n =>
    have hn : n < r.mounts.length := by omega
    exact ⟨_, (hm.found n hn).trans (getElem?_eq_getElem hn)⟩

theorem Sound.create (hstage : r.stage = .mounting) (hfull : r.mounts.length = r.identity.length)
    (hcreate : w.gov.createScope r.identity (.execution, k) limits = some (gov, id)) :
    Sound { gov := gov
            runs := w.runs.set k { r with scope := some id, stage := .created } } := by
  have hm := hs.mounted k r hfind
  have hb := hs.booked k r hfind
  have hbusy : r.stage.busy = false := by rw [hstage]; rfl
  obtain ⟨hbooked, hheld⟩ := booked_moved hb
    (by rw [hstage]; exact RunStage.noConfusion) hbusy r.mounts (some w.gov.next) .created rfl rfl
  unfold createScope at hcreate
  split at hcreate
  · cases hcreate
  obtain ⟨rfl, rfl⟩ := hcreate
  refine hs.make hfind (by simp) ?_ ?_ hbooked ?_ (fun _ _ => rfl) ?_
  · exact fun k' r₀ hk hfind' p id hrelies =>
      (hs.mounted k' r₀ hfind').relies_ne r hk hrelies
  · refine ⟨hm.short, fun _ _ => hfull, fun i hi => ?_, fun id hid => ?_, hm.kinds,
      fun h => RunStage.noConfusion h⟩
    · rw [ResourceGovernor.make, find_set_ne w.gov.tree w.gov.next
        (Ne.symm (hm.take_ne (i + 1) r.identity k))]
      exact hm.found i hi
    · rw [← mem_some.mp hid]
      exact find_set_self _ _ _
  · exact hheld
  · have hold : r.mounts.count w.gov.next = 0 := by
      refine count_eq_zero.mpr fun hmem => ?_
      have hlt := hm.lt_next hs.rooted (full_of_scope hm hb)
        (mem_cons_of_mem 0 (mem_append_left _ hmem))
      exact lt_irrefl _ hlt
    change r.mounts.count w.gov.next ≤ 1
    omega

theorem Sound.teardown (hstage : r.stage = .closing) :
    Sound { gov := w.gov.erase (r.path k)
            runs := w.runs.set k { r with scope := none, stage := .unmounting } } := by
  have hm := hs.mounted k r hfind
  have hb := hs.booked k r hfind
  have hbusy : r.stage.busy = false := by rw [hstage]; rfl
  obtain ⟨hbooked, hheld⟩ := booked_moved hb
    (by rw [hstage]; exact RunStage.noConfusion) hbusy r.mounts none .unmounting rfl rfl
  have hfull : r.mounts.length = r.identity.length :=
    hm.full (by rw [hstage]; exact RunStage.noConfusion) (by rw [hstage]; exact RunStage.noConfusion)
  have hpath : r.path k ≠ [] := by simp [path]
  refine hs.evolve hfind ⟨?_, fun p id hp => ?_⟩ ?_ ?_ hbooked ?_ ?_
  · rw [ResourceGovernor.find_erase_ne (Ne.symm hpath)]
    exact hs.rooted.root
  · exact hs.rooted.paths p id (find_of_erase hp)
  · intro k' r₀ hk hfind' p id hrelies
    have hm' := hs.mounted k' r₀ hfind'
    rw [ResourceGovernor.find_erase_ne (hm'.relies_ne _ hk hrelies)]
    exact hm'.relied hrelies
  · refine ⟨hm.short, fun _ _ => hfull, fun i hi => ?_, fun id hid => ?_, hm.kinds,
      fun h => RunStage.noConfusion h⟩
    · exact (ResourceGovernor.find_erase_ne (hm.take_ne (i + 1) r.identity k)).trans
        (hm.found i hi)
    · cases hid
  · intro id
    exact congrArg _ (hheld id).symm
  · intro id hid
    exact Nat.add_le_add_right (hs.refs id hid) _

theorem Sound.unmount (hstage : r.stage = .leaving) :
    Sound { gov := w.gov.releaseChain r.leaving
            runs := w.runs.set k { r with mounts := [], stage := .ended } } := by
  have hm := hs.mounted k r hfind
  have hb := hs.booked k r hfind
  have hbusy : r.stage.busy = false := by rw [hstage]; rfl
  have hscope := scope_none hb (by rw [hstage]; rfl)
  obtain ⟨hbooked, hheld⟩ := booked_moved hb
    (by rw [hstage]; exact RunStage.noConfusion) hbusy [] r.scope .ended rfl (by rw [hscope]; rfl)
  have hzero := hm.zero_not_mem hs.rooted
  have hmounted : ∀ g, Mounted g k { r with mounts := [], stage := .ended } := by
    intro g
    refine ⟨Nat.zero_le _, fun _ h => absurd rfl h, fun i hi => absurd hi (Nat.not_lt_zero i),
      fun id hid => ?_, hm.kinds, fun h => RunStage.noConfusion h⟩
    rw [hscope] at hid
    cases hid
  have hleaving : w.gov.releaseChain r.leaving = w.gov.releaseChain (0 :: r.mounts) :=
    congrArg _ (hm.left hstage)
  rw [hleaving, releaseChain]
  split
  · -- Nothing was mounted.
    rename_i hshort
    have hnone : r.mounts = [] := by
      cases hmounts : r.mounts with
      | nil => rfl
      | cons id rest =>
        rw [hmounts, length_cons, length_cons] at hshort
        omega
    refine hs.evolve hfind hs.rooted
      (fun k' r₀ _ hfind' p id hrelies => (hs.mounted k' r₀ hfind').relied hrelies)
      (hmounted _) hbooked (fun id => congrArg _ (hheld id).symm) fun id hid => ?_
    rw [hnone]
    exact hs.refs id hid
  · obtain ⟨htree, hnext⟩ := unref_tree (g := w.gov) (0 :: r.mounts)
    obtain ⟨hscopes, hnext'⟩ := reclaimChain_keeps
      (g := w.gov.unref (0 :: r.mounts)) (0 :: r.mounts).tail.reverse
    have hrefs : ∀ id ≠ 0, Dict.sum (fun r => r.mounts.count id) w.runs ≤
        ((w.gov.unref (0 :: r.mounts)).scopes id).refs + r.mounts.count id := by
      intro id hid
      have hold := hs.refs id hid
      rw [refs_unref, count_cons_of_ne (Ne.symm hid)]
      omega
    -- What another run has mounted has a mount left.
    have hkept : ∀ p id, (w.gov.unref (0 :: r.mounts)).Idle r.mounts.reverse p →
        w.gov.tree.find p = some id → id ≠ 0 ∧
          Dict.sum (fun r => r.mounts.count id) w.runs ≤ r.mounts.count id := by
      intro p id hidle hp
      obtain ⟨id', hid', hfind', hnone⟩ := hidle.idle
      rw [htree, hp, some_inj] at hfind'
      subst hfind'
      have hne : id ≠ 0 := fun h => hzero (h ▸ mem_reverse.mp hid')
      have hle := hrefs id hne
      rw [hnone, Nat.zero_add] at hle
      exact ⟨hne, hle⟩
    refine hs.evolve hfind ⟨?_, fun p id hp => ?_⟩ ?_ (hmounted _) hbooked ?_ ?_
    · obtain heq | ⟨-, hidle⟩ := find_reclaimChain
        (g := w.gov.unref (0 :: r.mounts)) r.mounts.reverse []
      · exact heq.trans (htree ▸ hs.rooted.root)
      · exact absurd rfl (hkept [] 0 hidle hs.rooted.root).1
    · rw [hscopes, unref_keeps Scope.path fun _ => rfl, hnext', hnext]
      refine hs.rooted.paths p id ?_
      obtain heq | ⟨hnone, -⟩ := find_reclaimChain
        (g := w.gov.unref (0 :: r.mounts)) r.mounts.reverse p
      · exact htree ▸ heq.symm.trans hp
      · rw [tail_cons, hnone] at hp
        cases hp
    · intro k' r₀ hk hfind' p id hrelies
      have hp := (hs.mounted k' r₀ hfind').relied hrelies
      obtain heq | ⟨-, hidle⟩ := find_reclaimChain
        (g := w.gov.unref (0 :: r.mounts)) r.mounts.reverse p
      · exact heq.trans (htree ▸ hp)
      · obtain ⟨hne, hle⟩ := hkept p id hidle hp
        cases hrelies with
        | own hid =>
          have hkind := hidle.kind (.execution, k') (by simp [path])
          exact absurd rfl hkind
        | mount hi hid =>
          -- It is counted beside the mounts of the run that leaves.
          have hother : Dict.find (Table.delete w.runs fun kv => kv.1 = k) k' = some r₀ :=
            (Dict.find_delete_ne w.runs hk).trans hfind'
          have hsum := sum_delete (fun r : BudgetRun => r.mounts.count id) hfind
          have hsum' := sum_delete (fun r : BudgetRun => r.mounts.count id) hother
          have hpos : 0 < r₀.mounts.count id :=
            count_pos_iff.mpr (mem_of_getElem? hid)
          omega
    · intro id
      rw [hscopes, unref_keeps Scope.usage fun _ => rfl, hheld]
    · intro id hid
      rw [hscopes, count_nil, Nat.add_zero]
      exact hrefs id hid

end

/-! ### Whole runs -/

section

variable (hs : Sound w) (hfind : w.runs.find k = some r)
include hs hfind

theorem Sound.launch {thread : Option String}
    (hthread : r.ops.find thread = none) {kind : OpKind} {amount : Usage}
    (hkind : thread = none ↔ kind ≠ .charge) (hstage : kind.suits r.stage)
    (howes : r.Owes amount kind) :
    Sound (w.put k (r.launch thread
      { kind := kind, amount := amount, todo := w.gov.chain (r.path k) })) := by
  have hm := hs.mounted k r hfind
  have hb := hs.booked k r hfind
  have hinside : r.scope.isSome := by
    rw [← hb.inside]
    rcases stage_of_suits hstage with h | h
    · rw [h]
      rfl
    · revert h
      cases r.stage <;> intro h <;> first | rfl | cases h
  refine hs.put hfind rfl (hm.restage rfl rfl rfl hm.full hm.left) (booked_launch hb ?_)
    fun id => held_launch hthread rfl
  exact ⟨hkind, hstage, howes, nil_subset _, nodup_nil,
    fun _ => hm.chain_path hb hinside, fun h => Bool.noConfusion h⟩

theorem Sound.restage (hidentity : r'.identity = r.identity) (hmounts : r'.mounts = r.mounts)
    (hscope : r'.scope = r.scope) (hreserved : r'.reserved = r.reserved)
    (hcharged : r'.charged = r.charged) (hslots : r'.slots = r.slots) (hops : r'.ops = r.ops)
    (hnone : r.ops.items = []) (hbusy : r.stage.busy = false) (hbusy' : r'.stage.busy = false)
    (hinside : r'.stage.inside = r.stage.inside)
    (hfull : r'.stage ≠ .mounting → r'.stage ≠ .ended → r.mounts.length = r.identity.length)
    (hleft : r'.stage = .leaving → r'.leaving = 0 :: r.mounts) : Sound (w.put k r') := by
  have hm := hs.mounted k r hfind
  have hb := hs.booked k r hfind
  have hidle := hb.idle hbusy
  have hactive : r.stage ≠ .active := by
    intro h
    rw [h] at hbusy
    cases hbusy
  have hbooked : Booked r' := by
    refine ⟨?_, ?_, ?_, fun _ => ?_, fun _ => ?_, fun thread op hop => ?_⟩
    · rw [hinside, hscope, hb.inside]
    · rw [hreserved]
      exact hb.reserved
    · rw [hcharged]
      exact hb.charged
    · rw [hreserved, hcharged]
      exact hidle
    · rw [hslots]
      exact hb.slots hactive
    · rw [hops, find_eq_some] at hop
      exact absurd (hnone ▸ hop) not_mem_nil
  refine hs.put hfind hmounts (hm.restage hidentity hmounts hscope hfull hleft) hbooked fun id => ?_
  exact (held_idle hbooked hbusy' (by rw [hops, hnone]) id).trans
    (held_idle hb hbusy hnone id).symm

/-- The scheduler leaves its loop, and nothing but the charges of its nodes goes on. -/
theorem Sound.drain (hstage : r.stage = .active)
    (hthread : r.ops.find none = none) (hslots : r.slots.items = []) :
    Sound (w.put k { r with stage := .draining }) := by
  have hm := hs.mounted k r hfind
  have hb := hs.booked k r hfind
  have hfull : r.mounts.length = r.identity.length :=
    hm.full (by rw [hstage]; exact RunStage.noConfusion) (by rw [hstage]; exact RunStage.noConfusion)
  have hinside := hb.inside
  rw [hstage] at hinside
  refine hs.put hfind rfl (hm.restage rfl rfl rfl (fun _ _ => hfull) fun h => RunStage.noConfusion h)
    ⟨hinside, hb.reserved, hb.charged, fun h => Bool.noConfusion h, fun _ => hslots, ?_⟩ fun _ => rfl
  intro thread op hop
  have ho := hb.ops thread op hop
  have hkind : op.kind = .charge := by
    by_contra hkind
    rw [ho.thread.mpr hkind, hthread] at hop
    cases hop
  refine ho.transfer ?_ ?_ rfl
  · rw [hkind]
    exact .inr rfl
  · rw [hkind]
    exact adds_nonneg ho (by rw [hkind]; rfl)

theorem Sound.release (hstage : r.stage = .draining) (hops : r.ops.items = []) :
    Sound (w.put k ({ r with stage := .releasing }.launch none
      { kind := .final, amount := -(r.reserved + r.charged), todo := w.gov.chain (r.path k) })) := by
  have hm := hs.mounted k r hfind
  have hb := hs.booked k r hfind
  have hinside := hb.inside
  rw [hstage] at hinside
  have hfull : r.mounts.length = r.identity.length :=
    hm.full (by rw [hstage]; exact RunStage.noConfusion) (by rw [hstage]; exact RunStage.noConfusion)
  have hslots := hb.slots (by rw [hstage]; exact RunStage.noConfusion)
  have hnone : ∀ thread op, r.ops.find thread ≠ some op := by
    intro thread op hop
    rw [find_eq_some, hops] at hop
    cases hop
  have hbooked : Booked { r with stage := .releasing } :=
    ⟨hinside, hb.reserved, hb.charged, fun h => Bool.noConfusion h, fun _ => hslots,
      fun thread op hop => absurd hop (hnone thread op)⟩
  refine hs.put hfind rfl (hm.restage rfl rfl rfl (fun _ _ => hfull) fun h => RunStage.noConfusion h)
    (booked_launch hbooked ?_) fun id => ?_
  · refine ⟨⟨fun _ h => OpKind.noConfusion h, fun _ => rfl⟩, rfl, rfl, nil_subset _,
      nodup_nil, fun _ => ?_, fun h => Bool.noConfusion h⟩
    exact hm.chain_path hb hinside.symm
  · refine (held_launch ?_ rfl).trans rfl
    exact eq_none_iff_forall_ne_some.mpr fun op => hnone none op

end

/-- Nothing is held when `yield_check` raises, and no plan is estimated at less than nothing. -/
def gentle (w : BudgetWorld) : String × BudgetAct → Bool
  | (k, .raise) => (w.runs.find k).all fun r => r.slots.items.isEmpty
  | (_, .reserve rows) => 0 ≤ rows
  | _ => true

theorem Sound.act (hs : Sound w) (hfind : w.runs.find k = some r) {a : BudgetAct}
    (hgentle : gentle w (k, a)) (hact : w.act k r a = some w') : Sound w' := by
  have hm := hs.mounted k r hfind
  have hb := hs.booked k r hfind
  cases a with
  | start tenant project session => cases hact
  | mount limits =>
    simp only [BudgetWorld.act, ite_none_right_eq_some] at hact
    obtain ⟨hstage, hact⟩ := hact
    split at hact
    · cases hact
    rename_i part rest hdrop
    split at hact
    · -- The scope above is there.
      rename_i hensure
      obtain ⟨parent, hparent⟩ := hs.parent hfind
      unfold ResourceGovernor.ensureScope at hensure
      split at hensure
      · cases hensure
      rw [hparent] at hensure
      cases hensure
    · rename_i gov id hensure
      cases hact
      exact hs.mount hfind hstage hdrop hensure
  | reject =>
    simp only [BudgetWorld.act, ite_none_right_eq_some, some.injEq] at hact
    obtain ⟨⟨hstage, hfull⟩, rfl⟩ := hact
    have hbusy : r.stage.busy = false := by rw [hstage]; rfl
    have hops := no_ops_idle hb (by rw [hstage]; exact RunStage.noConfusion) hbusy
    exact hs.restage hfind rfl rfl rfl rfl rfl rfl rfl hops hbusy rfl (by rw [hstage]; rfl)
      (fun _ _ => hfull) fun h => RunStage.noConfusion h
  | create limits =>
    simp only [BudgetWorld.act, ite_none_right_eq_some] at hact
    obtain ⟨⟨hstage, hfull⟩, hact⟩ := hact
    split at hact
    · rename_i hcreate
      obtain ⟨parent, hparent⟩ := hs.parent hfind
      rw [hfull, take_length] at hparent
      rw [createScope, hparent] at hcreate
      cases hcreate
    · rename_i gov id hcreate
      cases hact
      exact hs.create hfind hstage hfull hcreate
  | reserve rows =>
    simp only [BudgetWorld.act, ite_none_right_eq_some, some.injEq] at hact
    obtain ⟨⟨hstage, hthread⟩, rfl⟩ := hact
    exact hs.launch hfind hthread ⟨fun _ h => OpKind.noConfusion h, fun _ => rfl⟩ hstage
      (planUsage_nonneg (of_decide_eq_true hgentle))
  | deny =>
    simp only [BudgetWorld.act, ite_none_right_eq_some, some.injEq] at hact
    obtain ⟨⟨hstage, hthread⟩, rfl⟩ := hact
    have hops : r.ops.items = [] := by
      refine no_ops fun thread op hop => ?_
      rw [created_ops hb hstage hop, hthread] at hop
      cases hop
    have hfull : r.mounts.length = r.identity.length :=
      hm.full (by rw [hstage]; exact RunStage.noConfusion)
        (by rw [hstage]; exact RunStage.noConfusion)
    exact hs.restage hfind rfl rfl rfl rfl rfl rfl rfl hops (by rw [hstage]; rfl) rfl
      (by rw [hstage]; rfl) (fun _ _ => hfull) fun h => RunStage.noConfusion h
  | submit node units =>
    simp only [BudgetWorld.act, ite_none_right_eq_some, some.injEq] at hact
    obtain ⟨⟨hstage, hthread, hslot⟩, rfl⟩ := hact
    exact hs.launch hfind hthread ⟨fun _ h => OpKind.noConfusion h, fun _ => rfl⟩ hstage
      ⟨rfl, hslot⟩
  | settle node =>
    simp only [BudgetWorld.act, ite_none_right_eq_some] at hact
    obtain ⟨⟨hstage, hthread⟩, hact⟩ := hact
    split at hact
    · cases hact
    rename_i units hslot
    cases hact
    exact hs.launch hfind hthread ⟨fun _ h => OpKind.noConfusion h, fun _ => rfl⟩ hstage
      ⟨units, hslot, rfl⟩
  | charge node rows bytes =>
    simp only [BudgetWorld.act, ite_none_right_eq_some, some.injEq] at hact
    obtain ⟨⟨hstage, hthread⟩, rfl⟩ := hact
    exact hs.launch hfind hthread ⟨(fun h => by cases h), fun h => absurd rfl h⟩ hstage
      (nodeUsage_nonneg rows bytes)
  | move thread =>
    simp only [BudgetWorld.act] at hact
    split at hact
    · cases hact
    rename_i op hop
    cases hact
    exact hs.move hfind hop
  | drain =>
    simp only [BudgetWorld.act, ite_none_right_eq_some, some.injEq] at hact
    obtain ⟨⟨hstage, hthread, hslots⟩, rfl⟩ := hact
    exact hs.drain hfind hstage hthread hslots
  | raise =>
    simp only [BudgetWorld.act, ite_none_right_eq_some, some.injEq] at hact
    obtain ⟨⟨hstage, hthread⟩, rfl⟩ := hact
    rw [gentle, hfind, all_some, List.isEmpty_iff] at hgentle
    exact hs.drain hfind hstage hthread hgentle
  | release =>
    simp only [BudgetWorld.act, ite_none_right_eq_some, some.injEq] at hact
    obtain ⟨⟨hstage, hops⟩, rfl⟩ := hact
    exact hs.release hfind hstage hops
  | teardown =>
    simp only [BudgetWorld.act, ite_none_right_eq_some, some.injEq] at hact
    obtain ⟨hstage, rfl⟩ := hact
    exact hs.teardown hfind hstage
  | look =>
    simp only [BudgetWorld.act, ite_none_right_eq_some, some.injEq] at hact
    obtain ⟨hstage, rfl⟩ := hact
    have hbusy : r.stage.busy = false := by rw [hstage]; rfl
    have hops := no_ops_idle hb (by rw [hstage]; exact RunStage.noConfusion) hbusy
    have hfull : r.mounts.length = r.identity.length :=
      hm.full (by rw [hstage]; exact RunStage.noConfusion)
        (by rw [hstage]; exact RunStage.noConfusion)
    exact hs.restage hfind rfl rfl rfl rfl rfl rfl rfl hops hbusy rfl (by rw [hstage]; rfl)
      (fun _ _ => hfull) fun _ => hm.chain_identity hfull
  | unmount =>
    simp only [BudgetWorld.act, ite_none_right_eq_some, some.injEq] at hact
    obtain ⟨hstage, rfl⟩ := hact
    exact hs.unmount hfind hstage

theorem Sound.start (hs : Sound w) (hfind : w.runs.find k = none)
    (tenant project session : Option String) :
    Sound (w.put k { identity := identityOf tenant project session }) := by
  have hkinds : ∀ part ∈ identityOf tenant project session, part.1 ≠ .execution := by
    intro part hpart
    simp only [identityOf, mem_append, List.mem_map, Option.mem_toList] at hpart
    rcases hpart with (⟨_, -, rfl⟩ | ⟨_, -, rfl⟩) | ⟨_, -, rfl⟩ <;> exact ScopeKind.noConfusion
  have hbooked : Booked { identity := identityOf tenant project session } :=
    ⟨rfl, le_rfl, le_rfl, fun _ => ⟨rfl, rfl⟩, fun _ => rfl, fun _ _ hop => by cases hop⟩
  refine ⟨hs.rooted, fun k' r hfind' => ?_, fun k' r hfind' => ?_, fun id => ?_, fun id hid => ?_⟩
  · rw [BudgetWorld.put, find_set] at hfind'
    split at hfind'
    · cases hfind'
      exact ⟨Nat.zero_le _, fun h => absurd rfl h, fun i hi => absurd hi (Nat.not_lt_zero i),
        (fun id hid => by cases hid), hkinds, fun h => RunStage.noConfusion h⟩
    · exact hs.mounted k' r hfind'
  · rw [BudgetWorld.put, find_set] at hfind'
    split at hfind'
    · cases hfind'
      exact hbooked
    · exact hs.booked k' r hfind'
  · rw [BudgetWorld.put, sum_set_new (held id) hfind, held_idle hbooked rfl rfl, add_zero]
    exact hs.balanced id
  · rw [BudgetWorld.put, sum_set_new _ hfind]
    exact hs.refs id hid

theorem Sound.step (hs : Sound w) {ka : String × BudgetAct} (hgentle : gentle w ka)
    (hstep : w.step ka = some w') : Sound w' := by
  obtain ⟨k, a⟩ := ka
  unfold BudgetWorld.step at hstep
  split at hstep
  · rename_i tenant project session hfind ha
    cases hstep
    exact hs.start hfind tenant project session
  · cases hstep
  · rename_i r hfind
    exact hs.act hfind hgentle hstep

theorem sound_init (limits : Dim → Option Nat) : Sound (init limits) where
  rooted := by
    refine ⟨rfl, fun p id hp => ?_⟩
    have hfind : (Dict.empty.set ([] : ScopePath) 0).find p = some id := hp
    rw [find_set] at hfind
    split at hfind
    · rename_i hroot
      cases hfind
      exact ⟨hroot, Nat.zero_lt_one⟩
    · cases hfind
  mounted := fun _ _ hfind => by cases hfind
  booked := fun _ _ hfind => by cases hfind
  balanced := fun _ => rfl
  refs := fun _ _ => Nat.zero_le _

/-- Every scope carries what the runs in flight hold there, and every scope that a run has mounted
    is in the tree. -/
def Gauged (w : BudgetWorld) : Prop :=
  (∀ id, (w.gov.scopes id).usage =
    Dict.sum (fun r => if r.stage = .ended then 0 else r.held id) w.runs) ∧
  ∀ k r, w.runs.find k = some r → ∀ i < r.mounts.length,
    w.gov.tree.find (r.identity.take (i + 1)) = r.mounts[i]?

/-- In every run in which no slot is held when `yield_check` raises, and no plan is estimated at
    less than nothing, usage is a gauge. -/
theorem gauge_kept (limits : Dim → Option Nat)
    (h : Relation.ReflTransGen (Step step gentle) (init limits) w) : Gauged w := by
  have hs : Sound w := run_induction (fun hs => hs.step) (sound_init limits) h
  refine ⟨fun id => ?_, fun k r hfind => (hs.mounted k r hfind).found⟩
  rw [hs.balanced]
  refine Dict.sum_congr _ fun kv hkv => ?_
  split
  · rename_i hstage
    have hb := hs.booked kv.1 kv.2 (find_eq_some.mpr hkv)
    have hbusy : kv.2.stage.busy = false := by rw [hstage]; rfl
    exact held_idle hb hbusy (no_ops_idle hb (by rw [hstage]; exact RunStage.noConfusion) hbusy) id
  · rfl

/-- A run in a session, up to its first slot. -/
def opening : List (String × BudgetAct) :=
  [("run", .start none none (some "s")), ("run", .mount fun _ => none),
    ("run", .create fun _ => none), ("run", .reserve 5)] ++
    List.replicate 4 ("run", .move none) ++ [("run", .submit "n" 1)] ++
    List.replicate 4 ("run", .move none)

/-- `yield_check` raises while the node is in flight, and the run ends. -/
def raised : List (String × BudgetAct) :=
  opening ++ [("run", .raise), ("run", .charge "n" 3 100)] ++
    List.replicate 4 ("run", .move (some "n")) ++ [("run", .release)] ++
    List.replicate 4 ("run", .move none) ++ [("run", .teardown), ("run", .look), ("run", .unmount)]

/-- The node settles before the run ends. -/
def settled : List (String × BudgetAct) :=
  opening ++ [("run", .charge "n" 3 100)] ++ List.replicate 4 ("run", .move (some "n")) ++
    [("run", .settle "n")] ++ List.replicate 4 ("run", .move none) ++
    [("run", .drain), ("run", .release)] ++ List.replicate 4 ("run", .move none) ++
    [("run", .teardown), ("run", .look), ("run", .unmount)]

/-- The slot of the node stays in every scope of the chain. -/
theorem raised_leaves_slot : ¬ ∀ limits w,
    Relation.ReflTransGen (Step step fun _ _ => true) (init limits) w → Gauged w := by
  intro hall
  obtain ⟨w, hw⟩ : ∃ w, play step (fun _ _ => true) (init fun _ => none) raised = some w :=
    ⟨_, rfl⟩
  have husage := congrFun ((hall _ w (run_of_play hw)).1 0) .concurrency
  cases hw
  exact absurd husage (by decide)

theorem settled_gauged : ∃ w,
    play step gentle (init fun _ => none) settled = some w ∧ Gauged w := by
  obtain ⟨w, hw⟩ : ∃ w, play step gentle (init fun _ => none) settled = some w := ⟨_, rfl⟩
  exact ⟨w, hw, gauge_kept _ (run_of_play hw)⟩

end BudgetWorld

end WebGis.Compute
