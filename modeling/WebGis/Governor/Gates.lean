/-
  The gates of the sessions over every order of calls, completions and dropped gates.

  A ticket names its session only. Where a gate is dropped or makes room while someone has it in
  hand, or a ticket is issued for a wait that was let through, more calls get in than the session
  may have (`observed_gets_in`). Otherwise every call of a session is on the one gate of its
  session, and the numbers are kept (`gates_conserved`).
-/
import WebGis.Governor.Admission
import WebGis.Data.Play

namespace WebGis.Governor

open Data List Option Dict SessionGate AdmitCall

namespace AdmitCall

variable {c : AdmitCall} {g : Nat}

/-- `gate.acquire` has returned, and the slot has not been given back. -/
def holds (c : AdmitCall) : Bool :=
  match c.phase with
  | .heavyWait _ => false
  | _ => c.semOn.isSome

/-- A ticket is one for a slot, its release goes to the gate of the slot, and only a heavy call
    comes to a heavy slot. -/
def slotted (cfg : GovernorConfig) (c : AdmitCall) : Bool :=
  match c.phase with
  | .heavyWait _ => c.heavy
  | .leaving _ timedOut => c.heavy ∧ (cfg.mode = .enforce ∨ timedOut = false)
  | .ticketed slot => slot.isSome
  | .holding slot => slot.isSome
  | .giving slot => slot.isSome
  | .returning slot g => c.heavy ∧ slot = some g
  | _ => true

theorem semOn_of_heavyOn (h : c.heavyOn = some g) : c.semOn = some g := by
  unfold heavyOn at h
  split at h
  · cases h
  split at h
  · exact h
  · cases h

theorem uses_of_semOn (h : c.semOn = some g) : c.uses = some g := by
  unfold uses
  split
  · rename_i hphase
    rw [semOn, hphase] at h
    cases h
  · exact h

theorem heavyOn_eq_none (h : c.semOn = none) : c.heavyOn = none := by
  refine eq_none_iff_forall_ne_some.mpr fun g hheavy => ?_
  rw [semOn_of_heavyOn hheavy] at h
  cases h

@[simp] theorem semOn_done (c : AdmitCall) : (c.moved .done).semOn = none := rfl

@[simp] theorem heavyOn_done (c : AdmitCall) : (c.moved .done).heavyOn = none :=
  heavyOn_eq_none rfl

theorem semOn_of_holds (h : c.holds) : c.semOn.isSome := by
  unfold holds at h
  split at h
  · cases h
  · exact h

theorem heavyOn_of_holds (h : c.holds) (hheavy : c.heavy) : c.heavyOn.isSome := by
  unfold holds at h
  unfold heavyOn
  cases hphase : c.phase with
  | heavyWait g =>
    rw [hphase] at h
    cases h
  | _ =>
    rw [hphase] at h
    rw [if_pos hheavy]
    exact h

end AdmitCall

namespace AdmissionWorld

variable {cfg : GovernorConfig} {w : AdmissionWorld} {k : Nat} {c : AdmitCall} {g : Nat}

/-- The calls on one gate, and those that have a heavy slot there. -/
def onGate (w : AdmissionWorld) (g : Nat) : Nat :=
  w.calls.items.countP fun kv => kv.2.semOn = some g

def heavyOnGate (w : AdmissionWorld) (g : Nat) : Nat :=
  w.calls.items.countP fun kv => kv.2.heavyOn = some g

structure Sound (cfg : GovernorConfig) (w : AdmissionWorld) : Prop where
  sems : ∀ g < w.next, (w.gates g).sem + w.onGate g = max 1 cfg.sessionConcurrency
  heavies : ∀ g < w.next, (w.gates g).heavyInFlight = w.heavyOnGate g
  bounded : ∀ g < w.next, (w.gates g).heavyInFlight ≤ max 1 cfg.sessionHeavy
  uses : ∀ k c, w.calls.find k = some c → ∀ g, c.uses = some g → w.table.find c.key = some g
  made : ∀ s g, w.table.find s = some g → g < w.next
  slotted : ∀ k c, w.calls.find k = some c → c.slotted cfg = true
  releases : ∀ p ∈ w.releases, p.1 = some p.2

theorem onGate_put (w : AdmissionWorld) (k : Nat) (c' : AdmitCall) (g : Nat)
    (hfind : w.calls.find k = some c) :
    (w.put k c').onGate g + (decide (c.semOn = some g)).toNat =
      w.onGate g + (decide (c'.semOn = some g)).toNat := by
  have hcount := Dict.countP_set w.calls k c' fun c => c.semOn = some g
  rw [hfind, any_some] at hcount
  exact hcount

theorem heavyOnGate_put (w : AdmissionWorld) (k : Nat) (c' : AdmitCall) (g : Nat)
    (hfind : w.calls.find k = some c) :
    (w.put k c').heavyOnGate g + (decide (c.heavyOn = some g)).toNat =
      w.heavyOnGate g + (decide (c'.heavyOn = some g)).toNat := by
  have hcount := Dict.countP_set w.calls k c' fun c => c.heavyOn = some g
  rw [hfind, any_some] at hcount
  exact hcount

theorem Sound.heavy_pos (hs : Sound cfg w) (hfind : w.calls.find k = some c)
    (hheavy : c.heavyOn = some g) : 0 < (w.gates g).heavyInFlight := by
  have htable := hs.uses k c hfind g (uses_of_semOn (semOn_of_heavyOn hheavy))
  rw [hs.heavies g (hs.made _ g htable), heavyOnGate, countP_pos_iff]
  exact ⟨(k, c), find_eq_some.mp hfind, decide_eq_true hheavy⟩

variable {phase : CallPhase}

theorem Sound.moveAt (hs : Sound cfg w) (hfind : w.calls.find k = some c)
    {f : SessionGate → SessionGate} (huses : c.uses = some g)
    (huses' : (c.moved phase).uses = some g ∨ (c.moved phase).uses = none)
    (hsem : (f (w.gates g)).sem + (decide ((c.moved phase).semOn = some g)).toNat =
      (w.gates g).sem + (decide (c.semOn = some g)).toNat)
    (hheavy : (f (w.gates g)).heavyInFlight + (decide (c.heavyOn = some g)).toNat =
      (w.gates g).heavyInFlight + (decide ((c.moved phase).heavyOn = some g)).toNat)
    (hbounded : (f (w.gates g)).heavyInFlight ≤ max 1 cfg.sessionHeavy)
    (hslotted : (c.moved phase).slotted cfg) :
    Sound cfg ((w.modifyGate g f).put k (c.moved phase)) := by
  have htable := hs.uses k c hfind g huses
  have hother : ∀ g' ≠ g, c.semOn ≠ some g' ∧ (c.moved phase).semOn ≠ some g' := by
    intro g' hg'
    constructor
    · intro h
      have huses₀ := uses_of_semOn h
      rw [huses, some_inj] at huses₀
      exact hg' huses₀.symm
    · intro h
      have huses₀ := uses_of_semOn h
      rcases huses' with h' | h'
      · rw [h', some_inj] at huses₀
        exact hg' huses₀.symm
      · rw [h'] at huses₀
        cases huses₀
  refine ⟨fun g' hg' => ?_, fun g' hg' => ?_, fun g' hg' => ?_, fun k' c' hfind' g' hg' => ?_,
    hs.made, fun k' c' hfind' => ?_, hs.releases⟩
  · have hcount := onGate_put (w.modifyGate g f) k (c.moved phase) g' hfind
    have hold := hs.sems g' hg'
    change (Function.update w.gates g (f (w.gates g)) g').sem + _ = _
    change _ = w.onGate g' + _ at hcount
    by_cases hgg : g' = g
    · subst hgg
      rw [Function.update_self]
      omega
    · rw [decide_eq_false (hother g' hgg).1, decide_eq_false (hother g' hgg).2] at hcount
      rw [Function.update_of_ne hgg]
      exact (congrArg _ hcount).trans hold
  · have hcount := heavyOnGate_put (w.modifyGate g f) k (c.moved phase) g' hfind
    have hold := hs.heavies g' hg'
    change (Function.update w.gates g (f (w.gates g)) g').heavyInFlight = _
    change _ = w.heavyOnGate g' + _ at hcount
    by_cases hgg : g' = g
    · subst hgg
      rw [Function.update_self]
      omega
    · rw [decide_eq_false fun h => (hother g' hgg).1 (semOn_of_heavyOn h),
        decide_eq_false fun h => (hother g' hgg).2 (semOn_of_heavyOn h)] at hcount
      rw [Function.update_of_ne hgg, hold]
      exact hcount.symm
  · change (Function.update w.gates g (f (w.gates g)) g').heavyInFlight ≤ _
    by_cases hgg : g' = g
    · subst hgg
      rw [Function.update_self]
      exact hbounded
    · rw [Function.update_of_ne hgg]
      exact hs.bounded g' hg'
  · change (w.calls.set k (c.moved phase)).find k' = some c' at hfind'
    rw [find_set] at hfind'
    split at hfind'
    · cases hfind'
      rcases huses' with h' | h'
      · rw [h', some_inj] at hg'
        exact hg' ▸ htable
      · rw [h'] at hg'
        cases hg'
    · exact hs.uses k' c' hfind' g' hg'
  · change (w.calls.set k (c.moved phase)).find k' = some c' at hfind'
    rw [find_set] at hfind'
    split at hfind'
    · cases hfind'
      exact hslotted
    · exact hs.slotted k' c' hfind'

@[simp] theorem modifyGate_id (w : AdmissionWorld) (g : Nat) : w.modifyGate g id = w := by
  cases w
  simp [modifyGate]

theorem Sound.putAt (hs : Sound cfg w) (hfind : w.calls.find k = some c) (huses : c.uses = some g)
    (huses' : (c.moved phase).uses = some g ∨ (c.moved phase).uses = none)
    (hsem : (c.moved phase).semOn = some g ↔ c.semOn = some g)
    (hheavy : (c.moved phase).heavyOn = some g ↔ c.heavyOn = some g)
    (hslotted : (c.moved phase).slotted cfg) : Sound cfg (w.put k (c.moved phase)) := by
  have hg := hs.made _ g (hs.uses k c hfind g huses)
  rw [← modifyGate_id w g]
  refine hs.moveAt hfind huses huses' ?_ ?_ (hs.bounded g hg) hslotted
  · rw [decide_eq_decide.mpr hsem]
    rfl
  · rw [decide_eq_decide.mpr hheavy]
    rfl

theorem Sound.putFree (hs : Sound cfg w) {c' : AdmitCall} (k : Nat)
    (hsem : ∀ c, w.calls.find k = some c → c.semOn = none) (hsem' : c'.semOn = none)
    (huses : ∀ g, c'.uses = some g → w.table.find c'.key = some g)
    (hslotted : c'.slotted cfg) : Sound cfg (w.put k c') := by
  have hcount (p : AdmitCall → Bool) (hp : ∀ c, c.semOn = none → p c = false) :
      (w.calls.set k c').items.countP (fun kv => p kv.2) = w.calls.items.countP fun kv => p kv.2 := by
    have hset := Dict.countP_set w.calls k c' p
    have hnone : (w.calls.find k).any p = false := by
      cases hfind : w.calls.find k with
      | none => rfl
      | some c => exact hp c (hsem c hfind)
    rw [hnone, hp c' hsem'] at hset
    exact hset
  refine ⟨fun g hg => ?_, fun g hg => ?_, hs.bounded, fun k' c₀ hfind' g hg => ?_, hs.made,
    fun k' c₀ hfind' => ?_, hs.releases⟩
  · rw [← hs.sems g hg]
    refine congrArg _ (hcount (fun c => c.semOn = some g) fun c h => decide_eq_false ?_)
    rw [h]
    exact (some_ne_none g).symm
  · refine (hs.heavies g hg).trans (hcount (fun c => c.heavyOn = some g) fun c h =>
      decide_eq_false ?_).symm
    rw [heavyOn_eq_none h]
    exact (some_ne_none g).symm
  · change (w.calls.set k c').find k' = some c₀ at hfind'
    rw [find_set] at hfind'
    split at hfind'
    · cases hfind'
      exact huses g hg
    · exact hs.uses k' c₀ hfind' g hg
  · change (w.calls.set k c').find k' = some c₀ at hfind'
    rw [find_set] at hfind'
    split at hfind'
    · cases hfind'
      exact hslotted
    · exact hs.slotted k' c₀ hfind'

theorem Sound.mapCalls (hs : Sound cfg w) {f : AdmitCall → AdmitCall}
    (hf : ∀ c, (f c).key = c.key ∧ (f c).semOn = c.semOn ∧ (f c).heavyOn = c.heavyOn ∧
      (f c).uses = c.uses ∧ (c.slotted cfg → (f c).slotted cfg)) :
    Sound cfg { w with calls := mapValues f w.calls } := by
  have hback {k : Nat} {c' : AdmitCall} (h : (mapValues f w.calls).find k = some c') :
      ∃ c, w.calls.find k = some c ∧ c' = f c := by
    rw [find_mapValues, map_eq_some_iff] at h
    obtain ⟨c, hfind, rfl⟩ := h
    exact ⟨c, hfind, rfl⟩
  refine ⟨fun g hg => ?_, fun g hg => ?_, hs.bounded, fun k c' hfind g hg => ?_, hs.made,
    fun k c' hfind => ?_, hs.releases⟩
  · rw [← hs.sems g hg]
    refine congrArg _ ((countP_map ..).trans (countP_congr fun kv _ => ?_))
    simp [(hf kv.2).2.1]
  · rw [hs.heavies g hg]
    refine ((countP_map ..).trans (countP_congr fun kv _ => ?_)).symm
    simp [(hf kv.2).2.2.1]
  · obtain ⟨c, hfound, rfl⟩ := hback hfind
    rw [(hf c).2.2.2.1] at hg
    rw [(hf c).1]
    exact hs.uses k c hfound g hg
  · obtain ⟨c, hfound, rfl⟩ := hback hfind
    exact (hf c).2.2.2.2 (hs.slotted k c hfound)

theorem Sound.logged (hs : Sound cfg w) (g : Nat) : Sound cfg (w.logged (some g) g) where
  sems := hs.sems
  heavies := hs.heavies
  bounded := hs.bounded
  uses := hs.uses
  made := hs.made
  slotted := hs.slotted
  releases := by
    intro p hp
    rcases mem_append.mp hp with hp | hp
    · exact hs.releases p hp
    · rw [mem_singleton.mp hp]

/-! ### The steps of a call -/

/-- A wait that ends so is not let through. -/
def quiet (cfg : GovernorConfig) (timedOut : Bool) : Prop := cfg.mode = .enforce ∨ timedOut = false

variable {timedOut : Bool}

theorem outcome_quiet (h : quiet cfg timedOut) : outcome cfg timedOut = .done := by
  refine if_neg fun hout => ?_
  rcases h with h | h
  · rw [h] at hout
    cases hout.1
  · rw [h] at hout
    cases hout.2

theorem Sound.leaveGate (hs : Sound cfg w) (hfind : w.calls.find k = some c)
    (hquiet : quiet cfg timedOut) (hsem : c.semOn = some g)
    (hheavy : c.heavyOn = if c.heavy then some g else none) :
    Sound cfg (leaveGate cfg w k c g timedOut) := by
  have huses := uses_of_semOn hsem
  have hg := hs.made _ g (hs.uses k c hfind g huses)
  unfold AdmissionWorld.leaveGate
  split
  · rename_i hh
    rw [if_pos hh] at hheavy
    refine hs.moveAt hfind huses (.inl rfl) ?_ ?_ (hs.bounded g hg)
      (decide_eq_true ⟨hh, hquiet⟩)
    · rw [hsem]
      rfl
    · have hmoved : (c.moved (.leaving g timedOut)).heavyOn = some g := if_pos hh
      rw [hheavy, hmoved]
      rfl
  · rename_i hh
    rw [if_neg hh] at hheavy
    rw [outcome_quiet hquiet]
    refine hs.moveAt hfind huses (.inr rfl) ?_ ?_ (hs.bounded g hg) rfl
    · rw [hsem]
      simp [giveSem, SessionGate.unhold, semOn, moved]
    · rw [hheavy, heavyOn_done]
      rfl

variable {w' : AdmissionWorld}

section

variable (hs : Sound cfg w) (hfind : w.calls.find k = some c)
include hs hfind

theorem Sound.giveUp (hquiet : quiet cfg timedOut) (hstep : giveUp cfg w k c timedOut = some w') : Sound cfg w' := by
  unfold AdmissionWorld.giveUp at hstep
  split at hstep
  · rename_i g hphase
    cases hstep
    rw [outcome_quiet hquiet]
    refine hs.putFree k (fun c₀ hfind₀ => ?_) rfl (fun g h => by cases h) rfl
    rw [hfind, some_inj] at hfind₀
    rw [← hfind₀, semOn, hphase]
  · rename_i g hphase
    cases hstep
    rw [outcome_quiet hquiet]
    have hsem : c.semOn = some g := by rw [semOn, hphase]
    have huses := uses_of_semOn hsem
    have hg := hs.made _ g (hs.uses k c hfind g huses)
    refine hs.moveAt hfind huses (.inr rfl) ?_ ?_ (hs.bounded g hg) rfl
    · rw [hsem]
      simp [giveSem]
    · have hheavy : c.heavyOn = none := by rw [heavyOn, hphase]
      rw [hheavy, heavyOn_done]
      rfl
  · rename_i g hphase
    cases hstep
    exact hs.leaveGate hfind hquiet (by rw [semOn, hphase])
      (by simp [heavyOn, semOn, hphase])
  · rename_i g hphase
    cases hstep
    exact hs.leaveGate hfind hquiet (by rw [semOn, hphase])
      (by simp [heavyOn, semOn, hphase])
  · rename_i g hphase
    cases hstep
    exact hs.leaveGate hfind hquiet (by rw [semOn, hphase])
      (by simp [heavyOn, semOn, hphase])
  · cases hstep

theorem Sound.takeSem (hphase : c.phase = .entering g) (hfree : 0 < (w.gates g).sem) :
    Sound cfg (if c.heavy then (w.modifyGate g .takeSem).put k (c.moved (.heavyWait g))
      else (w.modifyGate g fun s => s.takeSem.hold).put k (c.moved (.inside g))) := by
  have huses : c.uses = some g := by rw [AdmitCall.uses, hphase]
  have hg := hs.made _ g (hs.uses k c hfind g huses)
  split
  · rename_i hh
    refine hs.moveAt hfind huses (.inl rfl) ?_ ?_ (hs.bounded g hg) hh
    · simp only [SessionGate.takeSem, semOn, moved, hphase]
      simp
      omega
    · simp [SessionGate.takeSem, heavyOn, semOn, moved, hphase]
  · rename_i hh
    refine hs.moveAt hfind huses (.inl rfl) ?_ ?_ (hs.bounded g hg) rfl
    · simp only [SessionGate.takeSem, SessionGate.hold, semOn, moved, hphase]
      simp
      omega
    · have hmoved : (c.moved (.inside g)).heavyOn = none := if_neg hh
      rw [hmoved]
      simp [SessionGate.takeSem, SessionGate.hold, heavyOn, semOn, hphase]

theorem Sound.takeHeavy (hphase : c.phase = .heavyWait g) (hfree : (w.gates g).heavyInFlight < max 1 cfg.sessionHeavy) :
    Sound cfg ((w.modifyGate g fun s => s.takeHeavy.hold).put k (c.moved (.inside g))) := by
  have hheavy := hs.slotted k c hfind
  rw [AdmitCall.slotted, hphase] at hheavy
  have hsem : c.semOn = some g := by rw [AdmitCall.semOn, hphase]
  have hmoved : (c.moved (.inside g)).heavyOn = some g := if_pos hheavy
  have hnone : c.heavyOn = none := by rw [heavyOn, hphase]
  refine hs.moveAt hfind (uses_of_semOn hsem) (.inl rfl) ?_ ?_ hfree rfl
  · rw [hsem]
    rfl
  · rw [hmoved, hnone]
    simp [SessionGate.takeHeavy, SessionGate.hold]

theorem Sound.giveHeavy (hsem : c.semOn = some g) (hheavy : c.heavyOn = some g) :
    Sound cfg ((w.modifyGate g fun s => s.giveHeavy.giveSem).put k (c.moved .done)) := by
  have huses := uses_of_semOn hsem
  have hg := hs.made _ g (hs.uses k c hfind g huses)
  have hpos := hs.heavy_pos hfind hheavy
  have hbounded := hs.bounded g hg
  refine hs.moveAt hfind huses (.inr rfl) ?_ ?_ ?_ rfl
  · rw [hsem]
    simp [SessionGate.giveHeavy, giveSem, semOn, moved]
  · rw [hheavy]
    simp only [SessionGate.giveHeavy, giveSem, heavyOn_done]
    simp
    omega
  · change (w.gates g).heavyInFlight - 1 ≤ _
    omega

theorem Sound.lookUp {slot : Option Nat}
    (hphase : c.phase = .giving slot) : Sound cfg (w.lookUp k c slot) := by
  have hslotted := hs.slotted k c hfind
  rw [AdmitCall.slotted, hphase] at hslotted
  obtain ⟨g, rfl⟩ := isSome_iff_exists.mp hslotted
  have hsem : c.semOn = some g := by rw [AdmitCall.semOn, hphase]
  have huses := uses_of_semOn hsem
  have htable := hs.uses k c hfind g huses
  have hg := hs.made _ g htable
  have hlogged := hs.logged g
  unfold AdmissionWorld.lookUp
  rw [htable]
  dsimp only
  split
  · rename_i hh
    have hheavy : c.heavyOn = some g := by
      rw [heavyOn, hphase]
      exact (if_pos hh.1).trans hsem
    have hmoved : (c.moved (.returning (some g) g)).heavyOn = some g := if_pos hh.1
    refine hlogged.moveAt hfind huses (.inl rfl) ?_ ?_ (hs.bounded g hg)
      (decide_eq_true ⟨hh.1, rfl⟩)
    · rw [hsem]
      rfl
    · rw [hheavy, hmoved]
      rfl
  · rename_i hh
    have hheavy : c.heavyOn = none := by
      rw [heavyOn, hphase]
      exact if_neg fun h => hh ⟨h, rfl⟩
    refine hlogged.moveAt hfind huses (.inr rfl) ?_ ?_ (hs.bounded g hg) rfl
    · rw [hsem]
      simp [giveSem, SessionGate.unhold]
    · rw [hheavy, heavyOn_done]
      rfl

end

/-- No call has the gate of this session in hand. -/
def unused (w : AdmissionWorld) (key : String) : Bool :=
  (w.table.find key).all fun g => w.calls.items.all fun kv => kv.2.uses ≠ some g

theorem unused_ne {key : String} (h : w.unused key) (htable : w.table.find key = some g)
    (hfind : w.calls.find k = some c) : c.uses ≠ some g := by
  rw [unused, htable, all_some, List.all_eq_true] at h
  exact of_decide_eq_true (h (k, c) (find_eq_some.mp hfind))

theorem Sound.drop (hs : Sound cfg w) (gone : String → Bool)
    (hgone : ∀ key, gone key → w.unused key) :
    Sound cfg { w with table := Table.delete w.table fun kv => gone kv.1 } where
  sems := hs.sems
  heavies := hs.heavies
  bounded := hs.bounded
  uses := by
    intro k c hfind g hg
    have htable := hs.uses k c hfind g hg
    rw [Dict.find_delete, htable]
    cases hkey : gone c.key with
    | false => simp [Option.filter, hkey]
    | true => exact absurd hg (unused_ne (hgone c.key hkey) htable hfind)
  made := by
    intro s g htable
    rw [Dict.find_delete] at htable
    exact hs.made s g (eq_some_of_filter_eq_some htable)
  slotted := hs.slotted
  releases := hs.releases

theorem Sound.make (hs : Sound cfg w) (key : String) (hnone : w.table.find key = none) :
    Sound cfg { w with
      gates := Function.update w.gates w.next { sem := max 1 cfg.sessionConcurrency }
      next := w.next + 1
      table := w.table.set key w.next } := by
  have hfree : ∀ kv ∈ w.calls.items, kv.2.semOn ≠ some w.next := by
    intro kv hkv hsem
    have htable := hs.uses kv.1 kv.2 (find_eq_some.mpr hkv) _ (uses_of_semOn hsem)
    exact lt_irrefl _ (hs.made _ _ htable)
  have hsems : w.onGate w.next = 0 := by
    rw [onGate, countP_eq_zero]
    intro kv hkv
    simpa using hfree kv hkv
  have hheavies : w.heavyOnGate w.next = 0 := by
    rw [heavyOnGate, countP_eq_zero]
    intro kv hkv
    simpa using fun h => hfree kv hkv (semOn_of_heavyOn h)
  refine ⟨fun g hg => ?_, fun g hg => ?_, fun g hg => ?_, fun k c hfind g hg => ?_,
    fun s g htable => ?_, hs.slotted, hs.releases⟩
  · dsimp only at hg ⊢
    by_cases hgg : g = w.next
    · subst hgg
      rw [Function.update_self]
      exact congrArg (max 1 cfg.sessionConcurrency + ·) hsems
    · rw [Function.update_of_ne hgg]
      exact hs.sems g (by omega)
  · dsimp only at hg ⊢
    by_cases hgg : g = w.next
    · subst hgg
      rw [Function.update_self]
      exact hheavies.symm
    · rw [Function.update_of_ne hgg]
      exact hs.heavies g (by omega)
  · dsimp only at hg ⊢
    by_cases hgg : g = w.next
    · subst hgg
      rw [Function.update_self]
      exact Nat.zero_le _
    · rw [Function.update_of_ne hgg]
      exact hs.bounded g (by omega)
  · have htable := hs.uses k c hfind g hg
    rw [find_set_ne]
    · exact htable
    · rintro rfl
      rw [hnone] at htable
      cases htable
  · dsimp only at htable ⊢
    rw [find_set] at htable
    split at htable
    · cases htable
      exact Nat.lt_succ_self _
    · exact Nat.lt_succ_of_lt (hs.made s g htable)

theorem Sound.look (hs : Sound cfg w) (hfind : w.calls.find k = some c)
    (hphase : c.phase = .decided)
    (hunused : (w.table.find c.key).isSome ∨ ∀ s ∈ w.victims c.key, w.unused s) :
    Sound cfg ((gateFor cfg w c.key).1.put k (c.moved (.entering (gateFor cfg w c.key).2))) := by
  have hsem : ∀ c₀, w.calls.find k = some c₀ → c₀.semOn = none := by
    intro c₀ hfind₀
    rw [hfind, some_inj] at hfind₀
    rw [← hfind₀, semOn, hphase]
  unfold gateFor
  split
  · rename_i g htable
    exact hs.putFree k hsem rfl (fun g' h => (some_inj.mp h) ▸ htable) rfl
  · rename_i hnone
    rw [hnone] at hunused
    have hvictims := hunused.resolve_left (by simp)
    have hleft := hs.drop (fun s => s ∈ w.victims c.key) fun s h =>
      hvictims s (of_decide_eq_true h)
    have hmade := hleft.make c.key (by rw [Dict.find_delete, hnone]; rfl)
    refine hmade.putFree k hsem rfl (fun g' h => ?_) rfl
    rw [← some_inj.mp h]
    exact find_set_self _ _ _

/-- The waits that a call of an observing governor must not end so. -/
def steadyCall (cfg : GovernorConfig) (w : AdmissionWorld) (c : AdmitCall) : CallStep → Bool
  | .look => (w.table.find c.key).isSome ∨ ∀ s ∈ w.victims c.key, w.unused s = true
  | .timeout => cfg.mode = .enforce
  | .resume => cfg.mode = .enforce ∨ ∀ g ∈ c.uses, c.phase ≠ .dismissed g
  | _ => true

/-- The session whose gate goes. -/
def dropped : SessionEnd → Option String
  | .dropping sessionId => some sessionId
  | _ => none

/-- No gate is dropped that a call has in hand, and no call is let through without a slot. -/
def steady (cfg : GovernorConfig) (w : AdmissionWorld) : AdmissionAction → Bool
  | .call k s => (w.calls.find k).all fun c => steadyCall cfg w c s
  | .goOn run .drop => ((w.ends.find run).bind dropped).all w.unused
  | _ => true

theorem Sound.keep (hs : Sound cfg w) (hfind : w.calls.find k = some c) (hsem : c.semOn = some g)
    (hheavy : c.heavyOn = if c.heavy then some g else none) (hsem' : (c.moved phase).semOn = some g)
    (hheavy' : (c.moved phase).heavyOn = if c.heavy then some g else none)
    (hslotted : (c.moved phase).slotted cfg) : Sound cfg (w.put k (c.moved phase)) := by
  refine hs.putAt hfind (uses_of_semOn hsem) (.inl (uses_of_semOn hsem'))
    ?_ ?_ hslotted
  · rw [hsem, hsem']
  · rw [hheavy, hheavy']

theorem Sound.act (hs : Sound cfg w) (hfind : w.calls.find k = some c) {s : CallStep}
    (hsteady : steadyCall cfg w c s) (hstep : act cfg w k c s = some w') : Sound cfg w' := by
  have hslotted := hs.slotted k c hfind
  cases s with
  | look =>
    rw [AdmissionWorld.act] at hstep
    split at hstep
    · rename_i hphase
      cases hstep
      exact hs.look hfind hphase (of_decide_eq_true hsteady)
    · cases hstep
  | takeSem =>
    rw [AdmissionWorld.act] at hstep
    split at hstep
    · rename_i g hphase
      split at hstep
      · rename_i hfree
        have htaken := hs.takeSem hfind hphase hfree
        split at hstep
        · rename_i hh
          cases hstep
          rwa [if_pos hh] at htaken
        · rename_i hh
          cases hstep
          rwa [if_neg hh] at htaken
      · cases hstep
    · cases hstep
  | takeHeavy =>
    rw [AdmissionWorld.act] at hstep
    split at hstep
    · rename_i g hphase
      split at hstep
      · rename_i hfree
        cases hstep
        exact hs.takeHeavy hfind hphase hfree
      · cases hstep
    · cases hstep
  | ask free =>
    rw [AdmissionWorld.act] at hstep
    split at hstep
    · rename_i g hphase
      have hsem : c.semOn = some g := by rw [semOn, hphase]
      have hheavy : c.heavyOn = if c.heavy then some g else none := by
        simp [heavyOn, semOn, hphase]
      split at hstep
      · cases hstep
        exact hs.keep hfind hsem hheavy rfl rfl rfl
      · cases hstep
        exact hs.keep hfind hsem hheavy rfl rfl rfl
    · cases hstep
  | grant =>
    rw [AdmissionWorld.act] at hstep
    split at hstep
    · rename_i g hphase
      cases hstep
      exact hs.keep hfind (by rw [semOn, hphase])
        (by simp [heavyOn, semOn, hphase]) rfl rfl rfl
    · cases hstep
  | resume =>
    rw [AdmissionWorld.act] at hstep
    split at hstep
    · rename_i g hphase
      cases hstep
      exact hs.keep hfind (by rw [semOn, hphase])
        (by simp [heavyOn, semOn, hphase]) rfl rfl rfl
    · rename_i g hphase
      cases hstep
      have hsem : c.semOn = some g := by rw [semOn, hphase]
      have hquiet : quiet cfg true := by
        refine .inl ((of_decide_eq_true hsteady).resolve_right fun h => ?_)
        exact h g (uses_of_semOn hsem) hphase
      exact hs.leaveGate hfind hquiet hsem
        (by simp [heavyOn, semOn, hphase])
    · cases hstep
  | timeout => exact hs.giveUp hfind (.inl (of_decide_eq_true hsteady)) hstep
  | fail =>
    rw [AdmissionWorld.act] at hstep
    split at hstep
    · rename_i hphase
      cases hstep
      refine hs.putFree k (fun c₀ hfind₀ => ?_) rfl (fun g h => by cases h) rfl
      rw [hfind, some_inj] at hfind₀
      rw [← hfind₀, semOn, hphase]
    · rename_i g hphase
      cases hstep
      exact hs.leaveGate hfind (.inr rfl) (by rw [semOn, hphase])
        (by simp [heavyOn, semOn, hphase])
    · rename_i slot hphase
      cases hstep
      rw [AdmitCall.slotted, hphase] at hslotted
      obtain ⟨g, rfl⟩ := isSome_iff_exists.mp hslotted
      exact hs.keep hfind (by rw [AdmitCall.semOn, hphase])
        (by simp [heavyOn, semOn, hphase]) rfl rfl rfl
    · exact hs.giveUp hfind (.inr rfl) hstep
  | leave =>
    rw [AdmissionWorld.act] at hstep
    split at hstep
    · rename_i g timedOut hphase
      cases hstep
      rw [AdmitCall.slotted, hphase] at hslotted
      obtain ⟨hheavy, hquiet⟩ := of_decide_eq_true hslotted
      rw [outcome_quiet hquiet]
      have hsem : c.semOn = some g := by rw [semOn, hphase]
      refine hs.giveHeavy hfind hsem ?_
      rw [heavyOn, hphase]
      exact (if_pos hheavy).trans hsem
    · cases hstep
  | register =>
    rw [AdmissionWorld.act] at hstep
    split at hstep
    · rename_i slot hphase
      cases hstep
      rw [AdmitCall.slotted, hphase] at hslotted
      obtain ⟨g, rfl⟩ := isSome_iff_exists.mp hslotted
      exact hs.keep hfind (by rw [AdmitCall.semOn, hphase])
        (by simp [heavyOn, semOn, hphase]) rfl rfl rfl
    · cases hstep
  | complete =>
    rw [AdmissionWorld.act] at hstep
    split at hstep
    · rename_i slot hphase
      cases hstep
      rw [AdmitCall.slotted, hphase] at hslotted
      obtain ⟨g, rfl⟩ := isSome_iff_exists.mp hslotted
      exact hs.keep hfind (by rw [AdmitCall.semOn, hphase])
        (by simp [heavyOn, semOn, hphase]) rfl rfl rfl
    · cases hstep
  | lookUp =>
    rw [AdmissionWorld.act] at hstep
    split at hstep
    · rename_i slot hphase
      cases hstep
      exact hs.lookUp hfind hphase
    · cases hstep
  | giveBack =>
    rw [AdmissionWorld.act] at hstep
    split at hstep
    · rename_i slot g hphase
      cases hstep
      rw [AdmitCall.slotted, hphase] at hslotted
      obtain ⟨hheavy, rfl⟩ := of_decide_eq_true hslotted
      have hsem : c.semOn = some g := by rw [AdmitCall.semOn, hphase]
      refine hs.giveHeavy hfind hsem ?_
      rw [heavyOn, hphase]
      exact (if_pos hheavy).trans hsem
    · cases hstep

/-! ### Whole runs -/

theorem releaseOne_same (sessionId : String) (c : AdmitCall) :
    (releaseOne sessionId c).key = c.key ∧ (releaseOne sessionId c).semOn = c.semOn ∧
      (releaseOne sessionId c).heavyOn = c.heavyOn ∧ (releaseOne sessionId c).uses = c.uses ∧
      (c.slotted cfg → (releaseOne sessionId c).slotted cfg) := by
  unfold releaseOne
  split
  · rename_i slot hphase
    split
    · refine ⟨rfl, ?_, ?_, ?_, fun h => ?_⟩
      · simp [semOn, moved, hphase]
      · simp only [heavyOn, semOn, moved, hphase]
        rfl
      · simp [uses, semOn, moved, hphase]
      · rw [slotted, hphase] at h
        exact h
    · exact ⟨rfl, rfl, rfl, rfl, id⟩
  · exact ⟨rfl, rfl, rfl, rfl, id⟩

theorem dismissOne_same (sessionId : String) (channel : ChannelName) (c : AdmitCall) :
    (dismissOne sessionId channel c).key = c.key ∧
      (dismissOne sessionId channel c).semOn = c.semOn ∧
      (dismissOne sessionId channel c).heavyOn = c.heavyOn ∧
      (dismissOne sessionId channel c).uses = c.uses ∧
      (c.slotted cfg → (dismissOne sessionId channel c).slotted cfg) := by
  unfold dismissOne
  split
  · rename_i g hphase
    split
    · refine ⟨rfl, ?_, ?_, ?_, fun _ => rfl⟩
      · simp [semOn, moved, hphase]
      · simp only [heavyOn, semOn, moved, hphase]
        rfl
      · simp [uses, semOn, moved, hphase]
    · exact ⟨rfl, rfl, rfl, rfl, id⟩
  · exact ⟨rfl, rfl, rfl, rfl, id⟩

theorem Sound.aside (hs : Sound cfg w) (ends : Dict Nat SessionEnd) (cancelled : List String) :
    Sound cfg { w with ends := ends, cancelled := cancelled } where
  sems := hs.sems
  heavies := hs.heavies
  bounded := hs.bounded
  uses := hs.uses
  made := hs.made
  slotted := hs.slotted
  releases := hs.releases

theorem Sound.step (hs : Sound cfg w) {a : AdmissionAction} (hsteady : steady cfg w a)
    (hstep : w.step cfg a = some w') : Sound cfg w' := by
  cases a with
  | admitAndReserve k sessionId resourceClass allowed =>
    rw [AdmissionWorld.step] at hstep
    split at hstep
    · cases hstep
    rename_i hnone
    have hnew (phase : CallPhase) (hphase : phase = .done ∨ phase = .decided) :
        Sound cfg (w.put k ⟨sessionId, resourceClass, phase⟩) := by
      have hnever : ∀ c, w.calls.find k = some c → c.semOn = none := by
        intro c hfind
        rw [hnone] at hfind
        cases hfind
      rcases hphase with rfl | rfl
      · exact hs.putFree k hnever rfl (fun g h => by cases h) rfl
      · exact hs.putFree k hnever rfl (fun g h => by cases h) rfl
    split at hstep
    · cases hstep
      exact hnew .done (.inl rfl)
    · split at hstep
      · cases hstep
        exact hnew .decided (.inr rfl)
      · cases hstep
        exact hnew .done (.inl rfl)
  | call k s =>
    rw [AdmissionWorld.step] at hstep
    split at hstep
    · cases hstep
    rename_i c hfind
    rw [steady, hfind, all_some] at hsteady
    exact hs.act hfind hsteady hstep
  | cancelSession run sessionId =>
    rw [AdmissionWorld.step, endSession] at hstep
    split at hstep
    · cases hstep
    cases hstep
    exact (hs.mapCalls (releaseOne_same sessionId)).aside _ _
  | closeSession run sessionId =>
    rw [AdmissionWorld.step, endSession] at hstep
    split at hstep
    · cases hstep
    cases hstep
    exact (hs.mapCalls (releaseOne_same sessionId)).aside _ _
  | goOn run s =>
    rw [AdmissionWorld.step] at hstep
    split at hstep
    · cases hstep
    rename_i e hend
    unfold AdmissionWorld.finish at hstep
    split at hstep
    · rename_i sessionId channel left
      cases hstep
      exact (hs.mapCalls (dismissOne_same sessionId channel)).aside _ _
    · cases hstep
      exact hs.aside _ _
    · cases hstep
      exact hs.aside _ _
    · rename_i sessionId
      cases hstep
      rw [steady, hend] at hsteady
      have hunused : w.unused sessionId := hsteady
      refine (hs.drop (fun s => s = sessionId) fun s h => ?_).aside _ _
      rw [of_decide_eq_true h]
      exact hunused
    · cases hstep

theorem sound_empty (cfg : GovernorConfig) : Sound cfg {} where
  sems := fun _ h => absurd h (Nat.not_lt_zero _)
  heavies := fun _ h => absurd h (Nat.not_lt_zero _)
  bounded := fun _ h => absurd h (Nat.not_lt_zero _)
  uses := fun _ _ h => by cases h
  made := fun _ _ h => by cases h
  slotted := fun _ _ h => by cases h
  releases := fun _ h => absurd h not_mem_nil

/-- The numbers of a session are kept, and every release goes to the gate of its slot. -/
structure GatesConserved (cfg : GovernorConfig) (w : AdmissionWorld) : Prop where
  concurrency : ∀ key, w.calls.items.countP (fun kv => kv.2.key = key ∧ kv.2.holds) ≤
    cfg.sessionConcurrency
  heavy : ∀ key, w.calls.items.countP (fun kv => kv.2.key = key ∧ kv.2.holds ∧ kv.2.heavy) ≤
    cfg.sessionHeavy
  releases : ∀ p ∈ w.releases, p.1 = some p.2

theorem Sound.countP_le (hs : Sound cfg w) (key : String) (p : AdmitCall → Bool)
    (on : AdmitCall → Option Nat) (hp : ∀ c, p c → c.key = key ∧ (on c).isSome)
    (hon : ∀ c g, on c = some g → c.uses = some g) {n : Nat}
    (hbound : ∀ g < w.next, w.calls.items.countP (fun kv => on kv.2 = some g) ≤ n) :
    w.calls.items.countP (fun kv => p kv.2) ≤ n := by
  have huses : ∀ kv ∈ w.calls.items, p kv.2 →
      ∃ g, on kv.2 = some g ∧ w.table.find key = some g := by
    intro kv hkv hpk
    obtain ⟨hkey, hsome⟩ := hp kv.2 hpk
    obtain ⟨g, hg⟩ := isSome_iff_exists.mp hsome
    have htable := hs.uses kv.1 kv.2 (find_eq_some.mpr hkv) g (hon kv.2 g hg)
    exact ⟨g, hg, hkey ▸ htable⟩
  cases htable : w.table.find key with
  | none =>
    have hzero : w.calls.items.countP (fun kv => p kv.2) = 0 := by
      refine countP_eq_zero.mpr fun kv hkv hpk => ?_
      obtain ⟨g, -, hg⟩ := huses kv hkv hpk
      rw [htable] at hg
      cases hg
    omega
  | some g =>
    refine le_trans (countP_mono_left fun kv hkv hpk => ?_)
      (hbound g (hs.made key g htable))
    obtain ⟨g', hon', hg'⟩ := huses kv hkv hpk
    rw [htable, some_inj] at hg'
    rw [hg']
    exact decide_eq_true hon'

theorem Sound.conserved (hs : Sound cfg w) : GatesConserved cfg w where
  concurrency := by
    intro key
    refine hs.countP_le key (fun c => c.key = key ∧ c.holds) semOn
      (fun c hc => ?_) (fun c g => uses_of_semOn) fun g hg => ?_
    · obtain ⟨hkey, hholds⟩ := of_decide_eq_true hc
      exact ⟨hkey, semOn_of_holds hholds⟩
    · have hsem := hs.sems g hg
      rw [Nat.max_eq_right cfg.concurrency_pos] at hsem
      exact hsem ▸ Nat.le_add_left _ _
  heavy := by
    intro key
    refine hs.countP_le key (fun c => c.key = key ∧ c.holds ∧ c.heavy) heavyOn
      (fun c hc => ?_)
      (fun c g h => uses_of_semOn (semOn_of_heavyOn h)) fun g hg => ?_
    · obtain ⟨hkey, hholds, hheavy⟩ := of_decide_eq_true hc
      exact ⟨hkey, heavyOn_of_holds hholds hheavy⟩
    · have hbounded := hs.bounded g hg
      rw [Nat.max_eq_right cfg.heavy_pos, hs.heavies g hg] at hbounded
      exact hbounded
  releases := hs.releases

/-- In every run in which no gate is dropped that a call has in hand, and no wait is let through
    without a slot, the gates are conserved. -/
theorem gates_conserved (cfg : GovernorConfig)
    (hrun : Relation.ReflTransGen (Step (step cfg) (steady cfg)) {} w) : GatesConserved cfg w :=
  (run_induction (fun hs hsteady hstep => Sound.step hs hsteady hstep) (sound_empty cfg)
    hrun).conserved

/-- One call at a time. -/
def oneEach (mode : GovernorMode) : GovernorConfig := ⟨mode, 1, 1, le_rfl, le_rfl⟩

/-- A call that gets its slot at once. -/
def enters (k : Nat) : List AdmissionAction :=
  [.admitAndReserve k "s" .light true, .call k .look, .call k .takeSem, .call k (.ask true),
    .call k .register]

/-- A call that has waited too long is let through, and its ticket gives a slot back that it never
    had. -/
def letThrough : List AdmissionAction :=
  enters 1 ++ [.admitAndReserve 2 "s" .light true, .call 2 .look, .call 2 .timeout,
    .call 2 .register, .call 2 .complete, .call 2 .lookUp] ++ enters 3

theorem observed_gets_in : ¬ ∀ cfg w,
    Relation.ReflTransGen (Step (step cfg) fun _ _ => true) {} w → GatesConserved cfg w := by
  intro hall
  obtain ⟨w, hw⟩ : ∃ w, play (step (oneEach .observe)) (fun _ _ => true) {} letThrough = some w :=
    ⟨_, rfl⟩
  have hconcurrency := (hall (oneEach .observe) w (run_of_play hw)).concurrency "s"
  cases hw
  exact absurd hconcurrency (by decide)

theorem entered_conserved : ∃ w,
    play (step (oneEach .enforce)) (steady (oneEach .enforce)) {} (enters 1) = some w ∧
      GatesConserved (oneEach .enforce) w := by
  obtain ⟨w, hw⟩ : ∃ w,
      play (step (oneEach .enforce)) (steady (oneEach .enforce)) {} (enters 1) = some w := ⟨_, rfl⟩
  exact ⟨w, hw, gates_conserved _ (run_of_play hw)⟩

end AdmissionWorld

end WebGis.Governor
