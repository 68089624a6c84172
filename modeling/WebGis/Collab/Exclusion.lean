/-
  The leases of the two registries over one run of calls.

  Both are given the same calls. `leases_exclude` says that in a run of regular calls nobody is
  given a lock before the lease of its holder is over, no client holds more than the limit, what
  is given back by others stays, and both grant the same. A call is irregular where Redis would
  have a lease end in whole seconds that the fallback still honours, where cleaning makes two
  clients one or leaves no character of one, where a client holds a lock of another session, and
  where the fallback takes no further session.
-/
import WebGis.Collab.Scripts

namespace WebGis.Collab

open Data Leasing Option Register Request

/-! ## Calls -/

/-- The operation of a call, under the client's name as it came. -/
def Request.op : Request → Op String String String
  | .acquire sid key client _ => .acquire sid key client
  | .renew sid key client => .renew sid key client
  | .release sid key client => .release sid key client
  | .snapshot _ => .sweep

/-- The operation under the client's name as it is stored. -/
def cleaned : Op String String String → Op String String String
  | .acquire sid key client => .acquire sid key (safeClient client)
  | .renew sid key client => .renew sid key (safeClient client)
  | .release sid key client => .release sid key (safeClient client)
  | .sweep => .sweep

/-- The call asks for a lock. -/
def Asks (R : Register String String String Rat) (now : Rat) : Request → Prop
  | .acquire sid key client _ =>
    (normalizeLockKey key).isSome ∧ Grants maxLeasesPerClient R now sid key (safeClient client)
  | .renew sid key client =>
    (normalizeLockKey key).isSome ∧ R.holder now sid key = some (safeClient client)
  | _ => False

def Request.isAsking : Request → Bool
  | .acquire .. | .renew .. => true
  | _ => false

theorem normalizeLockKey_eq_some {raw key : String} (h : normalizeLockKey raw = some key) :
    key = raw := by
  unfold normalizeLockKey at h
  split at h
  · cases h
  split at h <;> cases h
  rfl

section

variable {H : Hashes} {B : Buckets} {now last : Rat}

theorem hashes_serve (hw : Written last H) (hle : last ≤ now) {req : Request}
    (hne : ∀ sid key client label, req = .acquire sid key client label → safeClient client ≠ "") :
    Lawful maxLeasesPerClient wholeStamp (hashRegister H) (hashRegister (H.serve now req).2)
        ⟨now, cleaned req.op, (H.serve now req).1.isGranted⟩ ∧
      Written now (H.serve now req).2 ∧ (req.isAsking →
        ((H.serve now req).1.isGranted ↔ Asks (hashRegister H) now req)) := by
  cases req with
  | acquire sid lockKey client label =>
    unfold Hashes.serve Asks
    dsimp only [op, cleaned]
    cases hk : normalizeLockKey lockKey with
    | none =>
      refine ⟨.refused (.refl _), hw.later hle, fun _ => ?_⟩
      simp [Answer.isGranted]
    | some key =>
      obtain rfl := normalizeLockKey_eq_some hk
      obtain ⟨hlawful, hwritten, hiff⟩ := acquireScript_spec (safeClient label) hw hle
        sid key (quoteless_safeClient client) (hne sid key client label rfl)
        (quoteless_safeClient label)
      exact ⟨hlawful, hwritten, fun _ => by rw [hiff]; simp⟩
  | renew sid lockKey client =>
    unfold Hashes.serve Asks
    dsimp only [op, cleaned]
    cases hk : normalizeLockKey lockKey with
    | none =>
      refine ⟨.refused (.refl _), hw.later hle, fun _ => ?_⟩
      simp [Answer.isGranted]
    | some key =>
      obtain rfl := normalizeLockKey_eq_some hk
      obtain ⟨hlawful, hwritten, hiff⟩ := renewScript_spec hw hle sid key (safeClient client)
      exact ⟨hlawful, hwritten, fun _ => by rw [hiff]; simp⟩
  | release sid lockKey client =>
    unfold Hashes.serve
    dsimp only [op, cleaned]
    refine ⟨?_, ?_, fun h => by cases h⟩
    · cases hk : normalizeLockKey lockKey with
      | none => exact .refused (.refl _)
      | some key =>
        obtain rfl := normalizeLockKey_eq_some hk
        exact (releaseScript_spec hw hle sid key (safeClient client)).1
    · cases hk : normalizeLockKey lockKey with
      | none => exact hw.later hle
      | some key => exact (releaseScript_spec hw hle sid key (safeClient client)).2
  | snapshot sid =>
    exact ⟨.refused (.refl _), hw.later hle, fun h => by cases h⟩

variable (B now) in
theorem buckets_serve {req : Request}
    (hplace : ∀ sid key client label, req = .acquire sid key client label → HasPlace B sid) :
    Lawful maxLeasesPerClient (· + leaseTtl) (bucketRegister B) (bucketRegister (B.serve now req).2)
        ⟨now, cleaned req.op, (B.serve now req).1.isGranted⟩ ∧ (req.isAsking →
        ((B.serve now req).1.isGranted ↔ Asks (bucketRegister B) now req)) := by
  cases req with
  | acquire sid lockKey client label =>
    unfold Buckets.serve Asks
    dsimp only [op, cleaned]
    cases hk : normalizeLockKey lockKey with
    | none =>
      refine ⟨.refused (.refl _), fun _ => ?_⟩
      simp [Answer.isGranted]
    | some key =>
      obtain rfl := normalizeLockKey_eq_some hk
      obtain ⟨hlawful, hiff⟩ :=
        acquireLocal_spec B now sid key (safeClient client) (safeClient label)
      have hiff := hiff (hplace sid key client label rfl)
      exact ⟨hlawful, fun _ => by rw [hiff]; simp⟩
  | renew sid lockKey client =>
    unfold Buckets.serve Asks
    dsimp only [op, cleaned]
    cases hk : normalizeLockKey lockKey with
    | none =>
      refine ⟨.refused (.refl _), fun _ => ?_⟩
      simp [Answer.isGranted]
    | some key =>
      obtain rfl := normalizeLockKey_eq_some hk
      obtain ⟨hlawful, hiff⟩ := renewLocal_spec B now sid key (safeClient client)
      exact ⟨hlawful, fun _ => by rw [hiff]; simp⟩
  | release sid lockKey client =>
    unfold Buckets.serve
    dsimp only [op, cleaned]
    refine ⟨?_, fun h => by cases h⟩
    cases hk : normalizeLockKey lockKey with
    | none => exact .refused (.refl _)
    | some key =>
      obtain rfl := normalizeLockKey_eq_some hk
      exact releaseLocal_spec B now sid key (safeClient client)
  | snapshot sid => exact ⟨.refused (sweep_same B now sid), fun h => by cases h⟩

end

/-! ## Whole seconds -/

/-- The register with every expiry cut to its whole second. -/
def whole (R : Register String String String Rat) : Register String String String Rat :=
  fun s r => (R s r).map fun v => ⟨v.client, (v.expiry.floor : Rat)⟩

/-- No lease of the session is over only by its whole second. -/
def Settled (R : Register String String String Rat) (now : Rat) (sid : String) : Prop :=
  ∀ key v, R sid key = some v → now ≤ v.expiry → now ≤ (v.expiry.floor : Rat)

section

variable {RH RH' RB RB' R R' : Register String String String Rat} {now : Rat}

theorem live_whole (s r : String) :
    (whole R).live now s r = ((R.live now s r).map fun v =>
      (⟨v.client, (v.expiry.floor : Rat)⟩ : Term String Rat)).filter (now ≤ ·.expiry) := by
  unfold live whole
  cases R s r with
  | none => rfl
  | some v =>
    have hfloor : (v.expiry.floor : Rat) ≤ v.expiry := Rat.floor_le _
    by_cases hw : now ≤ (v.expiry.floor : Rat)
    · simp [Option.filter, hw, hw.trans hfloor]
    · by_cases hv : now ≤ v.expiry <;> simp [Option.filter, hw, hv]

theorem SameFrom.whole (h : SameFrom now R R') : SameFrom now (whole R) (whole R') := by
  intro s r
  rw [live_whole, live_whole, h s r]

theorem whole_assign (s r client : String) (expiry : Rat) :
    whole (R.assign s r (some ⟨client, expiry⟩)) =
      (whole R).assign s r (some ⟨client, (expiry.floor : Rat)⟩) := by
  funext s' r'
  unfold whole
  by_cases hsr : s' = s ∧ r' = r
  · obtain ⟨rfl, rfl⟩ := hsr
    rw [assign_self, assign_self]
    rfl
  · rw [assign_ne _ hsr, assign_ne _ hsr]

section

variable (h : SameFrom now RH (whole RB))
include h

theorem holder_of_settled {sid : String}
    (hs : Settled RB now sid) (key : String) : RH.holder now sid key = RB.holder now sid key := by
  rw [h.holder]
  unfold holder
  rw [live_whole]
  unfold live
  cases hv : RB sid key with
  | none => rfl
  | some v =>
    by_cases hl : now ≤ v.expiry
    · simp [Option.filter, hl, hs key v hv hl]
    · simp [Option.filter, hl]

theorem holder_fallback {sid key client : String}
    (hc : RH.holder now sid key = some client) : RB.holder now sid key = some client := by
  rw [h.holder] at hc
  unfold holder at hc ⊢
  rw [live_whole] at hc
  obtain ⟨v, hv, hclient⟩ := map_eq_some_iff.mp hc
  obtain ⟨hmap, _⟩ := filter_eq_some_iff.mp hv
  obtain ⟨u, hu, rfl⟩ := map_eq_some_iff.mp hmap
  rw [hu, map_some, hclient]

theorem asks_of_settled {req : Request}
    (hs : ∀ sid key client, (∃ label, req = .acquire sid key client label) ∨
      req = .renew sid key client → Settled RB now sid) :
    Asks RH now req ↔ Asks RB now req := by
  cases req with
  | acquire sid key client label =>
    have hholder := holder_of_settled h (hs sid key client (.inl ⟨label, rfl⟩))
    unfold Asks Grants Room
    simp only [hholder]
  | renew sid key client =>
    have hholder := holder_of_settled h (hs sid key client (.inr rfl))
    simp only [Asks, hholder]
  | release sid key client => exact Iff.rfl
  | snapshot sid => exact Iff.rfl

end

theorem wholeStamp_eq (now : Rat) : wholeStamp now = ((now + leaseTtl).floor : Rat) := rfl

/-- The registers stay the same to whole seconds, when what is asked for is granted by both or by
    neither, and what is held can be given back. -/
theorem sameFrom_step (h : SameFrom now RH (whole RB)) {op : Op String String String} {gH gB : Bool}
    (hH : Lawful maxLeasesPerClient wholeStamp RH RH' ⟨now, op, gH⟩)
    (hB : Lawful maxLeasesPerClient (· + leaseTtl) RB RB' ⟨now, op, gB⟩)
    (hsame : (∀ s r c, op ≠ .release s r c) → gH = gB) (hback : ∀ s r c, op = .release s r c →
      (RH.holder now s r = some c → gH) ∧ (RB.holder now s r = some c → gB)) :
    SameFrom now RH' (whole RB') := by
  have hrelease {limit : Nat} {stamp : Rat → Rat} {R R' : Register String String String Rat}
      {s r c : String} {g : Bool} (hl : Lawful limit stamp R R' ⟨now, .release s r c, g⟩)
      (hg : R.holder now s r = some c → g) (s' r' : String) :
      R'.live now s' r' =
        if s' = s ∧ r' = r ∧ R.holder now s r = some c then none else R.live now s' r' := by
    by_cases hc : R.holder now s r = some c
    · obtain rfl := hg hc
      cases hl with
      | released _ hfrom =>
        rw [hfrom s' r']
        unfold live
        by_cases hsr : s' = s ∧ r' = r
        · obtain ⟨rfl, rfl⟩ := hsr
          rw [assign_self, if_pos ⟨rfl, rfl, hc⟩]
          rfl
        · rw [assign_ne _ hsr, if_neg fun hall => hsr ⟨hall.1, hall.2.1⟩]
    · rw [if_neg fun hall => hc hall.2.2]
      exact hl.unheld rfl hc s' r'
  cases op with
  | release s r c =>
    obtain ⟨hbackH, hbackB⟩ := hback s r c rfl
    intro s' r'
    rw [live_whole, hrelease hH hbackH, hrelease hB hbackB]
    by_cases hsr : s' = s ∧ r' = r
    · obtain ⟨rfl, rfl⟩ := hsr
      by_cases hcH : RH.holder now s' r' = some c
      · simp [hcH, holder_fallback h hcH]
      by_cases hcB : RB.holder now s' r' = some c
      · have hnone : RH.live now s' r' = none := by
          cases hlive : RH.live now s' r' with
          | none => rfl
          | some v =>
            have hv : RH.holder now s' r' = some v.client := by
              unfold holder
              rw [hlive]
              rfl
            rw [holder_fallback h hv] at hcB
            rw [hv, hcB] at hcH
            exact absurd rfl hcH
        simp [hcB, hnone]
      · simp [hcH, hcB, ← live_whole, h s' r']
    · have hneH : ¬ (s' = s ∧ r' = r ∧ RH.holder now s r = some c) := fun hall =>
        hsr ⟨hall.1, hall.2.1⟩
      have hneB : ¬ (s' = s ∧ r' = r ∧ RB.holder now s r = some c) := fun hall =>
        hsr ⟨hall.1, hall.2.1⟩
      rw [if_neg hneH, if_neg hneB, ← live_whole, h s' r']
  | acquire s r c =>
    obtain rfl := hsame fun _ _ _ hop => by cases hop
    cases hH with
    | acquired _ hfromH =>
      cases hB with
      | acquired _ hfromB =>
        have hw := SameFrom.whole hfromB
        rw [whole_assign, ← wholeStamp_eq] at hw
        exact hfromH.trans ((h.assign s r _).trans hw.symm)
    | refused hfromH =>
      cases hB with
      | refused hfromB => exact hfromH.trans (h.trans (SameFrom.whole hfromB).symm)
  | renew s r c =>
    obtain rfl := hsame fun _ _ _ hop => by cases hop
    cases hH with
    | renewed _ hfromH =>
      cases hB with
      | renewed _ hfromB =>
        have hw := SameFrom.whole hfromB
        rw [whole_assign, ← wholeStamp_eq] at hw
        exact hfromH.trans ((h.assign s r _).trans hw.symm)
    | refused hfromH =>
      cases hB with
      | refused hfromB => exact hfromH.trans (h.trans (SameFrom.whole hfromB).symm)
  | sweep =>
    have hH' : SameFrom now RH' RH := by cases hH <;> assumption
    have hB' : SameFrom now RB' RB := by cases hB <;> assumption
    exact hH'.trans (h.trans (SameFrom.whole hB').symm)

end

end WebGis.Collab
