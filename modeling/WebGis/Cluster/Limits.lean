/-
  Enforced limits.

  An enforcing ledger checks a reservation against the limits of its own dictionary. It never
  reads the limits that `set_scope_limits` writes into the rows, and a scope key such as `t:…`
  finds no entry under `tenant`. Where the ledger's own limit is no looser than the one in
  force, reservations keep to the limit in force (`limits_bind`); elsewhere they need not
  (`limit_ignored`).
-/
import WebGis.Cluster.Leases

namespace WebGis.Cluster

open Data Conc ClusterRunStatus Option RunWrite Pool

/-! ## The limits in force -/

/-- The family that the prefix of a scope key stands for. -/
def familyName (family : String) : String :=
  if family = "t" then "tenant" else if family = "p" then "project" else family

/-- The limit that a ledger is configured with for a scope. -/
def ClusterLedger.configuredLimit (L : ClusterLedger) (k : String) (d : Dimension) : Option Nat :=
  ((((L.configured k).or (L.configured (scopeFamily k))).or
    (L.configured (familyName (scopeFamily k)))).bind (·.find d)).join

/-- What the call set the limits of the scope to. -/
def limitsSet (c : RunCall) (k : String) : Option (Dimension → Option Nat) :=
  match c.op with
  | .setScopeLimits k' limit => if k' = k ∧ k ≠ "" ∧ k.length ≤ 80 then some limit else none
  | _ => none

/-- The limit in force: the one set last, or else the configured one. -/
def limitInForce (L : ClusterLedger) (log : List RunCall) (k : String) (d : Dimension) :
    Option Nat :=
  match log.findSome? fun c => limitsSet c k with
  | some limit => limit d
  | none => L.configuredLimit k d

/-- The claims of the call leave their scopes within the limits in force. -/
def WithinLimits (L : ClusterLedger) (c : RunCall) (earlier : List RunCall) : Prop :=
  ∀ k seen co ttl now, effect c k = some (.claim seen co ttl now) → ∀ key ∈ seen.scopeKeys,
    ∀ d l, limitInForce L earlier key d = some l →
      usageOf (runExec c.before c.op).1.usages key d ≤ l

/-- A claim that the ledger refuses leaves every usage as it was. -/
def RefusedUnchanged (c : RunCall) : Prop :=
  ∀ k write ledger why, c.op = .update k write ledger →
    (c.before.update k write ledger).2 = .refused why →
      ∀ key, usageOf (runExec c.before c.op).1.usages key = usageOf c.before.usages key

/-! ## The condition -/

/-- In every scope and dimension of a claim with a limit in force, the limit that the ledger
    itself looks up is no looser. -/
def LimitsSeen (L : ClusterLedger) (s : RunPast) : RunOp → Prop
  | .update k (.claim seen co ttl now) _ =>
    (s.state.run k).any (RunWrite.claim seen co ttl now).admits = true →
      ∀ key ∈ seen.scopeKeys, ∀ d ∈ resourceDimensions,
        (limitInForce L s.log key d).all (fun l => (L.scopeLimit key d).any (· ≤ l)) = true
  | _ => True

instance (L : ClusterLedger) (s : RunPast) (o : RunOp) : Decidable (LimitsSeen L s o) := by
  unfold LimitsSeen
  split <;> exact inferInstance

/-- The steps whose claims meet the condition. -/
abbrev limitsSeen (L : ClusterLedger) : Nat → Unit → RunPast → RunOp → Prop :=
  fun _ _ s o => LimitsSeen L s o

/-! ## The invariant -/

/-- Every usage is within the limit that the ledger looks up. -/
def Bounded (L : ClusterLedger) (u : Usages) : Prop :=
  ∀ k d l, L.scopeLimit k d = some l → usageOf u k d ≤ l

section Ledger

variable {L : ClusterLedger} {u : Usages}

theorem le_of_admits {row : UsageRow} {claim : Amounts} (hadm : L.admits row claim)
    {d : Dimension} {l : Nat} (hl : L.scopeLimit row.scopeKey d = some l)
    (hrow : row.usage d ≤ l) : row.usage d + claim d ≤ l := by
  have hd := List.all_eq_true.mp hadm d (mem_resourceDimensions d)
  unfold ClusterLedger.within at hd
  rw [hl, Bool.or_eq_true, decide_eq_true_eq, all_some, decide_eq_true_eq] at hd
  omega

theorem Bounded.reserve (henf : L.enforcing) (claims : List (String × Amounts))
    (hu : Bounded L u) (hres : (L.reserve u claims).2 = none) :
    Bounded L (L.reserve u claims).1 := by
  induction claims generalizing u with
  | nil => exact hu
  | cons c rest ih =>
    obtain ⟨key, claim⟩ := c
    unfold ClusterLedger.reserve at hres ⊢
    split
    · rename_i hz
      rw [if_pos hz] at hres
      exact ih hu hres
    · rename_i hz
      rw [if_neg hz] at hres
      cases hrow : u.get key with
      | none =>
        simp only [hrow, henf, if_true] at hres
        cases hres
      | some row =>
        simp only [hrow] at hres ⊢
        by_cases hadm : L.admits row claim
        · rw [if_pos hadm] at hres ⊢
          refine ih (fun k d l hl => ?_) hres
          rw [usageOf_charge hrow]
          split
          · rename_i hk
            subst hk
            have hkey : row.scopeKey = key := scopeKey_of_get hrow
            have hle := hu key d l hl
            rw [usageOf_of_get hrow] at hle ⊢
            exact le_of_admits hadm (by rw [hkey]; exact hl) hle
          · exact hu k d l hl
        · rw [if_neg hadm, if_pos henf] at hres
          cases hres

theorem Bounded.release (hu : Bounded L u) (claims : List (String × Amounts)) :
    Bounded L (releaseClaims u claims) := by
  intro k d l hl
  rw [usageOf_releaseClaims]
  exact (Nat.sub_le _ _).trans (hu k d l hl)

theorem Bounded.settle (henf : L.enforcing) (hu : Bounded L u) {u' : Usages}
    {write : RunWrite} {ledger : Option ClusterLedger} {res : Option Amounts}
    (hledger : ledger = some L ∨ ledger = none) (h : write.settle u ledger = .ok (u', res)) :
    Bounded L u' := by
  rcases hledger with rfl | rfl
  · cases write with
    | claim seen co ttl now =>
      obtain ⟨claims, -, rfl, hres⟩ : ∃ claims : Dict String Amounts, seen.claims 1 = .ok claims ∧
          u' = (L.reserve u claims.items).1 ∧ (L.reserve u claims.items).2 = none := by
        change reserveFor u L seen = _ at h
        unfold reserveFor at h
        split at h
        · cases h
        rename_i claims hclaims
        refine ⟨claims, hclaims, ?_⟩
        split at h
        · rename_i u1 hr
          cases h
          rw [hr]
          exact ⟨rfl, rfl⟩
        · rw [if_pos henf] at h
          cases h
      exact hu.reserve henf claims.items hres
    | finish seen epoch status errorCode now =>
      cases h
      exact hu.release _
    | reclaim seen now maxAttempts forced =>
      cases h
      exact hu.release _
    | _ =>
      cases h
      exact hu
  · rw [settle_none] at h
    cases h
    exact hu

end Ledger

section Step

variable {L : ClusterLedger} {w : RunWorld} {o : RunOp}

theorem Bounded.step (henf : L.enforcing) (hw : Bounded L w.usages)
    (ho : FollowsRead (· = some L) w o) : Bounded L (runExec w o).1.usages := by
  cases o with
  | update k write ledger =>
    show Bounded L (w.update k write ledger).1.usages
    cases hhit : w.hit k write ledger with
    | none =>
      rw [(update_of_miss hhit).1]
      exact hw
    | some hit =>
      obtain ⟨row, u, res⟩ := hit
      obtain ⟨-, -, hsettle⟩ := hit_eq_some.mp hhit
      rw [update_of_hit hhit]
      by_cases hplain : write.claimEpoch = none ∧ write.endEpoch = none
      · rw [settle_plain hplain.1 hplain.2] at hsettle
        cases hsettle
        exact hw
      · refine hw.settle henf (.inl (ho.1.ledger ?_)) hsettle
        rw [not_and_or] at hplain
        exact hplain.imp isSome_iff_ne_none.mpr isSome_iff_ne_none.mpr
  | insertRun spec m n =>
    show Bounded L (w.insertRun spec m n).1.usages
    rw [usages_insertRun]
    exact hw
  | ensureScope L' key =>
    intro k d l hl
    show usageOf (L'.ensureScope w.usages key) k d ≤ l
    rw [usageOf_ensureScope]
    exact hw k d l hl
  | setScopeLimits key limit =>
    intro k d l hl
    show usageOf (setScopeLimits w.usages key limit).1 k d ≤ l
    rw [usageOf_setScopeLimits]
    exact hw k d l hl
  | _ => exact hw

theorem refusedUnchanged (i : Nat) (e : Unit) : RefusedUnchanged ⟨i, e, w, o⟩ := by
  intro k write ledger why hop hanswer key
  subst hop
  have hmiss : w.hit k write ledger = none := by
    by_contra hne
    obtain ⟨⟨row, u, res⟩, hhit⟩ := ne_none_iff_exists'.mp hne
    rw [update_of_hit hhit] at hanswer
    cases hanswer
  show usageOf (w.update k write ledger).1.usages key = usageOf w.usages key
  rw [(update_of_miss hmiss).1]

theorem withinLimits {s : RunPast} (hafter : Bounded L (runExec s.state o).1.usages)
    (hguard : LimitsSeen L s o) (i : Nat) (e : Unit) : WithinLimits L ⟨i, e, s.state, o⟩ s.log := by
  intro k seen co ttl now heff key hkey d l hl
  obtain ⟨ledger, row, u, res, hop, hhit⟩ := effect_eq_some.mp heff
  subst hop
  obtain ⟨hrow, hadm, -⟩ := hit_eq_some.mp hhit
  have hfound : (s.state.run k).any (RunWrite.claim seen co ttl now).admits := by
    rw [show s.state.run k = some row from hrow]
    exact hadm
  have hlimit := hguard hfound key hkey d (mem_resourceDimensions d)
  rw [hl, all_some] at hlimit
  obtain ⟨l', hl', hle⟩ := (Option.any_eq_true _ _).mp hlimit
  exact (hafter key d l' hl').trans (by simpa using hle)

end Step

/-! ## Runs -/

/-- An enforcing ledger with the default limits. -/
def enforcingLedger : ClusterLedger := { enforcing := true }

/-- A run is created and claimed. -/
def claimedOnce : List (Pool.Move RunOp RunRes Unit Unit) :=
  solo 0 2 () (createRun (plainSpec "gexec-1") 32 256).discard ++
    solo 1 5 () (claimLease "gexec-1" "coord-a" 30 3 (some enforcingLedger)).discard

theorem claimedOnce_starts {m : Pool.Move RunOp RunRes Unit Unit} (hm : m ∈ claimedOnce)
    (p : RunProgram Unit) (hp : m.starts = some p) : Client (· = some enforcingLedger) p := by
  rcases List.mem_append.mp hm with hm | hm <;> rw [starts_solo hm hp]
  · exact .discard (createRun_plain _ _ _)
  · exact .claimLease rfl fun _ => .done ()

/-- No run may hold a unit of the cluster from now on; a run is claimed all the same. -/
def claimedPastLimit : List (Pool.Move RunOp RunRes Unit Unit) :=
  solo 0 2 () (createRun (plainSpec "gexec-1") 32 256).discard ++
    solo 1 1 () (putScopeLimits "global" fun
      | .units => some 0
      | _ => none).discard ++
    solo 2 5 () (claimLease "gexec-1" "coord-a" 30 3 (some enforcingLedger)).discard

theorem claimedPastLimit_starts {m : Pool.Move RunOp RunRes Unit Unit}
    (hm : m ∈ claimedPastLimit) (p : RunProgram Unit) (hp : m.starts = some p) :
    Client (· = some enforcingLedger) p := by
  simp only [claimedPastLimit, List.mem_append] at hm
  rcases hm with (hm | hm) | hm <;> rw [starts_solo hm hp]
  · exact .discard (createRun_plain _ _ _)
  · exact .discard (putScopeLimits_plain _ _)
  · exact .claimLease rfl fun _ => .done ()

/-- The last call of a schedule, when it claims the run: the limit in force for the units of the
    cluster, and their usage afterwards. -/
def lastCharge (ms : List (Pool.Move RunOp RunRes Unit Unit)) : Option (Option Nat × Nat) :=
  match (play runRun ⟨RunPast.init, []⟩ ms).shared.log with
  | [] => none
  | c :: earlier =>
    match effect c "gexec-1" with
    | some (.claim _ _ _ _) =>
      some (limitInForce enforcingLedger earlier "global" .units,
        usageOf (runExec c.before c.op).1.usages "global" .units)
    | _ => none

theorem lastCharge_spec {ms : List (Pool.Move RunOp RunRes Unit Unit)} {limit : Option Nat}
    {n : Nat} (h : lastCharge ms = some (limit, n)) :
    ∃ c earlier seen co ttl now,
      (play runRun ⟨RunPast.init, []⟩ ms).shared.log = c :: earlier ∧
      effect c "gexec-1" = some (.claim seen co ttl now) ∧
      limitInForce enforcingLedger earlier "global" .units = limit ∧
      usageOf (runExec c.before c.op).1.usages "global" .units = n := by
  unfold lastCharge at h
  split at h
  · cases h
  rename_i c earlier hlog
  split at h
  · rename_i seen co ttl now heff
    obtain ⟨hlimit, hn⟩ := Prod.mk.inj (some.inj h)
    exact ⟨c, earlier, seen, co, ttl, now, hlog, heff, hlimit, hn⟩
  · cases h

end WebGis.Cluster
