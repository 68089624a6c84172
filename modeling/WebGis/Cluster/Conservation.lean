/-
  The ledger against the reservations of the runs.

  `Conserved` says that the usage of every scope is the sum of what its leased and running
  runs have reserved. Every operation keeps it as long as claims charge all their scopes.
  An advisory ledger stops at the first scope without room and records the whole claim on the
  run all the same, so a claim must have room in every scope but the last
  (`ledger_conserved`); otherwise the scopes after that one are short (`scope_undercharged`).
-/
import WebGis.Cluster.Clients
import WebGis.Data.Total

namespace WebGis.Cluster

open Data Conc ClusterRunStatus List RunWrite Pool

/-! ## The invariant -/

/-- What a run counts for in a scope. -/
def share (k : String) (d : Dimension) (row : RunRow) : Nat :=
  if row.Leased ∧ k ∈ row.scopeKeys then row.reserved d else 0

/-- What the leased and running runs of a scope have reserved. -/
def reservedIn (w : RunWorld) (k : String) (d : Dimension) : Nat := w.runs.total (share k d)

/-- Every usage is the sum of the reservations. -/
def Conserved (w : RunWorld) : Prop := ∀ k d, usageOf w.usages k d = reservedIn w k d

/-- What a write returns to the ledger. -/
def RunWrite.released : RunWrite → Option (Dict String Amounts)
  | .finish seen _ _ _ _ => some seen.reservedClaims
  | .reclaim seen _ _ _ => some seen.reservedClaims
  | _ => none

/-- No return of the call is cut off: every scope has at least what is returned. -/
def NotCut (c : RunCall) : Prop :=
  ∀ k write claims, effect c k = some write → write.released = some claims →
    ∀ item ∈ claims.items, ∀ d, item.2 d ≤ usageOf c.before.usages item.1 d

/-! ## The conditions -/

/-- A claim of the run that was read finds room in each scope but the last. -/
def ClaimHasRoom (L : ClusterLedger) (u : Usages) (seen : RunRow) : Prop :=
  match seen.claims 1 with
  | .ok claims => ∀ c ∈ claims.items.dropLast, L.HasRoom u c
  | .error _ => True

instance (L : ClusterLedger) (u : Usages) (seen : RunRow) : Decidable (ClaimHasRoom L u seen) := by
  unfold ClaimHasRoom
  split
  · exact inferInstance
  · exact isTrue trivial

/-- The scopes of a run that is claimed have rows. -/
def ScopesThere (w : RunWorld) : RunOp → Prop
  | .update k (.claim seen co ttl now) _ =>
    (w.run k).any (RunWrite.claim seen co ttl now).admits = true →
      ∀ key ∈ seen.scopeKeys, HasScope w.usages key
  | _ => True

/-- The ledger is enforcing, or a claim has room in every scope but the last. -/
def ChargesAll (L : ClusterLedger) (w : RunWorld) : RunOp → Prop
  | .update k (.claim seen co ttl now) _ =>
    (w.run k).any (RunWrite.claim seen co ttl now).admits = true →
      L.enforcing = true ∨ ClaimHasRoom L w.usages seen
  | _ => True

instance (w : RunWorld) (o : RunOp) : Decidable (ScopesThere w o) :=
  match o with
  | .update k (.claim seen co ttl now) _ =>
    inferInstanceAs (Decidable ((w.run k).any (RunWrite.claim seen co ttl now).admits = true →
      ∀ key ∈ seen.scopeKeys, HasScope w.usages key))
  | .update _ (.start ..) _ | .update _ (.beat ..) _ | .update _ (.finish ..) _
  | .update _ (.requeue _) _ | .update _ (.reclaim ..) _ | .update _ (.requestCancel ..) _
  | .update _ (.cancel ..) _ | .update _ (.requestYield ..) _ => isTrue trivial
  | .utcnow | .tick _ | .insertRun .. | .getRun _ | .ensureScope .. | .setScopeLimits ..
  | .selectLeased _ | .selectExpired .. | .selectFlagged _ | .scanDispatchable _
  | .tenantLastDispatch => isTrue trivial

instance (L : ClusterLedger) (w : RunWorld) (o : RunOp) : Decidable (ChargesAll L w o) :=
  match o with
  | .update k (.claim seen co ttl now) _ =>
    inferInstanceAs (Decidable ((w.run k).any (RunWrite.claim seen co ttl now).admits = true →
      L.enforcing = true ∨ ClaimHasRoom L w.usages seen))
  | .update _ (.start ..) _ | .update _ (.beat ..) _ | .update _ (.finish ..) _
  | .update _ (.requeue _) _ | .update _ (.reclaim ..) _ | .update _ (.requestCancel ..) _
  | .update _ (.cancel ..) _ | .update _ (.requestYield ..) _ => isTrue trivial
  | .utcnow | .tick _ | .insertRun .. | .getRun _ | .ensureScope .. | .setScopeLimits ..
  | .selectLeased _ | .selectExpired .. | .selectFlagged _ | .scanDispatchable _
  | .tenantLastDispatch => isTrue trivial

/-! ## Reservations -/

variable {res : Option Amounts}

theorem settle_claim {u u' : Usages} {L : ClusterLedger} {seen : RunRow} {co : String}
    {ttl now : Nat} (h : (RunWrite.claim seen co ttl now).settle u (some L) = .ok (u', res)) :
    ∃ a, seen.claims 1 = .ok (claimsOver seen.tenantKey seen.projectKey a) ∧ res = some a ∧
      u' = (L.reserve u (claimsOver seen.tenantKey seen.projectKey a).items).1 ∧
      ((L.reserve u (claimsOver seen.tenantKey seen.projectKey a).items).2 = none ∨
        L.enforcing = false) := by
  have hglobal : ∀ a, (claimsOver seen.tenantKey seen.projectKey a).find "global" = some a := by
    intro a
    rw [claimsOver, Dict.find_ofList_const]
    exact if_pos mem_cons_self
  change reserveFor u L seen = .ok (u', res) at h
  unfold reserveFor at h
  cases ha : claimedAmounts seen.planSnapshot seen.resourceRequest 1 with
  | error e =>
    rw [RunRow.claims, ha] at h
    cases h
  | ok a =>
    have hclaims : seen.claims 1 = .ok (claimsOver seen.tenantKey seen.projectKey a) := by
      rw [RunRow.claims, ha]
      rfl
    simp only [hclaims, hglobal] at h
    refine ⟨a, hclaims, ?_⟩
    split at h
    · rename_i u1 hres
      cases h
      rw [hres]
      exact ⟨rfl, rfl, .inl rfl⟩
    · rename_i u1 d hres
      split at h
      · cases h
      rename_i henf
      cases h
      rw [hres]
      exact ⟨rfl, rfl, .inr (by simpa using henf)⟩

theorem settle_released {u u' : Usages} {L : ClusterLedger} {write : RunWrite}
    {claims : Dict String Amounts} (hrel : write.released = some claims)
    (h : write.settle u (some L) = .ok (u', res)) :
    u' = releaseClaims u claims.items ∧ res = some 0 := by
  cases write with
  | finish => cases hrel; cases h; exact ⟨rfl, rfl⟩
  | reclaim => cases hrel; cases h; exact ⟨rfl, rfl⟩
  | _ => cases hrel

section Step

variable {L : ClusterLedger} {w : RunWorld}

variable {write : RunWrite} {row : RunRow} {ledger : Option ClusterLedger} {k : String}

theorem reservedIn_update {u : Usages} {res : Option Amounts}
    (hhit : w.hit k write ledger = some (row, u, res)) (key : String) (d : Dimension) :
    reservedIn (w.update k write ledger).1 key d + share key d row =
      reservedIn w key d + share key d (write.apply res row) := by
  rw [update_of_hit hhit]
  refine Table.total_put ?_ _
  obtain ⟨hrow, -, -⟩ := hit_eq_some.mp hhit
  change w.runs.get k = some row at hrow
  rw [apply_runId, Table.get_key hrow, hrow]

theorem share_of_not_leased (h : ¬ row.Leased) (k : String) (d : Dimension) :
    share k d row = 0 := if_neg fun hc => h hc.1

theorem share_le (hrow : w.run k = some row) (key : String) (d : Dimension) :
    share key d row ≤ reservedIn w key d :=
  Table.le_total (Table.mem_of_get hrow) _

theorem released_eq_share {seen : RunRow} (hlater : Later seen row)
    (hepoch : seen.leaseEpoch = row.leaseEpoch) (hleased : row.Leased) (key : String)
    (d : Dimension) : due seen.reservedClaims.items key d = share key d row := by
  obtain ⟨-, hreserved⟩ := hlater.held hepoch hleased
  have hkeys : scopeKeysFor seen.tenantKey seen.projectKey = row.scopeKeys := hlater.scopeKeys
  rw [RunRow.reservedClaims, due_claimsOver, hreserved, hkeys, share]
  by_cases hk : key ∈ row.scopeKeys
  · rw [if_pos hk, if_pos ⟨hleased, hk⟩]
  rw [if_neg hk, if_neg fun hc => hk hc.2]
  rfl

variable {claims : Dict String Amounts}

theorem seen_of_released (hrel : write.released = some claims)
    (ho : FollowsRead (· = some L) w (.update k write ledger)) (hrow : w.run k = some row)
    (hadm : write.admits row) :
    ∃ seen, claims = seen.reservedClaims ∧ Later seen row ∧ seen.leaseEpoch = row.leaseEpoch ∧
      row.Leased ∧ ledger = some L := by
  have hseen : ∀ seen ∈ write.seen, Later seen row := by
    intro seen hs
    obtain ⟨row', hrow', hl⟩ := ho.2 seen hs
    rw [hrow] at hrow'
    cases hrow'
    exact hl
  cases write with
  | finish seen epoch status errorCode now =>
    cases hrel
    simp only [RunWrite.admits, Bool.and_eq_true, decide_eq_true_eq] at hadm
    have hep : seen.leaseEpoch = epoch := ho.1.checked
    exact ⟨seen, rfl, hseen seen rfl, hep.trans hadm.1.2.symm, hadm.2, ho.1.ledger (.inr rfl)⟩
  | reclaim seen now maxAttempts forced =>
    cases hrel
    simp only [RunWrite.admits, Bool.and_eq_true, decide_eq_true_eq] at hadm
    exact ⟨seen, rfl, hseen seen rfl, hadm.2.symm, hadm.1.2, ho.1.ledger (.inr rfl)⟩
  | _ => cases hrel

theorem Conserved.released (hw : Conserved w) (hrel : write.released = some claims)
    (ho : FollowsRead (· = some L) w (.update k write ledger)) (hrow : w.run k = some row)
    (hadm : write.admits row) (key : String) (d : Dimension) :
    due claims.items key d = share key d row ∧ share key d row ≤ usageOf w.usages key d := by
  obtain ⟨seen, rfl, hlater, hepoch, hleased, -⟩ := seen_of_released hrel ho hrow hadm
  refine ⟨released_eq_share hlater hepoch hleased key d, ?_⟩
  rw [hw key d]
  exact share_le hrow key d

theorem Conserved.update (hw : Conserved w)
    (ho : FollowsRead (· = some L) w (.update k write ledger))
    (hscopes : ScopesThere w (.update k write ledger))
    (hall : ChargesAll L w (.update k write ledger)) : Conserved (w.update k write ledger).1 := by
  cases hhit : w.hit k write ledger with
  | none =>
    rw [(update_of_miss hhit).1]
    exact hw
  | some hit =>
    obtain ⟨row, u, res⟩ := hit
    intro key d
    have hshares := reservedIn_update hhit key d
    obtain ⟨hrow, hadm, hsettle⟩ := hit_eq_some.mp hhit
    have husage : (w.update k write ledger).1.usages = u := by rw [update_of_hit hhit]
    rw [husage]
    cases hrel : write.released with
    | some claims =>
      obtain ⟨hdue, hle⟩ := hw.released hrel ho hrow hadm key d
      obtain ⟨-, -, -, -, hleased, rfl⟩ := seen_of_released hrel ho hrow hadm
      obtain ⟨rfl, rfl⟩ := settle_released hrel hsettle
      have hend : write.endEpoch.isSome := by
        cases write <;> first | rfl | cases hrel
      rw [share_of_not_leased (not_leased_of_end ho.1.lawful hend _ row)] at hshares
      rw [usageOf_releaseClaims, hdue]
      have hsum := hw key d
      omega
    | none =>
      have hend : write.endEpoch = none := by cases write <;> first | rfl | cases hrel
      cases hclaim : write.claimEpoch with
      | none =>
        -- nothing is accounted for, and the share stays
        rw [settle_plain hclaim hend] at hsettle
        cases hsettle
        have hsame : share key d (write.apply none row) = share key d row := by
          have hres : (write.apply none row).reserved = row.reserved := by
            cases write <;> rfl
          simp only [share, leased_iff_of_plain hadm hclaim hend, apply_scopeKeys, hres]
        have hsum := hw key d
        omega
      | some epoch =>
        cases write with
        | claim seen co ttl now =>
          obtain rfl : ledger = some L := ho.1.ledger (.inl rfl)
          obtain ⟨a, hclaims, rfl, rfl, hres⟩ := settle_claim hsettle
          obtain ⟨row', hrow', hlater⟩ := ho.2 seen rfl
          rw [hrow] at hrow'
          cases hrow'
          have hfound : (w.run k).any (RunWrite.claim seen co ttl now).admits := by
            rw [hrow]
            exact hadm
          have hdisp : row.Dispatchable := by
            simp only [RunWrite.admits, Bool.and_eq_true, decide_eq_true_eq] at hadm
            exact hadm.1.1.2
          have hkeys : scopeKeysFor seen.tenantKey seen.projectKey = row.scopeKeys :=
            hlater.scopeKeys
          rw [share_of_not_leased (not_leased_of_dispatchable hdisp)] at hshares
          have hnew : share key d ((RunWrite.claim seen co ttl now).apply (some a) row) =
              due (claimsOver seen.tenantKey seen.projectKey a).items key d := by
            rw [due_claimsOver, hkeys, share, apply_scopeKeys]
            by_cases hk : key ∈ row.scopeKeys
            · rw [if_pos hk, if_pos ⟨show leased ∈ leasedStatuses by decide, hk⟩]
              rfl
            · rw [if_neg hk, if_neg fun hc => hk hc.2]
              rfl
          have hcharged := usageOf_reserve L
            (claimsOver seen.tenantKey seen.projectKey a).items w.usages
            (claimsOver seen.tenantKey seen.projectKey a).unique
            (fun c hc => hscopes hfound c.1 (mem_claimsOver hc).1)
            (by
              rcases hres with hres | hadv
              · exact .inl hres
              refine .inr ⟨hadv, ?_⟩
              have hroom := (hall hfound).resolve_left (by rw [hadv]; decide)
              simp only [ClaimHasRoom, hclaims] at hroom
              exact hroom) key
          rw [hcharged, Pi.add_apply, ← hnew]
          have hsum := hw key d
          omega
        | _ => cases hclaim

theorem Conserved.step (hw : Conserved w) {o : RunOp} (ho : FollowsRead (· = some L) w o)
    (hscopes : ScopesThere w o) (hall : ChargesAll L w o) : Conserved (runExec w o).1 := by
  cases o with
  | update k write ledger => exact hw.update ho hscopes hall
  | insertRun spec m n =>
    intro key d
    show usageOf (w.insertRun spec m n).1.usages key d = (w.insertRun spec m n).1.runs.total _
    rw [usages_insertRun, hw key d]
    rcases run_insertRun w spec m n with h | ⟨row, hins, -, -, hst, -⟩
    · rw [h]
      rfl
    · have hno : ¬ row.Leased := by
        unfold RunRow.Leased
        rw [hst]
        decide
      rw [Table.total_insert hins, map_singleton, sum_singleton, share_of_not_leased hno]
      rfl
  | ensureScope L' key' =>
    intro key d
    show usageOf (L'.ensureScope w.usages key') key d = _
    rw [usageOf_ensureScope]
    exact hw key d
  | setScopeLimits key' limit =>
    intro key d
    show usageOf (setScopeLimits w.usages key' limit).1 key d = _
    rw [usageOf_setScopeLimits]
    exact hw key d
  | _ => exact hw

theorem Conserved.notCut (hw : Conserved w) {o : RunOp} (ho : FollowsRead (· = some L) w o)
    (i : Nat) (e : Unit) : NotCut ⟨i, e, w, o⟩ := by
  intro k write claims heff hrel item hitem d
  obtain ⟨ledger, row, u, res, hop, hhit⟩ := effect_eq_some.mp heff
  subst hop
  obtain ⟨hrow, hadm, -⟩ := hit_eq_some.mp hhit
  obtain ⟨hdue, hle⟩ := hw.released hrel ho hrow hadm item.1 d
  have hamount : due claims.items item.1 d = item.2 d := by
    rw [due_items, Dict.find_eq_some.mpr hitem]
    rfl
  show item.2 d ≤ usageOf w.usages item.1 d
  omega

end Step

/-! ## Runs -/

/-- The steps in which the scopes of a claimed run have rows. -/
abbrev scopesThere : Nat → Unit → RunPast → RunOp → Prop := fun _ _ s o => ScopesThere s.state o

/-- The steps in which, besides, a claim charges all its scopes. -/
abbrev charging (L : ClusterLedger) : Nat → Unit → RunPast → RunOp → Prop :=
  fun _ _ s o => ScopesThere s.state o ∧ ChargesAll L s.state o

/-- A run without nodes of the tenant `t:a`. -/
def tenantSpec (runId : String) : RunSpec :=
  { runId := runId, planSnapshot := {}, tenantKey := some "t:a" }

/-- Two runs of one tenant are created and claimed. -/
def claimedTwice (L : ClusterLedger) : List (Pool.Move RunOp RunRes Unit Unit) :=
  solo 0 2 () (createRun (tenantSpec "gexec-1") 32 256).discard ++
    solo 1 2 () (createRun (tenantSpec "gexec-2") 32 256).discard ++
    solo 2 6 () (claimLease "gexec-1" "coord-a" 30 3 (some L)).discard ++
    solo 3 6 () (claimLease "gexec-2" "coord-a" 30 3 (some L)).discard

theorem claimedTwice_starts {L : ClusterLedger} {m : Pool.Move RunOp RunRes Unit Unit}
    (hm : m ∈ claimedTwice L) (p : RunProgram Unit) (hp : m.starts = some p) :
    Client (· = some L) p := by
  simp only [claimedTwice, mem_append] at hm
  rcases hm with ((hm | hm) | hm) | hm <;> rw [starts_solo hm hp]
  · exact .of_plain (Prog.uses_bind (createRun_plain _ _ _) fun _ => trivial)
  · exact .of_plain (Prog.uses_bind (createRun_plain _ _ _) fun _ => trivial)
  · exact .claimLease rfl fun _ => .done ()
  · exact .claimLease rfl fun _ => .done ()

/-- An advisory ledger that lets one run at a time pass without a warning. -/
def oneAtATime : ClusterLedger :=
  { limits := Dict.ofList [("global", limitsOf none none (some 1) none none)] }

end WebGis.Cluster
