/-
  The contracts of the cluster's control plane: the statuses of a run, the dimensions of the
  resource ledger, and what a run claims of them.

  A plan is kept as what the estimates read of it. The amounts of its nodes are integers; a
  hint that is no number is refused before a run is created and does not occur here.

  The resource ledger: what the runs of each scope have reserved, and the limits it checks.

  A reservation visits the scopes of a claim one after another, each with one conditional
  update. An enforcing ledger stops at the first scope that is over its limit and the caller
  rolls back; an advisory one charges that scope all the same and stops there too.
-/
import WebGis.Data.Dict

namespace WebGis.Cluster

open Data List Option Dict

/-! ## Runs -/

inductive ClusterRunStatus where
  | queued | leased | running | completed | failed | cancelled | preempted
  deriving DecidableEq, Repr

open ClusterRunStatus

def terminalStatuses : List ClusterRunStatus := [completed, failed, cancelled]

def dispatchableStatuses : List ClusterRunStatus := [queued, preempted]

def leasedStatuses : List ClusterRunStatus := [leased, running]

/-- The priorities of `RunPriority`. -/
def runPriorities : List Int := [0, 5, 10]

/-- `RunPriority.coerce` -/
def coercePriority (value : Int) : Int := if value ∈ runPriorities then value else 5

def maxPlanSnapshotBytes : Nat := 256 * 1024

def defaultMaxRunAttempts : Nat := 3

def maxPreempts : Nat := 64

def runErrorForReclaim (attempts maxAttempts : Nat) : Option String :=
  if maxAttempts ≤ attempts then some "WORKER_LOSS" else none

variable {s : ClusterRunStatus}

theorem not_leased_of_dispatchable (h : s ∈ dispatchableStatuses) : s ∉ leasedStatuses := by
  revert h
  cases s <;> decide

theorem not_terminal_of_dispatchable (h : s ∈ dispatchableStatuses) : s ∉ terminalStatuses := by
  revert h
  cases s <;> decide

theorem not_terminal_of_leased (h : s ∈ leasedStatuses) : s ∉ terminalStatuses := by
  revert h
  cases s <;> decide

/-! ## Resources -/

/-- `RESOURCE_DIMENSIONS` -/
inductive Dimension where
  | rows | bytes | units | memMb | gpu
  deriving DecidableEq, Repr

/-- The dimensions, in the order in which they are checked. -/
def resourceDimensions : List Dimension := [.rows, .bytes, .units, .memMb, .gpu]

theorem mem_resourceDimensions (d : Dimension) : d ∈ resourceDimensions := by
  cases d <;> decide

/-- An amount of every dimension. -/
abbrev Amounts : Type := Dimension → Nat

/-- Whether there is nothing to account for. -/
def isZero (a : Amounts) : Bool := resourceDimensions.all fun d => a d = 0

theorem isZero_iff {a : Amounts} : isZero a ↔ a = 0 := by
  simp only [isZero, List.all_eq_true, decide_eq_true_eq]
  constructor
  · intro h
    funext d
    exact h d (mem_resourceDimensions d)
  · rintro rfl d -
    rfl

/-! ## What a run claims -/

/-- A node of a plan, as the estimates read it: the features it carries, the length of its
    JSON, and the client's hints. -/
structure PlanNode where
  features : Nat := 0
  encoded : Nat := 0
  rows : Int := 0
  bytes : Int := 0
  memoryMb : Int := 0

/-- A plan, with the length of its JSON. -/
structure PlanSnapshot where
  nodes : List PlanNode := []
  encoded : Nat := 0

/-- A run's resource envelope, with the length of its JSON. -/
structure ResourceRequest where
  gpu : Int := 0
  encoded : Nat := 0

/-- The refusals of an estimate. -/
inductive EstimateError where
  | tooLarge | negativeMemory
  deriving DecidableEq, Repr

def estimateFromSnapshot (plan : PlanSnapshot) : Except EstimateError (Nat × Nat) :=
  plan.nodes.foldlM (fun (rows, bytes) node =>
    let rows := rows + max (max 1 node.features) node.rows.toNat
    let bytes := bytes + max (max 1024 node.encoded) node.bytes.toNat
    if 2 ^ 63 - 1 < max rows bytes then .error .tooLarge else .ok (rows, bytes)) (0, 0)

def maxClaimMemMb : Int := 2097152

/-- The amounts of `_claims_for_row`, which are the same for every scope. -/
def claimedAmounts (plan : PlanSnapshot) (request : Option ResourceRequest) (units : Nat) :
    Except EstimateError Amounts := do
  let (rows, bytes) ← estimateFromSnapshot plan
  let memMb := min (plan.nodes.map PlanNode.memoryMb).sum maxClaimMemMb
  if memMb < 0 then throw .negativeMemory
  let gpu := (max 0 (min ((request.map ResourceRequest.gpu).getD 0) 64)).toNat
  return fun
    | .rows => rows
    | .bytes => bytes
    | .units => units
    | .memMb => memMb.toNat
    | .gpu => gpu

def scopeKeysFor (tenantKey projectKey : Option String) : List String :=
  "global" :: (tenantKey.filter (· ≠ "")).toList ++ (projectKey.filter (· ≠ "")).toList

/-- The same amounts under every scope of a run, as the dictionaries of `_claims_for_row` and
    `_reserved_claims_from_row` hold them. -/
def claimsOver (tenantKey projectKey : Option String) (amounts : Amounts) : Dict String Amounts :=
  ofList ((scopeKeysFor tenantKey projectKey).map fun k => (k, amounts))

/-! ## The ledger -/

/-- A row of `geocompute_resource_usage`. -/
structure UsageRow where
  scopeKey : String
  usage : Amounts := 0
  limit : Dimension → Option Nat := fun _ => none

/-- The table of usages. -/
abbrev Usages : Type := Table UsageRow String UsageRow.scopeKey

/-- The usage of a scope, which is nothing where there is no row. -/
def usageOf (u : Usages) (k : String) : Amounts := ((u.get k).map UsageRow.usage).getD 0

/-- The limits of one scope or of a family of scopes: a missing dimension is unlimited. -/
abbrev ScopeLimits : Type := Dict Dimension (Option Nat)

def limitsOf (rows bytes units memMb gpu : Option Nat) : ScopeLimits :=
  ofList [(.rows, rows), (.bytes, bytes), (.units, units), (.memMb, memMb), (.gpu, gpu)]

/-- The limits a ledger has when none are given. -/
def defaultLimits : Dict String ScopeLimits :=
  ofList [("global", limitsOf none none (some 8) none none),
    ("tenant", limitsOf none none (some 8) none none),
    ("project", limitsOf none none (some 4) none none)]

/-- What a ledger object holds. -/
structure ClusterLedger where
  enforcing : Bool := false
  limits : Dict String ScopeLimits := defaultLimits

/-- `scope_key.split(":", 1)[0]` -/
def scopeFamily (scopeKey : String) : String := String.ofList (scopeKey.toList.takeWhile (· ≠ ':'))

namespace ClusterLedger

variable (L : ClusterLedger)

/-- `self._limits.get(key)`, where an empty dictionary counts as missing. -/
def configured (key : String) : Option ScopeLimits := (L.limits.find key).filter (·.items ≠ [])

def scopeLimit (scopeKey : String) (d : Dimension) : Option Nat :=
  (((L.configured scopeKey).or (L.configured (scopeFamily scopeKey))).bind (·.find d)).join

/-- Whether one dimension of a claim stays within a limit. -/
def within (limit : Option Nat) (usage claim : Nat) : Bool :=
  claim = 0 || limit.all (usage + claim ≤ ·)

/-- The condition of the update that charges a scope. -/
def admits (row : UsageRow) (claim : Amounts) : Bool :=
  resourceDimensions.all fun d => within (L.scopeLimit row.scopeKey d) (row.usage d) (claim d)

def locateRejectDim (row : UsageRow) (claim : Amounts) : Dimension :=
  (resourceDimensions.find? fun d =>
    !within (L.scopeLimit row.scopeKey d) (row.usage d) (claim d)).getD .units

end ClusterLedger

def UsageRow.charge (row : UsageRow) (claim : Amounts) : UsageRow :=
  { row with usage := row.usage + claim }

/-- The clamped return of a claim: no usage goes below zero. -/
def UsageRow.discharge (row : UsageRow) (claim : Amounts) : UsageRow :=
  { row with usage := fun d => row.usage d - claim d }

/-- `reserve_claims_checked`: the table afterwards, and the dimension of the first refusal. -/
def ClusterLedger.reserve (L : ClusterLedger) (u : Usages) :
    List (String × Amounts) → Usages × Option Dimension
  | [] => (u, none)
  | (k, claim) :: rest =>
    if isZero claim then L.reserve u rest
    else
      match u.get k with
      | none => if L.enforcing then (u, some .units) else L.reserve u rest
      | some row =>
        if L.admits row claim then L.reserve (u.put (row.charge claim)) rest
        -- an advisory ledger charges the scope and leaves the rest of the claim out
        else if L.enforcing then (u, some (L.locateRejectDim row claim))
        else (u.put (row.charge claim), some (L.locateRejectDim row claim))

/-- The return of one scope of `release_claims`. -/
def releaseScope (u : Usages) (c : String × Amounts) : Usages :=
  if isZero c.2 then u
  else
    match u.get c.1 with
    | none => u
    | some row => u.put (row.discharge c.2)

def releaseClaims (u : Usages) (claims : List (String × Amounts)) : Usages :=
  claims.foldl releaseScope u

/-- One scope of `ensure_scopes`. -/
def ClusterLedger.ensureScope (L : ClusterLedger) (u : Usages) (k : String) : Usages :=
  match u.get k with
  | some _ => u
  | none => (u.insert [{ scopeKey := k, limit := L.scopeLimit k }]).getD u

def setScopeLimits (u : Usages) (k : String) (limit : Dimension → Option Nat) : Usages × Bool :=
  if k = "" ∨ 80 < k.length then (u, false)
  else
    match u.get k with
    | some row => (u.put { row with limit := limit }, true)
    | none => ((u.insert [{ scopeKey := k, limit := limit }]).getD u, true)

/-! ## What a claim charges -/

/-- What a claim has for a scope. -/
def due : List (String × Amounts) → String → Amounts
  | [], _ => 0
  | c :: rest, k => (if c.1 = k then c.2 else 0) + due rest k

variable {k : String}

theorem due_of_not_mem {claims : List (String × Amounts)} (h : k ∉ claims.map Prod.fst) :
    due claims k = 0 := by
  induction claims with
  | nil => rfl
  | cons c rest ih =>
    rw [map_cons, mem_cons, not_or] at h
    rw [due, if_neg (Ne.symm h.1), ih h.2, add_zero]

theorem due_items (claims : Dict String Amounts) (k : String) :
    due claims.items k = (claims.find k).getD 0 := by
  have hitems : ∀ items : List (String × Amounts), (items.map Prod.fst).Nodup →
      due items k = ((items.find? fun c => c.1 = k).map Prod.snd).getD 0 := by
    intro items hu
    induction items with
    | nil => rfl
    | cons c rest ih =>
      rw [map_cons, nodup_cons] at hu
      rw [due, find?_cons]
      by_cases h : c.1 = k
      · rw [if_pos h, due_of_not_mem (h ▸ hu.1), add_zero]
        simp [h]
      · rw [if_neg h, zero_add, ih hu.2]
        simp [h]
  exact hitems claims.items claims.unique

theorem due_claimsOver (tenantKey projectKey : Option String) (a : Amounts) (k : String) :
    due (claimsOver tenantKey projectKey a).items k =
      if k ∈ scopeKeysFor tenantKey projectKey then a else 0 := by
  rw [due_items, claimsOver, find_ofList_const]
  split <;> rfl

theorem mem_claimsOver {tenantKey projectKey : Option String} {a : Amounts}
    {c : String × Amounts} (h : c ∈ (claimsOver tenantKey projectKey a).items) :
    c.1 ∈ scopeKeysFor tenantKey projectKey ∧ c.2 = a := by
  have hfind : (claimsOver tenantKey projectKey a).find c.1 = some c.2 := find_eq_some.mpr h
  rw [claimsOver, find_ofList_const] at hfind
  split at hfind
  · rename_i hk
    exact ⟨hk, (some.inj hfind).symm⟩
  · cases hfind

/-! ## Usages after an operation -/

variable {u : Usages}

variable {row : UsageRow}

theorem scopeKey_of_get (h : u.get k = some row) : row.scopeKey = k := Table.get_key h

theorem usageOf_put {r r0 : UsageRow} (h : u.get r.scopeKey = some r0) (k : String) :
    usageOf (u.put r) k = if r.scopeKey = k then r.usage else usageOf u k := by
  unfold usageOf
  rw [Table.get_put h]
  split <;> rfl

theorem usageOf_of_get (h : u.get k = some row) : usageOf u k = row.usage := by
  rw [usageOf, h]
  rfl

theorem usageOf_of_none (h : u.get k = none) : usageOf u k = 0 := by
  rw [usageOf, h]
  rfl

theorem usageOf_charge (h : u.get k = some row) (claim : Amounts) (k' : String) :
    usageOf (u.put (row.charge claim)) k' = usageOf u k' + if k = k' then claim else 0 := by
  have hkey : (row.charge claim).scopeKey = k := show row.scopeKey = k from scopeKey_of_get h
  rw [usageOf_put (by rw [hkey]; exact h), hkey]
  by_cases hk : k = k'
  · rw [if_pos hk, if_pos hk, ← hk, usageOf_of_get h]
    rfl
  · rw [if_neg hk, if_neg hk, add_zero]

theorem usageOf_releaseScope (u : Usages) (c : String × Amounts) (k : String) (d : Dimension) :
    usageOf (releaseScope u c) k d = usageOf u k d - if c.1 = k then c.2 d else 0 := by
  unfold releaseScope
  split
  · rename_i hz
    rw [isZero_iff.mp hz]
    split <;> rfl
  · split
    · rename_i hnone
      split
      · rename_i hk
        rw [← hk, usageOf_of_none hnone]
        exact (Nat.zero_sub _).symm
      · rfl
    · rename_i row hrow
      have hkey : (row.discharge c.2).scopeKey = c.1 :=
        show row.scopeKey = c.1 from scopeKey_of_get hrow
      rw [usageOf_put (by rw [hkey]; exact hrow), hkey]
      by_cases hk : c.1 = k
      · rw [if_pos hk, if_pos hk, ← hk, usageOf_of_get hrow]
        rfl
      · rw [if_neg hk, if_neg hk, Nat.sub_zero]

theorem usageOf_releaseClaims (claims : List (String × Amounts)) (u : Usages) (k : String)
    (d : Dimension) : usageOf (releaseClaims u claims) k d = usageOf u k d - due claims k d := by
  induction claims generalizing u with
  | nil => rfl
  | cons c rest ih =>
    have hstep := ih (releaseScope u c)
    unfold releaseClaims at hstep ⊢
    rw [foldl_cons, hstep, usageOf_releaseScope, Nat.sub_sub, due, Pi.add_apply]
    split <;> rfl

theorem usageOf_insert {u' : Usages} (h : u.insert [row] = some u')
    (hnone : u.get row.scopeKey = none) (k : String) :
    usageOf u' k = if row.scopeKey = k then row.usage else usageOf u k := by
  unfold usageOf
  rw [Table.get_insert h]
  by_cases hk : row.scopeKey = k
  · rw [if_pos hk, ← hk, hnone]
    simp
  · simp [hk]

theorem usageOf_ensureScope (L : ClusterLedger) (u : Usages) (key k : String) :
    usageOf (L.ensureScope u key) k = usageOf u k := by
  unfold ClusterLedger.ensureScope
  split
  · rfl
  rename_i hnone
  cases hins : u.insert [{ scopeKey := key, limit := L.scopeLimit key }] with
  | none => rfl
  | some u' =>
    rw [getD_some, usageOf_insert hins hnone]
    split
    · rename_i hk
      rw [← hk, usageOf_of_none hnone]
    · rfl

theorem usageOf_setScopeLimits (u : Usages) (key : String) (limit : Dimension → Option Nat)
    (k : String) : usageOf (setScopeLimits u key limit).1 k = usageOf u k := by
  unfold setScopeLimits
  split
  · rfl
  split
  · rename_i row hrow
    have hkey : row.scopeKey = key := scopeKey_of_get hrow
    have hget : u.get ({ row with limit := limit } : UsageRow).scopeKey = some row := by
      rw [hkey, hrow]
    rw [usageOf_put hget]
    split
    · rename_i hk
      rw [← hk, hkey, usageOf_of_get hrow]
    · rfl
  · rename_i hnone
    cases hins : u.insert [{ scopeKey := key, limit := limit }] with
    | none => rfl
    | some u' =>
      show usageOf u' k = usageOf u k
      rw [usageOf_insert hins hnone]
      split
      · rename_i hk
        rw [← hk, usageOf_of_none hnone]
      · rfl

/-- The scope has a row. -/
def HasScope (u : Usages) (k : String) : Prop := (u.get k).isSome = true

instance (u : Usages) (k : String) : Decidable (HasScope u k) :=
  inferInstanceAs (Decidable (_ = true))

/-- The scope has a row and is not over its limit with the claim. -/
def ClusterLedger.HasRoom (L : ClusterLedger) (u : Usages) (c : String × Amounts) : Prop :=
  (u.get c.1).any (L.admits · c.2) = true

instance (L : ClusterLedger) (u : Usages) (c : String × Amounts) : Decidable (L.HasRoom u c) :=
  inferInstanceAs (Decidable (_ = true))

theorem get_put_ne_of_charge {k' : String} (h : u.get k = some row) (claim : Amounts)
    (hne : k ≠ k') : (u.put (row.charge claim)).get k' = u.get k' := by
  refine Table.get_put_ne ?_
  show row.scopeKey ≠ k'
  rw [scopeKey_of_get h]
  exact hne

theorem mem_dropLast_cons {ι : Type} {x c : ι} {rest : List ι} (h : x ∈ rest.dropLast) :
    x ∈ (c :: rest).dropLast := by
  cases rest with
  | nil => cases h
  | cons c' rest => exact mem_cons_of_mem _ h

/-- A reservation that is not refused charges every scope. So does one of an advisory ledger
    when every scope but the last has room. -/
theorem usageOf_reserve (L : ClusterLedger) (claims : List (String × Amounts)) (u : Usages)
    (hdistinct : (claims.map Prod.fst).Nodup) (hrows : ∀ c ∈ claims, HasScope u c.1)
    (h : (L.reserve u claims).2 = none ∨ L.enforcing = false ∧ ∀ c ∈ claims.dropLast, L.HasRoom u c)
    (k : String) : usageOf (L.reserve u claims).1 k = usageOf u k + due claims k := by
  induction claims generalizing u with
  | nil => exact (add_zero _).symm
  | cons c rest ih =>
    obtain ⟨key, claim⟩ := c
    rw [map_cons, nodup_cons] at hdistinct
    obtain ⟨row, hrow⟩ := isSome_iff_exists.mp (hrows _ mem_cons_self)
    have hrest : ∀ c ∈ rest, HasScope u c.1 := fun c hc => hrows c (mem_cons_of_mem _ hc)
    unfold ClusterLedger.reserve at h ⊢
    rw [due]
    split
    · rename_i hz
      rw [if_pos hz] at h
      rw [isZero_iff.mp hz, ite_self, zero_add]
      exact ih u hdistinct.2 hrest
        (h.imp_right fun ha => ⟨ha.1, fun c hc => ha.2 c (mem_dropLast_cons hc)⟩)
    · rename_i hz
      simp only [hrow, if_neg hz] at h ⊢
      by_cases hadm : L.admits row claim
      · -- the scopes after this one are as they were
        have hsame : ∀ c ∈ rest, (u.put (row.charge claim)).get c.1 = u.get c.1 := by
          intro c hc
          refine get_put_ne_of_charge hrow claim fun he => hdistinct.1 ?_
          rw [he]
          exact List.mem_map_of_mem hc
        simp only [hadm, if_true] at h ⊢
        rw [ih _ hdistinct.2 ?_ ?_, usageOf_charge hrow, add_assoc]
        · intro c hc
          unfold HasScope
          rw [hsame c hc]
          exact hrest c hc
        · refine h.imp_right fun ha => ⟨ha.1, fun c hc => ?_⟩
          unfold ClusterLedger.HasRoom
          rw [hsame c (dropLast_subset _ hc)]
          exact ha.2 c (mem_dropLast_cons hc)
      · -- refused: the ledger is advisory, and this is the last scope
        simp only [hadm, Bool.false_eq_true, if_false] at h ⊢
        have hadv : L.enforcing = false := by
          rcases h with h | h
          · split at h <;> cases h
          · exact h.1
        have hlast : rest = [] := by
          by_contra hne
          have hroom : ∀ c ∈ ((key, claim) :: rest).dropLast, L.HasRoom u c := by
            rcases h with h | h
            · split at h <;> cases h
            · exact h.2
          have hmem : (key, claim) ∈ ((key, claim) :: rest).dropLast := by
            rw [dropLast_cons_of_ne_nil hne]
            exact mem_cons_self
          have hfits := hroom _ hmem
          unfold ClusterLedger.HasRoom at hfits
          rw [hrow] at hfits
          exact hadm hfits
        rw [if_neg (by rw [hadv]; exact Bool.false_ne_true), usageOf_charge hrow, hlast]
        exact congrArg _ (add_zero _).symm

end WebGis.Cluster
