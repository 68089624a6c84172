/-
  The tree of budgets, and the runs that reserve, charge and release along its chains.

  Every operation looks its chain up and then goes through it, one scope and one lock at a time; a
  scope that is taken from the tree lives on for those who have looked it up before. A run mounts
  the scopes of its identity, makes one of its own, reserves its estimate, and its scheduler takes
  and gives back slots while its nodes charge what they have returned. At its end it gives back the
  estimate and what its nodes have charged, takes its own scope away and unmounts the others.
-/
import WebGis.Data.Entries

namespace WebGis.Compute

open Data

/-! ## Usage -/

/-- The fields of `ScopeUsage`. -/
inductive Dim where
  | rows
  | bytes
  | nodes
  | concurrency
  deriving DecidableEq

abbrev Usage : Type := Dim → Int

/-- `max(0, usage - amount)`, with the amount negated. -/
def giveBack (usage amount : Usage) : Usage := fun d => max 0 (usage d + amount d)

/-- So many slots. -/
def slotUsage (units : Nat) : Usage := fun d => if d = .concurrency then units else 0

/-- The estimate of a plan, and the plan itself as one node. -/
def planUsage (rows : Int) : Usage := fun d =>
  match d with
  | .rows => rows
  | .nodes => 1
  | _ => 0

/-- What a node has returned. -/
def nodeUsage (rows bytes : Nat) : Usage := fun d =>
  match d with
  | .rows => rows
  | .bytes => bytes
  | .nodes => 1
  | .concurrency => 0

/-! ## The tree -/

inductive ScopeKind where
  | tenant
  | project
  | session
  | execution
  deriving DecidableEq

/-- One part of a path: `kind:id`. -/
abbrev Segment : Type := ScopeKind × String

/-- Below the root. -/
abbrev ScopePath : Type := List Segment

structure Scope where
  path : ScopePath := []
  limits : Dim → Option Nat := fun _ => none
  usage : Usage := 0
  refs : Nat := 0

/-- The scopes that were ever made, and those that are in the tree under their paths; scope 0 is
    the root. -/
structure ResourceGovernor where
  scopes : Nat → Scope := fun _ => {}
  next : Nat := 1
  tree : Dict ScopePath Nat := Dict.empty.set [] 0

namespace ResourceGovernor

def modify (g : ResourceGovernor) (id : Nat) (f : Scope → Scope) : ResourceGovernor :=
  { g with scopes := Function.update g.scopes id (f (g.scopes id)) }

/-- The scopes below one, as far as the path is known. -/
def walk (g : ResourceGovernor) (above : ScopePath) : ScopePath → List Nat
  | [] => []
  | part :: rest =>
    match g.tree.find (above ++ [part]) with
    | none => []
    | some id => id :: g.walk (above ++ [part]) rest

def chain (g : ResourceGovernor) (path : ScopePath) : List Nat := 0 :: g.walk [] path

/-- A new scope in the tree. -/
def make (g : ResourceGovernor) (path : ScopePath) (limits : Dim → Option Nat) :
    ResourceGovernor where
  scopes := Function.update g.scopes g.next { path := path, limits := limits, refs := 1 }
  next := g.next + 1
  tree := g.tree.set path g.next

/-- `ensure_scope`, and the scope that it comes to. -/
def ensureScope (g : ResourceGovernor) (parent : ScopePath) (part : Segment)
    (limits : Dim → Option Nat) : Option (ResourceGovernor × Nat) :=
  match g.tree.find (parent ++ [part]) with
  | some id => some (g.modify id fun s => { s with refs := s.refs + 1 }, id)
  | none =>
    match g.tree.find parent with
    | none => none
    | some _ => some (g.make (parent ++ [part]) limits, g.next)

def createScope (g : ResourceGovernor) (parent : ScopePath) (part : Segment)
    (limits : Dim → Option Nat) : Option (ResourceGovernor × Nat) :=
  match g.tree.find parent with
  | none => none
  | some _ => some (g.make (parent ++ [part]) limits, g.next)

def erase (g : ResourceGovernor) (path : ScopePath) : ResourceGovernor :=
  { g with tree := Table.delete g.tree fun kv => kv.1 = path }

/-- Some scope is right below this one. -/
def hasChildren (g : ResourceGovernor) (path : ScopePath) : Bool :=
  g.tree.keys.any fun q => q ≠ [] ∧ q.dropLast = path

def reclaimable (g : ResourceGovernor) (id : Nat) : Bool :=
  let s := g.scopes id
  (s.path.getLast?.all fun part => part.1 ≠ .execution) ∧ s.refs = 0 ∧
    ¬ g.hasChildren s.path ∧ ∀ d ∈ [Dim.rows, .bytes, .nodes, .concurrency], s.usage d = 0

/-- `_reclaim_chain`, from the leaf up. -/
def reclaimChain (g : ResourceGovernor) : List Nat → ResourceGovernor
  | [] => g
  | id :: rest =>
    if g.reclaimable id then
      let path := (g.scopes id).path
      (if g.tree.find path = some id then g.erase path else g).reclaimChain rest
    else g

/-- One mount less all along a chain. -/
def unref (g : ResourceGovernor) (chain : List Nat) : ResourceGovernor :=
  chain.foldl (fun g id => g.modify id fun s => { s with refs := s.refs - 1 }) g

/-- The locked section of `release_scope`. -/
def releaseChain (g : ResourceGovernor) (chain : List Nat) : ResourceGovernor :=
  if chain.length ≤ 1 then g else (g.unref chain).reclaimChain chain.tail.reverse

end ResourceGovernor

/-! ## Operations along a chain -/

inductive OpKind where
  /-- The estimate of the plan. -/
  | plan
  | slot (node : String) (units : Nat)
  /-- A node has settled, or its lease is over. -/
  | unslot (node : String)
  | charge
  /-- The end of the run. -/
  | final
  deriving DecidableEq

/-- `reserve`, `release` or `charge` on its way; an amount that is given back is negative. -/
structure ChainOp where
  kind : OpKind
  amount : Usage
  /-- The scopes that have the amount, and those that are still to come. -/
  past : List Nat := []
  todo : List Nat
  /-- A refused reservation takes back what it has added. -/
  undoing : Bool := false

/-- `release`, which does not go below zero. -/
def OpKind.gives : OpKind → Bool
  | unslot _ => true
  | final => true
  | _ => false

/-- `reserve`, which looks at the limits. -/
def OpKind.checks : OpKind → Bool
  | plan => true
  | slot _ _ => true
  | _ => false

/-- The amount is over some limit of the scope. -/
def Scope.refuses (s : Scope) (amount : Usage) : Bool :=
  [Dim.rows, .bytes, .nodes, .concurrency].any fun d =>
    amount d ≠ 0 ∧ (s.limits d).any fun m => (m : Int) < s.usage d + amount d

/-- The scope after its part of the operation. -/
def Scope.take (s : Scope) (op : ChainOp) : Scope :=
  { s with usage := if op.kind.gives then giveBack s.usage op.amount else s.usage + op.amount }

/-! ## Runs -/

inductive RunStage where
  | mounting
  /-- The scope of the execution is there. -/
  | created
  | active
  /-- The scheduler has left its loop and waits for its threads. -/
  | draining
  | releasing
  /-- The scope of the execution is to go. -/
  | closing
  | unmounting
  /-- `release_scope` has looked up its chain. -/
  | leaving
  | ended
  deriving DecidableEq

structure BudgetRun where
  identity : ScopePath
  stage : RunStage := .mounting
  /-- The scopes that it has mounted, and its own. -/
  mounts : List Nat := []
  scope : Option Nat := none
  reserved : Usage := 0
  charged : Usage := 0
  /-- The slots of the nodes in flight whose lease is not over. -/
  slots : Dict String Nat := Dict.empty
  /-- The operations of the scheduler's thread and of the nodes' threads. -/
  ops : Dict (Option String) ChainOp := Dict.empty
  /-- The chain that `release_scope` has looked up. -/
  leaving : List Nat := []

/-- What an operation has done to a scope so far. -/
def ChainOp.applied (id : Nat) (op : ChainOp) : Usage :=
  if id ∈ op.past then op.amount else 0

namespace BudgetRun

/-- The path of the run's own scope. -/
def path (r : BudgetRun) (execution : String) : ScopePath :=
  r.identity ++ [(.execution, execution)]

/-- The scopes of the run's chain. -/
def chain (r : BudgetRun) : List Nat := 0 :: r.mounts ++ r.scope.toList

/-- What the run has reserved, charged and taken. -/
def base (r : BudgetRun) : Usage := r.reserved + r.charged + Dict.sum slotUsage r.slots

/-- What the run holds in one scope. -/
def held (id : Nat) (r : BudgetRun) : Usage :=
  (if id ∈ r.chain then r.base else 0) + Dict.sum (ChainOp.applied id) r.ops

def launch (r : BudgetRun) (thread : Option String) (op : ChainOp) : BudgetRun :=
  { r with ops := r.ops.set thread op }

def clear (r : BudgetRun) (thread : Option String) : BudgetRun :=
  { r with ops := Table.delete r.ops fun kv => kv.1 = thread }

/-- An operation has been through its chain. -/
def finish (r : BudgetRun) (op : ChainOp) : BudgetRun :=
  match op.kind with
  | .plan => { r with reserved := op.amount, stage := .active }
  | .slot node units => { r with slots := r.slots.set node units }
  | .unslot node => { r with slots := Table.delete r.slots fun kv => kv.1 = node }
  | .charge => { r with charged := r.charged + op.amount }
  | .final => { r with reserved := 0, charged := 0, stage := .closing }

/-- A reservation has been refused: a plan ends there, a node waits. -/
def refused (r : BudgetRun) (op : ChainOp) : BudgetRun :=
  match op.kind with
  | .plan => { r with stage := .closing }
  | _ => r

end BudgetRun

structure BudgetWorld where
  gov : ResourceGovernor := {}
  /-- The runs under the ids of their executions. -/
  runs : Dict String BudgetRun := Dict.empty

namespace BudgetWorld

def put (w : BudgetWorld) (k : String) (r : BudgetRun) : BudgetWorld :=
  { w with runs := w.runs.set k r }

/-- An operation comes to its next scope, or to its end. -/
def move (w : BudgetWorld) (k : String) (r : BudgetRun) (thread : Option String) (op : ChainOp) :
    BudgetWorld :=
  if op.undoing then
    match op.past with
    | [] => w.put k ((r.clear thread).refused op)
    | id :: rest =>
      { gov := w.gov.modify id fun s => { s with usage := s.usage - op.amount }
        runs := w.runs.set k (r.launch thread { op with past := rest }) }
  else
    match op.todo with
    | [] => w.put k ((r.clear thread).finish op)
    | id :: rest =>
      if op.kind.checks ∧ (w.gov.scopes id).refuses op.amount then
        w.put k (r.launch thread { op with undoing := true })
      else
        { gov := w.gov.modify id fun s => s.take op
          runs := w.runs.set k (r.launch thread { op with past := op.past ++ [id], todo := rest }) }

end BudgetWorld

inductive BudgetAct where
  /-- `run_plan_sync`, with the digests of its identity. -/
  | start (tenant project session : Option String)
  /-- `ensure_scope`, one segment further. -/
  | mount (limits : Dim → Option Nat)
  /-- `validate_plan` or the admission check raises. -/
  | reject
  | create (limits : Dim → Option Nat)
  /-- `reserve` of the plan, whose nodes are estimated at so many rows. -/
  | reserve (rows : Int)
  /-- The counter of all processes says no. -/
  | deny
  | submit (node : String) (units : Nat)
  /-- A node has settled, or its lease is over. -/
  | settle (node : String)
  | charge (node : String) (rows bytes : Nat)
  /-- An operation of a thread goes on. -/
  | move (thread : Option String)
  /-- Nothing is left to do. -/
  | drain
  /-- `yield_check` raises. -/
  | raise
  | release
  | teardown
  /-- `release_scope`: the chain, and then its locked section. -/
  | look
  | unmount

/-- The segments of an identity that are there. -/
def identityOf (tenant project session : Option String) : ScopePath :=
  (tenant.toList.map (.tenant, ·)) ++ (project.toList.map (.project, ·)) ++
    (session.toList.map (.session, ·))

namespace BudgetWorld

/-- What a run that is there does. -/
def act (w : BudgetWorld) (k : String) (r : BudgetRun) : BudgetAct → Option BudgetWorld
  | .start _ _ _ => none
  | .mount limits =>
    if r.stage = .mounting then
      match r.identity.drop r.mounts.length with
      | [] => none
      | part :: _ =>
        match w.gov.ensureScope (r.identity.take r.mounts.length) part limits with
        -- Raised before the run has begun: nothing is given back.
        | none => some (w.put k { r with stage := .ended })
        | some (gov, id) =>
          some { gov := gov, runs := w.runs.set k { r with mounts := r.mounts ++ [id] } }
    else none
  | .reject =>
    if r.stage = .mounting ∧ r.mounts.length = r.identity.length then
      some (w.put k { r with stage := .unmounting })
    else none
  | .create limits =>
    if r.stage = .mounting ∧ r.mounts.length = r.identity.length then
      match w.gov.createScope r.identity (.execution, k) limits with
      | none => some (w.put k { r with stage := .unmounting })
      | some (gov, id) =>
        some { gov := gov, runs := w.runs.set k { r with scope := some id, stage := .created } }
    else none
  | .reserve rows =>
    if r.stage = .created ∧ r.ops.find none = none then
      some (w.put k (r.launch none
        { kind := .plan, amount := planUsage rows, todo := w.gov.chain (r.path k) }))
    else none
  | .deny =>
    if r.stage = .created ∧ r.ops.find none = none then
      some (w.put k { r with stage := .closing })
    else none
  | .submit node units =>
    if r.stage = .active ∧ r.ops.find none = none ∧ r.slots.find node = none then
      some (w.put k (r.launch none
        { kind := .slot node units, amount := slotUsage units
          todo := w.gov.chain (r.path k) }))
    else none
  | .settle node =>
    if r.stage = .active ∧ r.ops.find none = none then
      match r.slots.find node with
      | none => none
      | some units =>
        some (w.put k (r.launch none
          { kind := .unslot node, amount := -slotUsage units
            todo := w.gov.chain (r.path k) }))
    else none
  | .charge node rows bytes =>
    if (r.stage = .active ∨ r.stage = .draining) ∧ r.ops.find (some node) = none then
      some (w.put k (r.launch (some node)
        { kind := .charge, amount := nodeUsage rows bytes, todo := w.gov.chain (r.path k) }))
    else none
  | .move thread =>
    match r.ops.find thread with
    | none => none
    | some op => some (w.move k r thread op)
  | .drain =>
    if r.stage = .active ∧ r.ops.find none = none ∧ r.slots.items = [] then
      some (w.put k { r with stage := .draining })
    else none
  | .raise =>
    if r.stage = .active ∧ r.ops.find none = none then
      some (w.put k { r with stage := .draining })
    else none
  | .release =>
    if r.stage = .draining ∧ r.ops.items = [] then
      some (w.put k ({ r with stage := .releasing }.launch none
        { kind := .final, amount := -(r.reserved + r.charged)
          todo := w.gov.chain (r.path k) }))
    else none
  | .teardown =>
    if r.stage = .closing then
      some { gov := w.gov.erase (r.path k)
             runs := w.runs.set k { r with scope := none, stage := .unmounting } }
    else none
  | .look =>
    if r.stage = .unmounting then
      some (w.put k { r with leaving := w.gov.chain r.identity, stage := .leaving })
    else none
  | .unmount =>
    if r.stage = .leaving then
      some { gov := w.gov.releaseChain r.leaving
             runs := w.runs.set k { r with mounts := [], stage := .ended } }
    else none

def step (w : BudgetWorld) (ka : String × BudgetAct) : Option BudgetWorld :=
  match w.runs.find ka.1, ka.2 with
  | none, .start tenant project session =>
    some (w.put ka.1 { identity := identityOf tenant project session })
  | none, _ => none
  | some r, a => w.act ka.1 r a

/-- Before the first run, with the limits of the root. -/
def init (limits : Dim → Option Nat) : BudgetWorld where
  gov := { scopes := fun _ => { limits := limits } }

end BudgetWorld

end WebGis.Compute
