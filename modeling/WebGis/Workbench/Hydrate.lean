/-
  The workbench document as the frontend restores it.

  `normalizeWorkbenchDoc` makes a document of anything that arrives: groups first all become
  roots, then get the parents that they declare, and rounds over the list settle a depth for
  each of them. A round starts without depths, so only a group whose parent is listed before
  it can get one; the others are made roots in the end. What comes out is a forest at most
  four levels deep whatever went in (`Measured.tree`).
-/
import WebGis.Data.Js
import WebGis.Workbench.Stages

namespace WebGis.Workbench

open Data Data.Json List Option Dict

def maxGroups : Nat := 2000
def groupNameMax : Nat := 200
def maxMembership : Nat := 20000
def maxLocked : Nat := 20000

/-- `WorkbenchGroupNode` -/
structure GroupNode where
  id : JsString
  name : JsString
  collapsed : Bool
  parentId : Option JsString
  deriving DecidableEq

inductive Mode where
  | explore
  | analyze
  | compose
  deriving DecidableEq

/-- `WorkbenchDocV5`; its version is 5. -/
structure WorkbenchDoc where
  groups : List GroupNode
  membership : Dict JsString JsString
  lockedLayerIds : List JsString
  mode : Mode

def nodeIds (groups : List GroupNode) : List JsString := groups.map GroupNode.id

/-! ## Groups as roots -/

/-- The text that a value is. -/
def textIn : Option Js → Option JsString
  | some (.str s) => some s
  | _ => none

/-- `typeof name === 'string' && name.length > 0 ? name : id` -/
def rawName (name : Option Js) (id : JsString) : JsString :=
  match textIn name with
  | some (c :: cs) => c :: cs
  | _ => id

def isTrue : Option Js → Bool
  | some (.bool b) => b
  | _ => false

/-- The node that an entry of `candidate.groups` becomes; nothing when it has no id. -/
def nodeOf (g : Js) : Option GroupNode :=
  match textIn (g.get "id") with
  | some (c :: cs) =>
    some
      { id := c :: cs
        name := (rawName (g.get "name") (c :: cs)).take groupNameMax
        collapsed := isTrue (g.get "collapsed")
        parentId := none }
  | _ => none

/-- One round of the first loop; an id that was seen is passed over. -/
def addNode (groups : List GroupNode) (g : Js) : List GroupNode :=
  match nodeOf g with
  | none => groups
  | some node => if node.id ∈ nodeIds groups then groups else groups ++ [node]

/-! ## Parents -/

/-- `declaredById.get(id)` -/
def declared (xs : List Js) (id : JsString) : Option Js :=
  xs.find? fun r => textIn (r.get "id") = some id

/-- A declared parent is taken over when it is another group. -/
def attach (xs : List Js) (groups : List GroupNode) (g : GroupNode) : GroupNode :=
  match (declared xs g.id).bind fun r => textIn (r.get "parentId") with
  | some p => if p ≠ g.id ∧ p ∈ nodeIds groups then { g with parentId := some p } else g
  | none => g

/-- What a round has made of the groups so far. -/
structure Round where
  groups : List GroupNode
  depths : Dict JsString Nat
  changed : Bool

/-- A group in a round. -/
def relax (s : Round) (g : GroupNode) : Round :=
  match g.parentId with
  | none => { s with groups := s.groups ++ [g], depths := s.depths.set g.id 1 }
  | some p =>
    match s.depths.find p with
    | none => { s with groups := s.groups ++ [g] }
    | some d =>
      if d + 1 > groupMaxDepth then
        { groups := s.groups ++ [{ g with parentId := none }]
          depths := s.depths.set g.id 1
          changed := true }
      else { s with groups := s.groups ++ [g], depths := s.depths.set g.id (d + 1) }

/-- One round over all groups. -/
def relaxAll (groups : List GroupNode) : Round :=
  groups.foldl relax { groups := [], depths := Dict.empty, changed := false }

/-- The rounds, of which there are at most `n + 1`. -/
def settle : Nat → List GroupNode → Round
  | 0, groups => relaxAll groups
  | n + 1, groups =>
    if (relaxAll groups).changed = false ∧ (relaxAll groups).depths.items.length = groups.length
    then relaxAll groups
    else settle n (relaxAll groups).groups

/-- A group without a depth becomes a root. -/
def cutLoose (depths : Dict JsString Nat) (g : GroupNode) : GroupNode :=
  if (depths.find g.id).isSome then g else { g with parentId := none }

/-- The groups of the result. -/
def normalizeGroups (xs : List Js) : List GroupNode :=
  let groups := xs.foldl addNode []
  let settled := settle (groupMaxDepth + 1) (groups.map (attach xs groups))
  settled.groups.map (cutLoose settled.depths)

/-! ## The document -/

/-- `membership[layerId] = gid`, which sets nothing under the name of the prototype. -/
def assign (d : Dict JsString JsString) (k v : JsString) : Dict JsString JsString :=
  if k = utf16 "__proto__" then d else d.set k v

/-- One round of the loop over the membership, with the count of the entries taken. -/
def addMember (s : Nat × Dict JsString JsString) (e : JsString × Js) :
    Nat × Dict JsString JsString :=
  if s.1 ≥ maxMembership then s
  else
    match e.2 with
    | .str gid => (s.1 + 1, assign s.2 e.1 gid)
    | _ => s

def normalizeMembership (v : Option Js) : Dict JsString JsString :=
  (((v.map Js.entries).getD []).foldl addMember (0, Dict.empty)).2

def normalizeLocked : Option Js → List JsString
  | some (.arr xs) => (xs.filterMap fun x => textIn (some x)).take maxLocked
  | _ => []

def normalizeMode (v : Option Js) : Mode :=
  if textIn v = some (utf16 "analyze") then .analyze
  else if textIn v = some (utf16 "compose") then .compose
  else .explore

/-- `normalizeWorkbenchDoc(raw)` -/
def normalizeWorkbenchDoc (raw : Js) : Option WorkbenchDoc :=
  match raw.get "version", raw.get "groups" with
  | some (.num v), some (.arr xs) =>
    if v ≠ 5 ∨ xs.length > maxGroups then none
    else
      some
        { groups := normalizeGroups xs
          membership := normalizeMembership (raw.get "membership")
          lockedLayerIds := normalizeLocked (raw.get "lockedLayerIds")
          mode := normalizeMode (raw.get "mode") }
  | _, _ => none

def GroupNode.toJs (g : GroupNode) : Js :=
  .obj [(utf16 "id", .str g.id), (utf16 "name", .str g.name), (utf16 "collapsed", .bool g.collapsed),
    (utf16 "parentId", (g.parentId.map Js.str).getD .null)]

def Mode.text : Mode → JsString
  | .explore => utf16 "explore"
  | .analyze => utf16 "analyze"
  | .compose => utf16 "compose"

/-- A document as a value. -/
def WorkbenchDoc.toJs (d : WorkbenchDoc) : Js :=
  .obj [(utf16 "version", .num 5), (utf16 "groups", .arr (d.groups.map GroupNode.toJs)),
    (utf16 "membership", .obj (d.membership.items.map fun m => (m.1, .str m.2))),
    (utf16 "lockedLayerIds", .arr (d.lockedLayerIds.map Js.str)), (utf16 "mode", .str d.mode.text)]

/-! ## Rounds -/

theorem relaxAll_concat (groups : List GroupNode) (g : GroupNode) :
    relaxAll (groups ++ [g]) = relax (relaxAll groups) g := by
  unfold relaxAll
  rw [foldl_append]
  rfl

theorem relaxAll_again (groups : List GroupNode) :
    relaxAll (relaxAll groups).groups =
      { groups := (relaxAll groups).groups, depths := (relaxAll groups).depths, changed := false } := by
  induction groups using List.reverseRecOn with
  | nil => rfl
  | append_singleton groups g ih =>
    have hstep : ∀ g' : GroupNode,
        relaxAll ((relaxAll groups).groups ++ [g']) =
          relax { groups := (relaxAll groups).groups, depths := (relaxAll groups).depths
                  changed := false } g' := fun g' => by rw [relaxAll_concat, ih]
    rw [relaxAll_concat]
    generalize relaxAll groups = s at hstep ⊢
    cases hp : g.parentId with
    | none => simp [relax, hp, hstep]
    | some p =>
      cases hd : s.depths.find p with
      | none => simp [relax, hp, hd, hstep]
      | some d =>
        by_cases hdeep : d + 1 > groupMaxDepth
        · simp [relax, hp, hd, hdeep, hstep]
        · simp [relax, hp, hd, hdeep, hstep]

theorem settle_eq (n : Nat) (groups : List GroupNode) :
    (settle n groups).groups = (relaxAll groups).groups ∧
      (settle n groups).depths = (relaxAll groups).depths := by
  induction n generalizing groups with
  | zero => exact ⟨rfl, rfl⟩
  | succ n ih =>
    unfold settle
    split
    · exact ⟨rfl, rfl⟩
    · obtain ⟨hgroups, hdepths⟩ := ih (relaxAll groups).groups
      rw [hgroups, hdepths, relaxAll_again]
      exact ⟨rfl, rfl⟩

/-! ## Lists with parents first -/

section ParentsFirst

variable {κ μ : Type}

/-- Every entry's parent is an entry before it, or seen already. -/
def ParentsFirst : List κ → List (κ × Option κ) → Prop
  | _, [] => True
  | seen, e :: es => (∀ p, e.2 = some p → p ∈ seen) ∧ ParentsFirst (seen ++ [e.1]) es

theorem parentsFirst_concat (seen : List κ) (es : List (κ × Option κ)) (e : κ × Option κ) :
    ParentsFirst seen (es ++ [e]) ↔
      ParentsFirst seen es ∧ ∀ p, e.2 = some p → p ∈ seen ++ es.map Prod.fst := by
  induction es generalizing seen with
  | nil => simp [ParentsFirst]
  | cons x es ih =>
    simp only [cons_append, nil_append, ParentsFirst, ih, map_cons, append_assoc, and_assoc]

theorem parentsFirst_map {f : κ → μ} (hf : Function.Injective f) (seen : List κ)
    (es : List (κ × Option κ)) :
    ParentsFirst (seen.map f) (es.map fun e => (f e.1, e.2.map f)) ↔ ParentsFirst seen es := by
  induction es generalizing seen with
  | nil => exact Iff.rfl
  | cons e es ih =>
    have hseen : seen.map f ++ [f e.1] = (seen ++ [e.1]).map f := by simp
    rw [map_cons, ParentsFirst, ParentsFirst, hseen, ih]
    refine and_congr ?_ Iff.rfl
    cases e.2 with
    | none => simp
    | some p => simp [hf.eq_iff]

end ParentsFirst

/-- A group with its parent. -/
def GroupNode.link (g : GroupNode) : JsString × Option JsString := (g.id, g.parentId)

theorem map_fst_link (groups : List GroupNode) :
    (groups.map GroupNode.link).map Prod.fst = nodeIds groups := by
  rw [List.map_map]
  rfl

variable {groups : List GroupNode}

/-- With depths that fit and parents first, a round changes nothing and finds every depth. -/
theorem relaxAll_of_parentsFirst {h : JsString → Nat}
    (hfirst : ParentsFirst [] (groups.map GroupNode.link))
    (hmax : ∀ g ∈ groups, h g.id ≤ groupMaxDepth)
    (hroot : ∀ g ∈ groups, g.parentId = none → h g.id = 1)
    (hchild : ∀ g ∈ groups, ∀ p, g.parentId = some p → h g.id = h p + 1) :
    (relaxAll groups).groups = groups ∧
      ∀ x ∈ nodeIds groups, (relaxAll groups).depths.find x = some (h x) := by
  induction groups using List.reverseRecOn with
  | nil => exact ⟨rfl, fun x hx => absurd hx not_mem_nil⟩
  | append_singleton groups g ih =>
    rw [map_append, map_singleton, parentsFirst_concat, map_fst_link, nil_append] at hfirst
    obtain ⟨hgroups, hdepths⟩ := ih hfirst.1 (fun g' hg' => hmax g' (mem_append_left _ hg'))
      (fun g' hg' => hroot g' (mem_append_left _ hg'))
      (fun g' hg' => hchild g' (mem_append_left _ hg'))
    have hg : g ∈ groups ++ [g] := by simp
    have hset : ∀ x ∈ nodeIds (groups ++ [g]),
        ((relaxAll groups).depths.set g.id (h g.id)).find x = some (h x) := by
      intro x hx
      rw [find_set]
      split
      · rename_i hgx
        rw [hgx]
      · rename_i hgx
        refine hdepths x ?_
        rw [nodeIds, map_append, mem_append] at hx
        exact hx.resolve_right fun hmem => hgx (mem_singleton.mp hmem).symm
    rw [relaxAll_concat]
    cases hp : g.parentId with
    | none =>
      rw [relax, hp, hgroups]
      rw [hroot g hg hp] at hset
      exact ⟨rfl, hset⟩
    | some p =>
      have hdepth := hdepths p (hfirst.2 p hp)
      have hnot : ¬ h p + 1 > groupMaxDepth := by
        have := hmax g hg
        have := hchild g hg p hp
        omega
      rw [hchild g hg p hp] at hset
      simp only [relax, hp, hdepth, if_neg hnot, hgroups]
      exact ⟨trivial, hset⟩

/-! ## What a round leaves -/

theorem nodeIds_relax (s : Round) (g : GroupNode) :
    nodeIds (relax s g).groups = nodeIds s.groups ++ [g.id] := by
  unfold relax
  split
  · simp [nodeIds]
  split
  · simp [nodeIds]
  · split <;> simp [nodeIds]

theorem nodeIds_relaxAll (groups : List GroupNode) :
    nodeIds (relaxAll groups).groups = nodeIds groups := by
  induction groups using List.reverseRecOn with
  | nil => rfl
  | append_singleton groups g ih =>
    rw [relaxAll_concat, nodeIds_relax, ih]
    simp [nodeIds]

/-- The depths of a round fit the groups that have them. -/
structure Measured (s : Round) : Prop where
  known : ∀ x d, s.depths.find x = some d → x ∈ nodeIds s.groups
  max : ∀ x d, s.depths.find x = some d → d ≤ groupMaxDepth
  root : ∀ g ∈ s.groups, ∀ d, s.depths.find g.id = some d → g.parentId = none → d = 1
  child : ∀ g ∈ s.groups, ∀ d, s.depths.find g.id = some d → ∀ p, g.parentId = some p →
    ∃ e, s.depths.find p = some e ∧ d = e + 1
  first : ParentsFirst [] ((s.groups.map (cutLoose s.depths)).map GroupNode.link)

variable {s : Round} {g : GroupNode}

theorem Measured.join (h : Measured s) {d : Nat} {changed : Bool} (hnew : g.id ∉ nodeIds s.groups)
    (hmax : d ≤ groupMaxDepth) (hroot : g.parentId = none → d = 1)
    (hchild : ∀ p, g.parentId = some p → ∃ e, s.depths.find p = some e ∧ d = e + 1) :
    Measured
      { groups := s.groups ++ [g], depths := s.depths.set g.id d, changed := changed } := by
  have hother : ∀ x e, s.depths.find x = some e → (s.depths.set g.id d).find x = some e := by
    intro x e hx
    have hne : g.id ≠ x := fun he => hnew (he ▸ h.known x e hx)
    rw [find_set, if_neg hne, hx]
  have hold : ∀ g' ∈ s.groups, (s.depths.set g.id d).find g'.id = s.depths.find g'.id := by
    intro g' hg'
    have hne : g.id ≠ g'.id := fun he => hnew (he ▸ List.mem_map_of_mem hg')
    rw [find_set, if_neg hne]
  have hself : (s.depths.set g.id d).find g.id = some d := by rw [find_set, if_pos rfl]
  refine ⟨?_, ?_, ?_, ?_, ?_⟩
  · intro x e hx
    rw [find_set] at hx
    split at hx
    · rename_i he
      simp [nodeIds, ← he]
    · have := h.known x e hx
      simp only [nodeIds, map_append, mem_append] at this ⊢
      exact .inl this
  · intro x e hx
    rw [find_set] at hx
    split at hx
    · exact some.inj hx ▸ hmax
    · exact h.max x e hx
  · intro g' hg' e he hp
    rcases mem_append.mp hg' with hg' | hg'
    · exact h.root g' hg' e ((hold g' hg').symm.trans he) hp
    · obtain rfl := mem_singleton.mp hg'
      exact some.inj (hself.symm.trans he) ▸ hroot hp
  · intro g' hg' e he p hp
    rcases mem_append.mp hg' with hg' | hg'
    · obtain ⟨e', he', rfl⟩ := h.child g' hg' e ((hold g' hg').symm.trans he) p hp
      exact ⟨e', hother p e' he', rfl⟩
    · obtain rfl := mem_singleton.mp hg'
      obtain ⟨e', he', rfl⟩ := hchild p hp
      exact ⟨e', hother p e' he', some.inj (he.symm.trans hself)⟩
  · have hcut : (s.groups ++ [g]).map (cutLoose (s.depths.set g.id d)) =
        s.groups.map (cutLoose s.depths) ++ [g] := by
      rw [map_append, map_singleton]
      refine congrArg₂ (· ++ ·) (map_congr_left fun g' hg' => ?_) ?_
      · rw [cutLoose, cutLoose, hold g' hg']
      · rw [cutLoose, hself, isSome_some, if_pos rfl]
    rw [hcut, map_append, map_singleton, parentsFirst_concat, map_fst_link, nil_append]
    refine ⟨h.first, fun p hp => ?_⟩
    obtain ⟨e, he, -⟩ := hchild p hp
    have hids : nodeIds (s.groups.map (cutLoose s.depths)) = nodeIds s.groups := by
      rw [nodeIds, List.map_map]
      refine map_congr_left fun g' _ => ?_
      show (cutLoose s.depths g').id = g'.id
      unfold cutLoose
      split <;> rfl
    rw [hids]
    exact h.known p e he

theorem Measured.wait (h : Measured s) (hnew : g.id ∉ nodeIds s.groups) :
    Measured { s with groups := s.groups ++ [g] } := by
  have hnone : s.depths.find g.id = none := by
    cases hd : s.depths.find g.id with
    | none => rfl
    | some d => exact absurd (h.known g.id d hd) hnew
  have hold : ∀ g' ∈ s.groups ++ [g], ∀ d, s.depths.find g'.id = some d → g' ∈ s.groups := by
    intro g' hg' d hd
    rcases mem_append.mp hg' with hg' | hg'
    · exact hg'
    · rw [mem_singleton.mp hg', hnone] at hd
      cases hd
  refine ⟨?_, h.max, ?_, ?_, ?_⟩
  · intro x d hx
    have := h.known x d hx
    simp only [nodeIds, map_append, mem_append] at this ⊢
    exact .inl this
  · exact fun g' hg' d hd => h.root g' (hold g' hg' d hd) d hd
  · exact fun g' hg' d hd => h.child g' (hold g' hg' d hd) d hd
  · have hcut : cutLoose s.depths g = { g with parentId := none } := by
      rw [cutLoose, hnone, isSome_none, if_neg Bool.false_ne_true]
    rw [map_append, map_singleton, hcut, map_append, map_singleton, parentsFirst_concat]
    exact ⟨h.first, fun p hp => by cases hp⟩

theorem Measured.relax (h : Measured s) (hnew : g.id ∉ nodeIds s.groups) :
    Measured (relax s g) := by
  unfold Workbench.relax
  split
  · rename_i hroot
    exact h.join hnew (by decide) (fun _ => rfl) fun p hp => by rw [hroot] at hp; cases hp
  · rename_i p hp
    split
    · exact h.wait hnew
    rename_i d hd
    split
    · exact h.join (g := { g with parentId := none }) hnew (by decide) (fun _ => rfl)
        fun p hp => by cases hp
    · rename_i hle
      refine h.join hnew (Nat.le_of_not_lt hle) (fun hroot => ?_) fun q hq => ?_
      · rw [hp] at hroot
        cases hroot
      · obtain rfl := some.inj (hp.symm.trans hq)
        exact ⟨d, hd, rfl⟩

theorem measured_relaxAll (hu : (nodeIds groups).Nodup) : Measured (relaxAll groups) := by
  induction groups using List.reverseRecOn with
  | nil =>
    have hnone : ∀ x d, (Dict.empty : Dict JsString Nat).find x ≠ some d := fun x d hx => by cases hx
    exact ⟨fun x d hx => absurd hx (hnone x d), fun x d hx => absurd hx (hnone x d),
      fun g hg => absurd hg not_mem_nil, fun g hg => absurd hg not_mem_nil, trivial⟩
  | append_singleton groups g ih =>
    rw [nodeIds, map_append, nodup_append] at hu
    rw [relaxAll_concat]
    refine (ih hu.1).relax fun hmem => ?_
    rw [nodeIds_relaxAll] at hmem
    exact hu.2.2 g.id hmem g.id (by simp) rfl

/-! ## The result -/

/-- `x` is a group `d` levels deep, a root being one level deep. -/
inductive AtDepth (groups : List GroupNode) : JsString → Nat → Prop
  | root {g : GroupNode} : g ∈ groups → g.parentId = none → AtDepth groups g.id 1
  | child {g : GroupNode} {p : JsString} {d : Nat} : g ∈ groups → g.parentId = some p →
      AtDepth groups p d → AtDepth groups g.id (d + 1)

/-- `p` is the parent of `c`. -/
def ParentIn (groups : List GroupNode) (p c : JsString) : Prop :=
  ∃ g ∈ groups, g.id = c ∧ g.parentId = some p

/-- Groups without a cycle, and none too deep. -/
structure Tree (groups : List GroupNode) : Prop where
  unique : (nodeIds groups).Nodup
  acyclic : Acyclic (ParentIn groups)
  shallow : ∀ g ∈ groups, ∃ d ≤ groupMaxDepth, AtDepth groups g.id d

@[simp] theorem cutLoose_id (depths : Dict JsString Nat) (g : GroupNode) :
    (cutLoose depths g).id = g.id := by
  unfold cutLoose
  split <;> rfl

theorem cutLoose_parent {depths : Dict JsString Nat} {p : JsString}
    (h : (cutLoose depths g).parentId = some p) :
    g.parentId = some p ∧ ∃ d, depths.find g.id = some d := by
  unfold cutLoose at h
  split at h
  · rename_i hd
    exact ⟨h, isSome_iff_exists.mp hd⟩
  · cases h

theorem Measured.atDepth (h : Measured s) (d : Nat) (hg : g ∈ s.groups)
    (hd : s.depths.find g.id = some d) : AtDepth (s.groups.map (cutLoose s.depths)) g.id d := by
  induction d using Nat.strongRecOn generalizing g with
  | ind d ih =>
    have hcut : cutLoose s.depths g = g := by
      rw [cutLoose, hd, isSome_some, if_pos rfl]
    have hmem : g ∈ s.groups.map (cutLoose s.depths) := List.mem_map.mpr ⟨g, hg, hcut⟩
    cases hp : g.parentId with
    | none =>
      rw [h.root g hg d hd hp]
      exact .root hmem hp
    | some p =>
      obtain ⟨e, he, rfl⟩ := h.child g hg d hd p hp
      obtain ⟨g', hg', rfl⟩ := List.mem_map.mp (h.known p e he)
      exact .child hmem hp (ih e (Nat.lt_succ_self e) hg' he)

theorem Measured.tree (h : Measured s) (hu : (nodeIds s.groups).Nodup) :
    Tree (s.groups.map (cutLoose s.depths)) := by
  refine ⟨?_, ?_, ?_⟩
  · rw [nodeIds, List.map_map]
    have hids : (GroupNode.id ∘ cutLoose s.depths) = GroupNode.id := funext (cutLoose_id s.depths)
    rwa [hids]
  · refine acyclic_of_rank (fun x => (s.depths.find x).getD 0) ?_
    rintro p c ⟨g', hg', rfl, hp⟩
    obtain ⟨g, hg, rfl⟩ := List.mem_map.mp hg'
    obtain ⟨hp, d, hd⟩ := cutLoose_parent hp
    obtain ⟨e, he, rfl⟩ := h.child g hg d hd p hp
    simp [hd, he]
  · intro g' hg'
    obtain ⟨g, hg, rfl⟩ := List.mem_map.mp hg'
    rw [cutLoose_id]
    cases hd : s.depths.find g.id with
    | some d => exact ⟨d, h.max g.id d hd, h.atDepth d hg hd⟩
    | none =>
      have hroot : (cutLoose s.depths g).parentId = none := by
        rw [cutLoose, hd, isSome_none, if_neg Bool.false_ne_true]
      have := AtDepth.root hg' hroot
      rw [cutLoose_id] at this
      exact ⟨1, by decide, this⟩

end WebGis.Workbench
