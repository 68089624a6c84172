/-
  The workbench document of a map specification, as the server accepts it.

  A document is the JSON object under `mapspec.workbench`: its groups with their parents, the
  group of each layer, the locked layers and components, and the mode. `workbenchDocError` is
  `_workbench_doc_error`; what it guarantees of the groups is `Forest`, and of a document
  `Doc`.
-/
import WebGis.Data.Dumps
import WebGis.Data.Fields

namespace WebGis.Workbench

open Data Data.Json List Option

/-! ## Size -/

section Size

variable (R : FloatRepr)

-- `spacedRest` and `spacedFields` write what follows the first entry, the closing bracket included.
mutual

/-- `json.dumps(v, ensure_ascii=False)`, with its default separators. -/
def spaced : Json → List Char
  | .null => ['n', 'u', 'l', 'l']
  | .bool true => ['t', 'r', 'u', 'e']
  | .bool false => ['f', 'a', 'l', 's', 'e']
  | .int n => intChars n
  | .float q => R.chars q
  | .str s => quoteChars s.toList
  | .arr [] => ['[', ']']
  | .arr (x :: xs) => '[' :: (spaced x ++ spacedRest xs)
  | .obj [] => ['\x7b', '\x7d']
  | .obj ((k, v) :: fs) => '\x7b' :: (quoteChars k.toList ++ ':' :: ' ' :: (spaced v ++ spacedFields fs))

def spacedRest : List Json → List Char
  | [] => [']']
  | x :: xs => ',' :: ' ' :: (spaced x ++ spacedRest xs)

def spacedFields : List (String × Json) → List Char
  | [] => ['\x7d']
  | (k, v) :: fs =>
    ',' :: ' ' :: (quoteChars k.toList ++ ':' :: ' ' :: (spaced v ++ spacedFields fs))

end

/-- `len(json.dumps(v, ensure_ascii=False).encode("utf-8"))` -/
def encodedBytes (v : Json) : Nat := ((spaced R v).map Char.utf8Size).sum

end Size

/-! ## Groups -/

/-- A group as the document has it. -/
abbrev Group : Type := Fields

/-- `g["id"]` of a group that has a text there. -/
def groupId (g : Group) : String :=
  match field "id" g with
  | some (.str s) => s
  | _ => ""

/-- `g.get("parentId")` of a group whose parent is a text or null. -/
def parentOf (g : Group) : Option String :=
  match field "parentId" g with
  | some (.str p) => some p
  | _ => none

def ids (groups : List Group) : List String := groups.map groupId

/-- `by_id.get(gid)` -/
def byId (groups : List Group) (gid : String) : Option Group :=
  groups.find? fun g => groupId g = gid

/-- An entry of `doc.groups`: an object with a non-empty text as its id. -/
def groupEntry : Json → Option Group
  | .obj fs => if groupId fs = "" then none else some fs
  | _ => none

def maxBytes : Nat := 256 * 1024

def groupMaxDepth : Nat := 4

def modes : List String := ["explore", "analyze", "compose"]

/-- What is wrong with a document, with what its message names. `modeRaises` is no message:
    looking up a list or an object in a set raises. -/
inductive DocError where
  | notObject
  | version
  | size
  | groupsList
  | groupId
  | groupIds
  | parentId (gid : String)
  | cycle (gid : String)
  | depth (gid : String) (depth : Nat)
  | membership
  | lockedLayerIds
  | lockedComponentIds
  | mode
  | modeRaises
  deriving DecidableEq, Repr

/-- The parent of a group is null or a group of the document. -/
def parentError (ids : List String) (g : Group) : Option DocError :=
  match field "parentId" g with
  | none => none
  | some .null => none
  | some (.str p) => if p ∈ ids then none else some (.parentId (groupId g))
  | some _ => some (.parentId (groupId g))

/-- The depth of a group by walking up to its root; none once the walk has taken more than
    `left` steps. -/
def climb (groups : List Group) : Nat → Nat → Group → Option Nat
  | left, depth, cur =>
    match (parentOf cur).bind (byId groups) with
    | none => some depth
    | some parent =>
      match left with
      | 0 => none
      | left + 1 => climb groups left (depth + 1) parent

def depthError (groups : List Group) (g : Group) : Option DocError :=
  match climb groups groups.length 1 g with
  | none => some (.cycle (groupId g))
  | some depth => if depth > groupMaxDepth then some (.depth (groupId g) depth) else none

/-- The checks on the groups. -/
def groupsError (fs : Fields) : Option DocError :=
  match field "groups" fs with
  | some (.arr xs) =>
    match xs.mapM groupEntry with
    | none => some .groupId
    | some groups =>
      if (ids groups).Nodup then
        (groups.findSome? (parentError (ids groups))).or (groups.findSome? (depthError groups))
      else some .groupIds
  | _ => some .groupsList

def isStr : Json → Bool
  | .str _ => true
  | _ => false

/-- `isinstance(v, list) and all(isinstance(x, str) for x in v)`, where an absent field is `[]`. -/
def strList (v : Option Json) : Bool :=
  match v with
  | none => true
  | some (.arr xs) => xs.all isStr
  | some _ => false

def membershipError (fs : Fields) : Option DocError :=
  match field "membership" fs with
  | none => none
  | some (.obj kvs) => if kvs.all fun kv => isStr kv.2 then none else some .membership
  | some _ => some .membership

def modeError (fs : Fields) : Option DocError :=
  match field "mode" fs with
  | some (.str m) => if m ∈ modes then none else some .mode
  | some (.arr _) => some .modeRaises
  | some (.obj _) => some .modeRaises
  | _ => some .mode

/-- `v == 5` -/
def isFive : Json → Bool
  | .int n => n = 5
  | .float q => q = 5
  | _ => false

/-- `_workbench_doc_error(doc)` -/
def workbenchDocError (R : FloatRepr) : Json → Option DocError
  | .obj fs =>
    if ¬ isFive ((field "version" fs).getD .null) then some .version
    else if encodedBytes R (.obj fs) > maxBytes then some .size
    else (groupsError fs).or <| (membershipError fs).or <|
      if ¬ strList (field "lockedLayerIds" fs) then some .lockedLayerIds
      else if ¬ strList (field "lockedComponentIds" fs) then some .lockedComponentIds
      else modeError fs
  | _ => some .notObject

/-- A document that the server accepts. -/
def Accepted (R : FloatRepr) (fs : Fields) : Prop := workbenchDocError R (.obj fs) = none

instance (R : FloatRepr) (fs : Fields) : Decidable (Accepted R fs) :=
  inferInstanceAs (Decidable (_ = _))

/-! ## What acceptance gives -/

/-- Groups as an accepted document has them: named, with different ids, and each at most
    `groupMaxDepth` levels below a root. -/
structure Forest (groups : List Group) : Prop where
  named : ∀ g ∈ groups, groupId g ≠ ""
  unique : (ids groups).Nodup
  parents : ∀ g ∈ groups, parentError (ids groups) g = none
  shallow : ∀ g ∈ groups, depthError groups g = none

variable {g : Group}

theorem groupEntry_eq_some {v : Json} : groupEntry v = some g ↔ v = .obj g ∧ groupId g ≠ "" := by
  cases v with
  | obj fs =>
    by_cases h : groupId fs = ""
    · simp only [groupEntry, if_pos h, Json.obj.injEq, false_iff, reduceCtorEq]
      rintro ⟨rfl, hg⟩
      exact hg h
    · simp only [groupEntry, if_neg h, some.injEq, Json.obj.injEq]
      exact ⟨fun he => ⟨he, he ▸ h⟩, And.left⟩
  | _ => simp [groupEntry]

theorem mapM_groupEntry {xs : List Json} {groups : List Group} :
    xs.mapM groupEntry = some groups ↔
      xs = groups.map Json.obj ∧ ∀ g ∈ groups, groupId g ≠ "" := by
  induction xs generalizing groups with
  | nil => cases groups <;> simp
  | cons x xs ih =>
    rw [mapM_cons]
    constructor
    · intro h
      obtain ⟨g, hg, h⟩ := bind_eq_some_iff.mp h
      obtain ⟨gs, hgs, h⟩ := bind_eq_some_iff.mp h
      obtain rfl := some.inj h
      obtain ⟨rfl, hne⟩ := groupEntry_eq_some.mp hg
      obtain ⟨rfl, hall⟩ := ih.mp hgs
      exact ⟨rfl, forall_mem_cons.mpr ⟨hne, hall⟩⟩
    · rintro ⟨hx, hall⟩
      cases groups with
      | nil => cases hx
      | cons g gs =>
        rw [map_cons, List.cons.injEq] at hx
        obtain ⟨hne, hall⟩ := forall_mem_cons.mp hall
        rw [groupEntry_eq_some.mpr ⟨hx.1, hne⟩, ih.mpr ⟨hx.2, hall⟩]
        rfl

theorem field_id (h : groupId g ≠ "") : field "id" g = some (.str (groupId g)) := by
  unfold groupId at h ⊢
  split at h
  · rename_i s hs
    rw [hs]
  · exact absurd rfl h

variable {fs : Fields}

theorem groups_of_none (h : groupsError fs = none) :
    ∃ groups : List Group, field "groups" fs = some (.arr (groups.map Json.obj)) ∧ Forest groups := by
  unfold groupsError at h
  split at h
  · rename_i xs hxs
    split at h
    · cases h
    rename_i groups hgroups
    obtain ⟨rfl, hnamed⟩ := mapM_groupEntry.mp hgroups
    split at h
    · rename_i hunique
      obtain ⟨hparents, hdepth⟩ := or_eq_none_iff.mp h
      exact ⟨groups, hxs, hnamed, hunique, findSome?_eq_none_iff.mp hparents,
        findSome?_eq_none_iff.mp hdepth⟩
    · cases h
  · cases h

/-- What the rest of an accepted document looks like. -/
structure Rest (fs : Fields) : Prop where
  version : isFive ((field "version" fs).getD .null) = true
  membership : membershipError fs = none
  locked : strList (field "lockedLayerIds" fs) = true
  components : strList (field "lockedComponentIds" fs) = true
  mode : modeError fs = none

theorem accepted_iff {R : FloatRepr} :
    Accepted R fs ↔ encodedBytes R (.obj fs) ≤ maxBytes ∧ groupsError fs = none ∧ Rest fs := by
  have hor : ∀ {p : Prop} [Decidable p] {e : DocError} {o : Option DocError},
      (if p then some e else o) = none ↔ ¬ p ∧ o = none := by
    intro p _ e o
    by_cases hp : p <;> simp [hp]
  have hall : Accepted R fs ↔ isFive ((field "version" fs).getD .null) = true ∧
      encodedBytes R (.obj fs) ≤ maxBytes ∧ groupsError fs = none ∧ membershipError fs = none ∧
      strList (field "lockedLayerIds" fs) = true ∧
      strList (field "lockedComponentIds" fs) = true ∧ modeError fs = none := by
    simp only [Accepted, workbenchDocError, hor, or_eq_none_iff, Decidable.not_not,
      Nat.not_lt, gt_iff_lt]
  rw [hall]
  constructor
  · rintro ⟨hversion, hsize, hgroups, hmembership, hlocked, hcomponents, hmode⟩
    exact ⟨hsize, hgroups, hversion, hmembership, hlocked, hcomponents, hmode⟩
  · rintro ⟨hsize, hgroups, h⟩
    exact ⟨h.version, hsize, hgroups, h.membership, h.locked, h.components, h.mode⟩

theorem Accepted.groups {R : FloatRepr} (h : Accepted R fs) :
    ∃ groups : List Group, field "groups" fs = some (.arr (groups.map Json.obj)) ∧ Forest groups :=
  groups_of_none (accepted_iff.mp h).2.1

theorem Accepted.rest {R : FloatRepr} (h : Accepted R fs) : Rest fs :=
  (accepted_iff.mp h).2.2

variable {gid : String}

theorem mem_ids {groups : List Group} :
    gid ∈ ids groups ↔ ∃ g ∈ groups, groupId g = gid := List.mem_map

theorem byId_eq_none {groups : List Group} : byId groups gid = none ↔ gid ∉ ids groups := by
  simp [byId, ids]

theorem groupId_of_byId {groups : List Group} (h : byId groups gid = some g) : groupId g = gid := by
  simpa using find?_some h

theorem mem_of_byId {groups : List Group} (h : byId groups gid = some g) :
    g ∈ groups := mem_of_find?_eq_some h

theorem byId_of_mem {groups : List Group} (hu : (ids groups).Nodup) (h : g ∈ groups) :
    byId groups (groupId g) = some g := Table.find_of_mem hu h

variable {p : String}

theorem Forest.parent_mem {groups : List Group} (h : Forest groups) (hg : g ∈ groups)
    (hp : parentOf g = some p) : p ∈ ids groups := by
  have hnone := h.parents g hg
  unfold parentOf at hp
  unfold parentError at hnone
  split at hp
  · rename_i q hq
    obtain rfl := some.inj hp
    rw [hq] at hnone
    by_contra hmem
    simp [hmem] at hnone
  · cases hp

/-! ## Depths -/

theorem climb_root {groups : List Group} (h : parentOf g = none) (left depth : Nat) :
    climb groups left depth g = some depth := by
  unfold climb
  rw [h]
  rfl

variable {parent : Group}

theorem climb_child {groups : List Group} (hp : parentOf g = some p)
    (hparent : byId groups p = some parent) (left depth : Nat) :
    climb groups (left + 1) depth g = climb groups left (depth + 1) parent := by
  rw [climb, hp, bind_some, hparent]

theorem climb_succ (groups : List Group) (left depth : Nat) (g : Group) :
    climb groups left (depth + 1) g = (climb groups left depth g).map (· + 1) := by
  induction left generalizing depth g with
  | zero =>
    unfold climb
    cases (parentOf g).bind (byId groups) <;> rfl
  | succ left ih =>
    unfold climb
    cases (parentOf g).bind (byId groups) with
    | none => rfl
    | some parent => exact ih (depth + 1) parent

theorem climb_mono {groups : List Group} {left depth d : Nat}
    (h : climb groups left depth g = some d) : climb groups (left + 1) depth g = some d := by
  induction left generalizing depth g with
  | zero =>
    unfold climb at h ⊢
    cases hp : (parentOf g).bind (byId groups) with
    | none => rwa [hp] at h
    | some parent =>
      rw [hp] at h
      cases h
  | succ left ih =>
    unfold climb at h ⊢
    cases hp : (parentOf g).bind (byId groups) with
    | none => rwa [hp] at h
    | some parent =>
      rw [hp] at h
      exact ih h

/-- How deep a group is. -/
def depthOf (groups : List Group) (g : Group) : Nat := (climb groups groups.length 1 g).getD 0

theorem Forest.climb_eq {groups : List Group} (h : Forest groups) (hg : g ∈ groups) :
    climb groups groups.length 1 g = some (depthOf groups g) ∧
      depthOf groups g ≤ groupMaxDepth := by
  have hdepth := h.shallow g hg
  unfold depthError at hdepth
  split at hdepth
  · cases hdepth
  rename_i d hd
  split at hdepth
  · cases hdepth
  rename_i hle
  rw [depthOf, hd]
  exact ⟨rfl, Nat.le_of_not_lt hle⟩

theorem depthOf_root {groups : List Group} (h : parentOf g = none) : depthOf groups g = 1 := by
  rw [depthOf, climb_root h]
  rfl

theorem Forest.depthOf_child {groups : List Group} (h : Forest groups) (hg : g ∈ groups)
    (hp : parentOf g = some p) (hparent : byId groups p = some parent) :
    depthOf groups g = depthOf groups parent + 1 := by
  obtain ⟨hclimb, -⟩ := h.climb_eq hg
  obtain ⟨n, hn⟩ : ∃ n, groups.length = n + 1 :=
    Nat.exists_eq_succ_of_ne_zero (length_pos_of_mem hg).ne'
  rw [hn, climb_child hp hparent, climb_succ] at hclimb
  obtain ⟨d, hd, he⟩ := map_eq_some_iff.mp hclimb
  have hmono := climb_mono hd
  rw [← hn, (h.climb_eq (mem_of_byId hparent)).1] at hmono
  rw [← he, some.inj hmono]

end WebGis.Workbench
