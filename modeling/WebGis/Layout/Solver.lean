/-
  `lib/cartography/layout_solver.py`: the components of a map in the zones of its layout.

  The second version counts what it has put into a zone, the third keeps the columns that are left
  and has more ways to turn a component down. A required component that fits nowhere stays where it
  was asked for: the second version counts it there and the third does not, but a zone that has
  turned a component down for good stays closed (`Shut`), so on participants of the second version
  both give the same layout (`solveLayoutV3_extends`).
-/
import Mathlib.Data.List.Sort
import Mathlib.Data.Prod.Lex
import Mathlib.Data.String.Basic

namespace WebGis.Layout

open List Function

/-! ## Tables -/

def zoneOrder : List String :=
  ["top-left", "top-center", "top-right", "bottom-left", "bottom-center", "bottom-right"]

def exclusiveZones : List String := ["top-center"]

def singletonTypes : List String := ["title", "north_arrow", "scale_bar", "attribution"]

def canvasTypes : List String := ["map_border", "graticule", "export_layout", "basemap"]

def zonePositions : String → List String
  | "top-left" => ["top-left", "top-center"]
  | "top-center" => ["top-center", "top-left", "top-right"]
  | "top-right" => ["top-right", "top-center"]
  | "bottom-left" => ["bottom-left", "bottom-center"]
  | "bottom-center" => ["bottom-center", "bottom-left", "bottom-right"]
  | "bottom-right" => ["bottom-right", "bottom-center"]
  | "none" => ["none"]
  | _ => []

def zoneCapacity : String → Option Int
  | "top-left" | "top-center" | "bottom-left" | "bottom-right" => some 2
  | "top-right" | "bottom-center" => some 1
  | "none" => some 99
  | _ => none

structure ProfileConf where
  multiplier : Int
  topBudget : Nat
  bottomBudget : Nat

/-- `_PROFILES`, with `viewport` for the others. -/
def profileConf : String → ProfileConf
  | "a4_portrait" => ⟨1, 3, 4⟩
  | "a4_landscape" => ⟨2, 4, 4⟩
  | "presentation_16x9" => ⟨2, 4, 3⟩
  | "academic_figure" => ⟨2, 3, 4⟩
  | _ => ⟨1, 3, 3⟩

def isTop (zone : String) : Bool := "top-".toList.isPrefixOf zone.toList

def isBottom (zone : String) : Bool := "bottom-".toList.isPrefixOf zone.toList

/-! ## The second version -/

structure LayoutParticipant where
  id : String
  type : String
  requestedZone : String := "none"
  priority : Int := 50
  optional : Bool := true
  fallbackZones : List String := []

structure LayoutPlacement where
  id : String
  type : String
  zone : String
  moved : Bool := false
  reason : String := ""
  widthUnits : Int := 1

/-- Required ones first, then by priority, then by id. -/
def before (p q : LayoutParticipant) : Prop :=
  toLex (p.optional, toLex (p.priority, p.id)) ≤ toLex (q.optional, toLex (q.priority, q.id))

instance : DecidableRel before := fun _ _ => inferInstanceAs (Decidable (_ ≤ _))

def addZone (zones : List String) (zone : String) : List String :=
  if zone ∈ zones ∨ zone = "none" then zones else zones ++ [zone]

def candidateZones (p : LayoutParticipant) : List String :=
  (p.fallbackZones ++ zonePositions p.requestedZone).foldl addZone
    (if p.requestedZone ≠ "" ∧ p.requestedZone ≠ "none" then [p.requestedZone] else [])

/-- What both versions write down. -/
structure LayoutBooks where
  topLoad : Nat := 0
  bottomLoad : Nat := 0
  exclusiveUsed : List String := []
  singletonUsed : List String := []
  placements : List LayoutPlacement := []
  suppressed : List LayoutPlacement := []

namespace LayoutBooks

/-- The zone is for one component, and has it. -/
def taken (b : LayoutBooks) (zone : String) : Bool :=
  zone ∈ exclusiveZones ∧ zone ∈ b.exclusiveUsed

/-- There is a component of this type, and there may be one only. -/
def duplicate (b : LayoutBooks) (type : String) : Bool :=
  type ∈ singletonTypes ∧ type ∈ b.singletonUsed

def overBudget (conf : ProfileConf) (b : LayoutBooks) (zone : String) : Bool :=
  isTop zone ∧ conf.topBudget ≤ b.topLoad ∨ isBottom zone ∧ conf.bottomBudget ≤ b.bottomLoad

def place (b : LayoutBooks) (placement : LayoutPlacement) : LayoutBooks :=
  { b with placements := b.placements ++ [placement] }

def suppress (b : LayoutBooks) (p : LayoutParticipant) (reason : String) : LayoutBooks :=
  { b with suppressed :=
      b.suppressed ++ [{ id := p.id, type := p.type, zone := "none", reason := reason }] }

def accept (b : LayoutBooks) (p : LayoutParticipant) (width : Int) (zone reason : String) :
    LayoutBooks :=
  { b with
    exclusiveUsed := if zone ∈ exclusiveZones then zone :: b.exclusiveUsed else b.exclusiveUsed
    singletonUsed :=
      if p.type ∈ singletonTypes then p.type :: b.singletonUsed else b.singletonUsed
    topLoad := if isTop zone then b.topLoad + 1 else b.topLoad
    bottomLoad := if ¬ isTop zone ∧ isBottom zone then b.bottomLoad + 1 else b.bottomLoad
    placements := b.placements ++ [{
      id := p.id
      type := p.type
      zone := zone
      moved := zone ≠ p.requestedZone
      reason := reason
      widthUnits := width }] }

/-- A required component stays where it was asked for. -/
def keep (b : LayoutBooks) (p : LayoutParticipant) (width : Int) : LayoutBooks :=
  b.place {
    id := p.id
    type := p.type
    zone := if p.requestedZone ≠ "none" then p.requestedZone else "bottom-right"
    reason := "required_overflow_kept"
    widthUnits := width }

end LayoutBooks

structure BooksV2 extends LayoutBooks where
  occupied : String → Nat := fun _ => 0

/-- The first zone that takes the component. -/
def findZone (conf : ProfileConf) (capacity : String → Int) (b : BooksV2) (p : LayoutParticipant) :
    List String → Option String
  | [] => none
  | zone :: zones =>
    if b.taken zone then findZone conf capacity b p zones
    else if b.duplicate p.type then none
    else if capacity zone ≤ b.occupied zone ∨ b.overBudget conf zone then
      findZone conf capacity b p zones
    else some zone

def stepV2 (conf : ProfileConf) (capacity : String → Int) (b : BooksV2) (p : LayoutParticipant) :
    BooksV2 :=
  if p.type ∈ canvasTypes ∨ p.requestedZone = "none" then
    { b with toLayoutBooks := b.place { id := p.id, type := p.type, zone := "none" } }
  else
    match findZone conf capacity b p (candidateZones p) with
    | some zone =>
      { b with
        toLayoutBooks :=
          b.accept p 1 zone (if zone = p.requestedZone then "requested" else "fallback_zone")
        occupied := update b.occupied zone (b.occupied zone + 1) }
    | none =>
      if b.duplicate p.type then
        { b with toLayoutBooks := b.suppress p ("duplicate_singleton:" ++ p.type) }
      else if p.optional then { b with toLayoutBooks := b.suppress p "overflow_suppressed" }
      else
        let zone := if p.requestedZone ≠ "none" then p.requestedZone else "bottom-right"
        { b with
          toLayoutBooks := b.keep p 1
          occupied := update b.occupied zone (b.occupied zone + 1) }

/-- The capacity of a zone, from the table given or the default one. -/
def capacityOf (conf : ProfileConf) (table : Option (String → Option Int)) (zone : String) : Int :=
  ((table.getD zoneCapacity) zone).getD 2 * conf.multiplier

def solveComponentLayout (profile : String) (table : Option (String → Option Int))
    (participants : List LayoutParticipant) : BooksV2 :=
  let conf := profileConf profile
  (participants.insertionSort before).foldl (stepV2 conf (capacityOf conf table)) {}

/-! ## The third version -/

structure LayoutParticipantV3 extends LayoutParticipant where
  widthUnits : Int := 1
  collisionGroup : String := ""
  avoidZones : List String := []

structure LayoutConstraints where
  zoneOccupancy : String → Int := fun _ => 0
  compact : Bool := false

def confV3 (profile : String) (constraints : LayoutConstraints) : ProfileConf :=
  let conf := profileConf profile
  if constraints.compact then
    ⟨max 1 (conf.multiplier / 2), max 1 (conf.topBudget / 2), max 1 (conf.bottomBudget / 2)⟩
  else conf

structure BooksV3 extends LayoutBooks where
  remaining : String → Int
  /-- The zones that the members of a collision group are in. -/
  groupZones : List (String × String) := []
  /-- The ids of those that are not settled, with the type of the conflict. -/
  conflicts : List (String × String) := []

/-- Why zones have been turned down. -/
structure Rejected where
  group : Bool := false
  avoid : Bool := false
  requested : Bool := false

/-- The first zone that takes the component, and why those before did not. -/
def findZoneV3 (conf : ProfileConf) (b : BooksV3) (p : LayoutParticipantV3) (r : Rejected) :
    List String → Rejected × Option String
  | [] => (r, none)
  | zone :: zones =>
    if b.taken zone then findZoneV3 conf b p r zones
    else if b.duplicate p.type then (r, none)
    else if zone ∈ p.avoidZones then
      findZoneV3 conf b p
        { r with avoid := true, requested := r.requested || zone = p.requestedZone } zones
    else if p.collisionGroup ≠ "" ∧ (p.collisionGroup, zone) ∈ b.groupZones then
      findZoneV3 conf b p { r with group := true } zones
    else if b.remaining zone < p.widthUnits ∨ b.overBudget conf zone then
      findZoneV3 conf b p { r with requested := r.requested || zone = p.requestedZone } zones
    else (r, some zone)

def reasonV3 (constraints : LayoutConstraints) (p : LayoutParticipantV3) (r : Rejected)
    (zone : String) : String :=
  if zone = p.requestedZone then "requested"
  else if r.group ∧ p.collisionGroup ≠ "" then "collision_group_move"
  else if r.requested ∧
      (p.requestedZone ∈ p.avoidZones ∨ constraints.zoneOccupancy p.requestedZone ≠ 0) then
    "avoid_zone_move"
  else if constraints.compact then "compact_reflow"
  else "fallback_zone"

def stepV3 (conf : ProfileConf) (constraints : LayoutConstraints) (b : BooksV3)
    (p : LayoutParticipantV3) : BooksV3 :=
  if p.type ∈ canvasTypes ∨ p.requestedZone = "none" then
    { b with toLayoutBooks := b.place {
        id := p.id, type := p.type, zone := "none", reason := "requested"
        widthUnits := p.widthUnits } }
  else
    match findZoneV3 conf b p {} (candidateZones p.toLayoutParticipant) with
    | (r, some zone) =>
      { b with
        toLayoutBooks :=
          b.accept p.toLayoutParticipant p.widthUnits zone (reasonV3 constraints p r zone)
        remaining := update b.remaining zone (b.remaining zone - p.widthUnits)
        groupZones :=
          if p.collisionGroup ≠ "" then (p.collisionGroup, zone) :: b.groupZones
          else b.groupZones }
    | (r, none) =>
      if b.duplicate p.type then
        { b with toLayoutBooks := b.suppress p.toLayoutParticipant "duplicate_singleton" }
      else if r.avoid ∧ ¬ r.group then
        { b with conflicts := b.conflicts ++ [(p.id, "avoid_zone_exhausted")] }
      else if r.group ∧ p.collisionGroup ≠ "" then
        { b with conflicts := b.conflicts ++ [(p.id, "collision_group")] }
      else if p.optional then
        { b with toLayoutBooks := b.suppress p.toLayoutParticipant "overflow_suppressed" }
      else { b with toLayoutBooks := b.keep p.toLayoutParticipant p.widthUnits }

/-- The columns that are left of a zone. -/
def columns (capacity : String → Int) (constraints : LayoutConstraints) (zone : String) : Int :=
  if zone ∈ zoneOrder then max 0 (capacity zone - constraints.zoneOccupancy zone) else 0

def solveLayoutV3 (profile : String) (table : Option (String → Option Int))
    (constraints : LayoutConstraints) (participants : List LayoutParticipantV3) : BooksV3 :=
  let conf := confV3 profile constraints
  (participants.insertionSort fun p q => before p.toLayoutParticipant q.toLayoutParticipant).foldl
    (stepV3 conf constraints) { remaining := columns (capacityOf conf table) constraints }

/-! ## Participants of the second version -/

section Extends

variable {conf : ProfileConf} {capacity : String → Int} {b b' : BooksV2} {c c' : BooksV3}
  {p : LayoutParticipant} {zone : String}

/-- The zone takes nothing any more. -/
def Shut (conf : ProfileConf) (capacity : String → Int) (b : BooksV2) (c : BooksV3)
    (zone : String) : Prop :=
  b.taken zone = true ∨ b.overBudget conf zone = true ∨
    capacity zone ≤ b.occupied zone ∧ c.remaining zone < 1

def LayoutPlacement.spot (x : LayoutPlacement) : String × String × Bool := (x.id, x.zone, x.moved)

/-- The same books, but for a zone that is shut. -/
structure Same (conf : ProfileConf) (capacity : String → Int) (b : BooksV2) (c : BooksV3) :
    Prop where
  topLoad : c.topLoad = b.topLoad
  bottomLoad : c.bottomLoad = b.bottomLoad
  exclusiveUsed : c.exclusiveUsed = b.exclusiveUsed
  singletonUsed : c.singletonUsed = b.singletonUsed
  placements : c.placements.map (·.spot) = b.placements.map (·.spot)
  suppressed : c.suppressed.map (·.id) = b.suppressed.map (·.id)
  room : ∀ zone ∈ zoneOrder, Shut conf capacity b c zone ∨
    b.occupied zone + c.remaining zone = max 0 (capacity zone)

section

variable (h : Same conf capacity b c)
include h

theorem Same.taken : c.taken zone = b.taken zone := by
  rw [LayoutBooks.taken, LayoutBooks.taken, h.exclusiveUsed]

theorem Same.duplicate (type : String) :
    c.duplicate type = b.duplicate type := by
  rw [LayoutBooks.duplicate, LayoutBooks.duplicate, h.singletonUsed]

theorem Same.overBudget :
    c.overBudget conf zone = b.overBudget conf zone := by
  rw [LayoutBooks.overBudget, LayoutBooks.overBudget, h.topLoad, h.bottomLoad]

theorem Same.full_iff (hzone : zone ∈ zoneOrder) (hfree : ¬ b.taken zone) :
    c.remaining zone < 1 ∨ c.overBudget conf zone ↔
      capacity zone ≤ b.occupied zone ∨ b.overBudget conf zone := by
  rw [h.overBudget]
  rcases h.room zone hzone with (htaken | hbudget | ⟨hfull, hnone⟩) | hsum
  · exact absurd htaken hfree
  · simp [hbudget]
  · simp [hfull, hnone]
  · have hiff : c.remaining zone < 1 ↔ capacity zone ≤ b.occupied zone := by omega
    rw [hiff]

end

/-- A participant of the second version. -/
def lift (p : LayoutParticipant) : LayoutParticipantV3 := { toLayoutParticipant := p }

theorem findZoneV3_lift (h : Same conf capacity b c) (zones : List String)
    (hzones : ∀ z ∈ zones, z ∈ zoneOrder) (r : Rejected) (hr : r.avoid = false ∧ r.group = false) :
    ∃ r', findZoneV3 conf c (lift p) r zones = (r', findZone conf capacity b p zones) ∧
      r'.avoid = false ∧ r'.group = false := by
  induction zones generalizing r with
  | nil => exact ⟨r, rfl, hr⟩
  | cons zone zones ih =>
    have hrest := fun r => ih (fun z hz => hzones z (mem_cons_of_mem _ hz)) r
    have hno : ¬ zone ∈ (lift p).avoidZones := not_mem_nil
    have hgroup : ¬ ((lift p).collisionGroup ≠ "" ∧
        ((lift p).collisionGroup, zone) ∈ c.groupZones) := fun hg => hg.1 rfl
    rw [findZoneV3, findZone, h.taken]
    by_cases htaken : b.taken zone
    · rw [if_pos htaken, if_pos htaken]
      exact hrest r hr
    rw [if_neg htaken, if_neg htaken, show (lift p).type = p.type from rfl, h.duplicate]
    by_cases hdup : b.duplicate p.type
    · rw [if_pos hdup, if_pos hdup]
      exact ⟨r, rfl, hr⟩
    have hfull : c.remaining zone < (lift p).widthUnits ∨ c.overBudget conf zone ↔ _ :=
      h.full_iff (hzones zone mem_cons_self) htaken
    rw [if_neg hdup, if_neg hdup, if_neg hno, if_neg hgroup]
    by_cases hblocked : capacity zone ≤ b.occupied zone ∨ b.overBudget conf zone
    · rw [if_pos hblocked, if_pos (hfull.mpr hblocked)]
      exact hrest _ hr
    · rw [if_neg hblocked, if_neg fun hb => hblocked (hfull.mp hb)]
      exact ⟨r, rfl, hr⟩

theorem full_of_findZone (hdup : ¬ b.duplicate p.type) {zones : List String}
    (h : findZone conf capacity b p zones = none) (hzone : zone ∈ zones) :
    b.taken zone ∨ capacity zone ≤ b.occupied zone ∨ b.overBudget conf zone := by
  induction zones with
  | nil => cases hzone
  | cons z zones ih =>
    rw [findZone, if_neg hdup] at h
    by_cases htaken : b.taken z
    · rw [if_pos htaken] at h
      rcases mem_cons.mp hzone with rfl | hzone
      · exact .inl htaken
      · exact ih h hzone
    rw [if_neg htaken] at h
    split at h
    · rename_i hblocked
      rcases mem_cons.mp hzone with rfl | hzone
      · exact .inr hblocked
      · exact ih h hzone
    · cases h

theorem mem_foldl_addZone {zones start : List String} :
    zone ∈ zones.foldl addZone start ↔ zone ∈ start ∨ zone ∈ zones ∧ zone ≠ "none" := by
  induction zones generalizing start with
  | nil => simp
  | cons z zones ih =>
    rw [foldl_cons, ih, addZone]
    split <;> grind

/-- The zones of the participant are named ones or none. -/
structure Named (p : LayoutParticipant) : Prop where
  requested : p.requestedZone ∈ zoneOrder ∨ p.requestedZone = "none"
  fallback : ∀ zone ∈ p.fallbackZones, zone ∈ zoneOrder ∨ zone = "none"

theorem candidateZones_named (hp : Named p) (hne : p.requestedZone ≠ "none")
    (hzone : zone ∈ candidateZones p) : zone ∈ zoneOrder := by
  have hrequested := hp.requested.resolve_right hne
  have hpositions : ∀ z ∈ zoneOrder, ∀ z' ∈ zonePositions z, z' ∈ zoneOrder := by decide
  rw [candidateZones, mem_foldl_addZone] at hzone
  rcases hzone with hzone | ⟨hzone, hnone⟩
  · split at hzone
    · exact (mem_singleton.mp hzone) ▸ hrequested
    · cases hzone
  · rcases mem_append.mp hzone with hzone | hzone
    · exact (hp.fallback zone hzone).resolve_right hnone
    · exact hpositions _ hrequested zone hzone

theorem requested_candidate (hp : p.requestedZone ∈ zoneOrder) (hne : p.requestedZone ≠ "none") :
    p.requestedZone ∈ candidateZones p := by
  have hempty : p.requestedZone ≠ "" := by
    intro h
    rw [h] at hp
    exact absurd hp (by decide)
  rw [candidateZones, mem_foldl_addZone, if_pos ⟨hempty, hne⟩]
  exact .inl (mem_singleton_self _)

theorem Shut.mono (h : Shut conf capacity b c zone)
    (hused : ∀ z ∈ b.exclusiveUsed, z ∈ b'.exclusiveUsed) (htop : b.topLoad ≤ b'.topLoad)
    (hbottom : b.bottomLoad ≤ b'.bottomLoad) (hoccupied : b.occupied zone ≤ b'.occupied zone)
    (hremaining : c'.remaining zone ≤ c.remaining zone) : Shut conf capacity b' c' zone := by
  rcases h with h | h | h
  · refine .inl (decide_eq_true ?_)
    have htaken := of_decide_eq_true h
    exact ⟨htaken.1, hused _ htaken.2⟩
  · refine .inr (.inl (decide_eq_true ?_))
    exact (of_decide_eq_true h).imp (fun h => ⟨h.1, h.2.trans htop⟩) fun h =>
      ⟨h.1, h.2.trans hbottom⟩
  · exact .inr (.inr ⟨by omega, by omega⟩)

theorem le_counted (occupied : String → Nat) (zone z : String) :
    occupied z ≤ update occupied zone (occupied zone + 1) z := by
  rw [update_apply]
  split
  · rename_i heq
    rw [heq]
    exact Nat.le_succ _
  · exact Nat.le_refl _

section

variable (h : Same conf capacity b c)
include h

theorem Same.accept (reason reason' : String) :
    Same conf capacity
      { b with
        toLayoutBooks := b.accept p 1 zone reason
        occupied := update b.occupied zone (b.occupied zone + 1) }
      { c with
        toLayoutBooks := c.accept p 1 zone reason'
        remaining := update c.remaining zone (c.remaining zone - 1) } where
  topLoad := by simp only [LayoutBooks.accept, h.topLoad]
  bottomLoad := by simp only [LayoutBooks.accept, h.bottomLoad]
  exclusiveUsed := by simp only [LayoutBooks.accept, h.exclusiveUsed]
  singletonUsed := by simp only [LayoutBooks.accept, h.singletonUsed]
  placements := by
    simp only [LayoutBooks.accept, map_append, h.placements]
    rfl
  suppressed := h.suppressed
  room z hz := by
    rcases h.room z hz with hshut | hsum
    · refine .inl (hshut.mono (fun y hy => ?_) ?_ ?_ (le_counted b.occupied zone z) ?_)
      · dsimp only [LayoutBooks.accept]
        split
        · exact mem_cons_of_mem _ hy
        · exact hy
      · dsimp only [LayoutBooks.accept]
        split <;> omega
      · dsimp only [LayoutBooks.accept]
        split <;> omega
      · dsimp only
        rw [update_apply]
        split
        · rename_i heq
          rw [heq]
          omega
        · exact le_refl _
    · refine .inr ?_
      dsimp only
      rw [update_apply, update_apply]
      split
      · rename_i heq
        subst heq
        omega
      · exact hsum

theorem Same.suppress (reason reason' : String) :
    Same conf capacity { b with toLayoutBooks := b.suppress p reason }
      { c with toLayoutBooks := c.suppress p reason' } where
  topLoad := h.topLoad
  bottomLoad := h.bottomLoad
  exclusiveUsed := h.exclusiveUsed
  singletonUsed := h.singletonUsed
  placements := h.placements
  suppressed := by
    simp only [LayoutBooks.suppress, map_append, h.suppressed]
    rfl
  room := h.room

theorem Same.place {x y : LayoutPlacement} (hspot : y.spot = x.spot)
    {occupied : String → Nat} (hmore : ∀ z, b.occupied z ≤ occupied z)
    (hsame : ∀ z ∈ zoneOrder, Shut conf capacity b c z ∨ occupied z = b.occupied z) :
    Same conf capacity { b with toLayoutBooks := b.place x, occupied := occupied }
      { c with toLayoutBooks := c.place y } where
  topLoad := h.topLoad
  bottomLoad := h.bottomLoad
  exclusiveUsed := h.exclusiveUsed
  singletonUsed := h.singletonUsed
  placements := by simp only [LayoutBooks.place, map_append, h.placements, map, hspot]
  suppressed := h.suppressed
  room z hz := by
    have hmono (hshut : Shut conf capacity b c z) :
        Shut conf capacity { b with toLayoutBooks := b.place x, occupied := occupied }
          { c with toLayoutBooks := c.place y } z :=
      hshut.mono (fun _ hy => hy) le_rfl le_rfl (hmore z) le_rfl
    rcases hsame z hz with hshut | heq
    · exact .inl (hmono hshut)
    · refine (h.room z hz).imp hmono fun hsum => ?_
      dsimp only
      rw [heq]
      exact hsum

theorem Same.step (hp : Named p) :
    Same conf capacity (stepV2 conf capacity b p) (stepV3 conf {} c (lift p)) := by
  unfold stepV2 stepV3
  rw [show (lift p).toLayoutParticipant = p from rfl]
  by_cases hcanvas : p.type ∈ canvasTypes ∨ p.requestedZone = "none"
  · rw [if_pos hcanvas, if_pos hcanvas]
    refine h.place ?_ (fun _ => le_rfl) fun _ _ => .inr rfl
    rfl
  have hne : p.requestedZone ≠ "none" := fun hnone => hcanvas (.inr hnone)
  obtain ⟨r, hfound, havoid, hgroup⟩ := findZoneV3_lift (p := p) h (candidateZones p)
    (fun z hz => candidateZones_named hp hne hz) {} ⟨rfl, rfl⟩
  rw [if_neg hcanvas, if_neg hcanvas, hfound]
  cases hfind : findZone conf capacity b p (candidateZones p) with
  | some zone => exact h.accept _ _
  | none =>
    dsimp only
    rw [h.duplicate, havoid, hgroup]
    by_cases hdup : b.duplicate p.type
    · rw [if_pos hdup, if_pos hdup]
      exact h.suppress _ _
    rw [if_neg hdup, if_neg hdup]
    simp only [Bool.false_eq_true, false_and, if_false]
    by_cases hoptional : p.optional
    · rw [if_pos hoptional, if_pos hoptional]
      exact h.suppress _ _
    rw [if_neg hoptional, if_neg hoptional]
    rw [if_pos hne]
    refine h.place ?_ (le_counted b.occupied p.requestedZone) fun z hz => ?_
    · rfl
    by_cases heq : z = p.requestedZone
    · -- It has been asked for, so it was looked at and turned the component down.
      subst heq
      refine .inl ?_
      by_cases htaken : b.taken p.requestedZone
      · exact .inl htaken
      have hfull := (full_of_findZone hdup hfind (requested_candidate hz hne)).resolve_left htaken
      by_cases hbudget : b.overBudget conf p.requestedZone
      · exact .inr (.inl hbudget)
      have hfull' := (h.full_iff hz htaken).mpr hfull
      rw [h.overBudget] at hfull'
      exact .inr (.inr ⟨hfull.resolve_right hbudget, hfull'.resolve_right hbudget⟩)
    · rw [update_of_ne heq]
      exact .inr rfl

end

theorem same_fresh (conf : ProfileConf) (capacity : String → Int) :
    Same conf capacity {} { remaining := columns capacity {} } where
  topLoad := rfl
  bottomLoad := rfl
  exclusiveUsed := rfl
  singletonUsed := rfl
  placements := rfl
  suppressed := rfl
  room z hz := by
    refine .inr ?_
    dsimp only [columns]
    rw [if_pos hz]
    simp

theorem same_foldl (ps : List LayoutParticipant) (hps : ∀ p ∈ ps, Named p)
    (h : Same conf capacity b c) :
    Same conf capacity (ps.foldl (stepV2 conf capacity) b)
      ((ps.map lift).foldl (stepV3 conf {}) c) := by
  induction ps generalizing b c with
  | nil => exact h
  | cons p ps ih =>
    exact ih (fun q hq => hps q (mem_cons_of_mem _ hq)) (h.step (hps p mem_cons_self))

end Extends

/-- On participants of the second version both give the same layout. -/
theorem solveLayoutV3_extends (profile : String) (table : Option (String → Option Int))
    (participants : List LayoutParticipant) (hnamed : ∀ p ∈ participants, Named p) :
    (solveLayoutV3 profile table {} (participants.map lift)).placements.map (·.spot) =
        (solveComponentLayout profile table participants).placements.map (·.spot) ∧
      (solveLayoutV3 profile table {} (participants.map lift)).suppressed.map (·.id) =
        (solveComponentLayout profile table participants).suppressed.map (·.id) := by
  have hsorted : (participants.map lift).insertionSort
      (fun p q => before p.toLayoutParticipant q.toLayoutParticipant) =
        (participants.insertionSort before).map lift := by
    refine (map_insertionSort before
      (fun p q => before p.toLayoutParticipant q.toLayoutParticipant) lift participants
      fun _ _ _ _ => ?_).symm
    rfl
  have hsame := same_foldl (participants.insertionSort before)
    (fun p hp => hnamed p ((perm_insertionSort _ _).mem_iff.mp hp))
    (same_fresh (profileConf profile) (capacityOf (profileConf profile) table))
  rw [← hsorted] at hsame
  exact ⟨hsame.placements, hsame.suppressed⟩

theorem solveLayoutV3_extends_legend :
    let legend := [({ id := "a", type := "legend", requestedZone := "top-left" } : LayoutParticipant)]
    (solveLayoutV3 "viewport" none {} (legend.map lift)).placements.map (·.spot) =
        (solveComponentLayout "viewport" none legend).placements.map (·.spot) ∧
      (solveLayoutV3 "viewport" none {} (legend.map lift)).suppressed.map (·.id) =
        (solveComponentLayout "viewport" none legend).suppressed.map (·.id) :=
  solveLayoutV3_extends "viewport" none _ fun p hp => by
    obtain rfl := mem_singleton.mp hp
    exact ⟨.inl (by decide), fun _ h => by cases h⟩

end WebGis.Layout
