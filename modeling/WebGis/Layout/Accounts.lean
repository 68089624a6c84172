/-
  `lib/cartography/layout_solver.py`: what becomes of every component.

  A component that finds no zone because of its group or of what it avoids is left out of both
  lists, and one that is put down without a look at the zones is not written down as the one of its
  type. The third version accounts for every component if neither happens and only then
  (`accountedV3_iff`); the repairs of the fourth keep that up as long as none folds a component of
  a type that is there already (`Sound`).
-/
import WebGis.Layout.Solver

namespace WebGis.Layout

open List

variable {conf : ProfileConf} {constraints : LayoutConstraints} {b : BooksV3}
  {p : LayoutParticipantV3} {ps all : List LayoutParticipantV3}
  {required : LayoutParticipantV3 → Prop} {placements suppressed : List LayoutPlacement}
  {rest : List String} {x : LayoutPlacement}

/-- All that is not in `rest` is in one of the lists, and what is required is placed, or another
required one is that has its type to itself. -/
structure Accounted (all : List LayoutParticipantV3) (required : LayoutParticipantV3 → Prop)
    (placements suppressed : List LayoutPlacement) (rest : List String := []) : Prop where
  once : ((placements ++ suppressed).map (·.id) ++ rest).Perm (all.map (·.id))
  required : ∀ p ∈ all, required p → p.id ∉ rest → p.id ∈ placements.map (·.id) ∨
    p.type ∈ singletonTypes ∧
      ∃ q ∈ all, required q ∧ q.type = p.type ∧ q.id ∈ placements.map (·.id)
  singletons : ∀ type ∈ singletonTypes, (placements.map (·.type)).count type ≤ 1

section

variable (h : Accounted all required placements suppressed (p.id :: rest)) (hid : x.id = p.id)
include h hid

theorem Accounted.put (hnew : x.type ∈ singletonTypes → x.type ∉ placements.map (·.type)) :
    Accounted all required (placements ++ [x]) suppressed rest where
  once := by
    refine .trans ?_ h.once
    rw [← hid]
    simp only [map_append, append_assoc, singleton_append]
    exact .append_left _ perm_middle.symm
  required q hq hreq hrest := by
    simp only [map_append, mem_append, map_cons, map_nil, mem_singleton]
    by_cases heq : q.id = p.id
    · exact .inl (.inr (heq.trans hid.symm))
    rcases h.required q hq hreq (fun h => (mem_cons.mp h).elim heq hrest) with hmem | ⟨hs, r, hr, h'⟩
    · exact .inl (.inl hmem)
    · exact .inr ⟨hs, r, hr, h'.1, h'.2.1, .inl h'.2.2⟩
  singletons type htype := by
    rw [map_append, count_append, map_singleton, count_singleton]
    have hle := h.singletons type htype
    split
    · rename_i heq
      obtain rfl := eq_of_beq heq
      rw [count_eq_zero_of_not_mem (hnew htype)]
    · exact hle

theorem Accounted.drop (hreq : ∀ q ∈ all, q.id = p.id → required q → q.type ∈ singletonTypes ∧
      ∃ r ∈ all, required r ∧ r.type = q.type ∧ r.id ∈ placements.map (·.id)) :
    Accounted all required placements (suppressed ++ [x]) rest where
  once := by
    refine .trans ?_ h.once
    rw [← hid]
    simp only [map_append, map_cons, map_nil, append_assoc]
    exact .refl _
  required q hq hq' hrest := by
    by_cases heq : q.id = p.id
    · exact .inr (hreq q hq heq hq')
    · exact h.required q hq hq' (fun h => (mem_cons.mp h).elim heq hrest)
  singletons := h.singletons

end

theorem Accounted.hide (h : Accounted all required placements suppressed rest)
    (hids : (all.map (·.id)).Nodup) {donor : LayoutPlacement} (hdonor : donor ∈ placements)
    (hid : x.id = donor.id) (hnot : ∀ q ∈ all, q.id = donor.id → ¬ required q) :
    Accounted all required (placements.filter (·.id ≠ donor.id)) (suppressed ++ [x]) rest := by
  have hfilter : (placements.filter (·.id ≠ donor.id)).map (·.id) =
      (placements.map (·.id)).erase donor.id := by
    have hnodup := ((h.once.nodup_iff.mpr hids).of_append_left)
    rw [map_append] at hnodup
    rw [hnodup.of_append_left.erase_eq_filter, filter_map]
    congr 1
    exact filter_congr fun y _ => by simp [bne, decide_not]; rfl
  have hmem {q} (hq : q ∈ all) (hq' : required q) (h' : q.id ∈ placements.map (·.id)) :
      q.id ∈ (placements.filter (·.id ≠ donor.id)).map (·.id) := by
    obtain ⟨y, hy, heq⟩ := mem_map.mp h'
    refine mem_map.mpr ⟨y, mem_filter.mpr ⟨hy, ?_⟩, heq⟩
    exact decide_eq_true fun hy' => hnot q hq (heq.symm.trans hy') hq'
  refine ⟨.trans ?_ h.once, fun q hq hq' hrest => ?_, fun type htype => ?_⟩
  · have hperm := perm_cons_erase (mem_map_of_mem (f := (·.id)) hdonor)
    refine List.Perm.append_right _ ?_
    rw [map_append, map_append, map_append, hfilter, map_singleton, hid]
    refine .trans ?_ (hperm.symm.append_right _)
    rw [← append_assoc]
    exact perm_append_singleton _ _
  · refine (h.required q hq hq' hrest).imp (hmem hq hq') ?_
    rintro ⟨hs, r, hr, hr', htype, hplaced⟩
    exact ⟨hs, r, hr, hr', htype, hmem hr hr' hplaced⟩
  · exact ((filter_sublist.map _).count_le _).trans (h.singletons type htype)

/-! ## The third version -/

inductive Exit
  | placed
  | suppressed
  | contested
deriving DecidableEq

/-- What becomes of a component. -/
def exitV3 (conf : ProfileConf) (b : BooksV3) (p : LayoutParticipantV3) : Exit :=
  if p.type ∈ canvasTypes ∨ p.requestedZone = "none" then .placed
  else
    match findZoneV3 conf b p {} (candidateZones p.toLayoutParticipant) with
    | (_, some _) => .placed
    | (r, none) =>
      if b.duplicate p.type then .suppressed
      else if r.avoid ∧ ¬ r.group then .contested
      else if r.group ∧ p.collisionGroup ≠ "" then .contested
      else if p.optional then .suppressed
      else .placed

theorem stepV3_exit (conf : ProfileConf) (constraints : LayoutConstraints) (b : BooksV3)
    (p : LayoutParticipantV3) :
    ∃ x : LayoutPlacement, x.id = p.id ∧ x.type = p.type ∧
      (stepV3 conf constraints b p).placements = b.placements ++
        (match exitV3 conf b p with | .placed => [x] | _ => []) ∧
      (stepV3 conf constraints b p).suppressed = b.suppressed ++
        (match exitV3 conf b p with | .suppressed => [x] | _ => []) ∧
      (∀ type ∈ (stepV3 conf constraints b p).singletonUsed,
        type ∈ b.singletonUsed ∨ type = p.type ∧ exitV3 conf b p = .placed) ∧
      (exitV3 conf b p = .suppressed → b.duplicate p.type ∨ p.optional) := by
  have hsame {l : List LayoutPlacement} : l = l ++ [] := (append_nil l).symm
  rw [stepV3, exitV3]
  cases findZoneV3 conf b p {} (candidateZones p.toLayoutParticipant) with | mk r zone =>
  cases zone with
  | none =>
    dsimp only
    split_ifs with hcanvas hdup havoid hgroup hoptional
    · exact ⟨_, rfl, rfl, rfl, hsame, fun _ h => .inl h, nofun⟩
    · exact ⟨_, rfl, rfl, hsame, rfl, fun _ h => .inl h, fun _ => .inl hdup⟩
    · exact ⟨⟨p.id, p.type, "", false, "", 1⟩, rfl, rfl, hsame, hsame, fun _ h => .inl h, nofun⟩
    · exact ⟨⟨p.id, p.type, "", false, "", 1⟩, rfl, rfl, hsame, hsame, fun _ h => .inl h, nofun⟩
    · exact ⟨_, rfl, rfl, hsame, rfl, fun _ h => .inl h, fun _ => .inr hoptional⟩
    · exact ⟨_, rfl, rfl, rfl, hsame, fun _ h => .inl h, nofun⟩
  | some zone =>
    dsimp only
    by_cases hcanvas : p.type ∈ canvasTypes ∨ p.requestedZone = "none"
    · rw [if_pos hcanvas, if_pos hcanvas]
      exact ⟨_, rfl, rfl, rfl, hsame, fun _ h => .inl h, nofun⟩
    · rw [if_neg hcanvas, if_neg hcanvas]
      refine ⟨_, rfl, rfl, rfl, hsame, fun type h => ?_, nofun⟩
      dsimp only [LayoutBooks.accept] at h
      split at h
      · exact (mem_cons.mp h).symm.imp_right fun heq => ⟨heq, rfl⟩
      · exact .inl h

/-- No component is kept out by its group or by what it avoids, and none is put down where there is
one of its type that is to be the only one. -/
def Clean (conf : ProfileConf) (constraints : LayoutConstraints) :
    BooksV3 → List LayoutParticipantV3 → Prop
  | _, [] => True
  | b, p :: ps =>
    exitV3 conf b p ≠ .contested ∧
      (exitV3 conf b p = .placed → p.type ∈ singletonTypes →
        p.type ∉ b.placements.map (·.type)) ∧
      Clean conf constraints (stepV3 conf constraints b p) ps

/-- A clean run accounts for every component. -/
theorem accounted_foldl (hids : (all.map (·.id)).Nodup) (hall : ∀ p ∈ ps, p ∈ all)
    (hsorted : ps.Pairwise fun p q => q.optional = false → p.optional = false)
    (h : Accounted all (·.optional = false) b.placements b.suppressed (ps.map (·.id)))
    (hused : ∀ type ∈ b.singletonUsed, ∃ q ∈ all, q.type = type ∧
      q.id ∈ b.placements.map (·.id) ∧ ∀ p ∈ ps, p.optional = false → q.optional = false)
    (hclean : Clean conf constraints b ps) :
    Accounted all (·.optional = false) (ps.foldl (stepV3 conf constraints) b).placements
      (ps.foldl (stepV3 conf constraints) b).suppressed := by
  induction ps generalizing b with
  | nil => exact h
  | cons p ps ih =>
    obtain ⟨hcontested, hnew, hclean⟩ := hclean
    obtain ⟨hfirst, hsorted⟩ := pairwise_cons.mp hsorted
    obtain ⟨x, hid, htype, hp, hs, hu, hwhy⟩ := stepV3_exit conf constraints b p
    refine ih (fun q hq => hall q (mem_cons_of_mem _ hq)) hsorted ?_ (fun type hmem => ?_) hclean
    · rw [hp, hs]
      cases hexit : exitV3 conf b p with
      | placed =>
        rw [append_nil]
        refine h.put hid ?_
        rw [htype]
        exact hnew hexit
      | suppressed =>
        rw [append_nil]
        refine h.drop hid fun q hq heq hrequired => ?_
        obtain rfl := inj_on_of_nodup_map hids hq (hall p mem_cons_self) heq
        have hdup := of_decide_eq_true ((hwhy hexit).resolve_right (by simp [hrequired]))
        obtain ⟨r, hr, hrtype, hrid, hropt⟩ := hused _ hdup.2
        exact ⟨hdup.1, r, hr, hropt _ mem_cons_self hrequired, hrtype, hrid⟩
      | contested => exact absurd hexit hcontested
    · rw [hp, map_append]
      rcases hu type hmem with hmem | ⟨rfl, hexit⟩
      · obtain ⟨q, hq, hqtype, hqid, hqopt⟩ := hused type hmem
        exact ⟨q, hq, hqtype, mem_append_left _ hqid,
          fun r hr => hqopt r (mem_cons_of_mem _ hr)⟩
      · rw [hexit]
        exact ⟨p, hall p mem_cons_self, rfl, by simp [hid], hfirst⟩

/-- A run writes down each component at most once, and takes back none. -/
theorem foldl_le (conf : ProfileConf) (constraints : LayoutConstraints)
    (ps : List LayoutParticipantV3) (b : BooksV3) (type : String) :
    (ps.foldl (stepV3 conf constraints) b).placements.length +
        (ps.foldl (stepV3 conf constraints) b).suppressed.length ≤
          b.placements.length + b.suppressed.length + ps.length ∧
      (b.placements.map (·.type)).count type ≤
        ((ps.foldl (stepV3 conf constraints) b).placements.map (·.type)).count type := by
  induction ps generalizing b with
  | nil => exact ⟨le_rfl, le_rfl⟩
  | cons p ps ih =>
    have h := ih (stepV3 conf constraints b p)
    obtain ⟨x, -, -, hp, hs, -⟩ := stepV3_exit conf constraints b p
    rw [hp, hs] at h
    simp only [length_append, map_append, count_append] at h
    rw [foldl_cons, length_cons]
    cases hexit : exitV3 conf b p <;>
      simp only [hexit, length_cons, length_nil] at h <;> omega

theorem clean_of_le
    (hlength : b.placements.length + b.suppressed.length + ps.length ≤
      (ps.foldl (stepV3 conf constraints) b).placements.length +
        (ps.foldl (stepV3 conf constraints) b).suppressed.length)
    (hsingle : ∀ type ∈ singletonTypes,
      ((ps.foldl (stepV3 conf constraints) b).placements.map (·.type)).count type ≤ 1) :
    Clean conf constraints b ps := by
  induction ps generalizing b with
  | nil => trivial
  | cons p ps ih =>
    have hle := foldl_le conf constraints ps (stepV3 conf constraints b p) p.type
    obtain ⟨x, -, htype, hp, hs, -⟩ := stepV3_exit conf constraints b p
    rw [foldl_cons] at hlength hsingle
    rw [length_cons] at hlength
    refine ⟨fun hexit => ?_, fun hexit htype' hmem => ?_, ih ?_ hsingle⟩
    · rw [hp, hs, hexit] at hle
      simp only [append_nil] at hle
      omega
    · have hcount := hle.2.trans (hsingle _ htype')
      rw [hp, hexit, map_append, count_append, map_singleton, htype,
        count_singleton_self] at hcount
      exact absurd (count_pos_iff.mpr hmem) (by omega)
    · rw [hp, hs]
      cases exitV3 conf b p <;>
        simp only [length_append, length_cons, length_nil] <;> omega

/-! ## The fourth version -/

structure LayoutParticipantV4 extends LayoutParticipantV3 where
  collapsible : Bool := false
  minWidthUnits : Int := 1

/-- `COLLAPSIBLE_TYPES` -/
def collapsibleTypes : List String :=
  ["statistics_panel", "chart_panel", "table_panel", "decision_panel", "uncertainty_panel",
    "methodology_note"]

def collapsible (p : LayoutParticipantV4) : Bool := p.collapsible ∨ p.type ∈ collapsibleTypes

def fits (capacity : String → Int) (placements : List LayoutPlacement) (width : Int)
    (zone : String) : Bool :=
  ¬ (zone ∈ exclusiveZones ∧ ∃ x ∈ placements, x.zone = zone) ∧
    placements.countP (·.zone = zone) + width ≤ capacity zone

def tryPlace (capacity : String → Int) (placements : List LayoutPlacement) (type : String)
    (width : Int) : Option String :=
  if type ∈ singletonTypes ∧ type ∈ placements.map (·.type) then none
  else zoneOrder.find? (fits capacity placements width)

/-- Another zone, then a smaller width, then the overflow panel. -/
def reanchor (capacity : String → Int) (placements : List LayoutPlacement)
    (p : LayoutParticipantV4) : Option (String × Int) :=
  match tryPlace capacity placements p.type p.widthUnits with
  | some zone => some (zone, p.widthUnits)
  | none =>
    match if p.minWidthUnits < p.widthUnits then
        tryPlace capacity placements p.type p.minWidthUnits else none with
    | some zone => some (zone, p.minWidthUnits)
    | none =>
      if collapsible p then
        some (if p.requestedZone = "bottom-center" then "top-center" else "bottom-center", 1)
      else none

structure BooksV4 where
  placements : List LayoutPlacement
  suppressed : List LayoutPlacement
  conflicts : List (String × String)
  healed : List String := []

/-- `q` yields before `r`. -/
def yields (byId : String → Option LayoutParticipantV4) (r q : LayoutPlacement) : Prop :=
  let priority := fun x : LayoutPlacement => ((byId x.id).map (·.priority)).getD 0
  priority r < priority q ∨ priority r = priority q ∧ r.id < q.id

instance (byId : String → Option LayoutParticipantV4) : DecidableRel (yields byId) :=
  fun _ _ => inferInstanceAs (Decidable (_ ∨ _))

/-- The least important of the placed components that are optional. -/
def donor (byId : String → Option LayoutParticipantV4) (placements : List LayoutPlacement) :
    Option LayoutPlacement :=
  (placements.filter fun q => q.zone ≠ "none" ∧ (byId q.id).any (·.optional)).foldl
    (fun best q => if best.all (yields byId · q) then some q else best) none

def BooksV4.hide (b : BooksV4) (q : LayoutPlacement) (id : String) : BooksV4 :=
  { b with
    placements := b.placements.filter (·.id ≠ q.id)
    suppressed := b.suppressed ++ [{
      id := q.id
      type := q.type
      zone := "none"
      reason := "selfheal_hidden_for:" ++ id
      widthUnits := q.widthUnits }] }

def BooksV4.heal (b : BooksV4) (p : LayoutParticipantV4) (zone : String) (width : Int) : BooksV4 :=
  { b with
    placements := b.placements ++ [{
      id := p.id
      type := p.type
      zone := zone
      moved := true
      reason := "selfheal_reanchored"
      widthUnits := width }]
    healed := p.id :: b.healed }

def BooksV4.exhaust (b : BooksV4) (p : LayoutParticipantV4) : BooksV4 :=
  if p.optional then
    { b with
      suppressed := b.suppressed ++ [{
        id := p.id
        type := p.type
        zone := "none"
        reason := "selfheal_exhausted"
        widthUnits := p.widthUnits }]
      conflicts := b.conflicts ++ [(p.id, "zone_exhausted")] }
  else
    { b with
      placements := b.placements ++ [{
        id := p.id
        type := p.type
        zone := if p.requestedZone ≠ "none" then p.requestedZone else "bottom-right"
        reason := "required_overflow_kept"
        widthUnits := p.widthUnits }] }

def stepV4 (capacity : String → Int) (byId : String → Option LayoutParticipantV4) (b : BooksV4)
    (p : LayoutParticipantV4) : BooksV4 :=
  match reanchor capacity b.placements p with
  | some (zone, width) => b.heal p zone width
  | none =>
    let width := min p.widthUnits p.minWidthUnits
    match donor byId b.placements with
    | none => b.exhaust p
    | some q =>
      match tryPlace capacity (b.hide q p.id).placements p.type width with
      | some zone => (b.hide q p.id).heal p zone width
      | none => (b.hide q p.id).exhaust p

/-- The last participant of the id. -/
def byId (participants : List LayoutParticipantV4) (id : String) : Option LayoutParticipantV4 :=
  participants.reverse.find? (·.id = id)

/-- By priority, then by id. -/
def sooner (p q : LayoutParticipantV4) : Prop := toLex (p.priority, p.id) ≤ toLex (q.priority, q.id)

instance : DecidableRel sooner := fun _ _ => inferInstanceAs (Decidable (_ ≤ _))

/-- What the third version has turned down for want of room is tried again. -/
def unplaced (participants : List LayoutParticipantV4) (suppressed : List LayoutPlacement) :
    List LayoutParticipantV4 :=
  ((suppressed.filter (·.reason ≠ "duplicate_singleton")).filterMap
    fun x => byId participants x.id).insertionSort sooner

def freshV4 (base : BooksV3) : BooksV4 :=
  { placements := base.placements
    suppressed := base.suppressed.filter (·.reason = "duplicate_singleton")
    conflicts := base.conflicts }

def solveLayoutV4 (profile : String) (table : Option (String → Option Int))
    (constraints : LayoutConstraints) (participants : List LayoutParticipantV4) : BooksV4 :=
  let base := solveLayoutV3 profile table constraints (participants.map (·.toLayoutParticipantV3))
  let b := (unplaced participants base.suppressed).foldl
    (stepV4 (capacityOf (confV3 profile constraints) table) (byId participants)) (freshV4 base)
  { b with conflicts := b.conflicts.filter (·.1 ∉ b.healed) }

/-- No component is put down there but where it has been found a place. -/
def CleanV4 (capacity : String → Int) (byId : String → Option LayoutParticipantV4) :
    BooksV4 → List LayoutParticipantV4 → Prop
  | _, [] => True
  | b, p :: ps =>
    (collapsible p = true ∨ p.optional = false → p.type ∈ singletonTypes →
      p.type ∉ b.placements.map (·.type)) ∧
    CleanV4 capacity byId (stepV4 capacity byId b p) ps

section Repairs

variable {capacity : String → Int} {find : String → Option LayoutParticipantV4} {b : BooksV4}
  {p : LayoutParticipantV4} {zone : String} {width : Int}

theorem foldl_mem {better : LayoutPlacement → LayoutPlacement → Bool} {l : List LayoutPlacement}
    {best : Option LayoutPlacement} {q : LayoutPlacement}
    (h : l.foldl (fun best q => if best.all (better · q) then some q else best) best = some q) :
    q ∈ l ∨ best = some q := by
  induction l generalizing best with
  | nil => exact .inr h
  | cons x l ih =>
    rcases ih h with hmem | hbest
    · exact .inl (mem_cons_of_mem _ hmem)
    dsimp only at hbest
    split at hbest
    · cases hbest
      exact .inl mem_cons_self
    · exact .inr hbest

theorem tryPlace_new {type : String} (h : tryPlace capacity placements type width = some zone)
    (htype : type ∈ singletonTypes) : type ∉ placements.map (·.type) := by
  rw [tryPlace] at h
  split at h
  · cases h
  · rename_i hnot
    exact fun hmem => hnot ⟨htype, hmem⟩

theorem reanchor_new {r : String × Int} (h : reanchor capacity placements p = some r) :
    collapsible p ∨ (p.type ∈ singletonTypes → p.type ∉ placements.map (·.type)) := by
  rw [reanchor] at h
  split at h
  · exact .inr (tryPlace_new ‹_›)
  split at h
  · rename_i hplace
    split at hplace
    · exact .inr (tryPlace_new hplace)
    · cases hplace
  split at h
  · exact .inl ‹_›
  · cases h

variable (hids : (all.map (·.id)).Nodup) (hp : p.toLayoutParticipantV3 ∈ all)
  (h : Accounted all (·.optional = false) b.placements b.suppressed (p.id :: rest))
include hids hp h

theorem Accounted.exhaust
    (hnew : p.optional = false → p.type ∈ singletonTypes → p.type ∉ b.placements.map (·.type)) :
    Accounted all (·.optional = false) (b.exhaust p).placements (b.exhaust p).suppressed rest := by
  rw [BooksV4.exhaust]
  by_cases hoptional : p.optional
  · rw [if_pos hoptional]
    refine h.drop rfl fun q hq heq hrequired => ?_
    obtain rfl := inj_on_of_nodup_map hids hq hp heq
    exact absurd hoptional (by simp [hrequired])
  · rw [if_neg hoptional]
    exact h.put rfl (hnew (eq_false_of_ne_true hoptional))

theorem Accounted.stepV4 (hfind : ∀ id q, find id = some q → q.toLayoutParticipantV3 ∈ all ∧ q.id = id)
    (hnew : collapsible p ∨ p.optional = false → p.type ∈ singletonTypes →
      p.type ∉ b.placements.map (·.type)) :
    Accounted all (·.optional = false) (stepV4 capacity find b p).placements
      (stepV4 capacity find b p).suppressed rest := by
  rw [Layout.stepV4]
  split
  · rename_i hanchor
    exact h.put rfl ((reanchor_new hanchor).elim (fun hc => hnew (.inl hc)) id)
  split
  · exact h.exhaust hids hp fun ho => hnew (.inr ho)
  rename_i q hdonor
  obtain ⟨hmem, hq⟩ := mem_filter.mp ((foldl_mem hdonor).resolve_right (by simp))
  have hhide : Accounted all (·.optional = false) (b.hide q p.id).placements
      (b.hide q p.id).suppressed (p.id :: rest) := by
    refine h.hide hids hmem rfl fun r hr heq hrequired => ?_
    obtain ⟨q', hq', hoptional⟩ := (Option.any_eq_true _ _).mp (of_decide_eq_true hq).2
    obtain ⟨hall, hid⟩ := hfind _ _ hq'
    obtain rfl := inj_on_of_nodup_map hids hr hall (heq.trans hid.symm)
    exact absurd hoptional (by simp [hrequired])
  have hfewer {type} (h' : type ∉ b.placements.map (·.type)) :
      type ∉ (b.hide q p.id).placements.map (·.type) :=
    fun hin => h' ((filter_sublist.map _).subset hin)
  dsimp only
  split
  · exact hhide.put rfl (tryPlace_new ‹_›)
  · exact hhide.exhaust hids hp fun ho hs => hfewer (hnew (.inr ho) hs)

end Repairs

theorem byId_eq {participants : List LayoutParticipantV4} (id : String) (q : LayoutParticipantV4)
    (h : byId participants id = some q) : q ∈ participants ∧ q.id = id :=
  ⟨mem_reverse.mp (mem_of_find?_eq_some h), by simpa using find?_some h⟩

theorem unplaced_ids {participants : List LayoutParticipantV4}
    (hmem : ∀ x ∈ suppressed, x.id ∈ participants.map (·.id)) :
    ((unplaced participants suppressed).map (·.id)).Perm
      ((suppressed.filter (·.reason ≠ "duplicate_singleton")).map (·.id)) := by
  refine ((perm_insertionSort _ _).map _).trans (.of_eq ?_)
  have hmem' : ∀ x ∈ suppressed.filter (·.reason ≠ "duplicate_singleton"),
      x.id ∈ participants.map (·.id) := fun x hx => hmem x (mem_filter.mp hx).1
  generalize suppressed.filter (·.reason ≠ "duplicate_singleton") = l at hmem'
  induction l with
  | nil => rfl
  | cons x l ih =>
    have hfound : (byId participants x.id).isSome := by
      obtain ⟨p, hp, heq⟩ := mem_map.mp (hmem' x mem_cons_self)
      exact find?_isSome.mpr ⟨p, mem_reverse.mpr hp, decide_eq_true heq⟩
    obtain ⟨p, hp⟩ := Option.isSome_iff_exists.mp hfound
    rw [filterMap_cons, hp, map_cons, map_cons, (byId_eq _ _ hp).2,
      ih fun y hy => hmem' y (mem_cons_of_mem _ hy)]

theorem accounted_foldlV4 {capacity : String → Int} {find : String → Option LayoutParticipantV4}
    {ps : List LayoutParticipantV4} {b : BooksV4} (hids : (all.map (·.id)).Nodup)
    (hall : ∀ p ∈ ps, p.toLayoutParticipantV3 ∈ all)
    (hfind : ∀ id q, find id = some q → q.toLayoutParticipantV3 ∈ all ∧ q.id = id)
    (h : Accounted all (·.optional = false) b.placements b.suppressed (ps.map (·.id)))
    (hclean : CleanV4 capacity find b ps) :
    Accounted all (·.optional = false) (ps.foldl (stepV4 capacity find) b).placements
      (ps.foldl (stepV4 capacity find) b).suppressed := by
  induction ps generalizing b with
  | nil => exact h
  | cons p ps ih =>
    exact ih (fun q hq => hall q (mem_cons_of_mem _ hq))
      (h.stepV4 hids (hall p mem_cons_self) hfind hclean.1) hclean.2

/-! ## The fifth version -/

inductive OverflowPolicy
  | keep
  | collapse
  | suppress
deriving DecidableEq

structure ComponentLayoutConstraint where
  mustFit : Bool := false
  minWidthUnits : Int := 1
  maxWidthUnits : Int := 4
  overflowPolicy : OverflowPolicy := .collapse

/-- A participant under its constraint. -/
def adjust (constraintFor : String → Option ComponentLayoutConstraint) (p : LayoutParticipantV4) :
    LayoutParticipantV4 :=
  match constraintFor p.id with
  | none => p
  | some c =>
    let width :=
      if c.maxWidthUnits < p.widthUnits then c.maxWidthUnits else max p.widthUnits c.minWidthUnits
    { p with
      widthUnits := width
      minWidthUnits := min (max p.minWidthUnits c.minWidthUnits) width
      collapsible := p.collapsible || c.overflowPolicy = .collapse
      optional := p.optional && !c.mustFit }

/-- Without a specification there is no constraint for any component. -/
def solveLayoutV5 (profile : String) (table : Option (String → Option Int))
    (constraints : LayoutConstraints)
    (constraintFor : String → Option ComponentLayoutConstraint)
    (participants : List LayoutParticipantV4) : BooksV4 :=
  solveLayoutV4 profile table constraints (participants.map (adjust constraintFor))

/-- The component is to be there, whatever becomes of the others. -/
def mustFit (constraintFor : String → Option ComponentLayoutConstraint) (p : LayoutParticipantV3) :
    Prop :=
  p.optional = false ∨ ∃ c, constraintFor p.id = some c ∧ c.mustFit = true

/-! ## Every component is accounted for -/

section Runs

variable (profile : String) (table : Option (String → Option Int)) (constraints : LayoutConstraints)

def CleanRun (ps : List LayoutParticipantV3) : Prop :=
  Clean (confV3 profile constraints) constraints
    { remaining := columns (capacityOf (confV3 profile constraints) table) constraints }
    (ps.insertionSort fun p q => before p.toLayoutParticipant q.toLayoutParticipant)

/-- The run of the third version is clean, and so are the repairs. -/
def CleanRunV4 (participants : List LayoutParticipantV4) : Prop :=
  let base := solveLayoutV3 profile table constraints (participants.map (·.toLayoutParticipantV3))
  CleanRun profile table constraints (participants.map (·.toLayoutParticipantV3)) ∧
    CleanV4 (capacityOf (confV3 profile constraints) table) (byId participants) (freshV4 base)
      (unplaced participants base.suppressed)

variable {profile table constraints}

theorem CleanRun.settled {participants : List LayoutParticipantV4}
    (h : CleanRun profile table constraints (participants.map (·.toLayoutParticipantV3)))
    (hnone : (solveLayoutV3 profile table constraints
      (participants.map (·.toLayoutParticipantV3))).suppressed = []) :
    CleanRunV4 profile table constraints participants := by
  refine ⟨h, ?_⟩
  rw [hnone]
  trivial

theorem accountedV3_iff (hids : (ps.map (·.id)).Nodup) :
    Accounted ps (·.optional = false) (solveLayoutV3 profile table constraints ps).placements
        (solveLayoutV3 profile table constraints ps).suppressed ↔
      CleanRun profile table constraints ps := by
  have hperm := perm_insertionSort
    (fun p q : LayoutParticipantV3 => before p.toLayoutParticipant q.toLayoutParticipant) ps
  constructor
  · intro h
    refine clean_of_le ?_ h.singletons
    have hlength := h.once.length_eq
    rw [append_nil, length_map, length_append, length_map] at hlength
    rw [hperm.length_eq, ← hlength]
    simp [solveLayoutV3]
  · refine accounted_foldl hids (fun p hp => hperm.mem_iff.mp hp) ?_ ⟨?_, ?_, ?_⟩ ?_
    · have : IsTrans LayoutParticipantV3 (before ·.toLayoutParticipant ·.toLayoutParticipant) :=
        ⟨fun _ _ _ => le_trans⟩
      have : Std.Total fun p q : LayoutParticipantV3 =>
        before p.toLayoutParticipant q.toLayoutParticipant := ⟨fun _ _ => le_total _ _⟩
      refine (pairwise_insertionSort _ _).imp fun {p q} hle hq => ?_
      have hfst := (Prod.Lex.le_iff.mp hle).elim le_of_lt fun h => le_of_eq h.1
      exact Bool.eq_false_of_le_false (hfst.trans_eq hq)
    · exact hperm.map _
    · intro p hp _ hnot
      exact absurd (mem_map_of_mem (hperm.mem_iff.mpr hp)) hnot
    · intro _ _
      exact Nat.zero_le _
    · intro _ h
      cases h

theorem accountedV4 {participants : List LayoutParticipantV4}
    (hids : (participants.map (·.id)).Nodup)
    (hclean : CleanRunV4 profile table constraints participants) :
    Accounted (participants.map (·.toLayoutParticipantV3)) (·.optional = false)
      (solveLayoutV4 profile table constraints participants).placements
      (solveLayoutV4 profile table constraints participants).suppressed := by
  have hids' : ((participants.map (·.toLayoutParticipantV3)).map (·.id)).Nodup := by
    rwa [map_map]
  have hbase := (accountedV3_iff hids').mpr hclean.1
  refine accounted_foldlV4 hids' ?_ ?_ ⟨?_, ?_, hbase.singletons⟩ hclean.2
  · intro p hp
    obtain ⟨x, -, hx⟩ := mem_filterMap.mp ((perm_insertionSort _ _).mem_iff.mp hp)
    exact mem_map_of_mem (byId_eq _ _ hx).1
  · intro id q hq
    exact ⟨mem_map_of_mem (byId_eq id q hq).1, (byId_eq id q hq).2⟩
  · refine .trans ?_ hbase.once
    rw [append_nil, map_append, map_append, append_assoc]
    refine .append_left _ ?_
    refine ((unplaced_ids fun x hx => ?_).append_left _).trans ?_
    · have hmem := hbase.once.mem_iff.mp
        (mem_append_left _ (mem_map_of_mem (mem_append_right _ hx)))
      rwa [map_map] at hmem
    · rw [← map_append]
      have hperm := filter_append_perm (fun x : LayoutPlacement =>
        decide (x.reason = "duplicate_singleton"))
        (solveLayoutV3 profile table constraints
          (participants.map (·.toLayoutParticipantV3))).suppressed
      simpa [freshV4] using hperm.map (·.id)
  · exact fun p hp hreq _ => hbase.required p hp hreq not_mem_nil

variable (profile table constraints)

end Runs

end WebGis.Layout
