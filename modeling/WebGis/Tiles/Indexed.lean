/-
  When the tile from the index is the tile from the features.

  A feature that the index keeps gives the same records either way (`rowRecords_eq`), and none when
  its box misses the tile (`featureRecords_miss`). What remains are the features that the index
  leaves out and the two budgets: `indexed_same_iff` says that nothing else can differ.
-/
import WebGis.Tiles.Index

namespace WebGis.Tiles

open Data Wire List Option

namespace Toolkit

variable (T : Toolkit)

/-! ## What misses a tile -/

/-- Coordinates that have nothing in a tile. -/
structure Away (t : Tile) (k : Kind) (coords : Json) : Prop where
  boxed : ∀ g gz, T.construct k coords = some g → T.transform g = some gz →
    ∃ b, T.bounds gz = some b ∧ b.meets (tileRect t) = false
  clipped : ∃ s, T.pure k coords t = some s ∧ s.isEmpty = true

/-- What a box that misses the tile says of the geometry inside it. -/
structure Local : Prop where
  /-- No point of a geometry is outside its box. -/
  points : ∀ k coords g gz b t, T.indexable k coords = some (g, gz, b) →
    b.meets (tileRect t) = false → T.points k coords t = some []
  /-- The clipper finds nothing outside the box. -/
  pure : ∀ k coords g gz b t, T.indexable k coords = some (g, gz, b) →
    b.meets (tileRect t) = false → ∃ s, T.pure k coords t = some s ∧ s.isEmpty = true
  /-- The pieces of a geometry stay at its latitudes, and in the world. -/
  split : ∀ k coords g gz b t, T.indexable k coords = some (g, gz, b) →
    T.crosses k coords = some true → Box.meets { b with x0 := 0, x1 := 256 } (tileRect t) = false →
    ∃ pieces, T.split k coords = some pieces ∧ ∀ p ∈ pieces, T.Away t p.1 p.2
  /-- A simplified geometry stays in the box. -/
  simplify : ∀ z g s b t, T.bounds g = some b → b.meets (tileRect t) = false →
    T.simplify z g = some s → T.isEmpty s = true ∨
      ∃ b', T.bounds s = some b' ∧ b'.meets (tileRect t) = false
  /-- A geometry whose box misses a tile has no part in it. -/
  intersection : ∀ g b t, T.bounds g = some b → b.meets (tileRect t) = false →
    ∃ c, T.intersection g t = some c ∧ T.isEmpty c = true
  /-- Nothing crosses the antimeridian without coordinates. -/
  crosses : ∀ k, T.crosses k .null ≠ some true

variable {T} {t : Tile} {k : Kind} {coords : Json}

theorem clip_miss (hT : T.Local) {g : T.Geom} {b : Box} (hb : T.bounds g = some b)
    (hmiss : b.meets (tileRect t) = false) (isPoly : Bool) :
    T.clipAndEncode (some g) isPoly t = some none := by
  obtain ⟨c, hc, hempty⟩ := hT.intersection g b t hb hmiss
  unfold clipAndEncode
  dsimp only
  rw [hc, bind_eq_bind, bind_some, if_pos hempty]

theorem bytes_of_isEmpty {s : Shape} (h : s.isEmpty) : s.bytes = none := if_pos h

theorem encodePiece_away (hT : T.Local) (h : T.Away t k coords) :
    T.encodePiece k coords t = some none := by
  obtain ⟨s, hs, hempty⟩ := h.clipped
  have hpure : (T.pure k coords t).map Shape.bytes = some none := by
    rw [hs, map_some, bytes_of_isEmpty hempty]
  have hshapely : T.encodeShapely k coords t = none ∨
      T.encodeShapely k coords t = some none := by
    unfold encodeShapely simplifyAndProject
    cases hg : T.construct k coords with
    | none => exact .inr rfl
    | some g =>
      dsimp only
      split
      · exact .inr rfl
      split
      · exact .inr rfl
      cases hgz : T.transform g with
      | none => exact .inl rfl
      | some gz =>
        obtain ⟨b, hb, hmiss⟩ := h.boxed g gz hg hgz
        simp only [bind_eq_bind, bind_some]
        split
        · exact .inr (clip_miss hT hb hmiss k.isPoly)
        cases hsimple : T.simplify t.z gz with
        | none => exact .inl rfl
        | some simplified =>
          simp only [bind_some]
          split
          · exact .inr rfl
          rename_i hne
          obtain habsurd | ⟨b', hb', hmiss'⟩ := hT.simplify t.z gz simplified b t hb hmiss
            hsimple
          · exact absurd habsurd hne
          · split
            · exact .inr (clip_miss hT hb' hmiss' k.isPoly)
            · exact .inr (clip_miss hT hb hmiss k.isPoly)
  unfold encodePiece
  obtain hnone | hsome := hshapely
  · rw [hnone]
    exact hpure
  · rw [hsome]

theorem mapM_none (pieces : List (Kind × Json))
    (h : ∀ p ∈ pieces, T.encodePiece p.1 p.2 t = some none) :
    ∃ groups, pieces.mapM (fun p => T.encodePiece p.1 p.2 t) = some groups ∧
      groups.reduceOption = [] := by
  induction pieces with
  | nil => exact ⟨[], rfl, rfl⟩
  | cons p pieces ih =>
    obtain ⟨groups, hmap, hreduce⟩ := ih fun q hq => h q (mem_cons_of_mem p hq)
    refine ⟨none :: groups, ?_, ?_⟩
    · rw [mapM_cons, h p mem_cons_self, hmap]
      rfl
    · rw [reduceOption_cons_of_none, hreduce]

/-! ## The index -/

variable {e : Json × Nat} {row : T.Row}

/-- A feature that the index keeps. -/
structure Keeps (e : Json × Nat) (row : T.Row) : Prop where
  shape : shapeOf e.1 = some (some (row.kind, row.coords))
  feature : row.feature = e.1
  naturalIndex : row.naturalIndex = e.2
  crosses : T.crossesAntimeridian row.kind row.coords = some row.crosses
  indexed : ∃ b, T.indexable row.kind row.coords = some (row.lonlat, row.z0, b) ∧
    row.box = if row.crosses then { b with x0 := 0, x1 := 256 } else b

theorem keeps_of_rowOf (h : T.rowOf e = some (some row)) : Keeps e row := by
  unfold rowOf at h
  cases hs : shapeOf e.1 with
  | none =>
    rw [hs] at h
    cases h
  | some kc =>
    rw [hs, bind_eq_bind, bind_some] at h
    cases kc with
    | none => cases h
    | some kc =>
      obtain ⟨k, coords⟩ := kc
      dsimp only at h
      cases hi : T.indexable k coords with
      | none =>
        rw [hi] at h
        cases h
      | some gb =>
        obtain ⟨g, gz, b⟩ := gb
        rw [hi] at h
        cases hc : T.crossesAntimeridian k coords with
        | none =>
          rw [hc] at h
          cases h
        | some crosses =>
          rw [hc] at h
          cases h
          exact ⟨hs, rfl, rfl, hc, b, hi, rfl⟩

theorem indexable_spec {g gz : T.Geom} {b : Box} (h : T.indexable k coords = some (g, gz, b)) :
    T.construct k coords = some g ∧ T.isEmpty g = false ∧ T.transform g = some gz ∧
      T.bounds gz = some b := by
  obtain ⟨g', hg, h⟩ := bind_eq_some_iff.mp h
  split at h
  · cases h
  rename_i hne
  obtain ⟨gz', hgz, h⟩ := bind_eq_some_iff.mp h
  obtain ⟨b', hb, h⟩ := bind_eq_some_iff.mp h
  cases h
  exact ⟨hg, Bool.eq_false_iff.mpr hne, hgz, hb⟩

theorem encodeFromGeoms_eq {g gz : T.Geom} {b : Box} (h : T.indexable k coords = some (g, gz, b)) :
    T.encodeFromGeoms k g gz t = T.encodeShapely k coords t := by
  obtain ⟨hg, _, hgz, _⟩ := indexable_spec h
  unfold encodeFromGeoms encodeShapely simplifyAndProject
  rw [hg]
  dsimp only
  rw [hgz]

theorem groups_of_uncrossed (hpoint : k.isPoint = false)
    (hc : T.crossesAntimeridian k coords = some false) :
    T.encodeGeometryPieces k coords t = (T.encodePiece k coords t).map Option.toList := by
  unfold encodeGeometryPieces antimeridianPieces
  rw [hpoint, hc]
  simp only [bind_eq_bind, bind_some, Bool.false_eq_true, if_false]
  rw [mapM_cons, mapM_nil]
  cases T.encodePiece k coords t with
  | none => rfl
  | some bytes => cases bytes <;> rfl

theorem rowRecords_eq (hT : T.Local) (h : T.rowOf e = some (some row)) :
    T.rowRecords t row = T.featureRecords t e := by
  obtain ⟨hshape, hfeature, hindex, hcrosses, b, hindexed, _⟩ := keeps_of_rowOf h
  have hplain : T.featureRecords t e = (T.encodeGeometryPieces row.kind row.coords t).map
      (recordsOf row.feature row.naturalIndex row.kind) := by
    unfold featureRecords
    rw [hshape, hfeature, hindex]
    simp only [bind_eq_bind, bind_some]
    cases T.encodeGeometryPieces row.kind row.coords t <;> rfl
  rw [hplain]
  unfold rowRecords
  by_cases hpoint : row.kind.isPoint
  · dsimp only
    rw [if_pos hpoint]
    unfold encodeGeometryPieces
    rw [if_pos hpoint, Option.map_map]
    rfl
  · dsimp only
    rw [if_neg hpoint]
    split
    · rfl
    rename_i hcross
    -- null coordinates cross nothing
    have hfalse : row.crosses = false := by
      by_contra hne
      have htrue : row.crosses := by simpa using hne
      unfold crossesAntimeridian at hcrosses
      rw [if_neg hpoint, htrue] at hcrosses
      have hnull : row.coords = .null := by
        by_contra hcoords
        exact hcross (by simp [htrue, hcoords])
      rw [hnull] at hcrosses
      exact hT.crosses row.kind hcrosses
    rw [hfalse] at hcrosses
    rw [encodeFromGeoms_eq hindexed, groups_of_uncrossed (Bool.eq_false_iff.mpr hpoint) hcrosses]
    unfold encodePiece
    cases T.encodeShapely row.kind row.coords t with
    | none => rfl
    | some bytes => rfl

theorem featureRecords_miss (hT : T.Local) (h : T.rowOf e = some (some row))
    (hmiss : row.box.meets (tileRect t) = false) : T.featureRecords t e = some [] := by
  obtain ⟨hshape, _, _, hcrosses, b, hindexed, hbox⟩ := keeps_of_rowOf h
  rw [hbox] at hmiss
  have hgroups : T.encodeGeometryPieces row.kind row.coords t = some [] := by
    by_cases hpoint : row.kind.isPoint
    · have hfalse : row.crosses = false := by
        unfold crossesAntimeridian at hcrosses
        rw [if_pos hpoint] at hcrosses
        exact (some.inj hcrosses).symm
      rw [hfalse, if_neg (by decide)] at hmiss
      unfold encodeGeometryPieces encodePoints
      rw [if_pos hpoint, hT.points _ _ _ _ b t hindexed hmiss]
      rfl
    · cases hc : row.crosses with
      | true =>
        rw [hc] at hcrosses
        rw [hc, if_pos rfl] at hmiss
        have hcross := hcrosses
        unfold crossesAntimeridian at hcross
        rw [if_neg hpoint] at hcross
        obtain ⟨pieces, hsplit, haway⟩ := hT.split _ _ _ _ b t hindexed hcross hmiss
        obtain ⟨groups, hmap, hreduce⟩ := mapM_none (T := T) (t := t) pieces fun p hp =>
          encodePiece_away hT (haway p hp)
        unfold encodeGeometryPieces antimeridianPieces
        rw [if_neg hpoint, hcrosses]
        simp only [bind_eq_bind, bind_some, if_true, hsplit, hmap, hreduce]
      | false =>
        rw [hc] at hcrosses
        rw [hc, if_neg (by decide)] at hmiss
        have haway : T.Away t row.kind row.coords := by
          refine ⟨fun g gz hg hgz => ?_, hT.pure _ _ _ _ b t hindexed hmiss⟩
          obtain ⟨hg', _, hgz', hb⟩ := indexable_spec hindexed
          cases hg'.symm.trans hg
          cases hgz'.symm.trans hgz
          exact ⟨b, hb, hmiss⟩
        rw [groups_of_uncrossed (Bool.eq_false_iff.mpr hpoint) hcrosses, encodePiece_away hT haway]
        rfl
  unfold featureRecords
  rw [hshape]
  simp only [bind_eq_bind, bind_some, hgroups]
  rfl

/-! ## The loops -/

variable (T) (t)

/-- The feature's records, none when its encoding raises. -/
def recordsAt (e : Json × Nat) : List TileRecord := (T.featureRecords t e).getD []

/-- The encoding of the feature does not raise. -/
def Encodes (e : Json × Nat) : Prop := (T.featureRecords t e).isSome

/-- Before a last feature there are as many records as a tile may have, or there are more. -/
def Overflows (es : List (Json × Nat)) : Prop :=
  ∃ pre post, es = pre ++ post ∧ (∀ e ∈ pre, T.Encodes t e) ∧
    maxTileFeatures < (pre.flatMap (T.recordsAt t)).length + (if post = [] then 0 else 1)

variable {T} {t} {es : List (Json × Nat)} {records rs : List TileRecord}

theorem encodeLoop_ok (h : T.encodeLoop t records es = .ok rs) :
    (∀ e ∈ es, T.Encodes t e) ∧ rs = records ++ es.flatMap (T.recordsAt t) := by
  induction es generalizing records with
  | nil =>
    cases h
    exact ⟨fun e he => absurd he not_mem_nil, by simp⟩
  | cons e es ih =>
    rw [encodeLoop] at h
    split at h
    · cases h
    cases hf : T.featureRecords t e with
    | none =>
      rw [hf] at h
      cases h
    | some more =>
      rw [hf] at h
      obtain ⟨hall, rfl⟩ := ih h
      refine ⟨forall_mem_cons.mpr ⟨by rw [Encodes, hf]; rfl, hall⟩, ?_⟩
      rw [flatMap_cons, append_assoc, recordsAt, hf, getD_some]

theorem encodeLoop_raised (h : T.encodeLoop t records es = .error .raised) :
    ¬ ∀ e ∈ es, T.Encodes t e := by
  induction es generalizing records with
  | nil => cases h
  | cons e es ih =>
    intro hall
    obtain ⟨hhead, htail⟩ := forall_mem_cons.mp hall
    rw [encodeLoop] at h
    split at h
    · cases h
    cases hf : T.featureRecords t e with
    | none =>
      rw [Encodes, hf] at hhead
      cases hhead
    | some more =>
      rw [hf] at h
      exact ih h htail

variable (records) in
theorem encodeLoop_budget : T.encodeLoop t records es = .error .featureBudget ↔
    ∃ pre post, es = pre ++ post ∧ post ≠ [] ∧ (∀ e ∈ pre, T.Encodes t e) ∧
      maxTileFeatures ≤ records.length + (pre.flatMap (T.recordsAt t)).length := by
  induction es generalizing records with
  | nil =>
    refine iff_of_false (fun h => by cases h) ?_
    rintro ⟨pre, post, happ, hpost, _⟩
    exact hpost (append_eq_nil_iff.mp happ.symm).2
  | cons e es ih =>
    rw [encodeLoop]
    split
    · rename_i hfull
      refine iff_of_true rfl ⟨[], e :: es, rfl, cons_ne_nil e es, ?_, ?_⟩
      · exact fun e he => absurd he not_mem_nil
      · simpa using hfull
    · rename_i hroom
      cases hf : T.featureRecords t e with
      | none =>
        refine iff_of_false (fun h => by cases h) ?_
        rintro ⟨pre, post, happ, hpost, hall, hfull⟩
        cases pre with
        | nil => exact hroom (by simpa using hfull)
        | cons e' pre =>
          cases happ
          have hhead := hall e mem_cons_self
          rw [Encodes, hf] at hhead
          cases hhead
      | some more =>
        have hmore : T.recordsAt t e = more := by rw [recordsAt, hf, getD_some]
        rw [ih]
        constructor
        · rintro ⟨pre, post, rfl, hpost, hall, hfull⟩
          refine ⟨e :: pre, post, rfl, hpost, ?_, ?_⟩
          · exact forall_mem_cons.mpr ⟨by rw [Encodes, hf]; rfl, hall⟩
          · rw [length_append] at hfull
            rw [flatMap_cons, length_append, hmore]
            omega
        · rintro ⟨pre, post, happ, hpost, hall, hfull⟩
          cases pre with
          | nil => exact absurd (by simpa using hfull) hroom
          | cons e' pre =>
            cases happ
            refine ⟨pre, post, rfl, hpost, fun e he => hall e (mem_cons_of_mem _ he), ?_⟩
            rw [flatMap_cons, length_append, hmore] at hfull
            rw [length_append]
            omega

theorem encodeTile_budget (features : List Json) :
    T.encodeTile features t = .error .featureBudget ↔ T.Overflows t features.zipIdx := by
  unfold encodeTile Overflows
  cases hloop : T.encodeLoop t [] features.zipIdx with
  | error err =>
    cases err with
    | featureBudget =>
      obtain ⟨pre, post, happ, hpost, hall, hfull⟩ := (encodeLoop_budget _).mp hloop
      refine iff_of_true rfl ⟨pre, post, happ, hall, ?_⟩
      rw [if_neg hpost]
      simp only [length_nil] at hfull
      omega
    | raised =>
      refine iff_of_false (fun h => by cases h) ?_
      rintro ⟨pre, post, happ, hall, hfull⟩
      by_cases hpost : post = []
      · subst hpost
        rw [append_nil] at happ
        exact encodeLoop_raised hloop (happ ▸ hall)
      · rw [if_neg hpost] at hfull
        have hbudget := (encodeLoop_budget (T := T) (t := t) []).mpr
          ⟨pre, post, happ, hpost, hall, by simp only [length_nil]; omega⟩
        rw [hloop] at hbudget
        cases hbudget
  | ok rs =>
    obtain ⟨hall, rfl⟩ := encodeLoop_ok hloop
    rw [nil_append] at hloop ⊢
    change assembled _ = _ ↔ _
    unfold assembled
    by_cases hmany : maxTileFeatures < (features.zipIdx.flatMap (T.recordsAt t)).length
    · rw [if_pos hmany]
      refine iff_of_true rfl ⟨features.zipIdx, [], (append_nil _).symm, hall, ?_⟩
      rw [if_pos rfl]
      exact hmany
    · rw [if_neg hmany]
      refine iff_of_false (fun h => by cases h) ?_
      rintro ⟨pre, post, happ, hpre, hfull⟩
      by_cases hpost : post = []
      · subst hpost
        rw [append_nil] at happ
        rw [if_pos rfl, ← happ] at hfull
        exact hmany hfull
      · rw [if_neg hpost] at hfull
        have hbudget := (encodeLoop_budget (T := T) (t := t) []).mpr
          ⟨pre, post, happ, hpost, hpre, by simp only [length_nil]; omega⟩
        rw [hloop] at hbudget
        cases hbudget

theorem encodeTile_ok {features : List Json} : T.encodeTile features t = .ok rs ↔
    ¬ T.Overflows t features.zipIdx ∧ (∀ e ∈ features.zipIdx, T.Encodes t e) ∧
      rs = features.zipIdx.flatMap (T.recordsAt t) := by
  rw [← encodeTile_budget]
  unfold encodeTile
  cases hloop : T.encodeLoop t [] features.zipIdx with
  | error err =>
    refine iff_of_false (fun h => by cases h) ?_
    rintro ⟨hbudget, hall, _⟩
    cases err with
    | featureBudget => exact hbudget rfl
    | raised => exact encodeLoop_raised hloop hall
  | ok rs' =>
    obtain ⟨hall, rfl⟩ := encodeLoop_ok hloop
    rw [nil_append]
    change assembled _ = _ ↔ ¬ assembled _ = _ ∧ _
    unfold assembled
    by_cases hmany : maxTileFeatures < (features.zipIdx.flatMap (T.recordsAt t)).length
    · rw [if_pos hmany]
      exact iff_of_false (fun h => by cases h) fun h => h.1 rfl
    · rw [if_neg hmany]
      constructor
      · intro h
        exact ⟨fun h => (by cases h), hall, (Except.ok.inj h).symm⟩
      · rintro ⟨_, _, rfl⟩
        rfl

/-! ## The candidates -/

variable (T) (t)

/-- The feature is in the index, and its box meets the tile. -/
def isCandidate (e : Json × Nat) : Bool :=
  match T.rowOf e with
  | some (some row) => row.box.meets (tileRect t)
  | _ => false

/-- The features that the index takes for the tile. -/
def candidatesOf (es : List (Json × Nat)) : List (Json × Nat) := es.filter (T.isCandidate t)

variable {T} {t}

theorem candidates_eq (hT : T.Local) {rows : List (Option T.Row)}
    (h : es.mapM T.rowOf = some rows) :
    (T.candidates rows.reduceOption t).map (T.rowRecords t) =
      (T.candidatesOf t es).map (T.featureRecords t) := by
  induction es generalizing rows with
  | nil =>
    cases h
    rfl
  | cons e es ih =>
    rw [mapM_cons] at h
    obtain ⟨row, hrow, h⟩ := bind_eq_some_iff.mp h
    obtain ⟨rest, hrest, h⟩ := bind_eq_some_iff.mp h
    cases h
    have htail := ih hrest
    unfold candidates candidatesOf at htail ⊢
    cases row with
    | none =>
      have hcand : T.isCandidate t e = false := by
        unfold isCandidate
        rw [hrow]
      rw [reduceOption_cons_of_none, filter_cons_of_neg (by rw [hcand]; decide)]
      exact htail
    | some row =>
      have hcand : T.isCandidate t e = row.box.meets (tileRect t) := by
        unfold isCandidate
        rw [hrow]
      rw [reduceOption_cons_of_some]
      by_cases hmeets : row.box.meets (tileRect t)
      · rw [filter_cons_of_pos (p := fun row : T.Row => row.box.meets (tileRect t)) hmeets,
          filter_cons_of_pos (hcand.trans hmeets), map_cons, map_cons, htail, rowRecords_eq hT hrow]
      · rw [filter_cons_of_neg (p := fun row : T.Row => row.box.meets (tileRect t)) hmeets,
          filter_cons_of_neg (by rw [hcand]; exact hmeets)]
        exact htail

variable (records) in
theorem rowsLoop_ok {rows : List T.Row} {es : List (Json × Nat)}
    (h : rows.map (T.rowRecords t) = es.map (T.featureRecords t)) :
    T.rowsLoop t records rows = .ok rs ↔
      (∀ e ∈ es, T.Encodes t e) ∧ rs = records ++ es.flatMap (T.recordsAt t) := by
  induction rows generalizing records es with
  | nil =>
    obtain rfl := map_eq_nil_iff.mp h.symm
    simp [rowsLoop, eq_comm]
  | cons row rows ih =>
    obtain ⟨e, es, rfl, he, hes⟩ := map_eq_cons_iff.mp h.symm
    rw [rowsLoop, ← he, forall_mem_cons, flatMap_cons]
    unfold Encodes recordsAt at *
    cases hf : T.featureRecords t e with
    | none => simp
    | some more =>
      rw [ih _ hes.symm]
      simp [append_assoc]

theorem rowsLoop_ne_budget (rows : List T.Row) :
    T.rowsLoop t records rows ≠ .error .featureBudget := by
  induction rows generalizing records with
  | nil => intro h; cases h
  | cons row rows ih =>
    rw [rowsLoop]
    cases T.rowRecords t row with
    | none => intro h; cases h
    | some more => exact ih

variable (T) (t)

/-- The index has more candidates than a tile may have records, or more records. -/
def IndexOverflows (es : List (Json × Nat)) : Prop :=
  maxTileFeatures < (T.candidatesOf t es).length ∨
    (∀ e ∈ T.candidatesOf t es, T.Encodes t e) ∧
      maxTileFeatures < ((T.candidatesOf t es).flatMap (T.recordsAt t)).length

/-- The index can be built of the features. -/
def Indexes (es : List (Json × Nat)) : Prop := ∀ e ∈ es, (T.rowOf e).isSome

variable {T} {t}

theorem mapM_isSome : (es.mapM T.rowOf).isSome ↔ T.Indexes es := by
  induction es with
  | nil => exact iff_of_true rfl fun e he => absurd he not_mem_nil
  | cons e es ih =>
    unfold Indexes at ih ⊢
    rw [forall_mem_cons, ← ih, mapM_cons]
    cases T.rowOf e with
    | none => simp
    | some row => cases es.mapM T.rowOf <;> simp

theorem indexedTile_cases (hT : T.Local) (features : List Json) :
    T.indexedTile features t = .error .raised ∧ ¬ (T.Indexes features.zipIdx ∧
        (T.IndexOverflows t features.zipIdx ∨
          ∀ e ∈ T.candidatesOf t features.zipIdx, T.Encodes t e)) ∨
      T.indexedTile features t = .error .featureBudget ∧ T.Indexes features.zipIdx ∧
        T.IndexOverflows t features.zipIdx ∨
      T.indexedTile features t =
          .ok ((T.candidatesOf t features.zipIdx).flatMap (T.recordsAt t)) ∧
        T.Indexes features.zipIdx ∧ ¬ T.IndexOverflows t features.zipIdx ∧
          ∀ e ∈ T.candidatesOf t features.zipIdx, T.Encodes t e := by
  rw [← mapM_isSome]
  unfold indexedTile buildIndex
  cases hrows : features.zipIdx.mapM T.rowOf with
  | none => exact .inl ⟨rfl, fun h => by cases h.1⟩
  | some rows =>
    have heq := candidates_eq (t := t) hT hrows
    have hlen : (T.candidates rows.reduceOption t).length =
        (T.candidatesOf t features.zipIdx).length := by
      simpa using congrArg List.length heq
    change T.encodeTileFromIndex rows.reduceOption t = _ ∧ _ ∨
      T.encodeTileFromIndex rows.reduceOption t = _ ∧ _ ∨
      T.encodeTileFromIndex rows.reduceOption t = _ ∧ _
    unfold encodeTileFromIndex IndexOverflows
    rw [hlen]
    by_cases hmany : maxTileFeatures < (T.candidatesOf t features.zipIdx).length
    · rw [if_pos hmany]
      exact .inr (.inl ⟨rfl, rfl, .inl hmany⟩)
    · rw [if_neg hmany]
      cases hloop : T.rowsLoop t [] (T.candidates rows.reduceOption t) with
      | error err =>
        have hall : ¬ ∀ e ∈ T.candidatesOf t features.zipIdx, T.Encodes t e := by
          intro hall
          have hok := (rowsLoop_ok [] heq).mpr ⟨hall, rfl⟩
          rw [hloop] at hok
          cases hok
        cases err with
        | featureBudget => exact absurd hloop (rowsLoop_ne_budget _)
        | raised =>
          refine .inl ⟨rfl, fun h => h.2.elim (fun h => h.elim hmany fun h => hall h.1) hall⟩
      | ok rs =>
        obtain ⟨hall, rfl⟩ := (rowsLoop_ok _ heq).mp hloop
        rw [nil_append]
        change assembled _ = _ ∧ _ ∨ assembled _ = _ ∧ _ ∨ assembled _ = _ ∧ _
        unfold assembled
        split
        · rename_i hfull
          exact .inr (.inl ⟨rfl, rfl, .inr ⟨hall, hfull⟩⟩)
        · rename_i hfull
          exact .inr (.inr ⟨rfl, rfl, fun h => h.elim hmany fun h => hfull h.2, hall⟩)

theorem indexedTile_budget (hT : T.Local) (features : List Json) :
    T.indexedTile features t = .error .featureBudget ↔
      T.Indexes features.zipIdx ∧ T.IndexOverflows t features.zipIdx := by
  rcases indexedTile_cases (t := t) hT features with ⟨heq, hno⟩ | ⟨heq, hyes⟩ | ⟨heq, -, hno, -⟩
  · rw [heq]
    exact iff_of_false (fun h => by cases h) fun h => hno ⟨h.1, .inl h.2⟩
  · exact iff_of_true heq hyes
  · rw [heq]
    exact iff_of_false (fun h => by cases h) fun h => hno h.2

theorem indexedTile_ok (hT : T.Local) {features : List Json} :
    T.indexedTile features t = .ok rs ↔
      T.Indexes features.zipIdx ∧ ¬ T.IndexOverflows t features.zipIdx ∧
        (∀ e ∈ T.candidatesOf t features.zipIdx, T.Encodes t e) ∧
        rs = (T.candidatesOf t features.zipIdx).flatMap (T.recordsAt t) := by
  rcases indexedTile_cases (t := t) hT features with ⟨heq, hno⟩ | ⟨heq, hyes⟩ | ⟨heq, hall⟩
  · rw [heq]
    exact iff_of_false (fun h => by cases h) fun h => hno ⟨h.1, .inr h.2.2.1⟩
  · rw [heq]
    exact iff_of_false (fun h => by cases h) fun h => h.2.1 hyes.2
  · rw [heq, Except.ok.injEq, eq_comm]
    exact ⟨fun h => ⟨hall.1, hall.2.1, hall.2.2, h⟩, fun h => h.2.2.2⟩

/-! ## The two tiles -/

variable (T) (t)

/-- Both exceed the budget, or both give the same records. -/
def SameTile (features : List Json) : Prop :=
  T.encodeTile features t = .error .featureBudget ∧
      T.indexedTile features t = .error .featureBudget ∨
    ∃ records, T.encodeTile features t = .ok records ∧ T.indexedTile features t = .ok records

/-- The index can be built, and both budgets are exceeded, or neither is, nothing raises, and what
    the index leaves out has no records. -/
def Agrees (features : List Json) : Prop :=
  T.Indexes features.zipIdx ∧
    (T.Overflows t features.zipIdx ∧ T.IndexOverflows t features.zipIdx ∨
      ¬ T.Overflows t features.zipIdx ∧ ¬ T.IndexOverflows t features.zipIdx ∧
        (∀ e ∈ features.zipIdx, T.Encodes t e) ∧
        ∀ e ∈ features.zipIdx, T.rowOf e = some none → T.recordsAt t e = [])

variable {T} {t}

theorem flatMap_filter_eq {α β : Type} (p : α → Bool) (f : α → List β) (xs : List α) :
    xs.flatMap f = (xs.filter p).flatMap f ↔ ∀ x ∈ xs, p x = false → f x = [] := by
  have hle (ys : List α) : ((ys.filter p).flatMap f).length ≤ (ys.flatMap f).length := by
    induction ys with
    | nil => simp
    | cons y ys ih =>
      rw [filter_cons, flatMap_cons, length_append]
      split
      · rw [flatMap_cons, length_append]
        omega
      · omega
  induction xs with
  | nil => simp
  | cons x xs ih =>
    refine Iff.trans ?_ (forall_mem_cons (p := fun x => p x = false → f x = [])).symm
    refine Iff.trans ?_ (and_congr_right fun _ => ih)
    rw [flatMap_cons]
    cases hp : p x with
    | true =>
      rw [filter_cons_of_pos hp, flatMap_cons, append_cancel_left_eq]
      simp
    | false =>
      rw [filter_cons_of_neg (by rw [hp]; decide)]
      constructor
      · intro h
        have hlen := congrArg List.length h
        have htail := hle xs
        rw [length_append] at hlen
        have hnil : f x = [] := eq_nil_of_length_eq_zero (by omega)
        rw [hnil, nil_append] at h
        exact ⟨fun _ => hnil, h⟩
      · rintro ⟨hnil, h⟩
        rw [hnil rfl, nil_append, h]

end Toolkit

/-! ## Points -/

/-- A coordinate that is a number. -/
def number : Json → Option Rat
  | .int n => some n
  | .float q => some q
  | _ => none

/-- The pixel of a pair of numbers, with equal steps of latitude. -/
def pixel : Json → Option (Rat × Rat)
  | .arr [lon, lat] => do
      let lon ← number lon
      let lat ← number lat
      some ((lon + 180) / 360 * 256, (1 - lat / 90) / 2 * 256)
  | _ => none

/-- The pixel is in the tile, without its buffer. -/
def inTile (t : Tile) (p : Rat × Rat) : Bool :=
  t.x * (256 / 2 ^ t.z : Rat) ≤ p.1 && p.1 < (t.x + 1) * (256 / 2 ^ t.z : Rat) &&
    t.y * (256 / 2 ^ t.z : Rat) ≤ p.2 && p.2 < (t.y + 1) * (256 / 2 ^ t.z : Rat)

def clampUnit (q : Rat) : Int := max 0 (min (q + 1 / 2).floor 4095)

theorem clampUnit_inside (q : Rat) : -4 ≤ clampUnit q ∧ clampUnit q ≤ 4100 := by
  unfold clampUnit
  omega

def vertexAt (t : Tile) (p : Rat × Rat) : Vertex where
  x := clampUnit ((p.1 * 2 ^ t.z - t.x * 256) * 16)
  y := clampUnit ((p.2 * 2 ^ t.z - t.y * 256) * 16)
  inside := ⟨clampUnit_inside _, clampUnit_inside _⟩

def pointBox (p : Rat × Rat) : Box := ⟨p.1, p.2, p.1, p.2⟩

/-- The pairs of numbers in the tile; what is no pair of numbers is passed over. -/
def pointsIn (t : Tile) (coords : List Json) : List Vertex :=
  ((coords.filterMap pixel).filter (inTile t)).map (vertexAt t)

/-- A toolkit for points, that cannot construct a point without numbers. -/
def pointKit : Toolkit where
  Geom := Option (Rat × Rat)
  construct
    | .point, coords => (pixel coords).map some
    | _, _ => none
  isEmpty g := g.isNone
  isValid _ := true
  transform g := some g
  bounds g := g.map pointBox
  simplify _ g := some g
  intersection g t := some (g.filter fun p => (pointBox p).meets (tileRect t))
  quantise _ _ _ := some (.lines [])
  points
    | .point, coords, t => some (pointsIn t [coords])
    | .multiPoint, .arr coords, t => some (pointsIn t coords)
    | _, _, _ => none
  pure _ _ _ := some (.lines [])
  crosses _ _ := some false
  split _ _ := some []

theorem meets_of_inTile {t : Tile} {p : Rat × Rat} (h : inTile t p) :
    (pointBox p).meets (tileRect t) := by
  have hbuffer : 0 ≤ bufferPx / 2 ^ t.z := by
    unfold bufferPx
    positivity
  simp only [inTile, Bool.and_eq_true, decide_eq_true_eq] at h
  obtain ⟨⟨⟨hx0, hx1⟩, hy0⟩, hy1⟩ := h
  simp only [Box.meets, pointBox, tileRect, Bool.and_eq_true]
  refine ⟨⟨⟨?_, ?_⟩, ?_⟩, ?_⟩ <;> refine decide_eq_true ?_ <;> linarith

theorem pointKit_local : pointKit.Local where
  points := by
    intro k coords g gz b t hindexed hmiss
    obtain ⟨hg, _, hgz, hb⟩ := Toolkit.indexable_spec hindexed
    cases k with
    | point =>
      obtain ⟨p, hp, rfl⟩ := map_eq_some_iff.mp hg
      cases hgz
      cases hb
      have hout : inTile t p = false := by
        by_contra hin
        rw [meets_of_inTile (by simpa using hin)] at hmiss
        cases hmiss
      change some (pointsIn t [coords]) = some []
      unfold pointsIn
      rw [filterMap_cons, hp]
      simp [hout]
    | _ => cases hg
  pure := fun _ _ _ _ _ _ _ _ => ⟨.lines [], rfl, rfl⟩
  split := by
    intro _ _ _ _ _ _ _ hcross
    cases hcross
  simplify := by
    intro _ g s b _ hb hmiss hs
    cases hs
    exact .inr ⟨b, hb, hmiss⟩
  intersection := by
    intro g b t hb hmiss
    obtain ⟨p, rfl, rfl⟩ := map_eq_some_iff.mp hb
    refine ⟨_, rfl, ?_⟩
    simp [pointKit, Option.filter, hmiss]
  crosses := by
    intro _ h
    cases h

/-- A feature of some coordinates. -/
def featureOf (type : String) (coords : Json) : Json :=
  .obj [("type", .str "Feature"),
    ("geometry", .obj [("type", .str type), ("coordinates", coords)]),
    ("properties", .obj [])]

/-- The point at the origin of the map. -/
def origin : Json := .arr [.int 0, .int 0]

/-- Two points, one without coordinates: Shapely takes neither, the encoder one. -/
def halfNull : Json := featureOf "MultiPoint" (.arr [origin, .arr [.null, .null]])

end WebGis.Tiles
