/-
  A tile, read back.

  The tables of keys and values only grow while the features are written, so a tag keeps its
  meaning in the tables that end up in the layer (`lookup_tagProps`). `decode_assemble` is what a
  reader finds in a tile; `tiles_decode_iff` says when that is what was encoded.
-/
import WebGis.Tiles.Drawn

namespace WebGis.Tiles

open Data Wire List Option Record

/-! ## What is to be found -/

/-- The properties that have a place in a tile. -/
def carriedProps (props : List (String × Value)) : List (String × Decoded) :=
  props.filterMap fun kv => kv.2.carried.map fun d => (kv.1, d)

/-- The id that is written. -/
def writtenId (featureId : Option Int) : Option Nat :=
  (featureId.filter fun n => decide (0 < n)).map Int.toNat

/-- The feature of a record. -/
def Record.feature (r : Record) : Feature where
  id := writtenId r.featureId
  typeId := r.shape.typeId
  parts := r.shape.parts
  properties := carriedProps r.props.items

/-- The feature that a reader finds. -/
def Record.drawn (r : Record) : Feature := { r.feature with parts := r.shape.drawn }

/-! ## Tables -/

/-- The tables with what may come after them. -/
structure Extends (t t' : Tables) : Prop where
  keys : t.keys <+: t'.keys
  values : t.values <+: t'.values

/-- The decoded values, place by place. -/
def Decodes (values : List Bytes) (decoded : List Decoded) : Prop :=
  ∀ (i : Nat) (bytes : Bytes), values[i]? = some bytes → decoded[i]? = decodeValue bytes

/-- Every value of the table is one that was encoded. -/
def Encoded (t : Tables) : Prop := ∀ bytes ∈ t.values, ∃ v, encodeValue v = some bytes

section

variable {t t' t'' final : Tables} {decoded : List Decoded}

theorem Extends.refl (t : Tables) : Extends t t := ⟨prefix_rfl, prefix_rfl⟩

theorem Extends.trans (h : Extends t t') (h' : Extends t' t'') : Extends t t'' :=
  ⟨h.keys.trans h'.keys, h.values.trans h'.values⟩

theorem getElem?_of_initial {α : Type} {xs ys : List α} (h : xs <+: ys) {i : Nat} {a : α}
    (hi : xs[i]? = some a) : ys[i]? = some a := by
  obtain ⟨rest, rfl⟩ := h
  obtain ⟨hlt, _⟩ := List.getElem?_eq_some_iff.mp hi
  rw [getElem?_append_left hlt, hi]

theorem intern_spec {α : Type} [DecidableEq α] (table : List α) (a : α) :
    table <+: (intern table a).2 ∧ (intern table a).2[(intern table a).1]? = some a ∧
      ∀ b ∈ (intern table a).2, b ∈ table ∨ b = a := by
  unfold intern
  by_cases h : a ∈ table
  · rw [if_pos h]
    exact ⟨prefix_rfl, getElem?_idxOf h, fun b hb => .inl hb⟩
  · rw [if_neg h]
    refine ⟨prefix_append table [a], by simp, fun b hb => ?_⟩
    obtain hb | hb := mem_append.mp hb
    · exact .inl hb
    · exact .inr (mem_singleton.mp hb)

theorem tagProps_extends (t : Tables) (props : List (String × Value)) :
    Extends t (tagProps t props).2 := by
  induction props generalizing t with
  | nil => exact .refl t
  | cons kv props ih =>
    obtain ⟨k, v⟩ := kv
    rw [tagProps]
    cases encodeValue v with
    | none => exact ih t
    | some encoded =>
      obtain ⟨hkeys, _⟩ := intern_spec t.keys k
      obtain ⟨hvalues, _⟩ := intern_spec t.values encoded
      exact Extends.trans ⟨hkeys, hvalues⟩ (ih _)

theorem tagProps_encoded (h : Encoded t) (props : List (String × Value)) :
    Encoded (tagProps t props).2 := by
  induction props generalizing t with
  | nil => exact h
  | cons kv props ih =>
    obtain ⟨k, v⟩ := kv
    rw [tagProps]
    cases hv : encodeValue v with
    | none => exact ih h
    | some encoded =>
      refine ih fun bytes hbytes => ?_
      obtain hold | rfl := (intern_spec t.values encoded).2.2 bytes hbytes
      · exact h bytes hold
      · exact ⟨v, hv⟩

theorem lookup_tagProps (hdecoded : Decodes final.values decoded) (props : List (String × Value)) (t : Tables)
    (hfinal : Extends (tagProps t props).2 final) :
    lookupTags final.keys decoded (tagProps t props).1 = some (carriedProps props) := by
  induction props generalizing t with
  | nil => rfl
  | cons kv props ih =>
    obtain ⟨k, v⟩ := kv
    rw [tagProps] at hfinal ⊢
    unfold carriedProps
    cases hv : encodeValue v with
    | none =>
      rw [hv] at hfinal
      have hnone := carried_eq_none.mp hv
      rw [filterMap_cons, hnone]
      exact ih t hfinal
    | some encoded =>
      rw [hv] at hfinal
      obtain ⟨_, hkey, _⟩ := intern_spec t.keys k
      obtain ⟨_, hvalue, _⟩ := intern_spec t.values encoded
      have hlater := (tagProps_extends { keys := (intern t.keys k).2,
                                         values := (intern t.values encoded).2 } props).trans
        hfinal
      have hk := getElem?_of_initial hlater.keys hkey
      have hval := hdecoded _ _ (getElem?_of_initial hlater.values hvalue)
      rw [decode_encodeValue hv] at hval
      obtain ⟨d, hd⟩ : ∃ d, v.carried = some d := by
        refine ne_none_iff_exists'.mp fun hnone => ?_
        rw [carried_eq_none.mpr hnone] at hv
        cases hv
      rw [hd] at hval
      rw [lookupTags, hk, hval, ih _ hfinal, filterMap_cons, hd]
      rfl

end

/-! ## Fields of a message -/

section

variable {num : Nat} {fields fields' : List Field}

theorem chunks_append : chunks num (fields ++ fields') = chunks num fields ++ chunks num fields' :=
  filterMap_append

theorem chunks_map (k : Nat) (bodies : List Bytes) :
    chunks num (bodies.map fun b => (k, .chunk b)) = if k = num then bodies else [] := by
  unfold chunks
  induction bodies with
  | nil => simp
  | cons b bodies ih =>
    rw [map_cons, filterMap_cons, ih]
    by_cases h : k = num <;> simp [h]

end

/-! ## Features -/

/-- The fields of a feature message. -/
def featureFields (geometry : Bytes) (tags : List Nat) (typeId : Nat) (featureId : Option Int) :
    List Field :=
  (writtenId featureId).toList.map (fun n => (1, .varint n)) ++ [(3, .varint typeId)] ++
    (if tags = [] then [] else [(2, .chunk (tags.flatMap varint))]) ++ [(4, .chunk geometry)]

theorem spells_feature (geometry : Bytes) (tags : List Nat) (typeId : Nat)
    (featureId : Option Int) : Spells readField (encodeFeature geometry tags typeId featureId)
      (featureFields geometry tags typeId featureId) := by
  refine .append (.append (.append ?_ (reads_varintField 3 typeId).spells) ?_)
    (reads_chunkField 4 geometry).spells
  · unfold writtenId
    cases featureId with
    | none => exact .nil
    | some n =>
      by_cases hn : 0 < n
      · simp only [hn, Option.filter, decide_true, if_true]
        exact (reads_varintField 1 n.toNat).spells
      · simp only [hn, Option.filter, decide_false, if_false]
        exact .nil
  · by_cases htags : tags = []
    · rw [if_pos htags, if_pos htags]
      exact .nil
    · rw [if_neg htags, if_neg htags]
      exact (reads_chunkField 2 (tags.flatMap varint)).spells

theorem decodeFeature_encode {keys : List String} {decoded : List Decoded} {s : Shape}
    {tags : List Nat} {featureId : Option Int} {properties : List (String × Decoded)}
    (htags : lookupTags keys decoded tags = some properties) :
    decodeFeature keys decoded (encodeFeature s.encode tags s.typeId featureId) =
      some {
        id := writtenId featureId
        typeId := s.typeId
        parts := s.drawn
        properties := properties } := by
  have hfields := readAll_of_spells (spells_feature s.encode tags s.typeId featureId)
  have htagBytes : (chunks 2 (featureFields s.encode tags s.typeId featureId)).flatten =
      tags.flatMap varint := by
    unfold featureFields
    cases writtenId featureId <;> by_cases h : tags = [] <;> simp [chunks, h]
  have hgeometry : (chunks 4 (featureFields s.encode tags s.typeId featureId)).flatten =
      s.encode := by
    unfold featureFields
    cases writtenId featureId <;> by_cases h : tags = [] <;> simp [chunks, h]
  have hid : (varints 1 (featureFields s.encode tags s.typeId featureId)).getLast? =
      writtenId featureId := by
    unfold featureFields
    cases writtenId featureId <;> by_cases h : tags = [] <;> simp [varints, h]
  have htype : (varints 3 (featureFields s.encode tags s.typeId featureId)).getLast? =
      some s.typeId := by
    unfold featureFields
    cases writtenId featureId <;> by_cases h : tags = [] <;> simp [varints, h]
  unfold decodeFeature
  simp only [hfields, htagBytes, hgeometry, hid, htype, readAll_numbers, htags,
    decodeGeometry_encode, bind_eq_bind, bind_some, getD_some]

section

variable {t final : Tables} {decoded : List Decoded}

theorem featureMessages_extends (t : Tables) (records : List Record) :
    Extends t (featureMessages t records).2 := by
  induction records generalizing t with
  | nil => exact .refl t
  | cons r records ih => exact (tagProps_extends t r.props.items).trans (ih _)

theorem featureMessages_encoded (h : Encoded t) (records : List Record) :
    Encoded (featureMessages t records).2 := by
  induction records generalizing t with
  | nil => exact h
  | cons r records ih => exact ih (tagProps_encoded h r.props.items)

theorem length_featureMessages (t : Tables) (records : List Record) :
    (featureMessages t records).1.length = records.length := by
  induction records generalizing t with
  | nil => rfl
  | cons r records ih => rw [featureMessages, length_cons, ih, length_cons]

theorem decode_featureMessages (hdecoded : Decodes final.values decoded)
    (records : List Record) (t : Tables) (hfinal : Extends (featureMessages t records).2 final) :
    (featureMessages t records).1.mapM (decodeFeature final.keys decoded) =
      some (records.map drawn) := by
  induction records generalizing t with
  | nil => rfl
  | cons r records ih =>
    rw [featureMessages] at hfinal ⊢
    have hlater := (featureMessages_extends (tagProps t r.props.items).2 records).trans hfinal
    have htags := lookup_tagProps hdecoded r.props.items t hlater
    rw [mapM_cons, decodeFeature_encode htags, ih _ hfinal]
    rfl

/-! ## The layer and the tile -/

/-- The fields of a layer message. -/
def layerFields (messages : List Bytes) (t : Tables) : List Field :=
  [(15, .varint 2)] ++ [(1, .chunk (utf8 "data"))] ++ messages.map (fun m => (2, .chunk m)) ++
    (t.keys.map utf8).map (fun k => (3, .chunk k)) ++ t.values.map (fun v => (4, .chunk v)) ++
    [(5, .varint extent)]

theorem spells_layer (messages : List Bytes) (t : Tables) :
    Spells readField (layerBytes messages t) (layerFields messages t) := by
  have hkeys : Spells readField (t.keys.flatMap (stringField 3))
      ((t.keys.map utf8).map fun k => (3, .chunk k)) := by
    rw [List.map_map]
    exact spells_map t.keys fun k _ => reads_chunkField 3 (utf8 k)
  exact (((((reads_varintField 15 2).spells.append (reads_chunkField 1 (utf8 "data")).spells).append
    (spells_map messages fun m _ => reads_chunkField 2 m)).append hkeys).append
    (spells_map t.values fun v _ => reads_chunkField 4 v)).append (reads_varintField 5 extent).spells

theorem mapM_utf8 (keys : List String) : (keys.map utf8).mapM ofUtf8 = some keys := by
  induction keys with
  | nil => rfl
  | cons k keys ih =>
    rw [map_cons, mapM_cons, ih, show ofUtf8 (utf8 k) = some k from ofUtf8_toUTF8 k]
    rfl

theorem mapM_values {values : List Bytes} (h : ∀ bytes ∈ values, ∃ v, encodeValue v = some bytes) :
    ∃ decoded, values.mapM decodeValue = some decoded ∧ Decodes values decoded := by
  induction values with
  | nil => exact ⟨[], rfl, fun i bytes hi => by cases hi⟩
  | cons bytes values ih =>
    obtain ⟨decoded, hmap, hget⟩ := ih fun b hb => h b (mem_cons_of_mem bytes hb)
    obtain ⟨v, hv⟩ := h bytes mem_cons_self
    obtain ⟨d, hd⟩ : ∃ d, decodeValue bytes = some d := by
      rw [decode_encodeValue hv]
      refine ne_none_iff_exists'.mp fun hnone => ?_
      rw [carried_eq_none.mpr hnone] at hv
      cases hv
    refine ⟨d :: decoded, by rw [mapM_cons, hd, hmap]; rfl, fun i b hi => ?_⟩
    cases i with
    | zero =>
      cases hi
      exact hd.symm
    | succ i => exact hget i b hi

theorem decodeLayer_layerBytes (records : List Record) :
    decodeLayer (layerBytes (featureMessages {} records).1 (featureMessages {} records).2) =
      some (records.map drawn) := by
  have hencoded : Encoded (featureMessages {} records).2 :=
    featureMessages_encoded (fun bytes hbytes => by cases hbytes) records
  obtain ⟨decoded, hmap, hget⟩ := mapM_values hencoded
  have hread := decode_featureMessages hget records {} (.refl _)
  generalize featureMessages {} records = state at hmap hread ⊢
  obtain ⟨messages, t⟩ := state
  have hfields := readAll_of_spells (spells_layer messages t)
  have hchunks (num : Nat) : chunks num (layerFields messages t) =
      (if 1 = num then [utf8 "data"] else []) ++ (if 2 = num then messages else []) ++
        (if 3 = num then t.keys.map utf8 else []) ++ if 4 = num then t.values else [] := by
    unfold layerFields
    simp only [chunks_append, chunks_map]
    by_cases h : 1 = num <;> simp [chunks, h]
  have hkeys : chunks 3 (layerFields messages t) = t.keys.map utf8 := by
    rw [hchunks]
    simp
  have hvalues : chunks 4 (layerFields messages t) = t.values := by
    rw [hchunks]
    simp
  have hmessages : chunks 2 (layerFields messages t) = messages := by
    rw [hchunks]
    simp
  unfold decodeLayer
  simp only [hfields, hkeys, hvalues, hmessages, mapM_utf8, hmap, hread, bind_eq_bind, bind_some]

end

theorem decode_assemble {records : List Record} {bytes : Bytes}
    (h : assembleMvt records = .ok bytes) :
    decodeTile bytes = some (records.map drawn) := by
  unfold assembleMvt at h
  split at h
  · cases h
  dsimp only at h
  split at h
  · rename_i hempty
    cases h
    have hlen := length_featureMessages {} records
    rw [hempty] at hlen
    obtain rfl := eq_nil_of_length_eq_zero hlen.symm
    rfl
  · cases h
    unfold decodeTile
    rw [readAll_of_spells (reads_chunkField 3 _).spells]
    change ([layerBytes _ _].mapM decodeLayer).bind _ = _
    rw [mapM_cons, decodeLayer_layerBytes, mapM_nil]
    simp

theorem assembleMvt_ok {records : List Record} (h : ¬ maxTileFeatures < records.length) :
    ∃ bytes, assembleMvt records = .ok bytes := by
  unfold assembleMvt
  rw [if_neg h]
  dsimp only
  split <;> exact ⟨_, rfl⟩

/-- A tile is read as it was encoded exactly when it is too large to be written, or each ring of a
    polygon before its last ends where it starts. -/
theorem tiles_decode_iff (records : List Record) :
    (∀ bytes, assembleMvt records = .ok bytes →
        decodeTile bytes = some (records.map feature)) ↔
      maxTileFeatures < records.length ∨ ∀ r ∈ records, r.shape.Faithful := by
  have hsame : records.map drawn = records.map feature ↔
      ∀ r ∈ records, r.shape.Faithful := by
    rw [map_inj_left]
    refine forall₂_congr fun r _ => ?_
    rw [← drawn_eq_iff]
    constructor
    · intro h
      exact congrArg Feature.parts h
    · intro h
      unfold drawn
      rw [h]
      rfl
  by_cases hmany : maxTileFeatures < records.length
  · refine iff_of_true (fun bytes h => ?_) (.inl hmany)
    unfold assembleMvt at h
    rw [if_pos hmany] at h
    cases h
  · rw [or_iff_right hmany, ← hsame]
    obtain ⟨bytes, hbytes⟩ := assembleMvt_ok hmany
    constructor
    · intro h
      exact some.inj ((decode_assemble hbytes).symm.trans (h bytes hbytes))
    · intro h bytes' hbytes'
      rw [decode_assemble hbytes', h]

/-- A square with a square hole. -/
def courtyard : Record where
  shape := .polygon [
    { first := ⟨0, 0, by decide⟩
      rest := [⟨8, 0, by decide⟩, ⟨8, 8, by decide⟩, ⟨0, 8, by decide⟩]
      long := by decide },
    { first := ⟨2, 2, by decide⟩
      rest := [⟨2, 4, by decide⟩, ⟨4, 4, by decide⟩, ⟨4, 2, by decide⟩]
      long := by decide }]
  props := Dict.empty
  featureId := none

/-- A reader finds the hole eight units below its place, half outside the square. -/
theorem hole_misplaced : ∃ bytes, assembleMvt [courtyard] = .ok bytes ∧
    decodeTile bytes = some [{
      id := none
      typeId := 3
      parts := [⟨[(0, 0), (8, 0), (8, 8), (0, 8)], true⟩, ⟨[(2, 10), (2, 12), (4, 12), (4, 10)], true⟩]
      properties := [] }] ∧
    decodeTile bytes ≠ some ([courtyard].map feature) := by
  obtain ⟨bytes, hbytes⟩ := assembleMvt_ok (show ¬ maxTileFeatures < [courtyard].length by decide)
  have hread := decode_assemble hbytes
  refine ⟨bytes, hbytes, hread, ?_⟩
  rw [hread]
  decide

end WebGis.Tiles
