/-
  Filters of right rows by the keys of the left: `bloom.py`, `bloom_prefilter` and
  `_semi_join_reduce_right`.

  A Bloom filter holds the texts of its keys, several for a value, so that the values that the
  join takes for equal have a text in common. It never loses a text that was added, so
  it keeps the join exactly when every right row that is joined has a text in common with a key
  of the left (`prefilters_keep_iff`). Equal values have one, but for a `Decimal` that is not
  integral (`shares_of_equal`): it has its own digits only, and a float has none of them.
  SHA-256, `math.log` and `repr` are parameters.
-/
import WebGis.Federation.Rows

namespace WebGis.Federation

open Data List
open Option hiding or_assoc

section Code

variable (F : FloatRepr) (log : Rat → Rat) (digest : String → Nat × Nat)

/-- `canonical_variants(v)` -/
def canonicalVariants : Value → List String
  | .null => ["n:"]
  | .bool b => [if b then "i:1" else "i:0"]
  | .int n => ["i:" ++ intText n]
  | .float q =>
    if q.den = 1 then ["i:" ++ intText q.num, "f:" ++ String.ofList (F.chars q)]
    else ["f:" ++ String.ofList (F.chars q)]
  | .str s => ["s:" ++ s]
  | .coll text => ["s:" ++ text, "o:" ++ text]
  | .decimal d =>
    ("o:" ++ d.text) :: if d.value.den = 1 then ["i:" ++ intText d.value.num] else []

structure BloomFilter where
  numBits : Nat
  numHashes : Nat
  bits : List Bool
  keysAdded : Nat
  saturated : Bool
  capacity : Rat
  deriving DecidableEq

/-- `round(x)`: halves to even. -/
def pyRound (x : Rat) : Int :=
  if x - ⌊x⌋ < 1 / 2 then ⌊x⌋
  else if x - ⌊x⌋ > 1 / 2 then ⌊x⌋ + 1
  else if ⌊x⌋ % 2 = 0 then ⌊x⌋
  else ⌊x⌋ + 1

/-- `BloomFilter.with_capacity(expected_keys, fp_rate, max_bits)` -/
def BloomFilter.withCapacity (expectedKeys : Int) (fpRate : Rat) (maxBits : Int) : BloomFilter :=
  let n : Int := max 1 expectedKeys
  let p := min (max fpRate (1 / 10000)) (1 / 2)
  let idealM := ⌈-n * log p / log 2 ^ 2⌉
  let m := max 8 (min idealM maxBits)
  let k := max 1 (pyRound ((m : Rat) / n * log 2))
  { numBits := m.toNat
    numHashes := k.toNat
    bits := List.replicate m.toNat false
    keysAdded := 0
    saturated := idealM > m
    capacity := m * log 2 ^ 2 / -log p }

/-- `_positions(digest_key)` -/
def BloomFilter.positions (bloom : BloomFilter) (variant : String) : List Nat :=
  (List.range bloom.numHashes).map fun i =>
    ((digest variant).1 + i * ((digest variant).2 ||| 1)) % bloom.numBits

/-- `_set(digest_key)` -/
def BloomFilter.set (bloom : BloomFilter) (variant : String) : BloomFilter :=
  { bloom with
    bits := (bloom.positions digest variant).foldl (fun bits pos => bits.set pos true) bloom.bits }

/-- `_might_contain(digest_key)` -/
def BloomFilter.mightContain (bloom : BloomFilter) (variant : String) : Bool :=
  (bloom.positions digest variant).all fun pos => bloom.bits.getD pos false

/-- `add(key)` -/
def BloomFilter.add (bloom : BloomFilter) (key : Value) : BloomFilter :=
  let bloom := (canonicalVariants F key).foldl (BloomFilter.set digest) bloom
  let keysAdded := bloom.keysAdded + 1
  { bloom with
    keysAdded := keysAdded
    saturated := bloom.saturated || keysAdded > bloom.capacity }

/-- `key in bloom` -/
def BloomFilter.contains (bloom : BloomFilter) (key : Value) : Bool :=
  (canonicalVariants F key).any (bloom.mightContain digest)

/-- `build_bloom_from_rows(rows, field)` -/
def buildBloomFromRows (rows : List Row) (field : String) (expectedKeys : Option Int)
    (maxBits : Int) : Option BloomFilter :=
  let keys := (rows.map fun row => chainRowKey row field).filter fun key => key ≠ .null
  if keys = [] then none
  else
    let expected : Int :=
      match expectedKeys with
      | some n => if n = 0 then keys.length else n
      | none => keys.length
    some (keys.foldl (BloomFilter.add F digest) (.withCapacity log expected (1 / 100) maxBits))

/-- `bloom_prefilter(rows, bloom, field)` -/
def bloomPrefilter (rows : List Row) (bloom : BloomFilter) (field : String) : List Row :=
  rows.filter fun r =>
    chainRowKey r field = .null || bloom.contains F digest (chainRowKey r field)

def semiJoinMaxKeys : Nat := 1000

/-- The loop over the left keys; nothing when there are too many. -/
def collectKeys (field : String) : List Row → List Hashed → Option (List Hashed)
  | [], keys => some keys
  | l :: ls, keys =>
    let key := chainRowKey l field
    let keys := if key = .null ∨ hashableKey key ∈ keys then keys else hashableKey key :: keys
    if keys.length > semiJoinMaxKeys then none else collectKeys field ls keys

/-- `_semi_join_reduce_right(accumulated, right_rows, join)`; an empty text is a missing field. -/
def semiJoinReduceRight (accumulated rightRows : List Row) (joinFieldLeft joinFieldRight : String) :
    List Row :=
  if accumulated = [] ∨ rightRows = [] ∨ joinFieldRight = "" then rightRows
  else
    match collectKeys (if joinFieldLeft = "" then joinFieldRight else joinFieldLeft)
        accumulated [] with
    | none => rightRows
    | some [] => rightRows
    | some keys => rightRows.filter fun r => hashableKey (r.topKey joinFieldRight) ∈ keys

end Code

variable {F : FloatRepr} {log : Rat → Rat} {digest : String → Nat × Nat}

/-! ## What a filter holds -/

theorem getD_foldl_set (positions : List Nat) {bits : List Bool} {i : Nat} (hi : i < bits.length) :
    (positions.foldl (fun bits pos => bits.set pos true) bits).getD i false ↔
      i ∈ positions ∨ bits.getD i false := by
  induction positions generalizing bits with
  | nil => simp
  | cons pos positions ih =>
    rw [foldl_cons, ih (by rwa [length_set]), mem_cons, or_comm (a := i = pos),
      or_assoc]
    refine or_congr Iff.rfl ?_
    by_cases hip : i = pos
    · subst hip
      simp [List.getD, hi]
    · simp [List.getD, hip, getElem?_set_ne (Ne.symm hip)]

theorem length_foldl_set (positions : List Nat) (bits : List Bool) :
    (positions.foldl (fun bits pos => bits.set pos true) bits).length = bits.length := by
  induction positions generalizing bits with
  | nil => rfl
  | cons pos positions ih => rw [foldl_cons, ih, length_set]

/-- The bits of a filter are those of the texts of `T`. -/
structure Holds (digest : String → Nat × Nat) (T : String → Prop) (bloom : BloomFilter) : Prop where
  length : bloom.bits.length = bloom.numBits
  pos : 0 < bloom.numBits
  bits : ∀ i < bloom.numBits,
    bloom.bits.getD i false = true ↔ ∃ w, T w ∧ i ∈ bloom.positions digest w

variable {bloom : BloomFilter}

theorem lt_of_mem_positions {w : String} {i : Nat} (hpos : 0 < bloom.numBits)
    (h : i ∈ bloom.positions digest w) : i < bloom.numBits := by
  obtain ⟨j, -, rfl⟩ := List.mem_map.mp h
  exact Nat.mod_lt _ hpos

/-- The filters with one number of bits and of hashes. -/
structure SameShape (bloom bloom' : BloomFilter) : Prop where
  numBits : bloom'.numBits = bloom.numBits
  numHashes : bloom'.numHashes = bloom.numHashes

theorem SameShape.trans {a b c : BloomFilter} (h : SameShape a b) (h' : SameShape b c) :
    SameShape a c :=
  ⟨h'.numBits.trans h.numBits, h'.numHashes.trans h.numHashes⟩

variable {T : String → Prop}

theorem Holds.set (h : Holds digest T bloom) (variant : String) :
    Holds digest (fun w => T w ∨ w = variant) (bloom.set digest variant) where
  length := (length_foldl_set _ _).trans h.length
  pos := h.pos
  bits := by
    intro i hi
    refine (getD_foldl_set _ (h.length ▸ hi)).trans ?_
    rw [h.bits i hi]
    constructor
    · rintro (hnew | ⟨w, hw, hiw⟩)
      · exact ⟨variant, .inr rfl, hnew⟩
      · exact ⟨w, .inl hw, hiw⟩
    · rintro ⟨w, hw | rfl, hiw⟩
      · exact .inr ⟨w, hw, hiw⟩
      · exact .inl hiw

theorem Holds.congr {T' : String → Prop} (h : Holds digest T bloom) (he : ∀ w, T w ↔ T' w) :
    Holds digest T' bloom where
  length := h.length
  pos := h.pos
  bits := fun i hi => (h.bits i hi).trans (exists_congr fun w => and_congr_left' (he w))

theorem Holds.foldl_set (h : Holds digest T bloom) (variants : List String) :
    Holds digest (fun w => T w ∨ w ∈ variants) (variants.foldl (BloomFilter.set digest) bloom) ∧
      SameShape bloom (variants.foldl (BloomFilter.set digest) bloom) := by
  induction variants generalizing T bloom with
  | nil => exact ⟨h.congr fun w => by simp, rfl, rfl⟩
  | cons v variants ih =>
    obtain ⟨hall, hshape⟩ := ih (h.set v)
    exact ⟨hall.congr fun w => by simp [or_assoc],
      SameShape.trans (b := bloom.set digest v) ⟨rfl, rfl⟩ hshape⟩

theorem Holds.add (h : Holds digest T bloom) (key : Value) :
    Holds digest (fun w => T w ∨ w ∈ canonicalVariants F key) (bloom.add F digest key) ∧
      SameShape bloom (bloom.add F digest key) := by
  obtain ⟨hall, hshape⟩ := h.foldl_set (canonicalVariants F key)
  exact ⟨⟨hall.length, hall.pos, hall.bits⟩, hshape.numBits, hshape.numHashes⟩

theorem Holds.foldl_add (h : Holds digest T bloom) (keys : List Value) :
    Holds digest (fun w => T w ∨ ∃ key ∈ keys, w ∈ canonicalVariants F key)
        (keys.foldl (BloomFilter.add F digest) bloom) ∧
      SameShape bloom (keys.foldl (BloomFilter.add F digest) bloom) := by
  induction keys generalizing T bloom with
  | nil => exact ⟨h.congr fun w => by simp, rfl, rfl⟩
  | cons key keys ih =>
    obtain ⟨hkey, hshape⟩ := h.add (F := F) key
    obtain ⟨hall, hshape'⟩ := ih hkey
    exact ⟨hall.congr fun w => by simp [or_assoc], hshape.trans hshape'⟩

theorem holds_withCapacity (expectedKeys : Int) (fpRate : Rat) (maxBits : Int) :
    Holds digest (fun _ => False) (.withCapacity log expectedKeys fpRate maxBits) where
  length := length_replicate
  pos := by
    have h8 : (8 : Int) ≤ max 8 (min ⌈-(max 1 expectedKeys : Int) *
        log (min (max fpRate (1 / 10000)) (1 / 2)) / log 2 ^ 2⌉ maxBits) := le_max_left _ _
    simp only [BloomFilter.withCapacity]
    omega
  bits := by
    intro i _
    have hclear : ∀ n, (List.replicate n false).getD i false = false := by
      intro n
      rw [List.getD, getElem?_replicate]
      split <;> rfl
    simp only [BloomFilter.withCapacity]
    rw [hclear]
    simp

variable {rows : List Row} {field : String}

theorem holds_buildBloomFromRows {expectedKeys : Option Int} {maxBits : Int}
    (h : buildBloomFromRows F log digest rows field expectedKeys maxBits = some bloom) :
    Holds digest (fun w => ∃ row ∈ rows, chainRowKey row field ≠ .null ∧
        w ∈ canonicalVariants F (chainRowKey row field)) bloom ∧
      ∀ n, expectedKeys = some n → n ≠ 0 →
        SameShape (.withCapacity log n (1 / 100) maxBits) bloom := by
  unfold buildBloomFromRows at h
  dsimp only at h
  split at h
  · cases h
  obtain rfl := some.inj h
  obtain ⟨hall, hshape⟩ := (holds_withCapacity _ _ _).foldl_add (F := F) _
  refine ⟨hall.congr fun w => by simp [and_assoc], ?_⟩
  rintro n rfl hn
  dsimp only at hshape ⊢
  rw [if_neg hn] at hshape ⊢
  exact hshape

theorem Holds.mightContain_iff (h : Holds digest T bloom) (variant : String) :
    bloom.mightContain digest variant ↔
      ∀ i ∈ bloom.positions digest variant, ∃ w, T w ∧ i ∈ bloom.positions digest w := by
  unfold BloomFilter.mightContain
  rw [List.all_eq_true]
  exact forall₂_congr fun i hi => h.bits i (lt_of_mem_positions h.pos hi)

/-! ## Joins of filtered rows -/

/-- Two values have a text in common. -/
def Shares (F : FloatRepr) (v w : Value) : Prop :=
  ∃ text ∈ canonicalVariants F v, text ∈ canonicalVariants F w

instance (v w : Value) : Decidable (Shares F v w) :=
  inferInstanceAs (Decidable (∃ text ∈ _, _))

theorem contains_of_shares (h : Holds digest T bloom) {key : Value}
    (hkey : ∃ text, T text ∧ text ∈ canonicalVariants F key) :
    bloom.contains F digest key := by
  obtain ⟨text, hT, hmem⟩ := hkey
  unfold BloomFilter.contains
  rw [List.any_eq_true]
  exact ⟨text, hmem, (h.mightContain_iff text).mpr fun i hi => ⟨text, hT, hi⟩⟩

variable {resolver : Bool} {B : Type}

/-- A join with fewer right rows is the same where no row that is joined is missing. -/
theorem attributeJoinLocal_filter (add : B → Charge → Option B) (maxOutput : Option Nat)
    {leftRows rightRows : List Row} {joinFieldLeft joinFieldRight : String} {p : Row → Bool}
    (h : ∀ l ∈ leftRows, leftKey resolver joinFieldLeft l ≠ .null → ∀ r ∈ rightRows,
      matchesKey joinFieldRight (leftKey resolver joinFieldLeft l) r → p r) (budget : B) :
    attributeJoinLocal add maxOutput leftRows (rightRows.filter p) joinFieldLeft joinFieldRight
        resolver none budget =
      attributeJoinLocal add maxOutput leftRows rightRows joinFieldLeft joinFieldRight
        resolver none budget := by
  refine probeRows_congr add maxOutput (fun l hl hnull => ?_) _
  rw [getD_none, getD_none, getD_buildAttributeIndex, getD_buildAttributeIndex, List.filter_filter]
  refine filter_congr fun r hr => ?_
  by_cases hm : matchesKey joinFieldRight (leftKey resolver joinFieldLeft l) r
  · rw [hm, h l hl hnull r hr hm, Bool.and_self]
  rw [Bool.not_eq_true] at hm
  rw [hm, Bool.false_and]

theorem leftKey_eq {l : Row} (h : leftKey resolver field l ≠ .null) :
    leftKey resolver field l = chainRowKey l field := by
  cases resolver with
  | true => rfl
  | false => exact (chainRowKey_of_topKey h).symm

theorem collectKeys_spec {keys keys' : List Hashed} (h : collectKeys field rows keys = some keys')
    (k : Hashed) :
    k ∈ keys' ↔ k ∈ keys ∨
      ∃ row ∈ rows, chainRowKey row field ≠ .null ∧ k = hashableKey (chainRowKey row field) := by
  induction rows generalizing keys with
  | nil =>
    cases h
    simp
  | cons l ls ih =>
    obtain ⟨more, hmore⟩ : ∃ more, (if chainRowKey l field = .null ∨
        hashableKey (chainRowKey l field) ∈ keys then keys
      else hashableKey (chainRowKey l field) :: keys) = more := ⟨_, rfl⟩
    unfold collectKeys at h
    dsimp only at h
    rw [hmore] at h
    split at h
    · cases h
    rw [ih h, ← hmore]
    by_cases hin : chainRowKey l field = .null ∨ hashableKey (chainRowKey l field) ∈ keys
    · rw [if_pos hin]
      rcases hin with hnull | hmem
      · simp [hnull]
      constructor
      · rintro (hk | ⟨row, hrow, hk⟩)
        · exact .inl hk
        · exact .inr ⟨row, mem_cons_of_mem _ hrow, hk⟩
      · rintro (hk | ⟨row, hrow, hne, rfl⟩)
        · exact .inl hk
        · rcases mem_cons.mp hrow with rfl | hrow
          · exact .inl hmem
          · exact .inr ⟨row, hrow, hne, rfl⟩
    · rw [if_neg hin, mem_cons]
      simp only [exists_mem_cons_iff]
      rw [not_or] at hin
      constructor
      · rintro ((rfl | hk) | hk)
        · exact .inr (.inl ⟨hin.1, rfl⟩)
        · exact .inl hk
        · exact .inr (.inr hk)
      · rintro (hk | ⟨-, rfl⟩ | hk)
        · exact .inl (.inr hk)
        · exact .inl (.inl rfl)
        · exact .inr hk

/-- The reduction by the set of left keys keeps the join. -/
theorem semiJoinReduceRight_keeps (add : B → Charge → Option B) (maxOutput : Option Nat)
    (leftRows rightRows : List Row) {joinFieldLeft : String} (joinFieldRight : String)
    (resolver : Bool) (hfield : joinFieldLeft ≠ "") (budget : B) :
    attributeJoinLocal add maxOutput leftRows
        (semiJoinReduceRight leftRows rightRows joinFieldLeft joinFieldRight)
        joinFieldLeft joinFieldRight resolver none budget =
      attributeJoinLocal add maxOutput leftRows rightRows joinFieldLeft joinFieldRight
        resolver none budget := by
  unfold semiJoinReduceRight
  by_cases htrivial : leftRows = [] ∨ rightRows = [] ∨ joinFieldRight = ""
  · rw [if_pos htrivial]
  rw [if_neg htrivial, if_neg hfield]
  cases hk : collectKeys joinFieldLeft leftRows [] with
  | none => rfl
  | some keys =>
    cases keys with
    | nil => rfl
    | cons k keys =>
      refine attributeJoinLocal_filter add maxOutput (fun l hl hnull r hr hm => ?_) budget
      rw [leftKey_eq hnull] at hm hnull
      rw [decide_eq_true_eq, collectKeys_spec hk]
      refine .inr ⟨l, hl, hnull, ?_⟩
      unfold matchesKey at hm
      simp only [Bool.decide_and, Bool.and_eq_true, decide_eq_true_eq] at hm
      exact hm.2

/-! ## Rows that are lost -/

theorem emitMatches_free (l : Row) (rs : List Row) (s : Joining B) :
    ∃ r, emitMatches (fun b _ => some b) none l rs s = some r := by
  induction rs generalizing s with
  | nil => exact ⟨_, rfl⟩
  | cons r rs ih => exact ih _

theorem probeRows_free (keyOf : Row → Value) (index : Index) (leftRows : List Row) (s : Joining B) :
    ∃ s', probeRows (fun b _ => some b) none keyOf index leftRows s = some s' := by
  induction leftRows generalizing s with
  | nil => exact ⟨_, rfl⟩
  | cons l ls ih =>
    unfold probeRows
    rw [bind_eq_bind, bind_some]
    dsimp only
    split
    · exact ih _
    obtain ⟨⟨t, full⟩, ht⟩ := emitMatches_free l (index.getD (hashableKey (keyOf l)) [])
      ⟨s.budget, s.out⟩
    rw [ht, bind_eq_bind, bind_some]
    split
    · exact ⟨_, rfl⟩
    · exact ih _

section Lost

variable {keyOf : Row → Value} {joinFieldRight : String} {leftRows rightRows : List Row}
  {p : Row → Bool}

theorem length_matchesOf_filter (l : Row) :
    (matchesOf keyOf joinFieldRight (rightRows.filter p) l).length ≤
      (matchesOf keyOf joinFieldRight rightRows l).length := by
  unfold matchesOf
  split
  · exact le_rfl
  · rw [length_map, length_map]
    exact ((filter_sublist (l := rightRows)).filter _).length_le

theorem length_matchingRows_filter :
    (matchingRows keyOf joinFieldRight leftRows (rightRows.filter p)).length ≤
      (matchingRows keyOf joinFieldRight leftRows rightRows).length := by
  induction leftRows with
  | nil => exact le_rfl
  | cons l ls ih =>
    rw [matchingRows, matchingRows, flatMap_cons, flatMap_cons, length_append, length_append]
    exact Nat.add_le_add (length_matchesOf_filter l) ih

theorem kept_of_length (h : (matchingRows keyOf joinFieldRight leftRows rightRows).length ≤
      (matchingRows keyOf joinFieldRight leftRows (rightRows.filter p)).length) :
    ∀ l ∈ leftRows, keyOf l ≠ .null → ∀ r ∈ rightRows, matchesKey joinFieldRight (keyOf l) r →
      p r := by
  induction leftRows with
  | nil => exact fun l hl => absurd hl not_mem_nil
  | cons l ls ih =>
    rw [matchingRows, matchingRows, flatMap_cons, flatMap_cons, length_append,
      length_append, ← matchingRows, ← matchingRows] at h
    have hrest : (matchingRows keyOf joinFieldRight ls (rightRows.filter p)).length ≤
        (matchingRows keyOf joinFieldRight ls rightRows).length := length_matchingRows_filter
    have hfirst : (matchesOf keyOf joinFieldRight (rightRows.filter p) l).length ≤
        (matchesOf keyOf joinFieldRight rightRows l).length := length_matchesOf_filter l
    rw [forall_mem_cons]
    refine ⟨fun hnull r hr hm => ?_, ih (by omega)⟩
    have hle : (matchesOf keyOf joinFieldRight rightRows l).length ≤
        (matchesOf keyOf joinFieldRight (rightRows.filter p) l).length := by omega
    unfold matchesOf at hle
    rw [if_neg hnull, if_neg hnull, length_map, length_map] at hle
    have hsub := (filter_sublist (p := p) (l := rightRows)).filter
      (matchesKey joinFieldRight (keyOf l))
    have hmem : r ∈ rightRows.filter (matchesKey joinFieldRight (keyOf l)) :=
      mem_filter.mpr ⟨hr, hm⟩
    rw [← hsub.eq_of_length_le hle] at hmem
    exact (mem_filter.mp (mem_filter.mp hmem).1).2

end Lost

theorem pyRound_le (x : Rat) : (pyRound x : Rat) ≤ x + 1 / 2 := by
  have hfloor := Int.floor_le x
  unfold pyRound
  split_ifs with h1 h2 h3
  · linarith
  · push_cast
    linarith
  · linarith
  · push_cast
    linarith

theorem numHashes_lt (hlog : 0 < log 2 ∧ log 2 ≤ 7 / 10) (expectedKeys : Int) (fpRate : Rat)
    (maxBits : Int) :
    (BloomFilter.withCapacity log expectedKeys fpRate maxBits).numHashes <
      (BloomFilter.withCapacity log expectedKeys fpRate maxBits).numBits := by
  simp only [BloomFilter.withCapacity]
  generalize hm : max (8 : Int) (min _ maxBits) = m
  have hm8 : 8 ≤ m := hm ▸ le_max_left _ _
  have hn : (1 : Rat) ≤ (max 1 expectedKeys : Int) := by exact_mod_cast le_max_left _ _
  have hmq : (8 : Rat) ≤ m := by exact_mod_cast hm8
  have hdiv : (m : Rat) / (max 1 expectedKeys : Int) ≤ m := div_le_self (by linarith) hn
  have hprod : (m : Rat) / (max 1 expectedKeys : Int) * log 2 ≤ m * (7 / 10) :=
    mul_le_mul hdiv hlog.2 hlog.1.le (by linarith)
  have hround := pyRound_le ((m : Rat) / (max 1 expectedKeys : Int) * log 2)
  have hlt : pyRound ((m : Rat) / (max 1 expectedKeys : Int) * log 2) < m := by
    have : (pyRound ((m : Rat) / (max 1 expectedKeys : Int) * log 2) : Rat) < m := by linarith
    exact_mod_cast this
  omega

theorem numHashes_pos (log : Rat → Rat) (expectedKeys : Int) (fpRate : Rat) (maxBits : Int) :
    0 < (BloomFilter.withCapacity log expectedKeys fpRate maxBits).numHashes := by
  simp only [BloomFilter.withCapacity]
  generalize pyRound _ = k
  omega

/-! ## When the filters keep the join -/

section Kept

variable (F : FloatRepr) (log : Rat → Rat) (digest : String → Nat × Nat)
  (leftRows rightRows : List Row) (joinFieldLeft joinFieldRight : String)

/-- Filtering by a filter that is built from the left rows changes no join. -/
def BloomKeeps : Prop :=
  ∀ (expectedKeys : Option Int) (maxBits : Int) (bloom : BloomFilter),
    buildBloomFromRows F log digest leftRows joinFieldLeft expectedKeys maxBits = some bloom →
      ∀ (B : Type) (add : B → Charge → Option B) (maxOutput : Option Nat) (resolver : Bool)
        (budget : B),
        attributeJoinLocal add maxOutput leftRows
            (bloomPrefilter F digest rightRows bloom joinFieldRight) joinFieldLeft joinFieldRight
            resolver none budget =
          attributeJoinLocal add maxOutput leftRows rightRows joinFieldLeft joinFieldRight
            resolver none budget

/-- Reducing the right rows by the keys of the left changes no join. -/
def SemiJoinKeeps : Prop :=
  ∀ (B : Type) (add : B → Charge → Option B) (maxOutput : Option Nat) (resolver : Bool)
    (budget : B),
    attributeJoinLocal add maxOutput leftRows
        (semiJoinReduceRight leftRows rightRows joinFieldLeft joinFieldRight)
        joinFieldLeft joinFieldRight resolver none budget =
      attributeJoinLocal add maxOutput leftRows rightRows joinFieldLeft joinFieldRight
        resolver none budget

/-- Every right row that is joined has a text in common with a key of the left. -/
def Covered : Prop :=
  ∀ l ∈ leftRows, chainRowKey l joinFieldLeft ≠ .null → ∀ r ∈ rightRows,
    matchesKey joinFieldRight (chainRowKey l joinFieldLeft) r →
      ∃ l' ∈ leftRows, chainRowKey l' joinFieldLeft ≠ .null ∧
        Shares F (chainRowKey l' joinFieldLeft) (r.topKey joinFieldRight)

end Kept

section Kept

variable {leftRows rightRows : List Row} {joinFieldLeft joinFieldRight : String}

theorem right_ne_of_matchesKey {key : Value} {r : Row} (h : matchesKey joinFieldRight key r) :
    r.topKey joinFieldRight ≠ .null ∧
      hashableKey (r.topKey joinFieldRight) = hashableKey key := by
  unfold matchesKey at h
  simpa only [Bool.decide_and, Bool.and_eq_true, decide_eq_true_eq] using h

theorem bloomKeeps_of_covered (h : Covered F leftRows rightRows joinFieldLeft joinFieldRight) :
    BloomKeeps F log digest leftRows rightRows joinFieldLeft joinFieldRight := by
  intro expectedKeys maxBits bloom hbloom B add maxOutput resolver budget
  obtain ⟨hholds, -⟩ := holds_buildBloomFromRows hbloom
  refine attributeJoinLocal_filter add maxOutput (fun l hl hnull r hr hm => ?_) budget
  rw [leftKey_eq hnull] at hm hnull
  have hright := (right_ne_of_matchesKey hm).1
  obtain ⟨l', hl', hnull', text, htext, hmem⟩ := h l hl hnull r hr hm
  rw [chainRowKey_of_topKey hright,
    contains_of_shares hholds ⟨text, ⟨l', hl', hnull', htext⟩, hmem⟩, Bool.or_true]

/-- A digest under which the texts of `texts` leave a bit free that all others need. -/
def spreading (texts : List String) (free : Nat) (w : String) : Nat × Nat :=
  if w ∈ texts then (0, 0) else (free, 0)

/-- Under that digest a filter has no value but those with a text in common. -/
theorem not_contains_spreading {T : String → Prop} {texts : List String} {bloom : BloomFilter}
    (hT : ∀ w, T w → w ∈ texts) (h : Holds (spreading texts bloom.numHashes) T bloom)
    (hhash : 0 < bloom.numHashes ∧ bloom.numHashes < bloom.numBits) {key : Value}
    (hkey : ∀ text ∈ canonicalVariants F key, text ∉ texts) :
    ¬ bloom.contains F (spreading texts bloom.numHashes) key := by
  unfold BloomFilter.contains
  rw [List.any_eq_true]
  rintro ⟨text, htext, hcontains⟩
  have hfree : bloom.numHashes ∈ bloom.positions (spreading texts bloom.numHashes) text := by
    refine List.mem_map.mpr ⟨0, mem_range.mpr hhash.1, ?_⟩
    rw [spreading, if_neg (hkey text htext), zero_mul, add_zero, Nat.mod_eq_of_lt hhash.2]
  obtain ⟨w, hw, hpos⟩ := (h.mightContain_iff text).mp hcontains _ hfree
  obtain ⟨i, hi, he⟩ := List.mem_map.mp hpos
  rw [mem_range] at hi
  rw [spreading, if_pos (hT w hw), Nat.zero_or, mul_one, zero_add,
    Nat.mod_eq_of_lt (hi.trans hhash.2)] at he
  omega

theorem buildBloomFromRows_isSome (F : FloatRepr) (log : Rat → Rat) (digest : String → Nat × Nat)
    {l : Row} (hl : l ∈ leftRows) (hnull : chainRowKey l joinFieldLeft ≠ .null)
    (expectedKeys : Option Int) (maxBits : Int) :
    ∃ bloom, buildBloomFromRows F log digest leftRows joinFieldLeft expectedKeys maxBits =
      some bloom := by
  unfold buildBloomFromRows
  rw [if_neg]
  · exact ⟨_, rfl⟩
  · refine ne_nil_of_mem (mem_filter.mpr ⟨List.mem_map_of_mem hl, ?_⟩)
    rwa [decide_eq_true_eq]

theorem covered_of_bloomKeeps (hlog : 0 < log 2 ∧ log 2 ≤ 7 / 10)
    (h : ∀ digest, BloomKeeps F log digest leftRows rightRows joinFieldLeft joinFieldRight) :
    Covered F leftRows rightRows joinFieldLeft joinFieldRight := by
  intro l hl hnull r hr hm
  by_contra hnone
  push Not at hnone
  have hright : r.topKey joinFieldRight ≠ .null := (right_ne_of_matchesKey hm).1
  obtain ⟨empty, hempty⟩ : ∃ empty, BloomFilter.withCapacity log 1 (1 / 100) 1048576 = empty :=
    ⟨_, rfl⟩
  obtain ⟨texts, htexts⟩ : ∃ texts, (leftRows.filter fun l =>
      chainRowKey l joinFieldLeft ≠ .null).flatMap
        (fun l => canonicalVariants F (chainRowKey l joinFieldLeft)) = texts := ⟨_, rfl⟩
  obtain ⟨bloom, hbloom⟩ := buildBloomFromRows_isSome F log (spreading texts empty.numHashes)
    hl hnull (some 1) 1048576
  obtain ⟨hholds, hshape⟩ := holds_buildBloomFromRows hbloom
  obtain ⟨hbits, hhashes⟩ := hshape 1 rfl one_ne_zero
  have hlt := numHashes_lt hlog 1 (1 / 100) 1048576
  have hpos := numHashes_pos log 1 (1 / 100) 1048576
  rw [hempty] at hbits hhashes hlt hpos
  rw [← hhashes] at hholds hbloom
  -- the joins of the rows with and without the filter
  have hsame := h _ (some 1) 1048576 bloom hbloom Unit (fun b _ => some b) none true ()
  obtain ⟨s, hs⟩ := probeRows_free (leftKey true joinFieldLeft)
    (buildAttributeIndex rightRows joinFieldRight) leftRows ⟨(), []⟩
  have hout := probeRows_out (by simp [isFull]) hs
  unfold attributeJoinLocal at hsame
  rw [getD_none, getD_none, hs] at hsame
  have hout' := probeRows_out (by simp [isFull]) hsame
  have hkept := kept_of_length (congrArg List.length (hout.symm.trans hout')).le l hl hnull r hr hm
  rw [chainRowKey_of_topKey hright, decide_eq_false hright, Bool.false_or] at hkept
  refine not_contains_spreading (fun w hw => ?_) hholds ⟨hhashes ▸ hpos, ?_⟩ (fun text ht hin => ?_)
    hkept
  · obtain ⟨l', hl', hnull', hw⟩ := hw
    rw [← htexts, mem_flatMap]
    exact ⟨l', mem_filter.mpr ⟨hl', decide_eq_true hnull'⟩, hw⟩
  · rwa [hhashes, hbits]
  · rw [← htexts, mem_flatMap] at hin
    obtain ⟨l', hl', hw⟩ := hin
    obtain ⟨hl', hnull'⟩ := mem_filter.mp hl'
    exact hnone l' hl' (of_decide_eq_true hnull') ⟨text, hw, ht⟩

/-- The filters of right rows change no join, whatever the digest is, exactly when every right row
    that is joined has a text in common with a key of the left. -/
theorem prefilters_keep_iff (hlog : 0 < log 2 ∧ log 2 ≤ 7 / 10) (hfield : joinFieldLeft ≠ "") :
    ((∀ digest, BloomKeeps F log digest leftRows rightRows joinFieldLeft joinFieldRight) ∧
        SemiJoinKeeps leftRows rightRows joinFieldLeft joinFieldRight) ↔
      Covered F leftRows rightRows joinFieldLeft joinFieldRight := by
  constructor
  · exact fun h => covered_of_bloomKeeps hlog h.1
  · exact fun h => ⟨fun digest => bloomKeeps_of_covered h, fun B add maxOutput resolver budget =>
      semiJoinReduceRight_keeps add maxOutput leftRows rightRows joinFieldRight resolver hfield
        budget⟩

end Kept

/-- A `Decimal` that is not integral, and an equal value that is no `Decimal` or has another
    text. -/
def Apart : Value → Value → Prop
  | .decimal d, .decimal e => d.value.den ≠ 1 ∧ d.text ≠ e.text
  | .decimal d, _ => d.value.den ≠ 1
  | v, .decimal e => e.value.den ≠ 1 ∧ v ≠ .null
  | _, _ => False

/-- The integer that a value is. -/
def whole? : Value → Option Int
  | .bool b => some (if b then 1 else 0)
  | .int n => some n
  | .float q => if q.den = 1 then some q.num else none
  | .decimal d => if d.value.den = 1 then some d.value.num else none
  | _ => none

variable {v : Value}

theorem variant_of_whole {n : Int} (h : whole? v = some n) :
    "i:" ++ intText n ∈ canonicalVariants F v := by
  cases v with
  | null => cases h
  | str s => cases h
  | coll text => cases h
  | bool b =>
    cases h
    cases b <;> exact mem_singleton.mpr (by decide)
  | int m =>
    cases h
    exact mem_singleton_self _
  | float q =>
    dsimp only [whole?] at h
    by_cases hden : q.den = 1
    · rw [if_pos hden] at h
      cases h
      simp [canonicalVariants, hden]
    · rw [if_neg hden] at h
      cases h
  | decimal d =>
    dsimp only [whole?] at h
    by_cases hden : d.value.den = 1
    · rw [if_pos hden] at h
      cases h
      simp [canonicalVariants, hden]
    · rw [if_neg hden] at h
      cases h

theorem whole_of_num {q : Rat} (h : hashableKey v = .num q) (hq : q.den = 1) :
    whole? v = some q.num := by
  cases v with
  | null => cases h
  | str s => cases h
  | coll text => cases h
  | bool b =>
    cases h
    cases b <;> rfl
  | int n =>
    cases h
    rfl
  | float r =>
    cases h
    exact if_pos hq
  | decimal d =>
    cases h
    exact if_pos hq

theorem variant_of_text {s : String} (h : hashableKey v = .text s) :
    "s:" ++ s ∈ canonicalVariants F v := by
  cases v with
  | str t =>
    cases h
    exact mem_singleton_self _
  | coll t =>
    cases h
    exact mem_cons_self
  | null => cases h
  | bool b => cases h
  | int n => cases h
  | float q => cases h
  | decimal d => cases h

/-- A key that is no integer is a float or a `Decimal`. -/
theorem fraction_of_num {q : Rat} (h : hashableKey v = .num q) (hq : q.den ≠ 1) :
    v = .float q ∨ ∃ d, v = .decimal d ∧ d.value = q := by
  cases v with
  | null => cases h
  | str s => cases h
  | coll text => cases h
  | bool b =>
    cases h
    exact absurd (by cases b <;> rfl) hq
  | int n =>
    cases h
    exact absurd rfl hq
  | float r =>
    cases h
    exact .inl rfl
  | decimal d =>
    cases h
    exact .inr ⟨d, rfl, rfl⟩

/-- Equal keys have a text in common, but for a `Decimal` that is not integral. -/
theorem shares_of_equal {w : Value} (hne : v ≠ .null) (h : hashableKey v = hashableKey w)
    (happart : ¬ Apart v w) : Shares F v w := by
  cases hv : hashableKey v with
  | null => exact absurd (hashableKey_eq_null.mp hv) hne
  | text s => exact ⟨_, variant_of_text hv, variant_of_text (h ▸ hv)⟩
  | num q =>
    have hw : hashableKey w = .num q := h ▸ hv
    by_cases hq : q.den = 1
    · exact ⟨_, variant_of_whole (whole_of_num hv hq), variant_of_whole (whole_of_num hw hq)⟩
    rcases fraction_of_num hv hq with rfl | ⟨d, rfl, hd⟩
    · rcases fraction_of_num hw hq with rfl | ⟨e, rfl, he⟩
      · exact ⟨"f:" ++ String.ofList (F.chars q), by simp [canonicalVariants, hq],
          by simp [canonicalVariants, hq]⟩
      · exact absurd ⟨he ▸ hq, hne⟩ happart
    · rcases fraction_of_num hw hq with rfl | ⟨e, rfl, he⟩
      · exact absurd (show d.value.den ≠ 1 from hd ▸ hq) happart
      by_cases htext : d.text = e.text
      · exact ⟨"o:" ++ d.text, mem_cons_self, htext ▸ mem_cons_self⟩
      · exact absurd ⟨hd ▸ hq, htext⟩ happart

/-- A row with one attribute. -/
def keyed (v : Value) : Row := ⟨none, Dict.ofList [("k", v)], none⟩

/-- The logarithms of 2 and of 1/100, as floats. -/
def floatLog (x : Rat) : Rat :=
  if x = 2 then 6931471805599453 / 10000000000000000 else -4605170185988091 / 1000000000000000

/-- Integers, floats, a `Decimal`, texts and lists. -/
theorem mixed_keys_kept :
    let left := [keyed (.int 1), keyed (.str "[1]"), keyed (.float (1 / 2))]
    let right := [keyed (.bool true), keyed (.float 1), keyed (.decimal ⟨false, 10, -1⟩),
      keyed (.coll "[1]"), keyed (.float (1 / 2))]
    (∀ digest, BloomKeeps default floatLog digest left right "k" "k") ∧
      SemiJoinKeeps left right "k" "k" := by
  refine (prefilters_keep_iff (by decide +kernel) (by decide)).mpr ?_
  unfold Covered
  decide +kernel

/-- `repr` of a half, and texts for the other numbers. -/
def halfRepr : FloatRepr where
  chars q := if q = 1 / 2 then ['0', '.', '5'] else fractionChars q
  inj := by
    have hpoint : ∀ q, '.' ∉ fractionChars q := by
      intro q h
      rw [fractionChars, mem_append, mem_cons] at h
      rcases h with h | h | h
      · exact absurd (intChars_digits h) (by decide)
      · exact absurd h (by decide)
      · exact absurd (intChars_digits h) (by decide)
    intro q r h
    by_cases hq : q = 1 / 2
    · by_cases hr : r = 1 / 2
      · exact hq.trans hr.symm
      · rw [if_pos hq, if_neg hr] at h
        exact absurd (h ▸ by decide : '.' ∈ fractionChars r) (hpoint r)
    · by_cases hr : r = 1 / 2
      · rw [if_neg hq, if_pos hr] at h
        exact absurd (h ▸ by decide : '.' ∈ fractionChars q) (hpoint q)
      · rw [if_neg hq, if_neg hr] at h
        exact fractionChars_inj h
  num := by
    intro q c h
    split at h
    · simp only [mem_cons, not_mem_nil, or_false] at h
      rcases h with rfl | rfl | rfl <;> decide
    · exact (default : FloatRepr).num h
  point := by
    intro q
    split
    · exact .inl (by decide)
    · exact (default : FloatRepr).point q

/-- The first two words of SHA-256 of two texts. -/
def sha256Words (text : String) : Nat × Nat :=
  if text = "f:0.5" then (11214333024929007849, 4167021453087936936)
  else (16279206763890929201, 4701407792757368017)

/-- The join finds a half among `Decimal`s for a float; the filter does not. -/
theorem half_lost :
    ¬ ∀ (F : FloatRepr) (log : Rat → Rat) (digest : String → Nat × Nat)
      (leftRows rightRows : List Row) (joinFieldLeft joinFieldRight : String),
      joinFieldLeft ≠ "" →
        BloomKeeps F log digest leftRows rightRows joinFieldLeft joinFieldRight := by
  intro hclaim
  have hkeeps := hclaim halfRepr floatLog sha256Words [keyed (.float (1 / 2))]
    [keyed (.decimal ⟨false, 5, -1⟩)] "k" "k" (by decide) none 1048576
  cases hb : buildBloomFromRows halfRepr floatLog sha256Words [keyed (.float (1 / 2))] "k" none
      1048576 with
  | none => exact absurd hb (by decide +kernel)
  | some bloom =>
    have hempty : (buildBloomFromRows halfRepr floatLog sha256Words [keyed (.float (1 / 2))] "k"
        none 1048576).map (fun bloom => (bloomPrefilter halfRepr sha256Words
          [keyed (.decimal ⟨false, 5, -1⟩)] bloom "k").length) = some 0 := by decide +kernel
    rw [hb, map_some, some_inj, length_eq_zero_iff] at hempty
    have hjoin := hkeeps bloom hb Unit (fun b _ => some b) none true ()
    rw [hempty] at hjoin
    exact absurd (congrArg (Option.map fun s => s.out.length) hjoin) (by decide +kernel)

/-- The filter of some rows has every value that is equal to a key of one of them, but for a
    `Decimal` that is not integral. -/
theorem contains_equal {rows : List Row} {field : String} {expectedKeys : Option Int}
    {maxBits : Int} {bloom : BloomFilter}
    (hbloom : buildBloomFromRows F log digest rows field expectedKeys maxBits = some bloom)
    {row : Row} (hrow : row ∈ rows) {v : Value}
    (heq : hashableKey v = hashableKey (chainRowKey row field)) (hne : v ≠ .null)
    (happart : ¬ Apart v (chainRowKey row field)) : bloom.contains F digest v := by
  obtain ⟨text, hv, hmem⟩ := shares_of_equal (F := F) hne heq happart
  refine contains_of_shares (holds_buildBloomFromRows hbloom).1 ⟨text, ⟨row, hrow, ?_, hmem⟩, hv⟩
  rintro hnull
  rw [hnull] at heq
  exact hne (hashableKey_eq_null.mp heq)

theorem contains_equal_one : ∃ bloom,
    buildBloomFromRows default floatLog sha256Words [keyed (.int 1)] "k" none 1048576 = some bloom ∧
      bloom.contains default sha256Words (.float 1) := by
  obtain ⟨bloom, hbloom⟩ := buildBloomFromRows_isSome default floatLog sha256Words
    (mem_singleton_self _) (by decide : chainRowKey (keyed (.int 1)) "k" ≠ .null) none 1048576
  exact ⟨bloom, hbloom, contains_equal hbloom (mem_singleton_self _) (by decide) (by decide) id⟩

end WebGis.Federation
