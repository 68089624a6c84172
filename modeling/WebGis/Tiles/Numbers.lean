/-
  The numbers and the fields that the writer spells, as the reader takes them.
-/
import WebGis.Tiles.Encode

namespace WebGis.Tiles

open Data Wire List UInt8

/-! ## Numbers -/

theorem low_seven (n : Nat) : n &&& 0x7F = n % 128 := Nat.and_two_pow_sub_one_eq_mod n 7

theorem or_high_bit {n : Nat} (h : n < 128) : n ||| 0x80 = n + 128 := by
  have hor := Nat.two_pow_add_eq_or_of_lt (i := 7) (b := n) h 1
  rw [Nat.mul_one] at hor
  rw [Nat.or_comm, ← hor, Nat.add_comm]

theorem varint_small {n : Nat} (h : n < 128) : varint n = [ofNat n] := by
  have hshift : n >>> 7 = 0 := by rw [Nat.shiftRight_eq_div_pow]; omega
  rw [varint, hshift, if_neg (Nat.lt_irrefl 0), low_seven, Nat.mod_eq_of_lt h]

theorem varint_large {n : Nat} (h : ¬ n < 128) :
    varint n = ofNat (n % 128 + 128) :: varint (n / 128) := by
  have hshift : n >>> 7 = n / 128 := by rw [Nat.shiftRight_eq_div_pow]
  have hmod : n % 128 < 128 := Nat.mod_lt n (by decide)
  rw [varint, hshift, if_pos (by omega), low_seven, or_high_bit hmod]

theorem toNat_ofNat {n : Nat} (h : n < 256) : (ofNat n).toNat = n := by
  rw [toNat_ofNat']
  exact Nat.mod_eq_of_lt h

theorem readVarint_varint (n : Nat) (rest : Bytes) :
    readVarint (varint n ++ rest) = some (n, rest) := by
  induction n using Nat.strongRecOn with
  | ind n ih =>
    by_cases hsmall : n < 128
    · rw [varint_small hsmall, singleton_append, readVarint, toNat_ofNat (by omega), if_pos hsmall]
    have hbyte : (ofNat (n % 128 + 128)).toNat = n % 128 + 128 := toNat_ofNat (by omega)
    rw [varint_large hsmall, cons_append, readVarint, hbyte, if_neg (by omega),
      ih (n / 128) (by omega)]
    have hn : n % 128 + 128 - 128 + 128 * (n / 128) = n := by omega
    change some (n % 128 + 128 - 128 + 128 * (n / 128), rest) = some (n, rest)
    rw [hn]

theorem varint_ne_nil (n : Nat) : varint n ≠ [] := by
  rw [varint]
  split <;> simp

theorem reads_number (n : Nat) : Reads readVarint (varint n) n :=
  ⟨varint_ne_nil n, readVarint_varint n⟩

theorem readAll_numbers (ns : List Nat) : readAll readVarint (ns.flatMap varint) = some ns := by
  have hspells := spells_map (g := id) ns fun n _ => reads_number n
  rw [map_id] at hspells
  exact readAll_of_spells hspells

theorem zigzag32_nonneg {n : Int} (h0 : 0 ≤ n) (h1 : n < 2 ^ 31) : zigzag32 n = (2 * n).toNat := by
  have hsign : n >>> (31 : Nat) = 0 := by
    rw [Int.shiftRight_eq_div_pow]
    exact Int.ediv_eq_zero_of_lt h0 (by omega)
  have hdouble : n <<< (1 : Nat) = 2 * n := by rw [Int.shiftLeft_eq]; omega
  obtain ⟨m, hm⟩ := Int.eq_ofNat_of_zero_le (show 0 ≤ 2 * n by omega)
  have hxor : Int.xor (2 * n) 0 = 2 * n := by
    rw [hm]
    change ((m ^^^ 0 : Nat) : Int) = m
    rw [Nat.xor_zero]
  unfold zigzag32
  rw [hsign, hdouble, hxor]
  omega

theorem zigzag32_neg {n : Int} (h0 : n < 0) (h1 : -2 ^ 31 ≤ n) :
    zigzag32 n = (-2 * n - 1).toNat := by
  have hsign : n >>> (31 : Nat) = -1 := by
    rw [Int.shiftRight_eq_div_pow]
    omega
  have hdouble : n <<< (1 : Nat) = 2 * n := by rw [Int.shiftLeft_eq]; omega
  obtain ⟨m, hm⟩ := Int.eq_negSucc_of_lt_zero (show 2 * n < 0 by omega)
  have hxor : Int.xor (2 * n) (-1) = -2 * n - 1 := by
    rw [hm]
    change ((m ^^^ 0 : Nat) : Int) = _
    rw [Nat.xor_zero]
    omega
  unfold zigzag32
  rw [hsign, hdouble, hxor]
  omega

theorem unzigzag_zigzag32 {n : Int} (h0 : -2 ^ 31 ≤ n) (h1 : n < 2 ^ 31) :
    unzigzag (zigzag32 n) = n := by
  unfold unzigzag
  by_cases hn : 0 ≤ n
  · rw [zigzag32_nonneg hn h1, if_pos (by omega)]
    omega
  · rw [zigzag32_neg (by omega) h0, if_neg (by omega)]
    omega

theorem littleEndian (k n : Nat) :
    ofLittleEndian ((List.range k).map fun i => ofNat (n / 256 ^ i)) = n % 256 ^ k := by
  induction k generalizing n with
  | zero => simp [ofLittleEndian, Nat.mod_one]
  | succ k ih =>
    have htail : (List.range k).map ((fun i => ofNat (n / 256 ^ i)) ∘ Nat.succ) =
        (List.range k).map fun i => ofNat (n / 256 / 256 ^ i) := by
      refine map_congr_left fun i _ => ?_
      rw [Function.comp_apply, Nat.div_div_eq_div_mul, Nat.pow_succ']
    rw [range_succ_eq_map, map_cons, map_map, htail, ofLittleEndian, ih, Nat.pow_zero, Nat.div_one,
      toNat_ofNat', Nat.pow_succ' (m := 256), Nat.mod_mul (x := n) (a := 256)]

theorem ofLittleEndian_doubleBytes (bits : BitVec 64) :
    ofLittleEndian (doubleBytes bits) = bits.toNat := by
  have hlt : bits.toNat < 256 ^ 8 := bits.isLt
  unfold doubleBytes
  rw [littleEndian, Nat.mod_eq_of_lt hlt]

/-! ## Fields -/

theorem field_eq {num wire : Nat} (h : wire < 8) : field num wire = varint (num * 8 + wire) := by
  have hor := Nat.two_pow_add_eq_or_of_lt (i := 3) (b := wire) h num
  unfold field
  rw [Nat.shiftLeft_eq, Nat.mul_comm num, ← hor, Nat.mul_comm]

theorem reads_tag {num wire : Nat} (h : wire < 8) :
    Reads readVarint (field num wire) (num * 8 + wire) := by
  rw [field_eq h]
  exact reads_number _

theorem reads_varintField (num n : Nat) :
    Reads readField (field num wireVarint ++ varint n) (num, .varint n) :=
  reads_varint (reads_tag (by decide)) (reads_number n)

theorem reads_doubleField (num : Nat) (bits : BitVec 64) :
    Reads readField (field num wireDouble ++ doubleBytes bits) (num, .fixed64 (doubleBytes bits)) :=
  reads_fixed64 (reads_tag (by decide)) (by simp [doubleBytes])

theorem reads_chunkField (num : Nat) (body : Bytes) :
    Reads readField (field num wireBytes ++ varint body.length ++ body) (num, .chunk body) :=
  reads_chunk (reads_tag (by decide)) (reads_number body.length)

/-! ## Values -/

/-- What a value is in a tile. An integer beyond 64 bits has no type there: its digits are kept. -/
def Value.carried : Value → Option Decoded
  | .bool b => some (.bool b)
  | .int n => if n < -(2 ^ 63) ∨ 2 ^ 63 ≤ n then some (.string (toString n)) else some (.int n)
  | .float bits => some (.double bits.toNat)
  | .str s => some (.string s)
  | .other => none

theorem decodeValue_of_reads {bytes : Bytes} {f : Field} (h : Reads readField bytes f)
    (hknown : f.1 ∈ [1, 2, 3, 4, 5, 6, 7]) {d : Option Decoded} (hd : (match f with
      | (1, .chunk s) => (ofUtf8 s).map .string
      | (2, .fixed32 bs) => some (.single (ofLittleEndian bs))
      | (3, .fixed64 bs) => some (.double (ofLittleEndian bs))
      | (4, .varint n) => some (.int (ofTwosComplement n))
      | (5, .varint n) => some (.int n)
      | (6, .varint n) => some (.int (unzigzag n))
      | (7, .varint n) => some (.bool (n ≠ 0))
      | _ => none) = d) : decodeValue bytes = d := by
  have hfilter : [f].filter (fun f => decide (f.1 ∈ [1, 2, 3, 4, 5, 6, 7])) = [f] :=
    filter_eq_self.mpr fun g hg => by
      rw [mem_singleton.mp hg]
      exact decide_eq_true hknown
  unfold decodeValue
  rw [readAll_of_spells h.spells]
  change (([f].filter fun f => decide (f.1 ∈ [1, 2, 3, 4, 5, 6, 7])).getLast?).bind _ = d
  rw [hfilter]
  exact hd

theorem decode_text (s : String) :
    decodeValue (field 1 wireBytes ++ varint (utf8 s).length ++ utf8 s) = some (.string s) := by
  refine decodeValue_of_reads (reads_chunkField 1 (utf8 s)) (by simp) ?_
  change (ofUtf8 (utf8 s)).map Decoded.string = some (.string s)
  rw [show ofUtf8 (utf8 s) = some s from ofUtf8_toUTF8 s]
  rfl

theorem decode_int {n : Int} (h : ¬ (n < -(2 ^ 63) ∨ 2 ^ 63 ≤ n)) :
    decodeValue (field 4 wireVarint ++ varint (if 0 ≤ n then n else n + 2 ^ 64).toNat) =
      some (.int n) := by
  refine decodeValue_of_reads (reads_varintField 4 _) (by simp) ?_
  have hsigned : ofTwosComplement (if 0 ≤ n then n else n + 2 ^ 64).toNat = n := by
    unfold ofTwosComplement
    by_cases hn : 0 ≤ n
    · rw [if_pos hn, if_pos (by omega)]
      omega
    · rw [if_neg hn, if_neg (by omega)]
      omega
  change some (Decoded.int (ofTwosComplement _)) = _
  rw [hsigned]

theorem decode_encodeValue {v : Value} {bytes : Bytes} (h : encodeValue v = some bytes) :
    decodeValue bytes = v.carried := by
  cases v with
  | bool b =>
    cases h
    refine decodeValue_of_reads (reads_varintField 7 _) (by simp) ?_
    cases b <;> rfl
  | int n =>
    change (if n < -(2 ^ 63) ∨ 2 ^ 63 ≤ n then _ else _) = some bytes at h
    change _ = if n < -(2 ^ 63) ∨ 2 ^ 63 ≤ n then _ else _
    by_cases hn : n < -(2 ^ 63) ∨ 2 ^ 63 ≤ n
    · rw [if_pos hn] at h ⊢
      cases h
      exact decode_text (toString n)
    · rw [if_neg hn] at h ⊢
      cases h
      exact decode_int hn
  | float bits =>
    cases h
    refine decodeValue_of_reads (reads_doubleField 3 bits) (by simp) ?_
    change some (Decoded.double (ofLittleEndian (doubleBytes bits))) = _
    rw [ofLittleEndian_doubleBytes]
    rfl
  | str s =>
    cases h
    exact decode_text s
  | other => cases h

theorem carried_eq_none {v : Value} : encodeValue v = none ↔ v.carried = none := by
  cases v with
  | int n =>
    change (if n < -(2 ^ 63) ∨ 2 ^ 63 ≤ n then some _ else some _) = none ↔
      (if n < -(2 ^ 63) ∨ 2 ^ 63 ≤ n then some _ else some _) = none
    split <;> simp
  | bool b => simp [encodeValue, Value.carried]
  | float bits => simp [encodeValue, Value.carried]
  | str s => simp [encodeValue, Value.carried]
  | other => simp [encodeValue, Value.carried]

end WebGis.Tiles
