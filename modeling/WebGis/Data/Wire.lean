/-
  Readers of a byte stream of tagged fields: varints, zigzag numbers, fields with a number and a
  payload, and messages as lists of fields.

  `Reads` says that a reader takes exactly the given bytes, whatever follows, and `Spells` that
  bytes are one reading after the other. An encoder is right once its bytes spell its fields:
  `readAll_of_spells` then gives the message back.
-/
import Mathlib

namespace Data.Wire

open List

abbrev Bytes : Type := List UInt8

/-! ## Numbers -/

/-- Groups of seven bits, the lowest first, each byte but the last with its high bit set. -/
def readVarint : Bytes → Option (Nat × Bytes)
  | [] => none
  | b :: bytes =>
    if b.toNat < 128 then some (b.toNat, bytes)
    else (readVarint bytes).map fun (n, rest) => (b.toNat - 128 + 128 * n, rest)

/-- The signed number of a zigzag code. -/
def unzigzag (n : Nat) : Int := if n % 2 = 0 then (n / 2 : Nat) else -((n / 2 : Nat) : Int) - 1

/-- A number from its bytes, the lowest first. -/
def ofLittleEndian : Bytes → Nat
  | [] => 0
  | b :: bytes => b.toNat + 256 * ofLittleEndian bytes

/-- A number of 64 bits as a signed one. -/
def ofTwosComplement (n : Nat) : Int := if n < 2 ^ 63 then n else (n : Int) - 2 ^ 64

/-! ## Fields -/

/-- What a field carries. -/
inductive Payload where
  | varint (n : Nat)
  | fixed64 (bytes : Bytes)
  | chunk (bytes : Bytes)
  | fixed32 (bytes : Bytes)
  deriving DecidableEq

/-- The number of a field, and what it carries. -/
abbrev Field : Type := Nat × Payload

/-- The next `n` bytes. -/
def readBytes (n : Nat) (bytes : Bytes) : Option (Bytes × Bytes) :=
  if n ≤ bytes.length then some (bytes.take n, bytes.drop n) else none

/-- A payload of a wire type. -/
def readPayload (wire : Nat) (bytes : Bytes) : Option (Payload × Bytes) :=
  match wire with
  | 0 => (readVarint bytes).map fun (n, rest) => (.varint n, rest)
  | 1 => (readBytes 8 bytes).map fun (bs, rest) => (.fixed64 bs, rest)
  | 2 => do
      let (n, rest) ← readVarint bytes
      (readBytes n rest).map fun (bs, rest) => (.chunk bs, rest)
  | 5 => (readBytes 4 bytes).map fun (bs, rest) => (.fixed32 bs, rest)
  | _ => none

def readField (bytes : Bytes) : Option (Field × Bytes) := do
  let (tag, rest) ← readVarint bytes
  (readPayload (tag % 8) rest).map fun (p, rest) => ((tag / 8, p), rest)

/-! ## Messages -/

section

variable {α : Type}

/-- One reading after the other, at most `fuel` of them. -/
def readMany (read : Bytes → Option (α × Bytes)) : Nat → Bytes → Option (List α)
  | _, [] => some []
  | 0, _ :: _ => none
  | fuel + 1, b :: bytes => do
      let (a, rest) ← read (b :: bytes)
      (readMany read fuel rest).map (a :: ·)

/-- All the bytes, one reading after the other. -/
def readAll (read : Bytes → Option (α × Bytes)) (bytes : Bytes) : Option (List α) :=
  readMany read bytes.length bytes

/-- The reader takes these bytes for the value, and leaves what follows them. -/
def Reads (read : Bytes → Option (α × Bytes)) (bytes : Bytes) (a : α) : Prop :=
  bytes ≠ [] ∧ ∀ rest, read (bytes ++ rest) = some (a, rest)

/-- The bytes are one reading after the other. -/
inductive Spells (read : Bytes → Option (α × Bytes)) : Bytes → List α → Prop where
  | nil : Spells read [] []
  | cons {bytes rest : Bytes} {a : α} {as : List α} : Reads read bytes a → Spells read rest as →
      Spells read (bytes ++ rest) (a :: as)

variable {read : Bytes → Option (α × Bytes)} {bytes bytes' : Bytes} {a : α} {as as' : List α}

theorem Reads.spells (h : Reads read bytes a) : Spells read bytes [a] := by
  have hcons := Spells.cons h .nil
  rwa [append_nil] at hcons

theorem Spells.append (h : Spells read bytes as) (h' : Spells read bytes' as') :
    Spells read (bytes ++ bytes') (as ++ as') := by
  induction h with
  | nil => exact h'
  | cons hreads _ ih =>
    rw [append_assoc, cons_append]
    exact .cons hreads ih

theorem spells_flatMap {β : Type} {f : β → Bytes} {g : β → List α} (xs : List β)
    (h : ∀ x ∈ xs, Spells read (f x) (g x)) : Spells read (xs.flatMap f) (xs.flatMap g) := by
  induction xs with
  | nil => exact .nil
  | cons x xs ih =>
    rw [flatMap_cons, flatMap_cons]
    exact (h x mem_cons_self).append (ih fun y hy => h y (mem_cons_of_mem x hy))

theorem spells_map {β : Type} {f : β → Bytes} {g : β → α} (xs : List β)
    (h : ∀ x ∈ xs, Reads read (f x) (g x)) : Spells read (xs.flatMap f) (xs.map g) := by
  have hmany := spells_flatMap (g := fun x => [g x]) xs fun x hx => (h x hx).spells
  rwa [← map_eq_flatMap] at hmany

theorem readMany_of_spells (h : Spells read bytes as) :
    ∀ fuel, bytes.length ≤ fuel → readMany read fuel bytes = some as := by
  induction h with
  | nil =>
    intro fuel _
    cases fuel <;> rfl
  | @cons bytes rest a as hreads _ ih =>
    intro fuel hfuel
    obtain ⟨hne, hread⟩ := hreads
    have hlen : 0 < bytes.length := length_pos_of_ne_nil hne
    rw [length_append] at hfuel
    obtain ⟨fuel, rfl⟩ : ∃ k, fuel = k + 1 := ⟨fuel - 1, by omega⟩
    obtain ⟨b, tail, rfl⟩ := exists_cons_of_ne_nil hne
    have hmany := ih fuel (by omega)
    rw [cons_append, readMany, ← cons_append, hread rest]
    change (readMany read fuel rest).map (a :: ·) = _
    rw [hmany]
    rfl

/-- What the bytes spell is what is read. -/
theorem readAll_of_spells (h : Spells read bytes as) : readAll read bytes = some as :=
  readMany_of_spells h bytes.length (Nat.le_refl _)

end

/-! ## Encodings of fields -/

section

variable {tag bytes body : Bytes} {num n : Nat}

theorem readBytes_append (body rest : Bytes) :
    readBytes body.length (body ++ rest) = some (body, rest) := by
  unfold readBytes
  rw [if_pos (by simp), take_left, drop_left]

theorem reads_payload {wire : Nat} {p : Payload} (htag : Reads readVarint tag (num * 8 + wire))
    (hwire : wire < 8) (hp : ∀ rest, readPayload wire (bytes ++ rest) = some (p, rest)) :
    Reads readField (tag ++ bytes) (num, p) := by
  refine ⟨fun h => htag.1 (append_eq_nil_iff.mp h).1, fun rest => ?_⟩
  have hmod : (num * 8 + wire) % 8 = wire := by omega
  have hdiv : (num * 8 + wire) / 8 = num := by omega
  unfold readField
  rw [append_assoc, htag.2 (bytes ++ rest)]
  change (readPayload ((num * 8 + wire) % 8) (bytes ++ rest)).map _ = _
  rw [hmod, hdiv, hp rest]
  rfl

theorem reads_varint (htag : Reads readVarint tag (num * 8 + 0)) (hn : Reads readVarint bytes n) :
    Reads readField (tag ++ bytes) (num, .varint n) := by
  refine reads_payload htag (by decide) fun rest => ?_
  unfold readPayload
  rw [hn.2 rest]
  rfl

theorem reads_fixed64 (htag : Reads readVarint tag (num * 8 + 1)) (hlen : body.length = 8) :
    Reads readField (tag ++ body) (num, .fixed64 body) := by
  refine reads_payload htag (by decide) fun rest => ?_
  unfold readPayload
  rw [← hlen, readBytes_append]
  rfl

theorem reads_chunk (htag : Reads readVarint tag (num * 8 + 2))
    (hlen : Reads readVarint bytes body.length) :
    Reads readField (tag ++ bytes ++ body) (num, .chunk body) := by
  rw [append_assoc]
  refine reads_payload htag (by decide) fun rest => ?_
  unfold readPayload
  rw [append_assoc, hlen.2 (body ++ rest)]
  change (readBytes body.length (body ++ rest)).map _ = _
  rw [readBytes_append]
  rfl

end

/-! ## What a message says -/

/-- The chunks of a field, in order. -/
def chunks (num : Nat) (fields : List Field) : List Bytes :=
  fields.filterMap fun
    | (k, .chunk bytes) => if k = num then some bytes else none
    | _ => none

/-- The numbers of a field, in order. -/
def varints (num : Nat) (fields : List Field) : List Nat :=
  fields.filterMap fun
    | (k, .varint n) => if k = num then some n else none
    | _ => none

/-- A text. -/
def ofUtf8 (bytes : Bytes) : Option String := String.fromUTF8? ⟨bytes.toArray⟩

theorem ofUtf8_toUTF8 (s : String) : ofUtf8 s.toUTF8.data.toList = some s := by
  unfold ofUtf8
  rw [Array.toArray_toList]
  change (if h : s.toByteArray.IsValidUTF8 then some (String.fromUTF8 s.toByteArray h) else none) = _
  rw [dif_pos s.isValidUTF8]
  rfl

end Data.Wire
