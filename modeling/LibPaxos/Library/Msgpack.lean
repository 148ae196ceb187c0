import LibPaxos.Library.Parser
import Mathlib.Algebra.Order.Ring.Nat

/-!
# Msgpack arrays

The part of msgpack that a flat array of unsigned integers and byte strings
uses: what the elements are, what a packer and an unpacker of such arrays have
to do, and a packer and an unpacker that do it, with the shortest of the formats
of msgpack for each number.
-/

namespace LibPaxos.Library

/-! ### Arrays -/

/-- An element of an array: an unsigned integer, a byte string, or an object of
another type. -/
inductive MsgpackItem where
  | uint (value : Nat)
  | bin (bytes : List UInt8)
  | other
  deriving DecidableEq, Repr

/-- An integer of 32 bits, or a byte string whose length has 32 bits. -/
def MsgpackItem.Packable : MsgpackItem → Prop
  | .uint value => value < 2 ^ 32
  | .bin bytes => bytes.length < 2 ^ 32
  | .other => False

/-- The elements of an array that can be packed. -/
def PackableArray (items : List MsgpackItem) : Prop :=
  items.length < 2 ^ 32 ∧ ∀ item ∈ items, item.Packable

/-- What `msgpack_unpack_next` gives back: its code, the elements of the object,
none if it is not an array, and the offset after it. -/
structure UnpackNext where
  rc : Int
  data : List MsgpackItem
  offset : Nat
  deriving DecidableEq, Repr

/-- A packer, which writes the number of elements and then the elements, and an
unpacker. -/
structure Msgpack where
  pack : Nat → List MsgpackItem → List UInt8
  unpackNext : List UInt8 → UnpackNext

/-- An array that is packed is unpacked again, and up to its end; on a part of it
the unpacker asks for more. -/
structure Msgpack.Lawful (codec : Msgpack) : Prop where
  whole : ∀ items rest, PackableArray items →
    0 < (codec.unpackNext (codec.pack items.length items ++ rest)).rc ∧
      (codec.unpackNext (codec.pack items.length items ++ rest)).data =
        items ∧
      (codec.unpackNext (codec.pack items.length items ++ rest)).offset =
        (codec.pack items.length items).length
  part : ∀ items front, PackableArray items →
    front <+: codec.pack items.length items →
    front ≠ codec.pack items.length items →
    (codec.unpackNext front).rc = 0

/-- An array takes at least one byte: else another array would be unpacked from
the same bytes. -/
theorem Msgpack.Lawful.pack_ne_nil {codec : Msgpack} (lawful : codec.Lawful)
    {items : List MsgpackItem} (packable : PackableArray items) :
    codec.pack items.length items ≠ [] := by
  intro isNil
  have other : ∃ others, PackableArray others ∧ others ≠ items := by
    by_cases isEmpty : items = []
    · refine ⟨[.uint 0], ⟨by decide, ?_⟩, ?_⟩
      · intro item member
        rw [List.mem_singleton.mp member]
        exact Nat.two_pow_pos 32
      · rw [isEmpty]
        exact List.cons_ne_nil _ _
    · refine ⟨[], ⟨Nat.two_pow_pos 32, ?_⟩, Ne.symm isEmpty⟩
      intro item member
      exact absurd member List.not_mem_nil
  obtain ⟨others, packableOthers, different⟩ := other
  have first := (lawful.whole items (codec.pack others.length others)
    packable).2.1
  have second := (lawful.whole others [] packableOthers).2.1
  rw [isNil, List.nil_append] at first
  rw [List.append_nil] at second
  exact different (second.symm.trans first)

/-! ### Numbers -/

/-- A number in `width` bytes, the most significant first. -/
def bigEndian : Nat → Nat → List UInt8
  | 0, _ => []
  | width + 1, value =>
      bigEndian width (value / 256) ++ [UInt8.ofNat (value % 256)]

/-- The number in some bytes, the most significant first. -/
def ofBigEndian (bytes : List UInt8) : Nat :=
  bytes.foldl (fun value byte => 256 * value + byte.toNat) 0

theorem length_bigEndian (width : Nat) :
    ∀ value, (bigEndian width value).length = width := by
  induction width with
  | zero =>
      intro value
      rfl
  | succ width inductionHypothesis =>
      intro value
      rw [bigEndian, List.length_append, inductionHypothesis]
      rfl

theorem ofBigEndian_bigEndian (width : Nat) :
    ∀ value, value < 256 ^ width →
      ofBigEndian (bigEndian width value) = value := by
  induction width with
  | zero =>
      intro value range
      rw [Nat.pow_zero, Nat.lt_one_iff] at range
      rw [range]
      rfl
  | succ width inductionHypothesis =>
      intro value range
      have shorter : value / 256 < 256 ^ width := by
        rw [Nat.div_lt_iff_lt_mul (by decide), ← Nat.pow_succ]
        exact range
      have byte : (UInt8.ofNat (value % 256)).toNat = value % 256 := by
        rw [UInt8.toNat_ofNat']
        omega
      have decoded := inductionHypothesis _ shorter
      rw [ofBigEndian] at decoded ⊢
      rw [bigEndian, List.foldl_append, decoded, List.foldl_cons,
        List.foldl_nil, byte]
      omega

/-- Takes a number of `width` bytes. -/
def number (width : Nat) : Parser UInt8 Nat :=
  (Parser.take width).bind fun bytes => Parser.pure (ofBigEndian bytes)

theorem parses_number {width value : Nat} (range : value < 256 ^ width) :
    Parser.Parses (number width) (bigEndian width value) value := by
  have taken := (Parser.parses_take (length_bigEndian width value)).bind_pure
    ofBigEndian
  rwa [ofBigEndian_bigEndian width value range] at taken

/-! ### Formats -/

/-- The formats of an unsigned integer. -/
def packUint (value : Nat) : List UInt8 :=
  if value < 2 ^ 7 then [UInt8.ofNat value]
  else if value < 2 ^ 8 then 0xcc :: bigEndian 1 value
  else if value < 2 ^ 16 then 0xcd :: bigEndian 2 value
  else 0xce :: bigEndian 4 value

/-- The formats of the length of a byte string. -/
def packBinLength (length : Nat) : List UInt8 :=
  if length < 2 ^ 8 then 0xc4 :: bigEndian 1 length
  else if length < 2 ^ 16 then 0xc5 :: bigEndian 2 length
  else 0xc6 :: bigEndian 4 length

/-- The formats of the number of elements of an array. -/
def packArrayLength (count : Nat) : List UInt8 :=
  if count < 2 ^ 4 then [UInt8.ofNat (0x90 + count)]
  else if count < 2 ^ 16 then 0xdc :: bigEndian 2 count
  else 0xdd :: bigEndian 4 count

/-- The bytes of an element; nothing packs an object of another type. -/
def packItem : MsgpackItem → List UInt8
  | .uint value => packUint value
  | .bin bytes => packBinLength bytes.length ++ bytes
  | .other => []

/-- An unsigned integer of `width` bytes, after its first byte. -/
def uintOf (width : Nat) : Parser UInt8 MsgpackItem :=
  (number width).bind fun value => Parser.pure (.uint value)

/-- A byte string, after its first byte. -/
def binOf (width : Nat) : Parser UInt8 MsgpackItem :=
  (number width).bind fun length =>
    (Parser.take length).bind fun bytes => Parser.pure (.bin bytes)

/-- An element, by its first byte. -/
def itemOf (format : UInt8) : Parser UInt8 MsgpackItem :=
  if format.toNat < 2 ^ 7 then Parser.pure (.uint format.toNat)
  else if format = 0xcc then uintOf 1
  else if format = 0xcd then uintOf 2
  else if format = 0xce then uintOf 4
  else if format = 0xc4 then binOf 1
  else if format = 0xc5 then binOf 2
  else if format = 0xc6 then binOf 4
  else Parser.fail

/-- The number of elements of an array, by its first byte. -/
def countOf (format : UInt8) : Parser UInt8 Nat :=
  if 0x90 ≤ format.toNat ∧ format.toNat < 0xa0 then
    Parser.pure (format.toNat - 0x90)
  else if format = 0xdc then number 2
  else if format = 0xdd then number 4
  else Parser.fail

def flatArray : Parser UInt8 (List MsgpackItem) :=
  (Parser.next.bind countOf).bind fun count =>
    Parser.replicate (Parser.next.bind itemOf) count

theorem parses_uintOf {width value : Nat} (range : value < 256 ^ width) :
    Parser.Parses (uintOf width) (bigEndian width value) (.uint value) :=
  (parses_number range).bind_pure MsgpackItem.uint

theorem parses_binOf {width : Nat} {bytes : List UInt8}
    (range : bytes.length < 256 ^ width) :
    Parser.Parses (binOf width) (bigEndian width bytes.length ++ bytes)
      (.bin bytes) :=
  (parses_number range).bind
    ((Parser.parses_take rfl).bind_pure MsgpackItem.bin)

/-- A word that begins with a format. -/
theorem parses_cons {α : Type} {format : UInt8} {word : List UInt8} {value : α}
    (parser : UInt8 → Parser UInt8 α)
    (parses : Parser.Parses (parser format) word value) :
    Parser.Parses (Parser.next.bind parser) (format :: word) value :=
  (Parser.parses_next format).bind parses

theorem parses_uint {value : Nat} (range : value < 2 ^ 32) :
    Parser.Parses (Parser.next.bind itemOf) (packUint value) (.uint value) := by
  unfold packUint
  split
  · next small =>
      apply parses_cons
      have byte : (UInt8.ofNat value).toNat = value := by
        rw [UInt8.toNat_ofNat']
        omega
      rw [itemOf, byte, if_pos small]
      exact Parser.parses_pure _
  · split
    · next small => exact parses_cons itemOf (parses_uintOf small)
    · split
      · next small => exact parses_cons itemOf (parses_uintOf small)
      · exact parses_cons itemOf (parses_uintOf range)

theorem parses_bin {bytes : List UInt8} (range : bytes.length < 2 ^ 32) :
    Parser.Parses (Parser.next.bind itemOf)
      (packBinLength bytes.length ++ bytes) (.bin bytes) := by
  unfold packBinLength
  split
  · next small => exact parses_cons itemOf (parses_binOf small)
  · split
    · next small => exact parses_cons itemOf (parses_binOf small)
    · exact parses_cons itemOf (parses_binOf range)

theorem parses_item {item : MsgpackItem} (packable : item.Packable) :
    Parser.Parses (Parser.next.bind itemOf) (packItem item) item := by
  cases item with
  | uint value => exact parses_uint packable
  | bin bytes => exact parses_bin packable
  | other => exact packable.elim

theorem parses_count {count : Nat} (range : count < 2 ^ 32) :
    Parser.Parses (Parser.next.bind countOf) (packArrayLength count) count := by
  unfold packArrayLength
  split
  · next small =>
      apply parses_cons
      have byte : (UInt8.ofNat (0x90 + count)).toNat = 0x90 + count := by
        rw [UInt8.toNat_ofNat']
        omega
      rw [countOf, byte, if_pos (by omega), Nat.add_sub_cancel_left]
      exact Parser.parses_pure _
  · split
    · next small => exact parses_cons countOf (parses_number small)
    · exact parses_cons countOf (parses_number range)

theorem parses_array {items : List MsgpackItem}
    (packable : PackableArray items) :
    Parser.Parses flatArray
      (packArrayLength items.length ++ items.flatMap packItem) items := by
  apply (parses_count packable.1).bind
  apply Parser.parses_replicate
  intro item member
  exact parses_item (packable.2 item member)

/-- The packer and the unpacker of flat arrays.  The codes are
`MSGPACK_UNPACK_SUCCESS`, `MSGPACK_UNPACK_CONTINUE` and
`MSGPACK_UNPACK_PARSE_ERROR`. -/
def Msgpack.flat : Msgpack where
  pack count items := packArrayLength count ++ items.flatMap packItem
  unpackNext buffer :=
    match flatArray buffer with
    | .done items rest => ⟨2, items, buffer.length - rest.length⟩
    | .more => ⟨0, [], 0⟩
    | .fail => ⟨-1, [], 0⟩

theorem Msgpack.flat_lawful : Msgpack.flat.Lawful where
  whole items rest packable := by
    have parsed := (parses_array packable).whole rest
    simp only [Msgpack.flat, parsed, List.length_append]
    exact ⟨by decide, trivial, by omega⟩
  part items front packable isPart proper := by
    have parsed := (parses_array packable).part front isPart proper
    simp only [Msgpack.flat, parsed]

end LibPaxos.Library
