import LibPaxos.Library.Msgpack
import LibPaxos.Storage

/-!
# Records as bytes

`storage_utils.c` turns a record into a buffer for storage on disk and back: the
image of the struct, and after it the entries of its arrays.  The image holds
the addresses of the arrays as they were; only its numbers mean anything later.

The copy of a value starts at the address of its `paxos_value_val` field, not at
the address that the field holds.  What lies there is the pointer itself and
whatever follows it, which the program does not determine, so the encoder takes
it as a parameter.
-/

namespace LibPaxos

open LibPaxos.Library
open LibPaxos.Library.Parser

/-- The numbers in the image of a `struct paxos_accepted`. -/
structure AcceptedImage where
  src : Nat
  iid : Nat
  ballot0 : Nat
  valueBallot0 : Nat
  nAids : Nat
  value0Len : Nat
  deriving DecidableEq, Repr

def sizeofAccepted : Nat := 72

/-- A buffer: the bytes asked from `malloc`, and what is written to them. -/
structure Buffer where
  allocated : Nat
  image : AcceptedImage
  body : List UInt8
  deriving DecidableEq, Repr

/-- The number of bytes written. -/
def Buffer.written (buffer : Buffer) : Nat :=
  sizeofAccepted + buffer.body.length

/-- A record read back.  `value_0` is left out: its bytes are not stored. -/
structure Restored where
  src : Nat
  iid : Nat
  ballot0 : Nat
  valueBallot0 : Nat
  nAids : Nat
  aids : List Nat
  values : Option (List PaxosValue)
  ballots : List Nat
  valueBallots : List Nat
  deriving DecidableEq, Repr

/-- A `uint32_t` in memory. -/
def wordBytes (word : Nat) : List UInt8 :=
  (bigEndian 4 word).reverse

/-- A value in a buffer: its length and its bytes. -/
def valueBytes (value : PaxosValue) : List UInt8 :=
  wordBytes value.len ++ value.bytes

/-- Read `n` entries of an array, which has to have them. -/
def arrayEntries {α : Type} (n : Nat) (array : List α) : Option (List α) :=
  if n ≤ array.length then some (array.take n) else none

/-- Read `n` words of an array, or zeroes when there is no array. -/
def arrayWords (n : Nat) (array : List Nat) : Option (List Nat) :=
  if array = [] then some (List.replicate n 0) else arrayEntries n array

/-- The memory from the `paxos_value_val` field of an entry of `values` on. -/
abbrev FieldMemory : Type :=
  Nat → Nat → UInt8

/-- What the encoder copies for each value: as many bytes as it has, from its
field on. -/
def copiedValues (found : FieldMemory) (values : List PaxosValue) :
    List PaxosValue :=
  values.mapIdx fun i value => ⟨(List.range value.len).map (found i)⟩

/-- The entries of `values` that the loops over `n_aids` read. -/
def PaxosAccepted.entryValues (acc : PaxosAccepted) :
    Option (List PaxosValue) :=
  if acc.nAids = 0 then some [] else acc.values.bind (arrayEntries acc.nAids)

/-- `paxos_accepted_to_buffer`.  It has no result when it reads an entry that
an array does not have; the loops do not check that `values` is there. -/
def paxosAcceptedToBuffer (found : FieldMemory) (acc : PaxosAccepted) :
    Option Buffer := do
  let values ← acc.entryValues
  let len :=
    acc.nAids * 4 + (values.map fun value => value.len + 4).sum
  let aids ← arrayEntries acc.nAids acc.aids
  let ballots ← arrayWords acc.nAids acc.ballots
  let valueBallots ← arrayWords acc.nAids acc.valueBallots
  some
    { allocated := sizeofAccepted + len + 4 * acc.nAids * 2
      image := ⟨acc.src, acc.iid, acc.ballot0, acc.valueBallot0, acc.nAids,
        acc.value0.len⟩
      body :=
        aids.flatMap wordBytes ++
          ((copiedValues found values).flatMap valueBytes ++
            (ballots.flatMap wordBytes ++ valueBallots.flatMap wordBytes)) }

def readWord : Parser UInt8 Nat :=
  (take 4).bind fun bytes => pure (ofBigEndian bytes.reverse)

def readValue : Parser UInt8 PaxosValue :=
  readWord.bind fun len => (take len).bind fun bytes => pure ⟨bytes⟩

/-- The arrays of a record, read with a moving pointer. -/
def readArrays (image : AcceptedImage) : Parser UInt8 Restored :=
  (replicate readWord image.nAids).bind fun aids =>
    (replicate readValue image.nAids).bind fun values =>
      (replicate readWord image.nAids).bind fun ballots =>
        (replicate readWord image.nAids).bind fun valueBallots =>
          pure ⟨image.src, image.iid, image.ballot0, image.valueBallot0,
            image.nAids, aids, some values, ballots, valueBallots⟩

/-- `paxos_accepted_from_buffer`.  It has no result when it reads past the
buffer.  Without entries the old addresses stay in the record, and there is no
array behind them. -/
def paxosAcceptedFromBuffer (buffer : Buffer) : Option Restored :=
  let image := buffer.image
  if 0 < image.nAids then
    match readArrays image buffer.body with
    | .done out _ => some out
    | _ => none
  else
    some ⟨image.src, image.iid, image.ballot0, image.valueBallot0, 0,
      [], none, [], []⟩

/-! ### The buffer of a record -/

@[simp]
theorem length_wordBytes (word : Nat) : (wordBytes word).length = 4 := by
  rw [wordBytes, List.length_reverse, length_bigEndian]

theorem length_flatMap_wordBytes (words : List Nat) :
    (words.flatMap wordBytes).length = 4 * words.length := by
  induction words with
  | nil => rfl
  | cons first rest inductionHypothesis =>
      rw [List.flatMap_cons, List.length_append, length_wordBytes,
        inductionHypothesis, List.length_cons]
      omega

theorem length_flatMap_valueBytes (values : List PaxosValue) :
    (values.flatMap valueBytes).length =
      (values.map fun value => value.len + 4).sum := by
  induction values with
  | nil => rfl
  | cons first rest inductionHypothesis =>
      rw [List.flatMap_cons, List.length_append, inductionHypothesis,
        valueBytes, List.length_append, length_wordBytes, List.map_cons,
        List.sum_cons, PaxosValue.len]
      omega

@[simp]
theorem length_copiedValues (found : FieldMemory)
    (values : List PaxosValue) :
    (copiedValues found values).length = values.length :=
  List.length_mapIdx

/-- The copies are as long as the values. -/
theorem map_len_copiedValues (found : FieldMemory)
    (values : List PaxosValue) :
    (copiedValues found values).map PaxosValue.len =
      values.map PaxosValue.len := by
  apply List.ext_getElem?
  intro i
  simp only [copiedValues, List.getElem?_map, List.getElem?_mapIdx,
    Option.map_map]
  congr 1
  funext value
  simp [PaxosValue.len]

theorem parses_readWord {word : Nat} (bound : word < 2 ^ 32) :
    Parses readWord (wordBytes word) word := by
  have taken := (parses_take (length_wordBytes word)).bind_pure
    fun bytes => ofBigEndian bytes.reverse
  rwa [wordBytes, List.reverse_reverse,
    ofBigEndian_bigEndian 4 word (by omega)] at taken

theorem parses_readValue {value : PaxosValue} (bound : value.len < 2 ^ 32) :
    Parses readValue (valueBytes value) value :=
  (parses_readWord bound).bind
    ((parses_take rfl).bind_pure PaxosValue.mk)

/-- The records that an acceptor can store: at least one entry, arrays of that
many entries, `values` possibly missing, words of 32 bits and lengths that are
an `int`. -/
structure PaxosAccepted.Storable (acc : PaxosAccepted) : Prop
    extends acc.ArraysConsistent where
  positive : 1 ≤ acc.nAids
  aids_bound : ∀ aid ∈ acc.aids, aid < 2 ^ 32
  ballots_bound : ∀ ballot ∈ acc.ballots, ballot < 2 ^ 32
  valueBallots_bound : ∀ ballot ∈ acc.valueBallots, ballot < 2 ^ 32
  values_bound : ∀ array, acc.values = some array →
    ∀ value ∈ array, value.len < 2 ^ 31

theorem arrayEntries_of_length {α : Type} {n : Nat} {array : List α}
    (length : array.length = n) :
    arrayEntries n array = some array := by
  rw [arrayEntries, if_pos (by omega), List.take_of_length_le (by omega)]

theorem arrayWords_of_length {n : Nat} {array : List Nat}
    (length : array.length = n) :
    arrayWords n array = some array := by
  unfold arrayWords
  split
  · next missing =>
      subst missing
      rw [← length]
      rfl
  · exact arrayEntries_of_length length

/-- The bytes of the arrays of a record whose values are these. -/
def arrayBytes (acc : PaxosAccepted) (values : List PaxosValue) :
    List UInt8 :=
  acc.aids.flatMap wordBytes ++
    (values.flatMap valueBytes ++
      (acc.ballots.flatMap wordBytes ++ acc.valueBallots.flatMap wordBytes))

/-- A record without `values` has no buffer: its loops read the missing
array. -/
theorem toBuffer_of_values_none
    (found : FieldMemory) {acc : PaxosAccepted}
    (positive : 1 ≤ acc.nAids) (missing : acc.values = none) :
    paxosAcceptedToBuffer found acc = none := by
  have nonzero : acc.nAids ≠ 0 := by omega
  simp only [paxosAcceptedToBuffer, PaxosAccepted.entryValues,
    if_neg nonzero, missing, Option.bind_none]
  rfl

theorem toBuffer_of_values_some
    (found : FieldMemory) {acc : PaxosAccepted} (storable : acc.Storable)
    {values : List PaxosValue} (present : acc.values = some values) :
    paxosAcceptedToBuffer found acc = some
      { allocated := sizeofAccepted +
          (acc.nAids * 4 + (values.map fun value => value.len + 4).sum) +
          4 * acc.nAids * 2
        image := ⟨acc.src, acc.iid, acc.ballot0, acc.valueBallot0, acc.nAids,
          acc.value0.len⟩
        body := arrayBytes acc (copiedValues found values) } := by
  have nonzero : acc.nAids ≠ 0 := by
    have := storable.positive
    omega
  simp only [paxosAcceptedToBuffer, PaxosAccepted.entryValues,
    if_neg nonzero, present, Option.bind_some,
    arrayEntries_of_length (storable.values values present),
    arrayEntries_of_length storable.aids,
    arrayWords_of_length storable.ballots,
    arrayWords_of_length storable.valueBallots]
  rfl

/-- The arrays take as many bytes as the encoder counts. -/
theorem length_arrayBytes
    {acc : PaxosAccepted} (consistent : acc.WordsConsistent)
    (found : FieldMemory) (values : List PaxosValue) :
    (arrayBytes acc (copiedValues found values)).length =
      acc.nAids * 4 + (values.map fun value => value.len + 4).sum +
        4 * acc.nAids * 2 := by
  have lengths : (copiedValues found values).map (fun value => value.len + 4) =
      values.map fun value => value.len + 4 := by
    have same := congrArg (List.map (· + 4)) (map_len_copiedValues found values)
    rw [List.map_map, List.map_map] at same
    exact same
  simp only [arrayBytes, List.length_append, length_flatMap_wordBytes,
    length_flatMap_valueBytes, lengths, consistent.aids, consistent.ballots,
    consistent.valueBallots]
  omega

theorem parses_words {n : Nat} {words : List Nat} (length : words.length = n)
    (bound : ∀ word ∈ words, word < 2 ^ 32) :
    Parses (replicate readWord n) (words.flatMap wordBytes) words := by
  subst length
  exact parses_replicate words fun word member =>
    parses_readWord (bound word member)

theorem parses_values {n : Nat} {values : List PaxosValue}
    (length : values.length = n) (bound : ∀ value ∈ values, value.len < 2 ^ 32) :
    Parses (replicate readValue n) (values.flatMap valueBytes) values := by
  subst length
  exact parses_replicate values fun value member =>
    parses_readValue (bound value member)

/-- The decoder reads arrays of `n_aids` entries each, as they were written. -/
theorem parses_readArrays
    (image : AcceptedImage) {aids ballots valueBallots : List Nat}
    {values : List PaxosValue}
    (readsAids : Parses (replicate readWord image.nAids)
      (aids.flatMap wordBytes) aids)
    (readsValues : Parses (replicate readValue image.nAids)
      (values.flatMap valueBytes) values)
    (readsBallots : Parses (replicate readWord image.nAids)
      (ballots.flatMap wordBytes) ballots)
    (readsValueBallots : Parses (replicate readWord image.nAids)
      (valueBallots.flatMap wordBytes) valueBallots) :
    Parses (readArrays image)
      (aids.flatMap wordBytes ++ (values.flatMap valueBytes ++
        (ballots.flatMap wordBytes ++ valueBallots.flatMap wordBytes)))
      ⟨image.src, image.iid, image.ballot0, image.valueBallot0, image.nAids,
        aids, some values, ballots, valueBallots⟩ :=
  readsAids.bind (readsValues.bind (readsBallots.bind
    (readsValueBallots.bind_pure
      (Restored.mk image.src image.iid image.ballot0 image.valueBallot0
        image.nAids aids (some values) ballots))))

/-- The decoder reads back the words, and the values as they were copied. -/
theorem fromBuffer_arrayBytes
    {acc : PaxosAccepted} (storable : acc.Storable)
    {values : List PaxosValue} (length : values.length = acc.nAids)
    (bound : ∀ value ∈ values, value.len < 2 ^ 32)
    (allocated value0Len : Nat) :
    paxosAcceptedFromBuffer
        { allocated := allocated
          image := ⟨acc.src, acc.iid, acc.ballot0, acc.valueBallot0,
            acc.nAids, value0Len⟩
          body := arrayBytes acc values } =
      some ⟨acc.src, acc.iid, acc.ballot0, acc.valueBallot0, acc.nAids,
        acc.aids, some values, acc.ballots, acc.valueBallots⟩ := by
  have all := parses_readArrays ⟨acc.src, acc.iid, acc.ballot0,
      acc.valueBallot0, acc.nAids, value0Len⟩
    (parses_words storable.aids storable.aids_bound)
    (parses_values length bound)
    (parses_words storable.ballots storable.ballots_bound)
    (parses_words storable.valueBallots storable.valueBallots_bound)
  have read := all.whole []
  rw [List.append_nil] at read
  have positive : 0 < acc.nAids := storable.positive
  simp only [paxosAcceptedFromBuffer, if_pos positive, arrayBytes, read]

/-! ### The round trip -/

/-- The record goes through a buffer: the encoder succeeds and fills what it
allocated, and the decoder rebuilds the record from the buffer alone. -/
def RoundTrips (found : FieldMemory) (acc : PaxosAccepted) : Prop :=
  ∃ buffer out,
    paxosAcceptedToBuffer found acc = some buffer ∧
    buffer.written = buffer.allocated ∧
    paxosAcceptedFromBuffer buffer = some out ∧
    out.src = acc.src ∧ out.iid = acc.iid ∧ out.nAids = acc.nAids ∧
    out.aids = acc.aids ∧ out.ballots = acc.ballots ∧
    out.valueBallots = acc.valueBallots ∧ out.values = acc.values

/-- The memory behind the field of each value holds the bytes of the value. -/
def HoldsBytes (found : FieldMemory) (values : List PaxosValue) : Prop :=
  ∀ i value, values[i]? = some value →
    (List.range value.len).map (found i) = value.bytes

theorem copiedValues_eq_iff (found : FieldMemory)
    (values : List PaxosValue) :
    copiedValues found values = values ↔ HoldsBytes found values := by
  rw [List.ext_getElem?_iff]
  refine forall_congr' fun i => ?_
  rw [copiedValues, List.getElem?_mapIdx]
  cases values[i]? with
  | none => simp
  | some value =>
      simp only [Option.map_some, Option.some_inj]
      constructor
      · intro same value' isValue
        cases isValue
        exact congrArg PaxosValue.bytes same
      · intro holds
        exact congrArg PaxosValue.mk (holds value rfl)

/-- A record with values has a buffer, filled exactly, from which it comes
back with its values as they were copied. -/
theorem buffer_of_values_some
    (found : FieldMemory) {acc : PaxosAccepted} (storable : acc.Storable)
    {values : List PaxosValue} (present : acc.values = some values) :
    ∃ buffer,
      paxosAcceptedToBuffer found acc = some buffer ∧
      buffer.written = buffer.allocated ∧
      paxosAcceptedFromBuffer buffer =
        some ⟨acc.src, acc.iid, acc.ballot0, acc.valueBallot0, acc.nAids,
          acc.aids, some (copiedValues found values), acc.ballots,
          acc.valueBallots⟩ := by
  have length : (copiedValues found values).length = acc.nAids :=
    (length_copiedValues found values).trans (storable.values values present)
  have bound : ∀ value ∈ copiedValues found values, value.len < 2 ^ 32 := by
    intro value member
    have lens := List.mem_map_of_mem (f := PaxosValue.len) member
    rw [map_len_copiedValues] at lens
    obtain ⟨original, originalMember, sameLen⟩ := List.mem_map.mp lens
    have := storable.values_bound values present original originalMember
    omega
  refine ⟨_, toBuffer_of_values_some found storable present, ?_,
    fromBuffer_arrayBytes storable length bound _ _⟩
  rw [Buffer.written, length_arrayBytes storable.toWordsConsistent]
  exact (Nat.add_assoc _ _ _).symm

/-- In a given memory, a record goes through a buffer exactly when it has
values and the memory behind their fields happens to hold their bytes. -/
theorem roundTrips_iff
    (found : FieldMemory) {acc : PaxosAccepted} (storable : acc.Storable) :
    RoundTrips found acc ↔
      ∃ values, acc.values = some values ∧ HoldsBytes found values := by
  cases present : acc.values with
  | none =>
      constructor
      · rintro ⟨buffer, out, encoded, _⟩
        rw [toBuffer_of_values_none found storable.positive present]
          at encoded
        cases encoded
      · rintro ⟨values, isSome, _⟩
        cases isSome
  | some values =>
      obtain ⟨buffer, encoded, filled, decoded⟩ :=
        buffer_of_values_some found storable present
      constructor
      · rintro ⟨other, out, encodedOther, _, restored, rebuilt⟩
        rw [encoded] at encodedOther
        cases encodedOther
        rw [decoded] at restored
        cases restored
        refine ⟨values, rfl, (copiedValues_eq_iff found values).mp ?_⟩
        have same : some (copiedValues found values) = acc.values :=
          rebuilt.2.2.2.2.2.2
        rw [present] at same
        exact Option.some_inj.mp same
      · rintro ⟨array, isSome, holds⟩
        cases isSome
        have same := (copiedValues_eq_iff found values).mpr holds
        refine ⟨buffer, _, encoded, filled, decoded, rfl, rfl, rfl, rfl, rfl,
          rfl, ?_⟩
        rw [same, present]

/-- Every memory holds the bytes of empty values, and only of those. -/
theorem holdsBytes_all_iff (values : List PaxosValue) :
    (∀ found, HoldsBytes found values) ↔
      ∀ value ∈ values, value.bytes = [] := by
  constructor
  · intro all value member
    obtain ⟨i, isEntry⟩ := List.mem_iff_getElem?.mp member
    -- A memory that differs from the first byte of the value.
    cases isBytes : value.bytes with
    | nil => rfl
    | cons first rest =>
        have copied := all (fun _ _ => first + 1) i value isEntry
        rw [PaxosValue.len, isBytes, List.length_cons,
          List.range_succ_eq_map] at copied
        have same : first + 1 = first := (List.cons.inj copied).1
        simp at same
  · intro empty found i value isEntry
    have none := empty value (List.mem_of_getElem? isEntry)
    rw [PaxosValue.len, none]
    rfl

/-- Exactly the records whose values are present and empty go through a buffer
in every memory. -/
theorem buffer_round_trip_iff
    {acc : PaxosAccepted} (storable : acc.Storable) :
    (∀ found, RoundTrips found acc ↔
        ∃ values, acc.values = some values ∧ HoldsBytes found values) ∧
      ((∀ found, RoundTrips found acc) ↔
        ∃ values, acc.values = some values ∧
          ∀ value ∈ values, value.bytes = []) := by
  have each := fun found => roundTrips_iff found storable
  refine ⟨each, ?_⟩
  constructor
  · intro all
    obtain ⟨values, present, _⟩ := (each fun _ _ => 0).mp (all _)
    refine ⟨values, present, (holdsBytes_all_iff values).mp ?_⟩
    intro found
    obtain ⟨array, isSome, holds⟩ := (each found).mp (all found)
    rw [present] at isSome
    cases isSome
    exact holds
  · rintro ⟨values, present, empty⟩ found
    exact (each found).mpr
      ⟨values, present, (holdsBytes_all_iff values).mpr empty found⟩

/-- Two acceptors accepted an empty value. -/
theorem buffer_round_trip_empty :
    RoundTrips (fun _ _ => 0x10)
      ⟨3, 7, 0, 0, 2, [0, 1], PaxosValue.empty,
        some [PaxosValue.empty, PaxosValue.empty], [10, 11], [10, 11]⟩ := by
  refine (buffer_round_trip_iff
    ⟨⟨⟨rfl, rfl, rfl⟩, ?_⟩, ?_, ?_, ?_, ?_, ?_⟩).2.mpr ⟨_, rfl, ?_⟩ _
  · intro array present
    cases present
    rfl
  · decide
  · decide
  · decide
  · decide
  · intro array present
    cases present
    decide
  · decide

/-- The record of a prepare has no buffer, and an accepted value of one byte
comes back as the first byte of its address. -/
theorem buffer_loses_values :
    paxosAcceptedToBuffer (fun _ _ => 0x10)
        ⟨3, 7, 10, 0, 1, [0], PaxosValue.empty, none, [10], [10]⟩ = none ∧
      ¬ RoundTrips (fun _ _ => 0x10)
        ⟨3, 7, 0, 0, 1, [0], PaxosValue.empty, some [⟨[0x61]⟩],
          [10], [10]⟩ := by
  refine ⟨rfl, ?_⟩
  rintro ⟨buffer, out, encoded, _, decoded, rebuilt⟩
  cases encoded
  cases decoded
  have same := rebuilt.2.2.2.2.2.2
  revert same
  decide

end LibPaxos
