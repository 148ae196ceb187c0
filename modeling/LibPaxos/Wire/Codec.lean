import LibPaxos.Types
import LibPaxos.Library.Msgpack

/-!
# Packing and unpacking messages

The functions of `paxos_types_pack.c`, on messages as they stand in memory: an
array is a pointer that may be null, and so is the buffer of a value.  A message
is packed as one array of unsigned integers and byte strings, after the number
of its elements; it is unpacked with a running index of type `int`.

A function has no result where the program follows a null pointer, reads past
the end of an array, takes an element for one of another type, or counts an
`int` past its greatest value.
-/

namespace LibPaxos

open LibPaxos.Library

/-- `struct paxos_value`. -/
structure RawValue where
  len : Int
  val : Option (List UInt8)
  deriving DecidableEq, Repr

def RawValue.zeroed : RawValue :=
  ⟨0, none⟩

/-- `struct paxos_promise` and `struct paxos_accepted`, which have the same
fields. -/
structure RawReply where
  src : Nat
  iid : Nat
  ballot0 : Nat
  valueBallot0 : Nat
  nAids : Nat
  aids : Option (List Nat)
  value0 : RawValue
  values : Option (List RawValue)
  ballots : Option (List Nat)
  valueBallots : Option (List Nat)
  deriving DecidableEq, Repr

/-- `struct paxos_accept`. -/
structure RawAccept where
  src : Nat
  iid : Nat
  ballot : Nat
  value : RawValue
  deriving DecidableEq, Repr

/-- `struct paxos_message`. -/
inductive RawMessage where
  | prepare (message : PaxosPrepare)
  | promise (message : RawReply)
  | accept (message : RawAccept)
  | accepted (message : RawReply)
  | preempted (message : PaxosPreempted)
  | repeat (message : PaxosRepeat)
  | trim (message : PaxosTrim)
  | acceptorState (message : PaxosAcceptorState)
  | clientValue (value : RawValue)
  deriving DecidableEq, Repr

/-- `enum paxos_message_type`. -/
def RawMessage.type : RawMessage → Nat
  | .prepare _ => 0
  | .promise _ => 1
  | .accept _ => 2
  | .accepted _ => 3
  | .preempted _ => 4
  | .repeat _ => 5
  | .trim _ => 6
  | .acceptorState _ => 7
  | .clientValue _ => 8

/-- What a packer writes for one message: the number of elements given to
`msgpack_pack_array`, and the elements packed after it. -/
structure Packed where
  count : Nat
  items : List MsgpackItem
  deriving DecidableEq, Repr

/-! ### Packing -/

/-- `msgpack_pack_paxos_value`, for a length that is not negative and that the
buffer has. -/
def packPaxosValue (v : RawValue) : MsgpackItem :=
  match v.val with
  | none => .bin []
  | some buffer => .bin (buffer.take v.len.toNat)

def packArray {α : Type} (pack : α → MsgpackItem) (n : Nat)
    (array : Option (List α)) : Option (List MsgpackItem) :=
  if n = 0 then
    some []
  else
    match array with
    | none => none
    | some entries =>
        if n ≤ entries.length then
          some ((entries.take n).map pack)
        else
          none

/-- `msgpack_pack_paxos_promise`. -/
def packPaxosPromise (v : RawReply) : Option Packed := do
  let aids ← packArray .uint v.nAids v.aids
  let values ← packArray packPaxosValue v.nAids v.values
  let ballots ← packArray .uint v.nAids v.ballots
  let valueBallots ← packArray .uint v.nAids v.valueBallots
  some
    { count := word32 (7 + v.nAids + v.nAids + v.nAids + v.nAids)
      items :=
        [.uint 1, .uint v.src, .uint v.iid, .uint v.ballot0,
          .uint v.valueBallot0, .uint v.nAids, packPaxosValue v.value0] ++
          (aids ++ (values ++ (ballots ++ valueBallots))) }

/-- `is_aids` and `is_values`: whether an array is present and has entries. -/
def isPresent {α : Type} (array : Option (List α)) (n : Nat) : Bool :=
  array.isSome && decide (0 < n)

/-- The loop over `ballots` or `value_ballots` of an accepted, with zeroes in
place of an array that is null. -/
def packOrZero (n : Nat) (array : Option (List Nat)) :
    Option (List MsgpackItem) :=
  match array with
  | none => some (List.replicate n (.uint 0))
  | some _ => packArray .uint n array

/-- A section of an accepted: a loop that runs when its flag is set. -/
def packSection (flag : Bool) (loop : Option (List MsgpackItem)) :
    Option (List MsgpackItem) :=
  if flag then loop else some []

/-- `msgpack_pack_paxos_accepted`. -/
def packPaxosAccepted (v : RawReply) : Option Packed := do
  let isAids := isPresent v.aids v.nAids
  let isValues := isPresent v.values v.nAids
  let aids ← packSection isAids (packArray .uint v.nAids v.aids)
  let values ← packSection isValues (packArray packPaxosValue v.nAids v.values)
  let ballots ← packSection isAids (packOrZero v.nAids v.ballots)
  let valueBallots ← packSection isAids (packOrZero v.nAids v.valueBallots)
  some
    { count :=
        word32 (6 + (if isAids then v.nAids else 0) * 3 +
          (if isValues then v.nAids else 0))
      items :=
        [.uint 3, .uint 0, .uint v.iid, .uint v.nAids,
          .uint (if isAids then 1 else 0),
          .uint (if isValues then 1 else 0)] ++
          (aids ++ (values ++ (ballots ++ valueBallots))) }

/-- `msgpack_pack_paxos_prepare`. -/
def packPaxosPrepare (v : PaxosPrepare) : Packed :=
  ⟨4, [.uint 0, .uint v.src, .uint v.iid, .uint v.ballot]⟩

/-- `msgpack_pack_paxos_accept`. -/
def packPaxosAccept (v : RawAccept) : Packed :=
  ⟨5, [.uint 2, .uint v.src, .uint v.iid, .uint v.ballot,
    packPaxosValue v.value]⟩

/-- `msgpack_pack_paxos_preempted`. -/
def packPaxosPreempted (v : PaxosPreempted) : Packed :=
  ⟨4, [.uint 4, .uint v.aid, .uint v.iid, .uint v.ballot]⟩

/-- `msgpack_pack_paxos_repeat`. -/
def packPaxosRepeat (v : PaxosRepeat) : Packed :=
  ⟨3, [.uint 5, .uint v.first, .uint v.last]⟩

/-- `msgpack_pack_paxos_trim`. -/
def packPaxosTrim (v : PaxosTrim) : Packed :=
  ⟨2, [.uint 6, .uint v.iid]⟩

/-- `msgpack_pack_paxos_acceptor_state`. -/
def packPaxosAcceptorState (v : PaxosAcceptorState) : Packed :=
  ⟨3, [.uint 7, .uint v.aid, .uint v.trimIid]⟩

/-- `msgpack_pack_paxos_client_value`. -/
def packPaxosClientValue (v : RawValue) : Packed :=
  ⟨2, [.uint 8, packPaxosValue v]⟩

/-- `msgpack_pack_paxos_message`. -/
def packPaxosMessage : RawMessage → Option Packed
  | .prepare v => some (packPaxosPrepare v)
  | .promise v => packPaxosPromise v
  | .accept v => some (packPaxosAccept v)
  | .accepted v => packPaxosAccepted v
  | .preempted v => some (packPaxosPreempted v)
  | .repeat v => some (packPaxosRepeat v)
  | .trim v => some (packPaxosTrim v)
  | .acceptorState v => some (packPaxosAcceptorState v)
  | .clientValue v => some (packPaxosClientValue v)

/-! ### Unpacking -/

def intMax : Nat :=
  2 ^ 31 - 1

/-- The size `*len + 16` of the buffer that `msgpack_unpack_string_at` allocates
is an `int`.  It allocates one when the length is positive. -/
def BufferFits (len : Int) : Prop :=
  0 < len → len + 16 ≤ intMax

instance (len : Int) : Decidable (BufferFits len) :=
  inferInstanceAs (Decidable (_ → _))

section Unpack

variable (o : List MsgpackItem)

/-- `msgpack_unpack_uint32_at`: the integer and the index after it. -/
def unpackUint32At (i : Nat) : Option (Nat × Nat) :=
  match o[i]? with
  | some (.uint value) =>
      if i < intMax then some (word32 value, i + 1) else none
  | _ => none

/-- `msgpack_unpack_paxos_value_at` and `msgpack_unpack_string_at`. -/
def unpackPaxosValueAt (i : Nat) : Option (RawValue × Nat) :=
  match o[i]? with
  | some (.bin bytes) =>
      let len := intOfUint32 (word32 bytes.length)
      let val := if 0 < len then some (bytes.take len.toNat) else none
      if BufferFits len ∧ i < intMax then some (⟨len, val⟩, i + 1) else none
  | _ => none

def unpackArray {α : Type} (unpack : Nat → Option (α × Nat)) :
    Nat → Nat → Option (List α × Nat)
  | 0, i => some ([], i)
  | n + 1, i => do
      let (entry, i) ← unpack i
      let (rest, i) ← unpackArray unpack n i
      some (entry :: rest, i)

/-- `msgpack_unpack_paxos_prepare`. -/
def unpackPaxosPrepare : Option PaxosPrepare := do
  let (src, i) ← unpackUint32At o 1
  let (iid, i) ← unpackUint32At o i
  let (ballot, _) ← unpackUint32At o i
  some ⟨src, iid, ballot⟩

/-- `msgpack_unpack_paxos_promise`. -/
def unpackPaxosPromise : Option RawReply := do
  let (src, i) ← unpackUint32At o 1
  let (iid, i) ← unpackUint32At o i
  let (ballot0, i) ← unpackUint32At o i
  let (valueBallot0, i) ← unpackUint32At o i
  let (nAids, i) ← unpackUint32At o i
  let (value0, i) ← unpackPaxosValueAt o i
  let (aids, i) ← unpackArray (unpackUint32At o) nAids i
  let (values, i) ← unpackArray (unpackPaxosValueAt o) nAids i
  let (ballots, i) ← unpackArray (unpackUint32At o) nAids i
  let (valueBallots, _) ← unpackArray (unpackUint32At o) nAids i
  some ⟨src, iid, ballot0, valueBallot0, nAids, some aids, value0, some values,
    some ballots, some valueBallots⟩

/-- `msgpack_unpack_paxos_accept`. -/
def unpackPaxosAccept : Option RawAccept := do
  let (src, i) ← unpackUint32At o 1
  let (iid, i) ← unpackUint32At o i
  let (ballot, i) ← unpackUint32At o i
  let (value, _) ← unpackPaxosValueAt o i
  some ⟨src, iid, ballot, value⟩

/-- A section of an accepted: an array when its flag is set, and otherwise the
null pointer. -/
def unpackSection {α : Type} (flag : Nat) (unpack : Nat → Option (α × Nat))
    (n i : Nat) : Option (Option (List α) × Nat) :=
  if flag = 0 then
    some (none, i)
  else
    (unpackArray unpack n i).map fun (entries, i) => (some entries, i)

/-- `msgpack_unpack_paxos_accepted`, into a zeroed message. -/
def unpackPaxosAccepted : Option RawReply := do
  let (_, i) ← unpackUint32At o 1
  let (iid, i) ← unpackUint32At o i
  let (nAids, i) ← unpackUint32At o i
  let (isAids, i) ← unpackUint32At o i
  let (isValues, i) ← unpackUint32At o i
  let (aids, i) ← unpackSection isAids (unpackUint32At o) nAids i
  let (values, i) ← unpackSection isValues (unpackPaxosValueAt o) nAids i
  let (ballots, i) ← unpackSection isAids (unpackUint32At o) nAids i
  let (valueBallots, _) ← unpackSection isAids (unpackUint32At o) nAids i
  some ⟨uint32OfInt (-1), iid, 0, 0, nAids, aids, RawValue.zeroed, values,
    ballots, valueBallots⟩

/-- `msgpack_unpack_paxos_preempted`. -/
def unpackPaxosPreempted : Option PaxosPreempted := do
  let (aid, i) ← unpackUint32At o 1
  let (iid, i) ← unpackUint32At o i
  let (ballot, _) ← unpackUint32At o i
  some ⟨aid, iid, ballot⟩

/-- `msgpack_unpack_paxos_repeat`. -/
def unpackPaxosRepeat : Option PaxosRepeat := do
  let (first, i) ← unpackUint32At o 1
  let (last, _) ← unpackUint32At o i
  some ⟨first, last⟩

/-- `msgpack_unpack_paxos_trim`. -/
def unpackPaxosTrim : Option PaxosTrim := do
  let (iid, _) ← unpackUint32At o 1
  some ⟨iid⟩

/-- `msgpack_unpack_paxos_acceptor_state`. -/
def unpackPaxosAcceptorState : Option PaxosAcceptorState := do
  let (aid, i) ← unpackUint32At o 1
  let (trimIid, _) ← unpackUint32At o i
  some ⟨aid, trimIid⟩

/-- `msgpack_unpack_paxos_client_value`. -/
def unpackPaxosClientValue : Option RawValue := do
  let (value, _) ← unpackPaxosValueAt o 1
  some value

/-- The cases of `msgpack_unpack_paxos_message`.  A type that is not one of the
nine ends in a call through a null pointer. -/
def unpackByType : Nat → Option RawMessage
  | 0 => (unpackPaxosPrepare o).map .prepare
  | 1 => (unpackPaxosPromise o).map .promise
  | 2 => (unpackPaxosAccept o).map .accept
  | 3 => (unpackPaxosAccepted o).map .accepted
  | 4 => (unpackPaxosPreempted o).map .preempted
  | 5 => (unpackPaxosRepeat o).map .repeat
  | 6 => (unpackPaxosTrim o).map .trim
  | 7 => (unpackPaxosAcceptorState o).map .acceptorState
  | 8 => (unpackPaxosClientValue o).map .clientValue
  | _ => none

/-- `msgpack_unpack_paxos_message`, into a zeroed message. -/
def unpackPaxosMessage : Option RawMessage :=
  match o[0]? with
  | some (MsgpackItem.uint type) => unpackByType o (word32 type)
  | _ => none

end Unpack

/-! ### Messages that can be packed, and what arrives -/

/-- A value in memory: the buffer has as many bytes as the length says, and is
missing only for the length zero.  Sixteen bytes more still have a length of type
`int`. -/
structure RawValue.WellFormed (v : RawValue) : Prop where
  range : v.len < 2 ^ 31 - 16
  null : v.val = none → v.len = 0
  buffer : ∀ bytes, v.val = some bytes → v.len = bytes.length

theorem RawValue.wellFormed_iff (v : RawValue) :
    v.WellFormed ↔
      v.len < 2 ^ 31 - 16 ∧
        v.len = match v.val with
          | none => 0
          | some bytes => (bytes.length : Int) := by
  obtain ⟨len, val⟩ := v
  cases val with
  | none =>
      constructor
      · intro ok
        exact ⟨ok.range, ok.null rfl⟩
      · rintro ⟨range, empty⟩
        refine ⟨range, fun _ => empty, ?_⟩
        intro bytes isSome
        cases isSome
  | some bytes =>
      constructor
      · intro ok
        exact ⟨ok.range, ok.buffer bytes rfl⟩
      · rintro ⟨range, length⟩
        refine ⟨range, fun isNone => absurd isNone (Option.some_ne_none _), ?_⟩
        intro others isSome
        cases isSome
        exact length

instance (v : RawValue) : Decidable v.WellFormed :=
  decidable_of_iff _ v.wellFormed_iff.symm

/-- An array that has `n` entries when it is present, each with a property. -/
def ArrayOf {α : Type} (P : α → Prop) (n : Nat)
    (array : Option (List α)) : Prop :=
  ∀ entries, array = some entries →
    entries.length = n ∧ ∀ entry ∈ entries, P entry

theorem arrayOf_none {α : Type} {P : α → Prop} {n : Nat} :
    ArrayOf P n none := by
  intro entries isEntries
  cases isEntries

theorem arrayOf_some {α : Type} {P : α → Prop} {n : Nat} {entries : List α} :
    ArrayOf P n (some entries) ↔
      entries.length = n ∧ ∀ entry ∈ entries, P entry := by
  constructor
  · intro filled
    exact filled entries rfl
  · intro filled others isEntries
    cases isEntries
    exact filled

instance {α : Type} (P : α → Prop) [DecidablePred P] (n : Nat)
    (array : Option (List α)) : Decidable (ArrayOf P n array) :=
  match array with
  | none => isTrue arrayOf_none
  | some _ => decidable_of_iff _ arrayOf_some.symm

/-- A promise or an accepted in memory: every array that is present has `n_aids`
entries. -/
structure RawReply.WellFormed (v : RawReply) : Prop where
  src : v.src < 2 ^ 32
  iid : v.iid < 2 ^ 32
  ballot0 : v.ballot0 < 2 ^ 32
  valueBallot0 : v.valueBallot0 < 2 ^ 32
  nAids : v.nAids < 2 ^ 30 - 1
  aids : ArrayOf (· < 2 ^ 32) v.nAids v.aids
  value0 : v.value0.WellFormed
  values : ArrayOf RawValue.WellFormed v.nAids v.values
  ballots : ArrayOf (· < 2 ^ 32) v.nAids v.ballots
  valueBallots : ArrayOf (· < 2 ^ 32) v.nAids v.valueBallots

theorem RawReply.wellFormed_iff (v : RawReply) :
    v.WellFormed ↔
      (v.src < 2 ^ 32 ∧ v.iid < 2 ^ 32 ∧ v.ballot0 < 2 ^ 32 ∧
        v.valueBallot0 < 2 ^ 32 ∧ v.nAids < 2 ^ 30 - 1) ∧
      ArrayOf (· < 2 ^ 32) v.nAids v.aids ∧ v.value0.WellFormed ∧
      ArrayOf RawValue.WellFormed v.nAids v.values ∧
      ArrayOf (· < 2 ^ 32) v.nAids v.ballots ∧
      ArrayOf (· < 2 ^ 32) v.nAids v.valueBallots := by
  constructor
  · intro ok
    exact ⟨⟨ok.src, ok.iid, ok.ballot0, ok.valueBallot0, ok.nAids⟩, ok.aids,
      ok.value0, ok.values, ok.ballots, ok.valueBallots⟩
  · rintro ⟨⟨src, iid, ballot0, valueBallot0, nAids⟩, aids, value0, values,
      ballots, valueBallots⟩
    exact ⟨src, iid, ballot0, valueBallot0, nAids, aids, value0, values,
      ballots, valueBallots⟩

instance (v : RawReply) : Decidable v.WellFormed :=
  decidable_of_iff _ v.wellFormed_iff.symm

/-- A message in memory. -/
def RawMessage.WellFormed : RawMessage → Prop
  | .prepare v => v.src < 2 ^ 32 ∧ v.iid < 2 ^ 32 ∧ v.ballot < 2 ^ 32
  | .promise v => v.WellFormed
  | .accept v =>
      v.src < 2 ^ 32 ∧ v.iid < 2 ^ 32 ∧ v.ballot < 2 ^ 32 ∧ v.value.WellFormed
  | .accepted v => v.WellFormed
  | .preempted v => v.aid < 2 ^ 32 ∧ v.iid < 2 ^ 32 ∧ v.ballot < 2 ^ 32
  | .repeat v => v.first < 2 ^ 32 ∧ v.last < 2 ^ 32
  | .trim v => v.iid < 2 ^ 32
  | .acceptorState v => v.aid < 2 ^ 32 ∧ v.trimIid < 2 ^ 32
  | .clientValue v => v.WellFormed

/-- A promise with entries has all its arrays. -/
def RawMessage.Complete : RawMessage → Prop
  | .promise v =>
      0 < v.nAids →
        v.aids.isSome ∧ v.values.isSome ∧ v.ballots.isSome ∧
          v.valueBallots.isSome
  | _ => True

def RawMessage.elements : RawMessage → Nat
  | .prepare _ => 4
  | .promise v => 7 + 4 * v.nAids
  | .accept _ => 5
  | .accepted v =>
      6 + (if isPresent v.aids v.nAids then 3 * v.nAids else 0) +
        (if isPresent v.values v.nAids then v.nAids else 0)
  | .preempted _ => 4
  | .repeat _ => 3
  | .trim _ => 2
  | .acceptorState _ => 3
  | .clientValue _ => 2

/-- What arrives of a value: an empty one arrives with a null pointer. -/
def RawValue.received (v : RawValue) : RawValue :=
  if v.len = 0 then RawValue.zeroed else v

def RawReply.receivedPromise (v : RawReply) : RawReply :=
  { v with
    aids := some (v.aids.getD [])
    value0 := v.value0.received
    values := some ((v.values.getD []).map RawValue.received)
    ballots := some (v.ballots.getD [])
    valueBallots := some (v.valueBallots.getD []) }

/-- What arrives of an accepted: neither the source nor the three fields for a
single acceptor, and ballots only together with the acceptor ids. -/
def RawReply.receivedAccepted (v : RawReply) : RawReply where
  src := 2 ^ 32 - 1
  iid := v.iid
  ballot0 := 0
  valueBallot0 := 0
  nAids := v.nAids
  aids := if isPresent v.aids v.nAids then v.aids else none
  value0 := RawValue.zeroed
  values :=
    if isPresent v.values v.nAids then
      v.values.map (List.map RawValue.received)
    else
      none
  ballots :=
    if isPresent v.aids v.nAids then
      some (v.ballots.getD (List.replicate v.nAids 0))
    else
      none
  valueBallots :=
    if isPresent v.aids v.nAids then
      some (v.valueBallots.getD (List.replicate v.nAids 0))
    else
      none

def RawMessage.received : RawMessage → RawMessage
  | .promise v => .promise v.receivedPromise
  | .accept v => .accept { v with value := v.value.received }
  | .accepted v => .accepted v.receivedAccepted
  | .clientValue v => .clientValue v.received
  | m => m

/-- The arrays of a reply arrive with the same entries. -/
structure RawReply.SameArrays (v arrived : RawReply) : Prop where
  nAids : arrived.nAids = v.nAids
  aids : arrived.aids.getD [] = v.aids.getD []
  values : arrived.values.getD [] = (v.values.getD []).map RawValue.received
  ballots : arrived.ballots.getD [] = v.ballots.getD []
  valueBallots : arrived.valueBallots.getD [] = v.valueBallots.getD []

/-- A message arrives with the same type and the same fields, those of an
accepted for a single acceptor apart. -/
def RawMessage.SameFields : RawMessage → RawMessage → Prop
  | .promise v, .promise arrived =>
      arrived.src = v.src ∧ arrived.iid = v.iid ∧
        arrived.ballot0 = v.ballot0 ∧ arrived.valueBallot0 = v.valueBallot0 ∧
        arrived.value0 = v.value0.received ∧ v.SameArrays arrived
  | .accepted v, .accepted arrived => arrived.iid = v.iid ∧ v.SameArrays arrived
  | .accept v, arrived => arrived = .accept { v with value := v.value.received }
  | .clientValue v, arrived => arrived = .clientValue v.received
  | m, arrived => arrived = m

/-- A message is packed after the number of its elements, and arrives with its
fields. -/
def RawMessage.RoundTrips (m : RawMessage) : Prop :=
  ∃ packed arrived, packPaxosMessage m = some packed ∧
    packed.count = packed.items.length ∧
    unpackPaxosMessage packed.items = some arrived ∧ m.SameFields arrived

/-- The ballots and value ballots of an accepted are there exactly when its
acceptor ids are. -/
def RawMessage.Aligned : RawMessage → Prop
  | .accepted v =>
      0 < v.nAids →
        v.ballots.isSome = v.aids.isSome ∧
          v.valueBallots.isSome = v.aids.isSome
  | _ => True

end LibPaxos
