import LibPaxos.Library.CursorStore
import LibPaxos.Lmdb.Buffer

/-!
# Storage on disk

The functions of `storage_lmdb.c` over any store with a cursor, inside one
transaction, with no call that fails.  Records and the trim instance share one
table: the trim instance is the entry of key 0.

The size that `lmdb_storage_put` gives for its data is that of the struct and
`acc->value.paxos_value_len`, the length in a field that the record does not
have.  Here it is an argument of the put.  The entry is cut off at that size,
and a get decodes what the entry holds.

A function has no result where it reads past an array, past a buffer or past the
data of an entry, or where an assertion fails.
-/

namespace LibPaxos

open LibPaxos.Library
open LibPaxos.Library.Parser

/-- The data of an entry: four bytes with the trim instance, or the image of a
record and the bytes after it. -/
inductive LmdbData where
  | trimInstance (iid : Nat)
  | record (buffer : Buffer)
  deriving DecidableEq, Repr

/-- The library that the storage is written against. -/
abbrev Mdb : Type 1 :=
  CursorStore Nat LmdbData

def lmdbCompareIid (lid rid : Nat) : Int :=
  if lid = rid then 0 else if lid < rid then -1 else 1

theorem lmdbCompareIid_neg_iff (lid rid : Nat) :
    lmdbCompareIid lid rid < 0 ↔ lid < rid := by
  unfold lmdbCompareIid
  split
  · omega
  · split
    · omega
    · omega

/-- The library keeps an ordered map, and its cursor follows the compare
function of the storage. -/
abbrev Mdb.Lawful (m : Mdb) (visited : m.Cursor → Option Nat) : Prop :=
  CursorStore.Lawful m (fun lid rid => lmdbCompareIid lid rid < 0) visited

def sizeofValue : Nat := 16

/-- The offset of `paxos_value_val` in a `paxos_value`. -/
def offsetofVal : Nat := 8

/-- From the `paxos_value_val` field of every entry that the encoder copies from,
the array `values` has as many bytes as the value of the entry. -/
def PaxosAccepted.CopiesInside (acc : PaxosAccepted) : Prop :=
  ∀ i < acc.nAids,
    offsetofVal + ((acc.values.getD []).getD i PaxosValue.empty).len ≤
      sizeofValue * ((acc.values.getD []).length - i)

instance (acc : PaxosAccepted) : Decidable acc.CopiesInside :=
  inferInstanceAs (Decidable (∀ i < acc.nAids, _))

/-- `paxos_accepted_to_buffer`, with no result either when a copy leaves the
array `values`. -/
def encodeInside (found : FieldMemory) (acc : PaxosAccepted) : Option Buffer :=
  if acc.CopiesInside then paxosAcceptedToBuffer found acc else none

/-- The data that `mdb_put` takes from a buffer: the struct and `valueLen` bytes
after it. -/
def Buffer.cut (buffer : Buffer) (valueLen : Nat) : Option Buffer :=
  if valueLen ≤ buffer.body.length then
    some
      { allocated := sizeofAccepted + valueLen
        image := buffer.image
        body := buffer.body.take valueLen }
  else
    none

/-- `lmdb_storage_get`: the record that it decodes from the entry it finds. -/
def lmdbStorageGet (m : Mdb) (s : m.State) (iid : Nat) :
    Option (Option Restored) :=
  match m.get s iid with
  | none => some none
  | some (.trimInstance _) => none
  | some (.record data) => do
      let out ← paxosAcceptedFromBuffer data
      if iid = out.iid then some (some out) else none

/-- `lmdb_storage_put`, where `valueLen` is `acc->value.paxos_value_len`. -/
def lmdbStoragePut (m : Mdb) (found : FieldMemory) (valueLen : Nat)
    (s : m.State) (acc : PaxosAccepted) : Option m.State := do
  let buffer ← encodeInside found acc
  let data ← buffer.cut valueLen
  some (m.put s acc.iid (.record data))

/-- `lmdb_storage_get_trim_instance`: it reads the first four bytes of the
entry, whatever that is. -/
def lmdbStorageGetTrimInstance (m : Mdb) (s : m.State) : Nat :=
  match m.get s 0 with
  | none => 0
  | some (.trimInstance iid) => iid
  | some (.record buffer) => buffer.image.src

def lmdbStoragePutTrimInstance (m : Mdb) (s : m.State) (iid : Nat) :
    m.State :=
  m.put s 0 (.trimInstance iid)

/-- The deletion in one round of `lmdb_storage_trim`: the entry under the cursor
goes, unless it is the marker or past the instance. -/
def sweepEntry (m : Mdb) (iid min : Nat) (s : m.State) (cursor : m.Cursor) :
    m.State × m.Cursor :=
  if min ≠ 0 ∧ min ≤ iid then m.delete s cursor else (s, cursor)

/-- The `do`-`while` loop of `lmdb_storage_trim`, for at most as many rounds as
there is fuel. -/
def trimLoop (m : Mdb) (iid : Nat) :
    Nat → m.State → m.Cursor → Option m.State
  | 0, _, _ => none
  | fuel + 1, s, cursor =>
      match m.next s cursor with
      | none => some s
      | some (min, cursor) =>
          let (s, cursor) := sweepEntry m iid min s cursor
          if min ≤ iid then trimLoop m iid fuel s cursor else some s

def lmdbStorageTrim (m : Mdb) (fuel : Nat) (s : m.State) (iid : Nat) :
    Option m.State :=
  if iid = 0 then
    some s
  else
    let s := lmdbStoragePutTrimInstance m s iid
    trimLoop m iid fuel s (m.openCursor s)

/-! ### The trim loop -/

/-- What the loop is for: it removes the records up to an instance, and nothing
else. -/
def Swept (m : Mdb) (iid : Nat) (before after : m.State) : Prop :=
  ∀ key, m.get after key =
    if 1 ≤ key ∧ key ≤ iid then none else m.get before key

section TrimLoop

variable {m : Mdb} {visited : m.Cursor → Option Nat}

/-- Below the cursor only the marker is left, and the cursor has not passed the
instance. -/
structure Sweeping (m : Mdb) (visited : m.Cursor → Option Nat) (iid : Nat)
    (s : m.State) (cursor : m.Cursor) : Prop where
  within : ∀ last, visited cursor = some last → last ≤ iid
  behind : ∀ last, visited cursor = some last →
    ∀ key, 1 ≤ key → key ≤ last → m.get s key = none

/-- The rounds that the loop may still take. -/
def roundsLeft (visited : m.Cursor → Option Nat) (iid : Nat)
    (cursor : m.Cursor) : Nat :=
  match visited cursor with
  | none => iid + 2
  | some last => iid + 1 - last

theorem ahead_or_behind
    (cursor : m.Cursor) (key : Nat) :
    CursorStore.Ahead (fun lid rid => lmdbCompareIid lid rid < 0) visited
        cursor key ∨
      ∃ last, visited cursor = some last ∧ key ≤ last := by
  cases under : visited cursor with
  | none =>
      left
      intro last isLast
      rw [under] at isLast
      cases isLast
  | some last =>
      by_cases passed : key ≤ last
      · exact Or.inr ⟨last, rfl, passed⟩
      · left
        intro other isLast
        rw [under] at isLast
        cases isLast
        exact (lmdbCompareIid_neg_iff _ _).mpr (by omega)

/-- Where the cursor finds no entry up to the instance, the loop is done. -/
theorem Sweeping.swept
    {iid : Nat} {s : m.State} {cursor : m.Cursor}
    (sweeping : Sweeping m visited iid s cursor)
    (rest : ∀ key, CursorStore.Ahead
      (fun lid rid => lmdbCompareIid lid rid < 0) visited cursor key →
        key ≤ iid → m.get s key = none) :
    Swept m iid s s := by
  intro key
  by_cases range : 1 ≤ key ∧ key ≤ iid
  · rw [if_pos range]
    rcases ahead_or_behind cursor key with ahead | ⟨last, under, passed⟩
    · exact rest key ahead range.2
    · exact sweeping.behind last under key range.1 passed
  · rw [if_neg range]

theorem get_sweepEntry
    (lawful : m.Lawful visited) {iid min : Nat} {s : m.State}
    {cursor : m.Cursor} (under : visited cursor = some min)
    (within : min ≤ iid) (key : Nat) :
    m.get (sweepEntry m iid min s cursor).1 key =
      if key = min ∧ min ≠ 0 then none else m.get s key := by
  unfold sweepEntry
  by_cases marker : min = 0
  · rw [if_neg (fun both => both.1 marker), if_neg (fun both => both.2 marker)]
  · rw [if_pos ⟨marker, within⟩]
    by_cases same : key = min
    · subst same
      rw [if_pos ⟨rfl, marker⟩]
      exact lawful.get_delete_self s cursor key under
    · rw [if_neg (fun both => same both.1)]
      exact lawful.get_delete_of_ne s cursor min key under same

theorem visited_sweepEntry
    (lawful : m.Lawful visited) (iid min : Nat) (s : m.State)
    (cursor : m.Cursor) :
    visited (sweepEntry m iid min s cursor).2 = visited cursor := by
  unfold sweepEntry
  split
  · exact lawful.visited_delete s cursor
  · rfl

/-- A round keeps the loop's invariant. -/
theorem Sweeping.advance
    (lawful : m.Lawful visited) {iid min : Nat} {s : m.State}
    {cursor next : m.Cursor}
    (sweeping : Sweeping m visited iid s cursor)
    (under : visited next = some min)
    (gap : ∀ key, CursorStore.Ahead
      (fun lid rid => lmdbCompareIid lid rid < 0) visited cursor key →
        key < min → m.get s key = none)
    (within : min ≤ iid) :
    Sweeping m visited iid (sweepEntry m iid min s next).1
      (sweepEntry m iid min s next).2 := by
  have position := (visited_sweepEntry lawful iid min s next).trans under
  refine ⟨?_, ?_⟩
  · intro last isLast
    rw [position] at isLast
    cases isLast
    exact within
  · intro last isLast key positive passed
    rw [position] at isLast
    cases isLast
    rw [get_sweepEntry lawful under within]
    by_cases same : key = min
    · rw [if_pos ⟨same, by omega⟩]
    · rw [if_neg (fun both => same both.1)]
      rcases ahead_or_behind cursor key with ahead | ⟨last, isLast, behind⟩
      · exact gap key ahead (by omega)
      · exact sweeping.behind last isLast key positive behind

theorem roundsLeft_advance
    (lawful : m.Lawful visited) {iid min fuel : Nat} {s : m.State}
    {cursor next : m.Cursor}
    (under : visited next = some min)
    (ahead : CursorStore.Ahead
      (fun lid rid => lmdbCompareIid lid rid < 0) visited cursor min)
    (within : min ≤ iid)
    (enough : roundsLeft visited iid cursor ≤ fuel + 1) :
    roundsLeft visited iid (sweepEntry m iid min s next).2 ≤ fuel := by
  have position := (visited_sweepEntry lawful iid min s next).trans under
  unfold roundsLeft at enough ⊢
  rw [position]
  cases last : visited cursor with
  | none =>
      rw [last] at enough
      simp only at enough ⊢
      omega
  | some key =>
      have := (lmdbCompareIid_neg_iff _ _).mp (ahead key last)
      rw [last] at enough
      simp only at enough ⊢
      omega

theorem Swept.of_sweepEntry
    (lawful : m.Lawful visited) {iid min : Nat} {s after : m.State}
    {next : m.Cursor} (under : visited next = some min) (within : min ≤ iid)
    (swept : Swept m iid (sweepEntry m iid min s next).1 after) :
    Swept m iid s after := by
  intro key
  rw [swept key, get_sweepEntry lawful under within]
  by_cases range : 1 ≤ key ∧ key ≤ iid
  · rw [if_pos range, if_pos range]
  · rw [if_neg range, if_neg range, if_neg (by omega)]

/-- With a round for every key that may come, the loop ends and has swept. -/
theorem trimLoop_swept
    (lawful : m.Lawful visited) {iid : Nat} (fuel : Nat) :
    ∀ {s : m.State} {cursor : m.Cursor},
      Sweeping m visited iid s cursor →
      roundsLeft visited iid cursor ≤ fuel →
      ∃ after, trimLoop m iid fuel s cursor = some after ∧
        Swept m iid s after := by
  induction fuel with
  | zero =>
      intro s cursor sweeping enough
      unfold roundsLeft at enough
      cases under : visited cursor with
      | none =>
          rw [under] at enough
          exact absurd enough (by simp)
      | some last =>
          have := sweeping.within last under
          rw [under] at enough
          simp only at enough
          omega
  | succ fuel inductionHypothesis =>
      intro s cursor sweeping enough
      cases moved : m.next s cursor with
      | none =>
          refine ⟨s, ?_, sweeping.swept fun key ahead _ =>
            lawful.next_none s cursor moved key ahead⟩
          simp only [trimLoop, moved]
      | some result =>
          obtain ⟨min, next⟩ := result
          obtain ⟨under, ahead, skipped⟩ :=
            lawful.next_some s cursor min next moved
          have gap : ∀ key, CursorStore.Ahead
              (fun lid rid => lmdbCompareIid lid rid < 0) visited cursor key →
                key < min → m.get s key = none := by
            intro key keyAhead smaller
            exact skipped key keyAhead ((lmdbCompareIid_neg_iff _ _).mpr smaller)
          by_cases within : min ≤ iid
          · obtain ⟨after, ended, swept⟩ := inductionHypothesis
              (sweeping.advance lawful under gap within)
              (roundsLeft_advance lawful under ahead within enough)
            refine ⟨after, ?_, ?_⟩
            · simp only [trimLoop, moved, if_pos within]
              exact ended
            · exact swept.of_sweepEntry lawful under within
          · -- The cursor has passed the instance: the record under it stays.
            refine ⟨s, ?_, sweeping.swept fun key keyAhead inside =>
              gap key keyAhead (by omega)⟩
            have kept : sweepEntry m iid min s next = (s, next) :=
              if_neg fun both => within both.2
            simp only [trimLoop, moved, kept, if_neg within]

/-- `lmdb_storage_trim` ends, notes the instance, and removes the records up to
it. -/
theorem lmdbStorageTrim_spec
    (lawful : m.Lawful visited) {iid fuel : Nat} (positive : 1 ≤ iid)
    (enough : iid + 2 ≤ fuel) (s : m.State) :
    ∃ after, lmdbStorageTrim m fuel s iid = some after ∧
      m.get after 0 = some (.trimInstance iid) ∧
      ∀ key, 1 ≤ key →
        m.get after key = if key ≤ iid then none else m.get s key := by
  let marked := lmdbStoragePutTrimInstance m s iid
  have opened := lawful.visited_openCursor marked
  have start : Sweeping m visited iid marked (m.openCursor marked) := by
    refine ⟨?_, ?_⟩
    · intro last isLast
      rw [opened] at isLast
      cases isLast
    · intro last isLast
      rw [opened] at isLast
      cases isLast
  have rounds : roundsLeft visited iid (m.openCursor marked) ≤ fuel := by
    unfold roundsLeft
    rw [opened]
    exact enough
  obtain ⟨after, ended, swept⟩ := trimLoop_swept lawful fuel start rounds
  refine ⟨after, ?_, ?_, ?_⟩
  · exact (if_neg (by omega)).trans ended
  · rw [swept 0, if_neg (by omega)]
    exact lawful.get_put_self s 0 _
  · intro key keyPositive
    have other : m.get marked key = m.get s key :=
      lawful.get_put_of_ne s 0 _ key (by omega)
    rw [swept key, other]
    by_cases inside : key ≤ iid
    · rw [if_pos ⟨keyPositive, inside⟩, if_pos inside]
    · rw [if_neg (fun both => inside both.2), if_neg inside]

end TrimLoop

/-! ### The records that survive a put -/

/-- Every array that the encoder reads has as many entries as it reads. -/
def PaxosAccepted.Encodable (acc : PaxosAccepted) : Prop :=
  acc.nAids = 0 ∨
    (∃ values, acc.values = some values ∧ acc.nAids ≤ values.length) ∧
      acc.nAids ≤ acc.aids.length ∧
      (acc.ballots = [] ∨ acc.nAids ≤ acc.ballots.length) ∧
      (acc.valueBallots = [] ∨ acc.nAids ≤ acc.valueBallots.length)

/-- The bytes of the arrays in the buffer of a record: three words and the bytes
of the value for each entry, and a word for the length of the value. -/
def PaxosAccepted.arraySize (acc : PaxosAccepted) : Nat :=
  12 * acc.nAids +
    (((acc.values.getD []).take acc.nAids).map fun value => value.len + 4).sum

/-- The fields of a record are in the range of their types. -/
structure PaxosAccepted.InRange (acc : PaxosAccepted) : Prop where
  aids : ∀ aid ∈ acc.aids, aid < 2 ^ 32
  ballots : ∀ ballot ∈ acc.ballots, ballot < 2 ^ 32
  valueBallots : ∀ ballot ∈ acc.valueBallots, ballot < 2 ^ 32
  values : ∀ array, acc.values = some array →
    ∀ value ∈ array, value.len < 2 ^ 31

theorem arrayEntries_eq_some_iff {α : Type} {n : Nat} {array entries : List α} :
    arrayEntries n array = some entries ↔
      n ≤ array.length ∧ array.take n = entries := by
  rw [arrayEntries, Option.ite_none_right_eq_some, Option.some.injEq]

theorem arrayWords_eq_some {n : Nat} {array entries : List Nat}
    (read : arrayWords n array = some entries) :
    entries.length = n ∧ ∀ word ∈ entries, word = 0 ∨ word ∈ array := by
  unfold arrayWords at read
  split at read
  · cases read
    refine ⟨List.length_replicate, ?_⟩
    intro word member
    exact Or.inl (List.eq_of_mem_replicate member)
  · obtain ⟨enough, rfl⟩ := arrayEntries_eq_some_iff.mp read
    refine ⟨List.length_take_of_le enough, ?_⟩
    intro word member
    exact Or.inr (List.mem_of_mem_take member)

theorem arrayEntries_isSome_iff {α : Type} (n : Nat) (array : List α) :
    (arrayEntries n array).isSome ↔ n ≤ array.length := by
  unfold arrayEntries
  split
  · next enough => simp [enough]
  · next short => simp [short]

theorem arrayWords_isSome_iff (n : Nat) (array : List Nat) :
    (arrayWords n array).isSome ↔ array = [] ∨ n ≤ array.length := by
  unfold arrayWords
  split
  · next missing => simp [missing]
  · next present => simp [present, arrayEntries_isSome_iff]

theorem entryValues_eq_some {acc : PaxosAccepted} {values : List PaxosValue}
    (read : acc.entryValues = some values) :
    values.length = acc.nAids ∧
      values = (acc.values.getD []).take acc.nAids := by
  unfold PaxosAccepted.entryValues at read
  split at read
  · next none =>
      cases read
      rw [none, List.take_zero]
      exact ⟨rfl, rfl⟩
  · obtain ⟨array, present, entries⟩ := Option.bind_eq_some_iff.mp read
    obtain ⟨enough, rfl⟩ := arrayEntries_eq_some_iff.mp entries
    rw [present]
    exact ⟨List.length_take_of_le enough, rfl⟩

/-- The buffer of a record holds what the loops read from its arrays. -/
theorem toBuffer_eq_some_iff
    {found : FieldMemory} {acc : PaxosAccepted} {buffer : Buffer} :
    paxosAcceptedToBuffer found acc = some buffer ↔
      ∃ values aids ballots valueBallots,
        acc.entryValues = some values ∧
        arrayEntries acc.nAids acc.aids = some aids ∧
        arrayWords acc.nAids acc.ballots = some ballots ∧
        arrayWords acc.nAids acc.valueBallots = some valueBallots ∧
        buffer =
          { allocated := sizeofAccepted + (acc.nAids * 4 +
              (values.map fun value => value.len + 4).sum) + 4 * acc.nAids * 2
            image := ⟨acc.src, acc.iid, acc.ballot0, acc.valueBallot0,
              acc.nAids, acc.value0.len⟩
            body := aids.flatMap wordBytes ++
              ((copiedValues found values).flatMap valueBytes ++
                (ballots.flatMap wordBytes ++
                  valueBallots.flatMap wordBytes)) } := by
  simp only [paxosAcceptedToBuffer, Option.bind_eq_bind,
    Option.bind_eq_some_iff, Option.some.injEq, eq_comm (a := buffer)]
  grind

theorem toBuffer_isSome_iff (found : FieldMemory) (acc : PaxosAccepted) :
    (paxosAcceptedToBuffer found acc).isSome ↔ acc.Encodable := by
  have parts : (paxosAcceptedToBuffer found acc).isSome ↔
      acc.entryValues.isSome ∧
      (arrayEntries acc.nAids acc.aids).isSome ∧
      (arrayWords acc.nAids acc.ballots).isSome ∧
      (arrayWords acc.nAids acc.valueBallots).isSome := by
    simp only [Option.isSome_iff_exists, toBuffer_eq_some_iff]
    constructor
    · rintro ⟨_, _, _, _, _, values, aids, ballots, valueBallots, _⟩
      exact ⟨⟨_, values⟩, ⟨_, aids⟩, ⟨_, ballots⟩, ⟨_, valueBallots⟩⟩
    · rintro ⟨⟨_, values⟩, ⟨_, aids⟩, ⟨_, ballots⟩, ⟨_, valueBallots⟩⟩
      exact ⟨_, _, _, _, _, values, aids, ballots, valueBallots, rfl⟩
  rw [parts, arrayEntries_isSome_iff, arrayWords_isSome_iff,
    arrayWords_isSome_iff, PaxosAccepted.Encodable,
    PaxosAccepted.entryValues]
  by_cases empty : acc.nAids = 0
  · simp [empty]
  · rw [if_neg empty, or_iff_right empty]
    apply and_congr_left'
    cases acc.values with
    | none => simp
    | some values => simp [arrayEntries_isSome_iff]

section Encoded

variable {found : FieldMemory} {acc : PaxosAccepted} {buffer : Buffer}

/-- The bytes after the struct. -/
theorem length_body_toBuffer
    (encoded : paxosAcceptedToBuffer found acc = some buffer) :
    buffer.body.length = acc.arraySize := by
  obtain ⟨values, aids, ballots, valueBallots, readValues, readAids,
    readBallots, readValueBallots, rfl⟩ := toBuffer_eq_some_iff.mp encoded
  obtain ⟨_, rfl⟩ := entryValues_eq_some readValues
  obtain ⟨enough, rfl⟩ := arrayEntries_eq_some_iff.mp readAids
  have lengths := congrArg (List.map (· + 4)) (map_len_copiedValues found
    ((acc.values.getD []).take acc.nAids))
  rw [List.map_map, List.map_map] at lengths
  have copied : ((copiedValues found ((acc.values.getD []).take acc.nAids)).map
      fun value => value.len + 4) =
      ((acc.values.getD []).take acc.nAids).map fun value => value.len + 4 :=
    lengths
  simp only [List.length_append, length_flatMap_wordBytes,
    length_flatMap_valueBytes, copied, List.length_take_of_le enough,
    (arrayWords_eq_some readBallots).1, (arrayWords_eq_some readValueBallots).1,
    PaxosAccepted.arraySize]
  omega

/-- The decoder takes the whole body of the buffer of a record with entries. -/
theorem parses_body_toBuffer
    (inRange : acc.InRange)
    (encoded : paxosAcceptedToBuffer found acc = some buffer) :
    ∃ out, Parses (readArrays buffer.image) buffer.body out ∧
      out.iid = acc.iid := by
  obtain ⟨values, aids, ballots, valueBallots, readValues, readAids,
    readBallots, readValueBallots, rfl⟩ := toBuffer_eq_some_iff.mp encoded
  obtain ⟨count, shape⟩ := entryValues_eq_some readValues
  obtain ⟨enough, rfl⟩ := arrayEntries_eq_some_iff.mp readAids
  have lengths : (copiedValues found values).length = acc.nAids :=
    (length_copiedValues found values).trans count
  have copiedBound : ∀ value ∈ copiedValues found values,
      value.len < 2 ^ 32 := by
    intro value member
    have lens := List.mem_map_of_mem (f := PaxosValue.len) member
    rw [map_len_copiedValues] at lens
    obtain ⟨original, originalMember, sameLen⟩ := List.mem_map.mp lens
    rw [shape] at originalMember
    have listed := List.mem_of_mem_take originalMember
    cases present : acc.values with
    | none =>
        rw [present] at listed
        cases listed
    | some array =>
        rw [present] at listed
        have := inRange.values array present original listed
        omega
  have wordsBound : ∀ {array words : List Nat},
      arrayWords acc.nAids array = some words →
      (∀ word ∈ array, word < 2 ^ 32) → ∀ word ∈ words, word < 2 ^ 32 := by
    intro array words read bound word member
    rcases (arrayWords_eq_some read).2 word member with rfl | listed
    · exact Nat.two_pow_pos 32
    · exact bound word listed
  refine ⟨_, parses_readArrays _
    (parses_words (List.length_take_of_le enough) ?_)
    (parses_values lengths copiedBound)
    (parses_words (arrayWords_eq_some readBallots).1
      (wordsBound readBallots inRange.ballots))
    (parses_words (arrayWords_eq_some readValueBallots).1
      (wordsBound readValueBallots inRange.valueBallots)), rfl⟩
  intro word member
  exact inRange.aids word (List.mem_of_mem_take member)

/-- The data of a put is decoded exactly when none of the buffer is cut off. -/
theorem fromBuffer_cut
    (inRange : acc.InRange)
    (encoded : paxosAcceptedToBuffer found acc = some buffer)
    {valueLen : Nat} {data : Buffer} (cut : buffer.cut valueLen = some data) :
    if valueLen = acc.arraySize then
      ∃ out, paxosAcceptedFromBuffer data = some out ∧ out.iid = acc.iid
    else
      paxosAcceptedFromBuffer data = none := by
  obtain ⟨enough, same⟩ := Option.ite_none_right_eq_some.mp cut
  cases same
  obtain ⟨out, parses, outIid⟩ := parses_body_toBuffer inRange encoded
  have size := length_body_toBuffer encoded
  have image : buffer.image = ⟨acc.src, acc.iid, acc.ballot0,
      acc.valueBallot0, acc.nAids, acc.value0.len⟩ := by
    obtain ⟨_, _, _, _, _, _, _, _, rfl⟩ := toBuffer_eq_some_iff.mp encoded
    rfl
  unfold paxosAcceptedFromBuffer
  by_cases entries : 0 < acc.nAids
  · have positive : 0 < buffer.image.nAids := by
      rw [image]
      exact entries
    simp only [if_pos positive]
    split
    · next whole =>
        have read := parses.whole []
        rw [List.append_nil] at read
        rw [whole, ← size, List.take_length, read]
        exact ⟨out, rfl, outIid⟩
    · next shortened =>
        have proper : buffer.body.take valueLen ≠ buffer.body := by
          intro same
          have lengths := congrArg List.length same
          rw [List.length_take_of_le enough] at lengths
          exact shortened (lengths.trans size)
        rw [parses.part _ (List.take_prefix _ _) proper]
  · have zero : acc.nAids = 0 := by omega
    have nothing : acc.arraySize = 0 := by
      simp [PaxosAccepted.arraySize, zero]
    have none : ¬ 0 < buffer.image.nAids := by
      rw [image]
      exact entries
    rw [if_pos (by omega)]
    simp only [if_neg none]
    refine ⟨_, rfl, ?_⟩
    rw [image]

end Encoded

end LibPaxos
