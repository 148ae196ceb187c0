import LibPaxos.Wire.Codec

/-!
# What can be unpacked

The unpackers of `paxos_types_pack.c` do not look at the type of an object or of
an element, nor at the number of elements.  They read elements that exist, as
what they are, exactly when the elements follow the layout that the message
type, its `n_aids` and its flags give.
-/

namespace LibPaxos

open LibPaxos.Library

/-- A complete object that `msgpack_unpack_next` hands out. -/
inductive MsgpackObject where
  | array (items : List MsgpackItem)
  | other
  deriving DecidableEq, Repr

/-- `msgpack_unpack_paxos_message` on any object.  It takes every object for an
array. -/
def unpackObject : MsgpackObject → Option RawMessage
  | .array items => unpackPaxosMessage items
  | .other => none

/-- What an element is read as. -/
inductive ItemKind where
  | uint
  | bin
  deriving DecidableEq, Repr

/-- What an element can be read as.  A byte string has to leave room for the
sixteen bytes that are added to its length. -/
def itemKind : MsgpackItem → Option ItemKind
  | .uint _ => some .uint
  | .bin bytes =>
      if BufferFits (intOfUint32 (word32 bytes.length)) then some .bin else none
  | .other => none

/-- The element at an index exists and can be read as this kind, and an `int` can
count past it. -/
def KindAt (items : List MsgpackItem) (i : Nat) (kind : ItemKind) : Prop :=
  items[i]?.bind itemKind = some kind ∧ i < intMax

instance (items : List MsgpackItem) (i : Nat) (kind : ItemKind) :
    Decidable (KindAt items i kind) :=
  inferInstanceAs (Decidable (_ ∧ _))

/-- The elements from an index on are of these kinds. -/
def FitsAt (items : List MsgpackItem) : Nat → List ItemKind → Prop
  | _, [] => True
  | i, kind :: kinds => KindAt items i kind ∧ FitsAt items (i + 1) kinds

/-- The integer at an index. -/
def uintAt (items : List MsgpackItem) (i : Nat) : Nat :=
  match items[i]? with
  | some (.uint value) => word32 value
  | _ => 0

/-- The kinds of the elements of a section with a flag. -/
def sectionKinds (flag n : Nat) (kind : ItemKind) : List ItemKind :=
  if flag = 0 then [] else List.replicate n kind

/-- The kinds of the elements after the type. -/
def layoutOf (items : List MsgpackItem) : Nat → Option (List ItemKind)
  | 0 => some [.uint, .uint, .uint]
  | 1 =>
      let n := uintAt items 5
      some ([.uint, .uint, .uint, .uint, .uint, .bin] ++
        (List.replicate n .uint ++ (List.replicate n .bin ++
          (List.replicate n .uint ++ List.replicate n .uint))))
  | 2 => some [.uint, .uint, .uint, .bin]
  | 3 =>
      let n := uintAt items 3
      let isAids := uintAt items 4
      let isValues := uintAt items 5
      some ([.uint, .uint, .uint, .uint, .uint] ++
        (sectionKinds isAids n .uint ++ (sectionKinds isValues n .bin ++
          (sectionKinds isAids n .uint ++ sectionKinds isAids n .uint))))
  | 4 => some [.uint, .uint, .uint]
  | 5 => some [.uint, .uint]
  | 6 => some [.uint]
  | 7 => some [.uint, .uint]
  | 8 => some [.bin]
  | _ => none

/-- The layout that the first element asks for. -/
def layout (items : List MsgpackItem) : Option (List ItemKind) :=
  match items[0]? with
  | some (MsgpackItem.uint type) => layoutOf items (word32 type)
  | _ => none

theorem fitsAt_append (items : List MsgpackItem) (front : List ItemKind) :
    ∀ (i : Nat) (back : List ItemKind),
      FitsAt items i (front ++ back) ↔
        FitsAt items i front ∧ FitsAt items (i + front.length) back := by
  induction front with
  | nil =>
      intro i back
      simp [FitsAt]
  | cons kind front inductionHypothesis =>
      intro i back
      simp only [List.cons_append, FitsAt, inductionHypothesis, and_assoc,
        List.length_cons]
      rw [Nat.add_right_comm, Nat.add_assoc]

/-! ### One reader after another -/

/-- A reader at an index reads elements of these kinds: it gives a value when
they fit, and has no result otherwise. -/
structure Reads {α : Type} (items : List MsgpackItem) (kinds : List ItemKind)
    (i : Nat) (result : Option (α × Nat)) (value : α) : Prop where
  fits : FitsAt items i kinds → result = some (value, i + kinds.length)
  fails : ¬ FitsAt items i kinds → result = none

theorem Reads.bind_isSome {α β : Type} {items : List MsgpackItem}
    {kinds : List ItemKind} {i : Nat} {result : Option (α × Nat)} {value : α}
    (reads : Reads items kinds i result value)
    (next : α × Nat → Option β) :
    (result >>= next).isSome ↔
      FitsAt items i kinds ∧ (next (value, i + kinds.length)).isSome := by
  rw [Option.bind_eq_bind]
  by_cases fit : FitsAt items i kinds
  · rw [reads.fits fit, Option.bind_some]
    exact (and_iff_right fit).symm
  · rw [reads.fails fit, Option.bind_none]
    exact iff_of_false (by simp) (fun both => fit both.1)

/-- The value that `msgpack_unpack_paxos_value_at` reads. -/
def valueAt (items : List MsgpackItem) (i : Nat) : RawValue :=
  match items[i]? with
  | some (.bin bytes) =>
      let len := intOfUint32 (word32 bytes.length)
      ⟨len, if 0 < len then some (bytes.take len.toNat) else none⟩
  | _ => RawValue.zeroed

theorem itemKind_bin (bytes : List UInt8) (kind : ItemKind) :
    itemKind (.bin bytes) = some kind ↔
      BufferFits (intOfUint32 (word32 bytes.length)) ∧ kind = .bin := by
  rw [itemKind]
  by_cases room : BufferFits (intOfUint32 (word32 bytes.length))
  · rw [if_pos room, Option.some.injEq, eq_comm]
    exact (and_iff_right room).symm
  · rw [if_neg room]
    exact iff_of_false (Option.some_ne_none kind).symm (fun both => room both.1)

theorem kindAt_iff (items : List MsgpackItem) (i : Nat) (kind : ItemKind) :
    KindAt items i kind ↔
      (∃ item, items[i]? = some item ∧ itemKind item = some kind) ∧
        i < intMax := by
  rw [KindAt, Option.bind_eq_some_iff]

theorem kindAt_uint_iff (items : List MsgpackItem) (i : Nat) :
    KindAt items i .uint ↔
      (∃ value, items[i]? = some (.uint value)) ∧ i < intMax := by
  rw [kindAt_iff]
  refine and_congr_left fun _ => ⟨?_, ?_⟩
  · rintro ⟨item, found, isUint⟩
    cases item with
    | uint value => exact ⟨value, found⟩
    | bin bytes => cases ((itemKind_bin bytes .uint).mp isUint).2
    | other => cases isUint
  · rintro ⟨value, found⟩
    exact ⟨.uint value, found, rfl⟩

theorem kindAt_bin_iff (items : List MsgpackItem) (i : Nat) :
    KindAt items i .bin ↔
      (∃ bytes, items[i]? = some (.bin bytes) ∧
        BufferFits (intOfUint32 (word32 bytes.length))) ∧ i < intMax := by
  rw [kindAt_iff]
  refine and_congr_left fun _ => ⟨?_, ?_⟩
  · rintro ⟨item, found, isBin⟩
    cases item with
    | uint value => cases isBin
    | bin bytes => exact ⟨bytes, found, ((itemKind_bin bytes .bin).mp isBin).1⟩
    | other => cases isBin
  · rintro ⟨bytes, found, room⟩
    exact ⟨.bin bytes, found, (itemKind_bin bytes .bin).mpr ⟨room, rfl⟩⟩

theorem reads_uint (items : List MsgpackItem) (i : Nat) :
    Reads items [.uint] i (unpackUint32At items i) (uintAt items i) := by
  refine ⟨?_, ?_⟩
  · intro fit
    obtain ⟨⟨value, found⟩, bound⟩ := (kindAt_uint_iff items i).mp fit.1
    simp only [unpackUint32At, uintAt, found, if_pos bound]
    rfl
  · intro misfit
    have notUint : ¬ KindAt items i .uint := fun kind => misfit ⟨kind, trivial⟩
    rw [kindAt_uint_iff] at notUint
    unfold unpackUint32At
    split
    · next value found =>
        exact if_neg fun bound => notUint ⟨⟨value, found⟩, bound⟩
    · rfl

theorem reads_value (items : List MsgpackItem) (i : Nat) :
    Reads items [.bin] i (unpackPaxosValueAt items i) (valueAt items i) := by
  refine ⟨?_, ?_⟩
  · intro fit
    obtain ⟨⟨bytes, found, room⟩, bound⟩ := (kindAt_bin_iff items i).mp fit.1
    simp only [unpackPaxosValueAt, valueAt, found,
      if_pos (And.intro room bound)]
    rfl
  · intro misfit
    have notBin : ¬ KindAt items i .bin := fun kind => misfit ⟨kind, trivial⟩
    rw [kindAt_bin_iff] at notBin
    unfold unpackPaxosValueAt
    split
    · next bytes found =>
        exact if_neg fun ⟨room, bound⟩ => notBin ⟨⟨bytes, found, room⟩, bound⟩
    · rfl

/-- A loop reads as many elements as it has rounds. -/
theorem reads_array {α : Type} {items : List MsgpackItem} {kind : ItemKind}
    {unpack : Nat → Option (α × Nat)} {read : Nat → α}
    (one : ∀ i, Reads items [kind] i (unpack i) (read i)) (n : Nat) :
    ∀ i, Reads items (List.replicate n kind) i (unpackArray unpack n i)
      ((List.range' i n).map read) := by
  induction n with
  | zero =>
      intro i
      exact ⟨fun _ => rfl, fun misfit => absurd trivial misfit⟩
  | succ n inductionHypothesis =>
      intro i
      refine ⟨?_, ?_⟩
      · intro fit
        have first := (one i).fits ⟨fit.1, trivial⟩
        have rest := (inductionHypothesis (i + 1)).fits fit.2
        simp only [unpackArray, first, Option.bind_eq_bind, Option.bind_some,
          List.length_singleton, rest]
        simp only [List.range'_succ, List.map_cons, List.length_replicate]
        congr 2
        omega
      · intro misfit
        by_cases here : KindAt items i kind
        · have first := (one i).fits ⟨here, trivial⟩
          have rest := (inductionHypothesis (i + 1)).fails
            fun later => misfit ⟨here, later⟩
          simp only [unpackArray, first, Option.bind_eq_bind,
            Option.bind_some, List.length_singleton, rest, Option.bind_none]
        · have first := (one i).fails fun both => here both.1
          simp only [unpackArray, first, Option.bind_eq_bind,
            Option.bind_none]

/-- A section reads its elements when its flag is set. -/
theorem reads_section {α : Type} {items : List MsgpackItem} {kind : ItemKind}
    {unpack : Nat → Option (α × Nat)} {read : Nat → α}
    (one : ∀ i, Reads items [kind] i (unpack i) (read i)) (flag n i : Nat) :
    Reads items (sectionKinds flag n kind) i (unpackSection flag unpack n i)
      (if flag = 0 then none else some ((List.range' i n).map read)) := by
  unfold sectionKinds unpackSection
  by_cases unset : flag = 0
  · simp only [if_pos unset]
    exact ⟨fun _ => rfl, fun misfit => absurd trivial misfit⟩
  · simp only [if_neg unset]
    have loop := reads_array one n i
    refine ⟨?_, ?_⟩
    · intro fit
      rw [loop.fits fit]
      rfl
    · intro misfit
      rw [loop.fails misfit]
      rfl

/-! ### Messages -/

section Messages

variable (items : List MsgpackItem)

theorem isSome_bind_uint {β : Type} (i : Nat)
    (next : Nat × Nat → Option β) :
    (unpackUint32At items i >>= next).isSome ↔
      FitsAt items i [.uint] ∧ (next (uintAt items i, i + 1)).isSome :=
  (reads_uint items i).bind_isSome next

theorem isSome_bind_value {β : Type} (i : Nat)
    (next : RawValue × Nat → Option β) :
    (unpackPaxosValueAt items i >>= next).isSome ↔
      FitsAt items i [.bin] ∧ (next (valueAt items i, i + 1)).isSome :=
  (reads_value items i).bind_isSome next

theorem unpackPaxosPrepare_isSome_iff :
    (unpackPaxosPrepare items).isSome ↔
      FitsAt items 1 [.uint, .uint, .uint] := by
  simp only [unpackPaxosPrepare, isSome_bind_uint,
    FitsAt, Option.isSome_some, and_true, Nat.reduceAdd]

theorem unpackPaxosPromise_isSome_iff :
    (unpackPaxosPromise items).isSome ↔
      FitsAt items 1
        (([.uint, .uint, .uint, .uint, .uint, .bin] : List ItemKind) ++
          (List.replicate (uintAt items 5) ItemKind.uint ++
            (List.replicate (uintAt items 5) ItemKind.bin ++
              (List.replicate (uintAt items 5) ItemKind.uint ++
                List.replicate (uintAt items 5) ItemKind.uint)))) := by
  -- The elements are read from the first on, so the rewriting goes outside in.
  simp only [unpackPaxosPromise, ↓isSome_bind_uint, ↓isSome_bind_value,
    ↓(reads_array (reads_uint items) _ _).bind_isSome,
    ↓(reads_array (reads_value items) _ _).bind_isSome, fitsAt_append,
    FitsAt, Option.isSome_some, and_true, and_assoc, Nat.reduceAdd,
    List.length_cons, List.length_nil]

theorem unpackPaxosAccept_isSome_iff :
    (unpackPaxosAccept items).isSome ↔
      FitsAt items 1 [.uint, .uint, .uint, .bin] := by
  simp only [unpackPaxosAccept, isSome_bind_uint,
    isSome_bind_value, FitsAt, Option.isSome_some, and_true, Nat.reduceAdd]

theorem unpackPaxosAccepted_isSome_iff :
    (unpackPaxosAccepted items).isSome ↔
      FitsAt items 1
        (([.uint, .uint, .uint, .uint, .uint] : List ItemKind) ++
          (sectionKinds (uintAt items 4) (uintAt items 3) .uint ++
            (sectionKinds (uintAt items 5) (uintAt items 3) .bin ++
              (sectionKinds (uintAt items 4) (uintAt items 3) .uint ++
                sectionKinds (uintAt items 4) (uintAt items 3) .uint)))) := by
  simp only [unpackPaxosAccepted, ↓isSome_bind_uint,
    ↓(reads_section (reads_uint items) _ _ _).bind_isSome,
    ↓(reads_section (reads_value items) _ _ _).bind_isSome, fitsAt_append,
    FitsAt, Option.isSome_some, and_true, and_assoc, Nat.reduceAdd,
    List.length_cons, List.length_nil]

theorem unpackPaxosPreempted_isSome_iff :
    (unpackPaxosPreempted items).isSome ↔
      FitsAt items 1 [.uint, .uint, .uint] := by
  simp only [unpackPaxosPreempted, isSome_bind_uint,
    FitsAt, Option.isSome_some, and_true, Nat.reduceAdd]

theorem unpackPaxosRepeat_isSome_iff :
    (unpackPaxosRepeat items).isSome ↔ FitsAt items 1 [.uint, .uint] := by
  simp only [unpackPaxosRepeat, isSome_bind_uint,
    FitsAt, Option.isSome_some, and_true, Nat.reduceAdd]

theorem unpackPaxosTrim_isSome_iff :
    (unpackPaxosTrim items).isSome ↔ FitsAt items 1 [.uint] := by
  simp only [unpackPaxosTrim, isSome_bind_uint,
    Option.isSome_some, and_true]

theorem unpackPaxosAcceptorState_isSome_iff :
    (unpackPaxosAcceptorState items).isSome ↔
      FitsAt items 1 [.uint, .uint] := by
  simp only [unpackPaxosAcceptorState, isSome_bind_uint,
    FitsAt, Option.isSome_some, and_true, Nat.reduceAdd]

theorem unpackPaxosClientValue_isSome_iff :
    (unpackPaxosClientValue items).isSome ↔ FitsAt items 1 [.bin] := by
  simp only [unpackPaxosClientValue, isSome_bind_value,
    Option.isSome_some, and_true]

/-- Each type has its layout, and an unknown type has none. -/
theorem unpackByType_isSome_iff (type : Nat) :
    (unpackByType items type).isSome ↔
      ∃ kinds, layoutOf items type = some kinds ∧ FitsAt items 1 kinds := by
  have known : ∀ {kinds : List ItemKind} {P : Prop},
      (P ↔ FitsAt items 1 kinds) →
        (P ↔ ∃ others, some kinds = some others ∧ FitsAt items 1 others) := by
    intro kinds P same
    rw [same]
    constructor
    · intro fit
      exact ⟨kinds, rfl, fit⟩
    · rintro ⟨others, isKinds, fit⟩
      cases isKinds
      exact fit
  unfold unpackByType layoutOf
  split
  · rw [Option.isSome_map]
    exact known (unpackPaxosPrepare_isSome_iff items)
  · rw [Option.isSome_map]
    exact known (unpackPaxosPromise_isSome_iff items)
  · rw [Option.isSome_map]
    exact known (unpackPaxosAccept_isSome_iff items)
  · rw [Option.isSome_map]
    exact known (unpackPaxosAccepted_isSome_iff items)
  · rw [Option.isSome_map]
    exact known (unpackPaxosPreempted_isSome_iff items)
  · rw [Option.isSome_map]
    exact known (unpackPaxosRepeat_isSome_iff items)
  · rw [Option.isSome_map]
    exact known (unpackPaxosTrim_isSome_iff items)
  · rw [Option.isSome_map]
    exact known (unpackPaxosAcceptorState_isSome_iff items)
  · rw [Option.isSome_map]
    exact known (unpackPaxosClientValue_isSome_iff items)
  · simp

end Messages

/-- `msgpack_unpack_paxos_message` fills a message, from elements that exist and
as what they are, exactly when the object is an array that follows the layout of
its type. -/
theorem unpack_follows_layout_iff (o : MsgpackObject) :
    (unpackObject o).isSome ↔
      ∃ items kinds, o = .array items ∧ layout items = some kinds ∧
        FitsAt items 1 kinds := by
  cases o with
  | other =>
      apply iff_of_false (by simp [unpackObject])
      rintro ⟨items, kinds, isArray, _⟩
      cases isArray
  | array items =>
      have filled : (unpackPaxosMessage items).isSome ↔
          ∃ kinds, layout items = some kinds ∧ FitsAt items 1 kinds := by
        unfold unpackPaxosMessage layout
        cases items[0]? with
        | none => simp
        | some first =>
            cases first with
            | uint type => exact unpackByType_isSome_iff items (word32 type)
            | bin bytes => simp
            | other => simp
      constructor
      · intro some
        obtain ⟨kinds, isLayout, fit⟩ := filled.mp some
        exact ⟨items, kinds, rfl, isLayout, fit⟩
      · rintro ⟨others, kinds, isArray, isLayout, fit⟩
        cases isArray
        exact filled.mpr ⟨kinds, isLayout, fit⟩

/-- A promise that declares two entries and has none, an object that is not an
array, an array without the fields of its type, a field of another type, and an
unknown type. -/
theorem malformed_objects_fault :
    unpackObject (.array [.uint 1, .uint 0, .uint 1, .uint 5, .uint 5, .uint 2,
        .bin []]) = none ∧
      unpackObject .other = none ∧
      unpackObject (.array [.uint 6]) = none ∧
      unpackObject (.array [.uint 6, .bin [1]]) = none ∧
      unpackObject (.array [.uint 9]) = none := by
  decide

end LibPaxos
