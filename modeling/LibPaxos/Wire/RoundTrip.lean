import LibPaxos.Wire.Codec

/-!
# Messages survive the wire

A message that is packed and unpacked arrives with its fields, read at the
indices at which they were written.  The elements of a message are first written
down as one list; the packing functions produce that list, and the unpacking
functions read it back with their running index.
-/

namespace LibPaxos

open LibPaxos.Library

/-! ### The elements of a message -/

/-- The entries of a section, when its flag is set. -/
def sectionOf {α : Type} (flag : Bool) (entries : List α) : List α :=
  if flag then entries else []

/-- The ballots of an accepted on the wire. -/
def ballotsOrZero (n : Nat) (array : Option (List Nat)) : List Nat :=
  array.getD (List.replicate n 0)

def RawReply.promiseItems (v : RawReply) : List MsgpackItem :=
  [.uint 1, .uint v.src, .uint v.iid, .uint v.ballot0, .uint v.valueBallot0,
    .uint v.nAids, packPaxosValue v.value0] ++
    ((v.aids.getD []).map MsgpackItem.uint ++
      ((v.values.getD []).map packPaxosValue ++
        ((v.ballots.getD []).map MsgpackItem.uint ++
          (v.valueBallots.getD []).map MsgpackItem.uint)))

def RawReply.acceptedItems (v : RawReply) : List MsgpackItem :=
  [.uint 3, .uint 0, .uint v.iid, .uint v.nAids,
    .uint (if isPresent v.aids v.nAids then 1 else 0),
    .uint (if isPresent v.values v.nAids then 1 else 0)] ++
    (sectionOf (isPresent v.aids v.nAids)
        ((v.aids.getD []).map MsgpackItem.uint) ++
      (sectionOf (isPresent v.values v.nAids)
          ((v.values.getD []).map packPaxosValue) ++
        (sectionOf (isPresent v.aids v.nAids)
            ((ballotsOrZero v.nAids v.ballots).map MsgpackItem.uint) ++
          sectionOf (isPresent v.aids v.nAids)
            ((ballotsOrZero v.nAids v.valueBallots).map MsgpackItem.uint))))

def RawMessage.items : RawMessage → List MsgpackItem
  | .prepare v => [.uint 0, .uint v.src, .uint v.iid, .uint v.ballot]
  | .promise v => v.promiseItems
  | .accept v =>
      [.uint 2, .uint v.src, .uint v.iid, .uint v.ballot,
        packPaxosValue v.value]
  | .accepted v => v.acceptedItems
  | .preempted v => [.uint 4, .uint v.aid, .uint v.iid, .uint v.ballot]
  | .repeat v => [.uint 5, .uint v.first, .uint v.last]
  | .trim v => [.uint 6, .uint v.iid]
  | .acceptorState v => [.uint 7, .uint v.aid, .uint v.trimIid]
  | .clientValue v => [.uint 8, packPaxosValue v]

/-! ### Arrays -/

section Arrays

variable {α : Type} {P : α → Prop} {n : Nat} {array : Option (List α)}

theorem isPresent_eq_true (present : isPresent array n = true) :
    array = some (array.getD []) := by
  unfold isPresent at present
  rw [Bool.and_eq_true] at present
  obtain ⟨entries, isSome⟩ := Option.isSome_iff_exists.mp present.1
  rw [isSome, Option.getD_some]

theorem ArrayOf.of_present (filled : ArrayOf P n array)
    (present : isPresent array n = true) :
    ArrayOf P n (some (array.getD [])) := by
  rw [← isPresent_eq_true present]
  exact filled

/-- An array that may be missing only for the length zero. -/
theorem ArrayOf.of_complete (filled : ArrayOf P n array)
    (complete : 0 < n → array.isSome = true) :
    ArrayOf P n (some (array.getD [])) := by
  cases array with
  | some entries => exact filled
  | none =>
      intro entries isEntries
      cases isEntries
      cases n with
      | zero => exact ⟨rfl, fun _ member => absurd member List.not_mem_nil⟩
      | succ n => exact absurd (complete (Nat.succ_pos n)) Bool.false_ne_true

theorem ArrayOf.ballotsOrZero {ballots : Option (List Nat)}
    (filled : ArrayOf (· < 2 ^ 32) n ballots) :
    ArrayOf (· < 2 ^ 32) n (some (ballotsOrZero n ballots)) := by
  cases ballots with
  | some entries => exact filled
  | none =>
      intro entries isEntries
      cases isEntries
      refine ⟨List.length_replicate, ?_⟩
      intro entry member
      rw [List.eq_of_mem_replicate member]
      decide

theorem ArrayOf.length_eq {entries : List α}
    (filled : ArrayOf P n (some entries)) : entries.length = n :=
  (filled entries rfl).1

end Arrays

/-- All arrays of a reply have `n_aids` entries, a null pointer counting as no
entries. -/
structure RawReply.Filled (v : RawReply) : Prop where
  aids : ArrayOf (· < 2 ^ 32) v.nAids (some (v.aids.getD []))
  values : ArrayOf RawValue.WellFormed v.nAids (some (v.values.getD []))
  ballots : ArrayOf (· < 2 ^ 32) v.nAids (some (v.ballots.getD []))
  valueBallots : ArrayOf (· < 2 ^ 32) v.nAids (some (v.valueBallots.getD []))

theorem RawReply.WellFormed.filled {v : RawReply} (ok : v.WellFormed)
    (complete : (RawMessage.promise v).Complete) : v.Filled where
  aids := ok.aids.of_complete fun positive => (complete positive).1
  values := ok.values.of_complete fun positive => (complete positive).2.1
  ballots := ok.ballots.of_complete fun positive => (complete positive).2.2.1
  valueBallots :=
    ok.valueBallots.of_complete fun positive => (complete positive).2.2.2

/-! ### Packing -/

theorem packArray_eq {α : Type} {P : α → Prop} {n : Nat}
    (pack : α → MsgpackItem) (array : Option (List α))
    (filled : ArrayOf P n (some (array.getD []))) :
    packArray pack n array = some ((array.getD []).map pack) := by
  have length := filled.length_eq
  unfold packArray
  split
  · next empty =>
      rw [empty, List.length_eq_zero_iff] at length
      rw [length]
      rfl
  · next nonempty =>
      cases array with
      | none => exact absurd length.symm nonempty
      | some entries =>
          rw [Option.getD_some] at length
          subst length
          simp only [le_refl, if_true, Option.getD_some, List.take_length]

theorem packSection_eq {α : Type} {P : α → Prop} {n : Nat}
    {array : Option (List α)} (pack : α → MsgpackItem)
    (filled : ArrayOf P n array) :
    packSection (isPresent array n) (packArray pack n array) =
      some (sectionOf (isPresent array n) ((array.getD []).map pack)) := by
  cases present : isPresent array n with
  | false => rfl
  | true => exact packArray_eq pack array (filled.of_present present)

theorem packOrZero_eq {n : Nat} {array : Option (List Nat)} (flag : Bool)
    (filled : ArrayOf (· < 2 ^ 32) n array) :
    packSection flag (packOrZero n array) =
      some (sectionOf flag ((ballotsOrZero n array).map .uint)) := by
  cases flag with
  | false => rfl
  | true =>
      cases array with
      | none => simp [packSection, packOrZero, sectionOf, ballotsOrZero]
      | some entries => exact packArray_eq .uint (some entries) filled

theorem packPaxosPromise_eq {v : RawReply} (ok : v.WellFormed)
    (complete : (RawMessage.promise v).Complete) :
    packPaxosPromise v = some ⟨7 + 4 * v.nAids, v.promiseItems⟩ := by
  have bound := ok.nAids
  have count : word32 (7 + v.nAids + v.nAids + v.nAids + v.nAids) =
      7 + 4 * v.nAids := by
    rw [word32_of_lt (by omega)]
    omega
  have filled := ok.filled complete
  have aids := packArray_eq MsgpackItem.uint v.aids filled.aids
  have values := packArray_eq packPaxosValue v.values filled.values
  have ballots := packArray_eq MsgpackItem.uint v.ballots filled.ballots
  have valueBallots :=
    packArray_eq MsgpackItem.uint v.valueBallots filled.valueBallots
  simp only [packPaxosPromise, aids, values, ballots, valueBallots,
    Option.bind_eq_bind, Option.bind_some, count, RawReply.promiseItems]

theorem packPaxosAccepted_eq {v : RawReply} (ok : v.WellFormed) :
    packPaxosAccepted v =
      some ⟨(RawMessage.accepted v).elements, v.acceptedItems⟩ := by
  have bound := ok.nAids
  have count :
      word32 (6 + (if isPresent v.aids v.nAids then v.nAids else 0) * 3 +
        (if isPresent v.values v.nAids then v.nAids else 0)) =
      (RawMessage.accepted v).elements := by
    simp only [RawMessage.elements]
    rw [word32_of_lt]
    · split <;> split <;> omega
    · split <;> split <;> omega
  simp only [packPaxosAccepted, packSection_eq _ ok.aids,
    packSection_eq _ ok.values, packOrZero_eq _ ok.ballots,
    packOrZero_eq _ ok.valueBallots, Option.bind_eq_bind, Option.bind_some,
    count, RawReply.acceptedItems]

/-- A message is packed as its elements, after their number. -/
theorem packPaxosMessage_eq {m : RawMessage} (ok : m.WellFormed)
    (complete : m.Complete) :
    packPaxosMessage m = some ⟨m.elements, m.items⟩ := by
  cases m with
  | promise v => exact packPaxosPromise_eq ok complete
  | accepted v => exact packPaxosAccepted_eq ok
  | prepare _ => rfl
  | accept _ => rfl
  | preempted _ => rfl
  | «repeat» _ => rfl
  | trim _ => rfl
  | acceptorState _ => rfl
  | clientValue _ => rfl

/-! ### The number of elements -/

theorem length_sectionOf {α β : Type} {P : α → Prop} {n : Nat}
    {entries : List α} (f : α → β) (flag : Bool)
    (filled : flag = true → ArrayOf P n (some entries)) :
    (sectionOf flag (entries.map f)).length = if flag then n else 0 := by
  cases flag with
  | false => rfl
  | true =>
      rw [← (filled rfl).length_eq]
      exact List.length_map f

theorem length_promiseItems {v : RawReply} (ok : v.WellFormed)
    (complete : (RawMessage.promise v).Complete) :
    v.promiseItems.length = 7 + 4 * v.nAids := by
  have filled := ok.filled complete
  have aids := filled.aids.length_eq
  have values := filled.values.length_eq
  have ballots := filled.ballots.length_eq
  have valueBallots := filled.valueBallots.length_eq
  simp only [RawReply.promiseItems, List.length_append, List.length_map,
    List.length_cons, List.length_nil, aids, values, ballots, valueBallots]
  omega

theorem length_acceptedItems {v : RawReply} (ok : v.WellFormed) :
    v.acceptedItems.length = (RawMessage.accepted v).elements := by
  have aids := length_sectionOf MsgpackItem.uint (isPresent v.aids v.nAids)
    ok.aids.of_present
  have values := length_sectionOf packPaxosValue (isPresent v.values v.nAids)
    ok.values.of_present
  have ballots := length_sectionOf MsgpackItem.uint (isPresent v.aids v.nAids)
    fun _ => ok.ballots.ballotsOrZero
  have valueBallots := length_sectionOf MsgpackItem.uint
    (isPresent v.aids v.nAids) fun _ => ok.valueBallots.ballotsOrZero
  simp only [RawReply.acceptedItems, List.length_append, List.length_cons,
    List.length_nil, aids, values, ballots, valueBallots, RawMessage.elements]
  split <;> split <;> omega

theorem length_items {m : RawMessage} (ok : m.WellFormed)
    (complete : m.Complete) : m.items.length = m.elements := by
  cases m with
  | promise v => exact length_promiseItems ok complete
  | accepted v => exact length_acceptedItems ok
  | prepare _ => rfl
  | accept _ => rfl
  | preempted _ => rfl
  | «repeat» _ => rfl
  | trim _ => rfl
  | acceptorState _ => rfl
  | clientValue _ => rfl

/-! ### The running index -/

section Reading

variable {o rest : List MsgpackItem} {i : Nat}

theorem drop_succ_of_drop {item : MsgpackItem}
    (here : o.drop i = item :: rest) :
    o[i]? = some item ∧ o.drop (i + 1) = rest := by
  constructor
  · rw [← List.head?_drop, here]
    rfl
  · rw [← List.drop_drop, here]
    rfl

/-- An element is unpacked as what arrives of an entry, when the index is at the
element that the entry was packed into. -/
def Unpacks {α : Type} (o : List MsgpackItem) (pack : α → MsgpackItem)
    (unpack : Nat → Option (α × Nat)) (entry arrived : α) : Prop :=
  ∀ i rest, o.drop i = pack entry :: rest → i < intMax →
    unpack i = some (arrived, i + 1)

theorem unpacks_uint32 (value : Nat) (range : value < 2 ^ 32) :
    Unpacks o .uint (unpackUint32At o) value value := by
  intro i rest here index
  simp only [unpackUint32At, (drop_succ_of_drop here).1, if_pos index,
    word32_of_lt range]

theorem unpacks_paxosValue (v : RawValue) (ok : v.WellFormed) :
    Unpacks o packPaxosValue (unpackPaxosValueAt o) v v.received := by
  intro i rest here index
  obtain ⟨len, val⟩ := v
  have range := ok.range
  cases val with
  | none =>
      have empty := ok.null rfl
      simp only at empty
      subst empty
      have room : BufferFits (intOfUint32 (word32 ([] : List UInt8).length)) :=
        by decide
      simp only [unpackPaxosValueAt, packPaxosValue,
        (drop_succ_of_drop here).1, if_pos (And.intro room index)]
      rfl
  | some bytes =>
      have length := ok.buffer bytes rfl
      simp only at length range
      subst length
      have decoded : intOfUint32 (word32 bytes.length) = bytes.length := by
        rw [word32_of_lt (by omega)]
        exact intOfUint32_of_lt (by omega)
      have room : BufferFits (bytes.length : Int) := by
        intro _
        simp only [intMax]
        omega
      simp only [unpackPaxosValueAt, packPaxosValue,
        (drop_succ_of_drop here).1, Int.toNat_natCast, List.take_length,
        decoded, if_pos (And.intro room index)]
      cases bytes with
      | nil => rfl
      | cons first others =>
          have positive : (0 : Int) < (first :: others).length := by
            simp only [List.length_cons]
            omega
          simp only [RawValue.received, if_pos positive,
            if_neg (Int.ne_of_gt positive)]

variable {α : Type} {P : α → Prop} {pack : α → MsgpackItem}
variable {unpack : Nat → Option (α × Nat)} {arrive : α → α}

/-- An array is unpacked entry by entry. -/
theorem unpackArray_entries (entries : List α)
    (unpacks : ∀ entry ∈ entries, Unpacks o pack unpack entry (arrive entry)) :
    ∀ i, o.drop i = entries.map pack ++ rest →
      i + entries.length ≤ intMax →
      unpackArray unpack entries.length i =
          some (entries.map arrive, i + entries.length) ∧
        o.drop (i + entries.length) = rest := by
  induction entries with
  | nil =>
      intro i here _
      exact ⟨rfl, here⟩
  | cons entry others inductionHypothesis =>
      intro i here room
      rw [List.length_cons] at room
      rw [List.map_cons, List.cons_append] at here
      have first := unpacks entry (List.mem_cons_self ..) i _ here (by omega)
      obtain ⟨decoded, after⟩ := inductionHypothesis
        (fun other member => unpacks other (List.mem_cons_of_mem _ member))
        (i + 1) (drop_succ_of_drop here).2 (by omega)
      have total : i + 1 + others.length = i + (entry :: others).length := by
        rw [List.length_cons]
        omega
      rw [total] at decoded after
      refine ⟨?_, after⟩
      simp only [List.length_cons, unpackArray, first, decoded,
        Option.bind_eq_bind, Option.bind_some, List.map_cons]

theorem unpackArray_eq {n : Nat} {entries : List α}
    (unpacks : ∀ entry, P entry → Unpacks o pack unpack entry (arrive entry))
    (filled : ArrayOf P n (some entries))
    (here : o.drop i = entries.map pack ++ rest) (room : i + n ≤ intMax) :
    unpackArray unpack n i = some (entries.map arrive, i + n) ∧
      o.drop (i + n) = rest := by
  obtain ⟨length, all⟩ := filled entries rfl
  subst length
  apply unpackArray_entries entries _ i here room
  intro entry member
  exact unpacks entry (all entry member)

theorem unpackSection_eq {n : Nat} {entries : List α} {flag : Bool}
    (unpacks : ∀ entry, P entry → Unpacks o pack unpack entry (arrive entry))
    (filled : flag = true → ArrayOf P n (some entries))
    (here : o.drop i = sectionOf flag (entries.map pack) ++ rest)
    (room : i + (if flag then n else 0) ≤ intMax) :
    unpackSection (if flag then 1 else 0) unpack n i =
        some (if flag then some (entries.map arrive) else none,
          i + if flag then n else 0) ∧
      o.drop (i + if flag then n else 0) = rest := by
  cases flag with
  | false => exact ⟨rfl, here⟩
  | true =>
      obtain ⟨decoded, after⟩ :=
        unpackArray_eq unpacks (filled rfl) here room
      refine ⟨?_, after⟩
      simp only [unpackSection, if_true, Nat.one_ne_zero, if_false, decoded,
        Option.map_some]

end Reading

/-! ### Unpacking -/

theorem bind_of_eq {α β : Type} {x : Option α} {a : α} {f : α → Option β}
    (isSome : x = some a) : (x >>= f) = f a := by
  rw [isSome]
  rfl

theorem unpack_promiseItems {v : RawReply} (ok : v.WellFormed)
    (complete : (RawMessage.promise v).Complete)
    (small : 7 + 4 * v.nAids ≤ intMax) :
    unpackPaxosPromise v.promiseItems = some v.receivedPromise := by
  have bound := ok.nAids
  have here : v.promiseItems.drop 7 =
      (v.aids.getD []).map .uint ++ ((v.values.getD []).map packPaxosValue ++
        ((v.ballots.getD []).map .uint ++
          ((v.valueBallots.getD []).map .uint ++ []))) := by
    rw [List.append_nil]
    rfl
  generalize isItems : v.promiseItems = o at here
  have src : unpackUint32At o 1 = some (v.src, 2) :=
    unpacks_uint32 v.src ok.src 1 _ (by rw [← isItems]; rfl) (by decide)
  have iid : unpackUint32At o 2 = some (v.iid, 3) :=
    unpacks_uint32 v.iid ok.iid 2 _ (by rw [← isItems]; rfl) (by decide)
  have ballot0 : unpackUint32At o 3 = some (v.ballot0, 4) :=
    unpacks_uint32 v.ballot0 ok.ballot0 3 _ (by rw [← isItems]; rfl) (by decide)
  have valueBallot0 : unpackUint32At o 4 = some (v.valueBallot0, 5) :=
    unpacks_uint32 v.valueBallot0 ok.valueBallot0 4 _
      (by rw [← isItems]; rfl) (by decide)
  have nAids : unpackUint32At o 5 = some (v.nAids, 6) :=
    unpacks_uint32 v.nAids (by omega) 5 _ (by rw [← isItems]; rfl) (by decide)
  have value0 : unpackPaxosValueAt o 6 = some (v.value0.received, 7) :=
    unpacks_paxosValue v.value0 ok.value0 6 _
      (by rw [← isItems]; rfl) (by decide)
  have filled := ok.filled complete
  obtain ⟨aids, here⟩ :=
    unpackArray_eq unpacks_uint32 filled.aids here (by omega)
  obtain ⟨values, here⟩ :=
    unpackArray_eq unpacks_paxosValue filled.values here (by omega)
  obtain ⟨ballots, here⟩ :=
    unpackArray_eq unpacks_uint32 filled.ballots here (by omega)
  obtain ⟨valueBallots, _⟩ :=
    unpackArray_eq unpacks_uint32 filled.valueBallots here (by omega)
  rw [List.map_id'] at aids ballots valueBallots
  apply (bind_of_eq src).trans
  apply (bind_of_eq iid).trans
  apply (bind_of_eq ballot0).trans
  apply (bind_of_eq valueBallot0).trans
  apply (bind_of_eq nAids).trans
  apply (bind_of_eq value0).trans
  apply (bind_of_eq aids).trans
  apply (bind_of_eq values).trans
  apply (bind_of_eq ballots).trans
  apply (bind_of_eq valueBallots).trans
  rfl

theorem section_getD {α : Type} {n : Nat} (array : Option (List α)) :
    (if isPresent array n then some (array.getD []) else none) =
      if isPresent array n then array else none := by
  split
  · next present => exact (isPresent_eq_true present).symm
  · rfl

theorem section_map_getD {α : Type} {n : Nat} (array : Option (List α))
    (arrive : α → α) :
    (if isPresent array n then some ((array.getD []).map arrive) else none) =
      if isPresent array n then array.map (List.map arrive) else none := by
  have mapped :=
    congrArg (Option.map (List.map arrive)) (section_getD (n := n) array)
  rw [apply_ite (Option.map (List.map arrive)),
    apply_ite (Option.map (List.map arrive))] at mapped
  exact mapped

theorem unpack_acceptedItems {v : RawReply} (ok : v.WellFormed)
    (small : (RawMessage.accepted v).elements ≤ intMax) :
    unpackPaxosAccepted v.acceptedItems = some v.receivedAccepted := by
  have bound := ok.nAids
  have here : v.acceptedItems.drop 6 =
      sectionOf (isPresent v.aids v.nAids) ((v.aids.getD []).map .uint) ++
        (sectionOf (isPresent v.values v.nAids)
            ((v.values.getD []).map packPaxosValue) ++
          (sectionOf (isPresent v.aids v.nAids)
              ((ballotsOrZero v.nAids v.ballots).map .uint) ++
            (sectionOf (isPresent v.aids v.nAids)
              ((ballotsOrZero v.nAids v.valueBallots).map .uint) ++ []))) := by
    rw [List.append_nil]
    rfl
  generalize isItems : v.acceptedItems = o at here
  have src : unpackUint32At o 1 = some (0, 2) :=
    unpacks_uint32 0 (by decide) 1 _ (by rw [← isItems]; rfl) (by decide)
  have iid : unpackUint32At o 2 = some (v.iid, 3) :=
    unpacks_uint32 v.iid ok.iid 2 _ (by rw [← isItems]; rfl) (by decide)
  have nAids : unpackUint32At o 3 = some (v.nAids, 4) :=
    unpacks_uint32 v.nAids (by omega) 3 _ (by rw [← isItems]; rfl) (by decide)
  have isAids : unpackUint32At o 4 =
      some (if isPresent v.aids v.nAids then 1 else 0, 5) :=
    unpacks_uint32 _ (by split <;> decide) 4 _
      (by rw [← isItems]; rfl) (by decide)
  have isValues : unpackUint32At o 5 =
      some (if isPresent v.values v.nAids then 1 else 0, 6) :=
    unpacks_uint32 _ (by split <;> decide) 5 _
      (by rw [← isItems]; rfl) (by decide)
  have room : 6 + (if isPresent v.aids v.nAids then v.nAids else 0) +
      (if isPresent v.values v.nAids then v.nAids else 0) +
      (if isPresent v.aids v.nAids then v.nAids else 0) +
      (if isPresent v.aids v.nAids then v.nAids else 0) ≤ intMax := by
    simp only [RawMessage.elements] at small
    apply le_trans (le_of_eq _) small
    split <;> split <;> omega
  obtain ⟨aids, here⟩ :=
    unpackSection_eq unpacks_uint32 ok.aids.of_present here (by omega)
  obtain ⟨values, here⟩ :=
    unpackSection_eq unpacks_paxosValue ok.values.of_present here (by omega)
  obtain ⟨ballots, here⟩ := unpackSection_eq unpacks_uint32
    (fun _ => ok.ballots.ballotsOrZero) here (by omega)
  obtain ⟨valueBallots, _⟩ := unpackSection_eq unpacks_uint32
    (fun _ => ok.valueBallots.ballotsOrZero) here (by omega)
  rw [List.map_id'] at aids ballots valueBallots
  rw [section_getD] at aids
  rw [section_map_getD] at values
  apply (bind_of_eq src).trans
  apply (bind_of_eq iid).trans
  apply (bind_of_eq nAids).trans
  apply (bind_of_eq isAids).trans
  apply (bind_of_eq isValues).trans
  apply (bind_of_eq aids).trans
  apply (bind_of_eq values).trans
  apply (bind_of_eq ballots).trans
  apply (bind_of_eq valueBallots).trans
  rfl

/-- The elements of a message are unpacked as what arrives of it. -/
theorem unpack_items {m : RawMessage} (ok : m.WellFormed)
    (complete : m.Complete) (small : m.elements ≤ intMax) :
    unpackPaxosMessage m.items = some m.received := by
  cases m with
  | promise v =>
      exact congrArg (Option.map RawMessage.promise)
        (unpack_promiseItems ok complete small)
  | accepted v =>
      exact congrArg (Option.map RawMessage.accepted)
        (unpack_acceptedItems ok small)
  | prepare v =>
      obtain ⟨src, iid, ballot⟩ := ok
      change some (RawMessage.prepare
        ⟨word32 v.src, word32 v.iid, word32 v.ballot⟩) = _
      rw [word32_of_lt src, word32_of_lt iid, word32_of_lt ballot]
      rfl
  | accept v =>
      obtain ⟨src, iid, ballot, value⟩ := ok
      have read := unpacks_paxosValue (o := (RawMessage.accept v).items)
        v.value value 4 [] rfl (by decide)
      change Option.map RawMessage.accept
        ((unpackPaxosValueAt (RawMessage.accept v).items 4).bind fun value =>
          some ⟨word32 v.src, word32 v.iid, word32 v.ballot, value.1⟩) = _
      rw [read, word32_of_lt src, word32_of_lt iid, word32_of_lt ballot]
      rfl
  | preempted v =>
      obtain ⟨aid, iid, ballot⟩ := ok
      change some (RawMessage.preempted
        ⟨word32 v.aid, word32 v.iid, word32 v.ballot⟩) = _
      rw [word32_of_lt aid, word32_of_lt iid, word32_of_lt ballot]
      rfl
  | «repeat» v =>
      obtain ⟨first, last⟩ := ok
      change some (RawMessage.repeat ⟨word32 v.first, word32 v.last⟩) = _
      rw [word32_of_lt first, word32_of_lt last]
      rfl
  | trim v =>
      change some (RawMessage.trim ⟨word32 v.iid⟩) = _
      rw [word32_of_lt ok]
      rfl
  | acceptorState v =>
      obtain ⟨aid, trimIid⟩ := ok
      change some (RawMessage.acceptorState
        ⟨word32 v.aid, word32 v.trimIid⟩) = _
      rw [word32_of_lt aid, word32_of_lt trimIid]
      rfl
  | clientValue v =>
      have read := unpacks_paxosValue (o := (RawMessage.clientValue v).items)
        v ok 1 [] rfl (by decide)
      change Option.map RawMessage.clientValue
        ((unpackPaxosValueAt (RawMessage.clientValue v).items 1).bind
          fun value => some value.1) = _
      rw [read]
      rfl

/-! ### Round trips -/

theorem ArrayOf.getD_of_zero {α : Type} {P : α → Prop} {n : Nat}
    {array : Option (List α)} (filled : ArrayOf P n array) (empty : n = 0) :
    array.getD [] = [] := by
  cases array with
  | none => rfl
  | some entries =>
      rw [Option.getD_some, ← List.length_eq_zero_iff, ← empty]
      exact filled.length_eq

theorem isPresent_of_pos {α : Type} {n : Nat} (array : Option (List α))
    (positive : 0 < n) : isPresent array n = array.isSome := by
  simp [isPresent, positive]

theorem sameArrays_receivedAccepted {v : RawReply} (ok : v.WellFormed)
    (aligned : (RawMessage.accepted v).Aligned) :
    v.SameArrays v.receivedAccepted := by
  rcases Nat.eq_zero_or_pos v.nAids with empty | positive
  · have absent : ∀ {α : Type} (array : Option (List α)),
        isPresent array v.nAids = false := by
      intro α array
      simp [isPresent, empty]
    constructor
    · rfl
    · simp [RawReply.receivedAccepted, absent, ok.aids.getD_of_zero empty]
    · simp [RawReply.receivedAccepted, absent, ok.values.getD_of_zero empty]
    · simp [RawReply.receivedAccepted, absent, ok.ballots.getD_of_zero empty]
    · simp [RawReply.receivedAccepted, absent,
        ok.valueBallots.getD_of_zero empty]
  · obtain ⟨ballots, valueBallots⟩ := aligned positive
    constructor
    · rfl
    · cases isAids : v.aids <;>
        simp [RawReply.receivedAccepted, isPresent_of_pos _ positive, isAids]
    · cases isValues : v.values <;>
        simp [RawReply.receivedAccepted, isPresent_of_pos _ positive, isValues]
    · cases isBallots : v.ballots <;>
        simp_all [RawReply.receivedAccepted, isPresent_of_pos _ positive]
    · cases isBallots : v.valueBallots <;>
        simp_all [RawReply.receivedAccepted, isPresent_of_pos _ positive]

theorem sameFields_received {m : RawMessage} (ok : m.WellFormed)
    (aligned : m.Aligned) : m.SameFields m.received := by
  cases m with
  | promise v => exact ⟨rfl, rfl, rfl, rfl, rfl, rfl, rfl, rfl, rfl, rfl⟩
  | accepted v => exact ⟨rfl, sameArrays_receivedAccepted ok aligned⟩
  | prepare _ => rfl
  | accept _ => rfl
  | preempted _ => rfl
  | «repeat» _ => rfl
  | trim _ => rfl
  | acceptorState _ => rfl
  | clientValue _ => rfl

/-- A message with at most `2 ^ 31 - 1` elements, which is as far as the index
counts, is packed after the number of its elements and unpacked as what arrives
of it.  That has all its fields, unless it is an accepted whose ballots are
there without its acceptor ids, or are missing beside them. -/
theorem codec_round_trip {m : RawMessage} (ok : m.WellFormed)
    (complete : m.Complete) (small : m.elements ≤ intMax) :
    ∃ packed, packPaxosMessage m = some packed ∧
      packed.count = packed.items.length ∧
      unpackPaxosMessage packed.items = some m.received ∧
      (m.Aligned → m.SameFields m.received) := by
  refine ⟨⟨m.elements, m.items⟩, packPaxosMessage_eq ok complete,
    (length_items ok complete).symm, unpack_items ok complete small, ?_⟩
  intro aligned
  exact sameFields_received ok aligned

/-- The fields of a reply for two acceptors, one of which has a value. -/
def RawReply.forTwo : RawReply where
  src := 1
  iid := 7
  ballot0 := 101
  valueBallot0 := 0
  nAids := 2
  aids := some [1, 2]
  value0 := RawValue.zeroed
  values := some [⟨3, some [65, 66, 67]⟩, ⟨0, some []⟩]
  ballots := some [101, 101]
  valueBallots := some [100, 0]

theorem codec_round_trip_for_two :
    (∃ packed, packPaxosMessage (.promise .forTwo) = some packed ∧
      packed.count = packed.items.length ∧
      unpackPaxosMessage packed.items =
        some (RawMessage.promise .forTwo).received ∧
      ((RawMessage.promise .forTwo).Aligned →
        (RawMessage.promise .forTwo).SameFields
          (RawMessage.promise .forTwo).received)) ∧
    ∃ packed, packPaxosMessage (.accepted .forTwo) = some packed ∧
      packed.count = packed.items.length ∧
      unpackPaxosMessage packed.items =
        some (RawMessage.accepted .forTwo).received ∧
      ((RawMessage.accepted .forTwo).Aligned →
        (RawMessage.accepted .forTwo).SameFields
          (RawMessage.accepted .forTwo).received) := by
  have ok : RawReply.forTwo.WellFormed := by decide
  constructor
  · apply codec_round_trip (m := .promise .forTwo) ok
    · exact fun _ => ⟨rfl, rfl, rfl, rfl⟩
    · decide
  · apply codec_round_trip (m := .accepted .forTwo) ok
    · trivial
    · decide

/-! ### Messages that do not survive -/

/-- An element is read only below the greatest `int`, and the index moves by
one. -/
def Advances {α : Type} (unpack : Nat → Option (α × Nat)) : Prop :=
  ∀ i read, unpack i = some read → i < intMax ∧ read.2 = i + 1

theorem unpackUint32At_advances (o : List MsgpackItem) :
    Advances (unpackUint32At o) := by
  intro i read isRead
  unfold unpackUint32At at isRead
  split at isRead
  · split at isRead
    · next index =>
        cases isRead
        exact ⟨index, rfl⟩
    · cases isRead
  · cases isRead

theorem unpackPaxosValueAt_advances (o : List MsgpackItem) :
    Advances (unpackPaxosValueAt o) := by
  intro i read isRead
  unfold unpackPaxosValueAt at isRead
  split at isRead
  · obtain ⟨fits, same⟩ := Option.ite_none_right_eq_some.mp isRead
    rw [← Option.some.inj same]
    exact ⟨fits.2, rfl⟩
  · cases isRead

theorem unpackArray_advances {α : Type} {unpack : Nat → Option (α × Nat)}
    (advances : Advances unpack) (n : Nat) :
    ∀ i read, unpackArray unpack n i = some read →
      read.2 = i + n ∧ (0 < n → i + n ≤ intMax) := by
  induction n with
  | zero =>
      intro i read isRead
      cases isRead
      exact ⟨rfl, fun positive => absurd positive (lt_irrefl 0)⟩
  | succ n inductionHypothesis =>
      intro i read isRead
      simp only [unpackArray, Option.bind_eq_bind, Option.bind_eq_some_iff]
        at isRead
      obtain ⟨first, isFirst, others, isOthers, isRead⟩ := isRead
      cases isRead
      obtain ⟨index, moved⟩ := advances i first isFirst
      obtain ⟨total, room⟩ := inductionHypothesis first.2 others isOthers
      rw [moved] at total room
      refine ⟨by omega, ?_⟩
      intro _
      cases n with
      | zero => omega
      | succ n =>
          have bound := room (Nat.succ_pos n)
          omega

/-- Where the four arrays of a promise are unpacked from. -/
theorem unpackPaxosPromise_arrays {o : List MsgpackItem} {v : RawReply}
    (unpacked : unpackPaxosPromise o = some v) :
    ∃ aids values ballots valueBallots,
      (unpackArray (unpackUint32At o) v.nAids 7 = some aids ∧
        v.aids = some aids.1) ∧
      (unpackArray (unpackPaxosValueAt o) v.nAids (7 + v.nAids) =
          some values ∧
        v.values = some values.1) ∧
      (unpackArray (unpackUint32At o) v.nAids (7 + 2 * v.nAids) =
          some ballots ∧
        v.ballots = some ballots.1) ∧
      (unpackArray (unpackUint32At o) v.nAids (7 + 3 * v.nAids) =
          some valueBallots ∧
        v.valueBallots = some valueBallots.1) := by
  obtain ⟨src, isSrc, unpacked⟩ := Option.bind_eq_some_iff.mp unpacked
  obtain ⟨iid, isIid, unpacked⟩ := Option.bind_eq_some_iff.mp unpacked
  obtain ⟨ballot0, isBallot0, unpacked⟩ := Option.bind_eq_some_iff.mp unpacked
  obtain ⟨valueBallot0, isValueBallot0, unpacked⟩ :=
    Option.bind_eq_some_iff.mp unpacked
  obtain ⟨nAids, isNAids, unpacked⟩ := Option.bind_eq_some_iff.mp unpacked
  obtain ⟨value0, isValue0, unpacked⟩ := Option.bind_eq_some_iff.mp unpacked
  obtain ⟨aids, isAids, unpacked⟩ := Option.bind_eq_some_iff.mp unpacked
  obtain ⟨values, isValues, unpacked⟩ := Option.bind_eq_some_iff.mp unpacked
  obtain ⟨ballots, isBallots, unpacked⟩ := Option.bind_eq_some_iff.mp unpacked
  obtain ⟨valueBallots, isValueBallots, unpacked⟩ :=
    Option.bind_eq_some_iff.mp unpacked
  cases unpacked
  have word := unpackUint32At_advances o
  have srcMoved := (word _ _ isSrc).2
  have iidMoved := (word _ _ isIid).2
  have ballot0Moved := (word _ _ isBallot0).2
  have valueBallot0Moved := (word _ _ isValueBallot0).2
  have nAidsMoved := (word _ _ isNAids).2
  have value0Moved := (unpackPaxosValueAt_advances o _ _ isValue0).2
  have aidsMoved := (unpackArray_advances word _ _ _ isAids).1
  have valuesMoved := (unpackArray_advances
    (unpackPaxosValueAt_advances o) _ _ _ isValues).1
  have ballotsMoved := (unpackArray_advances word _ _ _ isBallots).1
  have aidsFrom : value0.2 = 7 := by omega
  have valuesFrom : aids.2 = 7 + nAids.1 := by omega
  have ballotsFrom : values.2 = 7 + 2 * nAids.1 := by omega
  have valueBallotsFrom : ballots.2 = 7 + 3 * nAids.1 := by omega
  rw [aidsFrom] at isAids
  rw [valuesFrom] at isValues
  rw [ballotsFrom] at isBallots
  rw [valueBallotsFrom] at isValueBallots
  exact ⟨aids, values, ballots, valueBallots, ⟨isAids, rfl⟩, ⟨isValues, rfl⟩,
    ⟨isBallots, rfl⟩, ⟨isValueBallots, rfl⟩⟩

/-- A promise that is unpacked has no more elements than the index can count. -/
theorem elements_of_unpackPaxosPromise {o : List MsgpackItem} {v : RawReply}
    (unpacked : unpackPaxosPromise o = some v) (positive : 0 < v.nAids) :
    7 + 4 * v.nAids ≤ intMax := by
  obtain ⟨_, _, _, valueBallots, _, _, _, isValueBallots, _⟩ :=
    unpackPaxosPromise_arrays unpacked
  have room := (unpackArray_advances (unpackUint32At_advances o) _ _ _
    isValueBallots).2 positive
  omega

/-- A message is unpacked by the function of its type. -/
theorem unpackByType_of_message {o : List MsgpackItem} {m : RawMessage}
    (unpacked : unpackPaxosMessage o = some m) :
    unpackByType o m.type = some m := by
  unfold unpackPaxosMessage at unpacked
  split at unpacked
  · next type _ =>
      rw [← unpacked]
      generalize word32 type = kind at unpacked ⊢
      unfold unpackByType at unpacked
      split at unpacked
      case h_10 => cases unpacked
      all_goals
        obtain ⟨_, _, rfl⟩ := Option.map_eq_some_iff.mp unpacked
        rfl
  · cases unpacked

theorem unpackPaxosPromise_of_message {o : List MsgpackItem} {v : RawReply}
    (unpacked : unpackPaxosMessage o = some (.promise v)) :
    unpackPaxosPromise o = some v := by
  obtain ⟨_, isPromise, same⟩ :=
    Option.map_eq_some_iff.mp (unpackByType_of_message unpacked)
  cases same
  exact isPromise

/-- A promise with `n` entries in each of its arrays. -/
def RawReply.ofSize (n : Nat) : RawReply where
  src := 1
  iid := 1
  ballot0 := 101
  valueBallot0 := 0
  nAids := n
  aids := some (List.replicate n 0)
  value0 := RawValue.zeroed
  values := some (List.replicate n RawValue.zeroed)
  ballots := some (List.replicate n 0)
  valueBallots := some (List.replicate n 0)

theorem RawReply.wellFormed_ofSize {n : Nat} (bound : n < 2 ^ 30 - 1) :
    (RawReply.ofSize n).WellFormed := by
  have zeroes : ArrayOf (· < 2 ^ 32) n (some (List.replicate n 0)) := by
    rw [arrayOf_some]
    refine ⟨List.length_replicate, ?_⟩
    intro entry member
    rw [List.eq_of_mem_replicate member]
    decide
  have values : ArrayOf RawValue.WellFormed n
      (some (List.replicate n RawValue.zeroed)) := by
    rw [arrayOf_some]
    refine ⟨List.length_replicate, ?_⟩
    intro entry member
    rw [List.eq_of_mem_replicate member]
    decide
  have one : 1 < 2 ^ 32 := by decide
  have ballot : 101 < 2 ^ 32 := by decide
  have zero : 0 < 2 ^ 32 := by decide
  have value0 : RawValue.zeroed.WellFormed := by decide
  exact ⟨one, one, ballot, zero, bound, zeroes, value0, values, zeroes, zeroes⟩

theorem not_roundTrips_of_many {v : RawReply}
    (many : intMax < 7 + 4 * v.nAids) (positive : 0 < v.nAids) :
    ¬ (RawMessage.promise v).RoundTrips := by
  rintro ⟨packed, arrived, _, _, unpacked, same⟩
  cases arrived with
  | promise arrived =>
      have size := same.2.2.2.2.2.nAids
      have few := elements_of_unpackPaxosPromise
        (unpackPaxosPromise_of_message unpacked) (size ▸ positive)
      omega
  | _ => cases same

/-- A value whose buffer would be larger than an `int` counts is packed and not
unpacked. -/
theorem not_roundTrips_of_long (bytes : List UInt8)
    (long : intMax < bytes.length + 16) (bound : bytes.length ≤ intMax) :
    ¬ (RawMessage.clientValue ⟨bytes.length, some bytes⟩).RoundTrips := by
  rintro ⟨packed, arrived, isPacked, _, unpacked, _⟩
  cases isPacked
  simp only [intMax] at long bound
  have decoded : intOfUint32 (word32 bytes.length) = bytes.length := by
    rw [word32_of_lt (by omega)]
    exact intOfUint32_of_lt (by omega)
  have noRoom : ¬ BufferFits (bytes.length : Int) := by
    intro room
    have inRange := room (by omega)
    simp only [intMax] at inRange
    omega
  have isNone : unpackPaxosMessage
      (packPaxosClientValue ⟨bytes.length, some bytes⟩).items = none := by
    have type : word32 8 = 8 := rfl
    simp only [unpackPaxosMessage, packPaxosClientValue, packPaxosValue,
      List.getElem?_cons_zero, type, unpackByType, unpackPaxosClientValue,
      unpackPaxosValueAt, List.getElem?_cons_succ, Int.toNat_natCast,
      List.take_length, decoded, noRoom, false_and, if_false,
      Option.bind_eq_bind, Option.bind_none, Option.map_none]
  rw [isNone] at unpacked
  cases unpacked

/-- An accepted with ballots and no acceptor ids. -/
def RawReply.ballotsAlone : RawReply where
  src := 1
  iid := 1
  ballot0 := 0
  valueBallot0 := 0
  nAids := 1
  aids := none
  value0 := RawValue.zeroed
  values := none
  ballots := some [101]
  valueBallots := some [101]

/-- The ballots of an accepted do not arrive without acceptor ids, a promise
with null arrays is not packed, the index runs over in a promise with `2 ^ 29`
entries, and so does the size of the buffer for a value of `2 ^ 31 - 16`
bytes. -/
theorem round_trip_fails :
    ((RawMessage.accepted .ballotsAlone).WellFormed ∧
      ¬ (RawMessage.accepted .ballotsAlone).RoundTrips) ∧
    ((RawMessage.promise .ballotsAlone).WellFormed ∧
      packPaxosMessage (.promise .ballotsAlone) = none) ∧
    ((RawMessage.promise (.ofSize (2 ^ 29))).WellFormed ∧
      ¬ (RawMessage.promise (.ofSize (2 ^ 29))).RoundTrips) ∧
    ¬ (RawMessage.clientValue
      ⟨2 ^ 31 - 16, some (List.replicate (2 ^ 31 - 16) 0)⟩).RoundTrips := by
  have ok : RawReply.ballotsAlone.WellFormed := by decide
  refine ⟨⟨ok, ?_⟩, ⟨ok, rfl⟩, ⟨RawReply.wellFormed_ofSize (by decide), ?_⟩, ?_⟩
  · rintro ⟨packed, arrived, isPacked, _, unpacked, same⟩
    cases isPacked
    cases unpacked
    exact absurd same.2.ballots (by decide)
  · apply not_roundTrips_of_many
    · simp only [RawReply.ofSize, intMax]
      decide
    · simp only [RawReply.ofSize]
      decide
  · have length := @List.length_replicate UInt8 (2 ^ 31 - 16) 0
    have fails := not_roundTrips_of_long (List.replicate (2 ^ 31 - 16) 0)
      (by rw [length]; decide) (by rw [length]; decide)
    rw [length] at fails
    exact fails

end LibPaxos
