import LibPaxos.Evpaxos.Evlearner
import LibPaxos.Proposer.Bounds
import LibPaxos.Wire.Messages

/-!
# Messages off the wire and the arrays of their receivers

A promise arrives with all its arrays filled.  An accepted arrives with or
without its words and with or without its values, whatever its number of
entries.  Proposer and learner index their arrays with what arrives; together
with what they check, this says exactly when they stay within bounds.
-/

namespace LibPaxos

open LibPaxos.Library

/-- An accepted that some object on the wire is unpacked to. -/
def PaxosAccepted.FromWire (ack : PaxosAccepted) : Prop :=
  ∃ items reply, unpackPaxosMessage items = some (.accepted reply) ∧
    ack = reply.toAccepted

/-- A promise that some object on the wire is unpacked to. -/
def PaxosPromise.FromWire (ack : PaxosPromise) : Prop :=
  ∃ items reply, unpackPaxosMessage items = some (.promise reply) ∧
    ack = reply.toPromise

/-- A call of the learner whose message, if any, is off the wire. -/
def LearnerCall.FromWire : LearnerCall → Prop
  | .op (.receiveAccepted ack) => ack.FromWire
  | _ => True

/-! ### What is unpacked -/

section Unpacked

variable {o : List MsgpackItem}

theorem unpackUint32At_lt {i : Nat} {read : Nat × Nat}
    (isRead : unpackUint32At o i = some read) :
    read.1 < 2 ^ 32 := by
  unfold unpackUint32At at isRead
  split at isRead
  · split at isRead
    · cases isRead
      exact Nat.mod_lt _ (by decide)
    · cases isRead
  · cases isRead

theorem unpackArray_length {α : Type} {unpack : Nat → Option (α × Nat)}
    (n : Nat) :
    ∀ i read, unpackArray unpack n i = some read → read.1.length = n := by
  induction n with
  | zero =>
      intro i read isRead
      cases isRead
      rfl
  | succ n inductionHypothesis =>
      intro i read isRead
      simp only [unpackArray, Option.bind_eq_bind, Option.bind_eq_some_iff]
        at isRead
      obtain ⟨first, _, others, isOthers, isRead⟩ := isRead
      cases isRead
      rw [List.length_cons, inductionHypothesis first.2 others isOthers]

/-- A section is missing without its flag, and filled with it. -/
theorem unpackSection_length {α : Type} {unpack : Nat → Option (α × Nat)}
    {flag n i : Nat} {read : Option (List α) × Nat}
    (isRead : unpackSection flag unpack n i = some read) :
    (read.1.getD []).length = (if flag = 0 then 0 else n) ∧
      ∀ entries, read.1 = some entries → entries.length = n := by
  unfold unpackSection at isRead
  split at isRead
  · next unset =>
      cases isRead
      refine ⟨(if_pos unset).symm, ?_⟩
      intro entries isEntries
      cases isEntries
  · next isSet =>
      obtain ⟨array, isArray, same⟩ := Option.map_eq_some_iff.mp isRead
      cases same
      have filled := unpackArray_length n i array isArray
      refine ⟨filled.trans (if_neg isSet).symm, ?_⟩
      intro entries isEntries
      cases isEntries
      exact filled

theorem filled_of_unpackPaxosPromise {v : RawReply}
    (unpacked : unpackPaxosPromise o = some v) :
    v.toPromise.Filled := by
  obtain ⟨aids, values, ballots, valueBallots, ⟨isAids, aidsEq⟩,
    ⟨isValues, valuesEq⟩, ⟨isBallots, ballotsEq⟩,
    ⟨isValueBallots, valueBallotsEq⟩⟩ := unpackPaxosPromise_arrays unpacked
  refine ⟨?_, ?_, ?_, ?_⟩
  · rw [RawReply.toPromise, aidsEq]
    exact unpackArray_length _ _ _ isAids
  · rw [RawReply.toPromise, valuesEq]
    exact (List.length_map _).trans (unpackArray_length _ _ _ isValues)
  · rw [RawReply.toPromise, ballotsEq]
    exact unpackArray_length _ _ _ isBallots
  · rw [RawReply.toPromise, valueBallotsEq]
    exact unpackArray_length _ _ _ isValueBallots

theorem decoded_of_unpackPaxosAccepted {v : RawReply}
    (unpacked : unpackPaxosAccepted o = some v) :
    v.toAccepted.Decoded := by
  obtain ⟨_, _, unpacked⟩ := Option.bind_eq_some_iff.mp unpacked
  obtain ⟨iid, isIid, unpacked⟩ := Option.bind_eq_some_iff.mp unpacked
  obtain ⟨nAids, _, unpacked⟩ := Option.bind_eq_some_iff.mp unpacked
  obtain ⟨isAids, _, unpacked⟩ := Option.bind_eq_some_iff.mp unpacked
  obtain ⟨isValues, _, unpacked⟩ := Option.bind_eq_some_iff.mp unpacked
  obtain ⟨aids, readAids, unpacked⟩ := Option.bind_eq_some_iff.mp unpacked
  obtain ⟨values, readValues, unpacked⟩ := Option.bind_eq_some_iff.mp unpacked
  obtain ⟨ballots, readBallots, unpacked⟩ :=
    Option.bind_eq_some_iff.mp unpacked
  obtain ⟨valueBallots, readValueBallots, unpacked⟩ :=
    Option.bind_eq_some_iff.mp unpacked
  cases unpacked
  have aidLength := (unpackSection_length readAids).1
  have ballotLength := (unpackSection_length readBallots).1
  have valueBallotLength := (unpackSection_length readValueBallots).1
  refine ⟨unpackUint32At_lt isIid, ?_, ?_⟩
  · -- The three sections of words are under one flag.
    by_cases unset : isAids.1 = 0
    · rw [if_pos unset, List.length_eq_zero_iff]
        at aidLength ballotLength valueBallotLength
      exact Or.inr ⟨aidLength, ballotLength, valueBallotLength⟩
    · rw [if_neg unset] at aidLength ballotLength valueBallotLength
      exact Or.inl ⟨aidLength, ballotLength, valueBallotLength⟩
  · intro array isArray
    obtain ⟨entries, isEntries, rfl⟩ := Option.map_eq_some_iff.mp isArray
    rw [List.length_map]
    exact (unpackSection_length readValues).2 entries isEntries

theorem unpackPaxosAccepted_of_message {v : RawReply}
    (unpacked : unpackPaxosMessage o = some (.accepted v)) :
    unpackPaxosAccepted o = some v := by
  obtain ⟨_, isAccepted, same⟩ :=
    Option.map_eq_some_iff.mp (unpackByType_of_message unpacked)
  cases same
  exact isAccepted

end Unpacked

theorem PaxosPromise.FromWire.filled
    {ack : PaxosPromise} (fromWire : ack.FromWire) :
    ack.Filled := by
  obtain ⟨items, reply, unpacked, rfl⟩ := fromWire
  exact filled_of_unpackPaxosPromise (unpackPaxosPromise_of_message unpacked)

theorem PaxosAccepted.FromWire.decoded
    {ack : PaxosAccepted} (fromWire : ack.FromWire) :
    ack.Decoded := by
  obtain ⟨items, reply, unpacked, rfl⟩ := fromWire
  exact decoded_of_unpackPaxosAccepted
    (unpackPaxosAccepted_of_message unpacked)

theorem LearnerCall.FromWire.decoded
    {call : LearnerCall} (fromWire : call.FromWire) :
    call.Decoded := by
  cases call with
  | setInstanceId iid => trivial
  | op op =>
      cases op with
      | receiveAccepted ack => exact PaxosAccepted.FromWire.decoded fromWire
      | deliverNext => trivial

theorem PaxosAccepted.Decoded.aligned
    {ack : PaxosAccepted} (decoded : ack.Decoded) :
    ack.aids.length = ack.ballots.length := by
  rcases decoded.words with consistent | ⟨noAids, noBallots, _⟩
  · exact consistent.aids.trans consistent.ballots.symm
  · rw [noAids, noBallots]

/-! ### The handlers -/

/-- Whatever messages come off the wire, in every state that a proposer and a
learner for `n` acceptors can reach with them, the handlers stay within their
arrays exactly when the entries they use exist and are from acceptors they
know. -/
theorem handlers_in_bounds_iff
    {id n : Nat} {learnerCatchUp : Bool}
    {proposerPast : List ProposerTransition}
    {learnerPast : List LearnerCallTransition} {p : Proposer} {l : Learner}
    (proposerTrace : Trace proposerStep (proposerNew id n) proposerPast p)
    (learnerTrace :
      Trace learnerCall (learnerNew learnerCatchUp n) learnerPast l)
    (received : ∀ current ∈ learnerPast, current.input.FromWire) :
    (∀ clock (ack : PaxosPromise), ack.FromWire →
      ((proposerReceivePromise clock p ack).isSome ↔
        PromiseInBounds p ack)) ∧
    (∀ ack : PaxosAccepted, ack.FromWire →
      ((proposerReceiveAccepted p ack).isSome ↔ AcceptedInBounds p ack)) ∧
    (∀ ack : PaxosAccepted, ack.FromWire →
      ((learnerReceiveAccepted l ack).isSome ↔ ReceiveInBounds l ack)) ∧
    ((∃ fuel, (evlearnerDeliverNextClosed fuel l).isSome) ↔
      DeliveredHaveValues l) := by
  have sized := proposer_trace_sized proposerTrace
  have placed : l.Placed :=
    (learner_trace_placed learnerTrace
      (fun current member => (received current member).decoded)).1
  refine ⟨?_, ?_, ?_, evlearnerDeliverNextClosed_iff placed⟩
  · intro clock ack fromWire
    exact proposerReceivePromise_isSome_iff sized clock fromWire.filled
  · intro ack fromWire
    exact proposerReceiveAccepted_isSome_iff sized fromWire.decoded.aligned
  · intro ack fromWire
    exact learnerReceiveAccepted_isSome_iff placed fromWire.decoded

/-- A promise of one acceptor for the first instance, at the first ballot of
proposer 0. -/
def firstPromise (aid : Nat) : PaxosPromise :=
  ⟨aid, 1, 1000, 0, 1, [aid], PaxosValue.empty, [PaxosValue.empty], [1000],
    [0]⟩

/-- An accepted of acceptor 0 for the first instance, with or without its
value. -/
def firstAccepted (values : Option (List PaxosValue)) : PaxosAccepted :=
  ⟨2 ^ 32 - 1, 1, 0, 0, 1, [0], PaxosValue.empty, values, [1000], [1000]⟩

def emptyAccepted : PaxosAccepted :=
  ⟨2 ^ 32 - 1, 1, 0, 0, 0, [], PaxosValue.empty, none, [], []⟩

/-- One acceptor: its promise and its accepted are handled, and what it
accepted is delivered. -/
theorem handlers_in_bounds_for_one :
    ∃ proposerPast p learnerPast l,
      Trace proposerStep (proposerNew 0 1) proposerPast p ∧
      Trace learnerCall (learnerNew true 1) learnerPast l ∧
      PromiseInBounds p (firstPromise 0) ∧ DeliveredHaveValues l := by
  have asked := trace_of_runFrom proposerStep (proposerNew 0 1)
    [.propose ⟨[7]⟩, .prepare 0] rfl
  have learned := trace_of_runFrom learnerCall (learnerNew true 1)
    [.op (.receiveAccepted (firstAccepted (some [⟨[7]⟩])))] rfl
  have promised : (firstPromise 0).FromWire :=
    ⟨[.uint 1, .uint 0, .uint 1, .uint 1000, .uint 0, .uint 1, .bin [],
      .uint 0, .bin [], .uint 1000, .uint 0], _, rfl, rfl⟩
  have accepted : (firstAccepted (some [⟨[7]⟩])).FromWire :=
    ⟨[.uint 3, .uint 0, .uint 1, .uint 1, .uint 1, .uint 1, .uint 0, .bin [7],
      .uint 1000, .uint 1000], _, rfl, rfl⟩
  have inBounds := handlers_in_bounds_iff asked learned (by
    intro current member
    rw [List.mem_singleton] at member
    rw [member]
    exact accepted)
  refine ⟨_, _, _, _, asked, learned, ?_, ?_⟩
  · exact (inBounds.1 (fun _ => 0) _ promised).mp rfl
  · exact inBounds.2.2.2.mp ⟨2, rfl⟩

/-- A promise from an acceptor beyond the configured ones, an accepted without
entries, and a record without values: each leaves the arrays of a handler. -/
theorem handlers_leave_bounds :
    ((firstPromise 3).FromWire ∧ emptyAccepted.FromWire ∧
      (firstAccepted none).FromWire) ∧
    (∃ past p, Trace proposerStep (proposerNew 0 3) past p ∧
      proposerReceivePromise (fun _ => 0) p (firstPromise 3) = none) ∧
    (∃ past p, Trace proposerStep (proposerNew 0 1) past p ∧
      proposerReceiveAccepted p emptyAccepted = none) ∧
    learnerReceiveAccepted (learnerNew true 3) emptyAccepted = none ∧
    (∃ past l, Trace learnerCall (learnerNew true 1) past l ∧
      past.map Transition.input =
        [.op (.receiveAccepted (firstAccepted none))] ∧
      ∀ fuel, evlearnerDeliverNextClosed fuel l = none) := by
  refine ⟨⟨?_, ?_, ?_⟩, ?_, ?_, rfl, ?_⟩
  · exact ⟨[.uint 1, .uint 3, .uint 1, .uint 1000, .uint 0, .uint 1, .bin [],
      .uint 3, .bin [], .uint 1000, .uint 0], _, rfl, rfl⟩
  · exact ⟨[.uint 3, .uint 0, .uint 1, .uint 0, .uint 0, .uint 0], _, rfl,
      rfl⟩
  · exact ⟨[.uint 3, .uint 0, .uint 1, .uint 1, .uint 1, .uint 0, .uint 0,
      .uint 1000, .uint 1000], _, rfl, rfl⟩
  · exact ⟨_, _, trace_of_runFrom proposerStep (proposerNew 0 3)
      [.prepare 0] rfl, rfl⟩
  · exact ⟨_, _, trace_of_runFrom proposerStep (proposerNew 0 1)
      [.propose ⟨[7]⟩, .prepare 0,
        .receivePromise (fun _ => 0) (firstPromise 0), .accept] rfl, rfl⟩
  · refine ⟨_, _, trace_of_runFrom learnerCall (learnerNew true 1)
      [.op (.receiveAccepted (firstAccepted none))] rfl, rfl, ?_⟩
    intro fuel
    cases fuel with
    | zero => rfl
    | succ fuel => rfl

end LibPaxos
