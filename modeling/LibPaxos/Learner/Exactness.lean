import LibPaxos.Learner.Instances

/-!
# A learner delivers exactly what was decided

Over whole runs of a learner: instances are delivered in order and once each,
a delivered record was received and a majority sent its ballot, and a call
delivers exactly when the messages received before contained a majority for the
current instance.
-/

namespace LibPaxos

open LibPaxos.Library

def LearnerOp.message : LearnerOp → Option PaxosAccepted
  | .receiveAccepted ack => some ack
  | .deliverNext => none

/-- The messages received for an instance, oldest first. -/
def receivedFor (iid : Nat) (past : List LearnerTransition) :
    List PaxosAccepted :=
  past.filterMap fun current =>
    current.input.message.filter fun ack => ack.iid = iid

def delivered (past : List LearnerTransition) : List PaxosAccepted :=
  past.filterMap Transition.output

/-- The first instance to deliver: one in catch-up mode, and that of the first
message otherwise. -/
def startIid (learnerCatchUp : Bool) (past : List LearnerTransition) : Nat :=
  if learnerCatchUp then
    1
  else
    match past.findSome? fun current => current.input.message with
    | none => 1
    | some ack => ack.iid

/-- The same for a learner whose next instance is `initial` before the first
message. -/
def startFrom (learnerCatchUp : Bool) (initial : Nat)
    (past : List LearnerTransition) : Nat :=
  if learnerCatchUp then
    initial
  else
    match past.findSome? fun current => current.input.message with
    | none => initial
    | some ack => ack.iid

theorem startFrom_one (learnerCatchUp : Bool) (past : List LearnerTransition) :
    startFrom learnerCatchUp 1 past = startIid learnerCatchUp past :=
  rfl

/-- A call with a message that the learner can handle, below the last instance
id. -/
def LearnerOp.Ok (n : Nat) (op : LearnerOp) : Prop :=
  ∀ ack, op.message = some ack → AcceptedOk n ack ∧ ack.iid < 2 ^ 32 - 1

/-- Whether the next instance id stays below the top of its type, where the
call delivers. -/
def Learner.fits (l : Learner) : LearnerOp → Bool
  | .receiveAccepted _ => true
  | .deliverNext =>
      match learnerDeliverNext l with
      | some (some _, _) => decide (l.currentIid + 1 < 2 ^ 32)
      | _ => true

/-- A call that the learner can handle: a delivery leaves room for the next
instance id. -/
def LearnerOp.Ready (n : Nat) (before : List LearnerTransition) (l : Learner) :
    LearnerOp → Prop
  | .receiveAccepted ack => AcceptedOk n ack
  | .deliverNext =>
      receivedFor l.currentIid before = [] ∨ l.currentIid + 1 < 2 ^ 32 ∨
        l.fits .deliverNext = true

/-- What a learner knows of the run so far. -/
structure LearnerInv (learnerCatchUp : Bool) (initial n : Nat)
    (past : List LearnerTransition) (l : Learner) : Prop where
  acceptors_eq : l.acceptors = n
  late : l.lateStart = true → learnerCatchUp = false ∧
    delivered past = [] ∧ (∀ iid, l.instances iid = none) ∧
    ∀ current ∈ past, current.input.message = none
  started : l.lateStart = false → learnerCatchUp = true ∨
    ∃ current ∈ past, current.input.message ≠ none
  numbered : (delivered past).map PaxosAccepted.iid =
    List.range' (startFrom learnerCatchUp initial past) (delivered past).length
  current_eq : l.currentIid =
    startFrom learnerCatchUp initial past + (delivered past).length
  tracked : ∀ iid inst, l.instances iid = some inst →
    l.currentIid ≤ iid ∧ Tracks n iid (receivedFor iid past) inst
  unknown : ∀ iid, l.currentIid ≤ iid → l.instances iid = none →
    receivedFor iid past = []
  messages : ∀ iid, ∀ ack ∈ receivedFor iid past,
    AcceptedOk n ack ∧ ack.iid = iid

/-- What a call of `learner_deliver_next` may return, for the messages received
for the current instance. -/
structure Exact (n iid : Nat) (messages : List PaxosAccepted)
    (out : Option PaxosAccepted) : Prop where
  iid_eq : ∀ record, out = some record → record.iid = iid
  received : ∀ record, out = some record →
    ∃ ack ∈ messages, record = ack.copied
  majority : ∀ record, out = some record →
    ∃ voters : Finset Nat, n / 2 + 1 ≤ voters.card ∧
      ∀ aid ∈ voters, SentBallot messages record.ballot aid
  isSome_iff : out.isSome = true ↔ ReachedMajority n messages

/-- A learner before its first call. -/
structure Learner.Fresh (learnerCatchUp : Bool) (initial n : Nat)
    (l : Learner) : Prop where
  acceptors_eq : l.acceptors = n
  lateStart_eq : l.lateStart = !learnerCatchUp
  current_eq : l.currentIid = initial
  empty : ∀ iid, l.instances iid = none

theorem learnerNew_fresh (learnerCatchUp : Bool) (n : Nat) :
    (learnerNew learnerCatchUp n).Fresh learnerCatchUp 1 n :=
  ⟨rfl, rfl, rfl, fun _ => rfl⟩

theorem learnerSetInstanceId_fresh (learnerCatchUp : Bool) (n iid : Nat) :
    (learnerSetInstanceId (learnerNew learnerCatchUp n) iid).Fresh
      learnerCatchUp (word32 (iid + 1)) n :=
  ⟨rfl, rfl, rfl, fun _ => rfl⟩

theorem startFrom_nil (learnerCatchUp : Bool) (initial : Nat) :
    startFrom learnerCatchUp initial [] = initial := by
  simp [startFrom]

theorem Learner.Fresh.inv
    {learnerCatchUp : Bool} {initial n : Nat} {l : Learner}
    (fresh : l.Fresh learnerCatchUp initial n) :
    LearnerInv learnerCatchUp initial n [] l where
  acceptors_eq := fresh.acceptors_eq
  late := by
    intro isLate
    rw [fresh.lateStart_eq, Bool.not_eq_true_eq_eq_false] at isLate
    exact ⟨isLate, rfl, fresh.empty, by simp⟩
  started := by
    intro notLate
    rw [fresh.lateStart_eq, Bool.not_eq_false_eq_eq_true] at notLate
    exact Or.inl notLate
  numbered := rfl
  current_eq := by
    rw [startFrom_nil, fresh.current_eq]
    rfl
  tracked := by
    intro iid inst present
    rw [fresh.empty iid] at present
    cases present
  unknown := by
    intro iid _ _
    rfl
  messages := by
    intro iid ack member
    cases member

theorem receivedFor_snoc (iid : Nat) (past : List LearnerTransition)
    (current : LearnerTransition) :
    receivedFor iid (past ++ [current]) =
      receivedFor iid past ++
        (current.input.message.filter fun ack => ack.iid = iid).toList := by
  unfold receivedFor
  rw [List.filterMap_append]
  cases shape : current.input.message.filter
      fun ack => decide (ack.iid = iid) with
  | none => simp [shape]
  | some ack => simp [shape]

theorem receivedFor_snoc_deliver (iid : Nat) (past : List LearnerTransition)
    {current : LearnerTransition} (isDeliver : current.input = .deliverNext) :
    receivedFor iid (past ++ [current]) = receivedFor iid past := by
  rw [receivedFor_snoc, isDeliver]
  simp [LearnerOp.message]

theorem receivedFor_snoc_self (past : List LearnerTransition)
    {current : LearnerTransition} {ack : PaxosAccepted}
    (isReceive : current.input = .receiveAccepted ack) :
    receivedFor ack.iid (past ++ [current]) =
      receivedFor ack.iid past ++ [ack] := by
  rw [receivedFor_snoc, isReceive]
  simp [LearnerOp.message]

theorem receivedFor_snoc_of_ne (iid : Nat) (past : List LearnerTransition)
    {current : LearnerTransition} {ack : PaxosAccepted}
    (isReceive : current.input = .receiveAccepted ack)
    (different : ack.iid ≠ iid) :
    receivedFor iid (past ++ [current]) = receivedFor iid past := by
  rw [receivedFor_snoc, isReceive]
  simp [LearnerOp.message, different]

/-- A message after the first one does not change where a run starts. -/
theorem startFrom_snoc
    {learnerCatchUp : Bool} {initial : Nat} {past : List LearnerTransition}
    (begun : learnerCatchUp = true ∨
      ∃ current ∈ past, current.input.message ≠ none)
    (last : LearnerTransition) :
    startFrom learnerCatchUp initial (past ++ [last]) =
      startFrom learnerCatchUp initial past := by
  unfold startFrom
  rcases begun with catchesUp | ⟨current, member, message⟩
  · rw [if_pos catchesUp, if_pos catchesUp]
  · have found : (past.findSome?
        fun current => current.input.message).isSome = true := by
      rw [List.findSome?_isSome_iff]
      exact ⟨current, member, Option.ne_none_iff_isSome.mp message⟩
    obtain ⟨ack, shape⟩ := Option.isSome_iff_exists.mp found
    rw [List.findSome?_append, shape, Option.some_or]

theorem startFrom_snoc_deliver
    (learnerCatchUp : Bool) (initial : Nat) (past : List LearnerTransition)
    {last : LearnerTransition} (isDeliver : last.input = .deliverNext) :
    startFrom learnerCatchUp initial (past ++ [last]) =
      startFrom learnerCatchUp initial past := by
  unfold startFrom
  rw [List.findSome?_append]
  simp [isDeliver, LearnerOp.message]

/-- The first message of a late start. -/
theorem startFrom_first
    {initial : Nat} {past : List LearnerTransition}
    (silent : ∀ current ∈ past, current.input.message = none)
    {last : LearnerTransition} {ack : PaxosAccepted}
    (isReceive : last.input = .receiveAccepted ack) :
    startFrom false initial (past ++ [last]) = ack.iid := by
  have nothing : (past.findSome? fun current => current.input.message) =
      none := by
    rw [List.findSome?_eq_none_iff]
    exact silent
  unfold startFrom
  rw [List.findSome?_append, nothing, Option.none_or]
  simp [isReceive, LearnerOp.message]

theorem delivered_snoc (past : List LearnerTransition)
    (last : LearnerTransition) :
    delivered (past ++ [last]) = delivered past ++ last.output.toList := by
  unfold delivered
  rw [List.filterMap_append]
  cases shape : last.output with
  | none => simp [shape]
  | some out => simp [shape]

section Step

variable {learnerCatchUp : Bool} {initial n : Nat} {past : List LearnerTransition}
variable {l : Learner}

/-- Receiving a message fixes where the run starts, and keeps the rest. -/
theorem LearnerInv.start
    (inv : LearnerInv learnerCatchUp initial n past l)
    (last : LearnerTransition) {ack : PaxosAccepted}
    (isReceive : last.input = .receiveAccepted ack) :
    (learnerStart l ack).acceptors = n ∧
    (learnerStart l ack).lateStart = false ∧
    (learnerStart l ack).instances = l.instances ∧
    (learnerStart l ack).currentIid =
      startFrom learnerCatchUp initial (past ++ [last]) + (delivered past).length ∧
    (delivered past).map PaxosAccepted.iid =
      List.range' (startFrom learnerCatchUp initial (past ++ [last]))
        (delivered past).length ∧
    (∀ iid inst, l.instances iid = some inst →
      (learnerStart l ack).currentIid ≤ iid) ∧
    ∀ iid, (learnerStart l ack).currentIid ≤ iid →
      l.instances iid = none → receivedFor iid past = [] := by
  unfold learnerStart
  cases isLate : l.lateStart with
  | false =>
      rw [if_neg (by simp), startFrom_snoc (inv.started isLate)]
      exact ⟨inv.acceptors_eq, isLate, rfl, inv.current_eq, inv.numbered,
        fun iid inst present => (inv.tracked iid inst present).1, inv.unknown⟩
  | true =>
      obtain ⟨notCatchUp, nothing, empty, silent⟩ := inv.late isLate
      rw [if_pos rfl, notCatchUp, startFrom_first silent isReceive, nothing]
      refine ⟨inv.acceptors_eq, rfl, rfl, rfl, rfl, ?_, ?_⟩
      · intro iid inst present
        rw [empty iid] at present
        cases present
      · intro iid _ _
        unfold receivedFor
        rw [List.filterMap_eq_nil_iff]
        intro current member
        rw [silent current member]
        rfl

/-- Receiving a message updates its instance, new or not. -/
theorem learnerGetInstanceOrCreate_receive
    {ack : PaxosAccepted} (messages : List PaxosAccepted)
    (ok : AcceptedOk n ack) (sameAcceptors : l.acceptors = n)
    (tracked : ∀ inst, l.instances ack.iid = some inst →
      Tracks n ack.iid messages inst)
    (unknown : l.instances ack.iid = none → messages = []) :
    ∃ updated,
      instanceUpdate (learnerGetInstanceOrCreate l ack.iid) ack n =
        some updated ∧
      Tracks n ack.iid (messages ++ [ack])
        (instanceHasQuorum updated n).2 := by
  unfold learnerGetInstanceOrCreate
  cases present : l.instances ack.iid with
  | some inst =>
      obtain ⟨started, starts, tracks⟩ := (tracked inst present).start ok
      exact Tracks.receive starts tracks ok
  | none =>
      rw [unknown present, sameAcceptors]
      refine Tracks.receive ?_ (Tracks.new n ack.iid ack.ballot) ok
      simp [instanceStart, learnerInstanceNew, ok.ballots_zero]

/-- What is left to show after a message: the instances. -/
theorem LearnerInv.received
    (inv : LearnerInv learnerCatchUp initial n past l)
    {last : LearnerTransition} {ack : PaxosAccepted}
    (isReceive : last.input = .receiveAccepted ack)
    (silent : last.output = none) (ok : AcceptedOk n ack)
    {after : Learner}
    (sameAcceptors : after.acceptors = (learnerStart l ack).acceptors)
    (sameLate : after.lateStart = (learnerStart l ack).lateStart)
    (sameIid : after.currentIid = (learnerStart l ack).currentIid)
    (tracked : ∀ iid inst, after.instances iid = some inst →
      after.currentIid ≤ iid ∧
        Tracks n iid (receivedFor iid (past ++ [last])) inst)
    (unknown : ∀ iid, after.currentIid ≤ iid → after.instances iid = none →
      receivedFor iid (past ++ [last]) = []) :
    LearnerInv learnerCatchUp initial n (past ++ [last]) after := by
  obtain ⟨acceptors, started, _, current, numbered, _, _⟩ :=
    inv.start last isReceive
  have delivers : delivered (past ++ [last]) = delivered past := by
    rw [delivered_snoc, silent, Option.toList_none, List.append_nil]
  refine ⟨sameAcceptors.trans acceptors, ?_, ?_, ?_, ?_, tracked, unknown, ?_⟩
  · intro isLate
    rw [sameLate, started] at isLate
    cases isLate
  · intro _
    refine Or.inr ⟨last, by simp, ?_⟩
    rw [isReceive]
    exact Option.some_ne_none ack
  · rw [delivers]
    exact numbered
  · rw [delivers, sameIid]
    exact current
  · intro iid message member
    by_cases own : ack.iid = iid
    · subst own
      rw [receivedFor_snoc_self past isReceive, List.mem_append,
        List.mem_singleton] at member
      rcases member with old | rfl
      · exact inv.messages _ message old
      · exact ⟨ok, rfl⟩
    · rw [receivedFor_snoc_of_ne iid past isReceive own] at member
      exact inv.messages iid message member

/-- A message for a current instance leaves the instance tracked. -/
theorem LearnerInv.update
    (inv : LearnerInv learnerCatchUp initial n past l) {ack : PaxosAccepted}
    (ok : AcceptedOk n ack)
    (current : (learnerStart l ack).currentIid ≤ ack.iid) :
    ∃ updated,
      instanceUpdate (learnerGetInstanceOrCreate (learnerStart l ack) ack.iid)
        ack n = some updated ∧
      Tracks n ack.iid (receivedFor ack.iid past ++ [ack])
        (instanceHasQuorum updated n).2 := by
  obtain ⟨acceptors, _, sameInstances, _, _, _, unknown⟩ :=
    inv.start ⟨l, .receiveAccepted ack, none, l⟩ rfl
  apply learnerGetInstanceOrCreate_receive (receivedFor ack.iid past) ok
    acceptors
  · rw [sameInstances]
    exact fun inst present => (inv.tracked ack.iid inst present).2
  · rw [sameInstances]
    exact unknown ack.iid current

/-- Every message that the learner can handle is handled. -/
theorem LearnerInv.receive
    (inv : LearnerInv learnerCatchUp initial n past l) {ack : PaxosAccepted}
    (ok : AcceptedOk n ack) :
    ∃ after, learnerStep l (.receiveAccepted ack) = some (after, none) ∧
      LearnerInv learnerCatchUp initial n
        (past ++ [⟨l, .receiveAccepted ack, none, after⟩]) after := by
  obtain ⟨acceptors, _, sameInstances, _, _, above, unknown⟩ :=
    inv.start ⟨l, .receiveAccepted ack, none, l⟩ rfl
  by_cases old : ack.iid < (learnerStart l ack).currentIid
  · refine ⟨learnerStart l ack, ?_, ?_⟩
    · simp only [learnerStep, learnerReceiveAccepted, if_pos old,
        Option.map_some]
    · refine inv.received rfl rfl ok rfl rfl rfl ?_ ?_
      · intro iid inst present
        rw [sameInstances] at present
        have current := above iid inst present
        rw [receivedFor_snoc_of_ne iid past rfl (by omega)]
        exact ⟨current, (inv.tracked iid inst present).2⟩
      · intro iid current absent
        rw [sameInstances] at absent
        rw [receivedFor_snoc_of_ne iid past rfl (by omega)]
        exact unknown iid current absent
  · have current : (learnerStart l ack).currentIid ≤ ack.iid := by omega
    obtain ⟨updated, updates, tracks⟩ := inv.update ok current
    obtain ⟨after, receives, sameAcceptors, sameLate, sameIid, instances⟩ :
        ∃ after, learnerReceiveAccepted l ack = some after ∧
          after.acceptors = (learnerStart l ack).acceptors ∧
          after.lateStart = (learnerStart l ack).lateStart ∧
          after.currentIid = (learnerStart l ack).currentIid ∧
          after.instances = Function.update l.instances ack.iid
            (some (instanceHasQuorum updated n).2) := by
      simp only [learnerReceiveAccepted, if_neg old, acceptors, updates,
        sameInstances]
      exact ⟨_, rfl, rfl, rfl, rfl, rfl⟩
    refine ⟨after, ?_, ?_⟩
    · rw [learnerStep, receives, Option.map_some]
    · refine inv.received rfl rfl ok sameAcceptors sameLate sameIid ?_ ?_
      · intro iid inst present
        by_cases own : ack.iid = iid
        · subst own
          rw [instances, Function.update_self] at present
          cases present
          rw [receivedFor_snoc_self past rfl]
          exact ⟨sameIid.trans_le current, tracks⟩
        · rw [instances, Function.update_of_ne (Ne.symm own)] at present
          rw [receivedFor_snoc_of_ne iid past rfl own, sameIid]
          exact ⟨above iid inst present, (inv.tracked iid inst present).2⟩
      · intro iid reached absent
        by_cases own : ack.iid = iid
        · subst own
          rw [instances, Function.update_self] at absent
          cases absent
        · rw [instances, Function.update_of_ne (Ne.symm own)] at absent
          rw [sameIid] at reached
          rw [receivedFor_snoc_of_ne iid past rfl own]
          exact unknown iid reached absent

/-- Nothing is returned while no majority was reached. -/
theorem exact_none
    {iid : Nat} {messages : List PaxosAccepted}
    (unreached : ¬ ReachedMajority n messages) :
    Exact n iid messages none where
  iid_eq := nofun
  received := nofun
  majority := nofun
  isSome_iff := ⟨nofun, fun reached => False.elim (unreached reached)⟩

/-- A call that returns nothing changes nothing. -/
theorem LearnerInv.idle
    (inv : LearnerInv learnerCatchUp initial n past l)
    {last : LearnerTransition} (isDeliver : last.input = .deliverNext)
    (silent : last.output = none) :
    LearnerInv learnerCatchUp initial n (past ++ [last]) l := by
  have delivers : delivered (past ++ [last]) = delivered past := by
    rw [delivered_snoc, silent, Option.toList_none, List.append_nil]
  refine ⟨inv.acceptors_eq, ?_, ?_, ?_, ?_, ?_, ?_, ?_⟩
  · intro isLate
    obtain ⟨notCatchUp, nothing, empty, noMessage⟩ := inv.late isLate
    refine ⟨notCatchUp, by rw [delivers, nothing], empty, ?_⟩
    intro current member
    rw [List.mem_append, List.mem_singleton] at member
    rcases member with old | rfl
    · exact noMessage current old
    · rw [isDeliver]
      rfl
  · intro notLate
    rcases inv.started notLate with catchesUp | ⟨current, member, message⟩
    · exact Or.inl catchesUp
    · exact Or.inr ⟨current, List.mem_append_left _ member, message⟩
  · rw [delivers, startFrom_snoc_deliver _ _ _ isDeliver]
    exact inv.numbered
  · rw [delivers, startFrom_snoc_deliver _ _ _ isDeliver]
    exact inv.current_eq
  · intro iid inst present
    rw [receivedFor_snoc_deliver iid past isDeliver]
    exact inv.tracked iid inst present
  · intro iid reached absent
    rw [receivedFor_snoc_deliver iid past isDeliver]
    exact inv.unknown iid reached absent
  · intro iid message member
    rw [receivedFor_snoc_deliver iid past isDeliver] at member
    exact inv.messages iid message member

/-- A call that returns the current instance forgets it. -/
theorem LearnerInv.advance
    (inv : LearnerInv learnerCatchUp initial n past l)
    {inst : LearnerInstance} {record : PaxosAccepted}
    (present : l.instances l.currentIid = some inst)
    (sameIid : record.iid = l.currentIid)
    (room : l.currentIid + 1 < 2 ^ 32)
    {last : LearnerTransition} (isDeliver : last.input = .deliverNext)
    (returned : last.output = some record) :
    LearnerInv learnerCatchUp initial n (past ++ [last])
      { l with
        instances := Function.update l.instances inst.iid none
        currentIid := word32 (l.currentIid + 1) } := by
  have tracks := (inv.tracked _ _ present).2
  have noWrap := word32_of_lt room
  have notLate : l.lateStart = false := by
    cases isLate : l.lateStart with
    | false => rfl
    | true =>
        rw [(inv.late isLate).2.2.1] at present
        cases present
  have delivers : delivered (past ++ [last]) = delivered past ++ [record] := by
    rw [delivered_snoc, returned, Option.toList_some]
  rw [noWrap, tracks.iid_eq]
  refine ⟨inv.acceptors_eq, ?_, ?_, ?_, ?_, ?_, ?_, ?_⟩
  · intro isLate
    rw [notLate] at isLate
    cases isLate
  · intro _
    rcases inv.started notLate with catchesUp | ⟨current, member, message⟩
    · exact Or.inl catchesUp
    · exact Or.inr ⟨current, List.mem_append_left _ member, message⟩
  · rw [delivers, startFrom_snoc_deliver _ _ _ isDeliver, List.map_append,
      inv.numbered, List.length_append, List.length_singleton,
      List.range'_concat, Nat.one_mul, ← inv.current_eq, List.map_singleton,
      sameIid]
  · rw [delivers, startFrom_snoc_deliver _ _ _ isDeliver, List.length_append,
      List.length_singleton, ← Nat.add_assoc, ← inv.current_eq]
  · intro iid other otherPresent
    simp only at otherPresent
    rw [receivedFor_snoc_deliver iid past isDeliver]
    by_cases own : iid = l.currentIid
    · subst own
      rw [Function.update_self] at otherPresent
      cases otherPresent
    · rw [Function.update_of_ne own] at otherPresent
      obtain ⟨reached, otherTracks⟩ := inv.tracked iid other otherPresent
      refine ⟨?_, otherTracks⟩
      simp only
      omega
  · intro iid reached absent
    simp only at reached absent
    have different : iid ≠ l.currentIid := by omega
    rw [Function.update_of_ne different] at absent
    rw [receivedFor_snoc_deliver iid past isDeliver]
    exact inv.unknown iid (by omega) absent
  · intro iid message member
    rw [receivedFor_snoc_deliver iid past isDeliver] at member
    exact inv.messages iid message member

/-- A call of `learner_deliver_next` always returns, and what it should. -/
theorem LearnerInv.deliver
    (inv : LearnerInv learnerCatchUp initial n past l)
    (ready : LearnerOp.deliverNext.Ready n past l) :
    ∃ after out, learnerStep l .deliverNext = some (after, out) ∧
      LearnerInv learnerCatchUp initial n
        (past ++ [⟨l, .deliverNext, out, after⟩]) after ∧
      Exact n l.currentIid (receivedFor l.currentIid past) out := by
  cases present : l.instances l.currentIid with
  | none =>
      refine ⟨l, none, ?_, inv.idle rfl rfl, exact_none ?_⟩
      · simp only [learnerStep, learnerDeliverNext, present, Option.map_some]
      · rw [inv.unknown _ (Nat.le_refl _) present]
        exact not_reachedMajority_nil n
  | some inst =>
      have tracks := (inv.tracked _ _ present).2
      cases final : inst.finalValue with
      | none =>
          have same : Function.update l.instances l.currentIid (some inst) =
              l.instances := by
            rw [← present, Function.update_eq_self]
          refine ⟨l, none, ?_, inv.idle rfl rfl,
            exact_none (tracks.opened final).2⟩
          have opened : instanceHasQuorum inst l.acceptors = (false, inst) := by
            rw [inv.acceptors_eq]
            exact tracks.hasQuorum_open final
          simp only [learnerStep, learnerDeliverNext, present, opened,
            Option.map_some, same]
      | some accepted =>
          obtain ⟨reached, ⟨ack, member, rfl⟩, majority⟩ :=
            tracks.closed accepted final
          obtain ⟨ok, sameIid⟩ := inv.messages _ ack member
          have delivers : learnerDeliverNext l = some (some ack.copied,
              { l with
                instances := Function.update l.instances inst.iid none
                currentIid := word32 (l.currentIid + 1) }) := by
            simp only [learnerDeliverNext, present,
              instanceHasQuorum_closed final, final,
              paxosAcceptedDeepCopy_copied ok, Option.map_some]
          have room : l.currentIid + 1 < 2 ^ 32 := by
            rcases ready with nothing | room | fits
            · rw [nothing] at member
              cases member
            · exact room
            · simpa only [Learner.fits, delivers, decide_eq_true_eq] using fits
          have copiedIid : ack.copied.iid = l.currentIid := sameIid
          refine ⟨_, some ack.copied, ?_,
            inv.advance present copiedIid room rfl rfl, ?_⟩
          · rw [learnerStep, delivers]
            rfl
          · refine ⟨?_, ?_, ?_, fun _ => reached, fun _ => rfl⟩
            · intro record same
              cases same
              exact sameIid
            · intro record same
              cases same
              exact ⟨ack, member, rfl⟩
            · intro record same
              cases same
              exact majority

end Step

section Run

variable {learnerCatchUp : Bool} {initial n : Nat} {past : List LearnerTransition}
variable {l : Learner}

/-- A call that the learner can handle is handled, and the invariant holds
after it. -/
theorem LearnerInv.step
    (inv : LearnerInv learnerCatchUp initial n past l)
    {op : LearnerOp} (ready : op.Ready n past l) :
    ∃ after out, learnerStep l op = some (after, out) ∧
      LearnerInv learnerCatchUp initial n (past ++ [⟨l, op, out, after⟩]) after := by
  cases op with
  | receiveAccepted ack =>
      obtain ⟨after, stepEq, kept⟩ := inv.receive ready
      exact ⟨after, none, stepEq, kept⟩
  | deliverNext =>
      obtain ⟨after, out, stepEq, kept, _⟩ := inv.deliver ready
      exact ⟨after, out, stepEq, kept⟩

/-- The invariant holds along every run of calls that the learner can
handle. -/
theorem Learner.Fresh.trace_inv
    {start : Learner} (fresh : start.Fresh learnerCatchUp initial n)
    (trace : Trace learnerStep start past l)
    (ready : ∀ before current after, past = before ++ current :: after →
      current.input.Ready n before current.source) :
    LearnerInv learnerCatchUp initial n past l := by
  induction trace with
  | nil => exact fresh.inv
  | @snoc past source target input output _ stepEq inductionHypothesis =>
      have inv := inductionHypothesis (by
        rintro before current after rfl
        exact ready before current
          (after ++ [⟨source, input, output, target⟩]) (by simp))
      obtain ⟨after, out, other, kept⟩ := inv.step (ready past _ [] rfl)
      rw [stepEq] at other
      cases other
      exact kept

theorem learner_trace_inv
    (trace : Trace learnerStep (learnerNew learnerCatchUp n) past l)
    (ready : ∀ before current after, past = before ++ current :: after →
      current.input.Ready n before current.source) :
    LearnerInv learnerCatchUp 1 n past l :=
  (learnerNew_fresh learnerCatchUp n).trace_inv trace ready

/-- What a learner returns in a call of a run, for the messages received before
the call. -/
theorem deliver_exact
    (trace : Trace learnerStep (learnerNew learnerCatchUp n) past l)
    (ready : ∀ before current after, past = before ++ current :: after →
      current.input.Ready n before current.source)
    {before after : List LearnerTransition} {current : LearnerTransition}
    (shape : past = before ++ current :: after)
    (isDeliver : current.input = .deliverNext) :
    LearnerInv learnerCatchUp 1 n before current.source ∧
      Exact n current.source.currentIid
        (receivedFor current.source.currentIid before) current.output := by
  have room := ready before current after shape
  subst shape
  obtain ⟨reached, stepEq⟩ := trace.split
  have inv := learner_trace_inv reached (by
    rintro front first middle rfl
    exact ready front first (middle ++ current :: after) (by simp))
  rw [isDeliver] at room stepEq
  obtain ⟨target, out, other, _, exact⟩ := inv.deliver room
  rw [other] at stepEq
  cases stepEq
  exact ⟨inv, exact⟩

/-- Messages below the last instance id leave room for the next id. -/
theorem LearnerOp.Ok.ready
    {before : List LearnerTransition}
    (earlier : ∀ current ∈ before, current.input.Ok n)
    {op : LearnerOp} (ok : op.Ok n) :
    op.Ready n before l := by
  cases op with
  | receiveAccepted ack => exact (ok ack rfl).1
  | deliverNext =>
      by_cases nothing : receivedFor l.currentIid before = []
      · exact Or.inl nothing
      right
      left
      obtain ⟨ack, member⟩ := List.exists_mem_of_ne_nil _ nothing
      unfold receivedFor at member
      rw [List.mem_filterMap] at member
      obtain ⟨current, currentMember, holds⟩ := member
      rw [Option.filter_eq_some_iff] at holds
      have small := (earlier current currentMember ack holds.1).2
      have sameIid := of_decide_eq_true holds.2
      omega

/-- Every call of a run of calls with messages below the last instance id can
be handled. -/
theorem ready_of_ok
    (ok : ∀ current ∈ past, current.input.Ok n)
    (before : List LearnerTransition) (current : LearnerTransition)
    (after : List LearnerTransition)
    (shape : past = before ++ current :: after) :
    current.input.Ready n before current.source := by
  subst shape
  refine LearnerOp.Ok.ready ?_ (ok current (by simp))
  intro earlier member
  exact ok earlier (List.mem_append_left _ member)

/-- Every sequence of calls that the learner can handle runs. -/
theorem learner_runs
    (ops : List LearnerOp) (ok : ∀ op ∈ ops, op.Ok n) :
    ∃ past final, runFrom learnerStep (learnerNew learnerCatchUp n) ops =
      some (past, final) := by
  refine exists_runFrom ?_ ops ok
  intro past state input trace earlier allowed
  have inv := learner_trace_inv trace (ready_of_ok earlier)
  obtain ⟨after, out, stepEq, _⟩ := inv.step (allowed.ready earlier)
  exact ⟨_, stepEq⟩

end Run

/-- The messages received by a point of a run are the first ones received. -/
theorem reachedMajority_receivedFor_iff
    {n iid : Nat} {past : List LearnerTransition} :
    ReachedMajority n (receivedFor iid past) ↔
      ∃ earlier, earlier <+: past ∧
        ∃ ballot, n / 2 + 1 ≤
          (highestAt n (receivedFor iid earlier) ballot).card := by
  constructor
  · rintro ⟨messages, part, rest⟩
    obtain ⟨earlier, earlierPart, rfl⟩ := List.prefix_filterMap_iff.mp part
    exact ⟨earlier, earlierPart, rest⟩
  · rintro ⟨earlier, part, rest⟩
    exact ⟨receivedFor iid earlier, part.filterMap _, rest⟩

/-- Every sequence of calls runs, and delivers instances in order, each once,
from the first instance in catch-up mode and from that of the first message
otherwise.  A delivered record was received, and a majority of the acceptors
had sent its ballot for its instance.  A call delivers exactly when, at some
earlier point, the highest ballots of a majority of the acceptors were the same
for the current instance. -/
theorem learner_delivers_exactly
    (learnerCatchUp : Bool) (n : Nat) (ops : List LearnerOp)
    (ok : ∀ op ∈ ops, op.Ok n) :
    ∃ past final,
      runFrom learnerStep (learnerNew learnerCatchUp n) ops =
        some (past, final) ∧
      (delivered past).map PaxosAccepted.iid =
        List.range' (startIid learnerCatchUp past) (delivered past).length ∧
      ∀ before current after, past = before ++ current :: after →
        current.input = .deliverNext →
        (∀ record, current.output = some record →
          record.iid = current.source.currentIid ∧
          (∃ ack ∈ receivedFor record.iid before, record = ack.copied) ∧
          ∃ voters : Finset Nat, n / 2 + 1 ≤ voters.card ∧
            ∀ aid ∈ voters, aid < n ∧
              ∃ ack ∈ receivedFor record.iid before,
                ack.aid = aid ∧ ack.ballot = record.ballot) ∧
        (current.output.isSome = true ↔
          ∃ earlier, earlier <+: before ∧
            ∃ ballot, n / 2 + 1 ≤
              (highestAt n (receivedFor current.source.currentIid earlier)
                ballot).card) := by
  obtain ⟨past, final, ran⟩ : ∃ past final,
      runFrom learnerStep (learnerNew learnerCatchUp n) ops =
        some (past, final) :=
    learner_runs ops ok
  have trace := trace_of_runFrom _ _ ops ran
  have allOk : ∀ current ∈ past, current.input.Ok n := by
    intro current member
    apply ok _
    rw [← runFrom_inputs ops ran]
    exact List.mem_map_of_mem member
  have ready := ready_of_ok allOk
  have numbered := (learner_trace_inv trace ready).numbered
  rw [startFrom_one] at numbered
  refine ⟨past, final, ran, numbered, ?_⟩
  intro before current after shape isDeliver
  obtain ⟨inv, exactly⟩ := deliver_exact trace ready shape isDeliver
  refine ⟨?_, exactly.isSome_iff.trans reachedMajority_receivedFor_iff⟩
  intro record returned
  have sameIid := exactly.iid_eq record returned
  obtain ⟨voters, enough, sent⟩ := exactly.majority record returned
  rw [sameIid]
  refine ⟨rfl, exactly.received record returned, voters, enough, ?_⟩
  intro aid voter
  obtain ⟨ack, member, sameAid, sameBallot⟩ := sent aid voter
  have bound := (inv.messages _ ack member).1.aid_lt
  rw [sameAid] at bound
  exact ⟨bound, ack, member, sameAid, sameBallot⟩

/-- A late learner of three acceptors starts at the instance of the first
message, and delivers it after the second acceptor sends the same ballot. -/
theorem learner_delivers_exactly_late :
    ∃ past final,
      runFrom learnerStep (learnerNew false 3)
        [.receiveAccepted
          ⟨0, 4, 0, 0, 1, [0], PaxosValue.empty, some [⟨[7]⟩], [5], [5]⟩,
        .deliverNext,
        .receiveAccepted
          ⟨0, 4, 0, 0, 1, [2], PaxosValue.empty, some [⟨[7]⟩], [5], [5]⟩,
        .deliverNext] = some (past, final) ∧
      (delivered past).map PaxosAccepted.iid = [4] := by
  obtain ⟨past, final, ran, numbered, _⟩ :=
    learner_delivers_exactly false 3
      [.receiveAccepted
        ⟨0, 4, 0, 0, 1, [0], PaxosValue.empty, some [⟨[7]⟩], [5], [5]⟩,
      .deliverNext,
      .receiveAccepted
        ⟨0, 4, 0, 0, 1, [2], PaxosValue.empty, some [⟨[7]⟩], [5], [5]⟩,
      .deliverNext] (by
        intro op member ack message
        simp only [List.mem_cons, List.not_mem_nil, or_false] at member
        rcases member with rfl | rfl | rfl | rfl <;> cases message <;>
          refine ⟨⟨⟨⟨rfl, rfl, rfl⟩, ?_⟩, by decide, by decide⟩, by decide⟩ <;>
          · intro values present
            cases present
            rfl)
  refine ⟨past, final, ran, ?_⟩
  cases ran
  exact numbered

end LibPaxos
