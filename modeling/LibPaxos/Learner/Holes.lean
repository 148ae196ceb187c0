import LibPaxos.Learner.Closed

/-!
# Holes in what a learner has delivered

`learner_has_holes` compares the next instance to deliver with the highest one
that was closed.  It should report a hole exactly when an instance after the next
one has reached a majority, and then the hole goes from the first instance not
delivered to the last one closed.

A learner starts at the first instance, or at the instance of its first message
when `learner_catch_up` is not set.  `learner_set_instance_id` gives both fields
another value before the first message.  A late start then still moves the next
instance to that of the first message, and leaves the highest closed one as it
was given.
-/

namespace LibPaxos

open LibPaxos.Library

/-- How a learner is started: with `learner_catch_up` or not, and with an
instance given to `learner_set_instance_id` or not. -/
structure LearnerMode where
  learnerCatchUp : Bool
  instanceId : Option Nat

def LearnerMode.learner (n : Nat) (mode : LearnerMode) : Learner :=
  match mode.instanceId with
  | none => learnerNew mode.learnerCatchUp n
  | some iid => learnerSetInstanceId (learnerNew mode.learnerCatchUp n) iid

/-- The next instance of the learner before its first message. -/
def LearnerMode.initialIid (mode : LearnerMode) : Nat :=
  match mode.instanceId with
  | none => 1
  | some iid => word32 (iid + 1)

/-- The instance that the learner takes for closed before its first message. -/
def LearnerMode.givenIid (mode : LearnerMode) : Nat :=
  mode.instanceId.getD 1

def LearnerMode.firstIid (mode : LearnerMode)
    (past : List LearnerTransition) : Nat :=
  startFrom mode.learnerCatchUp mode.initialIid past

/-- What `learner_has_holes` should return: a hole exactly when an instance after
the next one has reached a majority and was not delivered, from the first
instance not delivered to the greatest one that has reached a majority. -/
structure HolesExact (n first : Nat) (past : List LearnerTransition)
    (l : Learner) : Prop where
  reported : (learnerHasHoles l).isSome = true ↔
    ∃ iid, l.currentIid < iid ∧ ReachedMajority n (receivedFor iid past) ∧
      iid ∉ (delivered past).map PaxosAccepted.iid
  bounds : ∀ lower upper, learnerHasHoles l = some (lower, upper) →
    first ≤ lower ∧
    lower ∉ (delivered past).map PaxosAccepted.iid ∧
    (∀ iid, first ≤ iid → iid < lower →
      iid ∈ (delivered past).map PaxosAccepted.iid) ∧
    ReachedMajority n (receivedFor upper past) ∧
    ∀ iid, ReachedMajority n (receivedFor iid past) → iid ≤ upper

/-- The instance given to a learner leaves room for the next one, and the first
message of a late start is not about an earlier instance. -/
def LearnerMode.Respected (mode : LearnerMode)
    (past : List LearnerTransition) : Prop :=
  ∀ iid, mode.instanceId = some iid →
    iid + 1 < 2 ^ 32 ∧
      (mode.learnerCatchUp = true ∨
        ∀ ack, (past.findSome? fun current => current.input.message) =
          some ack → iid ≤ ack.iid)

theorem LearnerMode.fresh (mode : LearnerMode) (n : Nat) :
    (mode.learner n).Fresh mode.learnerCatchUp mode.initialIid n := by
  obtain ⟨learnerCatchUp, instanceId⟩ := mode
  cases instanceId with
  | none => exact learnerNew_fresh learnerCatchUp n
  | some iid => exact learnerSetInstanceId_fresh learnerCatchUp n iid

theorem LearnerMode.highestIidClosed_learner (mode : LearnerMode) (n : Nat) :
    (mode.learner n).highestIidClosed = mode.givenIid := by
  obtain ⟨learnerCatchUp, instanceId⟩ := mode
  cases instanceId with
  | none => rfl
  | some iid => rfl

section State

variable {n first base : Nat} {past : List LearnerTransition} {l : Learner}

theorem mem_delivered_iff
    (numbered : (delivered past).map PaxosAccepted.iid =
      List.range' first (delivered past).length)
    (current : l.currentIid = first + (delivered past).length) (iid : Nat) :
    iid ∈ (delivered past).map PaxosAccepted.iid ↔
      first ≤ iid ∧ iid < l.currentIid := by
  rw [numbered, List.mem_range'_1, current]

/-- A hole ends at an instance that has reached a majority, when the instance
that the learner began with is not ahead, or when one from it on has. -/
theorem ClosedSince.reached_highest
    (closed : ClosedSince n first base past l)
    (low : first ≤ l.currentIid)
    (sound : base ≤ l.currentIid ∨
      ∃ iid, base ≤ iid ∧ ReachedMajority n (receivedFor iid past))
    (ahead : l.currentIid < l.highestIidClosed) :
    ReachedMajority n (receivedFor l.highestIidClosed past) := by
  rcases closed.attained with begun | reached
  · rcases sound with passed | ⟨iid, above, reached⟩
    · omega
    · have most := closed.highest iid (by omega) reached
      have same : l.highestIidClosed = iid := by omega
      rwa [same]
  · exact reached

/-- The answer of `learner_has_holes` is exact if and only if the instance that
the learner began with is not ahead, or one from it on has reached a
majority. -/
theorem holesExact_iff
    (closed : ClosedSince n first base past l)
    (numbered : (delivered past).map PaxosAccepted.iid =
      List.range' first (delivered past).length)
    (current : l.currentIid = first + (delivered past).length) :
    HolesExact n first past l ↔
      base ≤ l.currentIid ∨
        ∃ iid, base ≤ iid ∧ ReachedMajority n (receivedFor iid past) := by
  have member := mem_delivered_iff numbered current
  have least := closed.above_base
  constructor
  · intro holes
    by_cases passed : base ≤ l.currentIid
    · exact Or.inl passed
    · have hole : learnerHasHoles l =
          some (l.currentIid, l.highestIidClosed) :=
        if_pos (by omega)
      exact Or.inr ⟨_, least, (holes.bounds _ _ hole).2.2.2.1⟩
  · intro sound
    have attained := closed.reached_highest (by omega) sound
    refine ⟨⟨?_, ?_⟩, ?_⟩
    · intro some
      have ahead : l.currentIid < l.highestIidClosed := by
        by_contra none
        rw [learnerHasHoles, if_neg none] at some
        cases some
      refine ⟨l.highestIidClosed, ahead, attained ahead, ?_⟩
      rw [member]
      omega
    · rintro ⟨iid, above, reached, _⟩
      have bound := closed.highest iid (by omega) reached
      rw [learnerHasHoles, if_pos (Nat.lt_of_lt_of_le above bound)]
      rfl
    · intro lower upper hole
      unfold learnerHasHoles at hole
      by_cases ahead : l.currentIid < l.highestIidClosed
      · rw [if_pos ahead] at hole
        cases hole
        simp only [member]
        refine ⟨by omega, by omega, fun iid above below => ⟨above, below⟩,
          attained ahead, ?_⟩
        intro iid reached
        by_cases early : iid < first
        · omega
        · exact closed.highest iid (by omega) reached
      · rw [if_neg ahead] at hole
        cases hole

end State

section Run

variable {n : Nat} {past : List LearnerTransition} {l : Learner}

/-- The next instance is at or past the given one when the mode is
respected. -/
theorem LearnerMode.Respected.givenIid_le
    {mode : LearnerMode} (respected : mode.Respected past)
    (positive : ∀ current ∈ past, ∀ ack, current.input.message = some ack →
      1 ≤ ack.iid) :
    mode.givenIid ≤ mode.firstIid past := by
  obtain ⟨learnerCatchUp, instanceId⟩ := mode
  have begins : ∀ given initial, given ≤ initial →
      (learnerCatchUp = true ∨
        ∀ ack, (past.findSome? fun current => current.input.message) =
          some ack → given ≤ ack.iid) →
      given ≤ startFrom learnerCatchUp initial past := by
    intro given initial below first
    unfold startFrom
    split
    · exact below
    · next late =>
        have later := first.resolve_left late
        split
        · exact below
        · next ack found => exact later ack found
  cases instanceId with
  | none =>
      apply begins 1 1 (Nat.le_refl 1)
      right
      intro ack found
      obtain ⟨current, member, message⟩ :=
        List.exists_of_findSome?_eq_some found
      exact positive current member ack message
  | some iid =>
      obtain ⟨room, first⟩ := respected iid rfl
      apply begins iid (word32 (iid + 1)) ?_ first
      rw [word32_of_lt room]
      exact Nat.le_succ iid

/-- In every state of a run, so also when `learner_deliver_next` has returned 0,
the answer of `learner_has_holes` is exact if and only if the instance given at
the start is not ahead of the next one to deliver, or an instance from it on has
reached a majority.  This is so in every run of a learner that was given no
instance, or one that leaves room for the next and that the first message of a
late start does not come before. -/
theorem holes_exact_iff
    (mode : LearnerMode)
    (trace : Trace learnerStep (mode.learner n) past l)
    (ok : ∀ current ∈ past, ∀ ack, current.input.message = some ack →
      AcceptedOk n ack ∧ 1 ≤ ack.iid ∧ ack.iid ≤ 2 ^ 32 - 2) :
    (HolesExact n (mode.firstIid past) past l ↔
      mode.givenIid ≤ l.currentIid ∨
        ∃ iid, mode.givenIid ≤ iid ∧
          ReachedMajority n (receivedFor iid past)) ∧
    (mode.Respected past → HolesExact n (mode.firstIid past) past l) := by
  have allOk : ∀ current ∈ past, current.input.Ok n := by
    intro current member ack message
    obtain ⟨ackOk, _, bound⟩ := ok current member ack message
    exact ⟨ackOk, by omega⟩
  have inv := (mode.fresh n).trace_inv trace (ready_of_ok allOk)
  have closed := (mode.fresh n).trace_closed trace (ready_of_ok allOk)
  rw [mode.highestIidClosed_learner] at closed
  have exactly := holesExact_iff closed inv.numbered inv.current_eq
  refine ⟨exactly, ?_⟩
  intro respected
  apply exactly.mpr
  left
  have positive : ∀ current ∈ past, ∀ ack,
      current.input.message = some ack → 1 ≤ ack.iid :=
    fun current member ack message => (ok current member ack message).2.1
  have below := respected.givenIid_le positive
  have current := inv.current_eq
  unfold LearnerMode.firstIid at below
  omega

end Run

/-- An accepted of the first acceptor for an instance. -/
def acceptedByFirst (iid : Nat) : PaxosAccepted :=
  ⟨0, iid, 0, 0, 1, [0], PaxosValue.empty, some [⟨[7]⟩], [5], [5]⟩

theorem acceptedByFirst_ok {n iid : Nat} (positive : 0 < n) :
    AcceptedOk n (acceptedByFirst iid) := by
  refine ⟨⟨⟨rfl, rfl, rfl⟩, ?_⟩, Nat.one_pos, positive⟩
  intro values present
  cases present
  rfl

/-- A late learner of one acceptor that is given instance 4, hears first of
instance 7 and then of instance 9, and has one instance to deliver. -/
theorem holes_exact_ahead :
    ∃ (past : List LearnerTransition) (l : Learner),
      Trace learnerStep (LearnerMode.learner 1 ⟨false, some 4⟩) past l ∧
      learnerHasHoles l = some (8, 9) ∧
      HolesExact 1 (LearnerMode.firstIid ⟨false, some 4⟩ past) past l := by
  have ran := trace_of_runFrom learnerStep
    (LearnerMode.learner 1 ⟨false, some 4⟩)
    [.receiveAccepted (acceptedByFirst 7), .receiveAccepted (acceptedByFirst 9),
      .deliverNext, .deliverNext] rfl
  refine ⟨_, _, ran, rfl, (holes_exact_iff ⟨false, some 4⟩ ran ?_).2 ?_⟩
  · intro current member ack message
    simp only [List.mem_cons, List.not_mem_nil, or_false] at member
    rcases member with rfl | rfl | rfl | rfl
    · cases message
      exact ⟨acceptedByFirst_ok Nat.one_pos, by decide, by decide⟩
    · cases message
      exact ⟨acceptedByFirst_ok Nat.one_pos, by decide, by decide⟩
    · cases message
    · cases message
  · intro iid given
    cases given
    refine ⟨by decide, Or.inr ?_⟩
    intro ack first
    cases first
    decide

/-- A late learner of three acceptors that is given instance 100 and hears of
instance 5 reports a hole up to instance 100.  A learner that is given the last
instance id reports one before its first message. -/
theorem holes_reported_without_majority :
    (∃ past l,
      runFrom learnerStep (LearnerMode.learner 3 ⟨false, some 100⟩)
        [.receiveAccepted (acceptedByFirst 5), .deliverNext] = some (past, l) ∧
      past.map Transition.output = [none, none] ∧
      AcceptedOk 3 (acceptedByFirst 5) ∧
      learnerHasHoles l = some (5, 100) ∧
      ¬ HolesExact 3 (LearnerMode.firstIid ⟨false, some 100⟩ past) past l) ∧
    learnerHasHoles (LearnerMode.learner 3 ⟨true, some (2 ^ 32 - 1)⟩) =
      some (0, 2 ^ 32 - 1) ∧
    ¬ HolesExact 3 (LearnerMode.firstIid ⟨true, some (2 ^ 32 - 1)⟩ []) []
      (LearnerMode.learner 3 ⟨true, some (2 ^ 32 - 1)⟩) := by
  refine ⟨⟨_, _, rfl, rfl, acceptedByFirst_ok (by decide), rfl, ?_⟩, rfl, ?_⟩
  · intro holes
    exact not_reachedMajority_nil 3 (holes.bounds 5 100 rfl).2.2.2.1
  · intro holes
    exact not_reachedMajority_nil 3
      (holes.bounds 0 (2 ^ 32 - 1) rfl).2.2.2.1

end LibPaxos
