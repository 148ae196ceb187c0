import LibPaxos.Acceptor.Records

/-!
# An acceptor keeps its promises

A reply for an instance reports the ballot the acceptor holds for it.  The
acceptor never goes back behind a ballot it has reported: the record of the
instance keeps a ballot at least as high until the instance is trimmed, and a
trimmed instance is not answered any more.
-/

namespace LibPaxos

open LibPaxos.Library

def MemAcceptor.storedBallot (a : MemAcceptor) (iid : Nat) : Option Nat :=
  (a.store.records iid).map PaxosAccepted.ballot

/-- The instance and the ballot that a reply of an acceptor reports. -/
def PaxosMessage.reported : PaxosMessage → Option (Nat × Nat)
  | .promise message => some (message.iid, firstOr 0 message.ballots)
  | .accepted message => some (message.iid, message.ballot)
  | .preempted message => some (message.iid, message.ballot)
  | _ => none

/-- The acceptor holds a ballot at least as high, or has trimmed the
instance. -/
def MemAcceptor.HoldsAtLeast (a : MemAcceptor) (iid ballot : Nat) : Prop :=
  iid ≤ a.trimIid ∨
    ∃ record, a.store.records iid = some record ∧ ballot ≤ record.ballot

/-- A call never lowers the ballot of a record that it does not trim. -/
theorem RecordChange.ballot_le
    {a : MemAcceptor} {op : AcceptorOp} {trimIid key : Nat}
    {before : PaxosAccepted} {after : Option PaxosAccepted}
    (change : RecordChange a op trimIid key after)
    (present : a.store.records key = some before)
    (above : trimIid < key) :
    ∃ record, after = some record ∧ before.ballot ≤ record.ballot := by
  cases change with
  | kept => exact ⟨before, present, Nat.le_refl _⟩
  | prepared isrc req _ _ _ grants => exact ⟨_, rfl, grants before present⟩
  | accepted req _ _ _ grants => exact ⟨_, rfl, grants before present⟩
  | relayed old new _ oldAt head =>
      rw [present] at oldAt
      cases oldAt
      exact ⟨new, rfl, Nat.le_of_eq head.ballot_eq.symm⟩
  | trimmed low => omega

section Step

variable {a after : MemAcceptor} {op : AcceptorOp}
variable {reply : Option PaxosMessage}
variable (outcome : Outcome a op after reply) {iid ballot : Nat}

include outcome in
theorem Outcome.holdsAtLeast
    (inv : a.Inv) (holds : a.HoldsAtLeast iid ballot) :
    after.HoldsAtLeast iid ballot := by
  by_cases trimmed : iid ≤ after.trimIid
  · exact Or.inl trimmed
  · rcases holds with low | ⟨record, present, enough⟩
    · have monotone := outcome.trim_le
      omega
    · obtain ⟨next, nextAt, higher⟩ :=
        (outcome.record inv iid).ballot_le present (by omega)
      exact Or.inr ⟨next, nextAt, enough.trans higher⟩

include outcome in
/-- After replying, the acceptor holds the ballot it reported. -/
theorem Outcome.holdsAtLeast_reported
    (inv : a.Inv) {message : PaxosMessage} (replied : reply = some message)
    (reported : message.reported = some (iid, ballot)) :
    after.HoldsAtLeast iid ballot := by
  cases outcome with
  | promised isrc req _ _ _ =>
      cases replied
      cases reported
      exact Or.inr ⟨_, a.records_setRecord_self _, Nat.le_refl _⟩
  | refused isrc req record _ _ present _ =>
      cases replied
      cases reported
      rw [← (inv.record _ _ present).1.iid_eq] at present
      exact Or.inr ⟨record, present, Nat.le_refl _⟩
  | accepted req _ _ _ =>
      cases replied
      cases reported
      exact Or.inr ⟨_, a.records_setRecord_self _, Nat.le_refl _⟩
  | preempted req record _ _ present _ =>
      cases replied
      cases reported
      rw [← (inv.record _ _ present).1.iid_eq] at present
      exact Or.inr ⟨record, present, Nat.le_refl _⟩
  | repeated key record _ present _ _ =>
      cases replied
      cases reported
      rw [← (inv.record _ _ present).1.iid_eq] at present
      exact Or.inr ⟨record, present, Nat.le_refl _⟩
  | ignored => cases replied
  | relayed => cases replied
  | trimmed => cases replied

include outcome in
/-- A reply for an instance reports a ballot no lower than the one held. -/
theorem Outcome.reported_ge
    (inv : a.Inv) (holds : a.HoldsAtLeast iid ballot)
    {message : PaxosMessage} (replied : reply = some message)
    {later : Nat} (reported : message.reported = some (iid, later)) :
    ballot ≤ later := by
  have kept : ∀ record, a.store.records iid = some record →
      ballot ≤ record.ballot := by
    intro record present
    rcases holds with low | ⟨found, foundAt, enough⟩
    · have above := (inv.record iid record present).2
      omega
    · rw [present] at foundAt
      cases foundAt
      exact enough
  have granted : ∀ requested, a.trimIid < iid → a.Grants iid requested →
      ballot ≤ requested := by
    intro requested above grants
    rcases holds with low | ⟨record, present, enough⟩
    · omega
    · exact enough.trans (grants record present)
  cases outcome with
  | promised isrc req _ above grants =>
      cases replied
      cases reported
      exact granted _ above grants
  | refused isrc req record _ _ present _ =>
      cases replied
      cases reported
      rw [← (inv.record _ _ present).1.iid_eq] at present
      exact kept record present
  | accepted req _ above grants =>
      cases replied
      cases reported
      exact granted _ above grants
  | preempted req record _ _ present _ =>
      cases replied
      cases reported
      rw [← (inv.record _ _ present).1.iid_eq] at present
      exact kept record present
  | repeated key record _ present _ _ =>
      cases replied
      cases reported
      rw [← (inv.record _ _ present).1.iid_eq] at present
      exact kept record present
  | ignored => cases replied
  | relayed => cases replied
  | trimmed => cases replied

include outcome in
/-- An accept below the ballot held changes nothing and is not
acknowledged. -/
theorem Outcome.accept_below
    (holds : a.HoldsAtLeast iid ballot)
    {req : PaxosAccept} (isAccept : op = .receiveAccept req)
    (sameIid : req.iid = iid) (below : req.ballot < ballot) :
    after = a ∧ ∀ message, reply ≠ some (.accepted message) := by
  subst sameIid
  subst isAccept
  cases outcome with
  | ignored => exact ⟨rfl, by simp⟩
  | accepted req' same above grants =>
      cases same
      rcases holds with low | ⟨record, present, enough⟩
      · omega
      · have granted := grants record present
        omega
  | preempted => exact ⟨rfl, by simp⟩
  | promised _ _ same => cases same
  | refused _ _ _ same => cases same
  | repeated _ _ same => cases same
  | relayed _ _ _ isRelay => cases isRelay
  | trimmed _ same => cases same

include outcome in
/-- A promise reports a ballot no lower than the one asked for. -/
theorem Outcome.promise_ge
    {isrc : Int} {req : PaxosPrepare} {promise : PaxosPromise}
    (isPrepare : op = .receivePrepare isrc req)
    (replied : reply = some (.promise promise)) :
    req.ballot ≤ firstOr 0 promise.ballots := by
  cases outcome with
  | promised _ _ same =>
      cases isPrepare.symm.trans same
      cases replied
      exact Nat.le_refl _
  | refused _ _ _ same _ _ smaller =>
      cases isPrepare.symm.trans same
      cases replied
      exact Nat.le_of_lt smaller
  | ignored => cases replied
  | accepted => cases replied
  | preempted => cases replied
  | repeated => cases replied
  | relayed => cases replied
  | trimmed => cases replied

end Step

section Run

variable {id subordinates : Nat} {final : MemAcceptor}

/-- What held after one step of a trace, well-formed records and a ballot held,
holds when a later step is taken. -/
theorem holdsAtLeast_later
    {before middle after : List AcceptorTransition}
    {earlier later : AcceptorTransition}
    (trace : Trace memAcceptorStep (memAcceptorNew id subordinates)
      (before ++ earlier :: middle ++ later :: after) final)
    {iid ballot : Nat} {message : PaxosMessage}
    (replied : earlier.output.sent = some message)
    (reported : message.reported = some (iid, ballot)) :
    later.source.Inv ∧ later.source.HoldsAtLeast iid ballot := by
  have earlierTrace : Trace memAcceptorStep (memAcceptorNew id subordinates)
      (before ++ earlier :: (middle ++ later :: after)) final := by
    simpa using trace
  obtain ⟨reached, stepEq⟩ := earlierTrace.split
  have inv := (memAcceptor_trace_inv reached).1
  have outcome := memAcceptorStep_outcome inv stepEq
  refine trace.stable_between
    (fun state => state.Inv ∧ state.HoldsAtLeast iid ballot)
    ?_ ⟨outcome.keeps_inv inv,
      outcome.holdsAtLeast_reported inv replied reported⟩
  rintro source call target result ⟨sourceInv, holds⟩ sourceStep
  have sourceOutcome := memAcceptorStep_outcome sourceInv sourceStep
  exact ⟨sourceOutcome.keeps_inv sourceInv,
    sourceOutcome.holdsAtLeast sourceInv holds⟩

/-- In every run of an acceptor the ballot stored for an instance never
decreases while the instance is above the trim point.  After a reply that
reports a ballot, an accept with a smaller ballot changes nothing and is not
acknowledged, and no reply reports a smaller ballot.  A promise reports at
least the ballot it answers. -/
theorem acceptor_keeps_promises
    {past : List AcceptorTransition}
    (trace : Trace memAcceptorStep (memAcceptorNew id subordinates)
      past final) :
    (∀ current ∈ past, ∀ iid, current.target.trimIid < iid →
      ∀ ballot, current.source.storedBallot iid = some ballot →
        ∃ later, current.target.storedBallot iid = some later ∧
          ballot ≤ later) ∧
    (∀ before earlier middle later after,
      past = before ++ earlier :: middle ++ later :: after →
      ∀ answer iid ballot, earlier.output.sent = some answer →
        answer.reported = some (iid, ballot) →
        (∀ req, later.input.2 = .receiveAccept req → req.iid = iid →
          req.ballot < ballot →
          later.target = later.source ∧
            ∀ message, later.output.sent ≠ some (.accepted message)) ∧
        (∀ message other, later.output.sent = some message →
          message.reported = some (iid, other) → ballot ≤ other)) ∧
    (∀ current ∈ past, ∀ isrc req promise,
      current.input.2 = .receivePrepare isrc req →
      current.output.sent = some (.promise promise) →
      req.ballot ≤ firstOr 0 promise.ballots) := by
  refine ⟨?_, ?_, ?_⟩
  · intro current member iid above ballot stored
    obtain ⟨_, _, _, reached, stepEq⟩ := trace.mem_split member
    have inv := (memAcceptor_trace_inv reached).1
    have outcome := memAcceptorStep_outcome inv stepEq
    obtain ⟨record, present, rfl⟩ := Option.map_eq_some_iff.mp stored
    obtain ⟨next, nextAt, higher⟩ :=
      (outcome.record inv iid).ballot_le present above
    exact ⟨next.ballot, Option.map_eq_some_iff.mpr ⟨next, nextAt, rfl⟩,
      higher⟩
  · rintro before earlier middle later after rfl answer iid ballot replied
      reported
    obtain ⟨inv, holds⟩ := holdsAtLeast_later trace replied reported
    have outcome := memAcceptorStep_outcome inv trace.split.2
    refine ⟨?_, ?_⟩
    · intro req isAccept sameIid below
      exact outcome.accept_below holds isAccept sameIid below
    · intro message other laterReplied laterReported
      exact outcome.reported_ge inv holds laterReplied laterReported
  · intro current member isrc req promise isPrepare replied
    obtain ⟨_, _, _, reached, stepEq⟩ := trace.mem_split member
    have inv := (memAcceptor_trace_inv reached).1
    exact (memAcceptorStep_outcome inv stepEq).promise_ge isPrepare replied

/-- A prepare at ballot 5 followed by an accept at ballot 3, which is
preempted. -/
theorem acceptor_keeps_promises_preempts :
    ∃ past final,
      Trace memAcceptorStep (memAcceptorNew 0 0) past final ∧
      past.map (fun current => current.output.sent.bind
          PaxosMessage.reported) = [some (1, 5), some (1, 5)] ∧
      ∀ before earlier middle later after,
        past = before ++ earlier :: middle ++ later :: after →
        ∀ answer iid ballot, earlier.output.sent = some answer →
          answer.reported = some (iid, ballot) →
          ∀ req, later.input.2 = .receiveAccept req → req.iid = iid →
            req.ballot < ballot → later.target = later.source := by
  have ran :=
    trace_of_runFrom memAcceptorStep (memAcceptorNew 0 0)
      ([(Memory.zero, .receivePrepare 0 ⟨0, 1, 5⟩),
        (Memory.zero, .receiveAccept ⟨0, 1, 3, ⟨[7]⟩⟩)]) rfl
  refine ⟨_, _, ran, rfl, ?_⟩
  intro before earlier middle later after shape answer iid ballot replied
    reported req isAccept sameIid below
  exact (((acceptor_keeps_promises ran).2.1 before earlier middle later after
    shape answer iid ballot replied reported).1 req isAccept sameIid below).1

end Run

end LibPaxos
