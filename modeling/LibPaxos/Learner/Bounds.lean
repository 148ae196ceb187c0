import LibPaxos.Learner.Closed

/-!
# Where a learner indexes its arrays

A learner keeps the acknowledgements of an instance in an array with a place for
each acceptor of its own configuration, and takes the place from the first entry
of a message.  It compares neither the number of entries with zero nor the
acceptor id with the number of acceptors.  Here it is said exactly which
messages stay within the arrays, in every state that messages as they come off
the wire lead to.
-/

namespace LibPaxos

open LibPaxos.Library

/-- An accepted as it is decoded: its words are all there or all missing, and
its values are there or missing.  Its id has 32 bits. -/
structure PaxosAccepted.Decoded (ack : PaxosAccepted) : Prop where
  iid : ack.iid < 2 ^ 32
  words : ack.WordsConsistent ∨
    (ack.aids = [] ∧ ack.ballots = [] ∧ ack.valueBallots = [])
  values : ∀ array, ack.values = some array → array.length = ack.nAids

/-- The first entry exists and is from an acceptor that is known. -/
def PaxosAccepted.FirstKnown (acceptors : Nat) (ack : PaxosAccepted) : Prop :=
  ∃ aid ballot, ack.aids[0]? = some aid ∧ ack.ballots[0]? = some ballot ∧
    aid < acceptors

/-- The instance of a message has a quorum before the message is added. -/
def AlreadyClosed (l : Learner) (ack : PaxosAccepted) : Prop :=
  ∃ inst, instanceStart (learnerGetInstanceOrCreate l ack.iid) ack =
      some inst ∧
    (instanceHasQuorum inst l.acceptors).1 = true

/-- The message is for a delivered instance or for a closed one, or its first
entry is from a known acceptor. -/
def ReceiveInBounds (l : Learner) (ack : PaxosAccepted) : Prop :=
  ack.iid < (learnerStart l ack).currentIid ∨
    AlreadyClosed (learnerStart l ack) ack ∨ ack.FirstKnown l.acceptors

/-- A record that can be copied and has a first entry. -/
structure PaxosAccepted.Copyable (ack : PaxosAccepted) : Prop
    extends ack.ArraysConsistent where
  positive : 0 < ack.nAids

/-- An instance with a place for each acceptor and records that can be
copied. -/
structure LearnerInstance.Placed (n : Nat) (inst : LearnerInstance) : Prop where
  places : inst.acks.length = n
  acks : ∀ ack, some ack ∈ inst.acks → ack.Copyable
  final : ∀ ack, inst.finalValue = some ack → ack.Copyable

/-- Instances are in their place, under their own id. -/
structure Learner.Placed (l : Learner) : Prop where
  instances : ∀ iid inst, l.instances iid = some inst →
    inst.Placed l.acceptors ∧ inst.iid = iid
  current : l.currentIid < 2 ^ 32

theorem PaxosAccepted.Decoded.copyable
    {ack : PaxosAccepted} (decoded : ack.Decoded) {aid : Nat}
    (first : ack.aids[0]? = some aid) :
    ack.Copyable := by
  have nonempty : 0 < ack.aids.length :=
    (List.getElem?_eq_some_iff.mp first).1
  rcases decoded.words with consistent | ⟨missing, _⟩
  · exact ⟨⟨consistent, decoded.values⟩, consistent.aids ▸ nonempty⟩
  · rw [missing] at nonempty
    cases nonempty

theorem PaxosAccepted.Copyable.dup
    {ack : PaxosAccepted} (copyable : ack.Copyable) :
    paxosAcceptedDup ack = some ack.copied :=
  paxosAcceptedDup_eq copyable.toArraysConsistent copyable.positive

theorem PaxosAccepted.Copyable.copied
    {ack : PaxosAccepted} (copyable : ack.Copyable) :
    ack.copied.Copyable :=
  ⟨⟨⟨copyable.aids, copyable.ballots, copyable.valueBallots⟩,
    copyable.values⟩, copyable.positive⟩

section Instance

variable {n : Nat} {inst : LearnerInstance}

theorem placed_new (n : Nat) : (learnerInstanceNew n).Placed n := by
  refine ⟨List.length_replicate, ?_, ?_⟩
  · intro ack member
    have none := List.eq_of_mem_replicate member
    cases none
  · intro ack isFinal
    cases isFinal

theorem LearnerInstance.Placed.hasQuorum (placed : inst.Placed n) :
    (instanceHasQuorum inst n).2.Placed n := by
  cases final : inst.finalValue with
  | some accepted =>
      rw [instanceHasQuorum_closed final]
      exact placed
  | none =>
      by_cases few : (agreeingAcceptors inst.lastUpdateBallot
          inst.acks).card < n / 2 + 1
      · rw [instanceHasQuorum_open final few]
        exact placed
      · obtain ⟨accepted, member, _, closes⟩ :=
          instanceHasQuorum_close final (Nat.le_of_not_lt few)
        rw [closes]
        refine ⟨placed.places, placed.acks, ?_⟩
        intro ack isFinal
        cases isFinal
        exact placed.acks accepted member

theorem instanceHasQuorum_iid (inst : LearnerInstance) (n : Nat) :
    (instanceHasQuorum inst n).2.iid = inst.iid := by
  unfold instanceHasQuorum
  split
  · rfl
  · simp only
    split <;> rfl

/-- The first part of an update. -/
theorem LearnerInstance.Placed.start
    (placed : inst.Placed n) {ack : PaxosAccepted}
    {started : LearnerInstance}
    (starts : instanceStart inst ack = some started) :
    started.Placed n ∧
      (inst.iid = 0 ∨ inst.iid = ack.iid → started.iid = ack.iid) := by
  unfold instanceStart at starts
  split at starts
  · obtain ⟨ballot, _, rfl⟩ := Option.map_eq_some_iff.mp starts
    exact ⟨⟨placed.places, placed.acks, placed.final⟩, fun _ => rfl⟩
  · next begun =>
      cases starts
      exact ⟨placed, fun known => known.resolve_left begun⟩

theorem instanceUpdate_isSome_iff
    (placed : inst.Placed n) {ack : PaxosAccepted} (decoded : ack.Decoded) :
    (instanceUpdate inst ack n).isSome ↔
      (∃ started, instanceStart inst ack = some started ∧
        (instanceHasQuorum started n).1 = true) ∨ ack.FirstKnown n := by
  unfold instanceUpdate
  cases starts : instanceStart inst ack with
  | none =>
      -- Only the first message of an instance can fail to start it.
      have missing : ack.ballots[0]? = none := by
        unfold instanceStart at starts
        split at starts
        · exact Option.map_eq_none_iff.mp starts
        · cases starts
      apply iff_of_false (by simp)
      rintro (⟨started, isStarted, _⟩ | ⟨_, _, _, ballotAt, _⟩)
      · cases isStarted
      · rw [missing] at ballotAt
        cases ballotAt
  | some started =>
      have sized := (placed.start starts).1.hasQuorum.places
      cases quorum : instanceHasQuorum started n with
      | mk closed tested =>
          rw [quorum] at sized
          simp only [quorum]
          cases closed with
          | true =>
              refine iff_of_true rfl (Or.inl ⟨started, rfl, ?_⟩)
              rw [quorum]
          | false =>
              have opened : ¬ ∃ other, some started = some other ∧
                  (instanceHasQuorum other n).1 = true := by
                rintro ⟨other, isStarted, isClosed⟩
                cases isStarted
                rw [quorum] at isClosed
                cases isClosed
              rw [or_iff_right opened]
              constructor
              · intro ran
                cases aidAt : ack.aids[0]? with
                | none => simp [aidAt] at ran
                | some aid =>
                    cases ballotAt : ack.ballots[0]? with
                    | none => simp [ballotAt] at ran
                    | some ballot =>
                        refine ⟨aid, ballot, aidAt, ballotAt, ?_⟩
                        rw [← sized]
                        by_contra outside
                        have missing : tested.acks[aid]? = none :=
                          List.getElem?_eq_none (Nat.le_of_not_lt outside)
                        simp [aidAt, ballotAt, missing] at ran
              · rintro ⟨aid, ballot, aidAt, ballotAt, known⟩
                rw [← sized] at known
                have dup := (decoded.copyable aidAt).dup
                simp only [aidAt, ballotAt, List.getElem?_eq_getElem known,
                  instanceAddAccept, dup]
                split <;> rfl

theorem instanceUpdate_placed
    (placed : inst.Placed n) {ack : PaxosAccepted} (decoded : ack.Decoded)
    (known : inst.iid = 0 ∨ inst.iid = ack.iid) {updated : LearnerInstance}
    (updates : instanceUpdate inst ack n = some updated) :
    updated.Placed n ∧ updated.iid = ack.iid := by
  unfold instanceUpdate at updates
  cases starts : instanceStart inst ack with
  | none => simp [starts] at updates
  | some started =>
      obtain ⟨startedPlaced, sameIid⟩ := placed.start starts
      have testedPlaced := startedPlaced.hasQuorum
      have testedIid := (instanceHasQuorum_iid started n).trans (sameIid known)
      simp only [starts] at updates
      cases quorum : instanceHasQuorum started n with
      | mk closed tested =>
          rw [quorum] at testedPlaced testedIid
          simp only [quorum] at updates
          cases closed with
          | true =>
              cases updates
              exact ⟨testedPlaced, testedIid⟩
          | false =>
              simp only at updates
              split at updates
              · next aid ballot aidAt ballotAt =>
                  split at updates
                  · cases updates
                  · split at updates
                    · cases updates
                      exact ⟨testedPlaced, testedIid⟩
                    · have copyable := decoded.copyable aidAt
                      rw [instanceAddAccept, copyable.dup] at updates
                      cases updates
                      refine ⟨⟨?_, ?_, testedPlaced.final⟩, testedIid⟩
                      · rw [List.length_set]
                        exact testedPlaced.places
                      · intro stored member
                        rcases List.mem_or_eq_of_mem_set member with
                          old | fresh
                        · exact testedPlaced.acks stored old
                        · cases fresh
                          exact copyable.copied
              · cases updates

end Instance

/-! ### Receiving -/

section Receive

variable {l : Learner}

/-- An instance that is put back under its own id is in its place. -/
theorem Learner.Placed.instances_update
    (placed : l.Placed) {key : Nat} {inst : LearnerInstance}
    (instPlaced : inst.Placed l.acceptors) (sameIid : inst.iid = key) :
    ∀ iid other, Function.update l.instances key (some inst) iid = some other →
      other.Placed l.acceptors ∧ other.iid = iid := by
  intro iid other present
  by_cases same : iid = key
  · subst same
    rw [Function.update_self] at present
    cases present
    exact ⟨instPlaced, sameIid⟩
  · rw [Function.update_of_ne same] at present
    exact placed.instances iid other present

theorem Learner.Placed.start
    (placed : l.Placed) {ack : PaxosAccepted} (decoded : ack.Decoded) :
    (learnerStart l ack).Placed ∧
      (learnerStart l ack).acceptors = l.acceptors := by
  unfold learnerStart
  split
  · exact ⟨⟨placed.instances, decoded.iid⟩, rfl⟩
  · exact ⟨placed, rfl⟩

/-- The instance that a message is for: one under its id, or a new one. -/
theorem Learner.Placed.instance
    (placed : l.Placed) (iid : Nat) :
    (learnerGetInstanceOrCreate l iid).Placed l.acceptors ∧
      ((learnerGetInstanceOrCreate l iid).iid = 0 ∨
        (learnerGetInstanceOrCreate l iid).iid = iid) := by
  unfold learnerGetInstanceOrCreate
  cases present : l.instances iid with
  | none => exact ⟨placed_new l.acceptors, Or.inl rfl⟩
  | some inst =>
      obtain ⟨instPlaced, sameIid⟩ := placed.instances iid inst present
      exact ⟨instPlaced, Or.inr sameIid⟩

theorem learnerReceiveAccepted_isSome_iff
    (placed : l.Placed) {ack : PaxosAccepted} (decoded : ack.Decoded) :
    (learnerReceiveAccepted l ack).isSome ↔ ReceiveInBounds l ack := by
  obtain ⟨startPlaced, sameAcceptors⟩ := placed.start decoded
  have updates := instanceUpdate_isSome_iff
    (startPlaced.instance ack.iid).1 decoded
  unfold learnerReceiveAccepted ReceiveInBounds AlreadyClosed
  rw [← sameAcceptors]
  simp only
  by_cases old : ack.iid < (learnerStart l ack).currentIid
  · rw [if_pos old]
    exact iff_of_true rfl (Or.inl old)
  · rw [if_neg old, or_iff_right old, ← updates]
    cases instanceUpdate (learnerGetInstanceOrCreate (learnerStart l ack)
        ack.iid) ack (learnerStart l ack).acceptors with
    | none => rfl
    | some inst => exact iff_of_true rfl rfl

theorem Learner.Placed.receive
    (placed : l.Placed) {ack : PaxosAccepted} (decoded : ack.Decoded)
    {after : Learner} (received : learnerReceiveAccepted l ack = some after) :
    after.Placed ∧ after.acceptors = l.acceptors := by
  obtain ⟨startPlaced, sameAcceptors⟩ := placed.start decoded
  obtain ⟨instPlaced, known⟩ := startPlaced.instance ack.iid
  unfold learnerReceiveAccepted at received
  simp only at received
  split at received
  · cases received
    exact ⟨startPlaced, sameAcceptors⟩
  · split at received
    · cases received
    · next inst updates =>
        cases received
        obtain ⟨updatedPlaced, updatedIid⟩ :=
          instanceUpdate_placed instPlaced decoded known updates
        refine ⟨⟨?_, startPlaced.current⟩, sameAcceptors⟩
        exact startPlaced.instances_update updatedPlaced.hasQuorum
          ((instanceHasQuorum_iid _ _).trans updatedIid)

end Receive

/-! ### Delivering -/

def closedRecord (l : Learner) (iid : Nat) : Option PaxosAccepted :=
  (l.instances iid).bind fun inst =>
    (instanceHasQuorum inst l.acceptors).2.finalValue

section Deliver

variable {l : Learner}

theorem Learner.Placed.closedRecord_copyable
    (placed : l.Placed) {iid : Nat} {record : PaxosAccepted}
    (closed : closedRecord l iid = some record) :
    record.Copyable := by
  obtain ⟨inst, present, isFinal⟩ := Option.bind_eq_some_iff.mp closed
  exact (placed.instances iid inst present).1.hasQuorum.final record isFinal

/-- Without a closed instance nothing is delivered. -/
theorem learnerDeliverNext_of_open
    (placed : l.Placed) (opened : closedRecord l l.currentIid = none) :
    ∃ after, learnerDeliverNext l = some (none, after) ∧ after.Placed ∧
      after.acceptors = l.acceptors := by
  unfold learnerDeliverNext
  cases present : l.instances l.currentIid with
  | none => exact ⟨l, rfl, placed, rfl⟩
  | some inst =>
      obtain ⟨instPlaced, sameIid⟩ := placed.instances _ inst present
      have testedPlaced := instPlaced.hasQuorum
      have testedIid := instanceHasQuorum_iid inst l.acceptors
      have noValue : (instanceHasQuorum inst l.acceptors).2.finalValue =
          none := by
        simpa only [closedRecord, present, Option.bind_some] using opened
      have isOpen := instanceHasQuorum_isSome inst l.acceptors
      rw [noValue] at isOpen
      simp only
      cases quorum : instanceHasQuorum inst l.acceptors with
      | mk closed tested =>
          rw [quorum] at isOpen testedPlaced testedIid
          cases isOpen
          refine ⟨_, rfl, ⟨?_, placed.current⟩, rfl⟩
          exact placed.instances_update testedPlaced (testedIid.trans sameIid)

/-- The learner after the delivery of its current instance. -/
def Learner.advanced (l : Learner) : Learner :=
  { l with
    instances := Function.update l.instances l.currentIid none
    currentIid := word32 (l.currentIid + 1) }

/-- A closed instance is delivered, and goes. -/
theorem learnerDeliverNext_of_closed
    (placed : l.Placed) {record : PaxosAccepted}
    (closed : closedRecord l l.currentIid = some record) :
    learnerDeliverNext l = some (some record.copied, l.advanced) := by
  have copyable := placed.closedRecord_copyable closed
  obtain ⟨inst, present, isFinal⟩ := Option.bind_eq_some_iff.mp closed
  have sameIid := (placed.instances l.currentIid inst present).2
  have isClosed := instanceHasQuorum_isSome inst l.acceptors
  have testedIid := instanceHasQuorum_iid inst l.acceptors
  unfold learnerDeliverNext
  simp only [present]
  cases quorum : instanceHasQuorum inst l.acceptors with
  | mk flag tested =>
      rw [quorum] at isFinal isClosed testedIid
      simp only at isFinal isClosed testedIid
      rw [isFinal, Option.isSome_some] at isClosed
      subst isClosed
      simp only [isFinal, paxosAcceptedDeepCopy, copyable.dup,
        Option.map_some, testedIid, sameIid]
      rfl

theorem advanced_instances (l : Learner) (iid : Nat) :
    l.advanced.instances iid =
      if iid = l.currentIid then none else l.instances iid :=
  Function.update_apply l.instances l.currentIid none iid

theorem Learner.Placed.advanced (placed : l.Placed) : l.advanced.Placed := by
  refine ⟨?_, Nat.mod_lt _ (by decide)⟩
  intro iid inst present
  rw [advanced_instances] at present
  split at present
  · cases present
  · exact placed.instances iid inst present

theorem closedRecord_advanced (l : Learner) (iid : Nat) :
    closedRecord l.advanced iid =
      if iid = l.currentIid then none else closedRecord l iid := by
  unfold closedRecord
  rw [advanced_instances]
  split <;> rfl

end Deliver

/-! ### Runs -/

inductive LearnerCall where
  | op (op : LearnerOp)
  | setInstanceId (iid : Nat)

def learnerCall (l : Learner) :
    LearnerCall → Option (Learner × Option PaxosAccepted)
  | .op op => learnerStep l op
  | .setInstanceId iid => some (learnerSetInstanceId l iid, none)

/-- A call whose message, if any, is as it is decoded. -/
def LearnerCall.Decoded : LearnerCall → Prop
  | .op (.receiveAccepted ack) => ack.Decoded
  | _ => True

abbrev LearnerCallTransition : Type :=
  Transition Learner LearnerCall (Option PaxosAccepted)

theorem placed_learnerNew (learnerCatchUp : Bool) (acceptors : Nat) :
    (learnerNew learnerCatchUp acceptors).Placed := by
  refine ⟨?_, (by decide : 1 < 2 ^ 32)⟩
  intro iid inst present
  cases present

theorem Learner.Placed.deliver
    {l after : Learner} (placed : l.Placed) {out : Option PaxosAccepted}
    (delivers : learnerDeliverNext l = some (out, after)) :
    after.Placed ∧ after.acceptors = l.acceptors := by
  cases closed : closedRecord l l.currentIid with
  | some record =>
      rw [learnerDeliverNext_of_closed placed closed] at delivers
      cases delivers
      exact ⟨placed.advanced, rfl⟩
  | none =>
      obtain ⟨idle, idles, idlePlaced, sameAcceptors⟩ :=
        learnerDeliverNext_of_open placed closed
      rw [idles] at delivers
      cases delivers
      exact ⟨idlePlaced, sameAcceptors⟩

theorem learnerCall_placed
    {l after : Learner} (placed : l.Placed) {call : LearnerCall}
    (decoded : call.Decoded) {out : Option PaxosAccepted}
    (stepEq : learnerCall l call = some (after, out)) :
    after.Placed ∧ after.acceptors = l.acceptors := by
  cases call with
  | setInstanceId iid =>
      cases stepEq
      exact ⟨⟨placed.instances, Nat.mod_lt _ (by decide)⟩, rfl⟩
  | op op =>
      cases op with
      | receiveAccepted ack =>
          simp only [learnerCall, learnerStep, Option.map_eq_some_iff,
            Prod.mk.injEq] at stepEq
          obtain ⟨received, receives, rfl, _⟩ := stepEq
          exact placed.receive decoded receives
      | deliverNext =>
          simp only [learnerCall, learnerStep, Option.map_eq_some_iff]
            at stepEq
          obtain ⟨⟨delivered, next⟩, delivers, same⟩ := stepEq
          cases same
          exact placed.deliver delivers

/-- In every run over decoded messages the instances are in their place. -/
theorem learner_trace_placed
    {learnerCatchUp : Bool} {acceptors : Nat}
    {past : List LearnerCallTransition} {l : Learner}
    (trace : Trace learnerCall (learnerNew learnerCatchUp acceptors) past l)
    (decoded : ∀ current ∈ past, current.input.Decoded) :
    l.Placed ∧ l.acceptors = acceptors := by
  have restricted : Trace
      (guarded learnerCall fun _ call => call.Decoded)
      (learnerNew learnerCatchUp acceptors) past l :=
    trace.guarded decoded
  apply restricted.invariant
    (fun l : Learner => l.Placed ∧ l.acceptors = acceptors)
    ⟨placed_learnerNew learnerCatchUp acceptors, rfl⟩
  intro source call target out holds stepEq
  obtain ⟨isDecoded, stepped⟩ := guarded_eq_some_iff.mp stepEq
  obtain ⟨placed, same⟩ := learnerCall_placed holds.1 isDecoded stepped
  exact ⟨placed, same.trans holds.2⟩

end LibPaxos
