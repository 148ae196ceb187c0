import LibPaxos.Proposer.Tables

/-!
# Promises in any order, repeated and regrouped

While no promise has a higher ballot than the instance, what the proposer keeps
of the promises of an instance depends only on the set of their entries: which
acceptors are counted, and the value of the highest value ballot.  The order of
the entries, how often each one comes and how delegates bundle them into
messages make no difference.
-/

namespace LibPaxos

open LibPaxos.Library

/-- What an aggregated promise says of one acceptor. -/
structure PromiseEntry where
  aid : Nat
  ballot : Nat
  valueBallot : Nat
  value : PaxosValue
  deriving DecidableEq

/-- Entry `ii` of a promise, where all four arrays have one. -/
def PaxosPromise.entryAt (ack : PaxosPromise) (ii : Nat) :
    Option PromiseEntry :=
  match ack.aids[ii]?, ack.ballots[ii]?, ack.valueBallots[ii]?,
    ack.values[ii]? with
  | some aid, some ballot, some valueBallot, some value =>
      some ⟨aid, ballot, valueBallot, value⟩
  | _, _, _, _ => none

def PaxosPromise.entries (ack : PaxosPromise) : List PromiseEntry :=
  (List.range ack.nAids).filterMap ack.entryAt

/-- An entry that offers a value under a ballot. -/
def PromiseEntry.Offers (ballot : Nat) (entry : PromiseEntry) : Prop :=
  entry.ballot = ballot ∧ 0 < entry.value.len

/-- What the proposer keeps of some entries, in terms of which entries they
are. -/
structure Tallied (inst : ProposerInstance) (entries : List PromiseEntry)
    (result : ProposerInstance) : Prop where
  frame : result =
    { inst with
      quorum := result.quorum
      valueBallot := result.valueBallot
      promisedValue := result.promisedValue }
  acceptors : result.quorum.acceptors = inst.quorum.acceptors
  marked : ∀ aid, aid ∈ result.quorum.marked ↔ aid ∈ inst.quorum.marked ∨
    ∃ entry ∈ entries, entry.ballot = inst.ballot ∧ entry.aid = aid
  above : inst.valueBallot ≤ result.valueBallot
  bound : ∀ entry ∈ entries, entry.Offers inst.ballot →
    entry.valueBallot ≤ result.valueBallot
  taken :
    (result.valueBallot = inst.valueBallot ∧
      result.promisedValue = inst.promisedValue) ∨
    ∃ entry ∈ entries, entry.Offers inst.ballot ∧
      inst.valueBallot < entry.valueBallot ∧
      result.valueBallot = entry.valueBallot ∧
      result.promisedValue = some entry.value

namespace Tallied

variable {inst middle result : ProposerInstance}
variable {entries more : List PromiseEntry}

theorem nil (inst : ProposerInstance) : Tallied inst [] inst where
  frame := rfl
  acceptors := rfl
  marked := by simp
  above := Nat.le_refl _
  bound := by simp
  taken := Or.inl ⟨rfl, rfl⟩

theorem ballot_eq (tallied : Tallied inst entries result) :
    result.ballot = inst.ballot := by
  rw [tallied.frame]

/-- One batch of entries after another. -/
theorem append
    (first : Tallied inst entries middle)
    (second : Tallied middle more result) :
    Tallied inst (entries ++ more) result where
  frame := by
    rw [second.frame, first.frame]
  acceptors := second.acceptors.trans first.acceptors
  marked := by
    intro aid
    rw [second.marked, first.marked, first.ballot_eq]
    simp only [List.mem_append, or_and_right, exists_or, or_assoc]
  above := first.above.trans second.above
  bound := by
    intro entry member offers
    rcases List.mem_append.mp member with old | new
    · exact (first.bound entry old offers).trans second.above
    · apply second.bound entry new
      rwa [first.ballot_eq]
  taken := by
    rcases second.taken with ⟨sameBallot, sameValue⟩ | later
    · rcases first.taken with ⟨ballotEq, valueEq⟩ | earlier
      · exact Or.inl ⟨sameBallot.trans ballotEq, sameValue.trans valueEq⟩
      · obtain ⟨entry, member, offers, higher, ballotEq, valueEq⟩ := earlier
        exact Or.inr ⟨entry, List.mem_append_left _ member, offers, higher,
          sameBallot.trans ballotEq, sameValue.trans valueEq⟩
    · obtain ⟨entry, member, offers, higher, ballotEq, valueEq⟩ := later
      rw [first.ballot_eq] at offers
      exact Or.inr ⟨entry, List.mem_append_right _ member, offers,
        Nat.lt_of_le_of_lt first.above higher, ballotEq, valueEq⟩

theorem valueBallot_le
    {other : ProposerInstance} (tallied : Tallied inst entries result)
    (otherTallied : Tallied inst more other)
    (inside : ∀ entry ∈ entries, entry ∈ more) :
    result.valueBallot ≤ other.valueBallot := by
  rcases tallied.taken with ⟨sameBallot, _⟩ | ⟨entry, member, offers, _,
    sameBallot, _⟩
  · rw [sameBallot]
    exact otherTallied.above
  · rw [sameBallot]
    exact otherTallied.bound entry (inside entry member) offers

/-- The same entries leave the same instance, when equal value ballots imply
equal values. -/
theorem unique
    {other : ProposerInstance} (tallied : Tallied inst entries result)
    (otherTallied : Tallied inst more other)
    (same : ∀ entry, entry ∈ entries ↔ entry ∈ more)
    (agree : ∀ first ∈ entries, ∀ second ∈ entries,
      first.valueBallot = second.valueBallot → first.value = second.value) :
    result = other := by
  have sameQuorum : result.quorum = other.quorum := by
    apply Quorum.ext_marked
    · exact tallied.acceptors.trans otherTallied.acceptors.symm
    · ext aid
      rw [tallied.marked, otherTallied.marked]
      simp only [same]
  have sameBallot : result.valueBallot = other.valueBallot :=
    Nat.le_antisymm
      (tallied.valueBallot_le otherTallied fun entry => (same entry).mp)
      (otherTallied.valueBallot_le tallied fun entry => (same entry).mpr)
  have sameValue : result.promisedValue = other.promisedValue := by
    rcases tallied.taken with ⟨ballotEq, valueEq⟩ | ⟨entry, member, _, higher,
      ballotEq, valueEq⟩
    · rcases otherTallied.taken with ⟨_, otherEq⟩ | ⟨_, _, _, higher, taken, _⟩
      · rw [valueEq, otherEq]
      · omega
    · rcases otherTallied.taken with ⟨unchanged, _⟩ | ⟨entry', member', _, _,
        ballotEq', valueEq'⟩
      · omega
      · have sameEntry := agree entry member entry' ((same entry').mpr member')
          (by omega)
        rw [valueEq, valueEq', sameEntry]
  rw [tallied.frame, otherTallied.frame, sameQuorum, sameBallot, sameValue]

end Tallied

/-- An entry up to the ballot of the instance, recorded by itself. -/
theorem EntryOutcome.tallied
    {id : Nat} {clock : Nat → Int} {ack : PaxosPromise} {ii : Nat}
    {inst result : ProposerInstance} {sent : Option PaxosPrepare}
    (outcome : EntryOutcome id clock ack ii inst result sent)
    {entry : PromiseEntry} (entryAt : ack.entryAt ii = some entry)
    (atMost : entry.ballot ≤ inst.ballot) :
    Tallied inst [entry] result ∧ sent = none := by
  unfold PaxosPromise.entryAt at entryAt
  split at entryAt
  · next aid ballot valueBallot value aidAt ballotAt valueBallotAt valueAt =>
      cases entryAt
      cases outcome with
      | stale other otherAt smaller =>
          rw [ballotAt, Option.some.injEq] at otherAt
          subst otherAt
          refine ⟨⟨rfl, rfl, ?_, Nat.le_refl _, ?_, Or.inl ⟨rfl, rfl⟩⟩, rfl⟩
          · intro other
            simp [Nat.ne_of_lt smaller]
          · intro other member offers
            rw [List.mem_singleton.mp member] at offers
            exact False.elim (Nat.ne_of_lt smaller offers.1)
      | preempted other otherAt higher =>
          rw [ballotAt, Option.some.injEq] at otherAt
          simp only at atMost
          omega
      | counted aid' value' fresh quorum ballotAt' aidAt' valueAt' added old =>
          rw [ballotAt, Option.some.injEq] at ballotAt'
          rw [aidAt, Option.some.injEq] at aidAt'
          rw [valueAt, Option.some.injEq] at valueAt'
          subst ballotAt' aidAt' valueAt'
          obtain ⟨size, marks, _, _, _⟩ := Quorum.quorumAdd_spec added
          refine ⟨⟨rfl, size, ?_, Nat.le_refl _, ?_, Or.inl ⟨rfl, rfl⟩⟩, rfl⟩
          · intro other
            simp [marks, Finset.mem_insert, or_comm, eq_comm]
          · intro other member offers
            rw [List.mem_singleton.mp member] at offers ⊢
            obtain ⟨found, foundAt, low⟩ := old offers.2
            rw [valueBallotAt, Option.some.injEq] at foundAt
            subst foundAt
            exact low
      | recorded aid' value' fresh quorum valueBallot' ballotAt' aidAt'
          valueAt' added nonempty valueBallotAt' higher =>
          rw [ballotAt, Option.some.injEq] at ballotAt'
          rw [aidAt, Option.some.injEq] at aidAt'
          rw [valueAt, Option.some.injEq] at valueAt'
          rw [valueBallotAt, Option.some.injEq] at valueBallotAt'
          subst ballotAt' aidAt' valueAt' valueBallotAt'
          obtain ⟨size, marks, _, _, _⟩ := Quorum.quorumAdd_spec added
          refine ⟨⟨rfl, size, ?_, higher.le, ?_, Or.inr ⟨_,
            List.mem_singleton_self _, ⟨rfl, nonempty⟩, higher, rfl, rfl⟩⟩,
            rfl⟩
          · intro other
            simp [marks, Finset.mem_insert, or_comm, eq_comm]
          · intro other member _
            rw [List.mem_singleton.mp member]
  · cases entryAt

namespace PaxosPromise.WellFormed

variable {acceptors : Nat} {ack : PaxosPromise}

theorem exists_entryAt
    (ok : ack.WellFormed acceptors) {ii : Nat} (bound : ii < ack.nAids) :
    ∃ entry, ack.entryAt ii = some entry := by
  refine ⟨⟨ack.aids.get ⟨ii, ?_⟩, ack.ballots.get ⟨ii, ?_⟩,
    ack.valueBallots.get ⟨ii, ?_⟩, ack.values.get ⟨ii, ?_⟩⟩, ?_⟩
  · rwa [ok.aids]
  · rwa [ok.ballots]
  · rwa [ok.valueBallots]
  · rwa [ok.values]
  · simp [entryAt, ok.aids, ok.ballots, ok.valueBallots, ok.values, bound]

/-- The loop over entries up to the ballot of the instance asks for no new
prepare, and keeps of them what `Tallied` says. -/
theorem tallied_loop
    (ok : ack.WellFormed acceptors) (id : Nat) (clock : Nat → Int)
    (indices : List Nat) (bound : ∀ ii ∈ indices, ii < ack.nAids) :
    ∀ {inst : ProposerInstance} (out : Option PaxosPrepare),
      inst.quorum.acceptors = acceptors →
      (∀ entry ∈ indices.filterMap ack.entryAt,
        entry.ballot ≤ inst.ballot) →
      ∃ result, promiseLoop id clock ack indices inst out =
          some (result, out) ∧
        Tallied inst (indices.filterMap ack.entryAt) result := by
  induction indices with
  | nil =>
      intro inst out _ _
      exact ⟨inst, rfl, Tallied.nil inst⟩
  | cons ii rest inductionHypothesis =>
      intro inst out sized atMost
      have inside := bound ii (List.mem_cons_self ..)
      obtain ⟨entry, entryAt⟩ := ok.exists_entryAt inside
      obtain ⟨middle, sent, ran⟩ :=
        promiseEntry_progress ok id clock inside sized
      rw [List.filterMap_cons_some entryAt] at atMost ⊢
      obtain ⟨first, rfl⟩ := (promiseEntry_outcome ran).tallied entryAt
        (atMost entry (List.mem_cons_self ..))
      obtain ⟨result, looped, others⟩ :=
        inductionHypothesis
          (fun ii member => bound ii (List.mem_cons_of_mem _ member)) out
          (first.acceptors.trans sized)
          (by
            intro other member
            rw [first.ballot_eq]
            exact atMost other (List.mem_cons_of_mem _ member))
      refine ⟨result, ?_, first.append others⟩
      rw [promiseLoop, ran]
      exact looped

end PaxosPromise.WellFormed

/-- One call of `proposer_receive_promise`, with the clock it reads. -/
structure PromiseCall where
  clock : Nat → Int
  ack : PaxosPromise

/-- The call as an input of the proposer. -/
def PromiseCall.op (call : PromiseCall) : ProposerOp :=
  .receivePromise call.clock call.ack

def entriesOf (calls : List PromiseCall) : List PromiseEntry :=
  calls.flatMap fun call => call.ack.entries

def Proposer.withInstance (p : Proposer) (iid : Nat)
    (inst : ProposerInstance) : Proposer :=
  { p with prepareInstances := p.prepareInstances.set iid inst }

/-- A run over promises of one instance, up to its ballot: every call returns 0,
and only what `Tallied` says of the instance changes. -/
theorem tallied_run
    {iid : Nat} (calls : List PromiseCall) :
    ∀ {p : Proposer} {inst : ProposerInstance},
      p.prepareInstances.get iid = some inst →
      (∀ call ∈ calls, call.ack.iid = iid ∧
        call.ack.WellFormed inst.quorum.acceptors) →
      (∀ entry ∈ entriesOf calls, entry.ballot ≤ inst.ballot) →
      ∃ past result,
        runFrom proposerStep p (calls.map PromiseCall.op) =
          some (past, p.withInstance iid result) ∧
        (∀ current ∈ past, current.output = ⟨none, []⟩) ∧
        Tallied inst (entriesOf calls) result := by
  induction calls with
  | nil =>
      intro p inst pending _ _
      refine ⟨[], inst, ?_, by simp, Tallied.nil inst⟩
      rw [Proposer.withInstance, Table.set_eq_self pending]
      rfl
  | cons call rest inductionHypothesis =>
      intro p inst pending ok atMost
      have callOk := ok call (List.mem_cons_self ..)
      have split : entriesOf (call :: rest) =
          call.ack.entries ++ entriesOf rest :=
        List.flatMap_cons
      rw [split] at atMost ⊢
      obtain ⟨middle, looped, first⟩ :=
        callOk.2.tallied_loop p.id call.clock (List.range call.ack.nAids)
          (fun ii => List.mem_range.mp) none rfl
          (fun entry member => atMost entry (List.mem_append_left _ member))
      have stepEq : proposerStep p call.op =
          some (p.withInstance iid middle, ⟨none, []⟩) := by
        simp only [PromiseCall.op, proposerStep, proposerReceivePromise,
          callOk.1, pending, looped]
        rfl
      obtain ⟨past, result, ran, quiet, others⟩ :=
        inductionHypothesis (p := p.withInstance iid middle)
          (Table.get_set_self middle pending)
          (by
            intro other member
            rw [first.acceptors]
            exact ok other (List.mem_cons_of_mem _ member))
          (by
            intro entry member
            rw [first.ballot_eq]
            exact atMost entry (List.mem_append_right _ member))
      refine ⟨⟨p, call.op, ⟨none, []⟩, p.withInstance iid middle⟩ :: past,
        result, ?_, ?_, first.append others⟩
      · rw [List.map_cons, runFrom, stepEq]
        simp only [ran, Option.map_some]
        rw [Proposer.withInstance, Proposer.withInstance,
          Proposer.withInstance, Table.set_set]
      · intro current member
        rcases List.mem_cons.mp member with rfl | later
        · rfl
        · exact quiet current later

/-- Two lists of promises of a pending instance with the same set of entries,
none above its ballot and with one value for each value ballot: both leave the
same proposer, in which only the counted acceptors, the value ballot and the
promised value of the instance can differ from before, and no call asks for a
prepare. -/
theorem promises_order_insensitive
    {p : Proposer} {iid : Nat} {inst : ProposerInstance}
    (pending : p.prepareInstances.get iid = some inst)
    {left right : List PromiseCall}
    (leftOk : ∀ call ∈ left, call.ack.iid = iid ∧
      call.ack.WellFormed inst.quorum.acceptors)
    (rightOk : ∀ call ∈ right, call.ack.iid = iid ∧
      call.ack.WellFormed inst.quorum.acceptors)
    (same : ∀ entry, entry ∈ entriesOf left ↔ entry ∈ entriesOf right)
    (atMost : ∀ entry ∈ entriesOf left, entry.ballot ≤ inst.ballot)
    (agree : ∀ first ∈ entriesOf left, ∀ second ∈ entriesOf left,
      first.valueBallot = second.valueBallot → first.value = second.value) :
    ∃ (leftPast rightPast : List ProposerTransition) (quorum : Quorum)
        (valueBallot : Nat) (promisedValue : Option PaxosValue),
      runFrom proposerStep p (left.map PromiseCall.op) =
        some (leftPast, p.withInstance iid
          { inst with
            quorum := quorum
            valueBallot := valueBallot
            promisedValue := promisedValue }) ∧
      runFrom proposerStep p (right.map PromiseCall.op) =
        some (rightPast, p.withInstance iid
          { inst with
            quorum := quorum
            valueBallot := valueBallot
            promisedValue := promisedValue }) ∧
      (∀ current ∈ leftPast ++ rightPast, current.output = ⟨none, []⟩) ∧
      quorum.acceptors = inst.quorum.acceptors ∧
      (∀ aid, aid ∈ quorum.marked ↔ aid ∈ inst.quorum.marked ∨
        ∃ entry ∈ entriesOf left,
          entry.ballot = inst.ballot ∧ entry.aid = aid) := by
  obtain ⟨leftPast, result, leftRan, leftQuiet, tallied⟩ :=
    tallied_run left pending leftOk atMost
  obtain ⟨rightPast, other, rightRan, rightQuiet, otherTallied⟩ :=
    tallied_run right pending rightOk
      (fun entry member => atMost entry ((same entry).mpr member))
  have sameResult := tallied.unique otherTallied same agree
  rw [← sameResult] at rightRan
  rw [tallied.frame] at leftRan rightRan
  refine ⟨leftPast, rightPast, result.quorum, result.valueBallot,
    result.promisedValue, leftRan, rightRan, ?_, tallied.acceptors,
    tallied.marked⟩
  intro current member
  rcases List.mem_append.mp member with first | second
  · exact leftQuiet current first
  · exact rightQuiet current second

/-- A proposer that waits for promises of its first instance. -/
def waitingProposer : Proposer :=
  { proposerNew 3 3 with
    nextPrepareIid := 1
    prepareInstances := ⟨[(1, (proposerNew 3 3).freshInstance 0)], by simp⟩ }

/-- A promise of one acceptor for the first instance. -/
def singlePromise (aid ballot valueBallot : Nat) (value : PaxosValue) :
    PromiseCall :=
  ⟨fun _ => 0,
    ⟨aid, 1, ballot, valueBallot, 1, [aid], value, [value], [ballot],
      [valueBallot]⟩⟩

/-- The promises of three acceptors in one message. -/
def bundledPromise : PromiseCall :=
  ⟨fun _ => 0,
    ⟨0, 1, 1003, 5, 3, [0, 1, 2], ⟨[1]⟩, [⟨[1]⟩, ⟨[2]⟩, ⟨[]⟩],
      [1003, 1003, 7], [5, 6, 0]⟩⟩

/-- The same promises one by one, in another order and one of them twice. -/
def regroupedPromises : List PromiseCall :=
  [singlePromise 2 7 0 ⟨[]⟩, singlePromise 1 1003 6 ⟨[2]⟩,
    singlePromise 0 1003 5 ⟨[1]⟩, singlePromise 1 1003 6 ⟨[2]⟩]

theorem promises_order_insensitive_bundled :
    ∃ (leftPast rightPast : List ProposerTransition) (final : Proposer),
      runFrom proposerStep waitingProposer
        ([bundledPromise].map PromiseCall.op) = some (leftPast, final) ∧
      runFrom proposerStep waitingProposer
        (regroupedPromises.map PromiseCall.op) = some (rightPast, final) := by
  have pending : waitingProposer.prepareInstances.get 1 =
      some ((proposerNew 3 3).freshInstance 0) :=
    rfl
  have leftOk : ∀ call ∈ [bundledPromise], call.ack.iid = 1 ∧
      call.ack.WellFormed 3 := by
    intro call member
    rw [List.mem_singleton.mp member]
    exact ⟨rfl, rfl, rfl, rfl, rfl, by decide⟩
  have rightOk : ∀ call ∈ regroupedPromises, call.ack.iid = 1 ∧
      call.ack.WellFormed 3 := by
    intro call member
    simp only [regroupedPromises, List.mem_cons, List.not_mem_nil,
      or_false] at member
    rcases member with rfl | rfl | rfl | rfl
    all_goals exact ⟨rfl, rfl, rfl, rfl, rfl, by decide⟩
  have forward : ∀ entry ∈ entriesOf [bundledPromise],
      entry ∈ entriesOf regroupedPromises := by
    decide
  have backward : ∀ entry ∈ entriesOf regroupedPromises,
      entry ∈ entriesOf [bundledPromise] := by
    decide
  obtain ⟨leftPast, rightPast, quorum, valueBallot, promisedValue, leftRan,
    rightRan, _⟩ :=
    promises_order_insensitive pending leftOk rightOk
      (fun entry => ⟨forward entry, backward entry⟩) (by decide) (by decide)
  exact ⟨leftPast, rightPast, _, leftRan, rightRan⟩

end LibPaxos
