import LibPaxos.Network.Model

/-!
# Where the messages of a group come from

An accept was sent by the proposer that owns its ballot, and an instance and a
ballot determine it.  An accepted message, also one that answers a repeat, comes
from an acceptor that stored exactly the accept it acknowledges, and carries the
id of that acceptor.
-/

namespace LibPaxos

open LibPaxos.Library

section Parties

/-- Proposers send prepares and accepts. -/
theorem ProposerOutcome.sent_kind
    {p after : Proposer} {op : ProposerOp} {result : ProposerResult}
    (outcome : ProposerOutcome p op after result)
    {message : PaxosMessage} (sent : result.sent = some message) :
    (∃ out, message = .prepare out) ∨ ∃ out, message = .accept out := by
  cases outcome with
  | prepared _ _ _ _ _ =>
      cases sent
      exact Or.inl ⟨_, rfl⟩
  | promised _ _ _ _ out _ _ _ =>
      rw [Option.map_eq_some_iff] at sent
      obtain ⟨prepare, _, rfl⟩ := sent
      exact Or.inl ⟨prepare, rfl⟩
  | accepted _ _ _ _ out _ _ _ _ _ _ =>
      cases sent
      exact Or.inr ⟨out, rfl⟩
  | preempted _ _ _ _ _ _ _ _ _ =>
      cases sent
      exact Or.inl ⟨_, rfl⟩
  | resentPrepare _ _ _ _ _ =>
      cases sent
      exact Or.inl ⟨_, rfl⟩
  | resentAccept _ _ _ out _ _ _ =>
      cases sent
      exact Or.inr ⟨out, rfl⟩
  | _ => cases sent

variable {a after : MemAcceptor} {op : AcceptorOp}
variable {reply : Option PaxosMessage}

/-- Acceptors send neither prepares nor accepts. -/
theorem Outcome.not_accept
    (outcome : Outcome a op after reply) (out : PaxosAccept) :
    reply ≠ some (.accept out) := by
  intro sent
  cases outcome <;> cases sent

/-- An accepted message acknowledges an accept that the call stored, or a record
that holds a value. -/
theorem Outcome.accepted_sent
    (outcome : Outcome a op after reply)
    {ack : PaxosAccepted} (sent : reply = some (.accepted ack)) :
    (∃ req, op = .receiveAccept req ∧ ack = paxosAcceptToAccepted a.id req ∧
      after.store.records req.iid = some ack) ∨
    ∃ iid, a.store.records iid = some ack ∧ ack.values ≠ none := by
  cases outcome with
  | accepted req isAccept _ _ =>
      cases sent
      exact Or.inl ⟨req, isAccept, rfl, a.records_setRecord_self _⟩
  | repeated iid record _ present valued _ =>
      cases sent
      exact Or.inr ⟨iid, present, valued⟩
  | _ => cases sent

theorem relayed_of_flat (flat : op.flat = true) : op.relayed = none := by
  cases op with
  | relayPromise pr => cases flat
  | relayAccepted ac => cases flat
  | _ => rfl

/-- Without relayed replies, a record that holds a value was there before or
was stored by the call. -/
theorem Outcome.valued_record
    (outcome : Outcome a op after reply) (inv : a.Inv) (flat : op.flat = true)
    {key : Nat} {record : PaxosAccepted}
    (present : after.store.records key = some record)
    (valued : record.values ≠ none) :
    a.store.records key = some record ∨
      ∃ req, op = .receiveAccept req ∧ req.iid = key ∧
        record = paxosAcceptToAccepted a.id req := by
  have change := outcome.record inv key
  rw [present] at change
  generalize stored : some record = now at change
  cases change with
  | kept => exact Or.inl rfl
  | prepared isrc req _ _ _ _ =>
      cases stored
      exact False.elim (valued rfl)
  | accepted req isAccept sameKey _ _ =>
      cases stored
      exact Or.inr ⟨req, isAccept, sameKey, rfl⟩
  | relayed old new isRelay _ _ =>
      exact False.elim (isRelay (relayed_of_flat flat))
  | trimmed _ => cases stored

end Parties

/-- An acceptor executed `acceptor_receive_accept` and stored exactly that
accept. -/
def Stored (past : List NetworkTransition) (aid : Nat) (req : PaxosAccept) :
    Prop :=
  ∃ current ∈ past, ∃ mem,
    current.input = .acceptor aid (mem, .receiveAccept req) ∧
    (current.target.acceptors aid).store.records req.iid =
      some (paxosAcceptToAccepted aid req)

theorem Stored.append
    {past : List NetworkTransition} {aid : Nat} {req : PaxosAccept}
    (stored : Stored past aid req) (later : List NetworkTransition) :
    Stored (past ++ later) aid req := by
  obtain ⟨current, member, rest⟩ := stored
  exact ⟨current, List.mem_append_left _ member, rest⟩

theorem stored_snoc
    {past : List NetworkTransition} {last : NetworkTransition} {aid : Nat}
    {req : PaxosAccept} (stored : Stored (past ++ [last]) aid req) :
    Stored past aid req ∨
      ∃ mem, last.input = .acceptor aid (mem, .receiveAccept req) ∧
        (last.target.acceptors aid).store.records req.iid =
          some (paxosAcceptToAccepted aid req) := by
  obtain ⟨current, member, rest⟩ := stored
  rw [List.mem_append, List.mem_singleton] at member
  rcases member with old | rfl
  · exact Or.inl ⟨current, old, rest⟩
  · exact Or.inr rest

/-- What acceptors have stored, hold and have acknowledged. -/
structure Backed (n : Nat) (past : List NetworkTransition) (net : Network) :
    Prop where
  asked : ∀ aid req, Stored past aid req →
    aid < n ∧ .accept req ∈ net.sent
  held : ∀ aid key record,
    (net.acceptors aid).store.records key = some record →
    record.values ≠ none →
    ∃ req, record = paxosAcceptToAccepted aid req ∧ Stored past aid req
  acknowledged : ∀ ack, .accepted ack ∈ net.sent →
    ∃ aid req, ack = paxosAcceptToAccepted aid req ∧ Stored past aid req

section Acceptors

variable {n : Nat} {past : List NetworkTransition} {final : Network}

/-- A step that is not one of an acceptor. -/
theorem Backed.quiet
    {net after : Network} (backed : Backed n past net)
    {last : NetworkTransition}
    (other : ∀ aid call, last.input ≠ .acceptor aid call)
    (same : after.acceptors = net.acceptors)
    (kept : ∀ message ∈ net.sent, message ∈ after.sent)
    (silent : ∀ ack, .accepted ack ∈ after.sent → .accepted ack ∈ net.sent) :
    Backed n (past ++ [last]) after where
  asked := by
    intro aid req stored
    rcases stored_snoc stored with old | ⟨mem, isAccept, _⟩
    · obtain ⟨bound, sent⟩ := backed.asked aid req old
      exact ⟨bound, kept _ sent⟩
    · exact False.elim (other _ _ isAccept)
  held := by
    intro aid key record present valued
    rw [same] at present
    obtain ⟨req, equal, stored⟩ := backed.held aid key record present valued
    exact ⟨req, equal, stored.append _⟩
  acknowledged := by
    intro ack sent
    obtain ⟨aid, req, equal, stored⟩ := backed.acknowledged ack (silent ack sent)
    exact ⟨aid, req, equal, stored.append _⟩

/-- A step of an acceptor. -/
theorem Backed.answer
    {net : Network} (backed : Backed n past net)
    {id : Nat} {call : MemCall} {a : MemAcceptor} {result : AcceptorResult}
    (inv : (net.acceptors id).Inv) (sameId : (net.acceptors id).id = id)
    (bound : id < n) (flat : call.2.flat = true)
    (offered : ∀ message, call.2.received = some message →
      message ∈ net.sent)
    (outcome : Outcome (net.acceptors id) call.2 a result.sent) :
    Backed n
      (past ++ [⟨net, .acceptor id call, .acceptor result,
        net.setAcceptor id a result.sent⟩])
      (net.setAcceptor id a result.sent) := by
  have stores : ∀ req, call.2 = .receiveAccept req →
      a.store.records req.iid = some (paxosAcceptToAccepted id req) →
      Stored (past ++ [⟨net, .acceptor id call, .acceptor result,
        net.setAcceptor id a result.sent⟩]) id req := by
    intro req isAccept present
    refine ⟨_, List.mem_append_right _ (List.mem_singleton_self _), call.1,
      ?_, ?_⟩
    · rw [← isAccept]
    · simpa only [Network.setAcceptor, Function.update_self] using present
  refine ⟨?_, ?_, ?_⟩
  · intro aid req stored
    rcases stored_snoc stored with old | ⟨mem, isAccept, _⟩
    · obtain ⟨small, sent⟩ := backed.asked aid req old
      exact ⟨small, List.mem_append_left _ sent⟩
    · cases isAccept
      exact ⟨bound, List.mem_append_left _ (offered _ rfl)⟩
  · intro aid key record present valued
    by_cases own : aid = id
    · subst own
      simp only [Network.setAcceptor, Function.update_self] at present
      rcases outcome.valued_record inv flat present valued with
        old | ⟨req, isAccept, sameKey, equal⟩
      · obtain ⟨req, equal, stored⟩ := backed.held aid key record old valued
        exact ⟨req, equal, stored.append _⟩
      · rw [sameId] at equal
        rw [equal, ← sameKey] at present
        exact ⟨req, equal, stores req isAccept present⟩
    · simp only [Network.setAcceptor, Function.update_of_ne own] at present
      obtain ⟨req, equal, stored⟩ := backed.held aid key record present valued
      exact ⟨req, equal, stored.append _⟩
  · intro ack sent
    simp only [Network.setAcceptor, List.mem_append, Option.mem_toList]
      at sent
    rcases sent with old | replied
    · obtain ⟨aid, req, equal, stored⟩ := backed.acknowledged ack old
      exact ⟨aid, req, equal, stored.append _⟩
    · rcases outcome.accepted_sent replied with
        ⟨req, isAccept, equal, present⟩ | ⟨iid, present, valued⟩
      · rw [sameId] at equal
        rw [equal] at present
        exact ⟨id, req, equal, stores req isAccept present⟩
      · obtain ⟨req, equal, stored⟩ := backed.held id iid ack present valued
        exact ⟨id, req, equal, stored.append _⟩

/-- In every run, what acceptors acknowledge is what they stored. -/
theorem network_backed
    (trace : Trace (networkStep n) (networkNew n) past final) :
    Backed n past final := by
  induction trace with
  | nil =>
      refine ⟨?_, ?_, ?_⟩
      · rintro aid req ⟨current, member, _⟩
        cases member
      · intro aid key record present _
        cases present
      · intro ack sent
        cases sent
  | @snoc past source target op result trace stepEq inductionHypothesis =>
      have outcome := networkStep_outcome stepEq
      have kept : ∀ message ∈ source.sent, message ∈ target.sent :=
        fun _ => outcome.sent_mono
      have arrives : ∀ message ∈ target.sent,
          message ∈ source.sent ∨ result.sent = some message :=
        fun _ => outcome.mem_sent
      cases outcome with
      | proposer id op p result _ _ _ ran =>
          refine inductionHypothesis.quiet nofun rfl kept ?_
          intro ack sent
          rcases arrives _ sent with old | new
          · exact old
          · have keyed := (proposer_trace_keyed
              (proposer_component trace id).unguarded).1
            rcases (proposerStep_outcome keyed ran).sent_kind new with
              ⟨out, impossible⟩ | ⟨out, impossible⟩
            · cases impossible
            · cases impossible
      | learner id op l result _ _ _ =>
          exact inductionHypothesis.quiet nofun rfl kept fun _ sent => sent
      | acceptor id call a result bound flat offered ran =>
          obtain ⟨inv, sameId⟩ :=
            memAcceptor_trace_inv (acceptor_component trace id)
          exact inductionHypothesis.answer inv sameId bound flat offered
            (memAcceptorStep_outcome inv ran)

end Acceptors

/-- The accepts sent so far belong to the proposers that own their ballots. -/
structure OwnedAccepts (net : Network) : Prop where
  settled : ∀ out, .accept out ∈ net.sent →
    ∃ id < maxNOfProposers, OwnedBallot id out.ballot ∧
      (net.proposers id).Settled out
  unique : ∀ left right, .accept left ∈ net.sent → .accept right ∈ net.sent →
    left.iid = right.iid → left.ballot = right.ballot → left = right
  outstanding : ∀ id key inst,
    (net.proposers id).acceptInstances.get key = some inst →
    ∃ out, instanceToAccept id inst = some out ∧ .accept out ∈ net.sent

section Proposers

variable {n : Nat} {past : List NetworkTransition} {final : Network}

/-- The proposers of a run. -/
theorem proposer_facts
    (trace : Trace (networkStep n) (networkNew n) past final)
    {id : Nat} (small : id < maxNOfProposers) :
    (final.proposers id).Keyed ∧ (final.proposers id).Numbered ∧
      (final.proposers id).id = id ∧ (final.proposers id).acceptors = n := by
  have component := proposer_component trace id
  obtain ⟨keyed, numbered⟩ := proposer_trace_numbered small component
  exact ⟨keyed, numbered, (proposer_trace_keyed component.unguarded).2⟩

/-- A pending instance stands for an accept that was sent. -/
theorem ProposerOutcome.outstanding
    {p after : Proposer} {op : ProposerOp} {result : ProposerResult}
    (outcome : ProposerOutcome p op after result) {known : PaxosAccept → Prop}
    (holds : p.acceptInstances.All fun _ inst =>
      ∃ out, instanceToAccept p.id inst = some out ∧ known out)
    (sent : ∀ out, result.sent = some (.accept out) → known out) :
    after.acceptInstances.All fun _ inst =>
      ∃ out, instanceToAccept p.id inst = some out ∧ known out := by
  have both : p.Instances (fun _ _ => True) (fun _ inst =>
      ∃ out, instanceToAccept p.id inst = some out ∧ known out) :=
    ⟨fun _ _ _ => trivial, holds⟩
  refine (outcome.instances both ⟨?_, ?_, ?_, ?_, ?_, ?_, ?_⟩).accept
  · intro _ _ _
    trivial
  · intro _ _ _ _ _ _ _ _ _ _
    trivial
  · intro inst valued values out chosen _ _ _ toAccept
    exact ⟨out, toAccept, sent out chosen⟩
  · intro _ _ inst _ _ _ held _ _ _ _ _
    exact held
  · intro _ _ _ _ _ _ _
    trivial
  · intro _ _ _ _
    trivial
  · intro _ inst _ held
    exact held

/-- A step of a proposer. -/
theorem OwnedAccepts.propose
    {net : Network} (owned : OwnedAccepts net)
    {id : Nat} {op : ProposerOp} {p : Proposer} {result : ProposerResult}
    (small : id < maxNOfProposers) (numbered : (net.proposers id).Numbered)
    (sameId : (net.proposers id).id = id)
    (fits : (net.proposers id).fits op = true)
    (outcome : ProposerOutcome (net.proposers id) op p result) :
    OwnedAccepts (net.setProposer id p result.sent) := by
  have arrives : ∀ message,
      message ∈ (net.setProposer id p result.sent).sent →
      message ∈ net.sent ∨ result.sent = some message := by
    intro message member
    simpa only [Network.setProposer, List.mem_append, Option.mem_toList]
      using member
  have fresh : ∀ out, result.sent = some (.accept out) →
      OwnedBallot id out.ballot := by
    intro out sent
    rw [← sameId]
    exact outcome.accept_owned numbered sent
  have repeats : ∀ left right, .accept left ∈ net.sent →
      result.sent = some (.accept right) → left.iid = right.iid →
      left.ballot = right.ballot → left = right := by
    intro left right leftSent rightSent sameIid sameBallot
    obtain ⟨owner, _, ownedBallot, settled⟩ := owned.settled left leftSent
    have sameOwner : owner = id := by
      rw [← ownedBallot.residue, ← (fresh right rightSent).residue, sameBallot]
    subst sameOwner
    exact settled.eq_of_sent outcome rightSent sameIid sameBallot
  refine ⟨?_, ?_, ?_⟩
  · intro out member
    rcases arrives _ member with old | new
    · obtain ⟨owner, ownerSmall, ownedBallot, settled⟩ :=
        owned.settled out old
      refine ⟨owner, ownerSmall, ownedBallot, ?_⟩
      by_cases own : owner = id
      · subst own
        simp only [Network.setProposer, Function.update_self]
        exact outcome.settled numbered fits settled
      · simp only [Network.setProposer, Function.update_of_ne own]
        exact settled
    · refine ⟨id, small, fresh out new, ?_⟩
      simp only [Network.setProposer, Function.update_self]
      exact outcome.settled_of_sent numbered new
  · intro left right leftMember rightMember sameIid sameBallot
    rcases arrives _ leftMember with leftOld | leftNew
    · rcases arrives _ rightMember with rightOld | rightNew
      · exact owned.unique left right leftOld rightOld sameIid sameBallot
      · exact repeats left right leftOld rightNew sameIid sameBallot
    · rcases arrives _ rightMember with rightOld | rightNew
      · exact (repeats right left rightOld leftNew sameIid.symm
          sameBallot.symm).symm
      · rw [leftNew] at rightNew
        cases rightNew
        rfl
  · intro other key inst present
    by_cases own : other = id
    · subst own
      simp only [Network.setProposer, Function.update_self] at present
      have before : (net.proposers other).acceptInstances.All fun _ inst =>
          ∃ out, instanceToAccept (net.proposers other).id inst = some out ∧
            .accept out ∈ (net.setProposer other p result.sent).sent := by
        intro key inst present
        obtain ⟨out, toAccept, sent⟩ := owned.outstanding other key inst present
        rw [sameId]
        exact ⟨out, toAccept, List.mem_append_left _ sent⟩
      have stands := outcome.outstanding before (by
        intro out sent
        refine List.mem_append_right _ ?_
        rw [sent]
        exact List.mem_singleton_self _) key inst present
      rwa [sameId] at stands
    · simp only [Network.setProposer, Function.update_of_ne own] at present
      obtain ⟨out, toAccept, sent⟩ := owned.outstanding other key inst present
      exact ⟨out, toAccept, List.mem_append_left _ sent⟩

/-- A step that sends no accept and is not one of a proposer. -/
theorem OwnedAccepts.quiet
    {net after : Network} (owned : OwnedAccepts net)
    (same : after.proposers = net.proposers)
    (kept : ∀ message ∈ net.sent, message ∈ after.sent)
    (silent : ∀ out, .accept out ∈ after.sent → .accept out ∈ net.sent) :
    OwnedAccepts after where
  settled := by
    intro out member
    rw [same]
    exact owned.settled out (silent out member)
  unique := by
    intro left right leftMember rightMember
    exact owned.unique left right (silent left leftMember)
      (silent right rightMember)
  outstanding := by
    intro id key inst present
    rw [same] at present
    obtain ⟨out, toAccept, sent⟩ := owned.outstanding id key inst present
    exact ⟨out, toAccept, kept _ sent⟩

/-- In every run an instance and a ballot determine the accept, across all
proposers. -/
theorem network_owned
    (trace : Trace (networkStep n) (networkNew n) past final) :
    OwnedAccepts final := by
  induction trace with
  | nil =>
      refine ⟨?_, ?_, ?_⟩
      · intro out sent
        cases sent
      · intro left right sent
        cases sent
      · intro id key inst present
        cases present
  | @snoc past source target op result trace stepEq inductionHypothesis =>
      have outcome := networkStep_outcome stepEq
      have kept : ∀ message ∈ source.sent, message ∈ target.sent :=
        fun _ => outcome.sent_mono
      have arrives : ∀ message ∈ target.sent,
          message ∈ source.sent ∨ result.sent = some message :=
        fun _ => outcome.mem_sent
      cases outcome with
      | proposer id op p result small fits _ ran =>
          obtain ⟨keyed, numbered, sameId, _⟩ := proposer_facts trace small
          exact inductionHypothesis.propose small numbered sameId fits
            (proposerStep_outcome keyed ran)
      | learner id op l result _ _ _ =>
          exact inductionHypothesis.quiet rfl kept fun _ sent => sent
      | acceptor id call a result _ _ _ ran =>
          refine inductionHypothesis.quiet rfl kept ?_
          intro out sent
          rcases arrives _ sent with old | new
          · exact old
          · have inv :=
              (memAcceptor_trace_inv (acceptor_component trace id)).1
            exact False.elim
              ((memAcceptorStep_outcome inv ran).not_accept out new)

end Proposers

end LibPaxos
