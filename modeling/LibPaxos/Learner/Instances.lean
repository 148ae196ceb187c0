import LibPaxos.Learner.Model
import LibPaxos.Storage
import LibPaxos.Library.Majority

/-!
# Instances of a learner

An instance keeps, for every acceptor, the accepted message with the highest
ballot, and closes when a majority of them has one ballot.  The source tests
only the ballot of the message that came last; this module shows that no
majority escapes that test and that none is made up, for any order of the
messages of an instance.
-/

namespace LibPaxos

open LibPaxos.Library

/-- A message that a learner for `n` acceptors can handle. -/
structure AcceptedOk (n : Nat) (ack : PaxosAccepted) : Prop
    extends ack.ArraysConsistent where
  positive : 0 < ack.nAids
  aid_lt : ack.aid < n

/-- The copy of a message that a learner stores and delivers: everything but
the unused `value_0`. -/
def PaxosAccepted.copied (ack : PaxosAccepted) : PaxosAccepted :=
  { ack with value0 := PaxosValue.empty }

theorem getElem?_zero_firstOr {α : Type} {entries : List α} (fallback : α)
    (nonempty : 0 < entries.length) :
    entries[0]? = some (firstOr fallback entries) := by
  cases entries with
  | nil => cases nonempty
  | cons entry rest => rfl

theorem AcceptedOk.aids_zero
    {n : Nat} {ack : PaxosAccepted} (ok : AcceptedOk n ack) :
    ack.aids[0]? = some ack.aid := by
  refine getElem?_zero_firstOr 0 ?_
  rw [ok.aids]
  exact ok.positive

theorem AcceptedOk.ballots_zero
    {n : Nat} {ack : PaxosAccepted} (ok : AcceptedOk n ack) :
    ack.ballots[0]? = some ack.ballot := by
  refine getElem?_zero_firstOr 0 ?_
  rw [ok.ballots]
  exact ok.positive

theorem copyArray_of_length {α : Type} {n : Nat} {src : List α}
    (length : src.length = n) :
    copyArray n src = some src := by
  subst length
  simp [copyArray]

theorem copyArrayOrNull_of_length {α : Type} {n : Nat} {src : List α}
    (length : src.length = n) :
    copyArrayOrNull n src = some src := by
  unfold copyArrayOrNull
  split
  · next missing => rw [missing]
  · exact copyArray_of_length length

/-- A message with consistent arrays is copied. -/
theorem paxosAcceptedDup_eq
    {ack : PaxosAccepted} (consistent : ack.ArraysConsistent)
    (positive : 0 < ack.nAids) :
    paxosAcceptedDup ack = some ack.copied := by
  have values : copyValues ack.nAids ack.values = some ack.values := by
    cases present : ack.values with
    | none => rfl
    | some array =>
        rw [copyValues,
          copyArray_of_length (consistent.values array present)]
        rfl
  unfold paxosAcceptedDup
  rw [if_pos positive]
  simp only [copyArrayOrNull_of_length consistent.aids,
    copyArrayOrNull_of_length consistent.ballots,
    copyArrayOrNull_of_length consistent.valueBallots, values,
    Option.bind_eq_bind, Option.bind_some]
  rfl

/-- Delivering a stored message copies it as it is. -/
theorem paxosAcceptedDeepCopy_copied
    {n : Nat} {ack : PaxosAccepted} (ok : AcceptedOk n ack) :
    paxosAcceptedDeepCopy ack.copied = some ack.copied := by
  have consistent : ack.copied.ArraysConsistent :=
    ⟨⟨ok.aids, ok.ballots, ok.valueBallots⟩, ok.values⟩
  exact paxosAcceptedDup_eq consistent ok.positive

/-- An acknowledgement for the ballot. -/
def agrees (ballot : Nat) (ack : Option PaxosAccepted) : Bool :=
  ack.any fun accepted => decide (accepted.ballot = ballot)

/-- The acceptors whose acknowledgement has the ballot. -/
def agreeingAcceptors (ballot : Nat) (acks : List (Option PaxosAccepted)) :
    Finset Nat :=
  (Finset.range acks.length).filter
    fun aid => (acks[aid]?).any (agrees ballot) = true

theorem agreeing_fst (ballot : Nat) (acks : List (Option PaxosAccepted)) :
    ∀ found : Nat × Option PaxosAccepted,
      (agreeing ballot acks found).1 =
        found.1 + acks.countP (agrees ballot) := by
  induction acks with
  | nil =>
      intro found
      rfl
  | cons ack rest inductionHypothesis =>
      intro found
      cases ack with
      | none =>
          rw [agreeing, inductionHypothesis]
          simp [agrees]
      | some accepted =>
          rw [agreeing]
          split
          · next same =>
              rw [inductionHypothesis]
              simp [agrees, same]
              omega
          · next different =>
              rw [inductionHypothesis]
              simp [agrees, different]

/-- The record that the loop remembers is an acknowledgement for the ballot,
and there is one as soon as one was counted. -/
theorem agreeing_snd (ballot : Nat) (acks : List (Option PaxosAccepted)) :
    ∀ found : Nat × Option PaxosAccepted,
      (∃ accepted, some accepted ∈ acks ∧ accepted.ballot = ballot ∧
        (agreeing ballot acks found).2 = some accepted) ∨
      (acks.countP (agrees ballot) = 0 ∧
        (agreeing ballot acks found).2 = found.2) := by
  induction acks with
  | nil =>
      intro found
      exact Or.inr ⟨rfl, rfl⟩
  | cons ack rest inductionHypothesis =>
      intro found
      cases ack with
      | none =>
          rw [agreeing]
          rcases inductionHypothesis found with
            ⟨accepted, member, same, result⟩ | ⟨zero, result⟩
          · exact Or.inl ⟨accepted, List.mem_cons_of_mem _ member, same,
              result⟩
          · exact Or.inr ⟨by simpa [agrees] using zero, result⟩
      | some accepted =>
          rw [agreeing]
          split
          · next same =>
              left
              rcases inductionHypothesis (found.1 + 1, some accepted) with
                ⟨other, member, otherSame, result⟩ | ⟨_, result⟩
              · exact ⟨other, List.mem_cons_of_mem _ member, otherSame, result⟩
              · exact ⟨accepted, List.mem_cons_self .., same, result⟩
          · next different =>
              rcases inductionHypothesis found with
                ⟨other, member, same, result⟩ | ⟨zero, result⟩
              · exact Or.inl ⟨other, List.mem_cons_of_mem _ member, same,
                  result⟩
              · exact Or.inr ⟨by simpa [agrees, different] using zero, result⟩

/-- An open instance stays open when no majority has the ballot of the last
message. -/
theorem instanceHasQuorum_open
    {inst : LearnerInstance} {n : Nat} (opened : inst.finalValue = none)
    (few : (agreeingAcceptors inst.lastUpdateBallot inst.acks).card <
      n / 2 + 1) :
    instanceHasQuorum inst n = (false, inst) := by
  have count := agreeing_fst inst.lastUpdateBallot inst.acks (0, none)
  rw [← card_indices, Nat.zero_add] at count
  unfold instanceHasQuorum
  rw [opened]
  simp only
  rw [if_neg]
  rw [count]
  unfold paxosQuorum
  unfold agreeingAcceptors at few
  omega

/-- An open instance is closed when a majority has the ballot of the last
message, with an acknowledgement for that ballot. -/
theorem instanceHasQuorum_close
    {inst : LearnerInstance} {n : Nat} (opened : inst.finalValue = none)
    (many : n / 2 + 1 ≤
      (agreeingAcceptors inst.lastUpdateBallot inst.acks).card) :
    ∃ accepted, some accepted ∈ inst.acks ∧
      accepted.ballot = inst.lastUpdateBallot ∧
      instanceHasQuorum inst n =
        (true, { inst with finalValue := some accepted }) := by
  have count := agreeing_fst inst.lastUpdateBallot inst.acks (0, none)
  unfold agreeingAcceptors at many
  rw [card_indices] at many
  rcases agreeing_snd inst.lastUpdateBallot inst.acks (0, none) with
    ⟨accepted, member, same, result⟩ | ⟨zero, _⟩
  · refine ⟨accepted, member, same, ?_⟩
    unfold instanceHasQuorum
    rw [opened]
    simp only
    rw [if_pos, result]
    rw [count]
    unfold paxosQuorum
    omega
  · omega

theorem instanceHasQuorum_closed
    {inst : LearnerInstance} {n : Nat} {accepted : PaxosAccepted}
    (closed : inst.finalValue = some accepted) :
    instanceHasQuorum inst n = (true, inst) := by
  unfold instanceHasQuorum
  rw [closed]

/-- The highest ballot among the messages of an acceptor. -/
def highestBallot (aid : Nat) (messages : List PaxosAccepted) : Option Nat :=
  ((messages.filter fun ack => ack.aid = aid).map
    PaxosAccepted.ballot).max?

/-- The acceptors whose highest ballot is the given one. -/
def highestAt (n : Nat) (messages : List PaxosAccepted) (ballot : Nat) :
    Finset Nat :=
  (Finset.range n).filter
    fun aid => highestBallot aid messages = some ballot

/-- After some of the messages, the highest ballots of a majority were the
same. -/
def ReachedMajority (n : Nat) (messages : List PaxosAccepted) : Prop :=
  ∃ earlier, earlier <+: messages ∧
    ∃ ballot, n / 2 + 1 ≤ (highestAt n earlier ballot).card

theorem highestBallot_snoc_of_ne
    {aid : Nat} (messages : List PaxosAccepted) {ack : PaxosAccepted}
    (different : ack.aid ≠ aid) :
    highestBallot aid (messages ++ [ack]) = highestBallot aid messages := by
  simp [highestBallot, different]

theorem highestBallot_snoc_self
    (messages : List PaxosAccepted) (ack : PaxosAccepted) :
    highestBallot ack.aid (messages ++ [ack]) =
      some ((highestBallot ack.aid messages).elim ack.ballot
        fun highest => max highest ack.ballot) := by
  unfold highestBallot
  rw [List.filter_append, List.map_append, List.filter_singleton]
  simp only [decide_true]
  cases (messages.filter fun other => decide (other.aid = ack.aid)).map
      PaxosAccepted.ballot with
  | nil => rfl
  | cons first rest =>
      rw [List.cons_append, List.max?_cons', List.foldl_append,
        List.max?_cons']
      rfl

theorem ReachedMajority.mono
    {n : Nat} {messages : List PaxosAccepted}
    (reached : ReachedMajority n messages) (later : List PaxosAccepted) :
    ReachedMajority n (messages ++ later) := by
  obtain ⟨earlier, part, rest⟩ := reached
  exact ⟨earlier, part.trans (List.prefix_append _ _), rest⟩

theorem reachedMajority_of_highestAt
    {n : Nat} {messages : List PaxosAccepted} {ballot : Nat}
    (many : n / 2 + 1 ≤ (highestAt n messages ballot).card) :
    ReachedMajority n messages :=
  ⟨messages, List.prefix_refl _, ballot, many⟩

/-- One more message reaches a majority only by its own ballots. -/
theorem reachedMajority_snoc
    {n : Nat} {messages : List PaxosAccepted} {ack : PaxosAccepted}
    (reached : ReachedMajority n (messages ++ [ack])) :
    ReachedMajority n messages ∨
      ∃ ballot, n / 2 + 1 ≤
        (highestAt n (messages ++ [ack]) ballot).card := by
  obtain ⟨earlier, part, ballot, many⟩ := reached
  rw [List.prefix_concat_iff] at part
  rcases part with rfl | part
  · exact Or.inr ⟨ballot, many⟩
  · exact Or.inl ⟨earlier, part, ballot, many⟩

theorem not_reachedMajority_nil (n : Nat) : ¬ ReachedMajority n [] := by
  rintro ⟨earlier, part, ballot, many⟩
  rw [List.prefix_nil] at part
  subst part
  have none : highestAt n [] ballot = ∅ := by
    simp [highestAt, highestBallot]
  rw [none, Finset.card_empty] at many
  omega

/-- An acceptor sent a message for the ballot. -/
def SentBallot (messages : List PaxosAccepted) (ballot aid : Nat) : Prop :=
  ∃ ack ∈ messages, ack.aid = aid ∧ ack.ballot = ballot

/-- The slots of an instance hold, for every acceptor, a message with its
highest ballot. -/
structure Slots (n : Nat) (messages : List PaxosAccepted)
    (acks : List (Option PaxosAccepted)) : Prop where
  length_eq : acks.length = n
  stored : ∀ aid accepted, acks[aid]? = some (some accepted) →
    ∃ ack ∈ messages, accepted = ack.copied ∧ ack.aid = aid
  highest : ∀ aid < n, ((acks[aid]?).join).map PaxosAccepted.ballot =
    highestBallot aid messages

namespace Slots

variable {n : Nat} {messages : List PaxosAccepted}
variable {acks : List (Option PaxosAccepted)}

theorem new (n : Nat) : Slots n [] (List.replicate n none) where
  length_eq := List.length_replicate
  stored := by
    intro aid accepted present
    simp [List.getElem?_replicate] at present
  highest := by
    intro aid bound
    simp [bound, highestBallot]

/-- The acknowledgements for a ballot are the acceptors with that highest
ballot. -/
theorem agreeing_eq (slots : Slots n messages acks) (ballot : Nat) :
    agreeingAcceptors ballot acks = highestAt n messages ballot := by
  unfold agreeingAcceptors highestAt
  rw [slots.length_eq]
  apply Finset.filter_congr
  intro aid member
  rw [← slots.highest aid (Finset.mem_range.mp member)]
  cases acks[aid]? with
  | none => simp
  | some ack =>
      cases ack with
      | none => simp [agrees]
      | some accepted => simp [agrees]

/-- Acceptors that agree on a ballot have sent it. -/
theorem sentBallot (slots : Slots n messages acks) {ballot aid : Nat}
    (agreed : aid ∈ agreeingAcceptors ballot acks) :
    SentBallot messages ballot aid := by
  simp only [agreeingAcceptors, Finset.mem_filter, Option.any_eq_true]
    at agreed
  obtain ⟨_, slot, present, filled⟩ := agreed
  cases slot with
  | none => cases filled
  | some accepted =>
      simp only [agrees, Option.any_some, decide_eq_true_eq] at filled
      obtain ⟨source, member, rfl, sameAid⟩ :=
        slots.stored aid accepted present
      exact ⟨source, member, sameAid, filled⟩

/-- A message that is not newer than the stored one changes no highest
ballot. -/
theorem drop (slots : Slots n messages acks)
    {ack prev : PaxosAccepted}
    (present : acks[ack.aid]? = some (some prev))
    (stale : ack.ballot ≤ prev.ballot) :
    Slots n (messages ++ [ack]) acks where
  length_eq := slots.length_eq
  stored := by
    intro aid old oldAt
    obtain ⟨source, member, rest⟩ := slots.stored aid old oldAt
    exact ⟨source, List.mem_append_left _ member, rest⟩
  highest := by
    intro aid bound
    by_cases own : ack.aid = aid
    · subst own
      have before := slots.highest ack.aid bound
      rw [present] at before
      rw [highestBallot_snoc_self, ← before, present]
      simp [stale]
    · rw [highestBallot_snoc_of_ne messages own]
      exact slots.highest aid bound

/-- A newer message replaces the stored one. -/
theorem add (slots : Slots n messages acks)
    {ack : PaxosAccepted} (bound : ack.aid < n)
    (newer : ∀ prev, acks[ack.aid]? = some (some prev) →
      prev.ballot < ack.ballot) :
    Slots n (messages ++ [ack]) (acks.set ack.aid (some ack.copied)) := by
  have inside : ack.aid < acks.length := by
    rw [slots.length_eq]
    exact bound
  refine ⟨?_, ?_, ?_⟩
  · rw [List.length_set]
    exact slots.length_eq
  · intro aid accepted present
    by_cases own : ack.aid = aid
    · subst own
      rw [List.getElem?_set_self inside] at present
      cases present
      exact ⟨ack, by simp, rfl, rfl⟩
    · rw [List.getElem?_set_ne own] at present
      obtain ⟨source, member, rest⟩ := slots.stored aid accepted present
      exact ⟨source, List.mem_append_left _ member, rest⟩
  · intro aid aidBound
    by_cases own : ack.aid = aid
    · subst own
      rw [List.getElem?_set_self inside, highestBallot_snoc_self,
        ← slots.highest ack.aid bound]
      cases before : (acks[ack.aid]?).join with
      | none => rfl
      | some prev =>
          have larger := newer prev (Option.join_eq_some_iff.mp before)
          have greatest : max prev.ballot ack.ballot = ack.ballot := by
            omega
          simp only [Option.map_some, Option.elim_some, greatest]
          rfl
    · rw [List.getElem?_set_ne own, highestBallot_snoc_of_ne messages own]
      exact slots.highest aid aidBound

end Slots

/-- A message raises no count but that of its own ballot. -/
theorem highestAt_snoc_subset
    {n ballot : Nat} (messages : List PaxosAccepted) {ack : PaxosAccepted}
    (different : ballot ≠ ack.ballot) :
    highestAt n (messages ++ [ack]) ballot ⊆ highestAt n messages ballot := by
  intro aid member
  simp only [highestAt, Finset.mem_filter] at member ⊢
  refine ⟨member.1, ?_⟩
  by_cases own : ack.aid = aid
  · subst own
    have raised := member.2
    rw [highestBallot_snoc_self, Option.some.injEq] at raised
    cases before : highestBallot ack.aid messages with
    | none =>
        rw [before, Option.elim_none] at raised
        exact False.elim (different raised.symm)
    | some highest =>
        rw [before, Option.elim_some] at raised
        have kept : highest = ballot := by omega
        rw [kept]
  · rw [← highestBallot_snoc_of_ne messages own]
    exact member.2

/-- What an instance knows of the messages received for it. -/
structure Tracks (n iid : Nat) (messages : List PaxosAccepted)
    (inst : LearnerInstance) : Prop where
  iid_eq : inst.iid = iid
  opened : inst.finalValue = none →
    Slots n messages inst.acks ∧ ¬ ReachedMajority n messages
  closed : ∀ accepted, inst.finalValue = some accepted →
    ReachedMajority n messages ∧
    (∃ ack ∈ messages, accepted = ack.copied) ∧
    ∃ voters : Finset Nat, n / 2 + 1 ≤ voters.card ∧
      ∀ aid ∈ voters, SentBallot messages accepted.ballot aid

namespace Tracks

variable {n iid : Nat} {messages : List PaxosAccepted}
variable {inst : LearnerInstance}

/-- A new instance has received nothing. -/
theorem new (n iid lastUpdateBallot : Nat) :
    Tracks n iid []
      { learnerInstanceNew n with
        iid := iid
        lastUpdateBallot := lastUpdateBallot } where
  iid_eq := rfl
  opened := fun _ => ⟨Slots.new n, not_reachedMajority_nil n⟩
  closed := nofun

/-- The test of the source closes an instance exactly when a majority has the
ballot of the last message; whether a majority has another ballot does not
matter once the ones before have been ruled out. -/
theorem close
    (slots : Slots n messages inst.acks) (sameIid : inst.iid = iid)
    (opened : inst.finalValue = none)
    (onlyLast : ReachedMajority n messages →
      n / 2 + 1 ≤ (highestAt n messages inst.lastUpdateBallot).card) :
    Tracks n iid messages (instanceHasQuorum inst n).2 := by
  by_cases many : n / 2 + 1 ≤
      (highestAt n messages inst.lastUpdateBallot).card
  · rw [← slots.agreeing_eq] at many
    obtain ⟨accepted, member, sameBallot, closes⟩ :=
      instanceHasQuorum_close opened many
    rw [closes]
    refine ⟨sameIid, nofun, ?_⟩
    intro final same
    cases same
    obtain ⟨aid, aidAt⟩ := List.mem_iff_getElem?.mp member
    obtain ⟨source, sourceMember, copied, _⟩ := slots.stored aid accepted aidAt
    refine ⟨?_, ⟨source, sourceMember, copied⟩,
      agreeingAcceptors inst.lastUpdateBallot inst.acks, many, ?_⟩
    · rw [slots.agreeing_eq] at many
      exact reachedMajority_of_highestAt many
    · intro voter agreed
      rw [sameBallot]
      exact slots.sentBallot agreed
  · have few : (agreeingAcceptors inst.lastUpdateBallot inst.acks).card <
        n / 2 + 1 := by
      rw [slots.agreeing_eq]
      omega
    rw [instanceHasQuorum_open opened few]
    refine ⟨sameIid, fun _ => ⟨slots, fun reached =>
      many (onlyLast reached)⟩, ?_⟩
    intro accepted closed
    rw [opened] at closed
    cases closed

/-- An open instance does not have a quorum. -/
theorem hasQuorum_open
    (tracks : Tracks n iid messages inst) (opened : inst.finalValue = none) :
    instanceHasQuorum inst n = (false, inst) := by
  obtain ⟨slots, unreached⟩ := tracks.opened opened
  apply instanceHasQuorum_open opened
  rw [slots.agreeing_eq]
  by_contra many
  exact unreached (reachedMajority_of_highestAt (Nat.le_of_not_lt many))

/-- A closed instance drops its messages. -/
theorem drop_closed
    (tracks : Tracks n iid messages inst) {accepted : PaxosAccepted}
    (closed : inst.finalValue = some accepted) (ack : PaxosAccepted) :
    Tracks n iid (messages ++ [ack]) inst where
  iid_eq := tracks.iid_eq
  opened := by
    intro opened
    rw [closed] at opened
    cases opened
  closed := by
    intro other same
    obtain ⟨reached, ⟨source, member, copied⟩, voters, enough, sent⟩ :=
      tracks.closed other same
    refine ⟨reached.mono _, ⟨source, List.mem_append_left _ member, copied⟩,
      voters, enough, ?_⟩
    intro aid voter
    obtain ⟨message, messageMember, both⟩ := sent aid voter
    exact ⟨message, List.mem_append_left _ messageMember, both⟩

/-- A message that is not newer than the one stored for its acceptor is
dropped. -/
theorem drop_stale
    (tracks : Tracks n iid messages inst) (opened : inst.finalValue = none)
    {ack prev : PaxosAccepted}
    (present : inst.acks[ack.aid]? = some (some prev))
    (stale : ack.ballot ≤ prev.ballot) :
    Tracks n iid (messages ++ [ack]) inst := by
  obtain ⟨slots, unreached⟩ := tracks.opened opened
  have kept := slots.drop present stale
  refine ⟨tracks.iid_eq, fun _ => ⟨kept, ?_⟩, ?_⟩
  · intro reached
    rcases reachedMajority_snoc reached with before | ⟨ballot, many⟩
    · exact unreached before
    · rw [← kept.agreeing_eq, slots.agreeing_eq] at many
      exact unreached (reachedMajority_of_highestAt many)
  · intro accepted closed
    rw [opened] at closed
    cases closed

/-- Storing a newer message and testing its ballot. -/
theorem add
    (tracks : Tracks n iid messages inst) (opened : inst.finalValue = none)
    {ack : PaxosAccepted} (bound : ack.aid < n)
    (newer : ∀ prev, inst.acks[ack.aid]? = some (some prev) →
      prev.ballot < ack.ballot) :
    Tracks n iid (messages ++ [ack])
      (instanceHasQuorum
        { inst with
          acks := inst.acks.set ack.aid (some ack.copied)
          lastUpdateBallot := ack.ballot } n).2 := by
  obtain ⟨slots, unreached⟩ := tracks.opened opened
  apply @close n iid (messages ++ [ack])
    { inst with
      acks := inst.acks.set ack.aid (some ack.copied)
      lastUpdateBallot := ack.ballot }
    (slots.add bound newer) tracks.iid_eq opened
  intro reached
  rcases reachedMajority_snoc reached with before | ⟨ballot, many⟩
  · exact False.elim (unreached before)
  · by_cases own : ballot = ack.ballot
    · rwa [own] at many
    · have earlier := many.trans
        (Finset.card_le_card (highestAt_snoc_subset messages own))
      exact False.elim (unreached (reachedMajority_of_highestAt earlier))

/-- The first part of an update keeps what an instance knows. -/
theorem start
    {ack : PaxosAccepted} (tracks : Tracks n ack.iid messages inst)
    (ok : AcceptedOk n ack) :
    ∃ started, instanceStart inst ack = some started ∧
      Tracks n ack.iid messages started := by
  unfold instanceStart
  by_cases first : inst.iid = 0
  · rw [if_pos first, ok.ballots_zero]
    exact ⟨_, rfl, rfl, tracks.opened, tracks.closed⟩
  · rw [if_neg first]
    exact ⟨inst, rfl, tracks⟩

/-- Receiving a message: the update of the instance and the test after it. -/
theorem receive
    {started : LearnerInstance} {ack : PaxosAccepted}
    (starts : instanceStart inst ack = some started)
    (tracks : Tracks n iid messages started) (ok : AcceptedOk n ack) :
    ∃ updated, instanceUpdate inst ack n = some updated ∧
      Tracks n iid (messages ++ [ack]) (instanceHasQuorum updated n).2 := by
  unfold instanceUpdate
  simp only [starts]
  cases final : started.finalValue with
  | some accepted =>
      rw [instanceHasQuorum_closed final]
      refine ⟨started, rfl, ?_⟩
      rw [instanceHasQuorum_closed final]
      exact tracks.drop_closed final ack
  | none =>
      have bound : ack.aid < started.acks.length := by
        rw [(tracks.opened final).1.length_eq]
        exact ok.aid_lt
      rw [tracks.hasQuorum_open final]
      simp only [ok.aids_zero, ok.ballots_zero,
        List.getElem?_eq_getElem bound]
      cases slot : started.acks[ack.aid] with
      | none =>
          refine ⟨_, ?_, tracks.add final ok.aid_lt ?_⟩
          · rw [Option.any_none, if_neg (by simp), instanceAddAccept,
              paxosAcceptedDup_eq ok.toArraysConsistent ok.positive]
            rfl
          · intro prev present
            rw [List.getElem?_eq_getElem bound, slot] at present
            cases present
      | some prev =>
          have present : started.acks[ack.aid]? = some (some prev) := by
            rw [List.getElem?_eq_getElem bound, slot]
          by_cases stale : ack.ballot ≤ prev.ballot
          · refine ⟨started, ?_, ?_⟩
            · simp [stale]
            · have dropped := tracks.drop_stale final present stale
              rw [dropped.hasQuorum_open final]
              exact dropped
          · refine ⟨_, ?_, tracks.add final ok.aid_lt ?_⟩
            · rw [if_neg (by simpa using stale), instanceAddAccept,
                paxosAcceptedDup_eq ok.toArraysConsistent ok.positive]
              rfl
            · intro other otherAt
              rw [present] at otherAt
              cases otherAt
              exact Nat.lt_of_not_le stale

end Tracks

end LibPaxos
