import Mathlib.Data.Finset.Card
import Mathlib.Data.Finset.Range
import Mathlib.Data.List.Count
import Mathlib.Data.List.Induction

/-!
# Majorities and voting

A set of voters is a majority of a finite set of members when it holds more
than half of them.  Two majorities share a member.  On top of that, this module
states the one fact about ballots that makes a decision unique: if a ballot
carries one value only, and no ballot is voted for unless a majority is shut
for every smaller ballot, then at most one value can be chosen.
-/

namespace LibPaxos.Library

universe u v w

/-- More than half of the members. -/
def IsMajority {α : Type u} (members voters : Finset α) : Prop :=
  voters ⊆ members ∧ members.card / 2 + 1 ≤ voters.card

/-- Two majorities of the same members intersect. -/
theorem IsMajority.exists_common
    {α : Type u} [DecidableEq α] {members left right : Finset α}
    (leftMajority : IsMajority members left)
    (rightMajority : IsMajority members right) :
    ∃ voter, voter ∈ left ∧ voter ∈ right := by
  have unionBound : (left ∪ right).card ≤ members.card :=
    Finset.card_le_card
      (Finset.union_subset leftMajority.1 rightMajority.1)
  have counted := Finset.card_union_add_card_inter left right
  have leftSize := leftMajority.2
  have rightSize := rightMajority.2
  have positive : 0 < (left ∩ right).card := by omega
  obtain ⟨voter, member⟩ := Finset.card_pos.mp positive
  exact ⟨voter, Finset.mem_inter.mp member⟩

/-- The entries of an array that pass a test, counted through their indices. -/
theorem card_indices {α : Type u} (entries : List α) (test : α → Bool) :
    ((Finset.range entries.length).filter
        fun index => (entries[index]?).any test = true).card =
      entries.countP test := by
  induction entries using List.reverseRecOn with
  | nil => rfl
  | append_singleton front entry inductionHypothesis =>
      have sameFront :
          ((Finset.range front.length).filter
              fun index => ((front ++ [entry])[index]?).any test = true) =
            (Finset.range front.length).filter
              fun index => (front[index]?).any test = true := by
        apply Finset.filter_congr
        intro index member
        rw [List.getElem?_append_left (Finset.mem_range.mp member)]
      have last : (front ++ [entry])[front.length]? = some entry := by
        simp
      rw [List.length_append, List.length_singleton, Finset.range_add_one,
        Finset.filter_insert, sameFront, last, List.countP_append]
      by_cases passes : test entry = true
      · rw [if_pos (by simpa using passes), Finset.card_insert_of_notMem,
          inductionHypothesis]
        · simp [passes]
        · simp
      · rw [if_neg (by simpa using passes), inductionHypothesis]
        simp [passes]

section Voting

variable {α : Type u} {β : Type v} {ν : Type w}

/-- A majority voted for the value at the ballot. -/
def Chosen (members : Finset α) (votes : α → β → ν → Prop)
    (ballot : β) (value : ν) : Prop :=
  ∃ voters, IsMajority members voters ∧
    ∀ voter ∈ voters, votes voter ballot value

/-- A majority has no vote below the ballot. -/
def ShutBelow [LT β] (members : Finset α) (votes : α → β → ν → Prop)
    (ballot : β) : Prop :=
  ∃ voters, IsMajority members voters ∧
    ∀ voter ∈ voters, ∀ smaller < ballot, ∀ value,
      ¬ votes voter smaller value

/-- A ballot cannot be chosen below one for which a majority is shut. -/
theorem not_chosen_of_shutBelow
    [DecidableEq α] [LT β] {members : Finset α} {votes : α → β → ν → Prop}
    {ballot smaller : β} {value : ν}
    (shut : ShutBelow members votes ballot) (below : smaller < ballot) :
    ¬ Chosen members votes smaller value := by
  rintro ⟨voters, votersMajority, voted⟩
  obtain ⟨silent, silentMajority, noVote⟩ := shut
  obtain ⟨voter, inVoters, inSilent⟩ :=
    votersMajority.exists_common silentMajority
  exact noVote voter inSilent smaller below value (voted voter inVoters)

/-- At most one value is chosen, when a ballot carries one value and every
ballot voted for has a majority shut below it. -/
theorem chosen_unique
    [DecidableEq α] [LinearOrder β]
    {members : Finset α} {votes : α → β → ν → Prop}
    (oneValue : ∀ left right ballot leftValue rightValue,
      votes left ballot leftValue → votes right ballot rightValue →
        leftValue = rightValue)
    (shut : ∀ voter ballot value, votes voter ballot value →
      ShutBelow members votes ballot)
    {leftBallot rightBallot : β} {leftValue rightValue : ν}
    (leftChosen : Chosen members votes leftBallot leftValue)
    (rightChosen : Chosen members votes rightBallot rightValue) :
    leftValue = rightValue := by
  have somebody : ∀ {ballot value},
      Chosen members votes ballot value →
        ∃ voter, votes voter ballot value := by
    rintro ballot value ⟨voters, majority, voted⟩
    have positive : 0 < voters.card := by
      have size := majority.2
      omega
    obtain ⟨voter, member⟩ := Finset.card_pos.mp positive
    exact ⟨voter, voted voter member⟩
  obtain ⟨leftVoter, leftVote⟩ := somebody leftChosen
  obtain ⟨rightVoter, rightVote⟩ := somebody rightChosen
  rcases lt_trichotomy leftBallot rightBallot with below | same | above
  · exact False.elim
      (not_chosen_of_shutBelow (shut _ _ _ rightVote) below leftChosen)
  · subst same
    exact oneValue _ _ _ _ _ leftVote rightVote
  · exact False.elim
      (not_chosen_of_shutBelow (shut _ _ _ leftVote) above rightChosen)

end Voting

end LibPaxos.Library
