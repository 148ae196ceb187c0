import LibPaxos.Learner.Bounds

/-!
# The event-driven learner

`evlearner_deliver_next_closed` hands over what the learner delivers, one
instance after the other, and takes the first value of each record without
asking whether the record has values.
-/

namespace LibPaxos

open LibPaxos.Library

/-- `evlearner_deliver_next_closed`, for a number of turns of its loop: the
calls of the delivery function.  It has no result where a record has no first
value, and where the turns do not suffice. -/
def evlearnerDeliverNextClosed :
    Nat → Learner → Option (List (Nat × PaxosValue) × Learner)
  | 0, _ => none
  | fuel + 1, l =>
      match learnerDeliverNext l with
      | none => none
      | some (none, l) => some ([], l)
      | some (some deliver, l) =>
          match deliver.values.bind (·[0]?) with
          | none => none
          | some value =>
              (evlearnerDeliverNextClosed fuel l).map fun (later, l) =>
                ((deliver.iid, value) :: later, l)

/-- The record of the instance that comes after so many deliveries. -/
def upcoming (l : Learner) (i : Nat) : Option PaxosAccepted :=
  closedRecord l (word32 (l.currentIid + i))

/-- The instances from the current one on that are closed without a gap have
records with values. -/
def DeliveredHaveValues (l : Learner) : Prop :=
  ∀ i < 2 ^ 32, (∀ earlier < i, (upcoming l earlier).isSome) →
    ∀ record, upcoming l i = some record → record.values.isSome

section Loop

variable {l : Learner}

theorem Learner.Placed.upcoming_zero (placed : l.Placed) :
    upcoming l 0 = closedRecord l l.currentIid :=
  congrArg (closedRecord l) (Nat.mod_eq_of_lt placed.current)

/-- After a delivery the next instances are the same, up to the one that was
delivered. -/
theorem Learner.Placed.upcoming_advanced
    (placed : l.Placed) {i : Nat} (bound : i < 2 ^ 32) :
    upcoming l.advanced i =
      if i + 1 = 2 ^ 32 then none else upcoming l (i + 1) := by
  have current := placed.current
  have next : word32 (l.advanced.currentIid + i) =
      word32 (l.currentIid + (i + 1)) := by
    simp only [Learner.advanced, word32, Nat.mod_add_mod]
    rw [Nat.add_assoc, Nat.add_comm 1 i]
  have around : word32 (l.currentIid + (i + 1)) = l.currentIid ↔
      i + 1 = 2 ^ 32 := by
    unfold word32
    omega
  unfold upcoming
  rw [next, closedRecord_advanced]
  simp only [around]

theorem Learner.Placed.firstValue
    (placed : l.Placed) {iid : Nat} {record : PaxosAccepted}
    (closed : closedRecord l iid = some record)
    (present : record.values.isSome) :
    ∃ value, record.copied.values.bind (·[0]?) = some value := by
  have copyable := placed.closedRecord_copyable closed
  obtain ⟨values, isValues⟩ := Option.isSome_iff_exists.mp present
  have length := copyable.values values isValues
  have nonempty : 0 < values.length := length ▸ copyable.positive
  refine ⟨values[0], ?_⟩
  have same : record.copied.values = some values := isValues
  rw [same, Option.bind_some]
  exact List.getElem?_eq_getElem nonempty

theorem evlearnerDeliverNextClosed_of_open
    (placed : l.Placed) (opened : closedRecord l l.currentIid = none)
    (fuel : Nat) :
    (evlearnerDeliverNextClosed (fuel + 1) l).isSome := by
  obtain ⟨idle, idles, _⟩ := learnerDeliverNext_of_open placed opened
  rw [evlearnerDeliverNextClosed, idles]
  rfl

theorem evlearnerDeliverNextClosed_of_closed
    (placed : l.Placed) {record : PaxosAccepted}
    (closed : closedRecord l l.currentIid = some record) (fuel : Nat) :
    (evlearnerDeliverNextClosed (fuel + 1) l).isSome ↔
      record.values.isSome ∧
        (evlearnerDeliverNextClosed fuel l.advanced).isSome := by
  rw [evlearnerDeliverNextClosed, learnerDeliverNext_of_closed placed closed]
  simp only
  cases present : record.values with
  | none =>
      have noValues : record.copied.values = none := present
      simp [noValues]
  | some values =>
      obtain ⟨value, isValue⟩ :=
        placed.firstValue closed (Option.isSome_iff_exists.mpr ⟨_, present⟩)
      simp only [isValue, Option.isSome_map, Option.isSome_some, true_and]

/-- The condition is the one on the current record and the one on what is
delivered after it. -/
theorem deliveredHaveValues_of_closed
    (placed : l.Placed) {record : PaxosAccepted}
    (closed : closedRecord l l.currentIid = some record) :
    DeliveredHaveValues l ↔
      record.values.isSome ∧ DeliveredHaveValues l.advanced := by
  have first : upcoming l 0 = some record :=
    placed.upcoming_zero.trans closed
  constructor
  · intro all
    refine ⟨all 0 (by decide) (by simp) record first, ?_⟩
    intro i bound earlier later isLater
    rw [placed.upcoming_advanced bound] at isLater
    split at isLater
    · cases isLater
    · next notAround =>
        refine all (i + 1) (by omega) ?_ later isLater
        intro other below
        cases other with
        | zero => rw [first, Option.isSome_some]
        | succ other =>
            have closedThen := earlier other (by omega)
            rw [placed.upcoming_advanced (by omega), if_neg (by omega)]
              at closedThen
            exact closedThen
  · rintro ⟨present, all⟩ i bound earlier later isLater
    cases i with
    | zero =>
        rw [first] at isLater
        cases isLater
        exact present
    | succ i =>
        refine all i (by omega) ?_ later ?_
        · intro other below
          rw [placed.upcoming_advanced (by omega), if_neg (by omega)]
          exact earlier (other + 1) (by omega)
        · rw [placed.upcoming_advanced (by omega), if_neg (by omega)]
          exact isLater

/-- The loop ends at the first instance that is not closed. -/
theorem evlearnerDeliverNextClosed_isSome (fuel : Nat) :
    ∀ {l : Learner}, l.Placed → DeliveredHaveValues l →
      (∃ i < fuel, i < 2 ^ 32 ∧ upcoming l i = none) →
      (evlearnerDeliverNextClosed fuel l).isSome := by
  induction fuel with
  | zero =>
      rintro l _ _ ⟨i, below, _⟩
      omega
  | succ fuel inductionHypothesis =>
      rintro l placed all ⟨i, below, bound, gap⟩
      cases closed : closedRecord l l.currentIid with
      | none => exact evlearnerDeliverNextClosed_of_open placed closed fuel
      | some record =>
          rw [deliveredHaveValues_of_closed placed closed] at all
          rw [evlearnerDeliverNextClosed_of_closed placed closed]
          refine ⟨all.1, inductionHypothesis placed.advanced all.2 ?_⟩
          cases i with
          | zero =>
              rw [placed.upcoming_zero, closed] at gap
              cases gap
          | succ i =>
              refine ⟨i, by omega, by omega, ?_⟩
              rw [placed.upcoming_advanced (by omega), gap, ite_self]

theorem deliveredHaveValues_of_isSome (fuel : Nat) :
    ∀ {l : Learner}, l.Placed →
      (evlearnerDeliverNextClosed fuel l).isSome → DeliveredHaveValues l := by
  induction fuel with
  | zero =>
      intro l _ ended
      cases ended
  | succ fuel inductionHypothesis =>
      intro l placed ended
      cases closed : closedRecord l l.currentIid with
      | none =>
          -- The first instance is a gap, so nothing is delivered.
          intro i bound earlier record isRecord
          cases i with
          | zero =>
              rw [placed.upcoming_zero, closed] at isRecord
              cases isRecord
          | succ i =>
              have first := earlier 0 (Nat.succ_pos i)
              rw [placed.upcoming_zero, closed] at first
              cases first
      | some record =>
          rw [evlearnerDeliverNextClosed_of_closed placed closed] at ended
          rw [deliveredHaveValues_of_closed placed closed]
          exact ⟨ended.1, inductionHypothesis placed.advanced ended.2⟩

/-- Delivery ends, and takes only values that are there, exactly when the
records have values.  It ends because the first instance that it delivers is
gone when the ids come round to it. -/
theorem evlearnerDeliverNextClosed_iff (placed : l.Placed) :
    (∃ fuel, (evlearnerDeliverNextClosed fuel l).isSome) ↔
      DeliveredHaveValues l := by
  constructor
  · rintro ⟨fuel, ended⟩
    exact deliveredHaveValues_of_isSome fuel placed ended
  · intro all
    cases closed : closedRecord l l.currentIid with
    | none => exact ⟨1, evlearnerDeliverNextClosed_of_open placed closed 0⟩
    | some record =>
        rw [deliveredHaveValues_of_closed placed closed] at all
        have last : 2 ^ 32 - 1 < 2 ^ 32 := by decide
        have gone : upcoming l.advanced (2 ^ 32 - 1) = none := by
          rw [placed.upcoming_advanced last, if_pos (by decide)]
        have ends := evlearnerDeliverNextClosed_isSome (2 ^ 32)
          placed.advanced all.2 ⟨_, last, last, gone⟩
        refine ⟨2 ^ 32 + 1, ?_⟩
        rw [evlearnerDeliverNextClosed_of_closed placed closed]
        exact ⟨all.1, ends⟩

end Loop

end LibPaxos
