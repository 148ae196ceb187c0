import LibPaxos.Learner.Exactness

/-!
# The instances that a learner has closed

Every instance from the first one on that has reached a majority is at most
`highest_iid_closed`, also when its messages are dropped because it was
delivered before, and the instance `highest_iid_closed` has reached a majority
unless it is the one that the learner began with.
-/

namespace LibPaxos

open LibPaxos.Library

/-- The instances closed so far, counted from the instance `start`, by a learner
that began with `base` as its `highest_iid_closed`. -/
structure ClosedSince (n start base : Nat) (past : List LearnerTransition)
    (l : Learner) : Prop where
  delivered : ∀ iid, start ≤ iid → iid < l.currentIid →
    ReachedMajority n (receivedFor iid past)
  highest : ∀ iid, start ≤ iid → ReachedMajority n (receivedFor iid past) →
    iid ≤ l.highestIidClosed
  attained : l.highestIidClosed = base ∨
    ReachedMajority n (receivedFor l.highestIidClosed past)
  above_base : base ≤ l.highestIidClosed

/-- An instance has a quorum exactly if its final value is set afterwards. -/
theorem instanceHasQuorum_isSome (inst : LearnerInstance) (n : Nat) :
    (instanceHasQuorum inst n).1 =
      (instanceHasQuorum inst n).2.finalValue.isSome := by
  cases final : inst.finalValue with
  | some accepted =>
      rw [instanceHasQuorum_closed final, final]
      rfl
  | none =>
      by_cases few : (agreeingAcceptors inst.lastUpdateBallot
          inst.acks).card < n / 2 + 1
      · rw [instanceHasQuorum_open final few, final]
        rfl
      · obtain ⟨accepted, _, _, closes⟩ :=
          instanceHasQuorum_close final (Nat.le_of_not_lt few)
        rw [closes]
        rfl

theorem Tracks.isSome_iff
    {n iid : Nat} {messages : List PaxosAccepted} {inst : LearnerInstance}
    (tracks : Tracks n iid messages inst) :
    inst.finalValue.isSome = true ↔ ReachedMajority n messages := by
  cases final : inst.finalValue with
  | none => simp [(tracks.opened final).2]
  | some accepted => simp [(tracks.closed accepted final).1]

section Step

variable {learnerCatchUp : Bool} {initial n base : Nat}
variable {past : List LearnerTransition} {l : Learner}

theorem reachedMajority_snoc_receive
    (iid : Nat) (last : LearnerTransition)
    (reached : ReachedMajority n (receivedFor iid past)) :
    ReachedMajority n (receivedFor iid (past ++ [last])) := by
  rw [receivedFor_snoc]
  exact reached.mono _

theorem receivedFor_of_silent
    (silent : ∀ current ∈ past, current.input.message = none) (iid : Nat) :
    receivedFor iid past = [] := by
  unfold receivedFor
  rw [List.filterMap_eq_nil_iff]
  intro current member
  rw [silent current member]
  rfl

/-- A late start moves the first instance before anything was received. -/
theorem ClosedSince.start
    (inv : LearnerInv learnerCatchUp initial n past l)
    (closed : ClosedSince n (startFrom learnerCatchUp initial past) base past l)
    {last : LearnerTransition} {ack : PaxosAccepted}
    (isReceive : last.input = .receiveAccepted ack) :
    ClosedSince n (startFrom learnerCatchUp initial (past ++ [last])) base past
      (learnerStart l ack) := by
  cases late : l.lateStart with
  | false =>
      have begun := inv.started late
      rw [startFrom_snoc begun]
      simp only [learnerStart, late, Bool.false_eq_true, if_false]
      exact closed
  | true =>
      obtain ⟨isLate, _, _, silent⟩ := inv.late late
      subst isLate
      rw [startFrom_first silent isReceive]
      simp only [learnerStart, late, if_true]
      refine ⟨?_, ?_, closed.attained, closed.above_base⟩
      · intro iid above below
        exact False.elim (Nat.not_lt.mpr above below)
      · intro iid _ reached
        rw [receivedFor_of_silent silent] at reached
        exact False.elim (not_reachedMajority_nil n reached)

/-- What receiving a message for a current instance does. -/
theorem learnerReceiveAccepted_current
    {ack : PaxosAccepted} {updated : LearnerInstance}
    (acceptors : (learnerStart l ack).acceptors = n)
    (current : ¬ ack.iid < (learnerStart l ack).currentIid)
    (updates : instanceUpdate
      (learnerGetInstanceOrCreate (learnerStart l ack) ack.iid) ack n =
        some updated) :
    ∃ after, learnerReceiveAccepted l ack = some after ∧
      after.currentIid = (learnerStart l ack).currentIid ∧
      after.highestIidClosed =
        if (instanceHasQuorum updated n).2.finalValue.isSome = true ∧
            (learnerStart l ack).highestIidClosed <
              (instanceHasQuorum updated n).2.iid then
          (instanceHasQuorum updated n).2.iid
        else
          (learnerStart l ack).highestIidClosed := by
  rw [← instanceHasQuorum_isSome]
  simp only [learnerReceiveAccepted, if_neg current, acceptors, updates]
  exact ⟨_, rfl, rfl, rfl⟩

theorem ClosedSince.receive
    (inv : LearnerInv learnerCatchUp initial n past l)
    (closed : ClosedSince n (startFrom learnerCatchUp initial past) base past l)
    {ack : PaxosAccepted} (ok : AcceptedOk n ack)
    {after : Learner} {out : Option PaxosAccepted}
    (stepEq : learnerStep l (.receiveAccepted ack) = some (after, out)) :
    ClosedSince n
      (startFrom learnerCatchUp initial
        (past ++ [⟨l, .receiveAccepted ack, out, after⟩])) base
      (past ++ [⟨l, .receiveAccepted ack, out, after⟩]) after := by
  simp only [learnerStep, Option.map_eq_some_iff, Prod.mk.injEq] at stepEq
  obtain ⟨received, receives, rfl, rfl⟩ := stepEq
  generalize isLast : (⟨l, .receiveAccepted ack, none, received⟩ :
    LearnerTransition) = last
  have isReceive : last.input = .receiveAccepted ack := by
    rw [← isLast]
  have begun := closed.start inv isReceive
  have acceptors := (inv.start last isReceive).1
  by_cases old : ack.iid < (learnerStart l ack).currentIid
  · -- The instance was delivered before, so its new message changes nothing.
    simp only [learnerReceiveAccepted, if_pos old, Option.some.injEq]
      at receives
    subst receives
    refine ⟨?_, ?_, ?_, begun.above_base⟩
    · intro iid above below
      exact reachedMajority_snoc_receive iid last
        (begun.delivered iid above below)
    · intro iid above reached
      by_cases own : ack.iid = iid
      · subst own
        exact begun.highest _ above (begun.delivered _ above old)
      · rw [receivedFor_snoc_of_ne iid past isReceive own] at reached
        exact begun.highest iid above reached
    · rcases begun.attained with first | reached
      · exact Or.inl first
      · exact Or.inr (reachedMajority_snoc_receive _ last reached)
  · obtain ⟨updated, updates, tracks⟩ :=
      inv.update ok (Nat.le_of_not_lt old)
    obtain ⟨after, afterEq, sameIid, highest⟩ :=
      learnerReceiveAccepted_current acceptors old updates
    rw [receives] at afterEq
    cases afterEq
    rw [← receivedFor_snoc_self past isReceive] at tracks
    rw [tracks.iid_eq] at highest
    have closes := tracks.isSome_iff
    have least := begun.above_base
    refine ⟨?_, ?_, ?_, ?_⟩
    · intro iid above below
      rw [sameIid] at below
      exact reachedMajority_snoc_receive iid last
        (begun.delivered iid above below)
    · intro iid above reached
      by_cases own : ack.iid = iid
      · subst own
        rw [highest]
        split
        · exact Nat.le_refl _
        · next lower =>
            apply Nat.le_of_not_lt
            intro more
            exact lower ⟨closes.mpr reached, more⟩
      · rw [receivedFor_snoc_of_ne iid past isReceive own] at reached
        have bound := begun.highest iid above reached
        rw [highest]
        split
        · omega
        · exact bound
    · rw [highest]
      split
      · next higher => exact Or.inr (closes.mp higher.1)
      · rcases begun.attained with first | reached
        · exact Or.inl first
        · exact Or.inr (reachedMajority_snoc_receive _ last reached)
    · rw [highest]
      split
      · omega
      · exact least

theorem learnerStep_deliver_highest
    {after : Learner} {out : Option PaxosAccepted}
    (stepEq : learnerStep l .deliverNext = some (after, out)) :
    after.highestIidClosed = l.highestIidClosed := by
  simp only [learnerStep, Option.map_eq_some_iff, Prod.mk.injEq] at stepEq
  obtain ⟨result, delivers, rfl, rfl⟩ := stepEq
  unfold learnerDeliverNext at delivers
  split at delivers
  · cases delivers
    rfl
  · split at delivers
    · cases delivers
      rfl
    · split at delivers
      · cases delivers
      · rw [Option.map_eq_some_iff] at delivers
        obtain ⟨copy, _, rfl⟩ := delivers
        rfl

theorem ClosedSince.deliver
    (inv : LearnerInv learnerCatchUp initial n past l)
    (closed : ClosedSince n (startFrom learnerCatchUp initial past) base past l)
    (ready : LearnerOp.deliverNext.Ready n past l)
    {after : Learner} {out : Option PaxosAccepted}
    (stepEq : learnerStep l .deliverNext = some (after, out)) :
    ClosedSince n
      (startFrom learnerCatchUp initial
        (past ++ [⟨l, .deliverNext, out, after⟩])) base
      (past ++ [⟨l, .deliverNext, out, after⟩]) after := by
  rw [startFrom_snoc_deliver learnerCatchUp initial past rfl]
  obtain ⟨_, _, delivers, afterInv, exactly⟩ := inv.deliver ready
  rw [stepEq] at delivers
  cases delivers
  have sameHighest := learnerStep_deliver_highest stepEq
  have current := afterInv.current_eq
  rw [startFrom_snoc_deliver learnerCatchUp initial past rfl, delivered_snoc,
    List.length_append] at current
  refine ⟨?_, ?_, ?_, ?_⟩
  · intro iid above below
    rw [receivedFor_snoc_deliver iid past rfl]
    by_cases earlier : iid < l.currentIid
    · exact closed.delivered iid above earlier
    · -- Only the instance delivered by this call is new.
      cases out with
      | none =>
          have same := inv.current_eq
          simp only [Option.toList_none, List.length_nil] at current
          omega
      | some record =>
          have same := inv.current_eq
          simp only [Option.toList_some, List.length_singleton] at current
          have now : iid = l.currentIid := by omega
          rw [now]
          exact exactly.isSome_iff.mp rfl
  · intro iid above reached
    rw [receivedFor_snoc_deliver iid past rfl] at reached
    rw [sameHighest]
    exact closed.highest iid above reached
  · rw [sameHighest, receivedFor_snoc_deliver _ past rfl]
    exact closed.attained
  · rw [sameHighest]
    exact closed.above_base

end Step

section Run

variable {learnerCatchUp : Bool} {initial n : Nat}
variable {past : List LearnerTransition} {start l : Learner}

theorem Learner.Fresh.closed
    (fresh : start.Fresh learnerCatchUp initial n) :
    ClosedSince n (startFrom learnerCatchUp initial []) start.highestIidClosed
      [] start where
  delivered := by
    intro iid above below
    rw [startFrom_nil, ← fresh.current_eq] at above
    exact False.elim (Nat.not_lt.mpr above below)
  highest := fun _ _ reached =>
    False.elim (not_reachedMajority_nil n reached)
  attained := Or.inl rfl
  above_base := Nat.le_refl _

/-- The instances that a learner has closed, in every state it reaches. -/
theorem Learner.Fresh.trace_closed
    (fresh : start.Fresh learnerCatchUp initial n)
    (trace : Trace learnerStep start past l)
    (ready : ∀ before current after, past = before ++ current :: after →
      current.input.Ready n before current.source) :
    ClosedSince n (startFrom learnerCatchUp initial past)
      start.highestIidClosed past l := by
  induction trace with
  | nil => exact fresh.closed
  | @snoc past source target input output trace stepEq inductionHypothesis =>
      have earlier : ∀ before current after,
          past = before ++ current :: after →
          current.input.Ready n before current.source := by
        intro before current after shape
        apply ready before current (after ++ [⟨source, input, output, target⟩])
        rw [shape, List.append_assoc, List.cons_append]
      have inv := fresh.trace_inv trace earlier
      have closed := inductionHypothesis earlier
      have now := ready past _ [] rfl
      cases input with
      | receiveAccepted ack => exact closed.receive inv now stepEq
      | deliverNext => exact closed.deliver inv now stepEq

end Run

end LibPaxos
