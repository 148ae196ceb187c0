import LibPaxos.Acceptor.History
import LibPaxos.Evpaxos.Evacceptor

/-!
# The loop of a repeat

A repeat asks an acceptor for what it has accepted between two instances, both
included.  The counter of the loop and its bound are 32-bit numbers, and the
loop ends when the counter is above the bound.  Here the loop has a bound on its
rounds, and returns nothing when they run out.
-/

namespace LibPaxos

open LibPaxos.Library

/-- The loop of `evacceptor_handle_repeat` from `iid` on, for at most `rounds`
tests of its condition. -/
def repeatLoop (mem : Memory) :
    Nat → Nat → Nat → MemAcceptor → Option (MemAcceptor × List Send)
  | 0, _, _, _ => none
  | rounds + 1, iid, last, state =>
      if iid ≤ last then
        let (out, state) := acceptorReceiveRepeat (memStorageApi mem) state iid
        (repeatLoop mem rounds (word32 (iid + 1)) last state).map
          fun (state, sent) =>
            (state,
              (out.map fun accepted =>
                (⟨.sender, .accepted accepted⟩ : Send)).toList ++ sent)
      else
        some (state, [])

/-- The stored records with a non-empty value among the instances, in their
order. -/
def MemAcceptor.holding (a : MemAcceptor) (iids : List Nat) :
    List PaxosAccepted :=
  iids.filterMap fun iid =>
    (a.store.records iid).filter fun record => decide (0 < record.value.len)

/-- The loop ends, sends back the records with a value in the range of the
repeat, from the first instance to the last, and leaves the acceptor as it
was. -/
def AnswersRepeat (mem : Memory) (a : MemAcceptor) (msg : PaxosRepeat) :
    Prop :=
  ∃ rounds, repeatLoop mem rounds msg.first msg.last a =
    some (a, (a.holding (List.range' msg.first
      (msg.last + 1 - msg.first))).map fun accepted =>
        ⟨.sender, .accepted accepted⟩)

/-- Below the largest instance the loop visits the range from front to
back. -/
theorem repeatLoop_eq_instances
    (mem : Memory) {last : Nat} (below : last < 2 ^ 32 - 1) (rounds : Nat) :
    ∀ iid state, last + 1 - iid < rounds →
      repeatLoop mem rounds iid last state =
        some (repeatInstances mem (List.range' iid (last + 1 - iid))
          state) := by
  induction rounds with
  | zero =>
      intro iid state enough
      omega
  | succ rounds inductionHypothesis =>
      intro iid state enough
      unfold repeatLoop
      by_cases inside : iid ≤ last
      · have next : word32 (iid + 1) = iid + 1 := word32_of_lt (by omega)
        have remaining : last + 1 - iid = (last + 1 - (iid + 1)) + 1 := by
          omega
        rw [if_pos inside, next, remaining, List.range'_succ]
        simp only [repeatInstances,
          inductionHypothesis (iid + 1) _ (by omega), Option.map_some]
      · rw [if_neg inside, Nat.sub_eq_zero_of_le (by omega)]
        rfl

/-- No counter is above the largest instance, and the loop goes on. -/
theorem repeatLoop_never_ends (mem : Memory) (rounds : Nat) :
    ∀ iid state, iid < 2 ^ 32 →
      repeatLoop mem rounds iid (2 ^ 32 - 1) state = none := by
  induction rounds with
  | zero =>
      intro iid state _
      rfl
  | succ rounds inductionHypothesis =>
      intro iid state bound
      unfold repeatLoop
      rw [if_pos (by omega)]
      have next : word32 (iid + 1) < 2 ^ 32 := Nat.mod_lt _ (by decide)
      simp only [inductionHypothesis _ _ next, Option.map_none]

/-- `evacceptor_handle_repeat` returns what its loop returns after enough
rounds. -/
theorem evacceptorHandleRepeat_eq_loop
    (mem : Memory) (a : EvAcceptor) {msg : PaxosRepeat}
    (firstBound : msg.first < 2 ^ 32) (lastBound : msg.last < 2 ^ 32) :
    ∃ enough, ∀ rounds, enough ≤ rounds →
      repeatLoop mem rounds msg.first msg.last a.state =
        (evacceptorHandleRepeat mem a msg).map fun result =>
          (result.1.state, result.2) := by
  unfold evacceptorHandleRepeat
  by_cases top : msg.last = 2 ^ 32 - 1
  · refine ⟨0, ?_⟩
    intro rounds _
    rw [if_pos top, top]
    exact repeatLoop_never_ends mem rounds _ _ firstBound
  · refine ⟨msg.last + 1 - msg.first + 1, ?_⟩
    intro rounds enough
    rw [if_neg top]
    exact repeatLoop_eq_instances mem (by omega) rounds _ _ enough

/-- The messages of the loop are the records with a value. -/
theorem repeatInstances_eq
    {a : MemAcceptor} (inv : a.Inv) (mem : Memory) (iids : List Nat) :
    repeatInstances mem iids a =
      (a, (a.holding iids).map fun accepted =>
        ⟨.sender, .accepted accepted⟩) := by
  induction iids with
  | nil => rfl
  | cons iid rest inductionHypothesis =>
      simp only [repeatInstances, receiveRepeat_eq_filter inv,
        inductionHypothesis, MemAcceptor.holding, List.filterMap_cons]
      cases (a.store.records iid).filter fun record =>
          decide (0 < record.value.len) with
      | none => rfl
      | some record => rfl

/-- In every state that an acceptor over memory storage reaches, a repeat is
answered completely and the loop ends exactly when the last instance asked for
is not the largest 32-bit number. -/
theorem repeat_answered_iff
    {id subordinates : Nat} {past : List AcceptorTransition}
    {a : MemAcceptor}
    (trace : Trace memAcceptorStep (memAcceptorNew id subordinates) past a)
    (mem : Memory) (msg : PaxosRepeat)
    (firstBound : msg.first < 2 ^ 32) (lastBound : msg.last < 2 ^ 32) :
    AnswersRepeat mem a msg ↔ msg.last ≠ 2 ^ 32 - 1 := by
  have inv := (memAcceptor_trace_inv trace).1
  constructor
  · rintro ⟨rounds, ended⟩ top
    rw [top, repeatLoop_never_ends mem rounds _ _ firstBound] at ended
    cases ended
  · intro below
    refine ⟨msg.last + 1 - msg.first + 1, ?_⟩
    rw [repeatLoop_eq_instances mem (by omega) _ _ _ (Nat.lt_succ_self _),
      repeatInstances_eq inv]

/-- An acceptor that has accepted a value for instance 2. -/
def acceptedSecond : MemAcceptor :=
  (acceptorReceiveAccept (memStorageApi Memory.zero) (memAcceptorNew 1 0)
    ⟨0, 2, 5, ⟨[7]⟩⟩).2

/-- A repeat of the instances 1 to 3, and one whose bounds are the wrong way
round. -/
theorem repeat_answered_after_accept :
    AnswersRepeat Memory.zero acceptedSecond ⟨1, 3⟩ ∧
      AnswersRepeat Memory.zero acceptedSecond ⟨3, 1⟩ := by
  have trace : Trace memAcceptorStep (memAcceptorNew 1 0) _ acceptedSecond :=
    trace_of_runFrom memAcceptorStep (memAcceptorNew 1 0)
      [(Memory.zero, .receiveAccept ⟨0, 2, 5, ⟨[7]⟩⟩)] rfl
  exact ⟨(repeat_answered_iff trace _ _ (by decide) (by decide)).mpr (by decide),
    (repeat_answered_iff trace _ _ (by decide) (by decide)).mpr (by decide)⟩

/-- A repeat up to the largest instance keeps the acceptor in the loop, and no
number of rounds ends it. -/
theorem repeat_of_all_unanswered :
    ¬ AnswersRepeat Memory.zero (memAcceptorNew 1 0) ⟨1, 2 ^ 32 - 1⟩ := by
  rintro ⟨rounds, ended⟩
  rw [repeatLoop_never_ends Memory.zero rounds _ _ (by decide)] at ended
  cases ended

end LibPaxos
