import LibPaxos.Proposer.Trimming

/-!
# The proposer of a replica

The callbacks of `evproposer.c`.  Each message that arrives from an acceptor or
a client goes to the callback subscribed for its type, which calls into the
proposer and then `try_accept`.  A callback returns the messages that it hands
to `peers_foreach_acceptor`, in order.

The `while` loop of `try_accept` has a bound on its rounds here.  Each round but
the last moves an instance out of the table of waiting instances, so a bound
above the size of that table is never reached.
-/

namespace LibPaxos

open LibPaxos.Library

/-- `struct evproposer`, without its peers and its timer. -/
structure EvProposer where
  id : Nat
  preexecWindow : Int
  state : Proposer

def evproposerInitInternal (id acceptorCount : Nat) (preexecWindow : Int) :
    EvProposer :=
  ⟨id, preexecWindow, proposerNew id acceptorCount⟩

def proposerNoValues (p : Proposer) : Bool :=
  carrayEmpty p.values.val

/-- The loop of `proposer_preexecute`: `count` more instances, from round `i`
on. -/
def preexecuteLoop (now : Nat → Int) :
    Nat → Nat → Proposer → Option (List PaxosPrepare × Proposer)
  | _, 0, p => some ([], p)
  | i, count + 1, p =>
      match proposerPrepare (now i) p with
      | none => none
      | some (pr, p) =>
          (preexecuteLoop now (i + 1) count p).map fun (rest, p) =>
            (pr :: rest, p)

def proposerPreexecute (now : Nat → Int) (preexecWindow : Int)
    (p : Proposer) : Option (List PaxosPrepare × Proposer) :=
  if proposerNoValues p then
    some ([], p)
  else
    let count := preexecWindow - proposerPreparedCount p
    if count ≤ 0 then
      some ([], p)
    else
      preexecuteLoop now 0 count.toNat p

/-- The loop of `try_accept`, of at most `rounds` rounds. -/
def acceptLoop : Nat → Proposer → Option (List PaxosAccept × Proposer)
  | 0, _ => none
  | rounds + 1, p =>
      match proposerAccept p with
      | none => none
      | some (none, p) => some ([], p)
      | some (some accept, p) =>
          (acceptLoop rounds p).map fun (rest, p) => (accept :: rest, p)

def tryAccept (now : Nat → Int) (p : EvProposer) :
    Option (List PaxosMessage × EvProposer) :=
  match acceptLoop (p.state.prepareInstances.size + 1) p.state with
  | none => none
  | some (accepts, state) =>
      (proposerPreexecute now p.preexecWindow state).map
        fun (prepares, state) =>
          (accepts.map .accept ++ prepares.map .prepare,
            { p with state := state })

/-- `evproposer_handle_promise`; the log line reads `aids[0]`. -/
def evproposerHandlePromise (clock now : Nat → Int) (p : EvProposer)
    (pro : PaxosPromise) : Option (List PaxosMessage × EvProposer) :=
  match proposerReceivePromise clock p.state pro, pro.aids[0]? with
  | some (prepare, state), some _ =>
      (tryAccept now { p with state := state }).map fun (sent, p) =>
        (prepare.toList.map .prepare ++ sent, p)
  | _, _ => none

def evproposerHandleAccepted (now : Nat → Int) (p : EvProposer)
    (acc : PaxosAccepted) : Option (List PaxosMessage × EvProposer) :=
  match proposerReceiveAccepted p.state acc with
  | none => none
  | some (true, _, state) => tryAccept now { p with state := state }
  | some (false, _, state) => some ([], { p with state := state })

def evproposerHandlePreempted (clock : Int) (now : Nat → Int)
    (p : EvProposer) (preempted : PaxosPreempted) :
    Option (List PaxosMessage × EvProposer) :=
  match proposerReceivePreempted clock p.state preempted with
  | none => none
  | some (none, state) => some ([], { p with state := state })
  | some (some prepare, state) =>
      (tryAccept now { p with state := state }).map fun (sent, p) =>
        (.prepare prepare :: sent, p)

def evproposerHandleClientValue (now : Nat → Int) (p : EvProposer)
    (v : PaxosClientValue) : Option (List PaxosMessage × EvProposer) :=
  tryAccept now { p with state := proposerPropose p.state v.value }

def evproposerHandleAcceptorState (p : EvProposer)
    (state : PaxosAcceptorState) : EvProposer :=
  { p with state := (proposerReceiveAcceptorState p.state state).2 }

/-- `evproposer_check_timeouts`, which returns at once. -/
def evproposerCheckTimeouts (p : EvProposer) : EvProposer :=
  p

def evproposerPreexecOnce (now : Nat → Int) (p : EvProposer) :
    Option (List PaxosMessage × EvProposer) :=
  (proposerPreexecute now p.preexecWindow p.state).map
    fun (prepares, state) =>
      (prepares.map .prepare, { p with state := state })

def evproposerSetInstanceId (p : EvProposer) (iid : Nat) : EvProposer :=
  { p with state := (proposerSetInstanceId p.state iid).2 }

/-- A callback of the proposer, or a new bucket order of its tables. -/
inductive EvProposerOp where
  | handlePromise (clock now : Nat → Int) (pro : PaxosPromise)
  | handleAccepted (now : Nat → Int) (acc : PaxosAccepted)
  | handlePreempted (clock : Int) (now : Nat → Int)
      (preempted : PaxosPreempted)
  | handleClientValue (now : Nat → Int) (v : PaxosClientValue)
  | handleAcceptorState (state : PaxosAcceptorState)
  | checkTimeouts
  | preexecOnce (now : Nat → Int)
  | setInstanceId (iid : Nat)
  | rehash (prepareInstances acceptInstances : Table Nat ProposerInstance)

def evproposerStep (p : EvProposer) :
    EvProposerOp → Option (EvProposer × List PaxosMessage)
  | .handlePromise clock now pro =>
      (evproposerHandlePromise clock now p pro).map Prod.swap
  | .handleAccepted now acc =>
      (evproposerHandleAccepted now p acc).map Prod.swap
  | .handlePreempted clock now preempted =>
      (evproposerHandlePreempted clock now p preempted).map Prod.swap
  | .handleClientValue now v =>
      (evproposerHandleClientValue now p v).map Prod.swap
  | .handleAcceptorState state =>
      some (evproposerHandleAcceptorState p state, [])
  | .checkTimeouts => some (evproposerCheckTimeouts p, [])
  | .preexecOnce now => (evproposerPreexecOnce now p).map Prod.swap
  | .setInstanceId iid => some (evproposerSetInstanceId p iid, [])
  | .rehash prepareInstances acceptInstances =>
      (proposerStep p.state (.rehash prepareInstances acceptInstances)).map
        fun (state, _) => ({ p with state := state }, [])

abbrev EvProposerTransition : Type :=
  Transition EvProposer EvProposerOp (List PaxosMessage)

/-- The instance ids that a callback brings in are 32-bit numbers. -/
def EvProposerOp.Iids32 : EvProposerOp → Prop
  | .handleAcceptorState state => state.trimIid < 2 ^ 32
  | .setInstanceId iid => iid < 2 ^ 32
  | _ => True

/-- The proposer goes from one state to another through calls with 32-bit
instance ids. -/
def Proposer.Calls (p after : Proposer) : Prop :=
  ∃ past : List ProposerTransition,
    Trace proposerStep p past after ∧
      ∀ current ∈ past, current.input.Iids32

namespace Proposer.Calls

variable {p middle after : Proposer}

theorem refl (p : Proposer) : p.Calls p :=
  ⟨[], .nil, by simp⟩

theorem trans (first : p.Calls middle) (second : middle.Calls after) :
    p.Calls after := by
  obtain ⟨past, trace, sized⟩ := first
  obtain ⟨future, later, laterSized⟩ := second
  exact ⟨past ++ future, trace.trans later,
    List.forall_mem_append.mpr ⟨sized, laterSized⟩⟩

theorem single
    {op : ProposerOp} {result : ProposerResult}
    (stepEq : proposerStep p op = some (after, result))
    (sized : op.Iids32) :
    p.Calls after :=
  ⟨_, Trace.nil.snoc stepEq, by simpa using sized⟩

end Proposer.Calls

section Callbacks

theorem preexecuteLoop_calls
    {now : Nat → Int} (count : Nat) :
    ∀ {i : Nat} {p after : Proposer} {prepares : List PaxosPrepare},
      preexecuteLoop now i count p = some (prepares, after) →
      p.Calls after := by
  induction count with
  | zero =>
      intro i p after prepares ran
      cases ran
      exact .refl p
  | succ count inductionHypothesis =>
      intro i p after prepares ran
      rw [preexecuteLoop] at ran
      split at ran
      · cases ran
      · next pr next prepared =>
          obtain ⟨⟨rest, last⟩, looped, equal⟩ := Option.map_eq_some_iff.mp ran
          cases equal
          have stepEq : proposerStep p (.prepare (now i)) =
              some (next, ⟨some (.prepare pr), []⟩) := by
            rw [proposerStep, prepared]
            rfl
          exact (Proposer.Calls.single stepEq trivial).trans
            (inductionHypothesis looped)

theorem proposerPreexecute_calls
    {now : Nat → Int} {window : Int} {p after : Proposer}
    {prepares : List PaxosPrepare}
    (ran : proposerPreexecute now window p = some (prepares, after)) :
    p.Calls after := by
  unfold proposerPreexecute at ran
  split at ran
  · cases ran
    exact .refl p
  · simp only at ran
    split at ran
    · cases ran
      exact .refl p
    · exact preexecuteLoop_calls _ ran

theorem acceptLoop_calls (rounds : Nat) :
    ∀ {p after : Proposer} {accepts : List PaxosAccept},
      acceptLoop rounds p = some (accepts, after) → p.Calls after := by
  induction rounds with
  | zero =>
      intro p after accepts ran
      cases ran
  | succ rounds inductionHypothesis =>
      intro p after accepts ran
      rw [acceptLoop] at ran
      split at ran
      · cases ran
      · next next accepted =>
          cases ran
          have stepEq : proposerStep p .accept =
              some (after, ⟨none, []⟩) := by
            rw [proposerStep, accepted]
            rfl
          exact .single stepEq trivial
      · next accept next accepted =>
          obtain ⟨⟨rest, last⟩, looped, equal⟩ := Option.map_eq_some_iff.mp ran
          cases equal
          have stepEq : proposerStep p .accept =
              some (next, ⟨some (.accept accept), []⟩) := by
            rw [proposerStep, accepted]
            rfl
          exact (Proposer.Calls.single stepEq trivial).trans
            (inductionHypothesis looped)

/-- A callback only calls into the proposer and leaves the window alone. -/
structure EvProposer.Advances (p after : EvProposer) : Prop where
  calls : p.state.Calls after.state
  window : after.preexecWindow = p.preexecWindow

variable {p after : EvProposer} {sent : List PaxosMessage}

theorem tryAccept_advances
    {now : Nat → Int} (ran : tryAccept now p = some (sent, after)) :
    p.Advances after := by
  unfold tryAccept at ran
  split at ran
  · cases ran
  · next accepts state looped =>
      obtain ⟨⟨prepares, last⟩, refilled, equal⟩ :=
        Option.map_eq_some_iff.mp ran
      cases equal
      exact ⟨(acceptLoop_calls _ looped).trans
        (proposerPreexecute_calls refilled), rfl⟩

/-- A call into the proposer and then `try_accept`. -/
theorem EvProposer.Advances.of_tryAccept
    {now : Nat → Int} {op : ProposerOp} {result : ProposerResult}
    {state : Proposer}
    (stepEq : proposerStep p.state op = some (state, result))
    (sized : op.Iids32)
    (ran : tryAccept now { p with state := state } = some (sent, after)) :
    p.Advances after := by
  have advances := tryAccept_advances ran
  exact ⟨(Proposer.Calls.single stepEq sized).trans advances.calls,
    advances.window⟩

theorem evproposerHandlePromise_advances
    {clock now : Nat → Int} {pro : PaxosPromise}
    (ran : evproposerHandlePromise clock now p pro = some (sent, after)) :
    p.Advances after := by
  unfold evproposerHandlePromise at ran
  split at ran
  · next prepare state aid received _ =>
      obtain ⟨⟨rest, last⟩, tried, equal⟩ := Option.map_eq_some_iff.mp ran
      cases equal
      have stepEq : proposerStep p.state (.receivePromise clock pro) =
          some (state, ⟨prepare.map .prepare, []⟩) := by
        rw [proposerStep, received]
        rfl
      exact .of_tryAccept stepEq trivial tried
  · cases ran

theorem evproposerHandleAccepted_advances
    {now : Nat → Int} {acc : PaxosAccepted}
    (ran : evproposerHandleAccepted now p acc = some (sent, after)) :
    p.Advances after := by
  unfold evproposerHandleAccepted at ran
  split at ran
  · cases ran
  · next retired state received =>
      have stepEq : proposerStep p.state (.receiveAccepted acc) =
          some (state, ⟨none, retired⟩) := by
        rw [proposerStep, received]
        rfl
      exact .of_tryAccept stepEq trivial ran
  · next retired state received =>
      cases ran
      have stepEq : proposerStep p.state (.receiveAccepted acc) =
          some (state, ⟨none, retired⟩) := by
        rw [proposerStep, received]
        rfl
      exact ⟨.single stepEq trivial, rfl⟩

theorem evproposerHandlePreempted_advances
    {clock : Int} {now : Nat → Int} {preempted : PaxosPreempted}
    (ran : evproposerHandlePreempted clock now p preempted =
      some (sent, after)) :
    p.Advances after := by
  unfold evproposerHandlePreempted at ran
  split at ran
  · cases ran
  · next state received =>
      cases ran
      have stepEq : proposerStep p.state (.receivePreempted clock preempted) =
          some (state, ⟨none, []⟩) := by
        rw [proposerStep, received]
        rfl
      exact ⟨.single stepEq trivial, rfl⟩
  · next prepare state received =>
      obtain ⟨⟨rest, last⟩, tried, equal⟩ := Option.map_eq_some_iff.mp ran
      cases equal
      have stepEq : proposerStep p.state (.receivePreempted clock preempted) =
          some (state, ⟨some (.prepare prepare), []⟩) := by
        rw [proposerStep, received]
        rfl
      exact .of_tryAccept stepEq trivial tried

theorem evproposerStep_advances
    {op : EvProposerOp} (sized : op.Iids32)
    (stepEq : evproposerStep p op = some (after, sent)) :
    p.Advances after := by
  cases op with
  | handlePromise clock now pro =>
      obtain ⟨result, ran, equal⟩ := Option.map_eq_some_iff.mp stepEq
      cases equal
      exact evproposerHandlePromise_advances ran
  | handleAccepted now acc =>
      obtain ⟨result, ran, equal⟩ := Option.map_eq_some_iff.mp stepEq
      cases equal
      exact evproposerHandleAccepted_advances ran
  | handlePreempted clock now preempted =>
      obtain ⟨result, ran, equal⟩ := Option.map_eq_some_iff.mp stepEq
      cases equal
      exact evproposerHandlePreempted_advances ran
  | handleClientValue now v =>
      obtain ⟨result, ran, equal⟩ := Option.map_eq_some_iff.mp stepEq
      cases equal
      have proposed : proposerStep p.state (.propose v.value) =
          some (proposerPropose p.state v.value, ⟨none, []⟩) :=
        rfl
      exact .of_tryAccept proposed trivial ran
  | handleAcceptorState state =>
      cases stepEq
      have received : proposerStep p.state (.receiveAcceptorState state) =
          some ((proposerReceiveAcceptorState p.state state).2,
            ⟨none, (proposerReceiveAcceptorState p.state state).1⟩) :=
        rfl
      exact ⟨.single received sized, rfl⟩
  | checkTimeouts =>
      cases stepEq
      exact ⟨.refl _, rfl⟩
  | preexecOnce now =>
      obtain ⟨result, ran, equal⟩ := Option.map_eq_some_iff.mp stepEq
      cases equal
      obtain ⟨⟨prepares, state⟩, refilled, equal⟩ :=
        Option.map_eq_some_iff.mp ran
      cases equal
      exact ⟨proposerPreexecute_calls refilled, rfl⟩
  | setInstanceId iid =>
      cases stepEq
      have moved : proposerStep p.state (.setInstanceId iid) =
          some ((proposerSetInstanceId p.state iid).2,
            ⟨none, (proposerSetInstanceId p.state iid).1⟩) :=
        rfl
      exact ⟨.single moved sized, rfl⟩
  | rehash prepareInstances acceptInstances =>
      obtain ⟨⟨state, result⟩, reordered, equal⟩ :=
        Option.map_eq_some_iff.mp stepEq
      cases equal
      exact ⟨.single reordered trivial, rfl⟩

end Callbacks

section Run

variable {id acceptors : Nat} {window : Int}
variable {past : List EvProposerTransition} {p : EvProposer}

/-- The proposer inside a replica is one that its own calls lead to. -/
theorem evproposer_trace_calls
    (trace : Trace evproposerStep (evproposerInitInternal id acceptors window)
      past p)
    (sized : ∀ current ∈ past, current.input.Iids32) :
    (proposerNew id acceptors).Calls p.state ∧ p.preexecWindow = window := by
  induction trace with
  | nil => exact ⟨.refl _, rfl⟩
  | snoc earlier stepEq inductionHypothesis =>
      rw [List.forall_mem_append, List.forall_mem_singleton] at sized
      obtain ⟨calls, sameWindow⟩ := inductionHypothesis sized.1
      have advances := evproposerStep_advances sized.2 stepEq
      exact ⟨calls.trans advances.calls, advances.window.trans sameWindow⟩

end Run

end LibPaxos
