import LibPaxos.Evpaxos.GroupNetwork
import LibPaxos.Network.Validity

/-!
# Safety of a group of replicas

The run of the flat network that describes a run of the replicas proposes only
values that came from clients, and stores only accepts that were answered.  So
the replicas deliver, in order, values of clients that a majority has accepted,
and where the values of clients come to one replica only, they all deliver the
same values.
-/

namespace LibPaxos

open LibPaxos.Library

/-- A value of a client has arrived at a replica. -/
def ValueCame (past : List GroupTransition) (id : Nat) (value : PaxosValue) :
    Prop :=
  ∃ current ∈ past, current.input.handled = some (id, .clientValue ⟨value⟩)

/-- A replica has answered an accept with its acceptance. -/
def AcceptanceSent (past : List GroupTransition) (aid : Nat)
    (req : PaxosAccept) : Prop :=
  ∃ current ∈ past, current.input.handled = some (aid, .accept req) ∧
    ⟨.clients, .accepted (paxosAcceptToAccepted aid req)⟩ ∈
      current.output.sent

/-- A run of the network that describes the run of the group so far. -/
structure Group.Tracks (c : EvpaxosConfig) (window : Int)
    (past : List GroupTransition) (s : Group)
    (history : List NetworkTransition) (net : Network) : Prop where
  isMatch : s.Matches c window net
  delivers : ∀ id, deliveredBy id history = deliveredAt id past
  proposed : ∀ current ∈ history, ∀ id value,
    current.input = .proposer id (.propose value) → ValueCame past id value
  answered : ∀ aid req, Stored history aid req → AcceptanceSent past aid req
  opens : ∀ current ∈ history,
    current.source.opensForValues current.input = true

theorem ValueCame.append
    {past : List GroupTransition} {id : Nat} {value : PaxosValue}
    (came : ValueCame past id value) (later : List GroupTransition) :
    ValueCame (past ++ later) id value := by
  obtain ⟨current, member, rest⟩ := came
  exact ⟨current, List.mem_append_left _ member, rest⟩

theorem AcceptanceSent.append
    {past : List GroupTransition} {aid : Nat} {req : PaxosAccept}
    (isSent : AcceptanceSent past aid req) (later : List GroupTransition) :
    AcceptanceSent (past ++ later) aid req := by
  obtain ⟨current, member, rest⟩ := isSent
  exact ⟨current, List.mem_append_left _ member, rest⟩

theorem deliveredAt_snoc (id : Nat) (past : List GroupTransition)
    (current : GroupTransition) :
    deliveredAt id (past ++ [current]) = deliveredAt id past ++
      if current.input.place = some id then current.output.delivered
      else [] := by
  simp only [deliveredAt, List.flatMap_append, List.flatMap_cons,
    List.flatMap_nil, List.append_nil]

/-- Only an accept makes the acceptor store an accept. -/
theorem PaxosMessage.accept_of_acceptorOp
    {message : PaxosMessage} {req : PaxosAccept}
    (calls : message.acceptorOp = some (.receiveAccept req)) :
    message = .accept req := by
  cases message with
  | accept other =>
      cases calls
      rfl
  | _ => cases calls

section Tracked

variable {c : EvpaxosConfig} {window : Int} {past : List GroupTransition}

/-- A loss changes nothing that is tracked. -/
theorem Group.Tracks.quiet
    {s : Group} {history : List NetworkTransition} {net : Network}
    {current : GroupTransition}
    (tracks : s.Tracks c window past history net)
    (isMatch : current.target.Matches c window net)
    (nothing : current.output.delivered = []) :
    current.target.Tracks c window (past ++ [current]) history net where
  isMatch := isMatch
  delivers := by
    intro id
    rw [deliveredAt_snoc, nothing, ite_self, List.append_nil]
    exact tracks.delivers id
  proposed := fun event member id value isPropose =>
    (tracks.proposed event member id value isPropose).append _
  answered := fun aid req stored => (tracks.answered aid req stored).append _
  opens := tracks.opens

/-- The turn of a replica is tracked by its run of the network. -/
theorem Group.Tracks.turn
    {s : Group} {history more : List NetworkTransition} {net after : Network}
    {current : GroupTransition} {id : Nat} {handled : Option PaxosMessage}
    {next : Replica}
    (tracks : s.Tracks c window past history net)
    (isMatch : current.target.Matches c window after)
    (isPlace : current.input.place = some id)
    (isHandled : current.input.handled =
      handled.map fun message => (id, message))
    (turn : next.Turn c window id handled net current.output more after) :
    current.target.Tracks c window (past ++ [current]) (history ++ more)
      after where
  isMatch := isMatch
  delivers := by
    intro other
    rw [deliveredAt_snoc, deliveredBy_append, tracks.delivers other, isPlace]
    by_cases own : id = other
    · subst own
      rw [turn.delivers, if_pos rfl]
    · have nothing : deliveredBy other more = [] := by
        apply deliveredBy_eq_nil
        intro event member op isLearner
        exact own ((turn.calls event member).learner other op isLearner).symm
      have different : some id ≠ some other := fun same =>
        own (Option.some.inj same)
      rw [nothing, if_neg different]
  proposed := by
    intro event member proposer value isPropose
    rcases List.mem_append.mp member with old | new
    · exact (tracks.proposed event old proposer value isPropose).append _
    · have call := turn.calls event new
      obtain rfl := call.proposer proposer _ isPropose
      have isValue := call.proposes proposer value isPropose
      refine ⟨current, List.mem_append_right _ (List.mem_singleton_self _), ?_⟩
      rw [isHandled, isValue, Option.map_some]
  answered := by
    intro aid req stored
    rcases stored_append stored with old | new
    · exact (tracks.answered aid req old).append _
    · have isSent := turn.answers aid req new
      obtain ⟨event, member, mem, isAcceptor, _⟩ := new
      obtain ⟨rfl, message, isMessage, isOp⟩ :=
        (turn.calls event member).acceptor aid _ isAcceptor
      obtain rfl := PaxosMessage.accept_of_acceptorOp isOp
      refine ⟨current, List.mem_append_right _ (List.mem_singleton_self _), ?_,
        isSent⟩
      rw [isHandled, isMessage, Option.map_some]
  opens := by
    intro event member
    rcases List.mem_append.mp member with old | new
    · exact tracks.opens event old
    · exact (turn.calls event new).opens

/-- In every run without delegates, while the proposers have room, the group is
described by a run of the network. -/
theorem group_tracked
    {start final : Group} (flat : c.Flat) (initial : start.Initial c window)
    (trace : Trace (groupStep c) start past final)
    (room : ∀ current ∈ past,
      current.source.roomy c.acceptors.length = true) :
    ∃ history net, Trace (networkStep c.acceptors.length)
        (networkNew c.acceptors.length) history net ∧
      final.Tracks c window past history net := by
  apply trace.matched
    (fun past s history net => s.Tracks c window past history net)
    (fun current => current.source.roomy c.acceptors.length = true)
    ?_ ?_ room
  · refine ⟨initial.isMatch flat, fun _ => rfl, ?_, ?_, ?_⟩
    · intro current member
      cases member
    · rintro aid req ⟨current, member, _⟩
      cases member
    · intro current member
      cases member
  · intro past current history net reached tracks roomy stepEq
    rcases tracks.isMatch.step flat reached roomy stepEq with
      ⟨_, _, nothing, isMatch⟩ |
      ⟨id, handled, next, more, after, isPlace, isHandled, turn, isMatch⟩
    · refine ⟨[], net, .nil, ?_⟩
      rw [List.append_nil]
      exact tracks.quiet isMatch nothing
    · exact ⟨more, after, turn.trace,
        tracks.turn isMatch isPlace isHandled turn⟩

/-! ### Deliveries -/

/-- Only an acknowledgement makes a replica deliver. -/
theorem replicaStep_delivered
    {r next : Replica} {op : ReplicaOp} {result : ReplicaResult}
    (ran : replicaStep r op = some (next, result))
    (delivers : result.delivered ≠ []) :
    ∃ env ack, op = .receive env (.accepted ack) := by
  have silent : ∀ event, r.proposerEvent event = some (next, result) →
      result.delivered = [] := by
    intro event handled
    rw [Replica.proposerEvent] at handled
    split at handled
    · cases handled
    · obtain ⟨_, _, equal⟩ := Option.map_eq_some_iff.mp handled
      cases equal
      rfl
  cases op with
  | receive env message =>
      obtain ⟨⟨_, _⟩, _, rest⟩ := Option.bind_eq_some_iff.mp ran
      obtain ⟨⟨_, middle⟩, _, rest⟩ := Option.bind_eq_some_iff.mp rest
      obtain ⟨⟨delivered, _⟩, learned, equal⟩ := Option.map_eq_some_iff.mp rest
      cases equal
      cases message with
      | accepted ack => exact ⟨env, ack, rfl⟩
      | _ =>
          cases learned
          exact absurd rfl delivers
  | preexecOnce now => exact absurd (silent _ ran) delivers
  | rehash prepareInstances acceptInstances =>
      exact absurd (silent _ ran) delivers
  | submit status value =>
      obtain ⟨_, _, equal⟩ := Option.map_eq_some_iff.mp ran
      cases equal
      exact absurd rfl delivers
  | sendTrim iid =>
      cases ran
      exact absurd rfl delivers
  | setInstanceId iid =>
      cases ran
      exact absurd rfl delivers

theorem groupStep_delivered
    {s target : Group} {op : GroupOp} {result : ReplicaResult}
    (stepEq : groupStep c s op = some (target, result))
    (delivers : result.delivered ≠ []) :
    ∃ id ack, op.place = some id ∧
      op.handled = some (id, .accepted ack) := by
  have acts : ∀ (s : Group) (id : Nat) sender event,
      s.act c id sender event = some (target, result) →
      ∃ env ack, event = .receive env (.accepted ack) := by
    intro s id sender event acted
    obtain ⟨⟨next, out⟩, ran, equal⟩ := Option.map_eq_some_iff.mp acted
    cases equal
    exact replicaStep_delivered ran delivers
  cases op with
  | lose packet =>
      cases stepEq
      exact absurd rfl delivers
  | receive env packet =>
      rw [groupStep] at stepEq
      split at stepEq
      · obtain ⟨_, ack, same⟩ := acts _ _ _ _ stepEq
        injection same with _ isMessage
        refine ⟨packet.receiver, ack, rfl, ?_⟩
        rw [GroupOp.handled, isMessage]
      · cases stepEq
  | client env id message =>
      rw [groupStep] at stepEq
      split at stepEq
      · obtain ⟨_, ack, same⟩ := acts _ _ _ _ stepEq
        injection same with _ isMessage
        refine ⟨id, ack, rfl, ?_⟩
        rw [GroupOp.handled, isMessage]
      · cases stepEq
  | event id op =>
      rw [groupStep] at stepEq
      split at stepEq
      · next happens =>
          obtain ⟨env, ack, rfl⟩ := acts _ _ _ _ stepEq
          cases happens.1
      · cases stepEq

section Before

variable {current : GroupTransition} {id : Nat}

theorem ValueCame.before
    {value : PaxosValue} (came : ValueCame (past ++ [current]) id value)
    (other : current.input.handled ≠ some (id, .clientValue ⟨value⟩)) :
    ValueCame past id value := by
  obtain ⟨event, member, handled⟩ := came
  rw [List.mem_append, List.mem_singleton] at member
  rcases member with earlier | rfl
  · exact ⟨event, earlier, handled⟩
  · exact absurd handled other

theorem AcceptanceSent.before
    {req : PaxosAccept} (isSent : AcceptanceSent (past ++ [current]) id req)
    (other : current.input.handled ≠ some (id, .accept req)) :
    AcceptanceSent past id req := by
  obtain ⟨event, member, handled, rest⟩ := isSent
  rw [List.mem_append, List.mem_singleton] at member
  rcases member with earlier | rfl
  · exact ⟨event, earlier, handled, rest⟩
  · exact absurd handled other

end Before

/-! ### Main results -/

section Results

variable {start final : Group}

/-- In every run of a group without delegates, while the proposers have room, the
replicas are the parties of a run of the flat network, and each replica delivers
what its learner delivers there. -/
theorem group_refines_network
    (flat : c.Flat) (initial : start.Initial c window)
    (trace : Trace (groupStep c) start past final)
    (room : ∀ current ∈ past,
      current.source.roomy c.acceptors.length = true) :
    ∃ history net, Trace (networkStep c.acceptors.length)
        (networkNew c.acceptors.length) history net ∧
      final.Matches c window net ∧
      ∀ id, deliveredBy id history = deliveredAt id past := by
  obtain ⟨history, net, reached, tracks⟩ :=
    group_tracked flat initial trace room
  exact ⟨history, net, reached, tracks.isMatch, tracks.delivers⟩

/-- A replica delivers the instances from one on, each once and without a gap.
When it delivers a value, the value has come from a client before, and a majority
has answered one accept of it with acceptances. -/
theorem replicas_deliver_what_majorities_accept
    (flat : c.Flat) (initial : start.Initial c window)
    (trace : Trace (groupStep c) start past final)
    (room : ∀ current ∈ past,
      current.source.roomy c.acceptors.length = true) :
    (∀ id, (deliveredAt id past).map Prod.fst =
      List.range' 1 (deliveredAt id past).length) ∧
    ∀ before current after, past = before ++ current :: after →
      ∀ iid value, (iid, value) ∈ current.output.delivered →
        (∃ id, ValueCame before id value) ∧
        ∃ req : PaxosAccept, req.iid = iid ∧ req.value = value ∧
          ∃ voters : Finset Nat,
            c.acceptors.length / 2 + 1 ≤ voters.card ∧
            ∀ voter ∈ voters, voter < c.acceptors.length ∧
              AcceptanceSent before voter req := by
  constructor
  · intro id
    obtain ⟨history, net, reached, tracks⟩ :=
      group_tracked flat initial trace room
    rw [← tracks.delivers id]
    exact deliveredBy_numbered reached id
  · rintro before current after rfl iid value isDelivered
    obtain ⟨earlier, stepEq⟩ := trace.split
    obtain ⟨id, ack, isPlace, isHandled⟩ := groupStep_delivered stepEq
      (List.ne_nil_of_mem isDelivered)
    obtain ⟨history, net, reached, tracks⟩ :=
      group_tracked flat initial (earlier.snoc stepEq)
        (by
          intro event member
          apply room
          rw [List.mem_append, List.mem_singleton] at member
          rcases member with old | rfl
          · exact List.mem_append_left _ old
          · exact List.mem_append_right _ (List.mem_cons_self ..))
    have member : (iid, value) ∈ deliveredBy id history := by
      rw [tracks.delivers id, deliveredAt_snoc, if_pos isPlace]
      exact List.mem_append_right _ isDelivered
    obtain ⟨req, sameIid, rfl, voters, enough, stored⟩ :=
      deliveredBy_stored reached member
    -- What is delivered now was stored and proposed by earlier events.
    have accepted : ∀ voter ∈ voters, AcceptanceSent before voter req := by
      intro voter isVoter
      apply (tracks.answered voter req (stored voter isVoter).2).before
      rw [isHandled]
      intro same
      cases same
    obtain ⟨voter, isVoter⟩ := Finset.card_pos.mp
      (Nat.lt_of_lt_of_le (Nat.succ_pos _) enough)
    obtain ⟨event, eventMember, proposer, isPropose⟩ :=
      (network_genuine reached).accepts req
        ((network_backed reached).asked voter req (stored voter isVoter).2).2
    refine ⟨⟨proposer, ?_⟩, req, sameIid, rfl, voters, enough, ?_⟩
    · apply (tracks.proposed event eventMember proposer _ isPropose).before
      rw [isHandled]
      intro same
      cases same
    · intro voter isVoter
      exact ⟨(stored voter isVoter).1, accepted voter isVoter⟩

/-- Whether the event does not bring a value of a client to another replica. -/
def GroupOp.valuesOnlyTo (r : Nat) (op : GroupOp) : Bool :=
  match op.handled with
  | some (id, .clientValue _) => decide (id = r)
  | _ => true

/-- Where the values of clients come to one replica, of any two replicas one has
delivered what the other has, or only the first part of it. -/
theorem replicas_agree_with_one_entry
    (flat : c.Flat) (initial : start.Initial c window)
    (trace : Trace (groupStep c) start past final)
    (room : ∀ current ∈ past,
      current.source.roomy c.acceptors.length = true)
    {r : Nat}
    (only : ∀ current ∈ past, current.input.valuesOnlyTo r = true)
    (left right : Nat) :
    deliveredAt left past <+: deliveredAt right past ∨
      deliveredAt right past <+: deliveredAt left past := by
  obtain ⟨history, net, reached, tracks⟩ :=
    group_tracked flat initial trace room
  have proposes : ∀ current ∈ history,
      current.input.proposesOnly r = true := by
    intro current member
    cases isInput : current.input with
    | proposer id op =>
        cases op with
        | propose value =>
            obtain ⟨event, eventMember, handled⟩ :=
              tracks.proposed current member id value isInput
            have own := only event eventMember
            rw [GroupOp.valuesOnlyTo, handled] at own
            exact own
        | _ => rfl
    | _ => rfl
  rw [← tracks.delivers left, ← tracks.delivers right]
  exact (network_sole reached proposes tracks.opens).deliveries_comparable reached
    left right

end Results

end Tracked

/-! ### A round of two replicas -/

/-- Two replicas without delegates. -/
def pairConfig : EvpaxosConfig := ⟨[⟨0, 0⟩, ⟨0, 0⟩]⟩

/-- A clock that stands still, and enough turns for one delivery. -/
def pairSurroundings : Surroundings :=
  ⟨Memory.zero, fun _ => 0, fun _ => 0, 2⟩

def pairPromise (aid : Nat) : PaxosPromise :=
  ⟨0, 1, maxNOfProposers, maxNOfProposers, 1, [aid], PaxosValue.empty,
    [PaxosValue.empty], [maxNOfProposers], [maxNOfProposers]⟩

def pairAccept (value : PaxosValue) : PaxosAccept :=
  ⟨0, 1, maxNOfProposers, value⟩

def pairAccepted (value : PaxosValue) (aid : Nat) : PaxosMessage :=
  .accepted (paxosAcceptToAccepted aid (pairAccept value))

/-- One value of a client until both replicas have delivered it. -/
def pairRound (value : PaxosValue) : List GroupOp :=
  .client pairSurroundings 0 (.clientValue ⟨value⟩) ::
    .event 0 (.preexecOnce fun _ => 0) ::
    [⟨0, 1, .prepare ⟨0, 1, maxNOfProposers⟩⟩,
      ⟨0, 0, .prepare ⟨0, 1, maxNOfProposers⟩⟩,
      ⟨1, 0, .promise (pairPromise 1)⟩,
      ⟨0, 0, .promise (pairPromise 0)⟩,
      ⟨0, 1, .accept (pairAccept value)⟩,
      ⟨0, 0, .accept (pairAccept value)⟩,
      ⟨1, 1, pairAccepted value 1⟩,
      ⟨0, 1, pairAccepted value 0⟩,
      ⟨1, 0, pairAccepted value 1⟩,
      ⟨0, 0, pairAccepted value 0⟩].map (GroupOp.receive pairSurroundings)

theorem pairRound_run :
    ∃ past final,
      Trace (groupStep pairConfig) (flatGroup pairConfig 1) past final ∧
      deliveredAt 0 past = [(1, ⟨[7]⟩)] ∧
      deliveredAt 1 past = [(1, ⟨[7]⟩)] ∧
      (∀ current ∈ past, current.source.roomy 2 = true) ∧
      ∀ current ∈ past, current.input.valuesOnlyTo 0 = true := by
  obtain ⟨past, final, ran, first, second, room, only⟩ : ∃ past final,
      Trace (groupStep pairConfig) (flatGroup pairConfig 1) past final ∧
      deliveredAt 0 past = [(1, ⟨[7]⟩)] ∧
      deliveredAt 1 past = [(1, ⟨[7]⟩)] ∧
      (past.all fun current => current.source.roomy 2) = true ∧
      (past.all fun current => current.input.valuesOnlyTo 0) = true :=
    ⟨_, _, trace_of_runFrom _ _ (pairRound ⟨[7]⟩) rfl, rfl, rfl, rfl, rfl⟩
  rw [List.all_eq_true] at room only
  exact ⟨past, final, ran, first, second, room, only⟩

/-- In the round the learners of the flat network deliver the value too. -/
theorem group_refines_network_pair :
    ∃ history net, Trace (networkStep 2) (networkNew 2) history net ∧
      deliveredBy 0 history = [(1, ⟨[7]⟩)] := by
  obtain ⟨past, final, ran, first, _, room, _⟩ := pairRound_run
  have flat : pairConfig.Flat := by decide
  obtain ⟨history, net, reached, _, delivers⟩ :=
    group_refines_network flat (flat.initial 1) ran room
  exact ⟨history, net, reached, (delivers 0).trans first⟩

/-- In the round both replicas have answered an accept of the value. -/
theorem replicas_deliver_what_majorities_accept_pair :
    ∃ past final,
      Trace (groupStep pairConfig) (flatGroup pairConfig 1) past final ∧
      ∃ req : PaxosAccept, req.iid = 1 ∧ req.value = ⟨[7]⟩ ∧
        ∃ voters : Finset Nat, 2 ≤ voters.card ∧
          ∀ voter ∈ voters, AcceptanceSent past voter req := by
  obtain ⟨past, final, ran, first, _, room, _⟩ := pairRound_run
  have flat : pairConfig.Flat := by decide
  have member : (1, ⟨[7]⟩) ∈ deliveredAt 0 past := by
    rw [first]
    exact List.mem_singleton_self _
  obtain ⟨current, currentMember, isDelivered⟩ := List.mem_flatMap.mp member
  split at isDelivered
  · obtain ⟨before, after, shape⟩ := List.mem_iff_append.mp currentMember
    obtain ⟨_, req, sameIid, sameValue, voters, enough, accepted⟩ :=
      (replicas_deliver_what_majorities_accept flat (flat.initial 1) ran
        room).2 before current after shape 1 ⟨[7]⟩ isDelivered
    refine ⟨past, final, ran, req, sameIid, sameValue, voters, enough, ?_⟩
    intro voter isVoter
    rw [shape]
    exact (accepted voter isVoter).2.append _
  · cases isDelivered

/-- In the round the two replicas agree. -/
theorem replicas_agree_with_one_entry_pair :
    ∃ past final,
      Trace (groupStep pairConfig) (flatGroup pairConfig 1) past final ∧
      deliveredAt 0 past = [(1, ⟨[7]⟩)] ∧
      (deliveredAt 0 past <+: deliveredAt 1 past ∨
        deliveredAt 1 past <+: deliveredAt 0 past) := by
  obtain ⟨past, final, ran, first, _, room, only⟩ := pairRound_run
  have flat : pairConfig.Flat := by decide
  exact ⟨past, final, ran, first,
    replicas_agree_with_one_entry flat (flat.initial 1) ran room only 0 1⟩

end LibPaxos
