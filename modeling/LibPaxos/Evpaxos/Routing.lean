import LibPaxos.Evpaxos.Hierarchy

/-!
# Replies retrace requests

Replies find their way back when the source of a request on its way is always
the replica that sent it.  A prepare is forwarded with the id of the delegate as
source; an accept is forwarded with the source it came with.
-/

namespace LibPaxos

open LibPaxos.Library

/-- What holds of the hierarchy after events that keep the source: every request
on the wire comes from the replica it names, and every record names the replica
that the last granted request came from.  Both are replicas that the receiver
has connected to. -/
structure HierarchyInv (c : EvpaxosConfig) (start : Hierarchy)
    (past : List HierarchyTransition) (s : Hierarchy) : Prop where
  node : ∀ id, (start.node id).Continues (s.node id)
  wire : ∀ packet ∈ s.wire, ∀ req, packet.message.request = some req →
    req.src = packet.sender ∧
      packet.sender ∈ (peersConnectToAcceptors c packet.receiver).peers ∧
      ∃ path, Route past packet (packet.sender :: path)
  record : ∀ id iid record,
    (s.node id).state.store.records iid = some record →
    ∃ sender, lastSender id iid past = some sender ∧ record.src = sender ∧
      sender ∈ (peersConnectToAcceptors c id).peers

section Run

variable {c : EvpaxosConfig} {subordinates : Nat → Nat}
variable {past : List HierarchyTransition} {s target : Hierarchy}
variable {op : HierarchyOp} {sent : List Send}

theorem hierarchyNew_continues (id : Nat) :
    ((hierarchyNew c subordinates).node id).Continues
      ((hierarchyNew c subordinates).node id) :=
  ⟨memAcceptorNew_inv id (subordinates id), rfl, rfl, rfl⟩

theorem hierarchyInv_initial :
    HierarchyInv c (hierarchyNew c subordinates) []
      (hierarchyNew c subordinates) where
  node := hierarchyNew_continues
  wire := by simp [hierarchyNew]
  record := by
    intro id iid record present
    cases present

theorem hierarchyStep_continues
    (continues : ∀ id,
      ((hierarchyNew c subordinates).node id).Continues (s.node id))
    (stepEq : hierarchyStep c s op = some (target, sent)) (id : Nat) :
    ((hierarchyNew c subordinates).node id).Continues (target.node id) := by
  rcases hierarchyStep_cases stepEq with
    ⟨packet, _, _, _, _, rfl⟩ | ⟨mem, other, message, after, _, _, handled, rfl, _⟩
  · exact continues id
  · by_cases same : id = other
    · subst same
      simp only [Function.update_self]
      exact evacceptorStep_continues (continues id) handled
    · simp only [Function.update_of_ne same]
      exact continues id

theorem request_withSrc
    {src : Nat} {message : PaxosMessage} {req : Request}
    (isRequest : (message.withSrc src).request = some req) :
    req.src = src := by
  cases message with
  | prepare prepare =>
      cases isRequest
      rfl
  | accept accept =>
      cases isRequest
      rfl
  | _ => cases isRequest

theorem exists_request_of_withSrc
    {src : Nat} {message : PaxosMessage} {req : Request}
    (isRequest : (message.withSrc src).request = some req) :
    ∃ other, message.request = some other := by
  cases message with
  | prepare prepare => exact ⟨_, rfl⟩
  | accept accept => exact ⟨_, rfl⟩
  | _ => cases isRequest

/-- Of two replicas that are connected, each has the other as a peer. -/
theorem mem_peers_symm {sender receiver : Nat}
    (bound : sender < c.acceptors.length)
    (connected : receiver ∈ (peersConnectToAcceptors c sender).peers) :
    sender ∈ (peersConnectToAcceptors c receiver).peers := by
  rw [mem_peersConnectToAcceptors] at connected ⊢
  exact ⟨bound, connects_symm connected.2⟩

theorem mem_peers_of_down {p : Peers} {id : Nat}
    (down : id ∈ peersForeachDownAcceptor p) : id ∈ p.peers := by
  obtain ⟨_, position, found, _⟩ := (mem_peersForeachDownAcceptor p).mp down
  exact List.mem_of_getElem? found

section Handled

variable {node after : EvAcceptor} {mem : Memory} {id receiver : Nat}
variable {message copy : PaxosMessage} {req : Request}

/-- What a node sends down as a request is the request it handles, with its own
id as source, when accepts keep the source. -/
theorem copy_eq_withSrc
    (continues : ((hierarchyNew c subordinates).node id).Continues node)
    (stepEq : evacceptorStep node (mem, message) = some (after, sent))
    (keeps : ∀ accept, message = .accept accept → accept.src = id ∨
      peersForeachDownAcceptor (peersConnectToAcceptors c id) = [])
    (member : ⟨.acceptor receiver, copy⟩ ∈ sent)
    (isRequest : copy.request = some req) :
    copy = message.withSrc id := by
  have own : node.state.id = id := continues.id_eq
  have peers : node.peers = peersConnectToAcceptors c id := continues.peers_eq
  cases handled : message.request with
  | none =>
      have same := evacceptorStep_passes handled stepEq member
      rw [same, handled] at isRequest
      cases isRequest
  | some upper =>
      obtain ⟨down, copied⟩ := (evacceptorStep_down handled stepEq).mp member
      rw [copied]
      cases message with
      | prepare prepare =>
          rw [own]
          rfl
      | accept accept =>
          rcases keeps accept rfl with source | nobody
          · subst source
            rfl
          · rw [peers, nobody] at down
            cases down
      | _ => cases handled

end Handled

theorem HierarchyOp.KeepsSource.accept
    {mem : Memory} {packet : Packet}
    (keeps : (HierarchyOp.deliver mem packet).KeepsSource c) :
    ∀ accept, packet.message = .accept accept →
      accept.src = packet.receiver ∨
        peersForeachDownAcceptor
          (peersConnectToAcceptors c packet.receiver) = [] :=
  fun accept isAccept => keeps mem packet accept rfl isAccept

/-- The requests on the wire after an event. -/
theorem HierarchyInv.wire_step
    (inv : HierarchyInv c (hierarchyNew c subordinates) past s)
    (keeps : op.KeepsSource c)
    (stepEq : hierarchyStep c s op = some (target, sent))
    {packet : Packet} (member : packet ∈ target.wire) {req : Request}
    (isRequest : packet.message.request = some req) :
    req.src = packet.sender ∧
      packet.sender ∈ (peersConnectToAcceptors c packet.receiver).peers ∧
      ∃ path, Route (past ++ [⟨s, op, sent, target⟩]) packet
        (packet.sender :: path) := by
  have old : packet ∈ s.wire → req.src = packet.sender ∧
      packet.sender ∈ (peersConnectToAcceptors c packet.receiver).peers ∧
      ∃ path, Route (past ++ [⟨s, op, sent, target⟩]) packet
        (packet.sender :: path) := by
    intro member
    obtain ⟨source, connected, path, route⟩ :=
      inv.wire packet member req isRequest
    exact ⟨source, connected, path, route.append _⟩
  have now : (⟨s, op, sent, target⟩ : HierarchyTransition) ∈
      past ++ [⟨s, op, sent, target⟩] :=
    List.mem_append_right _ (List.mem_singleton_self _)
  rcases hierarchyStep_cases stepEq with
    ⟨issued, isIssue, bound, connected, source, rfl⟩ |
    ⟨mem, id, message, after, isHandled, bound, handled, rfl, origin⟩
  · rcases List.mem_append.mp member with before | new
    · exact old before
    · rw [List.mem_singleton] at new
      subst new
      rw [isRequest] at source
      exact ⟨Option.some.inj source, mem_peers_symm bound connected, [],
        .issued now isIssue⟩
  · rcases List.mem_append.mp member with before | new
    · exact old before
    · obtain ⟨senderEq, copied⟩ := mem_forwarded.mp new
      rcases origin with ⟨upper, upperMember, isDeliver⟩ | notRequest
      · subst isDeliver
        cases isHandled
        have copyEq := copy_eq_withSrc (inv.node _) handled keeps.accept copied
          isRequest
        rw [copyEq] at isRequest
        obtain ⟨upperReq, upperRequest⟩ := exists_request_of_withSrc isRequest
        have down := ((evacceptorStep_down upperRequest handled).mp copied).1
        rw [(inv.node _).peers_eq] at down
        have connected := mem_peers_symm bound (mem_peers_of_down down)
        rw [← senderEq] at copyEq isRequest connected
        obtain ⟨_, _, path, route⟩ :=
          inv.wire upper upperMember upperReq upperRequest
        exact ⟨request_withSrc isRequest, connected, _,
          .forwarded now rfl senderEq.symm copyEq (route.append _)⟩
      · have same := evacceptorStep_passes notRequest handled copied
        rw [same, notRequest] at isRequest
        cases isRequest

theorem grantedSender_eq_none
    {id iid : Nat} {current : HierarchyTransition}
    (refused : ∀ mem packet req, current.input = .deliver mem packet →
      packet.message.request = some req → packet.receiver = id →
      req.iid = iid →
      (current.source.node id).state.grantsRequest req ≠ true) :
    grantedSender id iid current = none := by
  unfold grantedSender
  split
  · rfl
  · next mem packet isDeliver =>
      split
      · rfl
      · next req isRequest =>
          apply if_neg
          intro granted
          exact refused mem packet req isDeliver isRequest granted.1 granted.2.1
            granted.2.2
  · rfl

/-- A request handled at a node: the records of the node after it. -/
theorem HierarchyInv.record_request
    (inv : HierarchyInv c (hierarchyNew c subordinates) past s)
    (small : c.acceptors.length ≤ 2 ^ 31)
    {mem : Memory} {packet : Packet} (member : packet ∈ s.wire)
    {req : Request} (isRequest : packet.message.request = some req)
    {after : EvAcceptor}
    (handled : evacceptorStep (s.node packet.receiver) (mem, packet.message) =
      some (after, sent))
    {iid : Nat} {record : PaxosAccepted}
    (present : after.state.store.records iid = some record) :
    ∃ sender,
      (grantedSender packet.receiver iid
          ⟨s, .deliver mem packet, sent, target⟩).or
        (lastSender packet.receiver iid past) = some sender ∧
      record.src = sender ∧
      sender ∈ (peersConnectToAcceptors c packet.receiver).peers := by
  obtain ⟨source, connected, _⟩ := inv.wire packet member req isRequest
  have bound := (mem_peersConnectToAcceptors.mp connected).1
  have step := evacceptorStep_request (inv.node _).inv
    (by omega : req.src < 2 ^ 32) isRequest handled
  split at step
  · next granted =>
      obtain ⟨new, stateEq, newIid, newSrc⟩ := step
      rw [stateEq] at present
      by_cases same : iid = req.iid
      · subst same
        rw [← newIid, MemAcceptor.records_setRecord_self] at present
        cases present
        have sender : grantedSender packet.receiver req.iid
            ⟨s, .deliver mem packet, sent, target⟩ = some packet.sender := by
          simp [grantedSender, isRequest, granted]
        rw [sender]
        exact ⟨packet.sender, rfl, newSrc.trans source, connected⟩
      · rw [MemAcceptor.records_setRecord_of_ne _ _ (newIid ▸ same)] at present
        rw [grantedSender_eq_none (by
          intro _ _ other isDeliver otherRequest _ sameIid
          cases isDeliver
          rw [isRequest] at otherRequest
          cases otherRequest
          exact absurd sameIid.symm same)]
        exact inv.record _ iid record present
  · next refused =>
      rw [step] at present
      rw [grantedSender_eq_none (by
        intro _ _ other isDeliver otherRequest _ _
        cases isDeliver
        rw [isRequest] at otherRequest
        cases otherRequest
        exact refused)]
      exact inv.record _ iid record present

/-- The records after an event. -/
theorem HierarchyInv.record_step
    (inv : HierarchyInv c (hierarchyNew c subordinates) past s)
    (small : c.acceptors.length ≤ 2 ^ 31)
    (stepEq : hierarchyStep c s op = some (target, sent))
    {id iid : Nat} {record : PaxosAccepted}
    (present : (target.node id).state.store.records iid = some record) :
    ∃ sender,
      lastSender id iid (past ++ [⟨s, op, sent, target⟩]) = some sender ∧
      record.src = sender ∧
      sender ∈ (peersConnectToAcceptors c id).peers := by
  rw [lastSender_append]
  rcases hierarchyStep_cases stepEq with
    ⟨packet, rfl, _, _, _, rfl⟩ |
    ⟨mem, node, message, after, isHandled, _, handled, rfl, origin⟩
  · exact inv.record id iid record present
  · by_cases here : id = node
    · subst here
      simp only [Function.update_self] at present
      cases isRequest : message.request with
      | none =>
          obtain ⟨old, oldPresent, same⟩ :=
            evacceptorStep_src (inv.node id).inv isRequest handled present
          rw [grantedSender_eq_none (by
            intro _ packet req isDeliver otherRequest _ _
            change op = _ at isDeliver
            subst isDeliver
            cases isHandled
            rw [isRequest] at otherRequest
            cases otherRequest), same]
          exact inv.record id iid old oldPresent
      | some req =>
          rcases origin with ⟨packet, member, rfl⟩ | notRequest
          · cases isHandled
            exact inv.record_request small member isRequest handled present
          · rw [notRequest] at isRequest
            cases isRequest
    · simp only [Function.update_of_ne here] at present
      rw [grantedSender_eq_none (by
        intro _ packet req isDeliver _ receiver _
        change op = _ at isDeliver
        subst isDeliver
        cases isHandled
        exact absurd receiver.symm here)]
      exact inv.record id iid record present

theorem HierarchyInv.step
    (inv : HierarchyInv c (hierarchyNew c subordinates) past s)
    (small : c.acceptors.length ≤ 2 ^ 31) (keeps : op.KeepsSource c)
    (stepEq : hierarchyStep c s op = some (target, sent)) :
    HierarchyInv c (hierarchyNew c subordinates)
      (past ++ [⟨s, op, sent, target⟩]) target where
  node := hierarchyStep_continues inv.node stepEq
  wire := fun _ member _ isRequest =>
    inv.wire_step keeps stepEq member isRequest
  record := fun _ _ _ present => inv.record_step small stepEq present

theorem hierarchyInv_of_trace
    (small : c.acceptors.length ≤ 2 ^ 31)
    (trace : Trace (hierarchyStep c) (hierarchyNew c subordinates) past s)
    (keeps : ∀ current ∈ past, current.input.KeepsSource c) :
    HierarchyInv c (hierarchyNew c subordinates) past s := by
  induction trace with
  | nil => exact hierarchyInv_initial
  | snoc _ stepEq inductionHypothesis =>
      have earlier := inductionHypothesis fun current member =>
        keeps current (List.mem_append_left _ member)
      have now := keeps _ (List.mem_append_right _ (List.mem_singleton_self _))
      exact earlier.step small now stepEq

theorem hierarchyStep_deliver
    {mem : Memory} {packet : Packet}
    (stepEq : hierarchyStep c s (.deliver mem packet) = some (target, sent)) :
    packet ∈ s.wire ∧
      evacceptorStep (s.node packet.receiver) (mem, packet.message) =
        some (target.node packet.receiver, sent) := by
  rcases hierarchyStep_cases stepEq with
    ⟨_, isIssue, _⟩ | ⟨mem, id, message, after, isHandled, _, handled, rfl, _⟩
  · cases isIssue
  · cases isHandled
    simp only [hierarchyStep] at stepEq
    split at stepEq
    · next allowed =>
        simp only [Function.update_self]
        exact ⟨allowed.1, handled⟩
    · cases stepEq

theorem hierarchyStep_handled
    {mem : Memory} {id : Nat} {message : PaxosMessage}
    (stepEq : hierarchyStep c s op = some (target, sent))
    (isHandled : op.handled = some (mem, id, message)) :
    ∃ after, evacceptorStep (s.node id) (mem, message) = some (after, sent) := by
  rcases hierarchyStep_cases stepEq with
    ⟨_, rfl, _⟩ | ⟨_, _, _, after, otherHandled, _, handled, _⟩
  · cases isHandled
  · rw [isHandled] at otherHandled
    cases otherHandled
    exact ⟨after, handled⟩

theorem HierarchyInv.routed
    (inv : HierarchyInv c (hierarchyNew c subordinates) past s)
    (small : c.acceptors.length ≤ 2 ^ 31) (keeps : op.KeepsSource c)
    (stepEq : hierarchyStep c s op = some (target, sent)) :
    Routed past ⟨s, op, sent, target⟩ where
  copies := by
    intro mem packet isDeliver id message req member isRequest
    change op = _ at isDeliver
    subst isDeliver
    have handled := (hierarchyStep_deliver stepEq).2
    have copyEq := copy_eq_withSrc (inv.node _) handled keeps.accept member
      isRequest
    rw [copyEq] at isRequest
    exact request_withSrc isRequest
  came := by
    intro mem packet req isDeliver isRequest
    change op = _ at isDeliver
    subst isDeliver
    have member := (hierarchyStep_deliver stepEq).1
    obtain ⟨source, _, route⟩ := inv.wire packet member req isRequest
    exact ⟨source, route⟩
  stored := by
    intro mem packet req isDeliver isRequest granted
    change op = _ at isDeliver
    subst isDeliver
    obtain ⟨member, handled⟩ := hierarchyStep_deliver stepEq
    obtain ⟨source, connected, _⟩ := inv.wire packet member req isRequest
    have bound := (mem_peersConnectToAcceptors.mp connected).1
    have step := evacceptorStep_request (inv.node _).inv
      (by omega : req.src < 2 ^ 32) isRequest handled
    rw [if_pos granted] at step
    obtain ⟨record, stateEq, recordIid, recordSrc⟩ := step
    refine ⟨record, ?_, recordSrc⟩
    rw [stateEq, ← recordIid]
    exact MemAcceptor.records_setRecord_self _ record
  unknown := by
    intro mem id reply iid isHandled isReply missing
    obtain ⟨after, handled⟩ := hierarchyStep_handled stepEq isHandled
    have srcid := relayedSrcid_up (inv.node id).inv mem isReply
    rw [missing, Option.elim_none] at srcid
    refine ⟨srcid, ?_⟩
    change sent = []
    rw [evacceptorStep_up isReply handled, srcid]
    exact sendToSource_none _ _
  returned := by
    intro mem id reply iid record isHandled isReply present
    obtain ⟨after, handled⟩ := hierarchyStep_handled stepEq isHandled
    obtain ⟨sender, last, source, connected⟩ :=
      inv.record id iid record present
    have bound := (mem_peersConnectToAcceptors.mp connected).1
    have named : intOfUint32 record.src = sender := by
      rw [source]
      exact intOfUint32_of_lt (by omega)
    have srcid := relayedSrcid_up (inv.node id).inv mem isReply
    rw [present, Option.elim_some, named] at srcid
    have output : sent = _ := evacceptorStep_up isReply handled
    have peer : sender ∈ (s.node id).peers.peers := by
      rw [(inv.node id).peers_eq]
      exact connected
    refine ⟨sender, last, ?_⟩
    split
    · next held =>
        rw [if_pos held] at srcid
        refine ⟨srcid, output.trans ?_⟩
        rw [srcid]
        exact sendToSource_none _ _
    · next free =>
        rw [if_neg free] at srcid
        refine ⟨srcid, output.trans ?_⟩
        rw [srcid]
        exact sendToSource_peer peer _

theorem hierarchy_trace_continues
    (trace : Trace (hierarchyStep c) (hierarchyNew c subordinates) past s)
    (id : Nat) :
    ((hierarchyNew c subordinates).node id).Continues (s.node id) :=
  trace.invariant
    (fun state => ∀ id,
      ((hierarchyNew c subordinates).node id).Continues (state.node id))
    hierarchyNew_continues
    (fun _ _ _ _ continues stepEq => hierarchyStep_continues continues stepEq)
    id

/-- An event that sends down the right copies keeps the source. -/
theorem keepsSource_of_copies
    (trace : Trace (hierarchyStep c) (hierarchyNew c subordinates) past s)
    (stepEq : hierarchyStep c s op = some (target, sent))
    (routed : Routed past ⟨s, op, sent, target⟩) :
    op.KeepsSource c := by
  intro mem packet accept isDeliver isAccept
  subst isDeliver
  have handled := (hierarchyStep_deliver stepEq).2
  have peers := (hierarchy_trace_continues trace packet.receiver).peers_eq
  cases down : peersForeachDownAcceptor
      (peersConnectToAcceptors c packet.receiver) with
  | nil => exact Or.inr rfl
  | cons id rest =>
      left
      have listed : id ∈ peersForeachDownAcceptor
          (s.node packet.receiver).peers := by
        rw [peers]
        exact down ▸ List.mem_cons_self ..
      rw [isAccept] at handled
      have sentDown := (evacceptorStep_down rfl handled).mpr ⟨listed, rfl⟩
      exact routed.copies mem packet rfl id _ _ sentDown rfl

end Run

/-- A prepare from the proposer of replica 0 to the delegate, the copy that
reaches replica 2, and the promise of replica 2. -/
def prepareDownPromiseUp : List HierarchyOp :=
  [.issue ⟨0, 1, .prepare ⟨0, 1, 5⟩⟩,
    .deliver Memory.zero ⟨0, 1, .prepare ⟨0, 1, 5⟩⟩,
    .deliver Memory.zero ⟨1, 2, .prepare ⟨1, 1, 5⟩⟩,
    .inject Memory.zero 1 (.promise ⟨1, 1, 5, 5, 1, [2], PaxosValue.empty,
      [PaxosValue.empty], [5], [5]⟩)]

end LibPaxos
