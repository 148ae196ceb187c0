import Mathlib.Data.List.Nodup
import Mathlib.Data.List.Range

/-!
# The peers of a replica

Every acceptor of a configuration belongs to a group and has a parent group.  A
plain member has its own group as parent; a delegate has another one.  A replica
connects to a part of the acceptors, in the order of their ids, and sends
requests down to its subordinates: the plain members of its own group and the
delegates of its child groups.

The loop that sends requests down tests the configuration entry at the position
of a peer in the list of peers, not the entry of the peer.
-/

namespace LibPaxos

/-- `struct address`: the groups of an acceptor. -/
structure Address where
  groupid : Int
  parentid : Int
  deriving DecidableEq, Repr

/-- `struct evpaxos_config`: the acceptors. -/
structure EvpaxosConfig where
  acceptors : List Address

/-- Entry `i` of the `acceptors`, zeroed past the last one. -/
def EvpaxosConfig.acceptor (c : EvpaxosConfig) (i : Nat) : Address :=
  c.acceptors.getD i ⟨0, 0⟩

/-- `struct peers`: the ids of the peers that the replica connects to. -/
structure Peers where
  config : EvpaxosConfig
  ownid : Nat
  peers : List Nat

/-- Whether a replica connects to an acceptor: it is in the same group, in the
parent group, a delegate to the same parent group or a delegate of a child
group. -/
def connects (replica acceptor : Address) : Bool :=
  if acceptor.groupid = replica.groupid then
    true
  else if replica.groupid ≠ replica.parentid ∧
      acceptor.groupid = replica.parentid then
    true
  else if replica.groupid ≠ replica.parentid ∧
      acceptor.groupid ≠ acceptor.parentid ∧
      acceptor.parentid = replica.parentid then
    true
  else if acceptor.groupid ≠ acceptor.parentid ∧
      acceptor.parentid = replica.groupid then
    true
  else
    false

def peersConnectToAcceptors (c : EvpaxosConfig) (replicaId : Nat) : Peers where
  config := c
  ownid := replicaId
  peers := (List.range c.acceptors.length).filter fun i =>
    connects (c.acceptor replicaId) (c.acceptor i)

/-- The test of `peers_foreach_down_acceptor`: a plain member of the group, or a
delegate to it. -/
def isSubordinate (own entry : Address) : Bool :=
  decide (own.groupid = entry.groupid ∧ entry.groupid = entry.parentid) ||
    decide (own.groupid = entry.parentid ∧ entry.groupid ≠ entry.parentid)

/-- `peers_foreach_down_acceptor`: the peers that the callback gets, in
order. -/
def peersForeachDownAcceptor (p : Peers) : List Nat :=
  let own := p.config.acceptor p.ownid
  if own.groupid = own.parentid then
    []
  else
    (List.range p.peers.length).filterMap fun i =>
      if isSubordinate own (p.config.acceptor i) then p.peers[i]? else none

def peersGetAcceptor (p : Peers) (id : Int) : Option Nat :=
  p.peers.find? fun peer => decide ((peer : Int) = id)

theorem nodup_peersConnectToAcceptors (c : EvpaxosConfig) (replicaId : Nat) :
    (peersConnectToAcceptors c replicaId).peers.Nodup :=
  List.nodup_range.filter _

theorem mem_peersConnectToAcceptors {c : EvpaxosConfig} {replicaId i : Nat} :
    i ∈ (peersConnectToAcceptors c replicaId).peers ↔
      i < c.acceptors.length ∧
        connects (c.acceptor replicaId) (c.acceptor i) = true := by
  simp only [peersConnectToAcceptors, List.mem_filter, List.mem_range]

/-! ### Both ends connect -/

theorem connects_iff (replica acceptor : Address) :
    connects replica acceptor = true ↔
      acceptor.groupid = replica.groupid ∨
        (replica.groupid ≠ replica.parentid ∧
          acceptor.groupid = replica.parentid) ∨
        (replica.groupid ≠ replica.parentid ∧
          acceptor.groupid ≠ acceptor.parentid ∧
          acceptor.parentid = replica.parentid) ∨
        (acceptor.groupid ≠ acceptor.parentid ∧
          acceptor.parentid = replica.groupid) := by
  unfold connects
  by_cases sameGroup : acceptor.groupid = replica.groupid
  · rw [if_pos sameGroup]
    exact iff_of_true rfl (Or.inl sameGroup)
  · rw [if_neg sameGroup, or_iff_right sameGroup]
    split
    · next toParent => exact iff_of_true rfl (Or.inl toParent)
    · next notToParent =>
        rw [or_iff_right notToParent]
        split
        · next siblings => exact iff_of_true rfl (Or.inl siblings)
        · next notSiblings =>
            rw [or_iff_right notSiblings]
            split
            · next toChild => exact iff_of_true rfl toChild
            · next notToChild => exact iff_of_false (by decide) notToChild

/-- A connection up to the parent group is one down to a child group at the
other end, and the two other kinds are the same at both ends. -/
theorem connects_symm {replica acceptor : Address}
    (connected : connects replica acceptor = true) :
    connects acceptor replica = true := by
  rw [connects_iff] at connected ⊢
  rcases connected with same | ⟨delegate, inParent⟩ |
      ⟨delegate, otherDelegate, sameParent⟩ | ⟨delegate, inChild⟩
  · exact Or.inl same.symm
  · exact Or.inr (Or.inr (Or.inr ⟨delegate, inParent.symm⟩))
  · exact Or.inr (Or.inr (Or.inl
      ⟨otherDelegate, delegate, sameParent.symm⟩))
  · exact Or.inr (Or.inl ⟨delegate, inChild.symm⟩)

/-- The clients of a node once every replica has connected to its acceptors: the
replicas with the node among their peers. -/
def clientsOf (c : EvpaxosConfig) (node : Nat) : List Nat :=
  (List.range c.acceptors.length).filter fun replicaId =>
    decide (node ∈ (peersConnectToAcceptors c replicaId).peers)

/-- In every configuration the peers of a replica are ids in increasing order,
its own among them, and of two replicas each has the other as a peer or neither
has.  So the clients of a node are the replicas that it connects to. -/
theorem connections_mutual (c : EvpaxosConfig) :
    ∀ r, r < c.acceptors.length →
      (peersConnectToAcceptors c r).peers.Pairwise (· < ·) ∧
      (∀ i ∈ (peersConnectToAcceptors c r).peers, i < c.acceptors.length) ∧
      r ∈ (peersConnectToAcceptors c r).peers ∧
      (∀ i, i < c.acceptors.length →
        (i ∈ (peersConnectToAcceptors c r).peers ↔
          r ∈ (peersConnectToAcceptors c i).peers)) ∧
      clientsOf c r = (peersConnectToAcceptors c r).peers := by
  intro r bound
  have bothWays : ∀ i, i < c.acceptors.length →
      (i ∈ (peersConnectToAcceptors c r).peers ↔
        r ∈ (peersConnectToAcceptors c i).peers) := by
    intro i other
    rw [mem_peersConnectToAcceptors, mem_peersConnectToAcceptors]
    constructor
    · rintro ⟨_, connected⟩
      exact ⟨bound, connects_symm connected⟩
    · rintro ⟨_, connected⟩
      exact ⟨other, connects_symm connected⟩
  refine ⟨?_, ?_, ?_, bothWays, ?_⟩
  · exact List.pairwise_lt_range.filter _
  · intro i member
    exact (mem_peersConnectToAcceptors.mp member).1
  · rw [mem_peersConnectToAcceptors, connects_iff]
    exact ⟨bound, Or.inl rfl⟩
  · apply List.filter_congr
    intro i member
    have other := List.mem_range.mp member
    have same := bothWays i other
    rw [mem_peersConnectToAcceptors] at same
    rw [Bool.eq_iff_iff, decide_eq_true_eq, ← same]
    exact and_iff_right other

section Down

variable (p : Peers)

theorem mem_peersForeachDownAcceptor {id : Nat} :
    id ∈ peersForeachDownAcceptor p ↔
      (p.config.acceptor p.ownid).groupid ≠
          (p.config.acceptor p.ownid).parentid ∧
        ∃ position, p.peers[position]? = some id ∧
          isSubordinate (p.config.acceptor p.ownid)
            (p.config.acceptor position) = true := by
  unfold peersForeachDownAcceptor
  by_cases plain : (p.config.acceptor p.ownid).groupid =
      (p.config.acceptor p.ownid).parentid
  · simp [plain]
  · simp only [if_neg plain, List.mem_filterMap, List.mem_range]
    constructor
    · rintro ⟨position, _, selected⟩
      split at selected
      · next test => exact ⟨plain, position, selected, test⟩
      · cases selected
    · rintro ⟨_, position, found, test⟩
      refine ⟨position, ?_, ?_⟩
      · exact (List.getElem?_eq_some_iff.mp found).1
      · rw [if_pos test]
        exact found

/-- No peer gets the callback twice. -/
theorem nodup_peersForeachDownAcceptor (distinct : p.peers.Nodup) :
    (peersForeachDownAcceptor p).Nodup := by
  unfold peersForeachDownAcceptor
  simp only
  split
  · exact List.nodup_nil
  · apply List.Nodup.filterMap _ List.nodup_range
    intro left right id leftSelected rightSelected
    simp only [Option.mem_def] at leftSelected rightSelected
    split at leftSelected
    · split at rightSelected
      · have bound := (List.getElem?_eq_some_iff.mp leftSelected).1
        exact (List.getElem?_inj bound distinct).mp
          (leftSelected.trans rightSelected.symm)
      · cases rightSelected
    · cases leftSelected

end Down

/-- The callback runs once on every connected peer that is a subordinate, and on
no other peer. -/
def ReachesSubordinates (c : EvpaxosConfig) (replicaId : Nat) : Prop :=
  ∀ id,
    (peersForeachDownAcceptor
      (peersConnectToAcceptors c replicaId)).count id =
      if id ∈ (peersConnectToAcceptors c replicaId).peers ∧
          (c.acceptor replicaId).groupid ≠ (c.acceptor replicaId).parentid ∧
          isSubordinate (c.acceptor replicaId) (c.acceptor id) = true then
        1
      else
        0

theorem reachesSubordinates_iff_mem (c : EvpaxosConfig) (replicaId : Nat) :
    ReachesSubordinates c replicaId ↔
      ∀ id, id ∈ peersForeachDownAcceptor
          (peersConnectToAcceptors c replicaId) ↔
        id ∈ (peersConnectToAcceptors c replicaId).peers ∧
          (c.acceptor replicaId).groupid ≠ (c.acceptor replicaId).parentid ∧
          isSubordinate (c.acceptor replicaId) (c.acceptor id) = true := by
  have distinct := nodup_peersForeachDownAcceptor _
    (nodup_peersConnectToAcceptors c replicaId)
  apply forall_congr'
  intro id
  rw [List.Nodup.count distinct]
  split
  · next reached =>
      split
      · next wanted => simp [reached, wanted]
      · next unwanted => simp [reached, unwanted]
  · next missed =>
      split
      · next wanted => simp [missed, wanted]
      · next unwanted => simp [missed, unwanted]

theorem reachesSubordinates_iff_positions
    (c : EvpaxosConfig) (replicaId : Nat) :
    ReachesSubordinates c replicaId ↔
      (c.acceptor replicaId).groupid = (c.acceptor replicaId).parentid ∨
        ∀ position id,
          (peersConnectToAcceptors c replicaId).peers[position]? = some id →
          (isSubordinate (c.acceptor replicaId) (c.acceptor position) =
            isSubordinate (c.acceptor replicaId) (c.acceptor id)) := by
  rw [reachesSubordinates_iff_mem]
  by_cases plain : (c.acceptor replicaId).groupid =
      (c.acceptor replicaId).parentid
  · refine iff_of_true ?_ (Or.inl plain)
    intro id
    rw [mem_peersForeachDownAcceptor]
    constructor
    · rintro ⟨delegate, _⟩
      exact False.elim (delegate plain)
    · rintro ⟨_, delegate, _⟩
      exact False.elim (delegate plain)
  · rw [or_iff_right plain]
    constructor
    · intro exact position id found
      rw [Bool.eq_iff_iff]
      constructor
      · intro test
        have reached := (mem_peersForeachDownAcceptor _).mpr
          ⟨plain, position, found, test⟩
        exact ((exact id).mp reached).2.2
      · intro wanted
        have member := List.mem_of_getElem? found
        have reached := (exact id).mpr ⟨member, plain, wanted⟩
        obtain ⟨_, other, otherAt, test⟩ :=
          (mem_peersForeachDownAcceptor _).mp reached
        have bound := (List.getElem?_eq_some_iff.mp found).1
        have same := (List.getElem?_inj bound
          (nodup_peersConnectToAcceptors c replicaId)).mp
          (found.trans otherAt.symm)
        rw [same]
        exact test
    · intro agree id
      rw [mem_peersForeachDownAcceptor]
      constructor
      · rintro ⟨_, position, found, test⟩
        refine ⟨List.mem_of_getElem? found, plain, ?_⟩
        rw [← agree position id found]
        exact test
      · rintro ⟨member, _, wanted⟩
        obtain ⟨position, found⟩ := List.mem_iff_getElem?.mp member
        refine ⟨plain, position, found, ?_⟩
        exact (agree position id found).trans wanted

/-- How many entries before the given one a replica connects to. -/
def connectedBefore (c : EvpaxosConfig) (replicaId id : Nat) : Nat :=
  ((List.range id).filter fun i =>
    connects (c.acceptor replicaId) (c.acceptor i)).length

theorem range_split {id count : Nat} (bound : id < count) :
    List.range count =
      List.range id ++ id :: List.range' (id + 1) (count - id - 1) := by
  rw [List.range_eq_range', List.range_eq_range', ← List.range'_succ]
  have whole : count = id + (count - id - 1 + 1) := by omega
  nth_rewrite 1 [whole]
  rw [← List.range'_append_1, Nat.zero_add]

/-- The place of a peer in the list is the number of peers before it in the
configuration. -/
theorem peers_at_iff {c : EvpaxosConfig} {replicaId position id : Nat} :
    (peersConnectToAcceptors c replicaId).peers[position]? = some id ↔
      id ∈ (peersConnectToAcceptors c replicaId).peers ∧
        position = connectedBefore c replicaId id := by
  have found : id ∈ (peersConnectToAcceptors c replicaId).peers →
      (peersConnectToAcceptors c replicaId).peers[connectedBefore c replicaId
        id]? = some id := by
    intro member
    obtain ⟨bound, connected⟩ := mem_peersConnectToAcceptors.mp member
    unfold peersConnectToAcceptors connectedBefore
    simp only
    rw [range_split bound, List.filter_append,
      List.getElem?_append_right (Nat.le_refl _), Nat.sub_self,
      List.filter_cons, if_pos connected, List.getElem?_cons_zero]
  constructor
  · intro foundAt
    have member := List.mem_of_getElem? foundAt
    refine ⟨member, ?_⟩
    have bound := (List.getElem?_eq_some_iff.mp foundAt).1
    exact (List.getElem?_inj bound
      (nodup_peersConnectToAcceptors c replicaId)).mp
      (foundAt.trans (found member).symm)
  · intro ⟨member, place⟩
    rw [place]
    exact found member

/-- Requests reach exactly the subordinates when the replica is a plain member,
or when the following holds of every entry that it connects to.  Counted from
the start of the configuration by the entries it connects to, one comes to a
subordinate or not as the entry itself is one or not. -/
theorem reaches_subordinates_iff (c : EvpaxosConfig) (replicaId : Nat) :
    ReachesSubordinates c replicaId ↔
      (c.acceptor replicaId).groupid = (c.acceptor replicaId).parentid ∨
        ∀ id, id < c.acceptors.length →
          connects (c.acceptor replicaId) (c.acceptor id) = true →
          isSubordinate (c.acceptor replicaId)
              (c.acceptor (connectedBefore c replicaId id)) =
            isSubordinate (c.acceptor replicaId) (c.acceptor id) := by
  rw [reachesSubordinates_iff_positions]
  apply or_congr_right
  constructor
  · intro agree id bound connected
    apply agree
    rw [peers_at_iff, mem_peersConnectToAcceptors]
    exact ⟨⟨bound, connected⟩, rfl⟩
  · intro agree position id found
    obtain ⟨member, place⟩ := peers_at_iff.mp found
    obtain ⟨bound, connected⟩ := mem_peersConnectToAcceptors.mp member
    rw [place]
    exact agree id bound connected

/-- The replicas of `paxos.conf`. -/
def paxosConf : EvpaxosConfig :=
  ⟨[⟨0, 0⟩, ⟨0, 0⟩, ⟨0, 0⟩, ⟨0, 0⟩, ⟨1, 0⟩, ⟨1, 0⟩, ⟨1, 1⟩, ⟨2, 0⟩, ⟨2, 0⟩,
    ⟨2, 2⟩]⟩

/-- Replica 4 of `paxos.conf`, a delegate of group 1, and what it hears. -/
theorem connections_mutual_of_four :
    clientsOf paxosConf 4 = [0, 1, 2, 3, 4, 5, 6, 7, 8] :=
  (connections_mutual paxosConf 4 (by decide)).2.2.2.2.trans (by decide)

/-- Replica 7 of `paxos.conf` connects to replica 9, its only subordinate, and
never sends it a request. -/
theorem subordinate_of_seven_unreached :
    ¬ ReachesSubordinates paxosConf 7 := by
  intro reaches
  exact absurd (reaches 9) (by decide)

end LibPaxos
