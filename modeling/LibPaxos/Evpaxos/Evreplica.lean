import Mathlib.Data.List.Perm.Subperm
import LibPaxos.Evpaxos.Peers
import LibPaxos.Types

/-!
# Submitting a value from a replica

A replica hands a client value to one of its peers.  The loop counts positions
of the list of peers and looks each position up as an acceptor id, so that it
asks for peers that the replica does not have, and the answer is a null pointer
whose status is read.
-/

namespace LibPaxos

def bevEventConnected : Int :=
  0x80

/-- `peer_connected`, on the `status` of the peer. -/
def peerConnected (status : Int) : Bool :=
  decide (status = bevEventConnected)

def paxosSubmit (value : List UInt8) : PaxosMessage :=
  .clientValue ⟨⟨value⟩⟩

/-- The loop of `evpaxos_replica_submit` over the positions that are left, with
the `status` of every peer.  The result is the messages sent with their
receivers, or `none` when the status of a missing peer is read. -/
def submitLoop (p : Peers) (status : Nat → Int) (value : List UInt8) :
    List Nat → Option (List (Nat × PaxosMessage))
  | [] => some []
  | i :: rest =>
      match peersGetAcceptor p i with
      | none => none
      | some peer =>
          if peerConnected (status peer) then
            some [(peer, paxosSubmit value)]
          else
            submitLoop p status value rest

def evpaxosReplicaSubmit (p : Peers) (status : Nat → Int)
    (value : List UInt8) : Option (List (Nat × PaxosMessage)) :=
  submitLoop p status value (List.range p.peers.length)

/-- No missing peer is used, and the value goes to one connected peer, or to
none when no peer is connected. -/
def SubmitsSafely (p : Peers) (status : Nat → Int)
    (value : List UInt8) : Prop :=
  (∃ peer ∈ p.peers, peerConnected (status peer) = true ∧
    evpaxosReplicaSubmit p status value = some [(peer, paxosSubmit value)]) ∨
  ((∀ peer ∈ p.peers, peerConnected (status peer) = false) ∧
    evpaxosReplicaSubmit p status value = some [])

theorem peersGetAcceptor_of_mem {p : Peers} {id : Nat}
    (member : id ∈ p.peers) : peersGetAcceptor p id = some id := by
  unfold peersGetAcceptor
  cases found : p.peers.find? fun (peer : Nat) =>
      decide ((peer : Int) = (id : Int)) with
  | none =>
      have different := List.find?_eq_none.mp found id member
      exact absurd (decide_eq_true rfl) different
  | some peer =>
      have same := List.find?_some found
      rw [decide_eq_true_eq] at same
      rw [Int.ofNat_inj.mp same]

theorem peersGetAcceptor_of_not_mem {p : Peers} {id : Nat}
    (missing : id ∉ p.peers) : peersGetAcceptor p id = none := by
  unfold peersGetAcceptor
  rw [List.find?_eq_none]
  intro peer member same
  rw [decide_eq_true_eq] at same
  apply missing
  rw [← Int.ofNat_inj.mp same]
  exact member

section Loop

variable {p : Peers} {status : Nat → Int}

/-- The peers from `first` up to `i` are there and not connected. -/
def PassedOver (p : Peers) (status : Nat → Int) (first i : Nat) : Prop :=
  ∀ j, first ≤ j → j < i → j ∈ p.peers ∧ peerConnected (status j) = false

theorem PassedOver.cons {first i : Nat} (member : first ∈ p.peers)
    (idle : peerConnected (status first) = false)
    (rest : PassedOver p status (first + 1) i) :
    PassedOver p status first i := by
  intro j after before
  rcases Nat.eq_or_lt_of_le after with same | later
  · rw [← same]
    exact ⟨member, idle⟩
  · exact rest j later before

/-- The loop passes over peers that are not connected until it meets a missing
peer, a connected one or the end. -/
theorem submitLoop_cases (value : List UInt8) (first count : Nat) :
    (∃ i, i < first + count ∧ i ∉ p.peers ∧ first ≤ i ∧
      PassedOver p status first i ∧
      submitLoop p status value (List.range' first count) = none) ∨
    (∃ i, i < first + count ∧ i ∈ p.peers ∧
      peerConnected (status i) = true ∧ PassedOver p status first i ∧
      submitLoop p status value (List.range' first count) =
        some [(i, paxosSubmit value)]) ∨
    (PassedOver p status first (first + count) ∧
      submitLoop p status value (List.range' first count) = some []) := by
  induction count generalizing first with
  | zero =>
      refine Or.inr (Or.inr ⟨?_, rfl⟩)
      intro j after before
      omega
  | succ count inductionHypothesis =>
      have nothing : PassedOver p status first first := by
        intro j after before
        omega
      rw [List.range'_succ]
      by_cases member : first ∈ p.peers
      · cases connected : peerConnected (status first) with
        | true =>
            refine Or.inr (Or.inl ⟨first, by omega, member, connected,
              nothing, ?_⟩)
            simp [submitLoop, peersGetAcceptor_of_mem member, connected]
        | false =>
            have step : submitLoop p status value
                (first :: List.range' (first + 1) count) =
                submitLoop p status value
                  (List.range' (first + 1) count) := by
              simp [submitLoop, peersGetAcceptor_of_mem member, connected]
            rw [step]
            rcases inductionHypothesis (first + 1) with
              ⟨i, bound, missing, after, passed, stops⟩ |
              ⟨i, bound, found, live, passed, sent⟩ | ⟨passed, ends⟩
            · exact Or.inl ⟨i, by omega, missing, by omega,
                passed.cons member connected, stops⟩
            · exact Or.inr (Or.inl ⟨i, by omega, found, live,
                passed.cons member connected, sent⟩)
            · rw [show first + 1 + count = first + (count + 1) by omega]
                at passed
              exact Or.inr (Or.inr ⟨passed.cons member connected, ends⟩)
      · refine Or.inl ⟨first, by omega, member, le_refl first, nothing, ?_⟩
        simp [submitLoop, peersGetAcceptor_of_not_mem member]

end Loop

/-- Peers that hold every id below their number hold no other. -/
theorem Peers.lt_of_holds_positions {p : Peers}
    (holds : ∀ i, i < p.peers.length → i ∈ p.peers) :
    ∀ id ∈ p.peers, id < p.peers.length := by
  have inside : List.range p.peers.length ⊆ p.peers := by
    intro i member
    exact holds i (List.mem_range.mp member)
  have perm := (List.subperm_of_subset List.nodup_range inside).perm_of_length_le
    (by rw [List.length_range])
  intro id member
  exact List.mem_range.mp (perm.mem_iff.mpr member)

/-- A submission is safe exactly when at every position that is not the id of a
peer the loop has met a connected peer before. -/
theorem submitsSafely_iff (p : Peers) (status : Nat → Int)
    (value : List UInt8) :
    SubmitsSafely p status value ↔
      ∀ i, i < p.peers.length → i ∉ p.peers →
        ∃ j, j < i ∧ j ∈ p.peers ∧ peerConnected (status j) = true := by
  have run : evpaxosReplicaSubmit p status value =
      submitLoop p status value (List.range' 0 p.peers.length) := by
    rw [← List.range_eq_range']
    rfl
  unfold SubmitsSafely
  rw [run]
  rcases submitLoop_cases value 0 p.peers.length with
    ⟨i, bound, missing, _, passed, stops⟩ |
    ⟨i, bound, found, live, passed, sent⟩ | ⟨passed, ends⟩
  · -- A missing peer is used, and no peer before it is connected.
    rw [stops]
    refine iff_of_false ?_ ?_
    · rintro (⟨_, _, _, impossible⟩ | ⟨_, impossible⟩)
      · cases impossible
      · cases impossible
    · intro covered
      obtain ⟨j, before, _, live⟩ := covered i (by omega) missing
      rw [(passed j (Nat.zero_le j) before).2] at live
      cases live
  · rw [sent]
    apply iff_of_true (Or.inl ⟨i, found, live, rfl⟩)
    intro other _ missing
    refine ⟨i, ?_, found, live⟩
    by_contra notBefore
    rcases Nat.eq_or_lt_of_le (Nat.le_of_not_lt notBefore) with same | before
    · exact missing (same ▸ found)
    · exact missing (passed other (Nat.zero_le other) before).1
  · -- Every position is a peer, so there are no others.
    rw [ends]
    rw [Nat.zero_add] at passed
    have holds : ∀ i, i < p.peers.length → i ∈ p.peers := by
      intro i bound
      exact (passed i (Nat.zero_le i) bound).1
    refine iff_of_true (Or.inr ⟨?_, rfl⟩) ?_
    · intro peer member
      exact (passed peer (Nat.zero_le peer)
        (Peers.lt_of_holds_positions holds peer member)).2
    · intro i bound missing
      exact absurd (holds i bound) missing

/-- A replica submits safely exactly when, at every position of its list of
peers that is not the id of a peer, a peer with a smaller id is connected; and
it does so whatever the peers' statuses exactly when its peers are the acceptors
with the first ids. -/
theorem replica_submits_safely_iff (c : EvpaxosConfig) (replicaId : Nat) :
    (∀ status value,
      SubmitsSafely (peersConnectToAcceptors c replicaId) status value ↔
        ∀ i, i < (peersConnectToAcceptors c replicaId).peers.length →
          i ∉ (peersConnectToAcceptors c replicaId).peers →
          ∃ j, j < i ∧ j ∈ (peersConnectToAcceptors c replicaId).peers ∧
            peerConnected (status j) = true) ∧
    ((∀ status value,
      SubmitsSafely (peersConnectToAcceptors c replicaId) status value) ↔
        ∀ i, i < (peersConnectToAcceptors c replicaId).peers.length →
          i ∈ (peersConnectToAcceptors c replicaId).peers) := by
  refine ⟨submitsSafely_iff _, ?_⟩
  constructor
  · intro safe i bound
    by_contra missing
    -- With no peer connected the loop gets to position `i`.
    obtain ⟨j, _, _, live⟩ :=
      (submitsSafely_iff _ (fun _ => 0) []).mp (safe _ _) i bound missing
    cases live
  · intro holds status value
    rw [submitsSafely_iff]
    intro i bound missing
    exact absurd (holds i bound) missing

/-- Replica 0 of `paxos.conf` has no peer 6 among its eight peers, and submits
safely while replica 0 is connected. -/
theorem submit_from_zero_safe :
    SubmitsSafely (peersConnectToAcceptors paxosConf 0)
      (fun peer => if peer = 0 then bevEventConnected else 0) [1] := by
  apply ((replica_submits_safely_iff paxosConf 0).1 _ _).mpr
  intro i _ missing
  refine ⟨0, ?_, by decide, by decide⟩
  apply Nat.pos_of_ne_zero
  intro first
  rw [first] at missing
  exact missing (by decide)

/-- Replica 9 of `paxos.conf` has the peers 7, 8 and 9, and reads the status of
a missing peer even when they are all connected. -/
theorem submit_from_nine_unsafe :
    ¬ SubmitsSafely (peersConnectToAcceptors paxosConf 9)
      (fun _ => bevEventConnected) [1] := by
  have stops : evpaxosReplicaSubmit (peersConnectToAcceptors paxosConf 9)
      (fun _ => bevEventConnected) [1] = none := by decide
  rintro (⟨peer, _, _, sent⟩ | ⟨_, sent⟩)
  · exact absurd (stops.symm.trans sent) (by simp)
  · exact absurd (stops.symm.trans sent) (by simp)

end LibPaxos
