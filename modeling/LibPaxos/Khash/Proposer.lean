import LibPaxos.Khash.MemStorage
import LibPaxos.Proposer.Model

/-!
# The proposer over its hash tables

The functions of `proposer.c` with the hash tables that they use.  An instance
is changed in the bucket where the program has found it, and an iterator is a
bucket.  What the functions do with an instance and with the queue of values is
what they do in `Proposer.Model`.
-/

namespace LibPaxos

open LibPaxos.Library

abbrev InstanceTable : Type :=
  Khash Nat ProposerInstance

/-- `struct proposer`. -/
structure KhProposer where
  id : Nat
  acceptors : Nat
  values : Queue PaxosValue
  maxTrimIid : Nat
  nextPrepareIid : Nat
  prepareInstances : InstanceTable
  acceptInstances : InstanceTable

namespace KhProposer

/-- `proposer_new`. -/
def new (id acceptors : Nat) : KhProposer where
  id := id
  acceptors := acceptors
  values := Queue.ofSize 128 (Nat.succ_pos 127)
  maxTrimIid := 0
  nextPrepareIid := 0
  prepareInstances := khInit
  acceptInstances := khInit

/-- A put of an instance that the program asserts to be new: the bucket and the
table. -/
def putNew (t : InstanceTable) (inst : ProposerInstance) :
    Option (Nat × InstanceTable) :=
  (t.put khIntHashFunc inst.iid).bind fun (rv, k, t) =>
    if rv > 0 then
      (t.setValue k inst).map fun t => (k, t)
    else
      none

/-- `proposer_move_instance`: the tables, and the bucket that the instance is
in. -/
def moveInstance (f t : InstanceTable) (inst : ProposerInstance) :
    Option (InstanceTable × Nat × InstanceTable) :=
  (f.get khIntHashFunc inst.iid).bind fun k =>
    if k ≠ f.nBuckets then
      (f.del k).bind fun f =>
        (putNew t { inst with quorum := quorumClear inst.quorum }).map
          fun (k, t) => (f, k, t)
    else
      none

/-- What `proposer_trim_instances` does with an instance that it frees. -/
def freeTrimmed (freed : Queue PaxosValue × List PaxosValue)
    (inst : ProposerInstance) : Queue PaxosValue × List PaxosValue :=
  match inst.value with
  | some v =>
      (freed.1.pushBack v, freed.2 ++ instanceFree { inst with value := none })
  | none => (freed.1, freed.2 ++ instanceFree inst)

/-- `proposer_trim_instances`. -/
def trimInstances (h : InstanceTable) (iid : Nat)
    (freed : Queue PaxosValue × List PaxosValue) :
    Option ((Queue PaxosValue × List PaxosValue) × InstanceTable) :=
  h.removeLoop (fun inst => decide (inst.iid ≤ iid)) freeTrimmed freed

/-- `proposer_set_instance_id`. -/
def setInstanceId (p : KhProposer) (iid : Nat) :
    Option (List PaxosValue × KhProposer) :=
  if p.nextPrepareIid < iid then
    (trimInstances p.prepareInstances iid (p.values, [])).bind
      fun (freed, prepareInstances) =>
        (trimInstances p.acceptInstances iid freed).map
          fun (freed, acceptInstances) =>
            (freed.2,
              { p with
                nextPrepareIid := iid
                values := freed.1
                prepareInstances := prepareInstances
                acceptInstances := acceptInstances })
  else
    some ([], p)

/-- `proposer_prepare`. -/
def prepare (now : Int) (p : KhProposer) :
    Option (PaxosPrepare × KhProposer) :=
  let iid := word32 (p.nextPrepareIid + 1)
  let bal := proposerNextBallot p.id 0
  (instanceNew iid bal p.acceptors now).bind fun inst =>
    (putNew p.prepareInstances inst).map fun (_, prepareInstances) =>
      (⟨p.id, inst.iid, inst.ballot⟩,
        { p with
          nextPrepareIid := iid
          prepareInstances := prepareInstances })

/-- `proposer_receive_promise`. -/
def receivePromise (clock : Nat → Int) (p : KhProposer) (ack : PaxosPromise) :
    Option (Option PaxosPrepare × KhProposer) :=
  (p.prepareInstances.get khIntHashFunc ack.iid).bind fun k =>
    if k = p.prepareInstances.nBuckets then
      some (none, p)
    else
      (p.prepareInstances.value k).bind fun inst =>
        (promiseLoop p.id clock ack (List.range ack.nAids) inst none).bind
          fun (inst, out) =>
            (p.prepareInstances.setValue k inst).map fun prepareInstances =>
              (out, { p with prepareInstances := prepareInstances })

/-- The body of the loop of `proposer_accept` that looks for the smallest id;
it keeps the bucket with the instance. -/
def smallerInstance (h : InstanceTable)
    (found : Option (Nat × ProposerInstance)) (k : Nat) :
    Option (Option (Nat × ProposerInstance)) :=
  (h.exist k).bind fun exist =>
    if exist then
      (h.value k).map fun other =>
        match found with
        | none => some (k, other)
        | some (bucket, inst) =>
            if other.iid < inst.iid then some (k, other)
            else some (bucket, inst)
    else
      some found

def smallest (h : InstanceTable) : Option (Option (Nat × ProposerInstance)) :=
  CheckedArray.forEach (smallerInstance h) h.nBuckets 0 none

/-- `proposer_accept`. -/
def accept (p : KhProposer) : Option (Option PaxosAccept × KhProposer) :=
  (smallest p.prepareInstances).bind fun found =>
    match found with
    | none => some (none, p)
    | some (k, inst) =>
        if quorumReached inst.quorum = false then
          some (none, p)
        else
          let (values, inst) := takeValue p.values inst
          (p.prepareInstances.setValue k inst).bind fun prepareInstances =>
            if inst.value = none ∧ inst.promisedValue = none then
              some (none,
                { p with
                  values := values
                  prepareInstances := prepareInstances })
            else
              (moveInstance prepareInstances p.acceptInstances inst).bind
                fun (prepareInstances, _, acceptInstances) =>
                  (instanceToAccept p.id inst).map fun out =>
                    (some out,
                      { p with
                        values := values
                        prepareInstances := prepareInstances
                        acceptInstances := acceptInstances })

/-- `proposer_receive_accepted`. -/
def receiveAccepted (p : KhProposer) (ack : PaxosAccepted) :
    Option (Bool × List PaxosValue × KhProposer) :=
  (p.acceptInstances.get khIntHashFunc ack.iid).bind fun k =>
    if k = p.acceptInstances.nBuckets then
      some (false, [], p)
    else
      (p.acceptInstances.value k).bind fun inst =>
      ack.ballots[0]?.bind fun ballot =>
        if ballot = inst.ballot then
          ack.aids[0]?.bind fun aid =>
          (quorumAdd inst.quorum aid).bind fun (added, quorum) =>
            if added then
              let inst := { inst with quorum := quorum }
              if quorumReached inst.quorum then
                let (values, inst) := giveBackValue p.values inst
                (p.acceptInstances.del k).map fun acceptInstances =>
                  (true, instanceFree inst,
                    { p with
                      values := values
                      acceptInstances := acceptInstances })
              else
                (p.acceptInstances.setValue k inst).map
                  fun acceptInstances =>
                    (true, [], { p with acceptInstances := acceptInstances })
            else
              some (false, [], p)
        else
          some (false, [], p)

/-- `proposer_receive_preempted`. -/
def receivePreempted (now : Int) (p : KhProposer) (ack : PaxosPreempted) :
    Option (Option PaxosPrepare × KhProposer) :=
  (p.acceptInstances.get khIntHashFunc ack.iid).bind fun k =>
    if k = p.acceptInstances.nBuckets then
      some (none, p)
    else
      (p.acceptInstances.value k).bind fun inst =>
        if inst.ballot < ack.ballot then
          (moveInstance p.acceptInstances p.prepareInstances inst).bind
            fun (acceptInstances, k, prepareInstances) =>
              let (inst, out) := proposerPreempt p.id now inst
              (prepareInstances.setValue k inst).map fun prepareInstances =>
                (some out,
                  { p with
                    acceptInstances := acceptInstances
                    prepareInstances := prepareInstances })
        else
          some (none, p)

/-- `proposer_receive_acceptor_state`. -/
def receiveAcceptorState (p : KhProposer) (state : PaxosAcceptorState) :
    Option (List PaxosValue × KhProposer) :=
  if p.maxTrimIid < state.trimIid then
    setInstanceId { p with maxTrimIid := state.trimIid } state.trimIid
  else
    some ([], p)

/-- The loop of `next_timedout` over a number of buckets from `k` on. -/
def nextTimedoutLoop (proposerTimeout t : Int) (h : InstanceTable) :
    Nat → Nat → Option (Nat × Option ProposerInstance)
  | 0, k => some (k, none)
  | count + 1, k =>
      (h.exist k).bind fun exist =>
        if exist then
          (h.value k).bind fun inst =>
            if quorumReached inst.quorum then
              nextTimedoutLoop proposerTimeout t h count (k + 1)
            else if instanceHasTimedout proposerTimeout inst t then
              some (k, some inst)
            else
              nextTimedoutLoop proposerTimeout t h count (k + 1)
        else
          nextTimedoutLoop proposerTimeout t h count (k + 1)

/-- `next_timedout`; an iterator beyond the end does not come to it. -/
def nextTimedout (proposerTimeout t : Int) (h : InstanceTable) (k : Nat) :
    Option (Nat × Option ProposerInstance) :=
  if k ≤ h.nBuckets then
    nextTimedoutLoop proposerTimeout t h (h.nBuckets - k) k
  else
    none

/-- `timeout_iterator_prepare`. -/
def iteratorPrepare (proposerTimeout : Int) (iter : TimeoutIterator)
    (p : KhProposer) :
    Option (Option PaxosPrepare × TimeoutIterator × KhProposer) :=
  (nextTimedout proposerTimeout iter.timeout p.prepareInstances iter.pi).bind
    fun (k, found) =>
      match found with
      | none => some (none, { iter with pi := k }, p)
      | some inst =>
          (p.prepareInstances.setValue k
            { inst with createdAt := iter.timeout }).map
              fun prepareInstances =>
                (some ⟨p.id, inst.iid, inst.ballot⟩, { iter with pi := k },
                  { p with prepareInstances := prepareInstances })

/-- `timeout_iterator_accept`. -/
def iteratorAccept (proposerTimeout : Int) (iter : TimeoutIterator)
    (p : KhProposer) :
    Option (Option PaxosAccept × TimeoutIterator × KhProposer) :=
  (nextTimedout proposerTimeout iter.timeout p.acceptInstances iter.ai).bind
    fun (k, found) =>
      match found with
      | none => some (none, { iter with ai := k }, p)
      | some inst =>
          (instanceToAccept p.id inst).bind fun out =>
            (p.acceptInstances.setValue k
              { inst with createdAt := iter.timeout }).map
                fun acceptInstances =>
                  (some out, { iter with ai := k },
                    { p with acceptInstances := acceptInstances })

inductive Op where
  | propose (value : PaxosValue)
  | prepare (now : Int)
  | receivePromise (clock : Nat → Int) (ack : PaxosPromise)
  | accept
  | receiveAccepted (ack : PaxosAccepted)
  | receivePreempted (now : Int) (ack : PaxosPreempted)
  | receiveAcceptorState (state : PaxosAcceptorState)
  | setInstanceId (iid : Nat)
  | timeoutPrepare (proposerTimeout : Int) (iter : TimeoutIterator)
  | timeoutAccept (proposerTimeout : Int) (iter : TimeoutIterator)

def step (p : KhProposer) : Op → Option (KhProposer × ProposerResult)
  | .propose value =>
      some ({ p with values := p.values.pushBack value }, ⟨none, []⟩)
  | .prepare now =>
      (prepare now p).map fun (out, p) => (p, ⟨some (.prepare out), []⟩)
  | .receivePromise clock ack =>
      (receivePromise clock p ack).map fun (out, p) =>
        (p, ⟨out.map .prepare, []⟩)
  | .accept => (accept p).map fun (out, p) => (p, ⟨out.map .accept, []⟩)
  | .receiveAccepted ack =>
      (receiveAccepted p ack).map fun (_, retired, p) => (p, ⟨none, retired⟩)
  | .receivePreempted now ack =>
      (receivePreempted now p ack).map fun (out, p) =>
        (p, ⟨out.map .prepare, []⟩)
  | .receiveAcceptorState state =>
      (receiveAcceptorState p state).map fun (retired, p) =>
        (p, ⟨none, retired⟩)
  | .setInstanceId iid =>
      (setInstanceId p iid).map fun (retired, p) => (p, ⟨none, retired⟩)
  | .timeoutPrepare proposerTimeout iter =>
      (iteratorPrepare proposerTimeout iter p).map fun (out, _, p) =>
        (p, ⟨out.map .prepare, []⟩)
  | .timeoutAccept proposerTimeout iter =>
      (iteratorAccept proposerTimeout iter p).map fun (out, _, p) =>
        (p, ⟨out.map .accept, []⟩)

end KhProposer

end LibPaxos
