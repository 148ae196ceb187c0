import LibPaxos.Types
import LibPaxos.Library.Trace
import LibPaxos.Library.Table
import LibPaxos.Quorum
import LibPaxos.Carray

/-!
# The proposer

The functions of `proposer.c`.  A function has no result where the program
fails an assertion, follows a null pointer or indexes an array outside its
bounds.  The clock is a parameter: `now` is the `tv_sec` that `gettimeofday`
reads.

The hash tables of instances are keyed tables whose iteration order is that of
the buckets; `ProposerOp.rehash` replaces the order by any other one.

`retired` lists the client values that `instance_free` frees, since they leave
the proposer there.
-/

namespace LibPaxos

open LibPaxos.Library

/-- `struct instance` of the proposer. -/
structure ProposerInstance where
  iid : Nat
  ballot : Nat
  value : Option PaxosValue
  promisedValue : Option PaxosValue
  valueBallot : Nat
  quorum : Quorum
  createdAt : Int
  deriving DecidableEq

structure Proposer where
  id : Nat
  acceptors : Nat
  values : Queue PaxosValue
  maxTrimIid : Nat
  nextPrepareIid : Nat
  prepareInstances : Table Nat ProposerInstance
  acceptInstances : Table Nat ProposerInstance

def proposerNew (id acceptors : Nat) : Proposer where
  id := id
  acceptors := acceptors
  values := Queue.ofSize 128 (by decide)
  maxTrimIid := 0
  nextPrepareIid := 0
  prepareInstances := Table.empty
  acceptInstances := Table.empty

def proposerNextBallot (id b : Nat) : Nat :=
  if 0 < b then
    word32 (maxNOfProposers + b)
  else
    word32 (maxNOfProposers + id)

def proposerPreempt (id : Nat) (now : Int) (inst : ProposerInstance) :
    ProposerInstance × PaxosPrepare :=
  let inst :=
    { inst with
      ballot := proposerNextBallot id inst.ballot
      valueBallot := 0
      promisedValue := none
      quorum := quorumClear inst.quorum
      createdAt := now }
  (inst, ⟨id, inst.iid, inst.ballot⟩)

/-- `proposer_move_instance`: the tables afterwards. -/
def proposerMoveInstance (f t : Table Nat ProposerInstance)
    (inst : ProposerInstance) :
    Option (Table Nat ProposerInstance × Table Nat ProposerInstance) :=
  match f.get inst.iid with
  | none => none
  | some _ =>
      (t.insertNew inst.iid
        { inst with quorum := quorumClear inst.quorum }).map
          fun t => (f.erase inst.iid, t)

def instanceNew (iid ballot acceptors : Nat) (now : Int) :
    Option ProposerInstance :=
  if 0 < iid then
    some
      { iid := iid
        ballot := ballot
        value := none
        promisedValue := none
        valueBallot := 0
        quorum := quorumInit acceptors
        createdAt := now }
  else
    none

/-- `instance_free`: the client value it frees. -/
def instanceFree (inst : ProposerInstance) : List PaxosValue :=
  inst.value.toList

/-- `instance_has_timedout`; the difference of two times is stored into an
`int`. -/
def instanceHasTimedout (proposerTimeout : Int) (inst : ProposerInstance)
    (now : Int) : Bool :=
  decide (proposerTimeout ≤ (now - inst.createdAt).bmod (2 ^ 32))

def instanceToAccept (id : Nat) (inst : ProposerInstance) :
    Option PaxosAccept :=
  (inst.promisedValue.or inst.value).map fun v =>
    ⟨id, inst.iid, inst.ballot, v⟩

/-- Whether `paxos_value_cmp` is not zero. -/
def paxosValueCmp (v1 v2 : PaxosValue) : Bool :=
  decide (v1.len ≠ v2.len) || decide (v1.bytes ≠ v2.bytes)

def proposerPropose (p : Proposer) (value : PaxosValue) : Proposer :=
  { p with values := p.values.pushBack value }

def proposerPreparedCount (p : Proposer) : Nat :=
  p.prepareInstances.size

/-- The loop of `proposer_trim_instances`: it gives the values of the instances
up to `iid` back to the queue before it frees the instances. -/
def trimEntries (iid : Nat) :
    List (Nat × ProposerInstance) → Queue PaxosValue → List PaxosValue →
      Queue PaxosValue × List PaxosValue
  | [], values, retired => (values, retired)
  | (_, inst) :: rest, values, retired =>
      if inst.iid ≤ iid then
        match inst.value with
        | some v =>
            trimEntries iid rest (values.pushBack v)
              (retired ++ instanceFree { inst with value := none })
        | none => trimEntries iid rest values (retired ++ instanceFree inst)
      else
        trimEntries iid rest values retired

/-- The table that `proposer_trim_instances` leaves. -/
def trimTable (iid : Nat) (h : Table Nat ProposerInstance) :
    Table Nat ProposerInstance :=
  h.filter fun entry => !decide (entry.2.iid ≤ iid)

/-- `proposer_set_instance_id`, with two calls of `proposer_trim_instances`. -/
def proposerSetInstanceId (p : Proposer) (iid : Nat) :
    List PaxosValue × Proposer :=
  if p.nextPrepareIid < iid then
    let (values, retired) :=
      trimEntries iid p.prepareInstances.entries p.values []
    let (values, retired) :=
      trimEntries iid p.acceptInstances.entries values retired
    (retired,
      { p with
        nextPrepareIid := iid
        values := values
        prepareInstances := trimTable iid p.prepareInstances
        acceptInstances := trimTable iid p.acceptInstances })
  else
    ([], p)

def proposerPrepare (now : Int) (p : Proposer) :
    Option (PaxosPrepare × Proposer) :=
  let iid := word32 (p.nextPrepareIid + 1)
  let bal := proposerNextBallot p.id 0
  match instanceNew iid bal p.acceptors now with
  | none => none
  | some inst =>
      (p.prepareInstances.insertNew iid inst).map fun prepareInstances =>
        (⟨p.id, inst.iid, inst.ballot⟩,
          { p with
            nextPrepareIid := iid
            prepareInstances := prepareInstances })

/-- The body of the loop of `proposer_receive_promise` on entry `ii`: the
instance afterwards and the prepare that a preemption fills in. -/
def promiseEntry (id : Nat) (clock : Nat → Int) (ack : PaxosPromise) (ii : Nat)
    (inst : ProposerInstance) :
    Option (ProposerInstance × Option PaxosPrepare) :=
  match ack.ballots[ii]? with
  | none => none
  | some ballot =>
      if ballot < inst.ballot then
        some (inst, none)
      else if inst.ballot < ballot then
        let (inst, out) := proposerPreempt id (clock ii) inst
        some (inst, some out)
      else
        match ack.aids[ii]?, ack.values[ii]? with
        | some aid, some value =>
            match quorumAdd inst.quorum aid with
            | none => none
            | some (_, quorum) =>
                let inst := { inst with quorum := quorum }
                if 0 < value.len then
                  match ack.valueBallots[ii]? with
                  | none => none
                  | some valueBallot =>
                      if inst.valueBallot < valueBallot then
                        some
                          ({ inst with
                              valueBallot := valueBallot
                              promisedValue := some value }, none)
                      else
                        some (inst, none)
                else
                  some (inst, none)
        | _, _ => none

/-- The loop of `proposer_receive_promise`; a later preemption overwrites the
prepare of an earlier one. -/
def promiseLoop (id : Nat) (clock : Nat → Int) (ack : PaxosPromise) :
    List Nat → ProposerInstance → Option PaxosPrepare →
      Option (ProposerInstance × Option PaxosPrepare)
  | [], inst, out => some (inst, out)
  | ii :: rest, inst, out =>
      match promiseEntry id clock ack ii inst with
      | none => none
      | some (inst, prepare) =>
          promiseLoop id clock ack rest inst (prepare.or out)

def proposerReceivePromise (clock : Nat → Int) (p : Proposer)
    (ack : PaxosPromise) : Option (Option PaxosPrepare × Proposer) :=
  match p.prepareInstances.get ack.iid with
  | none => some (none, p)
  | some inst =>
      (promiseLoop p.id clock ack (List.range ack.nAids) inst none).map
        fun (inst, out) =>
          (out,
            { p with
              prepareInstances := p.prepareInstances.set ack.iid inst })

def smallestInstance (h : Table Nat ProposerInstance) :
    Option ProposerInstance :=
  h.entries.foldl
    (fun found entry =>
      match found with
      | none => some entry.2
      | some inst => if entry.2.iid < inst.iid then some entry.2 else some inst)
    none

/-- The client value of an instance that is about to be accepted, popped from
the queue when it has none yet. -/
def takeValue (values : Queue PaxosValue) (inst : ProposerInstance) :
    Queue PaxosValue × ProposerInstance :=
  match inst.value with
  | some _ => (values, inst)
  | none =>
      let (v, values) := values.popFront
      (values, { inst with value := v })

def proposerAccept (p : Proposer) : Option (Option PaxosAccept × Proposer) :=
  match smallestInstance p.prepareInstances with
  | none => some (none, p)
  | some inst =>
      if quorumReached inst.quorum = false then
        some (none, p)
      else
        let (values, inst) := takeValue p.values inst
        let p :=
          { p with
            values := values
            prepareInstances := p.prepareInstances.set inst.iid inst }
        if inst.value = none ∧ inst.promisedValue = none then
          some (none, p)
        else
          match
            proposerMoveInstance p.prepareInstances p.acceptInstances inst,
            instanceToAccept p.id inst with
          | some (prepareInstances, acceptInstances), some accept =>
              some (some accept,
                { p with
                  prepareInstances := prepareInstances
                  acceptInstances := acceptInstances })
          | _, _ => none

/-- What `proposer_receive_accepted` does with the client value of a closed
instance: when another value was chosen, it goes back to the queue. -/
def giveBackValue (values : Queue PaxosValue) (inst : ProposerInstance) :
    Queue PaxosValue × ProposerInstance :=
  match inst.promisedValue, inst.value with
  | some promised, some v =>
      if paxosValueCmp v promised then
        (values.pushBack v, { inst with value := none })
      else
        (values, inst)
  | _, _ => (values, inst)

def proposerReceiveAccepted (p : Proposer) (ack : PaxosAccepted) :
    Option (Bool × List PaxosValue × Proposer) :=
  match p.acceptInstances.get ack.iid with
  | none => some (false, [], p)
  | some inst =>
      match ack.ballots[0]? with
      | none => none
      | some ballot =>
          if ballot = inst.ballot then
            match ack.aids[0]? with
            | none => none
            | some aid =>
                match quorumAdd inst.quorum aid with
                | none => none
                | some (false, _) => some (false, [], p)
                | some (true, quorum) =>
                    let inst := { inst with quorum := quorum }
                    if quorumReached inst.quorum then
                      let (values, inst) := giveBackValue p.values inst
                      some (true, instanceFree inst,
                        { p with
                          values := values
                          acceptInstances := p.acceptInstances.erase ack.iid })
                    else
                      some (true, [],
                        { p with
                          acceptInstances :=
                            p.acceptInstances.set ack.iid inst })
          else
            some (false, [], p)

def proposerReceivePreempted (now : Int) (p : Proposer)
    (ack : PaxosPreempted) : Option (Option PaxosPrepare × Proposer) :=
  match p.acceptInstances.get ack.iid with
  | none => some (none, p)
  | some inst =>
      if inst.ballot < ack.ballot then
        (proposerMoveInstance p.acceptInstances p.prepareInstances inst).map
          fun (acceptInstances, prepareInstances) =>
            let (inst, out) := proposerPreempt p.id now inst
            (some out,
              { p with
                acceptInstances := acceptInstances
                prepareInstances := prepareInstances.set inst.iid inst })
      else
        some (none, p)

def proposerReceiveAcceptorState (p : Proposer) (state : PaxosAcceptorState) :
    List PaxosValue × Proposer :=
  if p.maxTrimIid < state.trimIid then
    proposerSetInstanceId { p with maxTrimIid := state.trimIid } state.trimIid
  else
    ([], p)

/-- `struct timeout_iterator`: positions in the two tables. -/
structure TimeoutIterator where
  pi : Nat
  ai : Nat
  timeout : Int

def proposerTimeoutIterator (now : Int) : TimeoutIterator :=
  ⟨0, 0, now⟩

/-- The loop of `next_timedout` over the entries from position `k` on. -/
def nextTimedout (proposerTimeout : Int) (t : Int) :
    List (Nat × ProposerInstance) → Nat → Nat × Option ProposerInstance
  | [], k => (k, none)
  | (_, inst) :: rest, k =>
      if quorumReached inst.quorum then
        nextTimedout proposerTimeout t rest (k + 1)
      else if instanceHasTimedout proposerTimeout inst t then
        (k, some inst)
      else
        nextTimedout proposerTimeout t rest (k + 1)

def timeoutIteratorPrepare (proposerTimeout : Int) (iter : TimeoutIterator)
    (p : Proposer) : Option PaxosPrepare × TimeoutIterator × Proposer :=
  match nextTimedout proposerTimeout iter.timeout
      (p.prepareInstances.entries.drop iter.pi) iter.pi with
  | (k, none) => (none, { iter with pi := k }, p)
  | (k, some inst) =>
      (some ⟨p.id, inst.iid, inst.ballot⟩, { iter with pi := k },
        { p with
          prepareInstances := p.prepareInstances.set inst.iid
            { inst with createdAt := iter.timeout } })

def timeoutIteratorAccept (proposerTimeout : Int) (iter : TimeoutIterator)
    (p : Proposer) :
    Option (Option PaxosAccept × TimeoutIterator × Proposer) :=
  match nextTimedout proposerTimeout iter.timeout
      (p.acceptInstances.entries.drop iter.ai) iter.ai with
  | (k, none) => some (none, { iter with ai := k }, p)
  | (k, some inst) =>
      (instanceToAccept p.id inst).map fun out =>
        (some out, { iter with ai := k },
          { p with
            acceptInstances := p.acceptInstances.set inst.iid
              { inst with createdAt := iter.timeout } })

/-- A call into the proposer, or a new bucket order of its tables. -/
inductive ProposerOp where
  | propose (value : PaxosValue)
  | prepare (now : Int)
  | receivePromise (clock : Nat → Int) (ack : PaxosPromise)
  | accept
  | receiveAccepted (ack : PaxosAccepted)
  | receivePreempted (now : Int) (ack : PaxosPreempted)
  | receiveAcceptorState (state : PaxosAcceptorState)
  | setInstanceId (iid : Nat)
  | timeoutPrepare (proposerTimeout : Int) (iter : TimeoutIterator)
  | timeoutAccept (proposerTimeout : Int) (iter : TimeoutIterator)
  | rehash (prepareInstances acceptInstances : Table Nat ProposerInstance)

/-- What a call hands back: a message to send, if any, and the client values
that it retired. -/
structure ProposerResult where
  sent : Option PaxosMessage
  retired : List PaxosValue

def proposerStep (p : Proposer) :
    ProposerOp → Option (Proposer × ProposerResult)
  | .propose value => some (proposerPropose p value, ⟨none, []⟩)
  | .prepare now =>
      (proposerPrepare now p).map fun (out, p) =>
        (p, ⟨some (.prepare out), []⟩)
  | .receivePromise clock ack =>
      (proposerReceivePromise clock p ack).map fun (out, p) =>
        (p, ⟨out.map .prepare, []⟩)
  | .accept =>
      (proposerAccept p).map fun (out, p) => (p, ⟨out.map .accept, []⟩)
  | .receiveAccepted ack =>
      (proposerReceiveAccepted p ack).map fun (_, retired, p) =>
        (p, ⟨none, retired⟩)
  | .receivePreempted now ack =>
      (proposerReceivePreempted now p ack).map fun (out, p) =>
        (p, ⟨out.map .prepare, []⟩)
  | .receiveAcceptorState state =>
      let (retired, p) := proposerReceiveAcceptorState p state
      some (p, ⟨none, retired⟩)
  | .setInstanceId iid =>
      let (retired, p) := proposerSetInstanceId p iid
      some (p, ⟨none, retired⟩)
  | .timeoutPrepare proposerTimeout iter =>
      let (out, _, p) := timeoutIteratorPrepare proposerTimeout iter p
      some (p, ⟨out.map .prepare, []⟩)
  | .timeoutAccept proposerTimeout iter =>
      (timeoutIteratorAccept proposerTimeout iter p).map fun (out, _, p) =>
        (p, ⟨out.map .accept, []⟩)
  | .rehash prepareInstances acceptInstances =>
      if prepareInstances.entries.Perm p.prepareInstances.entries ∧
          acceptInstances.entries.Perm p.acceptInstances.entries then
        some
          ({ p with
              prepareInstances := prepareInstances
              acceptInstances := acceptInstances }, ⟨none, []⟩)
      else
        none

abbrev ProposerTransition : Type :=
  Transition Proposer ProposerOp ProposerResult

end LibPaxos
