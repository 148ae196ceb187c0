import LibPaxos.Storage

/-!
# The acceptor

The functions of `acceptor.c`, over any storage.  A function of the source
that fills an output message and returns a flag returns an optional message
here, present when the flag is one.

`get_srcid_promise_and_adjust` and `get_srcid_accepted` have the same body over
the arrays of their message; it is `getSrcid`.  A relayed message carries
`n_aids` entries in each of its arrays; an entry that is missing is read as
zero.
-/

namespace LibPaxos

variable {σ : Type}

structure Acceptor (σ : Type) where
  id : Nat
  trimIid : Nat
  subordinates : Nat
  store : σ

/-- `acceptor_new` on storage that opens.  It leaves `subordinates` unset;
`setsubordinates` gives it a value before the acceptor is used. -/
def acceptorNew (api : StorageApi σ) (store : σ) (id subordinates : Nat) :
    Acceptor σ :=
  ⟨id, api.getTrimInstance store, subordinates, store⟩

def paxosAcceptedToPromise (acc : PaxosAccepted) : PaxosPromise where
  src := acc.src
  iid := acc.iid
  ballot0 := acc.ballot
  valueBallot0 := acc.valueBallot
  nAids := 1
  aids := [acc.aid]
  value0 := PaxosValue.empty
  values := [acc.value]
  ballots := [acc.ballot]
  valueBallots := [acc.valueBallot]

def paxosAcceptToAccepted (id : Nat) (acc : PaxosAccept) : PaxosAccepted where
  src := acc.src
  iid := acc.iid
  ballot0 := acc.ballot
  valueBallot0 := acc.ballot
  nAids := 1
  aids := [id]
  value0 := PaxosValue.empty
  values := some [acc.value]
  ballots := [acc.ballot]
  valueBallots := [acc.ballot]

def paxosAcceptedToPreempted (id : Nat) (acc : PaxosAccepted) :
    PaxosPreempted :=
  ⟨id, acc.iid, acc.ballot⟩

/-- The record that `acceptor_receive_prepare` stores when it grants the
request: it overwrites every array of the record it found. -/
def preparedRecord (isrc : Int) (id : Nat) (acc : PaxosAccepted)
    (req : PaxosPrepare) : PaxosAccepted :=
  { acc with
    src := uint32OfInt isrc
    iid := req.iid
    ballot0 := req.ballot
    nAids := 1
    aids := [id]
    ballots := [req.ballot]
    valueBallots := [req.ballot]
    values := none }

namespace PaxosAccepted

/-- The scan of the `aids` of a record for an acceptor id. -/
def hasAid (acc : PaxosAccepted) (aid : Nat) : Bool :=
  (acc.aids.take acc.nAids).contains aid

/-- The three arrays grown by one entry; `values` is left as it is. -/
def appendAid (acc : PaxosAccepted) (aid ballot valueBallot : Nat) :
    PaxosAccepted :=
  { acc with
    nAids := acc.nAids + 1
    aids := acc.aids.take acc.nAids ++ [aid]
    ballots := acc.ballots.take acc.nAids ++ [ballot]
    valueBallots := acc.valueBallots.take acc.nAids ++ [valueBallot] }

end PaxosAccepted

/-- Commit the transaction and reply, or reply nothing when the commit
fails. -/
def commitReply (api : StorageApi σ) (a : Acceptor σ) (store : σ)
    (reply : PaxosMessage) : Option PaxosMessage × Acceptor σ :=
  let (rv, store) := api.txCommit store
  if rv ≠ 0 then
    (none, { a with store := store })
  else
    (some reply, { a with store := store })

def acceptorReceivePrepare (api : StorageApi σ) (isrc : Int) (a : Acceptor σ)
    (req : PaxosPrepare) : Option PaxosMessage × Acceptor σ :=
  if req.iid ≤ a.trimIid then
    (none, a)
  else
    let (rv, store) := api.txBegin a.store
    if rv ≠ 0 then
      (none, { a with store := store })
    else
      let found := api.getRecord store req.iid
      let acc := found.getD PaxosAccepted.zeroed
      if found = none ∨ acc.ballot ≤ req.ballot then
        let acc := preparedRecord isrc a.id acc req
        let (rv, store) := api.putRecord store acc
        if rv ≠ 0 then
          (none, { a with store := api.txAbort store })
        else
          commitReply api a store (.promise (paxosAcceptedToPromise acc))
      else if acc.hasAid a.id then
        commitReply api a store (.promise (paxosAcceptedToPromise acc))
      else
        let acc := acc.appendAid a.id req.ballot req.ballot
        let (_, store) := api.putRecord store acc
        commitReply api a store (.promise (paxosAcceptedToPromise acc))

def acceptorReceiveAccept (api : StorageApi σ) (a : Acceptor σ)
    (req : PaxosAccept) : Option PaxosMessage × Acceptor σ :=
  if req.iid ≤ a.trimIid then
    (none, a)
  else
    let (rv, store) := api.txBegin a.store
    if rv ≠ 0 then
      (none, { a with store := store })
    else
      let found := api.getRecord store req.iid
      let acc := found.getD PaxosAccepted.zeroed
      if found = none ∨ acc.ballot ≤ req.ballot then
        let out := paxosAcceptToAccepted a.id req
        let (rv, store) := api.putRecord store out
        if rv ≠ 0 then
          (none, { a with store := api.txAbort store })
        else
          commitReply api a store (.accepted out)
      else
        commitReply api a store
          (.preempted (paxosAcceptedToPreempted a.id acc))

def acceptorReceiveRepeat (api : StorageApi σ) (a : Acceptor σ)
    (iid : Nat) : Option PaxosAccepted × Acceptor σ :=
  let (rv, store) := api.txBegin a.store
  if rv ≠ 0 then
    (none, { a with store := store })
  else
    let found := api.getRecord store iid
    let (rv, store) := api.txCommit store
    if rv ≠ 0 then
      (none, { a with store := store })
    else
      (found.filter fun out => out.values.isSome && decide (0 < out.value.len),
        { a with store := store })

/-- `acceptor_receive_trim`: it advances `trim_iid` before the transaction
begins. -/
def acceptorReceiveTrim (api : StorageApi σ) (a : Acceptor σ)
    (trim : PaxosTrim) : Bool × Acceptor σ :=
  if trim.iid ≤ a.trimIid then
    (false, a)
  else
    let a := { a with trimIid := trim.iid }
    let (rv, store) := api.txBegin a.store
    if rv ≠ 0 then
      (false, { a with store := store })
    else
      let (_, store) := api.trim store trim.iid
      let (rv, store) := api.txCommit store
      (decide (rv = 0), { a with store := store })

/-- The entries of a relayed message: acceptor id, ballot and value ballot. -/
def relayedEntries (nAids : Nat) (aids ballots valueBallots : List Nat) :
    List (Nat × Nat × Nat) :=
  (List.range nAids).map fun j =>
    (aids.getD j 0, ballots.getD j 0, valueBallots.getD j 0)

/-- The loop over the entries of a relayed message.  Each id that the record
does not list yet is appended, and the record is stored at once; the counter
is the length of the last record stored. -/
def adjustRecord (api : StorageApi σ) :
    List (Nat × Nat × Nat) → σ → PaxosAccepted → Nat → σ × Nat
  | [], store, _, counted => (store, counted)
  | (aid, ballot, valueBallot) :: rest, store, acc, counted =>
      if acc.hasAid aid then
        adjustRecord api rest store acc counted
      else
        let acc := acc.appendAid aid ballot valueBallot
        adjustRecord api rest (api.putRecord store acc).2 acc acc.nAids

/-- Commit the transaction; the source id is returned only when the loop has
counted enough ids. -/
def commitSrcid (api : StorageApi σ) (a : Acceptor σ) (ret : Int) (store : σ)
    (counted : Nat) : Int × Acceptor σ :=
  let (rv, store) := api.txCommit store
  if rv ≠ 0 then
    (-1, { a with store := store })
  else if a.subordinates / 2 ≤ counted then
    (ret, { a with store := store })
  else
    (-1, { a with store := store })

/-- The common body of `get_srcid_promise_and_adjust` and
`get_srcid_accepted`. -/
def getSrcid (api : StorageApi σ) (iid : Nat)
    (entries : List (Nat × Nat × Nat)) (a : Acceptor σ) :
    Int × Acceptor σ :=
  let (rv, store) := api.txBegin a.store
  if rv ≠ 0 then
    (-1, { a with store := store })
  else
    match api.getRecord store iid with
    | none => commitSrcid api a (-1) store 0
    | some acc =>
        let (store, counted) := adjustRecord api entries store acc 0
        commitSrcid api a (intOfUint32 acc.src) store counted

def getSrcidPromiseAndAdjust (api : StorageApi σ) (pr : PaxosPromise)
    (a : Acceptor σ) : Int × Acceptor σ :=
  getSrcid api pr.iid
    (relayedEntries pr.nAids pr.aids pr.ballots pr.valueBallots) a

def getSrcidAccepted (api : StorageApi σ) (ac : PaxosAccepted)
    (a : Acceptor σ) : Int × Acceptor σ :=
  getSrcid api ac.iid
    (relayedEntries ac.nAids ac.aids ac.ballots ac.valueBallots) a

def getSrcidPreempted (api : StorageApi σ) (ac : PaxosPreempted)
    (a : Acceptor σ) : Int × Acceptor σ :=
  let (rv, store) := api.txBegin a.store
  if rv ≠ 0 then
    (-1, { a with store := store })
  else
    let ret : Int :=
      match api.getRecord store ac.iid with
      | none => -1
      | some acc => intOfUint32 acc.src
    let (rv, store) := api.txCommit store
    if rv ≠ 0 then
      (-1, { a with store := store })
    else
      (ret, { a with store := store })

inductive AcceptorOp where
  | receivePrepare (isrc : Int) (req : PaxosPrepare)
  | receiveAccept (req : PaxosAccept)
  | receiveRepeat (iid : Nat)
  | receiveTrim (trim : PaxosTrim)
  | relayPromise (pr : PaxosPromise)
  | relayAccepted (ac : PaxosAccepted)
  | relayPreempted (ac : PaxosPreempted)

/-- What a call returns: a reply to send, if any, or the source id of a
relayed message. -/
inductive AcceptorResult where
  | reply (message : Option PaxosMessage)
  | trimmed (done : Bool)
  | srcid (id : Int)

def AcceptorResult.sent : AcceptorResult → Option PaxosMessage
  | .reply message => message
  | .trimmed _ => none
  | .srcid _ => none

/-- One call into the acceptor: the state it leaves and its result. -/
def acceptorStep (api : StorageApi σ) (a : Acceptor σ) :
    AcceptorOp → Acceptor σ × AcceptorResult
  | .receivePrepare isrc req =>
      let (out, a) := acceptorReceivePrepare api isrc a req
      (a, .reply out)
  | .receiveAccept req =>
      let (out, a) := acceptorReceiveAccept api a req
      (a, .reply out)
  | .receiveRepeat iid =>
      let (out, a) := acceptorReceiveRepeat api a iid
      (a, .reply (out.map .accepted))
  | .receiveTrim trim =>
      let (done, a) := acceptorReceiveTrim api a trim
      (a, .trimmed done)
  | .relayPromise pr =>
      let (ret, a) := getSrcidPromiseAndAdjust api pr a
      (a, .srcid ret)
  | .relayAccepted ac =>
      let (ret, a) := getSrcidAccepted api ac a
      (a, .srcid ret)
  | .relayPreempted ac =>
      let (ret, a) := getSrcidPreempted api ac a
      (a, .srcid ret)

end LibPaxos
