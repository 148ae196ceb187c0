import LibPaxos.Library.Session
import LibPaxos.Acceptor.Model

/-!
# The requests of an acceptor to its storage

Each call into the acceptor is written here as a session with the storage
interface, and running that session is the call of the model.  The session
shows what the model's functions do not: which records the acceptor asks for,
also where the answer is not used.
-/

namespace LibPaxos

open LibPaxos.Library

variable {σ : Type}

/-- A call through the function table of `struct storage`. -/
inductive StorageRequest where
  | txBegin
  | txCommit
  | txAbort
  | getRecord (iid : Nat)
  | putRecord (acc : PaxosAccepted)
  | trim (iid : Nat)

/-- What a call through the function table returns. -/
abbrev StorageRequest.Answer : StorageRequest → Type
  | txBegin => Int
  | txCommit => Int
  | txAbort => Unit
  | getRecord _ => Option PaxosAccepted
  | putRecord _ => Int
  | trim _ => Int

/-- A function over the storage interface. -/
abbrev StorageSession (α : Type) : Type :=
  Session StorageRequest StorageRequest.Answer α

/-- Storage answering the calls of its function table. -/
def StorageApi.serve (api : StorageApi σ) :
    Server StorageRequest StorageRequest.Answer σ
  | .txBegin, store => api.txBegin store
  | .txCommit, store => api.txCommit store
  | .txAbort, store => ((), api.txAbort store)
  | .getRecord iid, store => (api.getRecord store iid, store)
  | .putRecord acc, store => api.putRecord store acc
  | .trim iid, store => api.trim store iid

/-- Begin a transaction and look up a record, or refuse when the transaction
does not begin. -/
def lookupSession {α : Type} (iid : Nat) (refused : α)
    (resume : Option PaxosAccepted → StorageSession α) : StorageSession α :=
  .call .txBegin fun (rv : Int) =>
    if rv ≠ 0 then
      .done refused
    else
      .call (.getRecord iid) resume

/-- Commit the transaction and reply, or reply nothing when the commit
fails. -/
def commitReplySession (reply : PaxosMessage) :
    StorageSession (Option PaxosMessage) :=
  .call .txCommit fun (rv : Int) =>
    if rv ≠ 0 then
      .done none
    else
      .done (some reply)

def receivePrepareSession (isrc : Int) (id trimIid : Nat)
    (req : PaxosPrepare) : StorageSession (Option PaxosMessage) :=
  if req.iid ≤ trimIid then
    .done none
  else
    lookupSession req.iid none fun found =>
      let acc := found.getD PaxosAccepted.zeroed
      if found = none ∨ acc.ballot ≤ req.ballot then
        let acc := preparedRecord isrc id acc req
        .call (.putRecord acc) fun (rv : Int) =>
          if rv ≠ 0 then
            .call .txAbort fun _ => .done none
          else
            commitReplySession (.promise (paxosAcceptedToPromise acc))
      else if acc.hasAid id then
        commitReplySession (.promise (paxosAcceptedToPromise acc))
      else
        let acc := acc.appendAid id req.ballot req.ballot
        .call (.putRecord acc) fun _ =>
          commitReplySession (.promise (paxosAcceptedToPromise acc))

def receiveAcceptSession (id trimIid : Nat) (req : PaxosAccept) :
    StorageSession (Option PaxosMessage) :=
  if req.iid ≤ trimIid then
    .done none
  else
    lookupSession req.iid none fun found =>
      let acc := found.getD PaxosAccepted.zeroed
      if found = none ∨ acc.ballot ≤ req.ballot then
        let out := paxosAcceptToAccepted id req
        .call (.putRecord out) fun (rv : Int) =>
          if rv ≠ 0 then
            .call .txAbort fun _ => .done none
          else
            commitReplySession (.accepted out)
      else
        commitReplySession (.preempted (paxosAcceptedToPreempted id acc))

def receiveRepeatSession (iid : Nat) :
    StorageSession (Option PaxosAccepted) :=
  lookupSession iid none fun found =>
    .call .txCommit fun (rv : Int) =>
      if rv ≠ 0 then
        .done none
      else
        .done (found.filter fun out =>
          out.values.isSome && decide (0 < out.value.len))

/-- `acceptor_receive_trim`, apart from the `trim_iid` that it sets. -/
def receiveTrimSession (trimIid : Nat) (trim : PaxosTrim) :
    StorageSession Bool :=
  if trim.iid ≤ trimIid then
    .done false
  else
    .call .txBegin fun (rv : Int) =>
      if rv ≠ 0 then
        .done false
      else
        .call (.trim trim.iid) fun _ =>
          .call .txCommit fun (rv : Int) => .done (decide (rv = 0))

/-- The loop over the entries of a relayed message, and what follows it. -/
def adjustRecordSession {α : Type} (finish : Nat → StorageSession α) :
    List (Nat × Nat × Nat) → PaxosAccepted → Nat → StorageSession α
  | [], _, counted => finish counted
  | (aid, ballot, valueBallot) :: rest, acc, counted =>
      if acc.hasAid aid then
        adjustRecordSession finish rest acc counted
      else
        let acc := acc.appendAid aid ballot valueBallot
        .call (.putRecord acc) fun _ =>
          adjustRecordSession finish rest acc acc.nAids

/-- Commit the transaction; the source id is returned only when the loop has
counted enough ids. -/
def commitSrcidSession (subordinates : Nat) (ret : Int) (counted : Nat) :
    StorageSession Int :=
  .call .txCommit fun (rv : Int) =>
    if rv ≠ 0 then
      .done (-1)
    else if subordinates / 2 ≤ counted then
      .done ret
    else
      .done (-1)

/-- The common body of `get_srcid_promise_and_adjust` and
`get_srcid_accepted`. -/
def getSrcidSession (subordinates iid : Nat)
    (entries : List (Nat × Nat × Nat)) : StorageSession Int :=
  lookupSession iid (-1) fun found =>
    match found with
    | none => commitSrcidSession subordinates (-1) 0
    | some acc =>
        adjustRecordSession
          (commitSrcidSession subordinates (intOfUint32 acc.src))
          entries acc 0

def getSrcidPreemptedSession (iid : Nat) : StorageSession Int :=
  lookupSession iid (-1) fun found =>
    .call .txCommit fun (rv : Int) =>
      if rv ≠ 0 then
        .done (-1)
      else
        .done
          (match found with
          | none => -1
          | some acc => intOfUint32 acc.src)

/-! ### Running a session is the call of the model -/

/-- The acceptor after a session that left its storage so. -/
def Acceptor.withStore (a : Acceptor σ) (store : σ) : Acceptor σ :=
  { a with store := store }

section Run

variable (api : StorageApi σ) (a : Acceptor σ)

theorem commitReplySession_run (store : σ) (reply : PaxosMessage) :
    Prod.map id a.withStore
        ((commitReplySession reply).run api.serve store) =
      commitReply api a store reply := by
  unfold commitReplySession commitReply
  simp only [Session.run, apply_ite (Session.run api.serve), ite_apply,
    apply_ite (Prod.map id a.withStore)]
  rfl

theorem receivePrepareSession_run (isrc : Int) (req : PaxosPrepare) :
    Prod.map id a.withStore
        ((receivePrepareSession isrc a.id a.trimIid req).run
          api.serve a.store) =
      acceptorReceivePrepare api isrc a req := by
  unfold receivePrepareSession lookupSession acceptorReceivePrepare
  simp only [← commitReplySession_run, Session.run,
    apply_ite (Session.run api.serve), ite_apply,
    apply_ite (Prod.map id a.withStore)]
  rfl

theorem receiveAcceptSession_run (req : PaxosAccept) :
    Prod.map id a.withStore
        ((receiveAcceptSession a.id a.trimIid req).run api.serve a.store) =
      acceptorReceiveAccept api a req := by
  unfold receiveAcceptSession lookupSession acceptorReceiveAccept
  simp only [← commitReplySession_run, Session.run,
    apply_ite (Session.run api.serve), ite_apply,
    apply_ite (Prod.map id a.withStore)]
  rfl

theorem receiveRepeatSession_run (iid : Nat) :
    Prod.map id a.withStore
        ((receiveRepeatSession iid).run api.serve a.store) =
      acceptorReceiveRepeat api a iid := by
  unfold receiveRepeatSession lookupSession acceptorReceiveRepeat
  simp only [Session.run, apply_ite (Session.run api.serve), ite_apply,
    apply_ite (Prod.map id a.withStore)]
  rfl

theorem receiveTrimSession_run (trim : PaxosTrim) :
    Prod.map id
        (Acceptor.withStore { a with trimIid := max a.trimIid trim.iid })
        ((receiveTrimSession a.trimIid trim).run api.serve a.store) =
      acceptorReceiveTrim api a trim := by
  unfold receiveTrimSession acceptorReceiveTrim
  by_cases late : trim.iid ≤ a.trimIid
  · rw [if_pos late, if_pos late, max_eq_left late]
    rfl
  · rw [if_neg late, if_neg late, max_eq_right (by omega)]
    simp only [Session.run, apply_ite (Session.run api.serve), ite_apply,
      apply_ite (Prod.map id
        (Acceptor.withStore { a with trimIid := trim.iid }))]
    rfl

theorem commitSrcidSession_run (ret : Int) (store : σ) (counted : Nat) :
    Prod.map id a.withStore
        ((commitSrcidSession a.subordinates ret counted).run
          api.serve store) =
      commitSrcid api a ret store counted := by
  unfold commitSrcidSession commitSrcid
  simp only [Session.run, apply_ite (Session.run api.serve), ite_apply,
    apply_ite (Prod.map id a.withStore)]
  rfl

/-- The loop leaves the storage and the count that the rest of the session
goes on with. -/
theorem adjustRecordSession_run {α : Type} (finish : Nat → StorageSession α)
    (entries : List (Nat × Nat × Nat)) :
    ∀ (store : σ) (acc : PaxosAccepted) (counted : Nat),
      (adjustRecordSession finish entries acc counted).run api.serve store =
        (finish (adjustRecord api entries store acc counted).2).run api.serve
          (adjustRecord api entries store acc counted).1 := by
  induction entries with
  | nil =>
      intro store acc counted
      rfl
  | cons entry rest inductionHypothesis =>
      obtain ⟨aid, ballot, valueBallot⟩ := entry
      intro store acc counted
      by_cases listed : acc.hasAid aid = true
      · simp only [adjustRecordSession, adjustRecord, if_pos listed]
        exact inductionHypothesis store acc counted
      · simp only [adjustRecordSession, adjustRecord, if_neg listed]
        exact inductionHypothesis _ _ _

theorem getSrcidSession_run (iid : Nat) (entries : List (Nat × Nat × Nat)) :
    Prod.map id a.withStore
        ((getSrcidSession a.subordinates iid entries).run
          api.serve a.store) =
      getSrcid api iid entries a := by
  have began : api.serve .txBegin a.store = api.txBegin a.store := rfl
  have asked : api.serve (.getRecord iid) (api.txBegin a.store).2 =
      (api.getRecord (api.txBegin a.store).2 iid,
        (api.txBegin a.store).2) := rfl
  unfold getSrcidSession lookupSession getSrcid
  by_cases fails : (api.txBegin a.store).1 ≠ 0
  · simp only [Session.run, began, if_pos fails]
    rfl
  · simp only [Session.run, began, if_neg fails, asked]
    cases api.getRecord (api.txBegin a.store).2 iid with
    | none => exact commitSrcidSession_run api a (-1) _ 0
    | some acc =>
        simp only [adjustRecordSession_run]
        exact commitSrcidSession_run api a (intOfUint32 acc.src) _ _

theorem getSrcidPreemptedSession_run (ac : PaxosPreempted) :
    Prod.map id a.withStore
        ((getSrcidPreemptedSession ac.iid).run api.serve a.store) =
      getSrcidPreempted api ac a := by
  unfold getSrcidPreemptedSession lookupSession getSrcidPreempted
  simp only [Session.run, apply_ite (Session.run api.serve), ite_apply,
    apply_ite (Prod.map id a.withStore)]
  rfl

end Run

/-- The requests that a call into the acceptor makes to its storage, in
order. -/
def acceptorRequests (api : StorageApi σ) (a : Acceptor σ) :
    AcceptorOp → List StorageRequest
  | .receivePrepare isrc req =>
      (receivePrepareSession isrc a.id a.trimIid req).requests
        api.serve a.store
  | .receiveAccept req =>
      (receiveAcceptSession a.id a.trimIid req).requests api.serve a.store
  | .receiveRepeat iid => (receiveRepeatSession iid).requests api.serve a.store
  | .receiveTrim trim =>
      (receiveTrimSession a.trimIid trim).requests api.serve a.store
  | .relayPromise pr =>
      (getSrcidSession a.subordinates pr.iid
        (relayedEntries pr.nAids pr.aids pr.ballots pr.valueBallots)).requests
        api.serve a.store
  | .relayAccepted ac =>
      (getSrcidSession a.subordinates ac.iid
        (relayedEntries ac.nAids ac.aids ac.ballots ac.valueBallots)).requests
        api.serve a.store
  | .relayPreempted ac =>
      (getSrcidPreemptedSession ac.iid).requests api.serve a.store

/-- A predicate on storage that every request keeps holds after a call into
the acceptor. -/
theorem acceptorStep_keeps
    {api : StorageApi σ} {good : σ → Prop}
    (kept : ∀ request store, good store → good (api.serve request store).2)
    {a : Acceptor σ} (holds : good a.store) (op : AcceptorOp) :
    good (acceptorStep api a op).1.store := by
  cases op with
  | receivePrepare isrc req =>
      simp only [acceptorStep, ← receivePrepareSession_run]
      exact Session.run_keeps kept _ holds
  | receiveAccept req =>
      simp only [acceptorStep, ← receiveAcceptSession_run]
      exact Session.run_keeps kept _ holds
  | receiveRepeat iid =>
      simp only [acceptorStep, ← receiveRepeatSession_run]
      exact Session.run_keeps kept (receiveRepeatSession iid) holds
  | receiveTrim trim =>
      simp only [acceptorStep, ← receiveTrimSession_run]
      exact Session.run_keeps kept _ holds
  | relayPromise pr =>
      simp only [acceptorStep, getSrcidPromiseAndAdjust,
        ← getSrcidSession_run]
      exact Session.run_keeps kept (getSrcidSession _ pr.iid _) holds
  | relayAccepted ac =>
      simp only [acceptorStep, getSrcidAccepted, ← getSrcidSession_run]
      exact Session.run_keeps kept (getSrcidSession _ ac.iid _) holds
  | relayPreempted ac =>
      simp only [acceptorStep, ← getSrcidPreemptedSession_run]
      exact Session.run_keeps kept (getSrcidPreemptedSession ac.iid) holds

end LibPaxos
