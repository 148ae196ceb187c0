import LibPaxos.Acceptor.Records

/-!
# Trimmed instances and failed calls

Over memory storage a trimmed instance stays gone: no call brings a record back
below the trim point, and calls for such an instance change nothing.

Over a transactional storage, where a call may fail between the start of the
transaction and its commit, a prepare or an accept that fails changes nothing.
A trim that fails does: the acceptor moves its trim point before the
transaction begins.
-/

namespace LibPaxos

open LibPaxos.Library

section Trimming

variable {id subordinates : Nat} {past : List AcceptorTransition}
variable {final : MemAcceptor}

/-- A repeat finds nothing at or below the trim point. -/
theorem receiveRepeat_trimmed
    {a : MemAcceptor} (inv : a.Inv) (mem : Memory) {iid : Nat}
    (trimmed : iid ≤ a.trimIid) :
    acceptorReceiveRepeat (memStorageApi mem) a iid = (none, a) := by
  rw [receiveRepeat_spec inv]
  cases present : a.store.records iid with
  | none => rfl
  | some record =>
      have above := (inv.record iid record present).2
      omega

/-- In every run of an acceptor the trim point never goes back and is that of
the store; no record is stored at or below it, and each record is stored under
its own instance.  Prepares, accepts and repeats at or below it have no reply
and change nothing.  A trim keeps the records above its own point. -/
theorem trimmed_instances_stay_gone
    (trace : Trace memAcceptorStep (memAcceptorNew id subordinates)
      past final) :
    (∀ current ∈ past, current.source.trimIid ≤ current.target.trimIid) ∧
    (∀ mem, (memStorageApi mem).getTrimInstance final.store =
      final.trimIid) ∧
    (∀ iid record, final.store.records iid = some record →
      record.iid = iid ∧ final.trimIid < iid) ∧
    (∀ mem isrc req, req.iid ≤ final.trimIid →
      acceptorReceivePrepare (memStorageApi mem) isrc final req =
        (none, final)) ∧
    (∀ mem req, req.iid ≤ final.trimIid →
      acceptorReceiveAccept (memStorageApi mem) final req = (none, final)) ∧
    (∀ mem iid, iid ≤ final.trimIid →
      acceptorReceiveRepeat (memStorageApi mem) final iid = (none, final)) ∧
    (∀ mem trim, final.trimIid < trim.iid → ∀ iid, trim.iid < iid →
      (acceptorReceiveTrim (memStorageApi mem) final trim).2.store.records
        iid = final.store.records iid) := by
  have inv := (memAcceptor_trace_inv trace).1
  refine ⟨?_, fun _ => inv.trim_eq, ?_, ?_, ?_, ?_, ?_⟩
  · intro current member
    obtain ⟨_, _, _, reached, stepEq⟩ := trace.mem_split member
    have sourceInv := (memAcceptor_trace_inv reached).1
    exact (memAcceptorStep_outcome sourceInv stepEq).trim_le
  · intro iid record present
    have ⟨ok, above⟩ := inv.record iid record present
    exact ⟨ok.iid_eq, above⟩
  · intro mem isrc req trimmed
    exact receivePrepare_trimmed mem isrc trimmed
  · intro mem req trimmed
    exact receiveAccept_trimmed mem trimmed
  · intro mem iid trimmed
    exact receiveRepeat_trimmed inv mem trimmed
  · intro mem trim above iid higher
    rw [receiveTrim_advance mem above]
    exact records_trim_of_lt inv higher

/-- Two accepts, and a trim of the first instance. -/
theorem trimmed_instances_stay_gone_after_trim :
    ∃ past final,
      Trace memAcceptorStep (memAcceptorNew 0 0) past final ∧
      final.trimIid = 1 ∧ (final.store.records 2).isSome = true ∧
      (∀ mem req, req.iid ≤ final.trimIid →
        acceptorReceiveAccept (memStorageApi mem) final req =
          (none, final)) := by
  have ran :=
    trace_of_runFrom memAcceptorStep (memAcceptorNew 0 0)
      ([(Memory.zero, .receiveAccept ⟨0, 1, 5, ⟨[7]⟩⟩),
        (Memory.zero, .receiveAccept ⟨0, 2, 5, ⟨[8]⟩⟩),
        (Memory.zero, .receiveTrim ⟨1⟩)]) rfl
  exact ⟨_, _, ran, rfl, rfl, (trimmed_instances_stay_gone ran).2.2.2.2.1⟩

end Trimming

/-- What a storage keeps when the program stops. -/
structure Committed where
  records : Nat → Option PaxosAccepted
  trimIid : Nat

/-- A storage whose calls may fail at any time.  Only a commit that succeeds
changes what is committed. -/
structure TransactionalApi (σ : Type) extends StorageApi σ where
  committed : σ → Committed
  committed_txBegin : ∀ s, committed (txBegin s).2 = committed s
  committed_txAbort : ∀ s, committed (txAbort s) = committed s
  committed_putRecord : ∀ s acc, committed (putRecord s acc).2 = committed s
  committed_trim : ∀ s iid, committed (trim s iid).2 = committed s
  committed_txCommit : ∀ s, (txCommit s).1 ≠ 0 →
    committed (txCommit s).2 = committed s

/-- Whether a call may change records or the trim point. -/
def AcceptorOp.updates : AcceptorOp → Bool
  | .receivePrepare _ _ => true
  | .receiveAccept _ => true
  | .receiveTrim _ => true
  | _ => false

def AcceptorResult.failed : AcceptorResult → Bool
  | .reply message => message.isNone
  | .trimmed done => !done
  | .srcid _ => false

section Failures

variable {σ : Type} (api : TransactionalApi σ) (a : Acceptor σ)

/-- The trim point and what is committed are the same before and after, and so
are equal if they were. -/
structure Untouched (after : Acceptor σ) : Prop where
  trimIid_eq : after.trimIid = a.trimIid
  committed_eq : api.committed after.store = api.committed a.store
  synced : (api.committed a.store).trimIid = a.trimIid →
    (api.committed after.store).trimIid = after.trimIid

theorem untouched_store
    {store : σ} (kept : api.committed store = api.committed a.store) :
    Untouched api a { a with store := store } where
  trimIid_eq := rfl
  committed_eq := kept
  synced := by
    intro before
    rw [kept]
    exact before

/-- A reply that is not sent was not committed. -/
theorem commitReply_none
    {store : σ} (kept : api.committed store = api.committed a.store)
    (reply : PaxosMessage)
    (unanswered : (commitReply api.toStorageApi a store reply).1 = none) :
    Untouched api a (commitReply api.toStorageApi a store reply).2 := by
  have failed := api.committed_txCommit store
  unfold commitReply at unanswered ⊢
  cases commits : api.txCommit store with
  | mk rv after =>
      rw [commits] at failed
      simp only [commits] at unanswered ⊢
      by_cases zero : rv = 0
      · simp [zero] at unanswered
      · rw [if_pos zero]
        exact untouched_store api a ((failed zero).trans kept)

/-- Nor was the record of a request that is not answered. -/
theorem putReply_none
    {store : σ} (kept : api.committed store = api.committed a.store)
    (acc : PaxosAccepted) (reply : PaxosMessage)
    {result : Option PaxosMessage × Acceptor σ}
    (put : result =
      if (api.putRecord store acc).1 ≠ 0 then
        (none, { a with store := api.txAbort (api.putRecord store acc).2 })
      else
        commitReply api.toStorageApi a (api.putRecord store acc).2 reply)
    (unanswered : result.1 = none) :
    Untouched api a result.2 := by
  have keptPut := (api.committed_putRecord store acc).trans kept
  subst put
  by_cases failed : (api.putRecord store acc).1 ≠ 0
  · rw [if_pos failed]
    apply untouched_store
    rw [api.committed_txAbort]
    exact keptPut
  · rw [if_neg failed] at unanswered ⊢
    exact commitReply_none api a keptPut reply unanswered

theorem acceptorReceivePrepare_none
    (isrc : Int) (req : PaxosPrepare)
    (unanswered :
      (acceptorReceivePrepare api.toStorageApi isrc a req).1 = none) :
    Untouched api a
      (acceptorReceivePrepare api.toStorageApi isrc a req).2 := by
  have begun := api.committed_txBegin a.store
  unfold acceptorReceivePrepare at unanswered ⊢
  by_cases trimmed : req.iid ≤ a.trimIid
  · rw [if_pos trimmed]
    exact untouched_store api a rfl
  · rw [if_neg trimmed] at unanswered ⊢
    cases begins : api.txBegin a.store with
    | mk rv store =>
        rw [begins] at begun
        simp only [begins] at unanswered ⊢
        by_cases failed : rv ≠ 0
        · rw [if_pos failed]
          exact untouched_store api a begun
        · rw [if_neg failed] at unanswered ⊢
          split at unanswered
          · next granted =>
              rw [if_pos granted]
              exact putReply_none api a begun _ _ rfl unanswered
          · next refused =>
              rw [if_neg refused]
              split at unanswered
              · next listed =>
                  rw [if_pos listed]
                  exact commitReply_none api a begun _ unanswered
              · next unlisted =>
                  rw [if_neg unlisted]
                  refine commitReply_none api a ?_ _ unanswered
                  exact (api.committed_putRecord _ _).trans begun

theorem acceptorReceiveAccept_none
    (req : PaxosAccept)
    (unanswered : (acceptorReceiveAccept api.toStorageApi a req).1 = none) :
    Untouched api a (acceptorReceiveAccept api.toStorageApi a req).2 := by
  have begun := api.committed_txBegin a.store
  unfold acceptorReceiveAccept at unanswered ⊢
  by_cases trimmed : req.iid ≤ a.trimIid
  · rw [if_pos trimmed]
    exact untouched_store api a rfl
  · rw [if_neg trimmed] at unanswered ⊢
    cases begins : api.txBegin a.store with
    | mk rv store =>
        rw [begins] at begun
        simp only [begins] at unanswered ⊢
        by_cases failed : rv ≠ 0
        · rw [if_pos failed]
          exact untouched_store api a begun
        · rw [if_neg failed] at unanswered ⊢
          split at unanswered
          · next granted =>
              rw [if_pos granted]
              exact putReply_none api a begun _ _ rfl unanswered
          · next refused =>
              rw [if_neg refused]
              exact commitReply_none api a begun _ unanswered

/-- Whether a trim reaches the storage and the storage fails to begin or to
commit its transaction. -/
def Acceptor.TrimFails (op : AcceptorOp) : Prop :=
  ∃ trim, op = .receiveTrim trim ∧ a.trimIid < trim.iid ∧
    ((api.txBegin a.store).1 ≠ 0 ∨
      (api.txCommit
        (api.trim (api.txBegin a.store).2 trim.iid).2).1 ≠ 0)

theorem acceptorReceiveTrim_stale
    {trim : PaxosTrim} (stale : trim.iid ≤ a.trimIid) :
    acceptorReceiveTrim api.toStorageApi a trim = (false, a) := by
  unfold acceptorReceiveTrim
  rw [if_pos stale]

/-- A trim above the trim point always moves it, and fails exactly if the
storage does. -/
theorem acceptorReceiveTrim_advance
    {trim : PaxosTrim} (above : a.trimIid < trim.iid) :
    (acceptorReceiveTrim api.toStorageApi a trim).2.trimIid = trim.iid ∧
      ((acceptorReceiveTrim api.toStorageApi a trim).1 = false ↔
        a.TrimFails api (.receiveTrim trim)) := by
  have reaches : a.TrimFails api (.receiveTrim trim) ↔
      (api.txBegin a.store).1 ≠ 0 ∨
        (api.txCommit
          (api.trim (api.txBegin a.store).2 trim.iid).2).1 ≠ 0 := by
    constructor
    · rintro ⟨_, same, _, fails⟩
      cases same
      exact fails
    · intro fails
      exact ⟨trim, rfl, above, fails⟩
  have shape : acceptorReceiveTrim api.toStorageApi a trim =
      if (api.txBegin a.store).1 ≠ 0 then
        (false,
          { a with
            trimIid := trim.iid
            store := (api.txBegin a.store).2 })
      else
        (decide ((api.txCommit
          (api.trim (api.txBegin a.store).2 trim.iid).2).1 = 0),
          { a with
            trimIid := trim.iid
            store := (api.txCommit
              (api.trim (api.txBegin a.store).2 trim.iid).2).2 }) := by
    unfold acceptorReceiveTrim
    rw [if_neg (Nat.not_le.mpr above)]
  rw [reaches, shape]
  by_cases failed : (api.txBegin a.store).1 ≠ 0
  · rw [if_pos failed]
    exact ⟨rfl, iff_of_true rfl (Or.inl failed)⟩
  · rw [if_neg failed, or_iff_right failed]
    exact ⟨rfl, decide_eq_false_iff_not⟩

/-- A prepare, an accept or a trim that returns 0 leaves the trim point and
what is committed as they were. -/
def Acceptor.FailsCleanly (op : AcceptorOp) : Prop :=
  op.updates = true →
    (acceptorStep api.toStorageApi a op).2.failed = true →
    Untouched api a (acceptorStep api.toStorageApi a op).1

theorem not_trimFails {op : AcceptorOp}
    (different : ∀ trim, op ≠ .receiveTrim trim) : ¬ a.TrimFails api op := by
  intro fails
  obtain ⟨trim, isTrim, _⟩ := fails
  exact different trim isTrim

/-- A call that does not update anything cannot fail. -/
theorem failsCleanly_of_reads {op : AcceptorOp} (reads : op.updates = false) :
    a.FailsCleanly api op := by
  intro updates
  rw [reads] at updates
  cases updates

/-- A failed call leaves everything as it was, except for a trim that reaches
a failing storage. -/
theorem failed_calls_atomic_iff (op : AcceptorOp) :
    a.FailsCleanly api op ↔ ¬ a.TrimFails api op := by
  cases op with
  | receivePrepare isrc req =>
      refine iff_of_true ?_ (not_trimFails api a (by simp))
      intro _ failed
      apply acceptorReceivePrepare_none
      exact Option.isNone_iff_eq_none.mp failed
  | receiveAccept req =>
      refine iff_of_true ?_ (not_trimFails api a (by simp))
      intro _ failed
      apply acceptorReceiveAccept_none
      exact Option.isNone_iff_eq_none.mp failed
  | receiveTrim trim =>
      by_cases stale : trim.iid ≤ a.trimIid
      · refine iff_of_true ?_ ?_
        · intro _ _
          change Untouched api a
            (acceptorReceiveTrim api.toStorageApi a trim).2
          rw [acceptorReceiveTrim_stale api a stale]
          exact untouched_store api a rfl
        · rintro ⟨_, same, above, _⟩
          cases same
          omega
      · have above := Nat.lt_of_not_le stale
        obtain ⟨moved, fails⟩ := acceptorReceiveTrim_advance api a above
        constructor
        · intro clean trimFails
          have failed := fails.mpr trimFails
          have untouched := clean rfl (by
            change (!(acceptorReceiveTrim api.toStorageApi a trim).1) = true
            rw [failed]
            rfl)
          have kept : (acceptorReceiveTrim api.toStorageApi a trim).2.trimIid =
              a.trimIid := untouched.trimIid_eq
          omega
        · intro succeeds _ failed
          have returned : (acceptorReceiveTrim api.toStorageApi a trim).1 =
              false := by
            simpa [acceptorStep, AcceptorResult.failed] using failed
          exact False.elim (succeeds (fails.mp returned))
  | receiveRepeat iid =>
      exact iff_of_true (failsCleanly_of_reads api a rfl)
        (not_trimFails api a (by simp))
  | relayPromise pr =>
      exact iff_of_true (failsCleanly_of_reads api a rfl)
        (not_trimFails api a (by simp))
  | relayAccepted ac =>
      exact iff_of_true (failsCleanly_of_reads api a rfl)
        (not_trimFails api a (by simp))
  | relayPreempted ac =>
      exact iff_of_true (failsCleanly_of_reads api a rfl)
        (not_trimFails api a (by simp))

end Failures

/-- A storage with one open transaction at a time.  `failures` tells which of
the next calls that begin, put or commit fail. -/
structure TxStorage where
  kept : Committed
  txn : Option Committed
  failures : List Bool

namespace TxStorage

/-- The transaction, or what is committed outside of one. -/
def current (s : TxStorage) : Committed :=
  s.txn.getD s.kept

def fails (s : TxStorage) : Bool :=
  s.failures.headD false

/-- The storage after a call has taken its place in the plan of failures. -/
def next (s : TxStorage) : TxStorage :=
  { s with failures := s.failures.tail }

def api : TransactionalApi TxStorage where
  txBegin := fun s =>
    if s.fails then (-1, s.next) else (0, { s.next with txn := some s.kept })
  txCommit := fun s =>
    if s.fails then
      (-1, { s.next with txn := none })
    else
      (0, { s.next with kept := s.current, txn := none })
  txAbort := fun s => { s with txn := none }
  getRecord := fun s iid => s.current.records iid
  putRecord := fun s acc =>
    if s.fails then
      (-1, s.next)
    else
      (0, { s.next with
        txn := s.txn.map fun txn =>
          { txn with
            records := Function.update txn.records acc.iid (some acc) } })
  trim := fun s iid =>
    (0, { s with
      txn := s.txn.map fun txn =>
        ⟨fun key => if key ≤ iid then none else txn.records key, iid⟩ })
  getTrimInstance := fun s => s.current.trimIid
  committed := TxStorage.kept
  committed_txBegin := by
    intro s
    dsimp only
    split <;> rfl
  committed_txAbort := fun _ => rfl
  committed_putRecord := by
    intro s acc
    dsimp only
    split <;> rfl
  committed_trim := fun _ _ => rfl
  committed_txCommit := by
    intro s failed
    dsimp only at failed ⊢
    split at failed
    · next fails => rw [if_pos fails]; rfl
    · exact False.elim (failed rfl)

def empty (failures : List Bool) : TxStorage :=
  ⟨⟨fun _ => none, 0⟩, none, failures⟩

end TxStorage

/-- A trim to instance 5 whose transaction does not begin returns 0 with the
trim point moved to 5. -/
theorem failed_trim_moves_trim_point :
    ¬ (acceptorNew TxStorage.api.toStorageApi (TxStorage.empty [true]) 0
        0).FailsCleanly TxStorage.api (.receiveTrim ⟨5⟩) := by
  intro clean
  exact absurd (clean rfl rfl).trimIid_eq (by decide)

end LibPaxos
