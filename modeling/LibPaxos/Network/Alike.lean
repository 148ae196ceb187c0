import LibPaxos.Network.Model

/-!
# Acceptors that differ in relayed ids only

An acceptor that also relays replies appends ids to its records.  Next to an
acceptor that gets the same requests and trims but relays nothing it keeps the
same heads of records, and it gives the same answers to all requests.
-/

namespace LibPaxos

open LibPaxos.Library

/-- The first acceptor has the records of the second one, up to what relayed
replies append. -/
structure MemAcceptor.Alike (a plain : MemAcceptor) : Prop where
  inv : a.Inv
  plainInv : plain.Inv
  id_eq : a.id = plain.id
  trim_eq : a.trimIid = plain.trimIid
  records : ∀ key, Option.Rel SameHead (plain.store.records key)
    (a.store.records key)

namespace MemAcceptor.Alike

variable {a plain : MemAcceptor} (alike : a.Alike plain)

theorem new (id subordinates other : Nat) :
    (memAcceptorNew id subordinates).Alike (memAcceptorNew id other) where
  inv := memAcceptorNew_inv id subordinates
  plainInv := memAcceptorNew_inv id other
  id_eq := rfl
  trim_eq := rfl
  records := fun _ => .none

include alike

/-- Beside a record there is one with the same head. -/
theorem beside
    {key : Nat} {record : PaxosAccepted}
    (stored : a.store.records key = some record) :
    ∃ head, plain.store.records key = some head ∧ SameHead head record := by
  have related := alike.records key
  rw [stored] at related
  cases found : plain.store.records key with
  | none =>
      rw [found] at related
      cases related
  | some head =>
      rw [found] at related
      cases related with
      | some sameHead => exact ⟨head, rfl, sameHead⟩

/-- What one acceptor grants, the other one does. -/
theorem grants {iid ballot : Nat} (granted : a.Grants iid ballot) :
    plain.Grants iid ballot := by
  intro head stored
  have related := alike.records iid
  rw [stored] at related
  cases found : a.store.records iid with
  | none =>
      rw [found] at related
      cases related
  | some record =>
      rw [found] at related
      cases related with
      | some sameHead =>
          rw [← sameHead.ballot_eq]
          exact granted record found

/-- Both store records with the same head. -/
theorem setRecord
    {iid : Nat} {record head : PaxosAccepted} (ok : RecordOk a.id iid record)
    (headOk : RecordOk plain.id iid head) (above : a.trimIid < iid)
    (sameHead : SameHead head record) :
    (a.setRecord record).Alike (plain.setRecord head) := by
  have sameIid := headOk.iid_eq.trans ok.iid_eq.symm
  obtain rfl := ok.iid_eq
  refine ⟨alike.inv.setRecord ok above, ?_, alike.id_eq, alike.trim_eq, ?_⟩
  · apply alike.plainInv.setRecord
    · rw [sameIid]
      exact headOk
    · rw [sameIid, ← alike.trim_eq]
      exact above
  · intro key
    by_cases same : key = record.iid
    · subst same
      rw [records_setRecord_self, ← sameIid, records_setRecord_self]
      exact .some sameHead
    · rw [records_setRecord_of_ne _ _ same,
        records_setRecord_of_ne _ _ (by rw [sameIid]; exact same)]
      exact alike.records key

/-- The same promise follows from records with the same head. -/
theorem promise_eq
    {key : Nat} {record head : PaxosAccepted}
    (ok : RecordOk a.id key record) (headOk : RecordOk plain.id key head)
    (sameHead : SameHead head record) :
    paxosAcceptedToPromise record = paxosAcceptedToPromise head := by
  simp only [paxosAcceptedToPromise, sameHead.src_eq, sameHead.ballot_eq,
    sameHead.valueBallot_eq, sameHead.value_eq, ok.iid_eq, headOk.iid_eq,
    ok.aid_eq, headOk.aid_eq, alike.id_eq]

theorem receivePrepare (mem : Memory) (isrc : Int) (req : PaxosPrepare) :
    (acceptorReceivePrepare (memStorageApi mem) isrc a req).1 =
        (acceptorReceivePrepare (memStorageApi mem) isrc plain req).1 ∧
      MemAcceptor.Alike
        (acceptorReceivePrepare (memStorageApi mem) isrc a req).2
        (acceptorReceivePrepare (memStorageApi mem) isrc plain req).2 := by
  by_cases above : a.trimIid < req.iid
  · have plainAbove := above
    rw [alike.trim_eq] at plainAbove
    rcases grants_or_refused a req.iid req.ballot with
      granted | ⟨record, stored, smaller⟩
    · rw [receivePrepare_granted alike.inv mem isrc above granted,
        receivePrepare_granted alike.plainInv mem isrc plainAbove
          (alike.grants granted)]
      refine ⟨?_, ?_⟩
      · rw [alike.id_eq]
        rfl
      · exact alike.setRecord
          (recordOk_preparedRecord (value0_found alike.inv req.iid))
          (recordOk_preparedRecord (value0_found alike.plainInv req.iid)) above
          ⟨rfl, rfl, rfl, rfl, Iff.rfl⟩
    · obtain ⟨head, headStored, sameHead⟩ := alike.beside stored
      rw [receivePrepare_refused alike.inv mem isrc above stored smaller,
        receivePrepare_refused alike.plainInv mem isrc plainAbove headStored
          (by rw [← sameHead.ballot_eq]; exact smaller)]
      refine ⟨?_, alike⟩
      rw [alike.promise_eq (alike.inv.record _ _ stored).1
        (alike.plainInv.record _ _ headStored).1 sameHead]
  · have plainLow := Nat.le_of_not_lt above
    rw [receivePrepare_trimmed mem isrc plainLow]
    rw [alike.trim_eq] at plainLow
    rw [receivePrepare_trimmed mem isrc plainLow]
    exact ⟨rfl, alike⟩

theorem receiveAccept (mem : Memory) (req : PaxosAccept) :
    (acceptorReceiveAccept (memStorageApi mem) a req).1 =
        (acceptorReceiveAccept (memStorageApi mem) plain req).1 ∧
      MemAcceptor.Alike (acceptorReceiveAccept (memStorageApi mem) a req).2
        (acceptorReceiveAccept (memStorageApi mem) plain req).2 := by
  by_cases above : a.trimIid < req.iid
  · have plainAbove := above
    rw [alike.trim_eq] at plainAbove
    rcases grants_or_refused a req.iid req.ballot with
      granted | ⟨record, stored, smaller⟩
    · rw [receiveAccept_granted alike.inv mem above granted,
        receiveAccept_granted alike.plainInv mem plainAbove
          (alike.grants granted)]
      refine ⟨by rw [alike.id_eq], ?_⟩
      exact alike.setRecord (recordOk_paxosAcceptToAccepted a.id req)
        (recordOk_paxosAcceptToAccepted plain.id req) above
        ⟨rfl, rfl, rfl, rfl, Iff.rfl⟩
    · obtain ⟨head, headStored, sameHead⟩ := alike.beside stored
      rw [receiveAccept_refused alike.inv mem above stored smaller,
        receiveAccept_refused alike.plainInv mem plainAbove headStored
          (by rw [← sameHead.ballot_eq]; exact smaller)]
      refine ⟨?_, alike⟩
      simp only [paxosAcceptedToPreempted, alike.id_eq, sameHead.ballot_eq,
        (alike.inv.record _ _ stored).1.iid_eq,
        (alike.plainInv.record _ _ headStored).1.iid_eq]
  · have plainLow := Nat.le_of_not_lt above
    rw [receiveAccept_trimmed mem plainLow]
    rw [alike.trim_eq] at plainLow
    rw [receiveAccept_trimmed mem plainLow]
    exact ⟨rfl, alike⟩

theorem receiveTrim (mem : Memory) (trim : PaxosTrim) :
    MemAcceptor.Alike (acceptorReceiveTrim (memStorageApi mem) a trim).2
      (acceptorReceiveTrim (memStorageApi mem) plain trim).2 := by
  have inv := (acceptorStep_outcome alike.inv mem (.receiveTrim trim)).keeps_inv
    alike.inv
  have plainInv := (acceptorStep_outcome alike.plainInv mem
    (.receiveTrim trim)).keeps_inv alike.plainInv
  simp only [acceptorStep] at inv plainInv
  by_cases above : a.trimIid < trim.iid
  · have plainAbove := above
    rw [alike.trim_eq] at plainAbove
    rw [receiveTrim_advance mem above] at inv ⊢
    rw [receiveTrim_advance mem plainAbove] at plainInv ⊢
    refine ⟨inv, plainInv, alike.id_eq, rfl, ?_⟩
    intro key
    by_cases low : key ≤ trim.iid
    · rw [records_trim_of_le alike.inv low,
        records_trim_of_le alike.plainInv low]
      exact .none
    · have higher := Nat.lt_of_not_le low
      rw [records_trim_of_lt alike.inv higher,
        records_trim_of_lt alike.plainInv higher]
      exact alike.records key
  · have plainLow := Nat.le_of_not_lt above
    rw [receiveTrim_stale mem plainLow]
    rw [alike.trim_eq] at plainLow
    rw [receiveTrim_stale mem plainLow]
    exact alike

/-- Both give the same reply to a prepare, an accept or a trim. -/
theorem step
    {op : AcceptorOp} (flat : op.flat = true)
    (notRepeat : ∀ iid, op ≠ .receiveRepeat iid) (mem : Memory) :
    (acceptorStep (memStorageApi mem) a op).2.sent =
        (acceptorStep (memStorageApi mem) plain op).2.sent ∧
      MemAcceptor.Alike (acceptorStep (memStorageApi mem) a op).1
        (acceptorStep (memStorageApi mem) plain op).1 := by
  cases op with
  | receivePrepare isrc req =>
      obtain ⟨sameReply, kept⟩ := alike.receivePrepare mem isrc req
      exact ⟨sameReply, kept⟩
  | receiveAccept req =>
      obtain ⟨sameReply, kept⟩ := alike.receiveAccept mem req
      exact ⟨sameReply, kept⟩
  | receiveTrim trim => exact ⟨rfl, alike.receiveTrim mem trim⟩
  | receiveRepeat iid => exact absurd rfl (notRepeat iid)
  | relayPromise pr => cases flat
  | relayAccepted ac => cases flat
  | relayPreempted ac => cases flat

/-- A relayed reply changes no head. -/
theorem relay
    {op : AcceptorOp} {entries : Nat × List (Nat × Nat × Nat)}
    (isRelay : op.relayed = some entries) (mem : Memory) :
    MemAcceptor.Alike (acceptorStep (memStorageApi mem) a op).1 plain := by
  have outcome := acceptorStep_outcome alike.inv mem op
  have inv := outcome.keeps_inv alike.inv
  generalize (acceptorStep (memStorageApi mem) a op).1 = after at outcome inv
  generalize (acceptorStep (memStorageApi mem) a op).2.sent = reply at outcome
  cases outcome with
  | relayed iid entries after _ relayed =>
      refine ⟨inv, alike.plainInv, relayed.id_eq.trans alike.id_eq,
        relayed.trim_eq.trans alike.trim_eq, ?_⟩
      intro key
      rcases relayed.record key with
        same | ⟨old, new, oldAt, newAt, _, sameHead⟩
      · rw [same]
        exact alike.records key
      · obtain ⟨head, headAt, headSame⟩ := alike.beside oldAt
        rw [newAt, headAt]
        exact .some (headSame.trans sameHead)
  | ignored _ => exact alike
  | refused _ _ _ isPrepare _ _ _ =>
      rw [isPrepare] at isRelay
      cases isRelay
  | promised _ _ isPrepare _ _ =>
      rw [isPrepare] at isRelay
      cases isRelay
  | accepted _ isAccept _ _ =>
      rw [isAccept] at isRelay
      cases isRelay
  | preempted _ _ isAccept _ _ _ =>
      rw [isAccept] at isRelay
      cases isRelay
  | repeated _ _ isRepeat _ _ _ =>
      rw [isRepeat] at isRelay
      cases isRelay
  | trimmed _ isTrim _ =>
      rw [isTrim] at isRelay
      cases isRelay

end MemAcceptor.Alike

end LibPaxos
