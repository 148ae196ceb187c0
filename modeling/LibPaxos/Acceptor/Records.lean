import LibPaxos.Acceptor.Model
import LibPaxos.Library.Trace

/-!
# The records of an acceptor over memory storage

One specification lemma per function of the acceptor, over memory storage and
from a state whose records are well formed, and from these what one call can do
to the record of an instance and what it can reply.  The rest of the
development uses only these two inversions and the invariant.
-/

namespace LibPaxos

open LibPaxos.Library

abbrev MemAcceptor : Type :=
  Acceptor MemStorage

def memAcceptorNew (id subordinates : Nat) : MemAcceptor :=
  acceptorNew (memStorageApi Memory.zero) memStorageNew id subordinates

/-- A call together with what it finds past the end of an array. -/
abbrev MemCall : Type :=
  Memory × AcceptorOp

def memAcceptorStep (a : MemAcceptor) (call : MemCall) :
    Option (MemAcceptor × AcceptorResult) :=
  some (acceptorStep (memStorageApi call.1) a call.2)

abbrev AcceptorTransition : Type :=
  Transition MemAcceptor MemCall AcceptorResult

/-- A record of acceptor `id` stored under `key`. -/
structure RecordOk (id key : Nat) (record : PaxosAccepted) : Prop
    extends record.ArraysConsistent where
  iid_eq : record.iid = key
  positive : 0 < record.nAids
  aid_eq : record.aid = id
  value0_eq : record.value0 = PaxosValue.empty

/-- Records are well formed and lie above the trim point. -/
structure MemAcceptor.Inv (a : MemAcceptor) : Prop where
  trim_eq : a.store.trimIid = a.trimIid
  record : ∀ key record, a.store.records key = some record →
    RecordOk a.id key record ∧ a.trimIid < key

theorem memAcceptorNew_inv (id subordinates : Nat) :
    (memAcceptorNew id subordinates).Inv where
  trim_eq := rfl
  record := by
    intro key record present
    cases present

/-- The entry at index zero is the same, in every array. -/
structure SameHead (before after : PaxosAccepted) : Prop where
  src_eq : after.src = before.src
  ballot_eq : after.ballot = before.ballot
  valueBallot_eq : after.valueBallot = before.valueBallot
  value_eq : after.value = before.value
  values_eq : after.values = none ↔ before.values = none

theorem SameHead.trans {first second third : PaxosAccepted}
    (left : SameHead first second) (right : SameHead second third) :
    SameHead first third :=
  ⟨right.src_eq.trans left.src_eq, right.ballot_eq.trans left.ballot_eq,
    right.valueBallot_eq.trans left.valueBallot_eq,
    right.value_eq.trans left.value_eq,
    right.values_eq.trans left.values_eq⟩

namespace MemAcceptor

def setRecord (a : MemAcceptor) (record : PaxosAccepted) : MemAcceptor :=
  { a with
    store :=
      { a.store with
        records :=
          Function.update a.store.records record.iid (some record) } }

/-- The ballot passes the test of `acceptor_receive_prepare` and
`acceptor_receive_accept`. -/
def Grants (a : MemAcceptor) (iid ballot : Nat) : Prop :=
  ∀ record, a.store.records iid = some record → record.ballot ≤ ballot

theorem records_setRecord_self (a : MemAcceptor) (record : PaxosAccepted) :
    (a.setRecord record).store.records record.iid = some record :=
  Function.update_self _ _ _

theorem records_setRecord_of_ne
    (a : MemAcceptor) (record : PaxosAccepted) {key : Nat}
    (different : key ≠ record.iid) :
    (a.setRecord record).store.records key = a.store.records key :=
  Function.update_of_ne different _ _

theorem Inv.setRecord
    {a : MemAcceptor} (inv : a.Inv) {record : PaxosAccepted}
    (ok : RecordOk a.id record.iid record)
    (above : a.trimIid < record.iid) :
    (a.setRecord record).Inv where
  trim_eq := inv.trim_eq
  record := by
    intro key found present
    by_cases same : key = record.iid
    · subst same
      rw [records_setRecord_self] at present
      cases present
      exact ⟨ok, above⟩
    · rw [records_setRecord_of_ne a record same] at present
      exact inv.record key found present

end MemAcceptor

/-- A well-formed record is copied as it is. -/
theorem RecordOk.copy_eq
    {id key : Nat} {record : PaxosAccepted} (ok : RecordOk id key record)
    (mem : Memory) :
    paxosAcceptedCopy mem record = record := by
  rw [paxosAcceptedCopy_of_arraysConsistent mem ok.toArraysConsistent
    ok.positive, ← ok.value0_eq]

/-- Reading a record of a well-formed store returns it. -/
theorem MemAcceptor.Inv.get_eq
    {a : MemAcceptor} (inv : a.Inv) (mem : Memory) (iid : Nat) :
    memStorageGet mem a.store iid = a.store.records iid := by
  unfold memStorageGet
  cases present : a.store.records iid with
  | none => rfl
  | some record =>
      rw [Option.map_some, (inv.record iid record present).1.copy_eq mem]

/-- Storing a well-formed record replaces that record. -/
theorem RecordOk.put_eq
    {id key : Nat} {record : PaxosAccepted} (ok : RecordOk id key record)
    (mem : Memory) (a : MemAcceptor) :
    { a with store := memStoragePut mem a.store record } =
      a.setRecord record := by
  unfold memStoragePut MemAcceptor.setRecord
  rw [ok.copy_eq mem]

/-- The scan of the ids finds exactly those that the array lists. -/
theorem PaxosAccepted.WordsConsistent.hasAid_iff_mem
    {record : PaxosAccepted} (consistent : record.WordsConsistent)
    (aid : Nat) :
    record.hasAid aid = true ↔ aid ∈ record.aids := by
  unfold PaxosAccepted.hasAid
  rw [← consistent.aids, List.take_length]
  simp

/-- A well-formed record lists its own acceptor. -/
theorem RecordOk.hasAid
    {id key : Nat} {record : PaxosAccepted} (ok : RecordOk id key record) :
    record.hasAid id = true := by
  have length := ok.aids
  have positive := ok.positive
  have first := ok.aid_eq
  unfold PaxosAccepted.hasAid
  unfold PaxosAccepted.aid at first
  rw [← length, List.take_length]
  cases shape : record.aids with
  | nil =>
      rw [shape] at length
      simp only [List.length_nil] at length
      omega
  | cons aid rest =>
      rw [shape, firstOr_cons] at first
      simp [first]

theorem recordOk_preparedRecord
    {isrc : Int} {id : Nat} {acc : PaxosAccepted} {req : PaxosPrepare}
    (cleared : acc.value0 = PaxosValue.empty) :
    RecordOk id req.iid (preparedRecord isrc id acc req) where
  aids := rfl
  ballots := rfl
  valueBallots := rfl
  values := by
    intro array present
    cases present
  iid_eq := rfl
  positive := Nat.one_pos
  aid_eq := rfl
  value0_eq := cleared

theorem recordOk_paxosAcceptToAccepted (id : Nat) (req : PaxosAccept) :
    RecordOk id req.iid (paxosAcceptToAccepted id req) where
  aids := rfl
  ballots := rfl
  valueBallots := rfl
  values := by
    intro array present
    cases present
    rfl
  iid_eq := rfl
  positive := Nat.one_pos
  aid_eq := rfl
  value0_eq := rfl

section Functions

variable {a : MemAcceptor} (inv : a.Inv) (mem : Memory)

/-- The record found for an instance, zeroed when there is none. -/
def MemAcceptor.found (a : MemAcceptor) (iid : Nat) : PaxosAccepted :=
  (a.store.records iid).getD PaxosAccepted.zeroed

include inv in
theorem value0_found (iid : Nat) :
    (a.found iid).value0 = PaxosValue.empty := by
  unfold MemAcceptor.found
  cases present : a.store.records iid with
  | none => rfl
  | some record => exact (inv.record iid record present).1.value0_eq

/-- The test of the source on the record found. -/
theorem grants_iff (iid ballot : Nat) :
    (a.store.records iid = none ∨ (a.found iid).ballot ≤ ballot) ↔
      a.Grants iid ballot := by
  unfold MemAcceptor.Grants MemAcceptor.found
  cases a.store.records iid <;> simp

theorem receivePrepare_trimmed (isrc : Int) {req : PaxosPrepare}
    (trimmed : req.iid ≤ a.trimIid) :
    acceptorReceivePrepare (memStorageApi mem) isrc a req = (none, a) := by
  simp [acceptorReceivePrepare, trimmed]

include inv in
theorem receivePrepare_granted (isrc : Int) {req : PaxosPrepare}
    (above : a.trimIid < req.iid) (grants : a.Grants req.iid req.ballot) :
    acceptorReceivePrepare (memStorageApi mem) isrc a req =
      (some (.promise (paxosAcceptedToPromise
          (preparedRecord isrc a.id (a.found req.iid) req))),
        a.setRecord (preparedRecord isrc a.id (a.found req.iid) req)) := by
  have test := (grants_iff req.iid req.ballot).mpr grants
  have ok : RecordOk a.id req.iid
      (preparedRecord isrc a.id (a.found req.iid) req) :=
    recordOk_preparedRecord (value0_found inv req.iid)
  have stored := ok.put_eq mem a
  unfold MemAcceptor.found at test stored
  simp only [acceptorReceivePrepare, Nat.not_le.mpr above, if_false,
    memStorageApi, ne_eq, not_true_eq_false, inv.get_eq, if_pos test,
    commitReply, MemAcceptor.found]
  rw [stored]

include inv in
theorem receivePrepare_refused (isrc : Int) {req : PaxosPrepare}
    {record : PaxosAccepted} (above : a.trimIid < req.iid)
    (present : a.store.records req.iid = some record)
    (smaller : req.ballot < record.ballot) :
    acceptorReceivePrepare (memStorageApi mem) isrc a req =
      (some (.promise (paxosAcceptedToPromise record)), a) := by
  have listed := (inv.record _ _ present).1.hasAid
  simp [acceptorReceivePrepare, Nat.not_le.mpr above, memStorageApi,
    inv.get_eq, present, Nat.not_le.mpr smaller, listed, commitReply]

theorem receiveAccept_trimmed {req : PaxosAccept}
    (trimmed : req.iid ≤ a.trimIid) :
    acceptorReceiveAccept (memStorageApi mem) a req = (none, a) := by
  simp [acceptorReceiveAccept, trimmed]

include inv in
theorem receiveAccept_granted {req : PaxosAccept}
    (above : a.trimIid < req.iid) (grants : a.Grants req.iid req.ballot) :
    acceptorReceiveAccept (memStorageApi mem) a req =
      (some (.accepted (paxosAcceptToAccepted a.id req)),
        a.setRecord (paxosAcceptToAccepted a.id req)) := by
  have test := (grants_iff req.iid req.ballot).mpr grants
  have stored := (recordOk_paxosAcceptToAccepted a.id req).put_eq mem a
  unfold MemAcceptor.found at test
  simp only [acceptorReceiveAccept, Nat.not_le.mpr above, if_false,
    memStorageApi, ne_eq, not_true_eq_false, inv.get_eq, if_pos test,
    commitReply]
  rw [stored]

include inv in
theorem receiveAccept_refused {req : PaxosAccept}
    {record : PaxosAccepted} (above : a.trimIid < req.iid)
    (present : a.store.records req.iid = some record)
    (smaller : req.ballot < record.ballot) :
    acceptorReceiveAccept (memStorageApi mem) a req =
      (some (.preempted (paxosAcceptedToPreempted a.id record)), a) := by
  simp [acceptorReceiveAccept, Nat.not_le.mpr above, memStorageApi,
    inv.get_eq, present, Nat.not_le.mpr smaller, commitReply]

include inv in
/-- A repeat returns the record that holds a non-empty value and changes
nothing. -/
theorem receiveRepeat_spec (iid : Nat) :
    acceptorReceiveRepeat (memStorageApi mem) a iid =
      ((a.store.records iid).filter fun out =>
        out.values.isSome && decide (0 < out.value.len), a) := by
  simp [acceptorReceiveRepeat, memStorageApi, inv.get_eq]

theorem receiveTrim_stale {trim : PaxosTrim}
    (stale : trim.iid ≤ a.trimIid) :
    acceptorReceiveTrim (memStorageApi mem) a trim = (false, a) := by
  simp [acceptorReceiveTrim, stale]

theorem receiveTrim_advance {trim : PaxosTrim}
    (above : a.trimIid < trim.iid) :
    acceptorReceiveTrim (memStorageApi mem) a trim =
      (true, { a with
        trimIid := trim.iid
        store := memStorageTrim a.store trim.iid }) := by
  simp [acceptorReceiveTrim, memStorageApi, Nat.not_le.mpr above]

end Functions

/-- The record of a relayed instance while the loop of `getSrcid` grows it:
`values` may have fallen behind `n_aids`. -/
structure Growing (id key : Nat) (record : PaxosAccepted) : Prop
    extends record.WordsConsistent where
  iid_eq : record.iid = key
  positive : 0 < record.nAids
  aid_eq : record.aid = id
  values_nonempty : ∀ array, record.values = some array → array ≠ []

theorem RecordOk.growing
    {id key : Nat} {record : PaxosAccepted} (ok : RecordOk id key record) :
    Growing id key record where
  toWordsConsistent := ok.toWordsConsistent
  iid_eq := ok.iid_eq
  positive := ok.positive
  aid_eq := ok.aid_eq
  values_nonempty := by
    intro array present empty
    have length := ok.values array present
    have positive := ok.positive
    rw [empty, List.length_nil] at length
    omega

/-- Growing a record keeps its first entries. -/
theorem Growing.appendAid
    {id key : Nat} {record : PaxosAccepted} (growing : Growing id key record)
    (aid ballot valueBallot : Nat) :
    Growing id key (record.appendAid aid ballot valueBallot) ∧
      SameHead record (record.appendAid aid ballot valueBallot) := by
  have positive := growing.positive
  have nonempty : ∀ array : List Nat,
      array.length = record.nAids → array ≠ [] := by
    intro array length empty
    rw [empty, List.length_nil] at length
    omega
  have grown : ∀ (array : List Nat) (entry : Nat),
      array.length = record.nAids →
        array.take record.nAids ++ [entry] = array ++ [entry] := by
    intro array entry length
    rw [← length, List.take_length]
  refine ⟨⟨⟨?_, ?_, ?_⟩, growing.iid_eq, Nat.succ_pos _, ?_,
    growing.values_nonempty⟩, ⟨rfl, ?_, ?_, rfl, Iff.rfl⟩⟩
  · simp [PaxosAccepted.appendAid, growing.aids]
  · simp [PaxosAccepted.appendAid, growing.ballots]
  · simp [PaxosAccepted.appendAid, growing.valueBallots]
  · change firstOr 0 (record.aids.take record.nAids ++ [aid]) = id
    rw [grown _ _ growing.aids, firstOr_append (nonempty _ growing.aids)]
    exact growing.aid_eq
  · change firstOr 0 (record.ballots.take record.nAids ++ [ballot]) = _
    rw [grown _ _ growing.ballots,
      firstOr_append (nonempty _ growing.ballots)]
    rfl
  · change
      firstOr 0 (record.valueBallots.take record.nAids ++ [valueBallot]) = _
    rw [grown _ _ growing.valueBallots,
      firstOr_append (nonempty _ growing.valueBallots)]
    rfl

/-- Storing a growing record stores a well-formed one with the same first
entries. -/
theorem Growing.copy
    {id key : Nat} {record : PaxosAccepted} (growing : Growing id key record)
    (mem : Memory) :
    RecordOk id key (paxosAcceptedCopy mem record) ∧
      SameHead record (paxosAcceptedCopy mem record) := by
  have consistent :=
    arraysConsistent_copy mem growing.toWordsConsistent growing.positive
  have shape :=
    paxosAcceptedCopy_eq mem growing.toWordsConsistent growing.positive
  refine ⟨⟨consistent, ?_, ?_, ?_, ?_⟩, ⟨?_, ?_, ?_, ?_, ?_⟩⟩
  · rw [shape]
    exact growing.iid_eq
  · rw [shape]
    exact growing.positive
  · rw [shape]
    exact growing.aid_eq
  · rw [shape]
  · rw [shape]
  · rw [shape]
    rfl
  · rw [shape]
    rfl
  · rw [shape]
    unfold PaxosAccepted.value
    cases present : record.values with
    | none => rfl
    | some array =>
        exact firstOr_copyEntries _ _ growing.positive
          (growing.values_nonempty array present)
  · rw [shape]
    simp

/-- The loop of `getSrcid` touches the record of its instance only, and keeps
its first entries. -/
theorem adjustRecord_spec
    (mem : Memory) {id key : Nat} (entries : List (Nat × Nat × Nat)) :
    ∀ (store : MemStorage) (acc : PaxosAccepted) (counted : Nat),
      Growing id key acc →
        (adjustRecord (memStorageApi mem) entries store acc counted).1.trimIid =
            store.trimIid ∧
          (∀ other, other ≠ key →
            (adjustRecord (memStorageApi mem) entries store acc
              counted).1.records other = store.records other) ∧
          ((adjustRecord (memStorageApi mem) entries store acc
                counted).1.records key = store.records key ∨
            ∃ after,
              (adjustRecord (memStorageApi mem) entries store acc
                counted).1.records key = some after ∧
              RecordOk id key after ∧ SameHead acc after) := by
  induction entries with
  | nil =>
      intro store acc counted _
      exact ⟨rfl, fun _ _ => rfl, Or.inl rfl⟩
  | cons entry rest inductionHypothesis =>
      obtain ⟨aid, ballot, valueBallot⟩ := entry
      intro store acc counted growing
      by_cases listed : acc.hasAid aid = true
      · simp only [adjustRecord, if_pos listed]
        exact inductionHypothesis store acc counted growing
      · simp only [adjustRecord, if_neg listed]
        obtain ⟨grown, sameHead⟩ := growing.appendAid aid ballot valueBallot
        obtain ⟨storedOk, storedHead⟩ := grown.copy mem
        have keyEq : (acc.appendAid aid ballot valueBallot).iid = key :=
          grown.iid_eq
        obtain ⟨trimEq, others, atKey⟩ :=
          inductionHypothesis
            ((memStorageApi mem).putRecord store
              (acc.appendAid aid ballot valueBallot)).2
            (acc.appendAid aid ballot valueBallot)
            (acc.appendAid aid ballot valueBallot).nAids grown
        refine ⟨trimEq, ?_, Or.inr ?_⟩
        · intro other different
          rw [others other different]
          simp only [memStorageApi, memStoragePut, keyEq]
          exact Function.update_of_ne different _ _
        · rcases atKey with unchanged | ⟨after, present, afterOk, afterHead⟩
          · refine ⟨_, unchanged.trans ?_, storedOk,
              sameHead.trans storedHead⟩
            simp only [memStorageApi, memStoragePut, keyEq]
            exact Function.update_self _ _ _
          · exact ⟨after, present, afterOk, sameHead.trans afterHead⟩

/-- What relaying a reply does to the records of an acceptor. -/
structure Relayed (a after : MemAcceptor) : Prop where
  id_eq : after.id = a.id
  trim_eq : after.trimIid = a.trimIid
  store_trim_eq : after.store.trimIid = a.store.trimIid
  record : ∀ key,
    after.store.records key = a.store.records key ∨
      ∃ old new,
        a.store.records key = some old ∧
        after.store.records key = some new ∧
        RecordOk a.id key new ∧ SameHead old new

theorem Relayed.refl (a : MemAcceptor) : Relayed a a :=
  ⟨rfl, rfl, rfl, fun _ => Or.inl rfl⟩

theorem commitSrcid_state (mem : Memory) (a : MemAcceptor) (ret : Int)
    (store : MemStorage) (counted : Nat) :
    (commitSrcid (memStorageApi mem) a ret store counted).2 =
      { a with store := store } := by
  simp only [commitSrcid, memStorageApi, ne_eq, not_true_eq_false, if_false]
  split <;> rfl

theorem commitSrcid_srcid (mem : Memory) (a : MemAcceptor) (ret : Int)
    (store : MemStorage) (counted : Nat) :
    (commitSrcid (memStorageApi mem) a ret store counted).1 =
      if a.subordinates / 2 ≤ counted then ret else -1 := by
  simp only [commitSrcid, memStorageApi, ne_eq, not_true_eq_false, if_false]
  split <;> rfl

/-- Relaying a reply runs the loop on the record of its instance, if there is
one. -/
theorem getSrcid_state
    {a : MemAcceptor} (inv : a.Inv) (mem : Memory) (iid : Nat)
    (entries : List (Nat × Nat × Nat)) :
    (getSrcid (memStorageApi mem) iid entries a).2 =
      { a with
        store := (a.store.records iid).elim a.store fun record =>
          (adjustRecord (memStorageApi mem) entries a.store record 0).1 } := by
  have began : (memStorageApi mem).txBegin a.store = (0, a.store) := rfl
  have found : (memStorageApi mem).getRecord a.store iid =
      a.store.records iid := inv.get_eq mem iid
  simp only [getSrcid, began, found, ne_eq, not_true_eq_false, if_false]
  cases a.store.records iid with
  | none => exact commitSrcid_state mem a _ _ _
  | some record => exact commitSrcid_state mem a _ _ _

/-- Relaying a reply returns the source of the record of its instance, when the
loop has counted enough ids. -/
theorem getSrcid_srcid
    {a : MemAcceptor} (inv : a.Inv) (mem : Memory) (iid : Nat)
    (entries : List (Nat × Nat × Nat)) :
    (getSrcid (memStorageApi mem) iid entries a).1 =
      (a.store.records iid).elim (-1) fun record =>
        if a.subordinates / 2 ≤
            (adjustRecord (memStorageApi mem) entries a.store record 0).2 then
          intOfUint32 record.src
        else
          -1 := by
  have began : (memStorageApi mem).txBegin a.store = (0, a.store) := rfl
  have found : (memStorageApi mem).getRecord a.store iid =
      a.store.records iid := inv.get_eq mem iid
  simp only [getSrcid, began, found, ne_eq, not_true_eq_false, if_false]
  cases a.store.records iid with
  | none =>
      have returned := commitSrcid_srcid mem a (-1) a.store 0
      rw [ite_self] at returned
      exact returned
  | some record => exact commitSrcid_srcid mem a _ _ _

/-- Relaying a reply leaves the records of other instances alone. -/
theorem getSrcid_records_of_ne
    {a : MemAcceptor} (inv : a.Inv) (mem : Memory) {iid key : Nat}
    (entries : List (Nat × Nat × Nat)) (different : key ≠ iid) :
    (getSrcid (memStorageApi mem) iid entries a).2.store.records key =
      a.store.records key := by
  rw [getSrcid_state inv]
  cases present : a.store.records iid with
  | none => rfl
  | some record =>
      have growing := (inv.record iid record present).1.growing
      exact (adjustRecord_spec mem entries a.store record 0 growing).2.1 key
        different

theorem getSrcid_relayed
    {a : MemAcceptor} (inv : a.Inv) (mem : Memory) (iid : Nat)
    (entries : List (Nat × Nat × Nat)) :
    Relayed a (getSrcid (memStorageApi mem) iid entries a).2 := by
  have others : ∀ key, key ≠ iid →
      (getSrcid (memStorageApi mem) iid entries a).2.store.records key =
        a.store.records key := fun _ =>
    getSrcid_records_of_ne inv mem entries
  rw [getSrcid_state inv] at others ⊢
  cases present : a.store.records iid with
  | none => exact Relayed.refl a
  | some record =>
      have ok := (inv.record iid record present).1
      obtain ⟨trimEq, _, atKey⟩ :=
        adjustRecord_spec mem entries a.store record 0 ok.growing
      rw [present] at others
      refine ⟨rfl, rfl, trimEq, ?_⟩
      intro key
      by_cases same : key = iid
      · subst same
        rcases atKey with unchanged | ⟨after, stored, afterOk, head⟩
        · exact Or.inl unchanged
        · exact Or.inr ⟨record, after, present, stored, afterOk, head⟩
      · exact Or.inl (others key same)

theorem Relayed.inv
    {a after : MemAcceptor} (relayed : Relayed a after) (inv : a.Inv) :
    after.Inv where
  trim_eq := by
    rw [relayed.store_trim_eq, relayed.trim_eq]
    exact inv.trim_eq
  record := by
    intro key record present
    rw [relayed.trim_eq, relayed.id_eq]
    rcases relayed.record key with same | ⟨old, new, oldAt, newAt, ok, _⟩
    · rw [same] at present
      exact inv.record key record present
    · rw [newAt] at present
      cases present
      exact ⟨ok, (inv.record key old oldAt).2⟩

/-- The instance and the entries of a reply that is relayed. -/
def AcceptorOp.relayed : AcceptorOp → Option (Nat × List (Nat × Nat × Nat))
  | .relayPromise pr =>
      some (pr.iid,
        relayedEntries pr.nAids pr.aids pr.ballots pr.valueBallots)
  | .relayAccepted ac =>
      some (ac.iid,
        relayedEntries ac.nAids ac.aids ac.ballots ac.valueBallots)
  | _ => none

/-- What a call can do to the record under one key; the last argument is the
record afterwards. -/
inductive RecordChange (a : MemAcceptor) (op : AcceptorOp) (trimIid key : Nat) :
    Option PaxosAccepted → Prop
  | kept : RecordChange a op trimIid key (a.store.records key)
  | prepared (isrc : Int) (req : PaxosPrepare) :
      op = .receivePrepare isrc req → req.iid = key →
      a.trimIid < key → a.Grants key req.ballot →
      RecordChange a op trimIid key
        (some (preparedRecord isrc a.id (a.found key) req))
  | accepted (req : PaxosAccept) :
      op = .receiveAccept req → req.iid = key →
      a.trimIid < key → a.Grants key req.ballot →
      RecordChange a op trimIid key (some (paxosAcceptToAccepted a.id req))
  | relayed (old new : PaxosAccepted) :
      op.relayed ≠ none → a.store.records key = some old →
      SameHead old new →
      RecordChange a op trimIid key (some new)
  | trimmed : key ≤ trimIid → RecordChange a op trimIid key none

/-- A request is granted, or meets a record with a higher ballot. -/
theorem grants_or_refused (a : MemAcceptor) (iid ballot : Nat) :
    a.Grants iid ballot ∨
      ∃ record, a.store.records iid = some record ∧
        ballot < record.ballot := by
  unfold MemAcceptor.Grants
  cases present : a.store.records iid with
  | none =>
      left
      intro record impossible
      cases impossible
  | some record =>
      by_cases smaller : ballot < record.ballot
      · exact Or.inr ⟨record, rfl, smaller⟩
      · left
        intro found same
        cases same
        omega

/-- The instance that a prepare or an accept asks for. -/
def AcceptorOp.requested : AcceptorOp → Option Nat
  | .receivePrepare _ req => some req.iid
  | .receiveAccept req => some req.iid
  | _ => none

/-- What a call can do: the state afterwards and the reply. -/
inductive Outcome (a : MemAcceptor) (op : AcceptorOp) :
    MemAcceptor → Option PaxosMessage → Prop
  | ignored :
      (∀ iid, op.requested = some iid → iid ≤ a.trimIid) →
      Outcome a op a none
  | promised (isrc : Int) (req : PaxosPrepare) :
      op = .receivePrepare isrc req → a.trimIid < req.iid →
      a.Grants req.iid req.ballot →
      Outcome a op
        (a.setRecord (preparedRecord isrc a.id (a.found req.iid) req))
        (some (.promise (paxosAcceptedToPromise
          (preparedRecord isrc a.id (a.found req.iid) req))))
  | refused (isrc : Int) (req : PaxosPrepare) (record : PaxosAccepted) :
      op = .receivePrepare isrc req → a.trimIid < req.iid →
      a.store.records req.iid = some record → req.ballot < record.ballot →
      Outcome a op a (some (.promise (paxosAcceptedToPromise record)))
  | accepted (req : PaxosAccept) :
      op = .receiveAccept req → a.trimIid < req.iid →
      a.Grants req.iid req.ballot →
      Outcome a op (a.setRecord (paxosAcceptToAccepted a.id req))
        (some (.accepted (paxosAcceptToAccepted a.id req)))
  | preempted (req : PaxosAccept) (record : PaxosAccepted) :
      op = .receiveAccept req → a.trimIid < req.iid →
      a.store.records req.iid = some record → req.ballot < record.ballot →
      Outcome a op a
        (some (.preempted (paxosAcceptedToPreempted a.id record)))
  | repeated (iid : Nat) (record : PaxosAccepted) :
      op = .receiveRepeat iid → a.store.records iid = some record →
      record.values ≠ none → 0 < record.value.len →
      Outcome a op a (some (.accepted record))
  | relayed (iid : Nat) (entries : List (Nat × Nat × Nat))
      (after : MemAcceptor) :
      op.relayed = some (iid, entries) → Relayed a after →
      Outcome a op after none
  | trimmed (trim : PaxosTrim) :
      op = .receiveTrim trim → a.trimIid < trim.iid →
      Outcome a op
        { a with
          trimIid := trim.iid
          store := memStorageTrim a.store trim.iid }
        none

/-- Trimming keeps the records above the trim point. -/
theorem records_trim_of_lt
    {a : MemAcceptor} (inv : a.Inv) {iid key : Nat} (higher : iid < key) :
    (memStorageTrim a.store iid).records key = a.store.records key := by
  simp only [memStorageTrim]
  cases stored : a.store.records key with
  | none => rfl
  | some record =>
      rw [Option.filter_some, (inv.record key record stored).1.iid_eq]
      simp [higher]

/-- Trimming drops the records up to the trim point. -/
theorem records_trim_of_le
    {a : MemAcceptor} (inv : a.Inv) {iid key : Nat} (low : key ≤ iid) :
    (memStorageTrim a.store iid).records key = none := by
  simp only [memStorageTrim]
  cases stored : a.store.records key with
  | none => rfl
  | some record =>
      rw [Option.filter_some, (inv.record key record stored).1.iid_eq]
      simp [Nat.not_lt.mpr low]

section Step

variable {a : MemAcceptor} (inv : a.Inv) (mem : Memory) (op : AcceptorOp)

include inv in
theorem acceptorStep_outcome :
    Outcome a op (acceptorStep (memStorageApi mem) a op).1
      (acceptorStep (memStorageApi mem) a op).2.sent := by
  cases op with
  | receivePrepare isrc req =>
      simp only [acceptorStep, AcceptorResult.sent]
      by_cases trimmed : req.iid ≤ a.trimIid
      · rw [receivePrepare_trimmed mem isrc trimmed]
        apply Outcome.ignored
        intro iid same
        cases same
        exact trimmed
      · have above : a.trimIid < req.iid := by omega
        rcases grants_or_refused a req.iid req.ballot with
          grants | ⟨record, present, smaller⟩
        · rw [receivePrepare_granted inv mem isrc above grants]
          exact .promised isrc req rfl above grants
        · rw [receivePrepare_refused inv mem isrc above present smaller]
          exact .refused isrc req record rfl above present smaller
  | receiveAccept req =>
      simp only [acceptorStep, AcceptorResult.sent]
      by_cases trimmed : req.iid ≤ a.trimIid
      · rw [receiveAccept_trimmed mem trimmed]
        apply Outcome.ignored
        intro iid same
        cases same
        exact trimmed
      · have above : a.trimIid < req.iid := by omega
        rcases grants_or_refused a req.iid req.ballot with
          grants | ⟨record, present, smaller⟩
        · rw [receiveAccept_granted inv mem above grants]
          exact .accepted req rfl above grants
        · rw [receiveAccept_refused inv mem above present smaller]
          exact .preempted req record rfl above present smaller
  | receiveRepeat iid =>
      simp only [acceptorStep, AcceptorResult.sent, receiveRepeat_spec inv]
      cases reply : (a.store.records iid).filter fun out =>
          out.values.isSome && decide (0 < out.value.len) with
      | none => exact .ignored nofun
      | some record =>
          simp only [Option.filter_eq_some_iff, Bool.and_eq_true,
            decide_eq_true_eq] at reply
          obtain ⟨present, valued, nonempty⟩ := reply
          refine .repeated iid record rfl present ?_ nonempty
          intro missing
          rw [missing] at valued
          cases valued
  | receiveTrim trim =>
      simp only [acceptorStep, AcceptorResult.sent]
      by_cases stale : trim.iid ≤ a.trimIid
      · rw [receiveTrim_stale mem stale]
        exact .ignored nofun
      · have above : a.trimIid < trim.iid := by omega
        rw [receiveTrim_advance mem above]
        exact .trimmed trim rfl above
  | relayPromise pr =>
      exact .relayed _ _ _ rfl (getSrcid_relayed inv mem _ _)
  | relayAccepted ac =>
      exact .relayed _ _ _ rfl (getSrcid_relayed inv mem _ _)
  | relayPreempted ac =>
      exact .ignored nofun

variable {op} {after : MemAcceptor} {reply : Option PaxosMessage}

theorem Outcome.id_eq (outcome : Outcome a op after reply) :
    after.id = a.id := by
  cases outcome with
  | relayed iid entries after _ relayed => exact relayed.id_eq
  | _ => rfl

theorem Outcome.trim_le (outcome : Outcome a op after reply) :
    a.trimIid ≤ after.trimIid := by
  cases outcome with
  | relayed iid entries after _ relayed => exact Nat.le_of_eq relayed.trim_eq.symm
  | trimmed trim _ above => exact Nat.le_of_lt above
  | _ => exact Nat.le_refl _

include inv in
theorem Outcome.keeps_inv (outcome : Outcome a op after reply) :
    after.Inv := by
  cases outcome with
  | promised isrc req _ above _ =>
      exact inv.setRecord
        (recordOk_preparedRecord (value0_found inv req.iid)) above
  | accepted req _ above _ =>
      exact inv.setRecord (recordOk_paxosAcceptToAccepted a.id req) above
  | relayed iid entries after _ relayed => exact relayed.inv inv
  | trimmed trim _ above =>
      refine ⟨rfl, ?_⟩
      intro key record present
      simp only [memStorageTrim, Option.filter_eq_some_iff,
        decide_eq_true_eq] at present
      obtain ⟨stored, higher⟩ := present
      have ok := (inv.record key record stored).1
      rw [ok.iid_eq] at higher
      exact ⟨ok, higher⟩
  | _ => exact inv

include inv in
/-- What one call does to the record under one key. -/
theorem Outcome.record (outcome : Outcome a op after reply) (key : Nat) :
    RecordChange a op after.trimIid key (after.store.records key) := by
  cases outcome with
  | promised isrc req isPrepare above grants =>
      by_cases same : key = req.iid
      · subst same
        have stored := a.records_setRecord_self
          (preparedRecord isrc a.id (a.found req.iid) req)
        rw [show (preparedRecord isrc a.id (a.found req.iid) req).iid =
          req.iid from rfl] at stored
        rw [stored]
        exact .prepared isrc req isPrepare rfl above grants
      · rw [a.records_setRecord_of_ne
          (preparedRecord isrc a.id (a.found req.iid) req) same]
        exact .kept
  | accepted req isAccept above grants =>
      by_cases same : key = req.iid
      · subst same
        have stored := a.records_setRecord_self
          (paxosAcceptToAccepted a.id req)
        rw [show (paxosAcceptToAccepted a.id req).iid = req.iid from rfl]
          at stored
        rw [stored]
        exact .accepted req isAccept rfl above grants
      · rw [a.records_setRecord_of_ne (paxosAcceptToAccepted a.id req) same]
        exact .kept
  | relayed iid entries after isRelay relayed =>
      rcases relayed.record key with same | ⟨old, new, oldAt, newAt, _, head⟩
      · rw [same]
        exact .kept
      · rw [newAt]
        exact .relayed old new (by simp [isRelay]) oldAt head
  | trimmed trim _ above =>
      by_cases higher : trim.iid < key
      · rw [records_trim_of_lt inv higher]
        exact .kept
      · have low := Nat.le_of_not_lt higher
        rw [records_trim_of_le inv low]
        exact .trimmed low
  | _ => exact .kept

end Step

theorem commitReply_subordinates {σ : Type} (api : StorageApi σ)
    (a : Acceptor σ) (store : σ) (reply : PaxosMessage) :
    (commitReply api a store reply).2.subordinates = a.subordinates := by
  simp only [commitReply]
  split
  · rfl
  · rfl

theorem commitSrcid_subordinates {σ : Type} (api : StorageApi σ)
    (a : Acceptor σ) (ret : Int) (store : σ) (counted : Nat) :
    (commitSrcid api a ret store counted).2.subordinates =
      a.subordinates := by
  simp only [commitSrcid]
  split
  · rfl
  · split <;> rfl

theorem getSrcid_subordinates {σ : Type} (api : StorageApi σ)
    (a : Acceptor σ) (iid : Nat) (entries : List (Nat × Nat × Nat)) :
    (getSrcid api iid entries a).2.subordinates = a.subordinates := by
  simp only [getSrcid]
  split
  · rfl
  · split
    · exact commitSrcid_subordinates api a _ _ _
    · exact commitSrcid_subordinates api a _ _ _

/-- No call changes the number of subordinates. -/
theorem acceptorStep_subordinates
    {σ : Type} (api : StorageApi σ) (a : Acceptor σ) (op : AcceptorOp) :
    (acceptorStep api a op).1.subordinates = a.subordinates := by
  cases op with
  | receivePrepare isrc req =>
      simp only [acceptorStep, acceptorReceivePrepare]
      repeat' split
      all_goals first
        | rfl
        | exact commitReply_subordinates api _ _ _
  | receiveAccept req =>
      simp only [acceptorStep, acceptorReceiveAccept]
      repeat' split
      all_goals first
        | rfl
        | exact commitReply_subordinates api _ _ _
  | receiveRepeat iid =>
      simp only [acceptorStep, acceptorReceiveRepeat]
      repeat' split
      all_goals rfl
  | receiveTrim trim =>
      simp only [acceptorStep, acceptorReceiveTrim]
      repeat' split
      all_goals rfl
  | relayPromise pr => exact getSrcid_subordinates api a _ _
  | relayAccepted ac => exact getSrcid_subordinates api a _ _
  | relayPreempted ac =>
      simp only [acceptorStep, getSrcidPreempted]
      repeat' split
      all_goals rfl

/-- What one step of a trace can do. -/
theorem memAcceptorStep_outcome
    {a after : MemAcceptor} {call : MemCall} {result : AcceptorResult}
    (inv : a.Inv)
    (stepEq : memAcceptorStep a call = some (after, result)) :
    Outcome a call.2 after result.sent := by
  unfold memAcceptorStep at stepEq
  rw [Option.some.injEq] at stepEq
  have outcome := acceptorStep_outcome inv call.1 call.2
  rwa [stepEq] at outcome

/-- Every state an acceptor reaches keeps its id and has well-formed
records. -/
theorem memAcceptor_trace_inv
    {id subordinates : Nat}
    {past : List AcceptorTransition}
    {final : MemAcceptor}
    (trace : Trace memAcceptorStep (memAcceptorNew id subordinates)
      past final) :
    final.Inv ∧ final.id = id := by
  apply trace.invariant
    (fun state : MemAcceptor => state.Inv ∧ state.id = id)
    ⟨memAcceptorNew_inv id subordinates, rfl⟩
  rintro source call target result ⟨inv, idEq⟩ stepEq
  have outcome := memAcceptorStep_outcome inv stepEq
  exact ⟨outcome.keeps_inv inv, outcome.id_eq.trans idEq⟩

/-- The accept that a step grants and acknowledges. -/
def grantedAccept (current : AcceptorTransition) : Option PaxosAccept :=
  match current.input.2, current.output.sent with
  | .receiveAccept req, some (.accepted _) => some req
  | _, _ => none

theorem grantedAccept_eq_some_iff
    {current : AcceptorTransition} {req : PaxosAccept} :
    grantedAccept current = some req ↔
      current.input.2 = .receiveAccept req ∧
        ∃ message, current.output.sent = some (.accepted message) := by
  unfold grantedAccept
  split
  · next granted message isAccept sent =>
      simp [isAccept, sent]
  · next different =>
      simp only [reduceCtorEq, false_iff, not_and, not_exists]
      intro isAccept message sent
      exact different req message isAccept sent

theorem grantedAccept_of_not_accepted
    {current : AcceptorTransition}
    (different : ∀ message, current.output.sent ≠ some (.accepted message)) :
    grantedAccept current = none := by
  cases granted : grantedAccept current with
  | none => rfl
  | some req =>
      obtain ⟨_, message, sent⟩ := grantedAccept_eq_some_iff.mp granted
      exact False.elim (different message sent)

theorem grantedAccept_of_not_receiveAccept
    {current : AcceptorTransition}
    (different : ∀ req, current.input.2 ≠ .receiveAccept req) :
    grantedAccept current = none := by
  cases granted : grantedAccept current with
  | none => rfl
  | some req =>
      exact False.elim
        (different req (grantedAccept_eq_some_iff.mp granted).1)

end LibPaxos
