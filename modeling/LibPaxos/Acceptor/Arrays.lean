import LibPaxos.Acceptor.Records

/-!
# Array lengths of the records handed to storage

The arrays of a record share one length field.  The records that an acceptor
hands to `storage_put_record` are observed by running it over storage that logs
them, which changes nothing else.  They are consistent except where a relayed
reply grows a record that holds values.
-/

namespace LibPaxos

open LibPaxos.Library

variable {σ : Type}

/-- Storage that also logs every record handed to `storage_put_record`. -/
def StorageApi.logged (api : StorageApi σ) :
    StorageApi (σ × List PaxosAccepted) where
  txBegin := fun s => ((api.txBegin s.1).1, ((api.txBegin s.1).2, s.2))
  txCommit := fun s => ((api.txCommit s.1).1, ((api.txCommit s.1).2, s.2))
  txAbort := fun s => (api.txAbort s.1, s.2)
  getRecord := fun s iid => api.getRecord s.1 iid
  putRecord := fun s acc =>
    ((api.putRecord s.1 acc).1, ((api.putRecord s.1 acc).2, s.2 ++ [acc]))
  trim := fun s iid => ((api.trim s.1 iid).1, ((api.trim s.1 iid).2, s.2))
  getTrimInstance := fun s => api.getTrimInstance s.1

def Acceptor.withLog (a : Acceptor σ) (log : List PaxosAccepted) :
    Acceptor (σ × List PaxosAccepted) :=
  ⟨a.id, a.trimIid, a.subordinates, (a.store, log)⟩

def Acceptor.forget (a : Acceptor (σ × List PaxosAccepted)) : Acceptor σ :=
  ⟨a.id, a.trimIid, a.subordinates, a.store.1⟩

/-- The records that a call hands to `storage_put_record`, in order. -/
def handed (api : StorageApi σ) (a : Acceptor σ) (op : AcceptorOp) :
    List PaxosAccepted :=
  (acceptorStep api.logged (a.withLog []) op).1.store.2

theorem adjustRecord_logged (api : StorageApi σ)
    (entries : List (Nat × Nat × Nat)) :
    ∀ (store : σ) (log : List PaxosAccepted) (acc : PaxosAccepted)
      (counted : Nat),
      (adjustRecord api.logged entries (store, log) acc counted).1.1 =
          (adjustRecord api entries store acc counted).1 ∧
        (adjustRecord api.logged entries (store, log) acc counted).2 =
          (adjustRecord api entries store acc counted).2 := by
  induction entries with
  | nil =>
      intro store log acc counted
      exact ⟨rfl, rfl⟩
  | cons entry rest inductionHypothesis =>
      obtain ⟨aid, ballot, valueBallot⟩ := entry
      intro store log acc counted
      by_cases listed : acc.hasAid aid = true
      · simp only [adjustRecord, if_pos listed]
        exact inductionHypothesis store log acc counted
      · simp only [adjustRecord, if_neg listed]
        exact inductionHypothesis _ _ _ _

section Logged

variable (api : StorageApi σ) (a : Acceptor σ) (log : List PaxosAccepted)

theorem acceptorReceivePrepare_logged (isrc : Int) (req : PaxosPrepare) :
    Prod.map id Acceptor.forget
        (acceptorReceivePrepare api.logged isrc (a.withLog log) req) =
      acceptorReceivePrepare api isrc a req := by
  unfold acceptorReceivePrepare commitReply
  simp only [apply_ite (Prod.map id Acceptor.forget)]
  rfl

theorem acceptorReceiveAccept_logged (req : PaxosAccept) :
    Prod.map id Acceptor.forget
        (acceptorReceiveAccept api.logged (a.withLog log) req) =
      acceptorReceiveAccept api a req := by
  unfold acceptorReceiveAccept commitReply
  simp only [apply_ite (Prod.map id Acceptor.forget)]
  rfl

theorem acceptorReceiveRepeat_logged (iid : Nat) :
    Prod.map id Acceptor.forget
        (acceptorReceiveRepeat api.logged (a.withLog log) iid) =
      acceptorReceiveRepeat api a iid := by
  unfold acceptorReceiveRepeat
  simp only [apply_ite (Prod.map id Acceptor.forget)]
  rfl

theorem acceptorReceiveTrim_logged (trim : PaxosTrim) :
    Prod.map id Acceptor.forget
        (acceptorReceiveTrim api.logged (a.withLog log) trim) =
      acceptorReceiveTrim api a trim := by
  unfold acceptorReceiveTrim
  simp only [apply_ite (Prod.map id Acceptor.forget)]
  rfl

theorem getSrcidPreempted_logged (ac : PaxosPreempted) :
    Prod.map id Acceptor.forget
        (getSrcidPreempted api.logged ac (a.withLog log)) =
      getSrcidPreempted api ac a := by
  unfold getSrcidPreempted
  simp only [apply_ite (Prod.map id Acceptor.forget)]
  rfl

theorem commitSrcid_logged (ret : Int)
    (result : (σ × List PaxosAccepted) × Nat) :
    Prod.map id Acceptor.forget
        (commitSrcid api.logged (a.withLog log) ret result.1 result.2) =
      commitSrcid api a ret result.1.1 result.2 := by
  unfold commitSrcid
  simp only [apply_ite (Prod.map id Acceptor.forget)]
  rfl

theorem getSrcid_logged (iid : Nat) (entries : List (Nat × Nat × Nat)) :
    Prod.map id Acceptor.forget
        (getSrcid api.logged iid entries (a.withLog log)) =
      getSrcid api iid entries a := by
  have began : api.logged.txBegin (a.withLog log).store =
      ((api.txBegin a.store).1, ((api.txBegin a.store).2, log)) := rfl
  have found : api.logged.getRecord ((api.txBegin a.store).2, log) iid =
      api.getRecord (api.txBegin a.store).2 iid := rfl
  unfold getSrcid
  by_cases fails : (api.txBegin a.store).1 ≠ 0
  · simp only [began, if_pos fails]
    rfl
  · simp only [began, if_neg fails, found]
    cases api.getRecord (api.txBegin a.store).2 iid with
    | none =>
        exact commitSrcid_logged api a log (-1)
          (((api.txBegin a.store).2, log), 0)
    | some acc =>
        have adjusted := adjustRecord_logged api entries
          (api.txBegin a.store).2 log acc 0
        apply (commitSrcid_logged api a log (intOfUint32 acc.src)
          (adjustRecord api.logged entries
            ((api.txBegin a.store).2, log) acc 0)).trans
        rw [adjusted.1, adjusted.2]

end Logged

/-- Logging changes neither what a call returns nor the state it leaves. -/
theorem acceptorStep_logged (api : StorageApi σ) (a : Acceptor σ)
    (log : List PaxosAccepted) (op : AcceptorOp) :
    Prod.map Acceptor.forget id
        (acceptorStep api.logged (a.withLog log) op) =
      acceptorStep api a op := by
  cases op with
  | receivePrepare isrc req =>
      simp only [acceptorStep, ← acceptorReceivePrepare_logged api a log]
      rfl
  | receiveAccept req =>
      simp only [acceptorStep, ← acceptorReceiveAccept_logged api a log]
      rfl
  | receiveRepeat iid =>
      simp only [acceptorStep, ← acceptorReceiveRepeat_logged api a log]
      rfl
  | receiveTrim trim =>
      simp only [acceptorStep, ← acceptorReceiveTrim_logged api a log]
      rfl
  | relayPromise pr =>
      simp only [acceptorStep, getSrcidPromiseAndAdjust,
        ← getSrcid_logged api a log]
      rfl
  | relayAccepted ac =>
      simp only [acceptorStep, getSrcidAccepted, ← getSrcid_logged api a log]
      rfl
  | relayPreempted ac =>
      simp only [acceptorStep, ← getSrcidPreempted_logged api a log]
      rfl

/-- The records that the loop of `getSrcid` stores, in order. -/
def grownRecords : List (Nat × Nat × Nat) → PaxosAccepted → List PaxosAccepted
  | [], _ => []
  | (aid, ballot, valueBallot) :: rest, acc =>
      if acc.hasAid aid then
        grownRecords rest acc
      else
        acc.appendAid aid ballot valueBallot ::
          grownRecords rest (acc.appendAid aid ballot valueBallot)

theorem adjustRecord_log (api : StorageApi σ)
    (entries : List (Nat × Nat × Nat)) :
    ∀ (store : σ) (log : List PaxosAccepted) (acc : PaxosAccepted)
      (counted : Nat),
      (adjustRecord api.logged entries (store, log) acc counted).1.2 =
        log ++ grownRecords entries acc := by
  induction entries with
  | nil =>
      intro store log acc counted
      simp [adjustRecord, grownRecords]
  | cons entry rest inductionHypothesis =>
      obtain ⟨aid, ballot, valueBallot⟩ := entry
      intro store log acc counted
      by_cases listed : acc.hasAid aid = true
      · simp only [adjustRecord, grownRecords, if_pos listed]
        exact inductionHypothesis store log acc counted
      · simp only [adjustRecord, grownRecords, if_neg listed]
        have remaining := inductionHypothesis (api.putRecord store
            (acc.appendAid aid ballot valueBallot)).2
          (log ++ [acc.appendAid aid ballot valueBallot])
          (acc.appendAid aid ballot valueBallot)
          (acc.appendAid aid ballot valueBallot).nAids
        rw [List.append_assoc] at remaining
        exact remaining

/-- A record without values grows consistently. -/
theorem grownRecords_consistent_of_none
    {id key : Nat} (entries : List (Nat × Nat × Nat)) :
    ∀ {acc : PaxosAccepted}, Growing id key acc → acc.values = none →
      ∀ record ∈ grownRecords entries acc, record.ArraysConsistent := by
  induction entries with
  | nil =>
      intro acc _ _ record member
      cases member
  | cons entry rest inductionHypothesis =>
      obtain ⟨aid, ballot, valueBallot⟩ := entry
      intro acc growing missing record member
      by_cases listed : acc.hasAid aid = true
      · rw [grownRecords, if_pos listed] at member
        exact inductionHypothesis growing missing record member
      · rw [grownRecords, if_neg listed, List.mem_cons] at member
        have grown := (growing.appendAid aid ballot valueBallot).1
        rcases member with rfl | later
        · refine ⟨grown.toWordsConsistent, ?_⟩
          intro array present
          rw [show (acc.appendAid aid ballot valueBallot).values =
            acc.values from rfl, missing] at present
          cases present
        · exact inductionHypothesis grown missing record later

/-- A record with values grows consistently only if it does not grow. -/
theorem grownRecords_consistent_iff
    (entries : List (Nat × Nat × Nat)) {acc : PaxosAccepted}
    {array : List PaxosValue} (present : acc.values = some array)
    (length : array.length = acc.nAids) :
    (∀ record ∈ grownRecords entries acc, record.ArraysConsistent) ↔
      ∀ entry ∈ entries, acc.hasAid entry.1 = true := by
  induction entries with
  | nil => simp [grownRecords]
  | cons entry rest inductionHypothesis =>
      obtain ⟨aid, ballot, valueBallot⟩ := entry
      by_cases listed : acc.hasAid aid = true
      · rw [grownRecords, if_pos listed, inductionHypothesis]
        simp [listed]
      · rw [grownRecords, if_neg listed]
        constructor
        · intro consistent
          have broken := (consistent _ (List.mem_cons_self ..)).values array
            present
          rw [length] at broken
          exact False.elim (Nat.succ_ne_self _ broken.symm)
        · intro all
          exact False.elim (listed (all _ (List.mem_cons_self ..)))

/-- A relayed reply brings no acceptor id that a record holding values does not
list already. -/
def MemAcceptor.RelaysKnown (a : MemAcceptor) (op : AcceptorOp) : Prop :=
  ∀ iid entries record, op.relayed = some (iid, entries) →
    a.store.records iid = some record → record.values ≠ none →
    ∀ entry ∈ entries, entry.1 ∈ record.aids

theorem relaysKnown_iff
    {a : MemAcceptor} {op : AcceptorOp} {iid : Nat}
    {entries : List (Nat × Nat × Nat)}
    (relays : op.relayed = some (iid, entries)) :
    a.RelaysKnown op ↔
      ∀ record, a.store.records iid = some record → record.values ≠ none →
        ∀ entry ∈ entries, entry.1 ∈ record.aids := by
  constructor
  · intro known record
    exact known iid entries record relays
  · intro known iid' entries' record relays'
    cases relays.symm.trans relays'
    exact known record

section Step

variable {a : MemAcceptor} (inv : a.Inv) (mem : Memory)

include inv in
/-- Prepare hands over the record it grants, if any. -/
theorem handed_receivePrepare (isrc : Int) (req : PaxosPrepare) :
    ∀ record ∈ handed (memStorageApi mem) a (.receivePrepare isrc req),
      record = preparedRecord isrc a.id (a.found req.iid) req := by
  by_cases trimmed : req.iid ≤ a.trimIid
  · simp [handed, acceptorStep, acceptorReceivePrepare, Acceptor.withLog,
      trimmed]
  · rcases grants_or_refused a req.iid req.ballot with
      grants | ⟨record, present, smaller⟩
    · have test := (grants_iff req.iid req.ballot).mpr grants
      unfold MemAcceptor.found at test
      simp [handed, acceptorStep, acceptorReceivePrepare, Acceptor.withLog,
        trimmed, StorageApi.logged, memStorageApi, inv.get_eq, test,
        commitReply, MemAcceptor.found]
    · have listed := (inv.record _ _ present).1.hasAid
      simp [handed, acceptorStep, acceptorReceivePrepare, Acceptor.withLog,
        trimmed, StorageApi.logged, memStorageApi, inv.get_eq, present,
        Nat.not_le.mpr smaller, listed, commitReply]

include inv in
/-- Accept hands over the record it grants, if any. -/
theorem handed_receiveAccept (req : PaxosAccept) :
    ∀ record ∈ handed (memStorageApi mem) a (.receiveAccept req),
      record = paxosAcceptToAccepted a.id req := by
  by_cases trimmed : req.iid ≤ a.trimIid
  · simp [handed, acceptorStep, acceptorReceiveAccept, Acceptor.withLog,
      trimmed]
  · rcases grants_or_refused a req.iid req.ballot with
      grants | ⟨record, present, smaller⟩
    · have test := (grants_iff req.iid req.ballot).mpr grants
      unfold MemAcceptor.found at test
      simp [handed, acceptorStep, acceptorReceiveAccept, Acceptor.withLog,
        trimmed, StorageApi.logged, memStorageApi, inv.get_eq, test,
        commitReply]
    · simp [handed, acceptorStep, acceptorReceiveAccept, Acceptor.withLog,
        trimmed, StorageApi.logged, memStorageApi, inv.get_eq, present,
        Nat.not_le.mpr smaller, commitReply]

theorem commitSrcid_log (logged : Acceptor (MemStorage × List PaxosAccepted))
    (ret : Int) (store : MemStorage × List PaxosAccepted) (counted : Nat) :
    (commitSrcid (memStorageApi mem).logged logged ret store
      counted).2.store.2 = store.2 := by
  simp only [commitSrcid, StorageApi.logged, memStorageApi, ne_eq,
    not_true_eq_false, if_false]
  split <;> rfl

include inv in
/-- A relayed reply hands over every step of the growth of its record. -/
theorem handed_getSrcid (iid : Nat) (entries : List (Nat × Nat × Nat)) :
    (getSrcid (memStorageApi mem).logged iid entries
        (a.withLog [])).2.store.2 =
      (a.store.records iid).elim [] (grownRecords entries) := by
  have began : (memStorageApi mem).logged.txBegin (a.withLog []).store =
      (0, (a.store, [])) := rfl
  have found : (memStorageApi mem).logged.getRecord (a.store, []) iid =
      a.store.records iid := inv.get_eq mem iid
  simp only [getSrcid, began, found, ne_eq, not_true_eq_false, if_false]
  cases a.store.records iid with
  | none => exact commitSrcid_log mem _ _ _ _
  | some acc =>
      apply (commitSrcid_log mem _ _ _ _).trans
      rw [adjustRecord_log]
      rfl

include inv in
theorem getSrcid_consistent_iff (iid : Nat)
    (entries : List (Nat × Nat × Nat)) :
    (∀ record ∈ (getSrcid (memStorageApi mem).logged iid entries
        (a.withLog [])).2.store.2, record.ArraysConsistent) ↔
      ∀ record, a.store.records iid = some record → record.values ≠ none →
        ∀ entry ∈ entries, entry.1 ∈ record.aids := by
  rw [handed_getSrcid inv mem iid entries]
  cases stored : a.store.records iid with
  | none => simp
  | some acc =>
      have ok := (inv.record iid acc stored).1
      cases present : acc.values with
      | none =>
          have consistent :=
            grownRecords_consistent_of_none entries ok.growing present
          simp only [Option.elim_some, Option.some.injEq, forall_eq']
          exact ⟨fun _ valued => False.elim (valued present),
            fun _ => consistent⟩
      | some array =>
          have grows := grownRecords_consistent_iff entries present
            (ok.values array present)
          simp only [ok.hasAid_iff_mem] at grows
          simp only [Option.elim_some, Option.some.injEq, forall_eq', present,
            ne_eq, reduceCtorEq, not_false_eq_true, forall_const]
          exact grows

include inv in
/-- The records handed to storage by one call are consistent exactly when the
call relays nothing new to a record that holds values. -/
theorem handed_consistent_iff (op : AcceptorOp) :
    (∀ record ∈ handed (memStorageApi mem) a op,
      record.ArraysConsistent) ↔
      a.RelaysKnown op := by
  have silent : op.relayed = none → a.RelaysKnown op := by
    intro none iid entries record relays
    rw [none] at relays
    cases relays
  cases op with
  | receivePrepare isrc req =>
      refine ⟨fun _ => silent rfl, fun _ record member => ?_⟩
      rw [handed_receivePrepare inv mem isrc req record member]
      exact (recordOk_preparedRecord
        (value0_found inv req.iid)).toArraysConsistent
  | receiveAccept req =>
      refine ⟨fun _ => silent rfl, fun _ record member => ?_⟩
      rw [handed_receiveAccept inv mem req record member]
      exact (recordOk_paxosAcceptToAccepted a.id req).toArraysConsistent
  | receiveRepeat iid =>
      refine ⟨fun _ => silent rfl, fun _ record member => ?_⟩
      simp [handed, acceptorStep, acceptorReceiveRepeat, Acceptor.withLog,
        StorageApi.logged, memStorageApi] at member
  | receiveTrim trim =>
      refine ⟨fun _ => silent rfl, fun _ record member => ?_⟩
      by_cases stale : trim.iid ≤ a.trimIid
      · simp [handed, acceptorStep, acceptorReceiveTrim, Acceptor.withLog,
          stale] at member
      · simp [handed, acceptorStep, acceptorReceiveTrim, Acceptor.withLog,
          StorageApi.logged, memStorageApi, stale] at member
  | relayPromise pr =>
      exact (getSrcid_consistent_iff inv mem _ _).trans
        (relaysKnown_iff rfl).symm
  | relayAccepted ac =>
      exact (getSrcid_consistent_iff inv mem _ _).trans
        (relaysKnown_iff rfl).symm
  | relayPreempted ac =>
      refine ⟨fun _ => silent rfl, fun _ record member => ?_⟩
      cases member

end Step

section Run

variable {id subordinates : Nat} {past : List AcceptorTransition}
variable {final : MemAcceptor}

/-- In a run of an acceptor all records handed to storage and all records in
the store have consistent arrays exactly when no step relays an unknown
acceptor id to a record that holds values. -/
theorem records_consistent_iff
    (trace : Trace memAcceptorStep (memAcceptorNew id subordinates)
      past final) :
    (∀ current ∈ past,
      (∀ record ∈ handed (memStorageApi current.input.1) current.source
        current.input.2, record.ArraysConsistent) ∧
      ∀ iid record, current.target.store.records iid = some record →
        record.ArraysConsistent) ↔
    ∀ current ∈ past, current.source.RelaysKnown current.input.2 := by
  refine forall₂_congr fun current member => ?_
  obtain ⟨_, _, _, reached, stepEq⟩ := trace.mem_split member
  have inv := (memAcceptor_trace_inv reached).1
  have targetInv := (memAcceptorStep_outcome inv stepEq).keeps_inv inv
  rw [handed_consistent_iff inv]
  constructor
  · exact fun both => both.1
  · intro known
    exact ⟨known, fun iid record stored =>
      (targetInv.record iid record stored).1.toArraysConsistent⟩

/-- An accept, then a relayed promise of another acceptor: the record handed to
storage claims two entries and has one value. -/
theorem records_inconsistent_after_relay :
    ¬ ∀ past final,
      Trace memAcceptorStep (memAcceptorNew 0 0) past final →
      ∀ current ∈ past,
        ∀ record ∈ handed (memStorageApi current.input.1) current.source
          current.input.2, record.ArraysConsistent := by
  intro consistent
  have ran :=
    trace_of_runFrom memAcceptorStep (memAcceptorNew 0 0)
      ([(Memory.zero, .receiveAccept ⟨0, 1, 5, ⟨[7]⟩⟩),
        (Memory.zero, .relayPromise
          ⟨0, 1, 5, 0, 1, [1], PaxosValue.empty, [PaxosValue.empty], [5],
            [0]⟩)]) rfl
  have all := consistent _ _ ran _
    (List.mem_cons_of_mem _ (List.mem_cons_self ..)) _
    (List.mem_cons_self ..)
  have length := all.values [⟨[7]⟩] rfl
  revert length
  decide

/-- A relayed promise for an instance that is only prepared. -/
theorem records_consistent_iff_prepared :
    ∃ past final,
      Trace memAcceptorStep (memAcceptorNew 0 0) past final ∧
      past.length = 2 ∧
      ∀ current ∈ past,
        ∀ record ∈ handed (memStorageApi current.input.1) current.source
          current.input.2, record.ArraysConsistent := by
  have ran :=
    trace_of_runFrom memAcceptorStep (memAcceptorNew 0 0)
      ([(Memory.zero, .receivePrepare 0 ⟨0, 1, 5⟩),
        (Memory.zero, .relayPromise
          ⟨0, 1, 5, 0, 1, [1], PaxosValue.empty, [PaxosValue.empty], [5],
            [0]⟩)]) rfl
  refine ⟨_, _, ran, rfl, fun current member =>
    ((records_consistent_iff ran).mpr ?_ current member).1⟩
  intro step stepMember
  simp only [List.mem_cons, List.not_mem_nil, or_false] at stepMember
  rcases stepMember with rfl | rfl
  · intro iid entries record relays
    cases relays
  · rw [relaysKnown_iff rfl]
    intro record stored valued
    cases stored
    exact False.elim (valued rfl)

end Run

end LibPaxos
