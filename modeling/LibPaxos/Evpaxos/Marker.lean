import LibPaxos.Acceptor.Sessions
import LibPaxos.Evpaxos.Evacceptor

/-!
# The key of the trim marker

Storage on disk keeps the trim instance under key 0, in the table of the
records.  Nothing in the storage layer keeps the two apart: an acceptor must
not ask for the record of instance 0, nor store one.  Prepares, accepts and
trims turn instance 0 away, because no instance is below the trim point 0;
repeats and relayed replies go to storage without that comparison.
-/

namespace LibPaxos

open LibPaxos.Library

variable {σ : Type}

/-- The key under which a request reads or writes a record. -/
def StorageRequest.recordIid : StorageRequest → Option Nat
  | .getRecord iid => some iid
  | .putRecord acc => some acc.iid
  | _ => none

/-- A request that treats the marker as a record is one for instance 0. -/
def StorageRequest.SparesMarker (request : StorageRequest) : Prop :=
  request.recordIid ≠ some 0

@[simp]
theorem sparesMarker_getRecord_iff (iid : Nat) :
    (StorageRequest.getRecord iid).SparesMarker ↔ iid ≠ 0 := by
  simp [StorageRequest.SparesMarker, StorageRequest.recordIid]

@[simp]
theorem sparesMarker_putRecord_iff (acc : PaxosAccepted) :
    (StorageRequest.putRecord acc).SparesMarker ↔ acc.iid ≠ 0 := by
  simp [StorageRequest.SparesMarker, StorageRequest.recordIid]

theorem sparesMarker_of_none
    {request : StorageRequest} (none : request.recordIid = none) :
    request.SparesMarker := by
  intro marker
  rw [none] at marker
  cases marker

/-- Storage that finds under a key only a record of that instance, as
`lmdb_storage_get` asserts, on the states that `good` describes. -/
structure StorageApi.Keyed (api : StorageApi σ) (good : σ → Prop) : Prop where
  kept : ∀ request store, good store → good (api.serve request store).2
  keyed : ∀ store iid record, good store →
    api.getRecord store iid = some record → record.iid = iid

/-- Memory storage is keyed from its start on. -/
theorem memStorageApi_keyed (mem : Memory) :
    (memStorageApi mem).Keyed fun store =>
      ∀ key record, store.records key = some record → record.iid = key := by
  refine ⟨?_, ?_⟩
  · intro request store keyed
    cases request with
    | putRecord acc => exact memStoragePut_keyed mem acc keyed
    | trim iid =>
        intro key record found
        change (store.records key).filter _ = some record at found
        exact keyed key record (Option.filter_eq_some_iff.mp found).1
    | _ => exact keyed
  · intro store iid record keyed found
    change (store.records iid).map (paxosAcceptedCopy mem) = some record
      at found
    obtain ⟨kept, present, copied⟩ := Option.map_eq_some_iff.mp found
    rw [← copied, paxosAcceptedCopy_iid]
    exact keyed iid kept present

/-! ### One call into the acceptor -/

/-- The instance that a call looks up without comparing it with `trim_iid`. -/
def AcceptorOp.uncheckedIid : AcceptorOp → Option Nat
  | .receiveRepeat iid => some iid
  | .relayPromise pr => some pr.iid
  | .relayAccepted ac => some ac.iid
  | .relayPreempted ac => some ac.iid
  | _ => none

section Requests

variable {api : StorageApi σ} {good : σ → Prop}

/-- The record found, as the acceptor holds it after the lookup. -/
theorem StorageApi.Keyed.found_iid
    (storage : api.Keyed good) {store : σ} (holds : good store)
    {iid : Nat} (found : api.getRecord store iid ≠ none) :
    ((api.getRecord store iid).getD PaxosAccepted.zeroed).iid = iid := by
  obtain ⟨record, present⟩ := Option.ne_none_iff_exists'.mp found
  rw [present]
  exact storage.keyed store iid record holds present

/-- A lookup asks for the marker when the transaction begins and the instance
is 0; what follows it has the answer. -/
theorem lookupSession_spares_iff {α : Type} (iid : Nat) (refused : α)
    (resume : Option PaxosAccepted → StorageSession α) (store : σ) :
    (lookupSession iid refused resume).Allowed api.serve
        StorageRequest.SparesMarker store ↔
      ((api.txBegin store).1 = 0 → iid ≠ 0 ∧
        (resume (api.getRecord (api.txBegin store).2 iid)).Allowed api.serve
          StorageRequest.SparesMarker (api.txBegin store).2) := by
  have began : api.serve .txBegin store = api.txBegin store := rfl
  have asked : api.serve (.getRecord iid) (api.txBegin store).2 =
      (api.getRecord (api.txBegin store).2 iid, (api.txBegin store).2) := rfl
  unfold lookupSession
  rw [Session.allowed_call_iff, began]
  by_cases begins : (api.txBegin store).1 = 0
  · rw [if_neg (not_not.mpr begins), Session.allowed_call_iff, asked,
      sparesMarker_getRecord_iff]
    exact ⟨fun spared _ => spared.2,
      fun spared => ⟨sparesMarker_of_none rfl, spared begins⟩⟩
  · rw [if_pos begins]
    exact ⟨fun _ zero => absurd zero begins,
      fun _ => ⟨sparesMarker_of_none rfl, Session.allowed_done _ _⟩⟩

theorem commitReply_spares (store : σ) (reply : PaxosMessage) :
    (commitReplySession reply).Allowed api.serve
      StorageRequest.SparesMarker store := by
  refine (Session.allowed_call_iff _ _ _).mpr ⟨sparesMarker_of_none rfl, ?_⟩
  split <;> exact Session.allowed_done _ _

/-- A record that is stored and, if that succeeds, reported. -/
theorem putReply_spares {acc : PaxosAccepted} (store : σ)
    (positive : acc.iid ≠ 0) (reply : PaxosMessage) :
    Session.Allowed api.serve StorageRequest.SparesMarker
      (Session.call (StorageRequest.putRecord acc) fun (rv : Int) =>
        if rv ≠ 0 then
          Session.call StorageRequest.txAbort fun _ => Session.done none
        else
          commitReplySession reply) store := by
  refine (Session.allowed_call_iff _ _ _).mpr
    ⟨(sparesMarker_putRecord_iff _).mpr positive, ?_⟩
  split
  · exact (Session.allowed_call_iff _ _ _).mpr
      ⟨sparesMarker_of_none rfl, Session.allowed_done _ _⟩
  · exact commitReply_spares _ _

theorem receivePrepare_spares
    (storage : api.Keyed good) {store : σ} (holds : good store)
    (isrc : Int) (id trimIid : Nat) (req : PaxosPrepare) :
    (receivePrepareSession isrc id trimIid req).Allowed api.serve
      StorageRequest.SparesMarker store := by
  unfold receivePrepareSession
  split
  · exact Session.allowed_done _ _
  · rename_i late
    have positive : req.iid ≠ 0 := by omega
    refine (lookupSession_spares_iff _ _ _ _).mpr fun _ => ⟨positive, ?_⟩
    dsimp only
    split
    · exact putReply_spares _ positive _
    · rename_i kept
      split
      · exact commitReply_spares _ _
      · have found := storage.found_iid
          (storage.kept .txBegin store holds) (not_or.mp kept).1
        refine (Session.allowed_call_iff _ _ _).mpr
          ⟨(sparesMarker_putRecord_iff _).mpr ?_, commitReply_spares _ _⟩
        exact fun marker => positive (found.symm.trans marker)

theorem receiveAccept_spares
    (id trimIid : Nat) (req : PaxosAccept) (store : σ) :
    (receiveAcceptSession id trimIid req).Allowed api.serve
      StorageRequest.SparesMarker store := by
  unfold receiveAcceptSession
  split
  · exact Session.allowed_done _ _
  · rename_i late
    have positive : req.iid ≠ 0 := by omega
    refine (lookupSession_spares_iff _ _ _ _).mpr fun _ => ⟨positive, ?_⟩
    dsimp only
    split
    · exact putReply_spares _ positive _
    · exact commitReply_spares _ _

theorem receiveTrim_spares (trimIid : Nat) (trim : PaxosTrim) (store : σ) :
    (receiveTrimSession trimIid trim).Allowed api.serve
      StorageRequest.SparesMarker store := by
  unfold receiveTrimSession
  split
  · exact Session.allowed_done _ _
  · refine (Session.allowed_call_iff _ _ _).mpr
      ⟨sparesMarker_of_none rfl, ?_⟩
    split
    · exact Session.allowed_done _ _
    · refine (Session.allowed_call_iff _ _ _).mpr
        ⟨sparesMarker_of_none rfl, ?_⟩
      exact (Session.allowed_call_iff _ _ _).mpr
        ⟨sparesMarker_of_none rfl, Session.allowed_done _ _⟩

/-- The loop over the entries of a relayed reply stores the record under the
instance that it was found under. -/
theorem adjustRecord_spares {α : Type} {finish : Nat → StorageSession α}
    (finished : ∀ counted store, (finish counted).Allowed api.serve
      StorageRequest.SparesMarker store)
    (entries : List (Nat × Nat × Nat)) :
    ∀ (acc : PaxosAccepted) (counted : Nat) (store : σ), acc.iid ≠ 0 →
      (adjustRecordSession finish entries acc counted).Allowed api.serve
        StorageRequest.SparesMarker store := by
  induction entries with
  | nil =>
      intro acc counted store _
      exact finished counted store
  | cons entry rest inductionHypothesis =>
      obtain ⟨aid, ballot, valueBallot⟩ := entry
      intro acc counted store positive
      unfold adjustRecordSession
      split
      · exact inductionHypothesis acc counted store positive
      · refine (Session.allowed_call_iff _ _ _).mpr
          ⟨(sparesMarker_putRecord_iff _).mpr positive, ?_⟩
        exact inductionHypothesis _ _ _ positive

theorem commitSrcid_spares (subordinates : Nat) (ret : Int) (counted : Nat)
    (store : σ) :
    (commitSrcidSession subordinates ret counted).Allowed api.serve
      StorageRequest.SparesMarker store := by
  refine (Session.allowed_call_iff _ _ _).mpr ⟨sparesMarker_of_none rfl, ?_⟩
  split
  · exact Session.allowed_done _ _
  · split <;> exact Session.allowed_done _ _

theorem getSrcid_spares_iff
    (storage : api.Keyed good) {store : σ} (holds : good store)
    (subordinates iid : Nat) (entries : List (Nat × Nat × Nat)) :
    (getSrcidSession subordinates iid entries).Allowed api.serve
        StorageRequest.SparesMarker store ↔
      (iid = 0 → (api.txBegin store).1 ≠ 0) := by
  refine (lookupSession_spares_iff _ _ _ _).trans ⟨?_, ?_⟩
  · intro spared zero begins
    exact (spared begins).1 zero
  · intro refused begins
    have positive : iid ≠ 0 := fun zero => refused zero begins
    refine ⟨positive, ?_⟩
    cases present : api.getRecord (api.txBegin store).2 iid with
    | none => exact commitSrcid_spares _ _ _ _
    | some acc =>
        have found := storage.keyed _ iid acc
          (storage.kept .txBegin store holds) present
        exact adjustRecord_spares
          (fun counted store => commitSrcid_spares _ _ counted store)
          entries acc 0 _ (found.trans_ne positive)

/-- A session that only looks a record up and commits. -/
theorem lookup_commit_spares_iff {α : Type} (iid : Nat) (refused : α)
    (finish : Option PaxosAccepted → α) (store : σ) :
    (lookupSession iid refused fun found =>
        .call .txCommit fun (rv : Int) =>
          if rv ≠ 0 then
            .done refused
          else
            .done (finish found)).Allowed api.serve
        StorageRequest.SparesMarker store ↔
      (iid = 0 → (api.txBegin store).1 ≠ 0) := by
  refine (lookupSession_spares_iff _ _ _ _).trans ⟨?_, ?_⟩
  · intro spared zero begins
    exact (spared begins).1 zero
  · intro refused begins
    refine ⟨fun zero => refused zero begins, ?_⟩
    refine (Session.allowed_call_iff _ _ _).mpr
      ⟨sparesMarker_of_none rfl, ?_⟩
    split <;> exact Session.allowed_done _ _

/-- A call into the acceptor makes a request for the marker exactly when it
looks up instance 0 unchecked and its transaction begins. -/
theorem acceptorRequests_spare_iff
    (storage : api.Keyed good) {a : Acceptor σ} (holds : good a.store)
    (op : AcceptorOp) :
    (∀ request ∈ acceptorRequests api a op, request.SparesMarker) ↔
      (op.uncheckedIid = some 0 → (api.txBegin a.store).1 ≠ 0) := by
  cases op with
  | receivePrepare isrc req =>
      refine iff_of_true ?_ (fun marker => by cases marker)
      exact receivePrepare_spares storage holds isrc a.id a.trimIid req
  | receiveAccept req =>
      refine iff_of_true ?_ (fun marker => by cases marker)
      exact receiveAccept_spares a.id a.trimIid req a.store
  | receiveTrim trim =>
      refine iff_of_true ?_ (fun marker => by cases marker)
      exact receiveTrim_spares a.trimIid trim a.store
  | receiveRepeat iid =>
      simp only [AcceptorOp.uncheckedIid, Option.some_inj]
      exact lookup_commit_spares_iff iid none _ a.store
  | relayPromise pr =>
      simp only [AcceptorOp.uncheckedIid, Option.some_inj]
      exact getSrcid_spares_iff storage holds _ pr.iid _
  | relayAccepted ac =>
      simp only [AcceptorOp.uncheckedIid, Option.some_inj]
      exact getSrcid_spares_iff storage holds _ ac.iid _
  | relayPreempted ac =>
      simp only [AcceptorOp.uncheckedIid, Option.some_inj]
      exact lookup_commit_spares_iff ac.iid (-1) _ a.store

end Requests

/-! ### The calls of one message -/

/-- The instances that the loop of `evacceptor_handle_repeat` visits in at most
`rounds` rounds.  Its counter is an `iid_t`, which goes from `2 ^ 32 - 1` back
to 0. -/
def repeatRounds : Nat → Nat → Nat → List Nat
  | 0, _, _ => []
  | rounds + 1, iid, last =>
      if iid ≤ last then
        iid :: repeatRounds rounds ((iid + 1) % 2 ^ 32) last
      else
        []

/-- The calls into the acceptor that the callback of a message makes, the loop
of a repeat for at most `rounds` rounds. -/
def PaxosMessage.acceptorOps (rounds : Nat) : PaxosMessage → List AcceptorOp
  | .repeat msg =>
      (repeatRounds rounds msg.first msg.last).map .receiveRepeat
  | message => message.acceptorOp.toList

def acceptorSteps (api : StorageApi σ) :
    List AcceptorOp → Acceptor σ → Acceptor σ × List AcceptorResult
  | [], a => (a, [])
  | op :: rest, a =>
      let (a, result) := acceptorStep api a op
      let (a, results) := acceptorSteps api rest a
      (a, result :: results)

/-- The requests of several calls into the acceptor. -/
def stepsRequests (api : StorageApi σ) :
    List AcceptorOp → Acceptor σ → List StorageRequest
  | [], _ => []
  | op :: rest, a =>
      acceptorRequests api a op ++
        stepsRequests api rest (acceptorStep api a op).1

/-- The acceptor handling one message, over any storage.  The loop of a repeat
up to `2 ^ 32 - 1` does not end. -/
def acceptorReceive (api : StorageApi σ) (a : Acceptor σ) :
    PaxosMessage → Option (Acceptor σ × List AcceptorResult)
  | .repeat msg =>
      if msg.last = 2 ^ 32 - 1 then
        none
      else
        some (acceptorSteps api
          ((List.range' msg.first (msg.last + 1 - msg.first)).map
            .receiveRepeat) a)
  | message => some (acceptorSteps api message.acceptorOp.toList a)

/-- No request of the callback of a message is for the marker, however long its
loop runs. -/
def MarkerSpared (api : StorageApi σ) (a : Acceptor σ)
    (message : PaxosMessage) : Prop :=
  ∀ rounds, ∀ request ∈ stepsRequests api (message.acceptorOps rounds) a,
    request.SparesMarker

/-- What a repeat that finds its transaction refused, or looks up a record and
commits, does to storage. -/
def repeatedStore (api : StorageApi σ) (store : σ) : σ :=
  let (rv, store) := api.txBegin store
  if rv ≠ 0 then store else (api.txCommit store).2

/-- The message does not lead to instance 0, or storage refuses to begin the
transaction at each turn that it does. -/
def MarkerAvoided (api : StorageApi σ) (a : Acceptor σ) :
    PaxosMessage → Prop
  | .repeat msg =>
      ∀ rounds turn : Nat,
        (repeatRounds rounds msg.first msg.last)[turn]? = some 0 →
          (api.txBegin ((repeatedStore api)^[turn] a.store)).1 ≠ 0
  | message =>
      ∀ op, message.acceptorOp = some op → op.uncheckedIid = some 0 →
        (api.txBegin a.store).1 ≠ 0

theorem receiveRepeat_store (api : StorageApi σ) (a : Acceptor σ)
    (iid : Nat) :
    (acceptorStep api a (.receiveRepeat iid)).1.store =
      repeatedStore api a.store := by
  simp only [acceptorStep, acceptorReceiveRepeat, repeatedStore]
  split
  · rfl
  · split <;> rfl

section Messages

variable {api : StorageApi σ} {good : σ → Prop}

theorem repeats_spare_iff
    (storage : api.Keyed good) (iids : List Nat) :
    ∀ {a : Acceptor σ}, good a.store →
      ((∀ request ∈ stepsRequests api (iids.map .receiveRepeat) a,
          request.SparesMarker) ↔
        ∀ turn : Nat, iids[turn]? = some 0 →
          (api.txBegin ((repeatedStore api)^[turn] a.store)).1 ≠ 0) := by
  induction iids with
  | nil =>
      intro a _
      refine iff_of_true ?_ ?_
      · intro request member
        cases member
      · intro turn visited
        cases visited
  | cons iid rest inductionHypothesis =>
      intro a holds
      have next : good (acceptorStep api a (.receiveRepeat iid)).1.store :=
        acceptorStep_keeps storage.kept holds _
      simp only [List.map_cons, stepsRequests, List.forall_mem_append]
      rw [acceptorRequests_spare_iff storage holds,
        inductionHypothesis next, receiveRepeat_store]
      constructor
      · rintro ⟨first, later⟩ turn visited
        cases turn with
        | zero => exact first visited
        | succ turn => exact later turn visited
      · intro all
        exact ⟨fun visited => all 0 visited,
          fun turn visited => all (turn + 1) visited⟩

theorem call_spares_iff
    (storage : api.Keyed good) {a : Acceptor σ} (holds : good a.store)
    (call : Option AcceptorOp) :
    (∀ request ∈ stepsRequests api call.toList a, request.SparesMarker) ↔
      ∀ op, call = some op → op.uncheckedIid = some 0 →
        (api.txBegin a.store).1 ≠ 0 := by
  cases call with
  | none =>
      refine iff_of_true ?_ ?_
      · intro request member
        cases member
      · intro op called
        cases called
  | some op =>
      simp only [Option.toList_some, stepsRequests, List.append_nil]
      rw [acceptorRequests_spare_iff storage holds]
      constructor
      · intro spared op' called
        cases called
        exact spared
      · intro all
        exact all op rfl

/-- One message, in any state of the acceptor. -/
theorem markerSpared_iff
    (storage : api.Keyed good) {a : Acceptor σ} (holds : good a.store)
    (message : PaxosMessage) :
    MarkerSpared api a message ↔ MarkerAvoided api a message := by
  have single := call_spares_iff storage holds message.acceptorOp
  cases message with
  | «repeat» msg =>
      exact forall_congr' fun rounds => repeats_spare_iff storage _ holds
  | _ => exact (forall_const Nat).trans single

end Messages

/-! ### The instances that a repeat visits -/

theorem repeatRounds_of_lt {rounds iid last : Nat} (past : last < iid) :
    repeatRounds rounds iid last = [] := by
  cases rounds with
  | zero => rfl
  | succ rounds => exact if_neg (by omega)

/-- Below `2 ^ 32 - 1` the loop visits the range from front to back. -/
theorem repeatRounds_eq_range'
    {last : Nat} (bound : last < 2 ^ 32 - 1) (rounds : Nat) :
    ∀ iid, last + 1 - iid ≤ rounds →
      repeatRounds rounds iid last = List.range' iid (last + 1 - iid) := by
  induction rounds with
  | zero =>
      intro iid enough
      rw [Nat.le_zero.mp enough]
      rfl
  | succ rounds inductionHypothesis =>
      intro iid enough
      by_cases inside : iid ≤ last
      · have next : (iid + 1) % 2 ^ 32 = iid + 1 := by omega
        have remaining : last + 1 - iid = (last + 1 - (iid + 1)) + 1 := by
          omega
        rw [repeatRounds, if_pos inside, next,
          inductionHypothesis (iid + 1) (by omega), remaining,
          List.range'_succ]
      · rw [repeatRounds_of_lt (by omega),
          Nat.sub_eq_zero_of_le (by omega)]
        rfl

theorem zero_notMem_repeatRounds
    {last : Nat} (bound : last < 2 ^ 32 - 1) (rounds : Nat) :
    ∀ {iid : Nat}, 0 < iid → 0 ∉ repeatRounds rounds iid last := by
  induction rounds with
  | zero =>
      intro iid _ member
      cases member
  | succ rounds inductionHypothesis =>
      intro iid positive
      rw [repeatRounds]
      split
      · have next : 0 < (iid + 1) % 2 ^ 32 := by omega
        rw [List.mem_cons, not_or]
        exact ⟨by omega, inductionHypothesis next⟩
      · exact List.not_mem_nil

/-- Up to `2 ^ 32 - 1` the loop never leaves: it wraps. -/
theorem repeatRounds_wraps (turn : Nat) :
    ∀ {iid : Nat}, iid < 2 ^ 32 →
      (repeatRounds (turn + 1) iid (2 ^ 32 - 1))[turn]? =
        some ((iid + turn) % 2 ^ 32) := by
  induction turn with
  | zero =>
      intro iid bound
      rw [repeatRounds, if_pos (by omega), List.getElem?_cons_zero,
        Nat.add_zero, Nat.mod_eq_of_lt bound]
  | succ turn inductionHypothesis =>
      intro iid bound
      rw [repeatRounds, if_pos (by omega), List.getElem?_cons_succ,
        inductionHypothesis (Nat.mod_lt _ (by omega))]
      congr 1
      omega

/-- The loop comes to instance 0 when it starts there, and when it wraps. -/
theorem repeat_visits_zero_iff
    {first last : Nat} (firstBound : first < 2 ^ 32)
    (lastBound : last < 2 ^ 32) :
    (∃ rounds turn : Nat, (repeatRounds rounds first last)[turn]? = some 0) ↔
      first ≤ last ∧ (first = 0 ∨ last = 2 ^ 32 - 1) := by
  constructor
  · rintro ⟨rounds, turn, visited⟩
    have member := List.mem_of_getElem? visited
    by_contra outside
    rw [not_and_or, not_or] at outside
    rcases outside with past | ⟨positive, below⟩
    · rw [repeatRounds_of_lt (by omega)] at member
      cases member
    · exact zero_notMem_repeatRounds (by omega) rounds
        (Nat.pos_of_ne_zero positive) member
  · rintro ⟨ordered, rfl | rfl⟩
    · exact ⟨1, 0, congrArg (·[0]?) (if_pos ordered)⟩
    · refine ⟨2 ^ 32 - first + 1, 2 ^ 32 - first, ?_⟩
      rw [repeatRounds_wraps _ firstBound]
      congr 1
      omega

/-- The message does not lead to instance 0. -/
def PaxosMessage.AvoidsMarker : PaxosMessage → Prop
  | .repeat msg =>
      msg.first ≤ msg.last → msg.first ≠ 0 ∧ msg.last ≠ 2 ^ 32 - 1
  | message => ∀ op, message.acceptorOp = some op → op.uncheckedIid ≠ some 0

/-- The bounds of a repeat are 32-bit numbers. -/
def PaxosMessage.RangeFits : PaxosMessage → Prop
  | .repeat msg => msg.first < 2 ^ 32 ∧ msg.last < 2 ^ 32
  | _ => True

/-- Over storage whose transactions begin, the message alone decides. -/
theorem markerAvoided_iff_of_begins
    {api : StorageApi σ} (begins : ∀ store, (api.txBegin store).1 = 0)
    (a : Acceptor σ) {message : PaxosMessage} (fits : message.RangeFits) :
    MarkerAvoided api a message ↔ message.AvoidsMarker := by
  cases message with
  | «repeat» msg =>
      have visits := repeat_visits_zero_iff fits.1 fits.2
      simp only [MarkerAvoided, PaxosMessage.AvoidsMarker, begins]
      constructor
      · intro never ordered
        rw [← not_or]
        intro reached
        obtain ⟨rounds, turn, visited⟩ := visits.mpr ⟨ordered, reached⟩
        exact never rounds turn visited rfl
      · intro outside rounds turn visited
        obtain ⟨ordered, reached⟩ := visits.mp ⟨rounds, turn, visited⟩
        exact absurd reached (not_or.mpr (outside ordered))
  | _ =>
      simp only [MarkerAvoided, PaxosMessage.AvoidsMarker, begins]
      exact forall₂_congr fun op _ =>
        ⟨fun never marker => never marker rfl,
          fun other marker => absurd marker other⟩

/-! ### Runs -/

section Runs

variable {api : StorageApi σ} {good : σ → Prop}

theorem acceptorSteps_keeps
    (storage : api.Keyed good) (ops : List AcceptorOp) :
    ∀ {a : Acceptor σ}, good a.store → good (acceptorSteps api ops a).1.store
    := by
  induction ops with
  | nil =>
      intro a holds
      exact holds
  | cons op rest inductionHypothesis =>
      intro a holds
      exact inductionHypothesis (acceptorStep_keeps storage.kept holds op)

/-- The calls that handling a message makes are those of its callback, run
until its loop ends. -/
theorem acceptorReceive_eq
    {a : Acceptor σ} {message : PaxosMessage}
    {result : Acceptor σ × List AcceptorResult}
    (fits : message.RangeFits)
    (received : acceptorReceive api a message = some result) :
    ∃ enough, ∀ rounds, enough ≤ rounds →
      result = acceptorSteps api (message.acceptorOps rounds) a := by
  cases message with
  | «repeat» msg =>
      simp only [acceptorReceive] at received
      split at received
      · cases received
      · cases received
        refine ⟨msg.last + 1 - msg.first, fun rounds enough => ?_⟩
        have bound : msg.last < 2 ^ 32 := fits.2
        rw [PaxosMessage.acceptorOps,
          repeatRounds_eq_range' (by omega) rounds _ enough]
  | _ =>
      cases received
      exact ⟨0, fun _ _ => rfl⟩

theorem acceptorReceive_keeps
    (storage : api.Keyed good) {a : Acceptor σ} {message : PaxosMessage}
    {result : Acceptor σ × List AcceptorResult}
    (holds : good a.store)
    (received : acceptorReceive api a message = some result) :
    good result.1.store := by
  cases message with
  | «repeat» msg =>
      simp only [acceptorReceive] at received
      split at received
      · cases received
      · cases received
        exact acceptorSteps_keeps storage _ holds
  | _ =>
      cases received
      exact acceptorSteps_keeps storage _ holds

/-- Over every run of an acceptor, and for whatever message comes next: no
request treats the marker as a record exactly when no message leads to
instance 0 in a transaction that begins. -/
theorem marker_spared_iff
    (storage : api.Keyed good) {store : σ} (opened : good store)
    {id subordinates : Nat}
    {past : List (Transition (Acceptor σ) PaxosMessage (List AcceptorResult))}
    {a : Acceptor σ}
    (trace : Trace (acceptorReceive api)
      (acceptorNew api store id subordinates) past a)
    (message : PaxosMessage) :
    ((∀ current ∈ past, MarkerSpared api current.source current.input) ∧
        MarkerSpared api a message) ↔
      (∀ current ∈ past, MarkerAvoided api current.source current.input) ∧
        MarkerAvoided api a message := by
  have reached : ∀ {past a}, Trace (acceptorReceive api)
      (acceptorNew api store id subordinates) past a → good a.store := by
    intro past a trace
    exact trace.invariant (fun a => good a.store) opened
      fun _ _ _ _ holds received =>
        acceptorReceive_keeps storage holds received
  have earlier : ∀ current ∈ past,
      (MarkerSpared api current.source current.input ↔
        MarkerAvoided api current.source current.input) := by
    intro current member
    obtain ⟨_, _, _, before, _⟩ := trace.mem_split member
    exact markerSpared_iff storage (reached before) current.input
  exact and_congr (forall₂_congr earlier)
    (markerSpared_iff storage (reached trace) message)

end Runs

/-- A prepare, then a repeat and a relayed reply for the same instance. -/
theorem marker_spared_by_instance_one :
    ∃ past final,
      Trace (acceptorReceive (memStorageApi Memory.zero))
        (acceptorNew (memStorageApi Memory.zero) memStorageNew 1 2)
        past final ∧
      past.map (·.input) =
        [.prepare ⟨0, 1, 5⟩, .repeat ⟨1, 3⟩] ∧
      (∀ current ∈ past,
        MarkerSpared (memStorageApi Memory.zero) current.source
          current.input) ∧
      MarkerSpared (memStorageApi Memory.zero) final
        (.preempted ⟨2, 1, 7⟩) := by
  have begins : ∀ store,
      ((memStorageApi Memory.zero).txBegin store).1 = 0 := fun _ => rfl
  have ran := trace_of_runFrom (acceptorReceive (memStorageApi Memory.zero))
    (acceptorNew (memStorageApi Memory.zero) memStorageNew 1 2)
    [.prepare ⟨0, 1, 5⟩, .repeat ⟨1, 3⟩] rfl
  have avoided := (marker_spared_iff (memStorageApi_keyed Memory.zero)
    (fun _ _ found => by cases found) ran (.preempted ⟨2, 1, 7⟩)).mpr
  refine ⟨_, _, ran, rfl, avoided ⟨?_, ?_⟩⟩
  · intro current member
    simp only [List.mem_cons, List.not_mem_nil, or_false] at member
    rcases member with rfl | rfl
    · intro op called marker
      cases called
      cases marker
    · have fits : (PaxosMessage.repeat ⟨1, 3⟩).RangeFits :=
        ⟨by decide, by decide⟩
      exact (markerAvoided_iff_of_begins begins _ fits).mpr
        fun _ => ⟨by decide, by decide⟩
  · intro op called marker
    cases called
    cases marker

/-- A repeat of instance 0 looks up the marker as a record. -/
theorem marker_asked_for_by_repeat :
    ¬ MarkerSpared (memStorageApi Memory.zero)
      (acceptorNew (memStorageApi Memory.zero) memStorageNew 1 2)
      (.repeat ⟨0, 0⟩) := by
  intro spared
  exact spared 1 (.getRecord 0)
    (List.mem_cons_of_mem _ List.mem_cons_self) rfl


/-! ### The acceptor of a replica is such a run -/

theorem repeatInstances_steps (mem : Memory) (iids : List Nat) :
    ∀ state : MemAcceptor,
      (repeatInstances mem iids state).1 =
        (acceptorSteps (memStorageApi mem)
          (iids.map .receiveRepeat) state).1 := by
  induction iids with
  | nil =>
      intro state
      rfl
  | cons iid rest inductionHypothesis =>
      intro state
      exact inductionHypothesis _

/-- A replica's callbacks call into their acceptor as `acceptorReceive`
says. -/
theorem evacceptorReceive_acceptor (mem : Memory) (a : EvAcceptor)
    (message : PaxosMessage) :
    (evacceptorReceive mem a message).map (fun result => result.1.state) =
      (acceptorReceive (memStorageApi mem) a.state message).map Prod.fst := by
  cases message with
  | «repeat» msg =>
      simp only [evacceptorReceive, evacceptorHandleRepeat, acceptorReceive]
      split
      · rfl
      · exact congrArg some (repeatInstances_steps mem _ a.state)
  | _ => rfl

end LibPaxos
