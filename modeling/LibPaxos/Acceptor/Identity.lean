import LibPaxos.Acceptor.Records

/-!
# The acceptor ids of a record

A record starts with the id of the acceptor itself.  Relayed replies append the
ids of other acceptors, each at most once, until the next prepare or accept
starts the list again.
-/

namespace LibPaxos

open LibPaxos.Library

/-- The acceptor ids of a record after the loop over a relayed reply. -/
def grownAids : List (Nat × Nat × Nat) → List Nat → List Nat
  | [], aids => aids
  | (aid, _, _) :: rest, aids =>
      if aid ∈ aids then
        grownAids rest aids
      else
        grownAids rest (aids ++ [aid])

theorem mem_grownAids
    (entries : List (Nat × Nat × Nat)) :
    ∀ {aids : List Nat} {aid : Nat},
      aid ∈ grownAids entries aids ↔
        aid ∈ aids ∨ ∃ entry ∈ entries, entry.1 = aid := by
  induction entries with
  | nil =>
      intro aids aid
      simp [grownAids]
  | cons entry rest inductionHypothesis =>
      obtain ⟨new, ballot, valueBallot⟩ := entry
      intro aids aid
      rw [List.exists_mem_cons_iff]
      by_cases listed : new ∈ aids
      · rw [grownAids, if_pos listed, inductionHypothesis]
        have absorbed : new = aid → aid ∈ aids := fun same => same ▸ listed
        tauto
      · rw [grownAids, if_neg listed, inductionHypothesis, List.mem_append,
          List.mem_singleton, or_assoc, eq_comm]

theorem nodup_grownAids
    (entries : List (Nat × Nat × Nat)) :
    ∀ {aids : List Nat}, aids.Nodup → (grownAids entries aids).Nodup := by
  induction entries with
  | nil =>
      intro aids distinct
      exact distinct
  | cons entry rest inductionHypothesis =>
      obtain ⟨aid, ballot, valueBallot⟩ := entry
      intro aids distinct
      by_cases listed : aid ∈ aids
      · rw [grownAids, if_pos listed]
        exact inductionHypothesis distinct
      · rw [grownAids, if_neg listed]
        apply inductionHypothesis
        rw [List.nodup_append]
        refine ⟨distinct, by simp, ?_⟩
        intro old oldMember new newMember same
        rw [List.mem_singleton] at newMember
        subst newMember same
        exact listed oldMember

/-- The loop stores nothing and counts nothing when every id is listed. -/
theorem adjustRecord_of_listed
    {σ : Type} (api : StorageApi σ) {acc : PaxosAccepted}
    (consistent : acc.WordsConsistent)
    (entries : List (Nat × Nat × Nat))
    (listed : ∀ entry ∈ entries, entry.1 ∈ acc.aids)
    (store : σ) (counted : Nat) :
    adjustRecord api entries store acc counted = (store, counted) := by
  induction entries with
  | nil => rfl
  | cons entry rest inductionHypothesis =>
      obtain ⟨aid, ballot, valueBallot⟩ := entry
      have found := (consistent.hasAid_iff_mem aid).mpr
        (listed _ (List.mem_cons_self ..))
      rw [adjustRecord, if_pos found]
      apply inductionHypothesis
      intro entry member
      exact listed entry (List.mem_cons_of_mem _ member)

theorem grownAids_of_listed
    {entries : List (Nat × Nat × Nat)} {aids : List Nat}
    (listed : ∀ entry ∈ entries, entry.1 ∈ aids) :
    grownAids entries aids = aids := by
  induction entries with
  | nil => rfl
  | cons entry rest inductionHypothesis =>
      rw [List.forall_mem_cons] at listed
      rw [grownAids, if_pos listed.1]
      exact inductionHypothesis listed.2

/-- The loop counts nothing when every id is listed, and otherwise all ids that
the grown record lists. -/
theorem adjustRecord_counted
    {σ : Type} (api : StorageApi σ) {id key : Nat}
    (entries : List (Nat × Nat × Nat)) :
    ∀ (store : σ) (acc : PaxosAccepted) (counted : Nat),
      Growing id key acc →
      (adjustRecord api entries store acc counted).2 =
        if ∀ entry ∈ entries, entry.1 ∈ acc.aids then
          counted
        else
          (grownAids entries acc.aids).length := by
  induction entries with
  | nil =>
      intro store acc counted _
      rw [if_pos (List.forall_mem_nil _)]
      rfl
  | cons entry rest inductionHypothesis =>
      obtain ⟨aid, ballot, valueBallot⟩ := entry
      intro store acc counted growing
      have scan := growing.hasAid_iff_mem aid
      by_cases listed : aid ∈ acc.aids
      · rw [adjustRecord, if_pos (scan.mpr listed), grownAids, if_pos listed,
          inductionHypothesis store acc counted growing]
        simp only [List.forall_mem_cons, listed, true_and]
      · have missing : ¬ acc.hasAid aid = true := fun found =>
          listed (scan.mp found)
        have grown := (growing.appendAid aid ballot valueBallot).1
        have aidsEq : (acc.appendAid aid ballot valueBallot).aids =
            acc.aids ++ [aid] := by
          simp only [PaxosAccepted.appendAid]
          rw [← growing.aids, List.take_length]
        have notAll : ¬ ∀ entry ∈ (aid, ballot, valueBallot) :: rest,
            entry.1 ∈ acc.aids := by
          intro all
          exact listed (all _ (List.mem_cons_self ..))
        rw [adjustRecord, if_neg missing, grownAids, if_neg listed,
          if_neg notAll, inductionHypothesis _ _ _ grown, aidsEq]
        split
        · next allListed =>
            rw [grownAids_of_listed allListed, ← aidsEq, grown.aids]
        · rfl

/-- The stored record lists the grown ids at the end of the loop, when it lists
those of the working copy at the start. -/
theorem adjustRecord_aids
    (mem : Memory) {id key : Nat} (entries : List (Nat × Nat × Nat)) :
    ∀ (store : MemStorage) (acc old : PaxosAccepted) (counted : Nat),
      Growing id key acc → store.records key = some old →
      old.aids = acc.aids →
        ∃ new,
          (adjustRecord (memStorageApi mem) entries store acc
            counted).1.records key = some new ∧
          new.aids = grownAids entries acc.aids := by
  induction entries with
  | nil =>
      intro store acc old counted _ present same
      exact ⟨old, present, same⟩
  | cons entry rest inductionHypothesis =>
      obtain ⟨aid, ballot, valueBallot⟩ := entry
      intro store acc old counted growing present same
      have scan := growing.hasAid_iff_mem aid
      by_cases listed : aid ∈ acc.aids
      · simp only [adjustRecord, if_pos (scan.mpr listed), grownAids,
          if_pos listed]
        exact inductionHypothesis store acc old counted growing present same
      · have missing : ¬ acc.hasAid aid = true := fun found =>
          listed (scan.mp found)
        have grown := (growing.appendAid aid ballot valueBallot).1
        have aidsEq : (acc.appendAid aid ballot valueBallot).aids =
            acc.aids ++ [aid] := by
          simp only [PaxosAccepted.appendAid]
          rw [← growing.aids, List.take_length]
        simp only [adjustRecord, if_neg missing, grownAids, if_neg listed]
        rw [← aidsEq]
        refine inductionHypothesis _ _
          (paxosAcceptedCopy mem (acc.appendAid aid ballot valueBallot)) _
          grown ?_ ?_
        · simp only [memStorageApi, memStoragePut, grown.iid_eq]
          exact Function.update_self _ _ _
        · rw [paxosAcceptedCopy_eq mem grown.toWordsConsistent grown.positive]

section Step

variable {a : MemAcceptor} (inv : a.Inv) (mem : Memory)

include inv in
/-- A relayed reply appends its unlisted ids to the record of its instance. -/
theorem getSrcid_aids
    {iid : Nat} {old : PaxosAccepted}
    (present : a.store.records iid = some old)
    (entries : List (Nat × Nat × Nat)) :
    ∃ new,
      (getSrcid (memStorageApi mem) iid entries a).2.store.records iid =
        some new ∧
      new.aids = grownAids entries old.aids := by
  have growing := (inv.record iid old present).1.growing
  rw [getSrcid_state inv, present]
  exact adjustRecord_aids mem entries a.store old old 0 growing present rfl

include inv in
theorem relayed_aids
    (iid key : Nat) (entries : List (Nat × Nat × Nat)) {new : PaxosAccepted}
    (stored : (getSrcid (memStorageApi mem) iid entries a).2.store.records
      key = some new) :
    ∃ old grown, a.store.records key = some old ∧
      new.aids = grownAids grown old.aids := by
  by_cases same : key = iid
  · subst same
    cases present : a.store.records key with
    | none =>
        rw [getSrcid_state inv, present] at stored
        rw [Option.elim_none, present] at stored
        cases stored
    | some old =>
        obtain ⟨after, afterAt, grown⟩ :=
          getSrcid_aids inv mem present entries
        rw [stored] at afterAt
        cases afterAt
        exact ⟨old, entries, rfl, grown⟩
  · rw [getSrcid_records_of_ne inv mem entries same] at stored
    exact ⟨new, [], stored, rfl⟩

include inv in
/-- After a call a record lists the acceptor itself, when the call asked for
its instance, or the ids it listed before, grown. -/
theorem acceptorStep_aids
    (op : AcceptorOp) (key : Nat) {new : PaxosAccepted}
    (stored : (acceptorStep (memStorageApi mem) a op).1.store.records key =
      some new) :
    (op.requested = some key ∧ new.aids = [a.id]) ∨
      ∃ old entries, a.store.records key = some old ∧
        new.aids = grownAids entries old.aids := by
  have change := (acceptorStep_outcome inv mem op).record inv key
  rw [stored] at change
  generalize shape : some new = after at change
  cases change with
  | kept => exact Or.inr ⟨new, [], shape.symm, rfl⟩
  | prepared isrc req isPrepare sameIid _ _ =>
      cases shape
      subst isPrepare sameIid
      exact Or.inl ⟨rfl, rfl⟩
  | accepted req isAccept sameIid _ _ =>
      cases shape
      subst isAccept sameIid
      exact Or.inl ⟨rfl, rfl⟩
  | relayed old changed isRelay _ _ =>
      right
      cases op with
      | relayPromise pr => exact relayed_aids inv mem _ key _ stored
      | relayAccepted ac => exact relayed_aids inv mem _ key _ stored
      | _ => exact False.elim (isRelay rfl)
  | trimmed _ => cases shape

end Step

/-- A record after a call that did not ask for its instance: the source stays
and no acceptor id goes away. -/
structure Grows (old new : PaxosAccepted) : Prop where
  src_eq : new.src = old.src
  aids : ∀ aid ∈ old.aids, aid ∈ new.aids

/-- A call that neither asks for an instance nor trims it. -/
def AcceptorOp.LeavesAlone (op : AcceptorOp) (iid : Nat) : Prop :=
  op.requested ≠ some iid ∧ ∀ trim, op = .receiveTrim trim → trim.iid < iid

theorem Outcome.trim_lt
    {a after : MemAcceptor} {op : AcceptorOp} {reply : Option PaxosMessage}
    (outcome : Outcome a op after reply) {iid : Nat}
    (alone : op.LeavesAlone iid) (above : a.trimIid < iid) :
    after.trimIid < iid := by
  cases outcome with
  | trimmed trim isTrim _ => exact alone.2 trim isTrim
  | relayed _ _ _ _ relayed => exact relayed.trim_eq ▸ above
  | _ => exact above

theorem acceptorStep_grows
    {a : MemAcceptor} (inv : a.Inv) (mem : Memory) {op : AcceptorOp}
    {iid : Nat} (alone : op.LeavesAlone iid) :
    Option.Rel Grows (a.store.records iid)
      ((acceptorStep (memStorageApi mem) a op).1.store.records iid) := by
  have outcome := acceptorStep_outcome inv mem op
  have change := outcome.record inv iid
  have aids := @acceptorStep_aids a inv mem op iid
  generalize (acceptorStep (memStorageApi mem) a op).1.store.records iid =
    record at change aids
  cases change with
  | kept =>
      cases a.store.records iid with
      | none => exact .none
      | some record => exact .some ⟨rfl, fun _ member => member⟩
  | prepared isrc req isPrepare sameIid _ _ =>
      subst isPrepare sameIid
      exact absurd rfl alone.1
  | accepted req isAccept sameIid _ _ =>
      subst isAccept sameIid
      exact absurd rfl alone.1
  | relayed old new _ present sameHead =>
      rw [present]
      refine .some ⟨sameHead.src_eq, ?_⟩
      intro aid member
      rcases aids rfl with ⟨requested, _⟩ | ⟨before, entries, same, grown⟩
      · exact absurd requested alone.1
      · rw [present] at same
        cases same
        rw [grown, mem_grownAids]
        exact Or.inl member
  | trimmed low =>
      cases present : a.store.records iid with
      | none => exact .none
      | some record =>
          have above := (inv.record iid record present).2
          have still := outcome.trim_lt alone above
          omega

def MemAcceptor.AidsDistinct (a : MemAcceptor) : Prop :=
  ∀ key record, a.store.records key = some record → record.aids.Nodup

theorem acceptorStep_aidsDistinct
    {a : MemAcceptor} (inv : a.Inv) (distinct : a.AidsDistinct)
    (mem : Memory) (op : AcceptorOp) :
    MemAcceptor.AidsDistinct (acceptorStep (memStorageApi mem) a op).1 := by
  intro key new stored
  rcases acceptorStep_aids inv mem op key stored with
    ⟨_, alone⟩ | ⟨old, entries, present, grown⟩
  · rw [alone]
    simp
  · rw [grown]
    apply nodup_grownAids
    exact distinct key old present

/-- The first id of a record is that of the acceptor. -/
theorem RecordOk.aids_head
    {id key : Nat} {record : PaxosAccepted} (ok : RecordOk id key record) :
    record.aids[0]? = some id := by
  have length := ok.aids
  have positive := ok.positive
  have first := ok.aid_eq
  unfold PaxosAccepted.aid at first
  cases shape : record.aids with
  | nil =>
      rw [shape, List.length_nil] at length
      omega
  | cons head tail =>
      rw [shape, firstOr_cons] at first
      rw [first, List.getElem?_cons_zero]

def PaxosMessage.replyAids : PaxosMessage → Option (List Nat)
  | .promise message => some message.aids
  | .accepted message => some message.aids
  | _ => none

theorem Outcome.reply_aids
    {a after : MemAcceptor} {op : AcceptorOp} {reply : Option PaxosMessage}
    (outcome : Outcome a op after reply) (inv : a.Inv)
    {message : PaxosMessage} (replied : reply = some message)
    {aids : List Nat} (carried : message.replyAids = some aids) :
    aids[0]? = some a.id := by
  cases outcome with
  | ignored _ => cases replied
  | promised isrc req _ _ _ =>
      cases replied
      cases carried
      rfl
  | refused isrc req record _ _ present _ =>
      cases replied
      cases carried
      exact congrArg some (inv.record _ _ present).1.aid_eq
  | accepted req _ _ _ =>
      cases replied
      cases carried
      rfl
  | preempted req record _ _ _ _ =>
      cases replied
      cases carried
  | repeated iid record _ present _ _ =>
      cases replied
      cases carried
      exact (inv.record _ _ present).1.aids_head
  | relayed _ _ _ _ _ => cases replied
  | trimmed _ _ _ => cases replied

section Run

variable {id subordinates : Nat} {past : List AcceptorTransition}
variable {final : MemAcceptor}

/-- In every state that an acceptor reaches, each record lists at least one id,
its own first, and no id twice.  Every promise and every accepted that it sends
has its own id first.  A prepare that meets a record with a higher ballot finds
the id listed, and so never appends it. -/
theorem acceptor_reports_itself
    (trace : Trace memAcceptorStep (memAcceptorNew id subordinates)
      past final) :
    (∀ iid record, final.store.records iid = some record →
      1 ≤ record.nAids ∧ record.aids.length = record.nAids ∧
        record.aids[0]? = some id ∧ record.aids.Nodup) ∧
    (∀ current ∈ past,
      (∀ promise, current.output.sent = some (.promise promise) →
        promise.aids[0]? = some id) ∧
      ∀ accepted, current.output.sent = some (.accepted accepted) →
        accepted.aids[0]? = some id) ∧
    (∀ mem iid ballot record,
      (memStorageApi mem).getRecord final.store iid = some record →
      ballot < record.ballot → record.hasAid final.id = true) := by
  obtain ⟨inv, sameId⟩ := memAcceptor_trace_inv trace
  have distinct := trace.invariant
    (fun state : MemAcceptor => state.Inv ∧ state.AidsDistinct)
    ⟨memAcceptorNew_inv id subordinates, nofun⟩ (by
      rintro source call target result ⟨sourceInv, sourceDistinct⟩ stepEq
      refine ⟨(memAcceptorStep_outcome sourceInv stepEq).keeps_inv sourceInv,
        ?_⟩
      have stepped := acceptorStep_aidsDistinct sourceInv sourceDistinct
        call.1 call.2
      rwa [Option.some.inj stepEq] at stepped)
  refine ⟨?_, ?_, ?_⟩
  · intro iid record present
    have ok := (inv.record iid record present).1
    rw [sameId] at ok
    exact ⟨ok.positive, ok.aids, ok.aids_head,
      distinct.2 iid record present⟩
  · intro current member
    obtain ⟨_, _, _, reached, stepEq⟩ := trace.mem_split member
    obtain ⟨sourceInv, sourceId⟩ := memAcceptor_trace_inv reached
    have outcome := memAcceptorStep_outcome sourceInv stepEq
    rw [← sourceId]
    exact ⟨fun promise sent => outcome.reply_aids sourceInv sent rfl,
      fun accepted sent => outcome.reply_aids sourceInv sent rfl⟩
  · intro mem iid ballot record found _
    have present := (inv.get_eq mem iid).symm.trans found
    exact (inv.record iid record present).1.hasAid

/-- An accept, a relayed promise that lists another acceptor twice and itself,
and a prepare with a lower ballot. -/
theorem acceptor_reports_itself_relayed :
    ∃ past final,
      Trace memAcceptorStep (memAcceptorNew 2 0) past final ∧
      (final.store.records 1).map PaxosAccepted.aids = some [2, 4] ∧
      ∀ iid record, final.store.records iid = some record →
        1 ≤ record.nAids ∧ record.aids.length = record.nAids ∧
          record.aids[0]? = some 2 ∧ record.aids.Nodup := by
  have ran :=
    trace_of_runFrom memAcceptorStep (memAcceptorNew 2 0)
      ([(Memory.zero, .receiveAccept ⟨0, 1, 5, ⟨[7]⟩⟩),
        (Memory.zero, .relayPromise ⟨0, 1, 5, 0, 3, [4, 2, 4],
          PaxosValue.empty, [], [5, 5, 5], [0, 0, 0]⟩),
        (Memory.zero, .receivePrepare 0 ⟨0, 1, 3⟩)]) rfl
  exact ⟨_, _, ran, rfl, (acceptor_reports_itself ran).1⟩

end Run

end LibPaxos
