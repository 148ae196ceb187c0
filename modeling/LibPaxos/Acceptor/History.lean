import LibPaxos.Acceptor.Records

/-!
# What an acceptor remembers of the values it accepted

The record of an instance is all that an acceptor keeps of its history, and
`acceptor_receive_prepare` overwrites it whenever it grants a request.  This
module compares what promises and repeats report with the values accepted so
far, and finds the calls after which the two agree.
-/

namespace LibPaxos

open LibPaxos.Library

/-- The ballots and values accepted for an instance, oldest first. -/
def acceptedFor (iid : Nat) (past : List AcceptorTransition) :
    List (Nat × PaxosValue) :=
  ((past.filterMap grantedAccept).filter fun req => req.iid = iid).map
    fun req => (req.ballot, req.value)

theorem acceptedFor_append (iid : Nat)
    (past future : List AcceptorTransition) :
    acceptedFor iid (past ++ future) =
      acceptedFor iid past ++ acceptedFor iid future := by
  simp [acceptedFor]

theorem acceptedFor_of_none (iid : Nat) {current : AcceptorTransition}
    (none : grantedAccept current = none) :
    acceptedFor iid [current] = [] := by
  simp [acceptedFor, none]

theorem acceptedFor_of_some (iid : Nat) {current : AcceptorTransition}
    {req : PaxosAccept} (granted : grantedAccept current = some req) :
    acceptedFor iid [current] =
      if req.iid = iid then [(req.ballot, req.value)] else [] := by
  by_cases same : req.iid = iid
  · simp [acceptedFor, granted, same]
  · simp [acceptedFor, granted, same]

/-- A reported value and value ballot are the last accepted ones when some
non-empty value was accepted, and empty and zero otherwise. -/
def ReportsLast (accepted : List (Nat × PaxosValue)) (value : PaxosValue)
    (valueBallot : Nat) : Prop :=
  ((∃ entry ∈ accepted, 0 < entry.2.len) →
    accepted.getLast? = some (valueBallot, value)) ∧
  ((∀ entry ∈ accepted, entry.2.len = 0) →
    value = PaxosValue.empty ∧ valueBallot = 0)

/-- A repeat returns the last accepted value when some non-empty value was
accepted, and nothing otherwise. -/
def RepeatsLast (accepted : List (Nat × PaxosValue))
    (reply : Option PaxosAccepted) : Prop :=
  ((∃ entry ∈ accepted, 0 < entry.2.len) →
    ∃ record, reply = some record ∧
      (accepted.getLast?).map Prod.snd = some record.value) ∧
  ((∀ entry ∈ accepted, entry.2.len = 0) → reply = none)

/-- Every promise sent in the run reports what had been accepted before it, and
a repeat would return what has been accepted by now. -/
structure Remembers (past : List AcceptorTransition) (final : MemAcceptor) :
    Prop where
  promise : ∀ before current after, past = before ++ current :: after →
    ∀ isrc req message, current.input.2 = .receivePrepare isrc req →
      current.output.sent = some (.promise message) →
      ReportsLast (acceptedFor req.iid before)
        (firstOr PaxosValue.empty message.values)
        (firstOr 0 message.valueBallots)
  repeats : ∀ mem iid, final.trimIid < iid →
    RepeatsLast (acceptedFor iid past)
      (acceptorReceiveRepeat (memStorageApi mem) final iid).1

/-- The ballot and the non-empty value held for an instance. -/
def MemAcceptor.held (a : MemAcceptor) (iid : Nat) :
    Option (Nat × PaxosValue) :=
  ((a.store.records iid).filter fun record =>
    decide (0 < record.value.len)).map fun record =>
      (record.ballot, record.value)

/-- The calls after which an acceptor still remembers.  A prepare must not
overwrite a value, so it has to come below the ballot of a value held, or, where
none is held, ask for ballot zero and be granted, for it reports its own ballot
as value ballot.  An accept must not replace a value by the empty one. -/
def MemAcceptor.Careful (a : MemAcceptor) : AcceptorOp → Prop
  | .receivePrepare _ req =>
      a.trimIid < req.iid →
        match a.held req.iid with
        | some entry => req.ballot < entry.1
        | none => req.ballot = 0 ∧ a.Grants req.iid 0
  | .receiveAccept req =>
      a.trimIid < req.iid → a.Grants req.iid req.ballot →
        a.held req.iid ≠ none → 0 < req.value.len
  | _ => True

theorem held_eq_some_iff {a : MemAcceptor} {iid : Nat}
    {entry : Nat × PaxosValue} :
    a.held iid = some entry ↔
      ∃ record, a.store.records iid = some record ∧ 0 < record.value.len ∧
        (record.ballot, record.value) = entry := by
  simp only [MemAcceptor.held, Option.map_eq_some_iff,
    Option.filter_eq_some_iff, decide_eq_true_eq, and_assoc]

theorem held_eq_none_iff {a : MemAcceptor} {iid : Nat} :
    a.held iid = none ↔
      ∀ record, a.store.records iid = some record →
        record.value.len = 0 := by
  simp only [MemAcceptor.held, Option.map_eq_none_iff,
    Option.filter_eq_none_iff, decide_eq_true_eq, Nat.not_lt, Nat.le_zero]

theorem held_congr {a after : MemAcceptor} {iid : Nat}
    (same : after.store.records iid = a.store.records iid) :
    after.held iid = a.held iid := by
  unfold MemAcceptor.held
  rw [same]

/-- A value that a record reports comes from an array that is present. -/
theorem values_isSome_of_len
    {record : PaxosAccepted} (nonempty : 0 < record.value.len) :
    record.values.isSome = true := by
  cases present : record.values with
  | none =>
      rw [PaxosAccepted.value, present] at nonempty
      cases nonempty
  | some array => rfl

/-- A repeat returns the record exactly when it has a value. -/
theorem receiveRepeat_eq_filter
    {a : MemAcceptor} (inv : a.Inv) (mem : Memory) (iid : Nat) :
    acceptorReceiveRepeat (memStorageApi mem) a iid =
      ((a.store.records iid).filter fun record =>
        decide (0 < record.value.len), a) := by
  rw [receiveRepeat_spec inv mem iid]
  have sameTest :
      (fun out : PaxosAccepted =>
        out.values.isSome && decide (0 < out.value.len)) =
        fun record => decide (0 < record.value.len) := by
    funext record
    by_cases nonempty : 0 < record.value.len
    · simp [nonempty, values_isSome_of_len nonempty]
    · simp [nonempty]
  rw [sameTest]

/-- A repeat returns the record of the value held. -/
theorem receiveRepeat_held
    {a : MemAcceptor} (inv : a.Inv) (mem : Memory) (iid : Nat) :
    (acceptorReceiveRepeat (memStorageApi mem) a iid).1.map
        (fun record => (record.ballot, record.value)) =
      a.held iid := by
  rw [receiveRepeat_eq_filter inv mem iid]
  rfl

section Step

variable {a after : MemAcceptor} {call : MemCall} {result : AcceptorResult}

/-- What one step does to the value held for an instance and to the values
accepted for it. -/
theorem held_step
    (inv : a.Inv) (outcome : Outcome a call.2 after result.sent)
    {iid : Nat} (above : after.trimIid < iid) :
    (after.held iid = a.held iid ∧
      acceptedFor iid [⟨a, call, result, after⟩] = []) ∨
    (∃ isrc req, call.2 = .receivePrepare isrc req ∧ req.iid = iid ∧
      a.Grants iid req.ballot ∧ after.held iid = none ∧
      acceptedFor iid [⟨a, call, result, after⟩] = []) ∨
    (∃ req, call.2 = .receiveAccept req ∧ req.iid = iid ∧
      a.Grants iid req.ballot ∧
      (after.held iid =
        if 0 < req.value.len then some (req.ballot, req.value) else none) ∧
      acceptedFor iid [⟨a, call, result, after⟩] =
        [(req.ballot, req.value)]) := by
  have silent : ∀ target,
      (∀ message, result.sent ≠ some (.accepted message)) →
        acceptedFor iid [⟨a, call, result, target⟩] = [] :=
    fun target different =>
      acceptedFor_of_none iid (grantedAccept_of_not_accepted different)
  generalize sentEq : result.sent = reply at outcome
  cases outcome with
  | promised isrc req isPrepare higher grants =>
      by_cases same : req.iid = iid
      · subst same
        right
        left
        refine ⟨isrc, req, isPrepare, rfl, grants, ?_, silent _ (by simp [sentEq])⟩
        rw [held_eq_none_iff]
        intro record present
        have stored := a.records_setRecord_self
          (preparedRecord isrc a.id (a.found req.iid) req)
        cases stored.symm.trans present
        rfl
      · left
        refine ⟨held_congr (a.records_setRecord_of_ne _ ?_),
          silent _ (by simp [sentEq])⟩
        exact fun equal => same equal.symm
  | accepted req isAccept higher grants =>
      have granted : ∀ target,
          grantedAccept ⟨a, call, result, target⟩ = some req :=
        fun target => grantedAccept_eq_some_iff.mpr ⟨isAccept, _, sentEq⟩
      by_cases same : req.iid = iid
      · subst same
        right
        right
        refine ⟨req, isAccept, rfl, grants, ?_, ?_⟩
        · have stored :
              (a.setRecord (paxosAcceptToAccepted a.id req)).store.records
                req.iid = some (paxosAcceptToAccepted a.id req) :=
            a.records_setRecord_self _
          unfold MemAcceptor.held
          rw [stored, Option.filter_some]
          by_cases nonempty : 0 < req.value.len
          · simp [paxosAcceptToAccepted, PaxosAccepted.value,
              PaxosAccepted.ballot, nonempty]
          · simp [paxosAcceptToAccepted, PaxosAccepted.value, nonempty]
        · rw [acceptedFor_of_some _ (granted _), if_pos rfl]
      · left
        refine ⟨held_congr (a.records_setRecord_of_ne _ ?_), ?_⟩
        · exact fun equal => same equal.symm
        · rw [acceptedFor_of_some _ (granted _), if_neg same]
  | relayed key entries after isRelay relayed =>
      left
      refine ⟨?_, silent _ (by simp [sentEq])⟩
      rcases relayed.record iid with same | ⟨old, new, oldAt, newAt, _, head⟩
      · exact held_congr same
      · unfold MemAcceptor.held
        rw [oldAt, newAt, Option.filter_some, Option.filter_some,
          head.value_eq]
        split
        · simp [head.ballot_eq, head.value_eq]
        · rfl
  | trimmed trim isTrim higher =>
      left
      refine ⟨?_, silent _ (by simp [sentEq])⟩
      exact held_congr (records_trim_of_lt inv above)
  | ignored _ =>
      exact Or.inl ⟨rfl, silent _ (by simp [sentEq])⟩
  | refused _ _ _ _ _ _ _ =>
      exact Or.inl ⟨rfl, silent _ (by simp [sentEq])⟩
  | preempted _ _ _ _ _ _ =>
      exact Or.inl ⟨rfl, silent _ (by simp [sentEq])⟩
  | repeated key record isRepeat _ _ _ =>
      exact Or.inl ⟨rfl, acceptedFor_of_none iid
        (grantedAccept_of_not_receiveAccept (by simp [isRepeat]))⟩

/-- A prepare is answered only above the trim point. -/
theorem Outcome.promise_above
    {op : AcceptorOp} {reply : Option PaxosMessage}
    (outcome : Outcome a op after reply)
    {isrc : Int} {req : PaxosPrepare} {message : PaxosPromise}
    (isPrepare : op = .receivePrepare isrc req)
    (replied : reply = some (.promise message)) :
    a.trimIid < req.iid := by
  cases outcome with
  | promised _ _ same above _ =>
      cases isPrepare.symm.trans same
      exact above
  | refused _ _ _ same above _ _ =>
      cases isPrepare.symm.trans same
      exact above
  | ignored => cases replied
  | accepted => cases replied
  | preempted => cases replied
  | repeated => cases replied
  | relayed => cases replied
  | trimmed => cases replied

/-- An accept that passes the test is stored and acknowledged. -/
theorem Outcome.accept_granted
    {op : AcceptorOp} {reply : Option PaxosMessage}
    (outcome : Outcome a op after reply)
    {req : PaxosAccept} (isAccept : op = .receiveAccept req)
    (above : a.trimIid < req.iid) (grants : a.Grants req.iid req.ballot) :
    after = a.setRecord (paxosAcceptToAccepted a.id req) ∧
      reply = some (.accepted (paxosAcceptToAccepted a.id req)) := by
  subst isAccept
  cases outcome with
  | ignored low =>
      have trimmed := low req.iid rfl
      omega
  | accepted req' same _ _ =>
      cases same
      exact ⟨rfl, rfl⟩
  | preempted req' record same _ present smaller =>
      cases same
      have allowed := grants record present
      omega
  | promised _ _ same _ _ => cases same
  | refused _ _ _ same _ _ _ => cases same
  | repeated _ _ same _ _ _ => cases same
  | relayed _ _ _ isRelay _ => cases isRelay
  | trimmed _ same _ => cases same

end Step

section Reports

variable {accepted : List (Nat × PaxosValue)}

theorem reportsLast_of_getLast
    {entry : Nat × PaxosValue}
    (last : accepted.getLast? = some entry) (nonempty : 0 < entry.2.len)
    (value : PaxosValue) (valueBallot : Nat) :
    ReportsLast accepted value valueBallot ↔ entry = (valueBallot, value) := by
  have member := List.mem_of_getLast? last
  unfold ReportsLast
  rw [last, Option.some.injEq]
  constructor
  · rintro ⟨reports, _⟩
    exact reports ⟨entry, member, nonempty⟩
  · intro same
    refine ⟨fun _ => same, ?_⟩
    intro empty
    have none := empty entry member
    omega

theorem reportsLast_of_empty
    (empty : ∀ entry ∈ accepted, entry.2.len = 0)
    (value : PaxosValue) (valueBallot : Nat) :
    ReportsLast accepted value valueBallot ↔
      value = PaxosValue.empty ∧ valueBallot = 0 := by
  unfold ReportsLast
  constructor
  · rintro ⟨_, reports⟩
    exact reports empty
  · intro zero
    refine ⟨?_, fun _ => zero⟩
    rintro ⟨entry, member, nonempty⟩
    have none := empty entry member
    omega

theorem repeatsLast_of_getLast
    {entry : Nat × PaxosValue}
    (last : accepted.getLast? = some entry) (nonempty : 0 < entry.2.len)
    {record : PaxosAccepted} (same : record.value = entry.2) :
    RepeatsLast accepted (some record) := by
  have member := List.mem_of_getLast? last
  refine ⟨fun _ => ⟨record, rfl, ?_⟩, ?_⟩
  · rw [last, Option.map_some, same]
  · intro empty
    have none := empty entry member
    omega

theorem repeatsLast_of_empty
    (empty : ∀ entry ∈ accepted, entry.2.len = 0) :
    RepeatsLast accepted none := by
  refine ⟨?_, fun _ => rfl⟩
  rintro ⟨entry, member, nonempty⟩
  have none := empty entry member
  omega

end Reports

/-- The records of an acceptor say which value was accepted last. -/
structure Recalls (past : List AcceptorTransition) (a : MemAcceptor) :
    Prop where
  valueBallot : ∀ iid record, a.store.records iid = some record →
    record.valueBallot = record.ballot
  last : ∀ iid entry, a.trimIid < iid → a.held iid = some entry →
    (acceptedFor iid past).getLast? = some entry
  empty : ∀ iid, a.trimIid < iid → a.held iid = none →
    ∀ entry ∈ acceptedFor iid past, entry.2.len = 0

namespace Recalls

variable {past : List AcceptorTransition} {a after : MemAcceptor}

theorem initial (id subordinates : Nat) :
    Recalls [] (memAcceptorNew id subordinates) where
  valueBallot := by
    intro iid record present
    cases present
  last := by
    intro iid entry _ holds
    cases holds
  empty := by
    intro iid _ _ entry member
    cases member

/-- Prepare and accept store their ballot as value ballot too. -/
theorem valueBallot_step
    {op : AcceptorOp} {reply : Option PaxosMessage}
    (recalls : Recalls past a) (inv : a.Inv)
    (outcome : Outcome a op after reply)
    {iid : Nat} {record : PaxosAccepted}
    (present : after.store.records iid = some record) :
    record.valueBallot = record.ballot := by
  have change := outcome.record inv iid
  rw [present] at change
  generalize stored : some record = now at change
  cases change with
  | kept => exact recalls.valueBallot iid record stored.symm
  | prepared isrc req _ _ _ _ =>
      cases stored
      rfl
  | accepted req _ _ _ _ =>
      cases stored
      rfl
  | relayed old new _ oldAt head =>
      cases stored
      rw [head.valueBallot_eq, head.ballot_eq]
      exact recalls.valueBallot iid old oldAt
  | trimmed _ => cases stored

theorem step
    {call : MemCall} {result : AcceptorResult}
    (recalls : Recalls past a) (inv : a.Inv)
    (outcome : Outcome a call.2 after result.sent)
    (careful : a.Careful call.2) :
    Recalls (past ++ [⟨a, call, result, after⟩]) after where
  valueBallot := fun _ _ => recalls.valueBallot_step inv outcome
  last := by
    intro iid entry above holds
    have lower := outcome.trim_le
    have higher : a.trimIid < iid := by omega
    rw [acceptedFor_append]
    rcases held_step inv outcome above with
      ⟨same, silent⟩ | ⟨_, _, _, _, _, none, _⟩ |
      ⟨req, _, _, _, stored, heard⟩
    · rw [silent, List.append_nil]
      exact recalls.last iid entry higher (same.symm.trans holds)
    · rw [none] at holds
      cases holds
    · rw [stored] at holds
      split at holds
      · cases holds
        rw [heard, List.getLast?_append]
        rfl
      · cases holds
  empty := by
    intro iid above holds entry member
    have lower := outcome.trim_le
    have higher : a.trimIid < iid := by omega
    rw [acceptedFor_append] at member
    rcases held_step inv outcome above with
      ⟨same, silent⟩ | ⟨isrc, req, isPrepare, sameIid, grants, none, silent⟩ |
      ⟨req, isAccept, sameIid, grants, stored, heard⟩
    · rw [silent, List.append_nil] at member
      exact recalls.empty iid higher (same.symm.trans holds) entry member
    · rw [silent, List.append_nil] at member
      subst sameIid
      rw [isPrepare] at careful
      have allowed := careful higher
      cases before : a.held req.iid with
      | none => exact recalls.empty req.iid higher before entry member
      | some old =>
          rw [before] at allowed
          obtain ⟨record, present, _, rfl⟩ := held_eq_some_iff.mp before
          have granted := grants record present
          simp only at allowed
          omega
    · subst sameIid
      rw [stored] at holds
      have blank : ¬ 0 < req.value.len := by
        intro nonempty
        rw [if_pos nonempty] at holds
        cases holds
      rw [isAccept] at careful
      have before : a.held req.iid = none := by
        by_contra holding
        exact blank (careful higher grants holding)
      rw [heard, List.mem_append, List.mem_singleton] at member
      rcases member with old | rfl
      · exact recalls.empty req.iid higher before entry old
      · exact Nat.eq_zero_of_not_pos blank

/-- A prepare above the trim point is answered, and the answer reports the last
accepted value exactly when the call is careful. -/
theorem promise_iff
    {op : AcceptorOp} {reply : Option PaxosMessage}
    (recalls : Recalls past a) (outcome : Outcome a op after reply)
    {isrc : Int} {req : PaxosPrepare}
    (isPrepare : op = .receivePrepare isrc req)
    (above : a.trimIid < req.iid) :
    ∃ message, reply = some (.promise message) ∧
      (ReportsLast (acceptedFor req.iid past)
          (firstOr PaxosValue.empty message.values)
          (firstOr 0 message.valueBallots) ↔
        a.Careful op) := by
  subst isPrepare
  cases outcome with
  | ignored low =>
      have trimmed := low req.iid rfl
      omega
  | promised isrc' req' same _ grants =>
      cases same
      refine ⟨_, rfl, ?_⟩
      change ReportsLast _ PaxosValue.empty req.ballot ↔
        (a.trimIid < req.iid → _)
      cases before : a.held req.iid with
      | none =>
          rw [reportsLast_of_empty (recalls.empty req.iid above before)]
          constructor
          · rintro ⟨_, zero⟩ _
            exact ⟨zero, zero ▸ grants⟩
          · intro careful
            exact ⟨rfl, (careful above).1⟩
      | some entry =>
          obtain ⟨record, present, nonempty, rfl⟩ :=
            held_eq_some_iff.mp before
          rw [reportsLast_of_getLast (recalls.last _ _ above before) nonempty]
          have granted := grants record present
          constructor
          · intro same
            rw [Prod.mk.injEq] at same
            rw [same.2] at nonempty
            cases nonempty
          · intro careful
            have smaller := careful above
            simp only at smaller
            omega
  | refused isrc' req' record same _ present smaller =>
      cases same
      refine ⟨_, rfl, ?_⟩
      change ReportsLast _ record.value record.valueBallot ↔
        (a.trimIid < req.iid → _)
      rw [recalls.valueBallot _ _ present]
      cases before : a.held req.iid with
      | none =>
          rw [reportsLast_of_empty (recalls.empty req.iid above before)]
          constructor
          · rintro ⟨_, zero⟩
            omega
          · intro careful
            have zero := (careful above).2 record present
            omega
      | some entry =>
          obtain ⟨found, foundAt, nonempty, rfl⟩ :=
            held_eq_some_iff.mp before
          cases present.symm.trans foundAt
          rw [reportsLast_of_getLast (recalls.last _ _ above before) nonempty]
          exact ⟨fun _ _ => smaller, fun _ => rfl⟩
  | accepted _ same _ _ => cases same
  | preempted _ _ same _ _ _ => cases same
  | repeated _ _ same _ _ _ => cases same
  | relayed _ _ _ isRelay _ => cases isRelay
  | trimmed _ same _ => cases same

theorem repeats
    (recalls : Recalls past a) (inv : a.Inv) (mem : Memory)
    {iid : Nat} (above : a.trimIid < iid) :
    RepeatsLast (acceptedFor iid past)
      (acceptorReceiveRepeat (memStorageApi mem) a iid).1 := by
  have returned := receiveRepeat_held inv mem iid
  cases reply : (acceptorReceiveRepeat (memStorageApi mem) a iid).1 with
  | none =>
      rw [reply, Option.map_none] at returned
      exact repeatsLast_of_empty (recalls.empty iid above returned.symm)
  | some record =>
      rw [reply, Option.map_some] at returned
      obtain ⟨_, _, nonempty, same⟩ := held_eq_some_iff.mp returned.symm
      rw [Prod.mk.injEq] at same
      rw [same.2] at nonempty
      exact repeatsLast_of_getLast (recalls.last _ _ above returned.symm)
        nonempty rfl

/-- An accept that replaces a value by the empty one makes a later repeat
fail. -/
theorem careful_of_repeats
    {call : MemCall} {result : AcceptorResult}
    (recalls : Recalls past a) (inv : a.Inv)
    (outcome : Outcome a call.2 after result.sent)
    {req : PaxosAccept} (isAccept : call.2 = .receiveAccept req)
    (repeats : ∀ mem iid, after.trimIid < iid →
      RepeatsLast (acceptedFor iid (past ++ [⟨a, call, result, after⟩]))
        (acceptorReceiveRepeat (memStorageApi mem) after iid).1) :
    a.Careful call.2 := by
  rw [isAccept]
  intro above grants holding
  by_contra blank
  obtain ⟨afterEq, sentEq⟩ := outcome.accept_granted isAccept above grants
  have still : after.trimIid < req.iid := by
    rw [afterEq]
    exact above
  have heard : acceptedFor req.iid [⟨a, call, result, after⟩] =
      [(req.ballot, req.value)] := by
    rw [acceptedFor_of_some _
      (grantedAccept_eq_some_iff.mpr ⟨isAccept, _, sentEq⟩), if_pos rfl]
  have lost : after.held req.iid = none := by
    rcases held_step inv outcome still with
      ⟨_, silent⟩ | ⟨_, _, isPrepare, _⟩ | ⟨req', same, _, _, stored, _⟩
    · rw [heard] at silent
      cases silent
    · rw [isAccept] at isPrepare
      cases isPrepare
    · cases isAccept.symm.trans same
      rw [stored, if_neg blank]
  obtain ⟨entry, held⟩ := Option.ne_none_iff_exists'.mp holding
  obtain ⟨_, _, nonempty, same⟩ := held_eq_some_iff.mp held
  have member : entry ∈ acceptedFor req.iid
      (past ++ [⟨a, call, result, after⟩]) := by
    rw [acceptedFor_append]
    exact List.mem_append_left _
      (List.mem_of_getLast? (recalls.last _ _ above held))
  obtain ⟨record, returned, _⟩ :=
    (repeats Memory.zero req.iid still).1
      ⟨entry, member, same ▸ nonempty⟩
  have missing := receiveRepeat_held (outcome.keeps_inv inv) Memory.zero
    req.iid
  rw [returned, lost, Option.map_some] at missing
  cases missing

end Recalls

section Run

variable {id subordinates : Nat} {past : List AcceptorTransition}
variable {final : MemAcceptor}

/-- An acceptor called carefully recalls the last value it accepted. -/
theorem recalls_of_careful
    (trace : Trace memAcceptorStep (memAcceptorNew id subordinates)
      past final)
    (careful : ∀ current ∈ past, current.source.Careful current.input.2) :
    Recalls past final := by
  induction trace with
  | nil => exact Recalls.initial id subordinates
  | snoc trace stepEq inductionHypothesis =>
      have inv := (memAcceptor_trace_inv trace).1
      have recalls := inductionHypothesis fun current member =>
        careful current (List.mem_append_left _ member)
      exact recalls.step inv (memAcceptorStep_outcome inv stepEq)
        (careful _ (List.mem_append_right _ (List.mem_singleton_self _)))

theorem remembers_of_careful
    (trace : Trace memAcceptorStep (memAcceptorNew id subordinates)
      past final)
    (careful : ∀ current ∈ past, current.source.Careful current.input.2) :
    Remembers past final where
  promise := by
    rintro before current after rfl isrc req message isPrepare replied
    obtain ⟨reached, stepEq⟩ := trace.split
    have recalls := recalls_of_careful reached fun earlier member =>
      careful earlier (List.mem_append_left _ member)
    have inv := (memAcceptor_trace_inv reached).1
    have outcome := memAcceptorStep_outcome inv stepEq
    have above := outcome.promise_above isPrepare replied
    obtain ⟨promised, sentEq, reports⟩ :=
      recalls.promise_iff outcome isPrepare above
    rw [replied] at sentEq
    cases sentEq
    exact reports.mpr (careful current (by simp))
  repeats := by
    intro mem iid above
    exact (recalls_of_careful trace careful).repeats
      (memAcceptor_trace_inv trace).1 mem above

/-- An acceptor remembers throughout a run, in every state reached on the way,
exactly when every call of the run is careful. -/
theorem remembers_iff_careful
    (trace : Trace memAcceptorStep (memAcceptorNew id subordinates)
      past final) :
    (∀ before state, before <+: past →
      Trace memAcceptorStep (memAcceptorNew id subordinates) before state →
      Remembers before state) ↔
    ∀ current ∈ past, current.source.Careful current.input.2 := by
  constructor
  · intro remembers
    induction trace with
    | nil =>
        intro current member
        cases member
    | @snoc past source target call result trace stepEq inductionHypothesis =>
        have earlier := inductionHypothesis fun before state earlierPart =>
          remembers before state (earlierPart.trans (List.prefix_append _ _))
        have recalls := recalls_of_careful trace earlier
        have inv := (memAcceptor_trace_inv trace).1
        have outcome := memAcceptorStep_outcome inv stepEq
        have now := remembers _ _ (List.prefix_refl _) (trace.snoc stepEq)
        intro current member
        rw [List.mem_append, List.mem_singleton] at member
        rcases member with old | rfl
        · exact earlier current old
        · simp only
          cases isOp : call.2 with
          | receivePrepare isrc req =>
              intro above
              obtain ⟨message, sentEq, reports⟩ :=
                recalls.promise_iff outcome isOp above
              have careful := reports.mp
                (now.promise past _ [] rfl isrc req message isOp sentEq)
              rw [isOp] at careful
              exact careful above
          | receiveAccept req =>
              rw [← isOp]
              exact recalls.careful_of_repeats inv outcome isOp now.repeats
          | _ => trivial
  · intro careful before state earlierPart reached
    exact remembers_of_careful reached fun current member =>
      careful current (earlierPart.subset member)

/-- An accept at ballot 101, then a prepare at ballot 102: the promise reports
no value, although a value was accepted. -/
theorem remembers_fails_after_higher_prepare :
    ¬ ∀ past final,
      Trace memAcceptorStep (memAcceptorNew 0 0) past final →
      Remembers past final := by
  intro remembers
  have ran :=
    trace_of_runFrom memAcceptorStep (memAcceptorNew 0 0)
      ([(Memory.zero, .receiveAccept ⟨0, 1, 101, ⟨[98, 97]⟩⟩),
        (Memory.zero, .receivePrepare 0 ⟨0, 1, 102⟩)]) rfl
  have reports := (remembers _ _ ran).promise [_] _ [] rfl 0 ⟨0, 1, 102⟩ _
    rfl rfl
  have reported := reports.1 ⟨(101, ⟨[98, 97]⟩), by decide, by decide⟩
  revert reported
  decide

/-- A prepare below the ballot of the accepted value keeps it. -/
theorem remembers_iff_careful_lower_prepare :
    ∃ past final,
      Trace memAcceptorStep (memAcceptorNew 0 0) past final ∧
      past.length = 2 ∧ Remembers past final := by
  have ran :=
    trace_of_runFrom memAcceptorStep (memAcceptorNew 0 0)
      ([(Memory.zero, .receiveAccept ⟨0, 1, 101, ⟨[98, 97]⟩⟩),
        (Memory.zero, .receivePrepare 0 ⟨0, 1, 100⟩)]) rfl
  refine ⟨_, _, ran, rfl, ?_⟩
  refine (remembers_iff_careful ran).mpr ?_ _ _ (List.prefix_refl _) ran
  intro current member
  simp only [List.mem_cons, List.not_mem_nil, or_false] at member
  rcases member with rfl | rfl
  · intro _ _ _
    decide
  · intro _
    change 100 < 101
    decide

end Run

end LibPaxos
