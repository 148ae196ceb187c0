import LibPaxos.Acceptor.PromiseKeeping
import LibPaxos.Acceptor.Sessions
import LibPaxos.Library.Journal
import LibPaxos.Library.Simulation

/-!
# An acceptor that is started again

With transactional storage an acceptor can stop at any time, also in the middle
of a call, and `acceptor_new` goes on with what the storage has kept.  Each call
is one transaction, so nobody can tell such an acceptor from one that never
stops: a call during which it stopped has happened, or it has not.
-/

namespace LibPaxos

open LibPaxos.Library

variable {ε σ : Type}

/-- What a request does to the transaction of the storage. -/
def StorageRequest.role : StorageRequest → TransactionRole
  | .txBegin => .begins
  | .txCommit => .commits
  | .txAbort => .aborts
  | .getRecord _ => .works
  | .putRecord _ => .works
  | .trim _ => .works

/-- Storage that works on a copy inside of a transaction, and keeps it on
commit. -/
def journalApi (api : StorageApi σ) : StorageApi (Journal σ) where
  txBegin := fun s => ((api.txBegin s.kept).1, ⟨s.kept, (api.txBegin s.kept).2⟩)
  txCommit := fun s =>
    ((api.txCommit s.working).1, .closed (api.txCommit s.working).2)
  txAbort := fun s => .closed s.kept
  getRecord := fun s iid => api.getRecord s.working iid
  putRecord := fun s acc =>
    ((api.putRecord s.working acc).1, ⟨s.kept, (api.putRecord s.working acc).2⟩)
  trim := fun s iid =>
    ((api.trim s.working iid).1, ⟨s.kept, (api.trim s.working iid).2⟩)
  getTrimInstance := fun s => api.getTrimInstance s.working

theorem serve_journalApi (api : StorageApi σ) :
    (journalApi api).serve = journaled StorageRequest.role api.serve := by
  funext request state
  cases request <;> rfl

/-- A call into the acceptor as a session with its storage. -/
def acceptorSession (a : Acceptor σ) :
    AcceptorOp → StorageSession AcceptorResult
  | .receivePrepare isrc req =>
      (receivePrepareSession isrc a.id a.trimIid req).map .reply
  | .receiveAccept req => (receiveAcceptSession a.id a.trimIid req).map .reply
  | .receiveRepeat iid =>
      (receiveRepeatSession iid).map fun out => .reply (out.map .accepted)
  | .receiveTrim trim => (receiveTrimSession a.trimIid trim).map .trimmed
  | .relayPromise pr =>
      (getSrcidSession a.subordinates pr.iid
        (relayedEntries pr.nAids pr.aids pr.ballots pr.valueBallots)).map .srcid
  | .relayAccepted ac =>
      (getSrcidSession a.subordinates ac.iid
        (relayedEntries ac.nAids ac.aids ac.ballots ac.valueBallots)).map .srcid
  | .relayPreempted ac => (getSrcidPreemptedSession ac.iid).map .srcid

def Acceptor.trimAfter (a : Acceptor σ) : AcceptorOp → Nat
  | .receiveTrim trim => max a.trimIid trim.iid
  | _ => a.trimIid

section Call

variable (api : StorageApi σ) (a : Acceptor σ)

/-- Running the session is the call of the model. -/
theorem acceptorSession_run (op : AcceptorOp) :
    acceptorStep api a op =
      ({ a with
          trimIid := a.trimAfter op
          store := ((acceptorSession a op).run api.serve a.store).2 },
        ((acceptorSession a op).run api.serve a.store).1) := by
  cases op with
  | receivePrepare isrc req =>
      simp only [acceptorStep, ← receivePrepareSession_run, acceptorSession,
        Session.run_map]
      rfl
  | receiveAccept req =>
      simp only [acceptorStep, ← receiveAcceptSession_run, acceptorSession,
        Session.run_map]
      rfl
  | receiveRepeat iid =>
      simp only [acceptorStep, ← receiveRepeatSession_run, acceptorSession,
        Session.run_map]
      rfl
  | receiveTrim trim =>
      simp only [acceptorStep, ← receiveTrimSession_run, acceptorSession,
        Session.run_map]
      rfl
  | relayPromise pr =>
      simp only [acceptorStep, getSrcidPromiseAndAdjust, ← getSrcidSession_run,
        acceptorSession, Session.run_map]
      rfl
  | relayAccepted ac =>
      simp only [acceptorStep, getSrcidAccepted, ← getSrcidSession_run,
        acceptorSession, Session.run_map]
      rfl
  | relayPreempted ac =>
      simp only [acceptorStep, ← getSrcidPreemptedSession_run, acceptorSession,
        Session.run_map]
      rfl

theorem acceptorStep_id (op : AcceptorOp) :
    (acceptorStep api a op).1.id = a.id := by
  rw [acceptorSession_run]

end Call

/-! ### Every call is a transaction -/

/-- The answer of a call that does not fail. -/
def StorageRequest.Succeeds :
    (request : StorageRequest) → request.Answer → Prop
  | .txBegin, rv => rv = (0 : Int)
  | .txCommit, rv => rv = (0 : Int)
  | .putRecord _, rv => rv = (0 : Int)
  | _, _ => True

/-- A session with the storage that is one transaction, where no call fails. -/
abbrev StorageSession.IsTransaction {α : Type} (session : StorageSession α) :
    Prop :=
  Session.IsTransaction StorageRequest.role StorageRequest.Succeeds session

/-- The part of such a session after the start of the transaction. -/
abbrev StorageSession.Commits {α : Type} (session : StorageSession α) : Prop :=
  Session.Commits StorageRequest.role StorageRequest.Succeeds session

section Transactions

theorem lookupSession_isTransaction
    {α : Type} (iid : Nat) (refused : α)
    {resume : Option PaxosAccepted → StorageSession α}
    (rest : ∀ found, StorageSession.Commits (resume found)) :
    StorageSession.IsTransaction (lookupSession iid refused resume) := by
  refine .begins rfl fun rv (succeeds : rv = (0 : Int)) => ?_
  rw [if_neg (not_not.mpr succeeds)]
  exact .works rfl fun found _ => rest found

theorem commitReplySession_commits (reply : PaxosMessage) :
    StorageSession.Commits (commitReplySession reply) := by
  refine .commits rfl fun rv (succeeds : rv = (0 : Int)) => ?_
  exact ⟨some reply, if_neg (not_not.mpr succeeds)⟩

theorem putReplySession_commits (acc : PaxosAccepted) (reply : PaxosMessage) :
    StorageSession.Commits
      (.call (StorageRequest.putRecord acc) fun (rv : Int) =>
        if rv ≠ 0 then
          .call StorageRequest.txAbort fun _ => .done none
        else
          commitReplySession reply) := by
  refine .works rfl fun rv (succeeds : rv = (0 : Int)) => ?_
  rw [if_neg (not_not.mpr succeeds)]
  exact commitReplySession_commits reply

theorem commitSrcidSession_commits (subordinates : Nat) (ret : Int)
    (counted : Nat) :
    StorageSession.Commits (commitSrcidSession subordinates ret counted) := by
  refine .commits rfl fun rv (succeeds : rv = (0 : Int)) => ?_
  rw [if_neg (not_not.mpr succeeds)]
  split <;> exact ⟨_, rfl⟩

theorem adjustRecordSession_commits
    {α : Type} {finish : Nat → StorageSession α}
    (commits : ∀ counted, StorageSession.Commits (finish counted))
    (entries : List (Nat × Nat × Nat)) :
    ∀ (acc : PaxosAccepted) (counted : Nat),
      StorageSession.Commits
        (adjustRecordSession finish entries acc counted) := by
  induction entries with
  | nil => exact fun _ counted => commits counted
  | cons entry rest inductionHypothesis =>
      obtain ⟨aid, ballot, valueBallot⟩ := entry
      intro acc counted
      rw [adjustRecordSession]
      split
      · exact inductionHypothesis acc counted
      · exact .works rfl fun _ _ => inductionHypothesis _ _

theorem getSrcidSession_isTransaction (subordinates iid : Nat)
    (entries : List (Nat × Nat × Nat)) :
    StorageSession.IsTransaction
      (getSrcidSession subordinates iid entries) := by
  apply lookupSession_isTransaction
  intro found
  cases found with
  | none => exact commitSrcidSession_commits _ _ _
  | some acc =>
      exact adjustRecordSession_commits
        (fun counted => commitSrcidSession_commits _ _ counted) entries acc 0

/-- Every call into the acceptor is one transaction. -/
theorem acceptorSession_isTransaction (a : Acceptor σ) (op : AcceptorOp) :
    StorageSession.IsTransaction (acceptorSession a op) := by
  cases op with
  | receivePrepare isrc req =>
      apply Session.IsTransaction.map
      rw [receivePrepareSession]
      split
      · exact .done none
      · apply lookupSession_isTransaction
        intro found
        dsimp only
        split
        · exact putReplySession_commits _ _
        · split
          · exact commitReplySession_commits _
          · exact .works rfl fun _ _ => commitReplySession_commits _
  | receiveAccept req =>
      apply Session.IsTransaction.map
      rw [receiveAcceptSession]
      split
      · exact .done none
      · apply lookupSession_isTransaction
        intro found
        dsimp only
        split
        · exact putReplySession_commits _ _
        · exact commitReplySession_commits _
  | receiveRepeat iid =>
      apply Session.IsTransaction.map
      apply lookupSession_isTransaction
      intro found
      refine .commits rfl fun rv (succeeds : rv = (0 : Int)) => ?_
      exact ⟨_, if_neg (not_not.mpr succeeds)⟩
  | receiveTrim trim =>
      apply Session.IsTransaction.map
      rw [receiveTrimSession]
      split
      · exact .done false
      · refine .begins rfl fun rv (succeeds : rv = (0 : Int)) => ?_
        rw [if_neg (not_not.mpr succeeds)]
        exact .works rfl fun _ _ => .commits rfl fun _ _ => ⟨_, rfl⟩
  | relayPromise pr => exact (getSrcidSession_isTransaction _ _ _).map _
  | relayAccepted ac => exact (getSrcidSession_isTransaction _ _ _).map _
  | relayPreempted ac =>
      apply Session.IsTransaction.map
      apply lookupSession_isTransaction
      intro found
      refine .commits rfl fun rv (succeeds : rv = (0 : Int)) => ?_
      exact ⟨_, if_neg (not_not.mpr succeeds)⟩

end Transactions

/-! ### Storage that does not fail -/

/-- Storage of which no call fails, and that knows the instance of its last
trim. -/
structure StorageApi.Reliable (api : ε → StorageApi σ) (trimmed : σ → Nat) :
    Prop where
  txBegin : ∀ env s, (api env).txBegin s = (0, s)
  txCommit : ∀ env s, (api env).txCommit s = (0, s)
  putRecord : ∀ env s acc, ((api env).putRecord s acc).1 = 0
  getTrimInstance : ∀ env s, (api env).getTrimInstance s = trimmed s
  trimmed_putRecord : ∀ env s acc,
    trimmed ((api env).putRecord s acc).2 = trimmed s
  trimmed_trim : ∀ env s iid, trimmed ((api env).trim s iid).2 = iid

theorem memStorageApi_reliable :
    StorageApi.Reliable memStorageApi MemStorage.trimIid where
  txBegin := fun _ _ => rfl
  txCommit := fun _ _ => rfl
  putRecord := fun _ _ _ => rfl
  getTrimInstance := fun _ _ => rfl
  trimmed_putRecord := fun _ _ _ => rfl
  trimmed_trim := fun _ _ _ => rfl

namespace StorageApi.Reliable

variable {api : ε → StorageApi σ} {trimmed : σ → Nat}
variable (reliable : StorageApi.Reliable api trimmed) (env : ε)

include reliable

theorem answers (request : StorageRequest) (s : σ) :
    request.Succeeds ((api env).serve request s).1 := by
  cases request with
  | txBegin => exact congrArg Prod.fst (reliable.txBegin env s)
  | txCommit => exact congrArg Prod.fst (reliable.txCommit env s)
  | putRecord acc => exact reliable.putRecord env s acc
  | txAbort => exact True.intro
  | getRecord iid => exact True.intro
  | trim iid => exact True.intro

/-- A call over a journal without an open transaction is the call over the
storage itself. -/
theorem acceptorStep_journaled (a : Acceptor σ) (op : AcceptorOp) :
    acceptorStep (journalApi (api env))
        ⟨a.id, a.trimIid, a.subordinates, .closed a.store⟩ op =
      let (after, result) := acceptorStep (api env) a op
      (⟨after.id, after.trimIid, after.subordinates, .closed after.store⟩,
        result) := by
  rw [acceptorSession_run, acceptorSession_run (api env), serve_journalApi]
  have same := (acceptorSession_isTransaction a op).run_journaled
    (reliable.answers env) a.store
  have sameSession : acceptorSession
      (⟨a.id, a.trimIid, a.subordinates, .closed a.store⟩ :
        Acceptor (Journal σ)) op = acceptorSession a op := by
    cases op <;> rfl
  have sameTrim : (⟨a.id, a.trimIid, a.subordinates, .closed a.store⟩ :
      Acceptor (Journal σ)).trimAfter op = a.trimAfter op := by
    cases op <;> rfl
  simp only [sameSession, same, sameTrim]

theorem trimmed_adjustRecord (entries : List (Nat × Nat × Nat)) :
    ∀ (s : σ) (acc : PaxosAccepted) (counted : Nat),
      trimmed (adjustRecord (api env) entries s acc counted).1 =
        trimmed s := by
  induction entries with
  | nil => exact fun _ _ _ => rfl
  | cons entry rest inductionHypothesis =>
      obtain ⟨aid, ballot, valueBallot⟩ := entry
      intro s acc counted
      rw [adjustRecord]
      split
      · exact inductionHypothesis s acc counted
      · rw [inductionHypothesis]
        exact reliable.trimmed_putRecord env s _

theorem trimmed_getSrcid (a : Acceptor σ) (iid : Nat)
    (entries : List (Nat × Nat × Nat)) :
    (getSrcid (api env) iid entries a).2.trimIid = a.trimIid ∧
      trimmed (getSrcid (api env) iid entries a).2.store =
        trimmed a.store := by
  have commits : ∀ (ret : Int) (s : σ) (counted : Nat),
      (commitSrcid (api env) a ret s counted).2 = { a with store := s } := by
    intro ret s counted
    simp only [commitSrcid, reliable.txCommit env, ne_eq, not_true_eq_false,
      if_false]
    split <;> rfl
  simp only [getSrcid, reliable.txBegin env, ne_eq, not_true_eq_false, if_false]
  split
  · rw [commits]
    exact ⟨rfl, rfl⟩
  · rw [commits]
    exact ⟨rfl, reliable.trimmed_adjustRecord env entries _ _ _⟩

/-- The acceptor and its storage stay at the same trim point. -/
theorem acceptorStep_trimmed {a : Acceptor σ}
    (synced : a.trimIid = trimmed a.store) (op : AcceptorOp) :
    (acceptorStep (api env) a op).1.trimIid =
      trimmed (acceptorStep (api env) a op).1.store := by
  cases op with
  | receivePrepare isrc req =>
      simp only [acceptorStep, acceptorReceivePrepare, commitReply,
        reliable.txBegin env, reliable.txCommit env, reliable.putRecord env,
        ne_eq, not_true_eq_false, if_false]
      repeat' split
      all_goals simp only [reliable.trimmed_putRecord env, synced]
  | receiveAccept req =>
      simp only [acceptorStep, acceptorReceiveAccept, commitReply,
        reliable.txBegin env, reliable.txCommit env, reliable.putRecord env,
        ne_eq, not_true_eq_false, if_false]
      repeat' split
      all_goals simp only [reliable.trimmed_putRecord env, synced]
  | receiveRepeat iid =>
      simp only [acceptorStep, acceptorReceiveRepeat, reliable.txBegin env,
        reliable.txCommit env, ne_eq, not_true_eq_false, if_false, synced]
  | receiveTrim trim =>
      simp only [acceptorStep, acceptorReceiveTrim, reliable.txBegin env,
        reliable.txCommit env, ne_eq, not_true_eq_false, if_false]
      split
      · exact synced
      · exact (reliable.trimmed_trim env _ _).symm
  | relayPromise pr =>
      obtain ⟨sameTrim, sameStore⟩ := reliable.trimmed_getSrcid env a pr.iid
        (relayedEntries pr.nAids pr.aids pr.ballots pr.valueBallots)
      exact sameTrim.trans (synced.trans sameStore.symm)
  | relayAccepted ac =>
      obtain ⟨sameTrim, sameStore⟩ := reliable.trimmed_getSrcid env a ac.iid
        (relayedEntries ac.nAids ac.aids ac.ballots ac.valueBallots)
      exact sameTrim.trans (synced.trans sameStore.symm)
  | relayPreempted ac =>
      simp only [acceptorStep, getSrcidPreempted, reliable.txBegin env,
        reliable.txCommit env, ne_eq, not_true_eq_false, if_false, synced]

end StorageApi.Reliable

/-! ### Runs with restarts -/

/-- A call into the acceptor that returns, or during which the process stops
after so many calls to the storage. -/
inductive DurableOp (ε : Type) where
  | call (env : ε) (op : AcceptorOp)
  | crash (env : ε) (op : AcceptorOp) (steps : Nat)

/-- The process starts again, on what the storage has kept. -/
def restart (api : StorageApi σ) (a : Acceptor (Journal σ))
    (store : Journal σ) : Acceptor (Journal σ) :=
  acceptorNew (journalApi api) (.closed store.kept) a.id a.subordinates

/-- One call, with its answer if it returns. -/
def durableStep (api : ε → StorageApi σ) (a : Acceptor (Journal σ)) :
    DurableOp ε → Option (Acceptor (Journal σ) × Option AcceptorResult)
  | .call env op =>
      let (after, result) := acceptorStep (journalApi (api env)) a op
      some (after, some result)
  | .crash env op steps =>
      some (restart (api env) a
        ((acceptorSession a op).runFor (journalApi (api env)).serve steps
          a.store), none)

def steadyStep (api : ε → StorageApi σ) (a : Acceptor σ)
    (call : ε × AcceptorOp) : Option (Acceptor σ × AcceptorResult) :=
  some (acceptorStep (api call.1) a call.2)

abbrev DurableTransition (ε σ : Type) : Type :=
  Transition (Acceptor (Journal σ)) (DurableOp ε) (Option AcceptorResult)

abbrev SteadyTransition (ε σ : Type) : Type :=
  Transition (Acceptor σ) (ε × AcceptorOp) AcceptorResult

/-- A run without stops has the calls that return, with their answers, and of the
others some. -/
inductive Recovered :
    List (DurableTransition ε σ) → List (SteadyTransition ε σ) → Prop
  | nil : Recovered [] []
  | answered {past : List (DurableTransition ε σ)}
      {history : List (SteadyTransition ε σ)}
      {current : DurableTransition ε σ} {steady : SteadyTransition ε σ} :
      Recovered past history →
      current.input = .call steady.input.1 steady.input.2 →
      current.output = some steady.output →
      Recovered (past ++ [current]) (history ++ [steady])
  | finished {past : List (DurableTransition ε σ)}
      {history : List (SteadyTransition ε σ)}
      {current : DurableTransition ε σ} {steady : SteadyTransition ε σ}
      (steps : Nat) :
      Recovered past history →
      current.input = .crash steady.input.1 steady.input.2 steps →
      Recovered (past ++ [current]) (history ++ [steady])
  | lost {past : List (DurableTransition ε σ)}
      {history : List (SteadyTransition ε σ)}
      {current : DurableTransition ε σ} (env : ε) (op : AcceptorOp)
      (steps : Nat) :
      Recovered past history → current.input = .crash env op steps →
      Recovered (past ++ [current]) history

/-- The acceptor between its calls, and the one that never stops. -/
structure Recovers (trimmed : σ → Nat) (a : Acceptor (Journal σ))
    (steady : Acceptor σ) : Prop where
  same : a = ⟨steady.id, steady.trimIid, steady.subordinates,
    .closed steady.store⟩
  synced : steady.trimIid = trimmed steady.store

section Restarts

variable {api : ε → StorageApi σ} {trimmed : σ → Nat}
variable (reliable : StorageApi.Reliable api trimmed)

include reliable

/-- A restart goes on where the calls that have happened would be. -/
theorem restart_recovers
    {a : Acceptor (Journal σ)} {steady : Acceptor σ} (env : ε)
    {store : Journal σ} (sameId : a.id = steady.id)
    (sameSubordinates : a.subordinates = steady.subordinates)
    (kept : store.kept = steady.store)
    (synced : steady.trimIid = trimmed steady.store) :
    Recovers trimmed (restart (api env) a store) steady := by
  refine ⟨?_, synced⟩
  rw [restart, acceptorNew, kept, sameId, sameSubordinates, synced]
  exact congrArg (fun trimIid => Acceptor.mk _ trimIid _ _)
    (reliable.getTrimInstance env steady.store)

/-- A step with restarts is a step without, or none. -/
theorem Recovers.step
    {a after : Acceptor (Journal σ)} {steady : Acceptor σ}
    {input : DurableOp ε} {output : Option AcceptorResult}
    (recovers : Recovers trimmed a steady)
    (stepEq : durableStep api a input = some (after, output)) :
    (∃ env op next result,
      steadyStep api steady (env, op) = some (next, result) ∧
      Recovers trimmed after next ∧
      (input = .call env op ∧ output = some result ∨
        ∃ steps, input = .crash env op steps)) ∨
    ((∃ env op steps, input = .crash env op steps) ∧
      Recovers trimmed after steady) := by
  obtain ⟨rfl, synced⟩ := recovers
  cases input with
  | call env op =>
      left
      rw [durableStep, reliable.acceptorStep_journaled env steady op] at stepEq
      cases stepEq
      exact ⟨env, op, _, _, rfl,
        ⟨rfl, reliable.acceptorStep_trimmed env synced op⟩,
        Or.inl ⟨rfl, rfl⟩⟩
  | crash env op steps =>
      cases stepEq
      have kept := (acceptorSession_isTransaction
        (⟨steady.id, steady.trimIid, steady.subordinates,
          .closed steady.store⟩ : Acceptor (Journal σ)) op).runFor_kept
        (reliable.answers env) (.closed steady.store) steps
      rw [← serve_journalApi] at kept
      have whole := reliable.acceptorStep_journaled env steady op
      rw [acceptorSession_run] at whole
      rcases kept with nothing | everything
      · right
        exact ⟨⟨env, op, steps, rfl⟩,
          restart_recovers reliable env rfl rfl nothing synced⟩
      · left
        refine ⟨env, op, _, _, rfl, restart_recovers reliable env ?_ ?_ ?_
          (reliable.acceptorStep_trimmed env synced op),
          Or.inr ⟨steps, rfl⟩⟩
        · exact (acceptorStep_id (api env) steady op).symm
        · exact (acceptorStep_subordinates (api env) steady op).symm
        · rw [everything]
          exact congrArg (fun pair => pair.1.store.kept) whole

/-- Every run matches a run without stops. -/
theorem durable_recovers
    {env : ε} {store : σ} {id subordinates : Nat}
    {past : List (DurableTransition ε σ)} {final : Acceptor (Journal σ)}
    (trace : Trace (durableStep api)
      (acceptorNew (journalApi (api env)) (.closed store) id subordinates)
      past final) :
    ∃ history steady,
      Trace (steadyStep api) (acceptorNew (api env) store id subordinates)
        history steady ∧
      Recovered past history ∧ Recovers trimmed final steady := by
  apply trace.matched
    (fun past a history steady =>
      Recovered past history ∧ Recovers trimmed a steady)
    (fun _ => True) ?_ ?_ (fun _ _ => True.intro)
  · exact ⟨.nil, rfl, reliable.getTrimInstance env store⟩
  · rintro past ⟨source, input, output, target⟩ history steady _
      ⟨recovered, recovers⟩ _ stepEq
    rcases recovers.step reliable stepEq with
      ⟨env, op, next, result, ran, kept, isCall⟩ |
      ⟨⟨env, op, steps, isCrash⟩, kept⟩
    · refine ⟨[⟨steady, (env, op), result, next⟩], next, Trace.nil.snoc ran,
        ?_, kept⟩
      rcases isCall with ⟨isCall, answered⟩ | ⟨steps, isCrash⟩
      · exact .answered recovered isCall answered
      · exact .finished steps recovered isCrash
    · refine ⟨[], steady, .nil, ?_, kept⟩
      rw [List.append_nil]
      exact .lost env op steps recovered isCrash

/-- In every run, wherever the acceptor stops and starts again, the calls that
return have the answers of a run without stops, which has some of the calls
besides during which the acceptor stopped.  What the storage has kept is what it
has after that run. -/
theorem restarts_unobservable
    {env : ε} {store : σ} {id subordinates : Nat}
    {past : List (DurableTransition ε σ)} {final : Acceptor (Journal σ)}
    (trace : Trace (durableStep api)
      (acceptorNew (journalApi (api env)) (.closed store) id subordinates)
      past final) :
    ∃ history steady,
      Trace (steadyStep api) (acceptorNew (api env) store id subordinates)
        history steady ∧
      Recovered past history ∧
      final = ⟨steady.id, steady.trimIid, steady.subordinates,
        .closed steady.store⟩ := by
  obtain ⟨history, steady, ran, recovered, recovers⟩ :=
    durable_recovers reliable trace
  exact ⟨history, steady, ran, recovered, recovers.same⟩

end Restarts

/-- A call that returns is in the run without stops. -/
theorem Recovered.mem_answered
    {past : List (DurableTransition ε σ)}
    {history : List (SteadyTransition ε σ)}
    (recovered : Recovered past history)
    {current : DurableTransition ε σ} (member : current ∈ past)
    {result : AcceptorResult} (returned : current.output = some result)
    (isCall : ∀ env op steps, current.input ≠ .crash env op steps) :
    ∃ steady ∈ history, steady.output = result := by
  induction recovered with
  | nil => cases member
  | @answered past history last steady _ _ output inductionHypothesis =>
      rw [List.mem_append, List.mem_singleton] at member
      rcases member with earlier | rfl
      · obtain ⟨event, isEvent, same⟩ := inductionHypothesis earlier
        exact ⟨event, List.mem_append_left _ isEvent, same⟩
      · refine ⟨steady, List.mem_append_right _ (List.mem_singleton_self _), ?_⟩
        exact Option.some.inj (output.symm.trans returned)
  | @finished past history last steady steps _ isCrash inductionHypothesis =>
      rw [List.mem_append, List.mem_singleton] at member
      rcases member with earlier | rfl
      · obtain ⟨event, isEvent, same⟩ := inductionHypothesis earlier
        exact ⟨event, List.mem_append_left _ isEvent, same⟩
      · exact absurd isCrash (isCall _ _ _)
  | lost env op steps _ isCrash inductionHypothesis =>
      rw [List.mem_append, List.mem_singleton] at member
      rcases member with earlier | rfl
      · exact inductionHypothesis earlier
      · exact absurd isCrash (isCall _ _ _)

/-- A call that returns is not one during which the process stops. -/
theorem durableStep_returned
    {api : ε → StorageApi σ} {a after : Acceptor (Journal σ)}
    {input : DurableOp ε} {result : AcceptorResult}
    (stepEq : durableStep api a input = some (after, some result)) :
    ∀ env op steps, input ≠ .crash env op steps := by
  rintro env op steps rfl
  cases stepEq

/-- The acceptor over records in memory that are kept on commit. -/
def durableAcceptorNew (id subordinates : Nat) : Acceptor (Journal MemStorage) :=
  acceptorNew (journalApi (memStorageApi Memory.zero)) (.closed memStorageNew)
    id subordinates

/-- A prepare, an accept that is lost before its commit, one that is finished but
not answered, and a smaller accept. -/
def restartedRound : List (DurableOp Memory) :=
  [.call Memory.zero (.receivePrepare 0 ⟨0, 1, 5⟩),
    .crash Memory.zero (.receiveAccept ⟨0, 1, 6, ⟨[7]⟩⟩) 3,
    .crash Memory.zero (.receiveAccept ⟨0, 1, 7, ⟨[8]⟩⟩) 4,
    .call Memory.zero (.receiveAccept ⟨0, 1, 3, ⟨[9]⟩⟩)]

/-- The finished accept is in the run without stops, and the lost one is not. -/
theorem restarts_unobservable_round :
    ∃ past final,
      Trace (durableStep memStorageApi) (durableAcceptorNew 0 0) past final ∧
      final.store.kept.records 1 =
        some (paxosAcceptToAccepted 0 ⟨0, 1, 7, ⟨[8]⟩⟩) ∧
      ∃ history steady,
        Trace (steadyStep memStorageApi) (memAcceptorNew 0 0) history steady ∧
        Recovered past history ∧
        final.store.kept = steady.store := by
  have ran := trace_of_runFrom (durableStep memStorageApi)
    (durableAcceptorNew 0 0) restartedRound rfl
  obtain ⟨history, steady, steadyRan, recovered, same⟩ :=
    restarts_unobservable memStorageApi_reliable ran
  exact ⟨_, _, ran, rfl, history, steady, steadyRan, recovered,
    congrArg (fun a => a.store.kept) same⟩

/-- An acceptor keeps its promises wherever it stops and starts again: after an
answer that reports a ballot, an accept with a smaller ballot changes nothing and
is not acknowledged, and no answer reports a smaller ballot. -/
theorem promises_survive_restarts
    {id subordinates : Nat} {past : List (DurableTransition Memory MemStorage)}
    {final : Acceptor (Journal MemStorage)}
    (trace : Trace (durableStep memStorageApi)
      (durableAcceptorNew id subordinates) past final) :
    ∀ (before : List (DurableTransition Memory MemStorage))
        (earlier : DurableTransition Memory MemStorage)
        (middle : List (DurableTransition Memory MemStorage))
        (later : DurableTransition Memory MemStorage)
        (after : List (DurableTransition Memory MemStorage)),
      past = before ++ earlier :: middle ++ later :: after →
      ∀ result answer iid ballot, earlier.output = some result →
        result.sent = some answer → answer.reported = some (iid, ballot) →
        ∀ laterResult, later.output = some laterResult →
          (∀ env req, later.input = .call env (.receiveAccept req) →
            req.iid = iid → req.ballot < ballot →
            later.target = later.source ∧
              ∀ message, laterResult.sent ≠ some (.accepted message)) ∧
          ∀ message other, laterResult.sent = some message →
            message.reported = some (iid, other) → ballot ≤ other := by
  rintro before earlier middle later after rfl result answer iid ballot returned
    replied reported laterResult laterReturned
  obtain ⟨reached, laterEq⟩ := trace.split
  obtain ⟨_, earlierEq⟩ := reached.split
  obtain ⟨history, steady, ran, recovered, recovers⟩ :=
    durable_recovers memStorageApi_reliable reached
  rw [returned] at earlierEq
  obtain ⟨event, isEvent, rfl⟩ := recovered.mem_answered
    (List.mem_append_right _ (List.mem_cons_self ..)) returned
    (durableStep_returned earlierEq)
  rcases recovers.step memStorageApi_reliable laterEq with
    ⟨env, op, next, nextResult, stepEq, afterwards, isCall⟩ | ⟨isCrash, _⟩
  · rcases isCall with ⟨isCall, isResult⟩ | ⟨steps, isCrash⟩
    · rw [laterReturned] at isResult
      cases isResult
      obtain ⟨front, rest, shape⟩ := List.mem_iff_append.mp isEvent
      have whole := ran.snoc stepEq
      rw [shape] at whole
      obtain ⟨inv, holds⟩ := holdsAtLeast_later whole replied reported
      have outcome := memAcceptorStep_outcome inv stepEq
      refine ⟨?_, ?_⟩
      · intro env req isAccept sameIid below
        rw [isCall] at isAccept
        cases isAccept
        obtain ⟨stays, unacknowledged⟩ :=
          outcome.accept_below holds rfl sameIid below
        refine ⟨?_, unacknowledged⟩
        rw [afterwards.same, recovers.same, stays]
      · intro message other isSent laterReported
        exact outcome.reported_ge inv holds isSent laterReported
    · rw [laterReturned] at laterEq
      exact absurd isCrash (durableStep_returned laterEq _ _ _)
  · obtain ⟨env, op, steps, isCrash⟩ := isCrash
    rw [laterReturned] at laterEq
    exact absurd isCrash (durableStep_returned laterEq _ _ _)

/-- The smaller accept at the end of the round is preempted. -/
theorem promises_survive_restarts_round :
    ∃ past final,
      Trace (durableStep memStorageApi) (durableAcceptorNew 0 0) past final ∧
      past.map (fun current => (current.output.bind AcceptorResult.sent).bind
          PaxosMessage.reported) = [some (1, 5), none, none, some (1, 7)] ∧
      ∀ (before : List (DurableTransition Memory MemStorage))
          (earlier : DurableTransition Memory MemStorage)
          (middle : List (DurableTransition Memory MemStorage))
          (later : DurableTransition Memory MemStorage)
          (after : List (DurableTransition Memory MemStorage)),
        past = before ++ earlier :: middle ++ later :: after →
        ∀ result answer iid ballot, earlier.output = some result →
          result.sent = some answer → answer.reported = some (iid, ballot) →
          ∀ laterResult, later.output = some laterResult →
            ∀ message other, laterResult.sent = some message →
              message.reported = some (iid, other) → ballot ≤ other := by
  have ran := trace_of_runFrom (durableStep memStorageApi)
    (durableAcceptorNew 0 0) restartedRound rfl
  refine ⟨_, _, ran, rfl, ?_⟩
  intro before earlier middle later after shape result answer iid ballot
    returned replied reported laterResult laterReturned
  exact (promises_survive_restarts ran before earlier middle later after shape
    result answer iid ballot returned replied reported laterResult
    laterReturned).2

end LibPaxos
