import LibPaxos.Proposer.Model

/-!
# What one call into the proposer can do

The inversion of `proposerStep`: one case for each thing a call can do to the
proposer, with the tests the source makes on the way, and the same for one entry
of a promise.  The invariants of the proposer are proved by going through these
cases.
-/

namespace LibPaxos

open LibPaxos.Library

theorem paxosValueCmp_iff (v1 v2 : PaxosValue) :
    paxosValueCmp v1 v2 = true ↔ v1 ≠ v2 := by
  cases v1 with
  | mk first =>
      cases v2 with
      | mk second =>
          by_cases same : first = second
          · simp [paxosValueCmp, same]
          · simp [paxosValueCmp, same]

/-- What one entry of a promise does to its instance, and the prepare that it
fills in. -/
inductive EntryOutcome (id : Nat) (clock : Nat → Int) (ack : PaxosPromise)
    (ii : Nat) (inst : ProposerInstance) :
    ProposerInstance → Option PaxosPrepare → Prop
  | stale (ballot : Nat) :
      ack.ballots[ii]? = some ballot → ballot < inst.ballot →
      EntryOutcome id clock ack ii inst inst none
  | preempted (ballot : Nat) :
      ack.ballots[ii]? = some ballot → inst.ballot < ballot →
      EntryOutcome id clock ack ii inst
        (proposerPreempt id (clock ii) inst).1
        (some (proposerPreempt id (clock ii) inst).2)
  | counted (aid : Nat) (value : PaxosValue) (fresh : Bool) (quorum : Quorum) :
      ack.ballots[ii]? = some inst.ballot → ack.aids[ii]? = some aid →
      ack.values[ii]? = some value →
      quorumAdd inst.quorum aid = some (fresh, quorum) →
      (0 < value.len → ∃ valueBallot,
        ack.valueBallots[ii]? = some valueBallot ∧
          valueBallot ≤ inst.valueBallot) →
      EntryOutcome id clock ack ii inst { inst with quorum := quorum } none
  | recorded (aid : Nat) (value : PaxosValue) (fresh : Bool) (quorum : Quorum)
      (valueBallot : Nat) :
      ack.ballots[ii]? = some inst.ballot → ack.aids[ii]? = some aid →
      ack.values[ii]? = some value →
      quorumAdd inst.quorum aid = some (fresh, quorum) →
      0 < value.len → ack.valueBallots[ii]? = some valueBallot →
      inst.valueBallot < valueBallot →
      EntryOutcome id clock ack ii inst
        { inst with
          quorum := quorum
          valueBallot := valueBallot
          promisedValue := some value } none

theorem promiseEntry_outcome
    {id : Nat} {clock : Nat → Int} {ack : PaxosPromise} {ii : Nat}
    {inst result : ProposerInstance} {sent : Option PaxosPrepare}
    (ran : promiseEntry id clock ack ii inst = some (result, sent)) :
    EntryOutcome id clock ack ii inst result sent := by
  unfold promiseEntry at ran
  cases ballotAt : ack.ballots[ii]? with
  | none => simp [ballotAt] at ran
  | some ballot =>
      simp only [ballotAt] at ran
      split at ran
      · next smaller =>
          cases ran
          exact .stale ballot ballotAt smaller
      · split at ran
        · next higher =>
            cases ran
            exact .preempted ballot ballotAt higher
        · have same : ballot = inst.ballot := by omega
          subst same
          split at ran
          · next aid value aidAt valueAt =>
              split at ran
              · cases ran
              · next fresh quorum added =>
                  split at ran
                  · next nonempty =>
                      split at ran
                      · cases ran
                      · next valueBallot valueBallotAt =>
                          split at ran
                          · next higher =>
                              cases ran
                              exact .recorded aid value fresh quorum
                                valueBallot ballotAt aidAt valueAt added
                                nonempty valueBallotAt higher
                          · next lower =>
                              cases ran
                              exact .counted aid value fresh quorum ballotAt
                                aidAt valueAt added fun _ =>
                                  ⟨valueBallot, valueBallotAt,
                                    Nat.le_of_not_lt lower⟩
                  · next blank =>
                      cases ran
                      exact .counted aid value fresh quorum ballotAt aidAt
                        valueAt added fun nonempty =>
                          False.elim (blank nonempty)
          · cases ran

/-- Whether the ballot after a preemption by `ballot`, if there is one, stays
below the top of the type. -/
def ballotFits (inst : ProposerInstance) (ballot : Nat) : Bool :=
  decide (ballot ≤ inst.ballot) ||
    decide (maxNOfProposers + inst.ballot < 2 ^ 32)

theorem ballotFits_of_lt {inst : ProposerInstance} {ballot : Nat}
    (fits : ballotFits inst ballot = true) (higher : inst.ballot < ballot) :
    maxNOfProposers + inst.ballot < 2 ^ 32 := by
  simp only [ballotFits, Bool.or_eq_true, decide_eq_true_eq] at fits
  rcases fits with lower | room
  · omega
  · exact room

/-- Whether all ballots taken in the loop over a promise stay below the top of
the type. -/
def promiseFits (id : Nat) (clock : Nat → Int) (ack : PaxosPromise) :
    List Nat → ProposerInstance → Bool
  | [], _ => true
  | ii :: rest, inst =>
      (match ack.ballots[ii]? with
        | none => true
        | some ballot => ballotFits inst ballot) &&
      (match promiseEntry id clock ack ii inst with
        | none => true
        | some (inst, _) => promiseFits id clock ack rest inst)

/-- A property kept by every entry is kept by the loop over the entries.  Where
all ballots of the loop stay below the top of the type, so does the one of an
entry. -/
theorem promiseLoop_invariant
    {id : Nat} {clock : Nat → Int} {ack : PaxosPromise} (fits : Prop)
    (property : ProposerInstance → Option PaxosPrepare → Prop)
    (preserved : ∀ ii inst out result sent, property inst out →
      (fits → ∀ ballot, ack.ballots[ii]? = some ballot →
        ballotFits inst ballot = true) →
      EntryOutcome id clock ack ii inst result sent →
      property result (sent.or out))
    (entries : List Nat) :
    ∀ {inst result : ProposerInstance} {out sent : Option PaxosPrepare},
      property inst out →
      (fits → promiseFits id clock ack entries inst = true) →
      promiseLoop id clock ack entries inst out = some (result, sent) →
      property result sent := by
  induction entries with
  | nil =>
      intro inst result out sent holds _ ran
      cases ran
      exact holds
  | cons ii rest inductionHypothesis =>
      intro inst result out sent holds room ran
      rw [promiseLoop] at ran
      split at ran
      · cases ran
      · next next prepare entryRan =>
          have entryRoom : fits → ∀ ballot, ack.ballots[ii]? = some ballot →
              ballotFits inst ballot = true := by
            intro fit ballot ballotAt
            have both := room fit
            rw [promiseFits, ballotAt, Bool.and_eq_true] at both
            exact both.1
          have restRoom :
              fits → promiseFits id clock ack rest next = true := by
            intro fit
            have both := room fit
            rw [promiseFits, entryRan, Bool.and_eq_true] at both
            exact both.2
          exact inductionHypothesis
            (preserved _ _ _ _ _ holds entryRoom
              (promiseEntry_outcome entryRan))
            restRoom ran

namespace Proposer

/-- A property of every instance waiting for promises and one of every
instance waiting for acknowledgements. -/
structure Instances (p : Proposer)
    (waiting pending : Nat → ProposerInstance → Prop) : Prop where
  prepare : p.prepareInstances.All waiting
  accept : p.acceptInstances.All pending

/-- Instances are filed under their id. -/
abbrev Keyed (p : Proposer) : Prop :=
  p.Instances (fun key inst => inst.iid = key)
    (fun key inst => inst.iid = key)

theorem Keyed.prepare_mem
    {p : Proposer} (keyed : p.Keyed) {entry : Nat × ProposerInstance}
    (member : entry ∈ p.prepareInstances.entries) :
    p.prepareInstances.get entry.2.iid = some entry.2 := by
  have found := Table.get_eq_some_iff.mpr member
  rwa [keyed.prepare _ _ found]

theorem Keyed.accept_mem
    {p : Proposer} (keyed : p.Keyed) {entry : Nat × ProposerInstance}
    (member : entry ∈ p.acceptInstances.entries) :
    p.acceptInstances.get entry.2.iid = some entry.2 := by
  have found := Table.get_eq_some_iff.mpr member
  rwa [keyed.accept _ _ found]

def freshIid (p : Proposer) : Nat :=
  word32 (p.nextPrepareIid + 1)

def freshInstance (p : Proposer) (now : Int) : ProposerInstance where
  iid := p.freshIid
  ballot := proposerNextBallot p.id 0
  value := none
  promisedValue := none
  valueBallot := 0
  quorum := quorumInit p.acceptors
  createdAt := now

/-- The queue after both tables are trimmed. -/
def trimmedValues (p : Proposer) (iid : Nat) : Queue PaxosValue :=
  (trimEntries iid p.acceptInstances.entries
    (trimEntries iid p.prepareInstances.entries p.values []).1 []).1

end Proposer

/-- A fold that keeps what it has or takes the entry at hand returns an entry of
the list, or what it started with. -/
theorem foldl_select_mem
    {choose : Option ProposerInstance → Nat × ProposerInstance →
      Option ProposerInstance}
    (select : ∀ found entry, choose found entry = found ∨
      choose found entry = some entry.2)
    (entries : List (Nat × ProposerInstance)) :
    ∀ {start : Option ProposerInstance} {inst : ProposerInstance},
      entries.foldl choose start = some inst →
      start = some inst ∨ ∃ key, (key, inst) ∈ entries := by
  induction entries with
  | nil =>
      intro start inst result
      exact Or.inl result
  | cons entry rest inductionHypothesis =>
      intro start inst result
      rw [List.foldl_cons] at result
      rcases inductionHypothesis result with first | ⟨key, member⟩
      · rcases select start entry with kept | taken
        · exact Or.inl (kept.symm.trans first)
        · rw [taken] at first
          cases first
          exact Or.inr ⟨entry.1, List.mem_cons_self ..⟩
      · exact Or.inr ⟨key, List.mem_cons_of_mem _ member⟩

/-- The search for the smallest id returns an entry of the table. -/
theorem smallestInstance_mem
    {h : Table Nat ProposerInstance} {inst : ProposerInstance}
    (found : smallestInstance h = some inst) :
    ∃ key, (key, inst) ∈ h.entries := by
  unfold smallestInstance at found
  refine (foldl_select_mem ?_ h.entries found).resolve_left nofun
  intro start entry
  split
  · exact Or.inr rfl
  · split
    · exact Or.inr rfl
    · exact Or.inl rfl

theorem nextTimedout_mem
    {proposerTimeout t : Int} (entries : List (Nat × ProposerInstance)) :
    ∀ {k position : Nat} {inst : ProposerInstance},
      nextTimedout proposerTimeout t entries k = (position, some inst) →
      ∃ key, (key, inst) ∈ entries := by
  induction entries with
  | nil =>
      intro k position inst found
      cases found
  | cons entry rest inductionHypothesis =>
      intro k position inst found
      rw [nextTimedout] at found
      split at found
      · obtain ⟨key, member⟩ := inductionHypothesis found
        exact ⟨key, List.mem_cons_of_mem _ member⟩
      · split at found
        · cases found
          exact ⟨entry.1, List.mem_cons_self ..⟩
        · obtain ⟨key, member⟩ := inductionHypothesis found
          exact ⟨key, List.mem_cons_of_mem _ member⟩

/-- Trimming frees no client value: each went back to the queue before. -/
theorem trimEntries_snd (iid : Nat) (entries : List (Nat × ProposerInstance)) :
    ∀ (values : Queue PaxosValue) (retired : List PaxosValue),
      (trimEntries iid entries values retired).2 = retired := by
  induction entries with
  | nil =>
      intro values retired
      rfl
  | cons entry rest inductionHypothesis =>
      intro values retired
      obtain ⟨key, inst⟩ := entry
      by_cases low : inst.iid ≤ iid
      · cases holds : inst.value with
        | none =>
            simp [trimEntries, low, holds, instanceFree, inductionHypothesis]
        | some v =>
            simp [trimEntries, low, holds, instanceFree, inductionHypothesis]
      · simp [trimEntries, low, inductionHypothesis]

/-- A call that neither proposes a value, nor opens an instance, nor brings a
promise for an instance that waits for it. -/
structure Proposer.Passive (p : Proposer) (op : ProposerOp) : Prop where
  notPropose : ∀ value, op ≠ .propose value
  notPrepare : ∀ now, op ≠ .prepare now
  notPending : ∀ clock ack, op = .receivePromise clock ack →
    p.prepareInstances.get ack.iid = none

/-- What a call into the proposer can do: the proposer afterwards and what is
handed back. -/
inductive ProposerOutcome (p : Proposer) (op : ProposerOp) :
    Proposer → ProposerResult → Prop
  | idle : p.Passive op → ProposerOutcome p op p ⟨none, []⟩
  | proposed (value : PaxosValue) :
      op = .propose value →
      ProposerOutcome p op { p with values := p.values.pushBack value }
        ⟨none, []⟩
  | prepared (now : Int) (table : Table Nat ProposerInstance) :
      op = .prepare now → 0 < p.freshIid →
      p.prepareInstances.insertNew p.freshIid (p.freshInstance now) =
        some table →
      ProposerOutcome p op
        { p with nextPrepareIid := p.freshIid, prepareInstances := table }
        ⟨some (.prepare ⟨p.id, p.freshIid, proposerNextBallot p.id 0⟩), []⟩
  | promised (clock : Nat → Int) (ack : PaxosPromise)
      (inst result : ProposerInstance) (out : Option PaxosPrepare) :
      op = .receivePromise clock ack →
      p.prepareInstances.get ack.iid = some inst →
      promiseLoop p.id clock ack (List.range ack.nAids) inst none =
        some (result, out) →
      ProposerOutcome p op
        { p with prepareInstances := p.prepareInstances.set ack.iid result }
        ⟨out.map .prepare, []⟩
  | accepted (inst valued : ProposerInstance) (values : Queue PaxosValue)
      (table : Table Nat ProposerInstance) (out : PaxosAccept) :
      op = .accept → p.prepareInstances.get inst.iid = some inst →
      quorumReached inst.quorum = true →
      takeValue p.values inst = (values, valued) →
      instanceToAccept p.id valued = some out →
      p.acceptInstances.insertNew inst.iid
        { valued with quorum := quorumClear valued.quorum } = some table →
      ProposerOutcome p op
        { p with
          values := values
          prepareInstances := p.prepareInstances.erase inst.iid
          acceptInstances := table }
        ⟨some (.accept out), []⟩
  | counted (ack : PaxosAccepted) (inst : ProposerInstance) (aid : Nat)
      (quorum : Quorum) :
      op = .receiveAccepted ack →
      p.acceptInstances.get ack.iid = some inst →
      ack.ballots[0]? = some inst.ballot → ack.aids[0]? = some aid →
      quorumAdd inst.quorum aid = some (true, quorum) →
      quorumReached quorum = false →
      ProposerOutcome p op
        { p with
          acceptInstances := p.acceptInstances.set ack.iid
            { inst with quorum := quorum } }
        ⟨none, []⟩
  | closed (ack : PaxosAccepted) (inst freed : ProposerInstance) (aid : Nat)
      (quorum : Quorum) (values : Queue PaxosValue) :
      op = .receiveAccepted ack →
      p.acceptInstances.get ack.iid = some inst →
      ack.ballots[0]? = some inst.ballot → ack.aids[0]? = some aid →
      quorumAdd inst.quorum aid = some (true, quorum) →
      quorumReached quorum = true →
      giveBackValue p.values { inst with quorum := quorum } =
        (values, freed) →
      ProposerOutcome p op
        { p with
          values := values
          acceptInstances := p.acceptInstances.erase ack.iid }
        ⟨none, instanceFree freed⟩
  | preempted (now : Int) (ack : PaxosPreempted) (inst : ProposerInstance)
      (table : Table Nat ProposerInstance) :
      op = .receivePreempted now ack →
      p.acceptInstances.get inst.iid = some inst → inst.iid = ack.iid →
      inst.ballot < ack.ballot →
      p.prepareInstances.insertNew inst.iid
        (proposerPreempt p.id now inst).1 = some table →
      ProposerOutcome p op
        { p with
          acceptInstances := p.acceptInstances.erase inst.iid
          prepareInstances := table }
        ⟨some (.prepare (proposerPreempt p.id now inst).2), []⟩
  | noted (maxTrimIid : Nat) :
      p.Passive op →
      ProposerOutcome p op { p with maxTrimIid := maxTrimIid } ⟨none, []⟩
  | trimmed (maxTrimIid iid : Nat) :
      p.Passive op → p.nextPrepareIid < iid →
      ProposerOutcome p op
        { p with
          maxTrimIid := maxTrimIid
          nextPrepareIid := iid
          values := p.trimmedValues iid
          prepareInstances := trimTable iid p.prepareInstances
          acceptInstances := trimTable iid p.acceptInstances }
        ⟨none, []⟩
  | resentPrepare (proposerTimeout : Int) (iter : TimeoutIterator)
      (inst : ProposerInstance) :
      op = .timeoutPrepare proposerTimeout iter →
      p.prepareInstances.get inst.iid = some inst →
      ProposerOutcome p op
        { p with
          prepareInstances := p.prepareInstances.set inst.iid
            { inst with createdAt := iter.timeout } }
        ⟨some (.prepare ⟨p.id, inst.iid, inst.ballot⟩), []⟩
  | resentAccept (proposerTimeout : Int) (iter : TimeoutIterator)
      (inst : ProposerInstance) (out : PaxosAccept) :
      op = .timeoutAccept proposerTimeout iter →
      p.acceptInstances.get inst.iid = some inst →
      instanceToAccept p.id inst = some out →
      ProposerOutcome p op
        { p with
          acceptInstances := p.acceptInstances.set inst.iid
            { inst with createdAt := iter.timeout } }
        ⟨some (.accept out), []⟩
  | rehashed (prepareInstances acceptInstances : Table Nat ProposerInstance) :
      op = .rehash prepareInstances acceptInstances →
      prepareInstances.entries.Perm p.prepareInstances.entries →
      acceptInstances.entries.Perm p.acceptInstances.entries →
      ProposerOutcome p op
        { p with
          prepareInstances := prepareInstances
          acceptInstances := acceptInstances }
        ⟨none, []⟩

section Functions

variable {p after : Proposer}

theorem proposerPrepare_outcome
    {now : Int} {out : PaxosPrepare}
    (ran : proposerPrepare now p = some (out, after)) :
    ProposerOutcome p (.prepare now) after ⟨some (.prepare out), []⟩ := by
  simp only [proposerPrepare, instanceNew] at ran
  split at ran
  · cases ran
  · next inst created =>
      split at created
      · next positive =>
          cases created
          rw [Option.map_eq_some_iff] at ran
          obtain ⟨table, inserted, equal⟩ := ran
          cases equal
          exact .prepared now table rfl positive inserted
      · cases created

theorem proposerReceivePromise_outcome
    {clock : Nat → Int} {ack : PaxosPromise} {out : Option PaxosPrepare}
    (ran : proposerReceivePromise clock p ack = some (out, after)) :
    ProposerOutcome p (.receivePromise clock ack) after
      ⟨out.map .prepare, []⟩ := by
  unfold proposerReceivePromise at ran
  split at ran
  · next absent =>
      cases ran
      refine .idle ⟨nofun, nofun, ?_⟩
      intro clock' ack' same
      cases same
      exact absent
  · next inst present =>
      rw [Option.map_eq_some_iff] at ran
      obtain ⟨⟨result, sent⟩, looped, equal⟩ := ran
      cases equal
      exact .promised clock ack inst result _ rfl present looped

/-- Taking a value changes nothing but the value of the instance. -/
theorem takeValue_eq
    {values rest : Queue PaxosValue} {inst valued : ProposerInstance}
    (took : takeValue values inst = (rest, valued)) :
    valued = { inst with value := valued.value } ∧
      (valued.value = none → rest = values ∧ valued = inst) := by
  unfold takeValue at took
  split at took
  · next held =>
      cases took
      refine ⟨rfl, ?_⟩
      intro missing
      rw [held] at missing
      cases missing
  · next missing =>
      cases took
      refine ⟨rfl, ?_⟩
      intro none
      refine ⟨Queue.popFront_none none, ?_⟩
      simp only at none
      rw [none, ← missing]

theorem proposerAccept_outcome
    {out : Option PaxosAccept} (keyed : p.Keyed)
    (ran : proposerAccept p = some (out, after)) :
    ProposerOutcome p .accept after ⟨out.map .accept, []⟩ := by
  unfold proposerAccept at ran
  split at ran
  · cases ran
    exact .idle ⟨nofun, nofun, nofun⟩
  · next inst smallest =>
      split at ran
      · cases ran
        exact .idle ⟨nofun, nofun, nofun⟩
      · next reached =>
          obtain ⟨key, member⟩ := smallestInstance_mem smallest
          have present := keyed.prepare_mem member
          cases took : takeValue p.values inst with
          | mk values valued =>
              obtain ⟨shape, starved⟩ := takeValue_eq took
              have sameIid : valued.iid = inst.iid := by rw [shape]
              simp only [took] at ran
              split at ran
              · next nothing =>
                  obtain ⟨rfl, rfl⟩ := starved nothing.1
                  cases ran
                  rw [Table.set_eq_self present]
                  exact .idle ⟨nofun, nofun, nofun⟩
              · split at ran
                · next prepareTable acceptTable accept moved toAccept =>
                    cases ran
                    unfold proposerMoveInstance at moved
                    split at moved
                    · cases moved
                    · rw [Option.map_eq_some_iff] at moved
                      obtain ⟨table, inserted, equal⟩ := moved
                      cases equal
                      have filed : p.acceptInstances.insertNew inst.iid
                          { valued with
                            quorum := quorumClear valued.quorum } =
                            some acceptTable := by
                        rw [← sameIid]
                        exact inserted
                      rw [sameIid, Table.erase_set]
                      exact .accepted inst valued values _ accept rfl present
                        (by simpa using reached) took toAccept filed
                · cases ran

theorem proposerReceiveAccepted_outcome
    {ack : PaxosAccepted} {done : Bool} {retired : List PaxosValue}
    (ran : proposerReceiveAccepted p ack = some (done, retired, after)) :
    ProposerOutcome p (.receiveAccepted ack) after ⟨none, retired⟩ := by
  unfold proposerReceiveAccepted at ran
  split at ran
  · cases ran
    exact .idle ⟨nofun, nofun, nofun⟩
  · next inst present =>
      split at ran
      · cases ran
      · next ballot ballotAt =>
          split at ran
          · next same =>
              subst same
              split at ran
              · cases ran
              · next aid aidAt =>
                  split at ran
                  · cases ran
                  · cases ran
                    exact .idle ⟨nofun, nofun, nofun⟩
                  · next quorum added =>
                      simp only at ran
                      split at ran
                      · next reached =>
                          cases gave : giveBackValue p.values
                              { inst with quorum := quorum } with
                          | mk values freed =>
                              simp only [gave] at ran
                              cases ran
                              exact .closed ack inst freed aid quorum values
                                rfl present ballotAt aidAt added reached gave
                      · next reached =>
                          cases ran
                          exact .counted ack inst aid quorum rfl present
                            ballotAt aidAt added (by simpa using reached)
          · cases ran
            exact .idle ⟨nofun, nofun, nofun⟩

theorem proposerReceivePreempted_outcome
    {now : Int} {ack : PaxosPreempted} {out : Option PaxosPrepare}
    (keyed : p.Keyed)
    (ran : proposerReceivePreempted now p ack = some (out, after)) :
    ProposerOutcome p (.receivePreempted now ack) after
      ⟨out.map .prepare, []⟩ := by
  unfold proposerReceivePreempted at ran
  split at ran
  · cases ran
    exact .idle ⟨nofun, nofun, nofun⟩
  · next inst present =>
      have sameIid := keyed.accept _ _ present
      split at ran
      · next higher =>
          rw [Option.map_eq_some_iff] at ran
          obtain ⟨⟨acceptTable, prepareTable⟩, moved, equal⟩ := ran
          cases equal
          unfold proposerMoveInstance at moved
          split at moved
          · cases moved
          · rw [Option.map_eq_some_iff] at moved
            obtain ⟨table, inserted, equal⟩ := moved
            cases equal
            rw [← sameIid] at present
            exact .preempted now ack inst _ rfl present sameIid higher
              (Table.insertNew_set inserted _)
      · cases ran
        exact .idle ⟨nofun, nofun, nofun⟩

theorem proposerSetInstanceId_outcome
    {op : ProposerOp} (maxTrimIid iid : Nat)
    (passive : p.Passive op) :
    ProposerOutcome p op
      (proposerSetInstanceId { p with maxTrimIid := maxTrimIid } iid).2
      ⟨none, (proposerSetInstanceId
        { p with maxTrimIid := maxTrimIid } iid).1⟩ := by
  unfold proposerSetInstanceId
  split
  · next higher =>
      have trimmed :=
        @ProposerOutcome.trimmed p op maxTrimIid iid passive
          higher
      simp only [trimEntries_snd]
      exact trimmed
  · exact .noted maxTrimIid passive

theorem timeoutIteratorPrepare_outcome
    (keyed : p.Keyed) (proposerTimeout : Int) (iter : TimeoutIterator) :
    ProposerOutcome p (.timeoutPrepare proposerTimeout iter)
      (timeoutIteratorPrepare proposerTimeout iter p).2.2
      ⟨(timeoutIteratorPrepare proposerTimeout iter p).1.map .prepare,
        []⟩ := by
  unfold timeoutIteratorPrepare
  split
  · exact .idle ⟨nofun, nofun, nofun⟩
  · next k inst found =>
      obtain ⟨key, member⟩ := nextTimedout_mem _ found
      exact .resentPrepare proposerTimeout iter inst rfl
        (keyed.prepare_mem (List.mem_of_mem_drop member))

theorem timeoutIteratorAccept_outcome
    {proposerTimeout : Int} {iter moved : TimeoutIterator}
    {out : Option PaxosAccept} (keyed : p.Keyed)
    (ran : timeoutIteratorAccept proposerTimeout iter p =
      some (out, moved, after)) :
    ProposerOutcome p (.timeoutAccept proposerTimeout iter) after
      ⟨out.map .accept, []⟩ := by
  unfold timeoutIteratorAccept at ran
  split at ran
  · cases ran
    exact .idle ⟨nofun, nofun, nofun⟩
  · next k inst found =>
      obtain ⟨key, member⟩ := nextTimedout_mem _ found
      rw [Option.map_eq_some_iff] at ran
      obtain ⟨accept, toAccept, equal⟩ := ran
      cases equal
      exact .resentAccept proposerTimeout iter inst accept rfl
        (keyed.accept_mem (List.mem_of_mem_drop member)) toAccept

end Functions

/-- What one step of a proposer can do. -/
theorem proposerStep_outcome
    {p after : Proposer} {op : ProposerOp} {result : ProposerResult}
    (keyed : p.Keyed) (stepEq : proposerStep p op = some (after, result)) :
    ProposerOutcome p op after result := by
  cases op with
  | propose value =>
      cases stepEq
      exact .proposed value rfl
  | prepare now =>
      obtain ⟨⟨out, state⟩, ran, equal⟩ := Option.map_eq_some_iff.mp stepEq
      cases equal
      exact proposerPrepare_outcome ran
  | receivePromise clock ack =>
      obtain ⟨⟨out, state⟩, ran, equal⟩ := Option.map_eq_some_iff.mp stepEq
      cases equal
      exact proposerReceivePromise_outcome ran
  | accept =>
      obtain ⟨⟨out, state⟩, ran, equal⟩ := Option.map_eq_some_iff.mp stepEq
      cases equal
      exact proposerAccept_outcome keyed ran
  | receiveAccepted ack =>
      obtain ⟨⟨done, retired, state⟩, ran, equal⟩ :=
        Option.map_eq_some_iff.mp stepEq
      cases equal
      exact proposerReceiveAccepted_outcome ran
  | receivePreempted now ack =>
      obtain ⟨⟨out, state⟩, ran, equal⟩ := Option.map_eq_some_iff.mp stepEq
      cases equal
      exact proposerReceivePreempted_outcome keyed ran
  | receiveAcceptorState state =>
      simp only [proposerStep, Option.some.injEq, Prod.mk.injEq] at stepEq
      obtain ⟨rfl, rfl⟩ := stepEq
      unfold proposerReceiveAcceptorState
      split
      · exact proposerSetInstanceId_outcome state.trimIid state.trimIid
          ⟨nofun, nofun, nofun⟩
      · exact .idle ⟨nofun, nofun, nofun⟩
  | setInstanceId iid =>
      cases stepEq
      exact proposerSetInstanceId_outcome p.maxTrimIid iid ⟨nofun, nofun, nofun⟩
  | timeoutPrepare proposerTimeout iter =>
      cases stepEq
      exact timeoutIteratorPrepare_outcome keyed proposerTimeout iter
  | timeoutAccept proposerTimeout iter =>
      obtain ⟨⟨out, moved, state⟩, ran, equal⟩ :=
        Option.map_eq_some_iff.mp stepEq
      cases equal
      exact timeoutIteratorAccept_outcome keyed ran
  | rehash prepareInstances acceptInstances =>
      simp only [proposerStep] at stepEq
      split at stepEq
      · next permuted =>
          cases stepEq
          exact .rehashed prepareInstances acceptInstances rfl permuted.1
            permuted.2
      · cases stepEq

theorem instanceToAccept_eq_some
    {id : Nat} {inst : ProposerInstance} {out : PaxosAccept}
    (toAccept : instanceToAccept id inst = some out) :
    out.src = id ∧ out.iid = inst.iid ∧ out.ballot = inst.ballot ∧
      inst.promisedValue.or inst.value = some out.value := by
  unfold instanceToAccept at toAccept
  rw [Option.map_eq_some_iff] at toAccept
  obtain ⟨v, chosen, rfl⟩ := toAccept
  exact ⟨rfl, rfl, rfl, chosen⟩

/-- Where an accept comes from: an instance with a majority of promises, or one
that is pending already. -/
theorem ProposerOutcome.accept_sent
    {p after : Proposer} {op : ProposerOp} {result : ProposerResult}
    (outcome : ProposerOutcome p op after result)
    {out : PaxosAccept} (sent : result.sent = some (.accept out)) :
    (∃ inst valued values, op = .accept ∧
      p.prepareInstances.get inst.iid = some inst ∧
      quorumReached inst.quorum = true ∧
      takeValue p.values inst = (values, valued) ∧
      instanceToAccept p.id valued = some out) ∨
    (∃ proposerTimeout iter inst, op = .timeoutAccept proposerTimeout iter ∧
      p.acceptInstances.get inst.iid = some inst ∧
      instanceToAccept p.id inst = some out) := by
  cases outcome with
  | accepted inst valued values table accept isAccept present reached took
      toAccept _ =>
      cases sent
      exact Or.inl ⟨inst, valued, values, isAccept, present, reached, took,
        toAccept⟩
  | resentAccept proposerTimeout iter inst accept isTimeout present toAccept =>
      cases sent
      exact Or.inr ⟨proposerTimeout, iter, inst, isTimeout, present, toAccept⟩
  | promised clock ack inst changed prepare _ _ _ =>
      cases prepare <;> cases sent
  | _ => cases sent

/-- Whether no ballot or instance id that a call computes reaches the top of its
type. -/
def Proposer.fits (p : Proposer) : ProposerOp → Bool
  | .prepare _ => decide (p.nextPrepareIid + 1 < 2 ^ 32)
  | .receivePromise clock ack =>
      match p.prepareInstances.get ack.iid with
      | none => true
      | some inst =>
          promiseFits p.id clock ack (List.range ack.nAids) inst
  | .receivePreempted _ ack =>
      match p.acceptInstances.get ack.iid with
      | none => true
      | some inst => ballotFits inst ack.ballot
  | _ => true

/-- What has to be shown of two properties of instances so that one call keeps
them: one condition for each way in which a call makes or changes an
instance. -/
structure KeepsInstances (p : Proposer) (op : ProposerOp)
    (result : ProposerResult)
    (waiting pending : Nat → ProposerInstance → Prop) : Prop where
  fresh : ∀ now, op = .prepare now → 0 < p.freshIid →
    waiting p.freshIid (p.freshInstance now)
  entry : ∀ clock ack ii inst changed sent, op = .receivePromise clock ack →
    waiting ack.iid inst →
    (p.fits op = true → ∀ ballot, ack.ballots[ii]? = some ballot →
      ballotFits inst ballot = true) →
    EntryOutcome p.id clock ack ii inst changed sent →
    waiting ack.iid changed
  choose : ∀ inst valued values out,
    result.sent = some (.accept out) →
    waiting inst.iid inst → p.prepareInstances.get inst.iid = some inst →
    takeValue p.values inst = (values, valued) →
    instanceToAccept p.id valued = some out →
    pending inst.iid { valued with quorum := quorumClear valued.quorum }
  count : ∀ ack key inst aid quorum, op = .receiveAccepted ack →
    pending key inst → ack.ballots[0]? = some inst.ballot →
    ack.aids[0]? = some aid → ack.iid = key →
    quorumAdd inst.quorum aid = some (true, quorum) →
    quorumReached quorum = false →
    pending key { inst with quorum := quorum }
  preempt : ∀ now ack inst, op = .receivePreempted now ack →
    pending inst.iid inst → inst.ballot < ack.ballot →
    (p.fits op = true → maxNOfProposers + inst.ballot < 2 ^ 32) →
    waiting inst.iid (proposerPreempt p.id now inst).1
  touchWaiting : ∀ key inst createdAt, waiting key inst →
    waiting key { inst with createdAt := createdAt }
  touchPending : ∀ key inst createdAt, pending key inst →
    pending key { inst with createdAt := createdAt }

theorem ProposerOutcome.instances
    {p after : Proposer} {op : ProposerOp} {result : ProposerResult}
    (outcome : ProposerOutcome p op after result)
    {waiting pending : Nat → ProposerInstance → Prop}
    (holds : p.Instances waiting pending)
    (keeps : KeepsInstances p op result waiting pending) :
    after.Instances waiting pending := by
  cases outcome with
  | prepared now table isPrepare positive inserted =>
      exact ⟨holds.prepare.insertNew inserted
        (keeps.fresh now isPrepare positive), holds.accept⟩
  | promised clock ack inst changed out isPromise present looped =>
      refine ⟨holds.prepare.set ?_, holds.accept⟩
      refine promiseLoop_invariant
        (p.fits op = true)
        (fun inst _ => waiting ack.iid inst)
        ?_ _ (holds.prepare _ _ present) ?_ looped
      · intro ii inst out result sent held room entryOutcome
        exact keeps.entry clock ack ii inst result sent isPromise held room
          entryOutcome
      · intro fits
        rw [isPromise] at fits
        simpa only [Proposer.fits, present] using fits
  | accepted inst valued values table out isAccept present reached took
      toAccept inserted =>
      exact ⟨holds.prepare.erase _, holds.accept.insertNew inserted
        (keeps.choose inst valued values out rfl
          (holds.prepare _ _ present) present took toAccept)⟩
  | counted ack inst aid quorum isAccepted present ballotAt aidAt added
      missing =>
      exact ⟨holds.prepare, holds.accept.set
        (keeps.count ack ack.iid inst aid quorum isAccepted
          (holds.accept _ _ present) ballotAt aidAt rfl added missing)⟩
  | closed ack inst freed aid quorum values _ _ _ _ _ _ _ =>
      exact ⟨holds.prepare, holds.accept.erase _⟩
  | preempted now ack inst table isPreempted present sameIid higher
      inserted =>
      refine ⟨holds.prepare.insertNew inserted ?_, holds.accept.erase _⟩
      apply keeps.preempt now ack inst isPreempted
        (holds.accept _ _ present) higher
      intro fits
      rw [isPreempted] at fits
      simp only [Proposer.fits, ← sameIid, present] at fits
      exact ballotFits_of_lt fits higher
  | trimmed maxTrimIid iid _ _ =>
      exact ⟨holds.prepare.filter _, holds.accept.filter _⟩
  | resentPrepare proposerTimeout iter inst _ present =>
      exact ⟨holds.prepare.set (keeps.touchWaiting _ _ _
        (holds.prepare _ _ present)), holds.accept⟩
  | resentAccept proposerTimeout iter inst out _ present _ =>
      exact ⟨holds.prepare, holds.accept.set (keeps.touchPending _ _ _
        (holds.accept _ _ present))⟩
  | rehashed prepareInstances acceptInstances _ permPrepare permAccept =>
      exact ⟨holds.prepare.perm permPrepare, holds.accept.perm permAccept⟩
  | idle _ => exact holds
  | proposed _ _ => exact ⟨holds.prepare, holds.accept⟩
  | noted _ _ => exact ⟨holds.prepare, holds.accept⟩

/-- An entry of a promise changes neither the id nor the client value of an
instance, nor how many acceptors it counts. -/
theorem EntryOutcome.frame
    {id : Nat} {clock : Nat → Int} {ack : PaxosPromise} {ii : Nat}
    {inst result : ProposerInstance} {sent : Option PaxosPrepare}
    (outcome : EntryOutcome id clock ack ii inst result sent) :
    result.iid = inst.iid ∧ result.value = inst.value ∧
      result.quorum.acceptors = inst.quorum.acceptors := by
  cases outcome with
  | stale _ _ _ => exact ⟨rfl, rfl, rfl⟩
  | preempted _ _ _ => exact ⟨rfl, rfl, rfl⟩
  | counted aid value fresh quorum _ _ _ added _ =>
      exact ⟨rfl, rfl, (Quorum.quorumAdd_spec added).1⟩
  | recorded aid value fresh quorum valueBallot _ _ _ added _ _ _ =>
      exact ⟨rfl, rfl, (Quorum.quorumAdd_spec added).1⟩

theorem takeValue_iid
    {values rest : Queue PaxosValue} {inst valued : ProposerInstance}
    (took : takeValue values inst = (rest, valued)) :
    valued.iid = inst.iid ∧ valued.ballot = inst.ballot ∧
      valued.promisedValue = inst.promisedValue ∧
      valued.quorum = inst.quorum := by
  rw [(takeValue_eq took).1]
  exact ⟨rfl, rfl, rfl, rfl⟩

theorem ProposerOutcome.keyed
    {p after : Proposer} {op : ProposerOp} {result : ProposerResult}
    (outcome : ProposerOutcome p op after result) (keyed : p.Keyed) :
    after.Keyed := by
  apply outcome.instances keyed
  constructor
  · intro now _ _
    rfl
  · intro clock ack ii inst result sent _ held _ entryOutcome
    exact entryOutcome.frame.1.trans held
  · intro inst valued values out _ _ _ took _
    exact (takeValue_iid took).1
  · intro ack key inst aid quorum _ held _ _ _ _ _
    exact held
  · intro now ack inst _ _ _ _
    rfl
  · intro key inst createdAt held
    exact held
  · intro key inst createdAt held
    exact held

theorem proposerNew_instances
    (id acceptors : Nat) (waiting pending : Nat → ProposerInstance → Prop) :
    (proposerNew id acceptors).Instances waiting pending :=
  ⟨Table.All.empty, Table.All.empty⟩

/-- A property of proposers that holds initially and is kept by whatever a call
can do holds in every run. -/
theorem proposer_trace_invariant
    {id acceptors : Nat} (property : Proposer → Prop)
    (initial : property (proposerNew id acceptors))
    (preserved : ∀ p op after result, p.Keyed → property p →
      ProposerOutcome p op after result → property after)
    {past : List ProposerTransition} {final : Proposer}
    (trace : Trace proposerStep (proposerNew id acceptors) past final) :
    final.Keyed ∧ property final := by
  apply trace.invariant
    (fun p : Proposer => p.Keyed ∧ property p)
    ⟨proposerNew_instances id acceptors _ _, initial⟩
  rintro source op target result ⟨keyed, holds⟩ stepEq
  have outcome := proposerStep_outcome keyed stepEq
  exact ⟨outcome.keyed keyed,
    preserved source op target result keyed holds outcome⟩

theorem ProposerOutcome.id_eq
    {p after : Proposer} {op : ProposerOp} {result : ProposerResult}
    (outcome : ProposerOutcome p op after result) :
    after.id = p.id ∧ after.acceptors = p.acceptors := by
  cases outcome <;> exact ⟨rfl, rfl⟩

/-- The id and the number of acceptors of a proposer never change. -/
theorem proposer_trace_keyed
    {id acceptors : Nat}
    {past : List ProposerTransition} {final : Proposer}
    (trace : Trace proposerStep (proposerNew id acceptors) past final) :
    final.Keyed ∧ final.id = id ∧ final.acceptors = acceptors := by
  refine proposer_trace_invariant
    (fun p => p.id = id ∧ p.acceptors = acceptors)
    ⟨rfl, rfl⟩ ?_ trace
  rintro p op after result _ ⟨sameId, sameAcceptors⟩ outcome
  exact ⟨outcome.id_eq.1.trans sameId, outcome.id_eq.2.trans sameAcceptors⟩

end LibPaxos
