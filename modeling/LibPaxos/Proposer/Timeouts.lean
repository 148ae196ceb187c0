import LibPaxos.Proposer.Ballots

/-!
# Draining the timeout iterator

A proposer calls the iterator until it returns nothing, first for the instances
that wait for promises and then for those that wait for acknowledgements.  The
iterator does not move past an instance that it returns: it stamps the instance
with the time of the iteration, so that the instance is not due any more.

The age of an instance is stored into an `int`.  It decides what is due, and can
differ from the age when two times are more than `2 ^ 31` seconds apart.
-/

namespace LibPaxos

open LibPaxos.Library

/-! ### The loops of the caller -/

section Loops

variable (proposerTimeout : Int)

/-- `timeout_iterator_prepare` until it returns 0, for at most `fuel` calls. -/
def drainPrepare : Nat → TimeoutIterator → Proposer →
    Option (List PaxosPrepare × TimeoutIterator × Proposer)
  | 0, _, _ => none
  | fuel + 1, iter, p =>
      match timeoutIteratorPrepare proposerTimeout iter p with
      | (none, iter, p) => some ([], iter, p)
      | (some out, iter, p) =>
          (drainPrepare fuel iter p).map fun (outs, iter, p) =>
            (out :: outs, iter, p)

/-- `timeout_iterator_accept` until it returns 0, for at most `fuel` calls. -/
def drainAccept : Nat → TimeoutIterator → Proposer →
    Option (List PaxosAccept × TimeoutIterator × Proposer)
  | 0, _, _ => none
  | fuel + 1, iter, p =>
      (timeoutIteratorAccept proposerTimeout iter p).bind fun result =>
        match result with
        | (none, iter, p) => some ([], iter, p)
        | (some out, iter, p) =>
            (drainAccept fuel iter p).map fun (outs, iter, p) =>
              (out :: outs, iter, p)

/-- One iteration at a clock reading: the prepares, the accepts and the proposer
afterwards. -/
def drainTimeouts (now : Int) (fuel : Nat) (p : Proposer) :
    Option (List PaxosPrepare × List PaxosAccept × Proposer) :=
  (drainPrepare proposerTimeout fuel (proposerTimeoutIterator now) p).bind
    fun (prepares, iter, p) =>
      (drainAccept proposerTimeout fuel iter p).map fun (accepts, _, p) =>
        (prepares, accepts, p)

end Loops

/-! ### One table -/

section Table

variable (proposerTimeout now : Int)

/-- The test of `next_timedout`. -/
def due (inst : ProposerInstance) : Bool :=
  !quorumReached inst.quorum && instanceHasTimedout proposerTimeout inst now

/-- An instance after the iteration. -/
def stamped (inst : ProposerInstance) : ProposerInstance :=
  if due proposerTimeout now inst then { inst with createdAt := now } else inst

/-- The loop of the caller over one table, with the message that is filled in
for an instance. -/
def drainTable {μ : Type} (toMessage : ProposerInstance → Option μ) :
    Nat → Nat → Table Nat ProposerInstance →
      Option (List μ × Nat × Table Nat ProposerInstance)
  | 0, _, _ => none
  | fuel + 1, k, table =>
      match nextTimedout proposerTimeout now (table.entries.drop k) k with
      | (k, none) => some ([], k, table)
      | (k, some inst) =>
          (toMessage inst).bind fun out =>
            (drainTable toMessage fuel k
              (table.set inst.iid { inst with createdAt := now })).map
                fun (outs, k, table) => (out :: outs, k, table)

variable {proposerTimeout now}

theorem nextTimedout_cons (entry : Nat × ProposerInstance)
    (rest : List (Nat × ProposerInstance)) (k : Nat) :
    nextTimedout proposerTimeout now (entry :: rest) k =
      if due proposerTimeout now entry.2 then (k, some entry.2)
      else nextTimedout proposerTimeout now rest (k + 1) := by
  rw [nextTimedout, due]
  cases quorumReached entry.2.quorum with
  | true => rfl
  | false => rfl

/-- A stamped instance is not due at the same clock reading. -/
theorem due_stamped (now : Int) (positive : 1 ≤ proposerTimeout)
    (inst : ProposerInstance) :
    due proposerTimeout now (stamped proposerTimeout now inst) = false := by
  unfold stamped
  split
  · have early : ¬ proposerTimeout ≤ (now - now).bmod (2 ^ 32) := by
      rw [Int.sub_self, Int.zero_bmod]
      omega
    simp only [due, instanceHasTimedout, decide_eq_false early,
      Bool.and_false]
  · next notDue => exact Bool.eq_false_iff.mpr notDue

section Drain

variable {μ : Type} {toMessage : ProposerInstance → Option μ}

/-- The loop passes over an instance that is not due. -/
theorem drainTable_skip {table : Table Nat ProposerInstance}
    {before rest : List (Nat × ProposerInstance)}
    {entry : Nat × ProposerInstance}
    (split : table.entries = before ++ entry :: rest)
    (notDue : due proposerTimeout now entry.2 = false) (fuel : Nat) :
    drainTable proposerTimeout now toMessage fuel before.length table =
      drainTable proposerTimeout now toMessage fuel (before.length + 1)
        table := by
  cases fuel with
  | zero => rfl
  | succ fuel =>
      have here : table.entries.drop before.length = entry :: rest := by
        rw [split, List.drop_left]
      have next : table.entries.drop (before.length + 1) = rest := by
        rw [← List.drop_drop, here, List.drop_one, List.tail_cons]
      rw [drainTable, drainTable, here, next, nextTimedout_cons, notDue]
      rfl

/-- From a position on, the loop returns the message of every instance that is
due, in order, and stamps these instances. -/
theorem drainTable_eq (now : Int) (positive : 1 ≤ proposerTimeout)
    (rest : List (Nat × ProposerInstance)) :
    ∀ (before : List (Nat × ProposerInstance))
      (table : Table Nat ProposerInstance) (fuel : Nat),
      table.entries = before ++ rest →
      (∀ entry ∈ rest, entry.2.iid = entry.1) →
      (∀ entry ∈ rest, ∃ out, toMessage entry.2 = some out) →
      rest.length < fuel →
      ∃ outs after,
        drainTable proposerTimeout now toMessage fuel before.length table =
          some (outs, (before ++ rest).length, after) ∧
        outs.map some =
          (rest.filter fun entry => due proposerTimeout now entry.2).map
            (fun entry => toMessage entry.2) ∧
        after.entries = before ++ rest.map fun entry =>
          (entry.1, stamped proposerTimeout now entry.2) := by
  induction rest with
  | nil =>
      intro before table fuel split _ _ enough
      obtain ⟨fuel, rfl⟩ := Nat.exists_eq_succ_of_ne_zero (Nat.ne_of_gt enough)
      have ends : table.entries.drop before.length = [] := by
        rw [split, List.append_nil, List.drop_length]
      refine ⟨[], table, ?_, rfl, split⟩
      rw [drainTable, ends, List.append_nil]
      rfl
  | cons entry rest inductionHypothesis =>
      intro before table fuel split keyed valued enough
      have restKeyed : ∀ other ∈ rest, other.2.iid = other.1 := by
        intro other member
        exact keyed other (List.mem_cons_of_mem entry member)
      have restValued : ∀ other ∈ rest,
          ∃ out, toMessage other.2 = some out := by
        intro other member
        exact valued other (List.mem_cons_of_mem entry member)
      rw [List.length_cons] at enough
      cases isDue : due proposerTimeout now entry.2 with
      | false =>
          have onward : table.entries = (before ++ [entry]) ++ rest := by
            rw [split]
            simp
          obtain ⟨outs, after, drained, messages, entries⟩ :=
            inductionHypothesis (before ++ [entry]) table fuel onward
              restKeyed restValued (by omega)
          rw [List.length_append, List.length_singleton] at drained
          have kept : stamped proposerTimeout now entry.2 = entry.2 := by
            rw [stamped, isDue]
            rfl
          refine ⟨outs, after, ?_, ?_, ?_⟩
          · rw [drainTable_skip split isDue, drained]
            simp
          · rw [List.filter_cons_of_neg (by simp [isDue]), messages]
          · rw [entries, List.map_cons, kept]
            simp
      | true =>
          obtain ⟨fuel, rfl⟩ := Nat.exists_eq_succ_of_ne_zero
            (show fuel ≠ 0 by omega)
          obtain ⟨out, isOut⟩ := valued entry List.mem_cons_self
          have isKey := keyed entry List.mem_cons_self
          have marked : stamped proposerTimeout now entry.2 =
              { entry.2 with createdAt := now } := by
            rw [stamped, isDue]
            rfl
          have here : table.entries.drop before.length = entry :: rest := by
            rw [split, List.drop_left]
          -- The loop writes the stamp and looks at the same place again.
          have stampedSplit : (table.set entry.2.iid
              { entry.2 with createdAt := now }).entries =
              before ++ (entry.1, stamped proposerTimeout now entry.2) ::
                rest := by
            rw [isKey, marked]
            exact Table.entries_set_middle split _
          have onward : (table.set entry.2.iid
              { entry.2 with createdAt := now }).entries =
              (before ++ [(entry.1,
                stamped proposerTimeout now entry.2)]) ++ rest := by
            rw [stampedSplit]
            simp
          obtain ⟨outs, after, drained, messages, entries⟩ :=
            inductionHypothesis _ _ fuel onward restKeyed restValued
              (by omega)
          rw [List.length_append, List.length_singleton] at drained
          refine ⟨out :: outs, after, ?_, ?_, ?_⟩
          · rw [drainTable, here, nextTimedout_cons, isDue]
            simp only [if_true, isOut, Option.bind_some]
            rw [drainTable_skip stampedSplit (due_stamped now positive _),
              drained]
            simp
          · rw [List.filter_cons_of_pos (by simp [isDue]), List.map_cons,
              List.map_cons, messages, isOut]
          · rw [entries, List.map_cons]
            simp

/-- The loop over a whole table. -/
theorem drainTable_all (now : Int) (toMessage : ProposerInstance → Option μ)
    (positive : 1 ≤ proposerTimeout) {table : Table Nat ProposerInstance}
    (keyed : table.All fun key inst => inst.iid = key)
    (valued : table.All fun _ inst => ∃ out, toMessage inst = some out)
    {fuel : Nat} (enough : table.size < fuel) :
    ∃ outs,
      drainTable proposerTimeout now toMessage fuel 0 table =
        some (outs, table.size,
          table.mapValues (stamped proposerTimeout now)) ∧
      outs.map some =
        (table.entries.filter fun entry =>
          due proposerTimeout now entry.2).map
            (fun entry => toMessage entry.2) := by
  have entriesKeyed : ∀ entry ∈ table.entries, entry.2.iid = entry.1 := by
    intro entry member
    exact keyed _ _ (Table.get_eq_some_iff.mpr member)
  have entriesValued : ∀ entry ∈ table.entries,
      ∃ out, toMessage entry.2 = some out := by
    intro entry member
    exact valued _ _ (Table.get_eq_some_iff.mpr member)
  obtain ⟨outs, after, drained, messages, entries⟩ :=
    drainTable_eq now positive table.entries [] table fuel rfl
      entriesKeyed entriesValued enough
  refine ⟨outs, ?_, messages⟩
  rw [List.length_nil] at drained
  rw [drained, List.nil_append, Table.size]
  congr 3
  exact Table.ext_entries entries

/-- More calls than the loop needs make no difference. -/
theorem drainTable_mono (extra fuel : Nat) :
    ∀ {k : Nat} {table : Table Nat ProposerInstance}
      {result : List μ × Nat × Table Nat ProposerInstance},
      drainTable proposerTimeout now toMessage fuel k table = some result →
      drainTable proposerTimeout now toMessage (fuel + extra) k table =
        some result := by
  induction fuel with
  | zero =>
      intro k table result drained
      cases drained
  | succ fuel inductionHypothesis =>
      intro k table result drained
      rw [Nat.succ_add, drainTable]
      rw [drainTable] at drained
      cases found : nextTimedout proposerTimeout now (table.entries.drop k) k
        with
      | mk position next =>
          rw [found] at drained
          cases next with
          | none => exact drained
          | some inst =>
              simp only [Option.bind_eq_some_iff, Option.map_eq_some_iff]
                at drained ⊢
              obtain ⟨out, isOut, rest, drainedRest, same⟩ := drained
              exact ⟨out, isOut, rest, inductionHypothesis drainedRest, same⟩

end Drain

end Table

section Proposer

variable {proposerTimeout : Int}

def instanceToPrepare (id : Nat) (inst : ProposerInstance) : PaxosPrepare :=
  ⟨id, inst.iid, inst.ballot⟩

theorem drainPrepare_eq_drainTable (fuel : Nat) :
    ∀ (iter : TimeoutIterator) (p : Proposer),
      drainPrepare proposerTimeout fuel iter p =
        (drainTable proposerTimeout iter.timeout
          (fun inst => some (instanceToPrepare p.id inst))
          fuel iter.pi p.prepareInstances).map fun (outs, k, table) =>
            (outs, { iter with pi := k },
              { p with prepareInstances := table }) := by
  induction fuel with
  | zero =>
      intro iter p
      rfl
  | succ fuel inductionHypothesis =>
      intro iter p
      rw [drainPrepare, drainTable, timeoutIteratorPrepare]
      cases nextTimedout proposerTimeout iter.timeout
          (p.prepareInstances.entries.drop iter.pi) iter.pi with
      | mk position next =>
          cases next with
          | none => rfl
          | some inst =>
              simp only [inductionHypothesis, Option.bind_some,
                Option.map_map]
              rfl

theorem drainAccept_eq_drainTable (fuel : Nat) :
    ∀ (iter : TimeoutIterator) (p : Proposer),
      drainAccept proposerTimeout fuel iter p =
        (drainTable proposerTimeout iter.timeout (instanceToAccept p.id)
          fuel iter.ai p.acceptInstances).map fun (outs, k, table) =>
            (outs, { iter with ai := k },
              { p with acceptInstances := table }) := by
  induction fuel with
  | zero =>
      intro iter p
      rfl
  | succ fuel inductionHypothesis =>
      intro iter p
      rw [drainAccept, drainTable, timeoutIteratorAccept]
      cases nextTimedout proposerTimeout iter.timeout
          (p.acceptInstances.entries.drop iter.ai) iter.ai with
      | mk position next =>
          cases next with
          | none => rfl
          | some inst =>
              cases toAccept : instanceToAccept p.id inst with
              | none =>
                  simp only [toAccept, Option.map_none, Option.bind_none]
              | some out =>
                  simp only [toAccept, inductionHypothesis, Option.map_some,
                    Option.bind_some, Option.map_map]
                  rfl

/-- The proposer after an iteration. -/
def Proposer.stamped (p : Proposer) (proposerTimeout now : Int) : Proposer :=
  { p with
    prepareInstances :=
      p.prepareInstances.mapValues (LibPaxos.stamped proposerTimeout now)
    acceptInstances :=
      p.acceptInstances.mapValues (LibPaxos.stamped proposerTimeout now) }

/-- The tables let an iteration run: instances are filed under their id and
pending instances have an accept. -/
structure Proposer.Drainable (p : Proposer) : Prop where
  keyed : p.Keyed
  valued : p.acceptInstances.All fun _ inst =>
    ∃ out, instanceToAccept p.id inst = some out

theorem stamped_iid_accept (now : Int) (id : Nat) (inst : ProposerInstance) :
    (stamped proposerTimeout now inst).iid = inst.iid ∧
      instanceToAccept id (stamped proposerTimeout now inst) =
        instanceToAccept id inst := by
  unfold stamped
  split
  · exact ⟨rfl, rfl⟩
  · exact ⟨rfl, rfl⟩

theorem Proposer.Drainable.stamped {p : Proposer} (drainable : p.Drainable)
    (now : Int) : (p.stamped proposerTimeout now).Drainable := by
  refine ⟨⟨Table.All.mapValues ?_, Table.All.mapValues ?_⟩,
    Table.All.mapValues ?_⟩
  · intro key inst present
    exact (stamped_iid_accept now p.id inst).1.trans
      (drainable.keyed.prepare key inst present)
  · intro key inst present
    exact (stamped_iid_accept now p.id inst).1.trans
      (drainable.keyed.accept key inst present)
  · intro key inst present
    obtain ⟨out, toAccept⟩ := drainable.valued key inst present
    exact ⟨out, (stamped_iid_accept now p.id inst).2.trans toAccept⟩

/-- Nothing in a stamped table is due. -/
theorem filter_due_stamped (positive : 1 ≤ proposerTimeout) (now : Int)
    (table : Table Nat ProposerInstance) :
    ((table.mapValues (stamped proposerTimeout now)).entries.filter
      fun entry => due proposerTimeout now entry.2) = [] := by
  rw [List.filter_eq_nil_iff]
  intro entry member isDue
  obtain ⟨old, _, same⟩ := List.mem_map.mp member
  rw [← same, due_stamped now positive] at isDue
  cases isDue

theorem mapValues_stamped_twice (positive : 1 ≤ proposerTimeout) (now : Int)
    (table : Table Nat ProposerInstance) :
    (table.mapValues (stamped proposerTimeout now)).mapValues
        (stamped proposerTimeout now) =
      table.mapValues (stamped proposerTimeout now) := by
  apply Table.ext_entries
  change List.map _ (List.map _ table.entries) = List.map _ table.entries
  rw [List.map_map]
  apply List.map_congr_left
  intro entry _
  have settled := due_stamped now positive entry.2
  rw [Function.comp_apply]
  congr 1
  rw [stamped, settled]
  rfl

/-- An iteration with enough calls. -/
theorem drainTimeouts_eq {p : Proposer} (drainable : p.Drainable)
    (positive : 1 ≤ proposerTimeout) (now : Int) {fuel : Nat}
    (enough : p.prepareInstances.size + p.acceptInstances.size < fuel) :
    ∃ accepts,
      drainTimeouts proposerTimeout now fuel p =
        some ((p.prepareInstances.entries.filter fun entry =>
            due proposerTimeout now entry.2).map
              (fun entry => instanceToPrepare p.id entry.2), accepts,
          p.stamped proposerTimeout now) ∧
      accepts.map some =
        (p.acceptInstances.entries.filter fun entry =>
          due proposerTimeout now entry.2).map
            (fun entry => instanceToAccept p.id entry.2) := by
  have prepareValued : p.prepareInstances.All fun _ inst =>
      ∃ out, some (instanceToPrepare p.id inst) = some out := by
    intro key inst _
    exact ⟨_, rfl⟩
  obtain ⟨prepares, drainedPrepare, prepareMessages⟩ :=
    drainTable_all now (fun inst => some (instanceToPrepare p.id inst))
      positive drainable.keyed.prepare prepareValued
      (show p.prepareInstances.size < fuel by omega)
  obtain ⟨accepts, drainedAccept, acceptMessages⟩ :=
    drainTable_all now (instanceToAccept p.id) positive
      drainable.keyed.accept drainable.valued
      (show p.acceptInstances.size < fuel by omega)
  have isPrepares : prepares =
      (p.prepareInstances.entries.filter fun entry =>
        due proposerTimeout now entry.2).map
          (fun entry => instanceToPrepare p.id entry.2) := by
    apply List.map_injective_iff.mpr (Option.some_injective _)
    rw [prepareMessages, List.map_map]
    rfl
  refine ⟨accepts, ?_, acceptMessages⟩
  rw [drainTimeouts, drainPrepare_eq_drainTable]
  simp only [proposerTimeoutIterator]
  simp only [drainedPrepare, Option.map_some, Option.bind_some,
    drainAccept_eq_drainTable, drainedAccept, isPrepares]
  rfl

theorem drainPrepare_mono {iter : TimeoutIterator} {p : Proposer}
    {fuel : Nat} {result : List PaxosPrepare × TimeoutIterator × Proposer}
    (extra : Nat)
    (drained : drainPrepare proposerTimeout fuel iter p = some result) :
    drainPrepare proposerTimeout (fuel + extra) iter p = some result := by
  rw [drainPrepare_eq_drainTable, Option.map_eq_some_iff] at drained ⊢
  obtain ⟨table, drainedTable, same⟩ := drained
  exact ⟨table, drainTable_mono extra fuel drainedTable, same⟩

theorem drainAccept_mono {iter : TimeoutIterator} {p : Proposer}
    {fuel : Nat} {result : List PaxosAccept × TimeoutIterator × Proposer}
    (extra : Nat)
    (drained : drainAccept proposerTimeout fuel iter p = some result) :
    drainAccept proposerTimeout (fuel + extra) iter p = some result := by
  rw [drainAccept_eq_drainTable, Option.map_eq_some_iff] at drained ⊢
  obtain ⟨table, drainedTable, same⟩ := drained
  exact ⟨table, drainTable_mono extra fuel drainedTable, same⟩

theorem drainTimeouts_mono {p : Proposer} {now : Int} {fuel : Nat}
    {result : List PaxosPrepare × List PaxosAccept × Proposer} (extra : Nat)
    (drained : drainTimeouts proposerTimeout now fuel p = some result) :
    drainTimeouts proposerTimeout now (fuel + extra) p = some result := by
  rw [drainTimeouts, Option.bind_eq_some_iff] at drained ⊢
  obtain ⟨middle, drainedPrepare, rest⟩ := drained
  rw [Option.map_eq_some_iff] at rest
  obtain ⟨final, drainedAccept, same⟩ := rest
  refine ⟨middle, drainPrepare_mono extra drainedPrepare, ?_⟩
  rw [Option.map_eq_some_iff]
  exact ⟨final, drainAccept_mono extra drainedAccept, same⟩

/-- A second iteration at the same clock reading finds nothing. -/
theorem drainTimeouts_stamped {p : Proposer} (drainable : p.Drainable)
    (positive : 1 ≤ proposerTimeout) (now : Int) :
    ∃ fuel, drainTimeouts proposerTimeout now fuel
        (p.stamped proposerTimeout now) =
      some ([], [], p.stamped proposerTimeout now) := by
  obtain ⟨accepts, drained, messages⟩ :=
    drainTimeouts_eq (drainable.stamped now) positive now
      (Nat.lt_succ_self _)
  have noPrepares := filter_due_stamped positive now p.prepareInstances
  have noAccepts := filter_due_stamped positive now p.acceptInstances
  have settled : (p.stamped proposerTimeout now).stamped proposerTimeout now =
      p.stamped proposerTimeout now := by
    simp only [Proposer.stamped, mapValues_stamped_twice positive]
  simp only [Proposer.stamped] at messages noPrepares noAccepts
  rw [noAccepts, List.map_nil, List.map_eq_nil_iff] at messages
  refine ⟨_, drained.trans ?_⟩
  rw [settled, messages]
  simp only [Proposer.stamped, noPrepares, List.map_nil]

/-- Two iterations that end return the same. -/
theorem drainTimeouts_unique {p : Proposer} {now : Int} {fuel other : Nat}
    {first second : List PaxosPrepare × List PaxosAccept × Proposer}
    (drained : drainTimeouts proposerTimeout now fuel p = some first)
    (again : drainTimeouts proposerTimeout now other p = some second) :
    first = second := by
  have left := drainTimeouts_mono other drained
  have right := drainTimeouts_mono fuel again
  rw [Nat.add_comm, left] at right
  exact Option.some.inj right

end Proposer

/-! ### What the iterator is for -/

section Exact

variable (past : List ProposerTransition) (proposerTimeout now : Int)

/-- The instance has no quorum and is old enough. -/
def Overdue (inst : ProposerInstance) : Prop :=
  quorumReached inst.quorum = false ∧ proposerTimeout ≤ now - inst.createdAt

instance : DecidablePred (Overdue proposerTimeout now) := fun inst =>
  inferInstanceAs (Decidable (quorumReached inst.quorum = false ∧
    proposerTimeout ≤ now - inst.createdAt))

/-- The first accept that was sent with its instance and ballot. -/
def FirstSent (accept : PaxosAccept) : Prop :=
  ∃ before first after, past = before ++ first :: after ∧
    first.output.sent = some (.accept accept) ∧
    ∀ earlier ∈ before, ∀ other,
      earlier.output.sent = some (.accept other) →
      ¬ (other.iid = accept.iid ∧ other.ballot = accept.ballot)

/-- The instance after its prepare or accept has been sent again. -/
def restarted (inst : ProposerInstance) : ProposerInstance :=
  if Overdue proposerTimeout now inst then { inst with createdAt := now }
  else inst

/-- An iteration ends, returns once and in order the prepares of the waiting and
the accepts of the pending instances that are overdue and nothing else, changes
nothing but the time of these instances, and leaves nothing for a second
iteration at the same clock reading. -/
def YieldsTimeouts (p : Proposer) : Prop :=
  ∃ fuel prepares accepts after,
    drainTimeouts proposerTimeout now fuel p =
      some (prepares, accepts, after) ∧
    prepares =
      (p.prepareInstances.entries.filter fun entry =>
        decide (Overdue proposerTimeout now entry.2)).map
          (fun entry => instanceToPrepare p.id entry.2) ∧
    accepts.map some =
      (p.acceptInstances.entries.filter fun entry =>
        decide (Overdue proposerTimeout now entry.2)).map
          (fun entry => instanceToAccept p.id entry.2) ∧
    (∀ accept ∈ accepts, FirstSent past accept) ∧
    after = { p with
      prepareInstances :=
        p.prepareInstances.mapValues (restarted proposerTimeout now)
      acceptInstances :=
        p.acceptInstances.mapValues (restarted proposerTimeout now) } ∧
    ∃ more, drainTimeouts proposerTimeout now more after =
      some ([], [], after)

/-- The age of an instance without a quorum reaches the timeout exactly when the
`int` that holds it does: its remainder by `2 ^ 32` lies between the timeout and
`2 ^ 31`. -/
def AgeFits (inst : ProposerInstance) : Prop :=
  quorumReached inst.quorum = false →
    (proposerTimeout ≤ now - inst.createdAt ↔
      proposerTimeout ≤ (now - inst.createdAt) % 2 ^ 32 ∧
        (now - inst.createdAt) % 2 ^ 32 < 2 ^ 31)

variable {past proposerTimeout now}

theorem instanceHasTimedout_iff (positive : 1 ≤ proposerTimeout)
    (inst : ProposerInstance) :
    instanceHasTimedout proposerTimeout inst now = true ↔
      proposerTimeout ≤ (now - inst.createdAt) % 2 ^ 32 ∧
        (now - inst.createdAt) % 2 ^ 32 < 2 ^ 31 := by
  rw [instanceHasTimedout, decide_eq_true_eq, Int.bmod_def]
  split
  · omega
  · omega

theorem ageFits_iff (positive : 1 ≤ proposerTimeout)
    (inst : ProposerInstance) :
    AgeFits proposerTimeout now inst ↔
      due proposerTimeout now inst =
        decide (Overdue proposerTimeout now inst) := by
  have asProp : due proposerTimeout now inst =
      decide (Overdue proposerTimeout now inst) ↔
      (due proposerTimeout now inst = true ↔
        Overdue proposerTimeout now inst) := by
    rw [Bool.eq_iff_iff, decide_eq_true_eq]
  rw [asProp, AgeFits, ← instanceHasTimedout_iff positive]
  unfold due Overdue
  cases quorumReached inst.quorum with
  | true => simp
  | false => simp [iff_comm]

/-- A difference that fits an `int` is stored as it is. -/
theorem ageFits_of_small {inst : ProposerInstance}
    (positive : 1 ≤ proposerTimeout)
    (above : -2 ^ 31 ≤ now - inst.createdAt)
    (below : now - inst.createdAt < 2 ^ 31) :
    AgeFits proposerTimeout now inst := by
  intro _
  omega

section Tables

variable {p : Proposer}

/-- The instances that are due are the overdue ones. -/
theorem filter_due (positive : 1 ≤ proposerTimeout)
    {table : Table Nat ProposerInstance}
    (fits : table.All fun _ inst => AgeFits proposerTimeout now inst) :
    (table.entries.filter fun entry => due proposerTimeout now entry.2) =
      table.entries.filter fun entry =>
        decide (Overdue proposerTimeout now entry.2) := by
  apply List.filter_congr
  intro entry member
  exact (ageFits_iff positive entry.2).mp
    (fits _ _ (Table.get_eq_some_iff.mpr member))

theorem mapValues_stamped (positive : 1 ≤ proposerTimeout)
    {table : Table Nat ProposerInstance}
    (fits : table.All fun _ inst => AgeFits proposerTimeout now inst) :
    table.mapValues (stamped proposerTimeout now) =
      table.mapValues (restarted proposerTimeout now) := by
  apply Table.ext_entries
  apply List.map_congr_left
  intro entry member
  have same := (ageFits_iff positive entry.2).mp
    (fits _ _ (Table.get_eq_some_iff.mpr member))
  unfold stamped restarted
  rw [same]
  simp

/-- From the messages for the instances that are due and for the overdue ones
being the same, the instances are: every message names its instance. -/
theorem ageFits_of_messages {μ : Type}
    (toMessage : ProposerInstance → μ) (positive : 1 ≤ proposerTimeout)
    {table : Table Nat ProposerInstance}
    (keyed : table.All fun key inst => inst.iid = key)
    (names : ∀ left ∈ table.entries, ∀ right ∈ table.entries,
      toMessage left.2 = toMessage right.2 → left.2.iid = right.2.iid)
    (messages : (table.entries.filter fun entry =>
        due proposerTimeout now entry.2).map
          (fun entry => toMessage entry.2) =
      (table.entries.filter fun entry =>
        decide (Overdue proposerTimeout now entry.2)).map
          (fun entry => toMessage entry.2)) :
    table.All fun _ inst => AgeFits proposerTimeout now inst := by
  have sameEntry : ∀ left ∈ table.entries, ∀ right ∈ table.entries,
      toMessage left.2 = toMessage right.2 → left = right := by
    intro left leftMember right rightMember same
    have leftKey := keyed _ _ (Table.get_eq_some_iff.mpr leftMember)
    have rightKey := keyed _ _ (Table.get_eq_some_iff.mpr rightMember)
    apply List.inj_on_of_nodup_map table.keysNodup leftMember rightMember
    rw [← leftKey, ← rightKey]
    exact names left leftMember right rightMember same
  have transfer : ∀ (p q : Nat × ProposerInstance → Bool),
      (table.entries.filter p).map (fun entry => toMessage entry.2) =
        (table.entries.filter q).map (fun entry => toMessage entry.2) →
      ∀ entry ∈ table.entries, p entry = true → q entry = true := by
    intro p q same entry member holds
    have message : toMessage entry.2 ∈
        (table.entries.filter p).map (fun entry => toMessage entry.2) :=
      List.mem_map.mpr ⟨entry, List.mem_filter.mpr ⟨member, holds⟩, rfl⟩
    rw [same] at message
    obtain ⟨other, selected, isMessage⟩ := List.mem_map.mp message
    obtain ⟨otherMember, otherHolds⟩ := List.mem_filter.mp selected
    rw [← sameEntry other otherMember entry member isMessage]
    exact otherHolds
  intro key inst present
  have member := Table.get_eq_some_iff.mp present
  rw [ageFits_iff positive, Bool.eq_iff_iff]
  constructor
  · exact transfer _ _ messages (key, inst) member
  · exact transfer _ _ messages.symm (key, inst) member

end Tables

end Exact

/-! ### Accepts that were sent before -/

/-- The accept of every pending instance has been sent. -/
theorem pending_was_sent {id acceptors : Nat}
    {past : List ProposerTransition} {p : Proposer}
    (trace : Trace proposerStep (proposerNew id acceptors) past p) :
    p.Instances (fun _ _ => True) fun _ inst =>
      ∃ current ∈ past, ∃ out, current.output.sent = some (.accept out) ∧
        instanceToAccept p.id inst = some out := by
  induction trace with
  | nil => exact proposerNew_instances id acceptors _ _
  | @snoc past source target op result trace stepEq inductionHypothesis =>
      have outcome := proposerStep_outcome (proposer_trace_keyed trace).1 stepEq
      rw [outcome.id_eq.1]
      have before : source.Instances (fun _ _ => True) fun _ inst =>
          ∃ current ∈ past ++ [⟨source, op, result, target⟩], ∃ out,
            current.output.sent = some (.accept out) ∧
              instanceToAccept source.id inst = some out := by
        refine ⟨inductionHypothesis.prepare, ?_⟩
        intro key inst present
        obtain ⟨current, member, out, sent, toAccept⟩ :=
          inductionHypothesis.accept key inst present
        exact ⟨current, List.mem_append_left _ member, out, sent, toAccept⟩
      apply outcome.instances before
      constructor
      · intro _ _ _
        trivial
      · intro _ _ _ _ _ _ _ _ _ _
        trivial
      · intro inst valued values out sent _ _ _ toAccept
        exact ⟨_, List.mem_append_right past (List.mem_singleton_self _), out,
          sent, toAccept⟩
      · intro _ _ _ _ _ _ held _ _ _ _ _
        exact held
      · intro _ _ _ _ _ _ _
        trivial
      · intro _ _ _ _
        trivial
      · intro _ _ _ held
        exact held

/-- A message is an accept with the instance and the ballot of another. -/
def isAcceptFor (accept : PaxosAccept) : Option PaxosMessage → Bool
  | some (.accept other) =>
      decide (other.iid = accept.iid ∧ other.ballot = accept.ballot)
  | _ => false

theorem isAcceptFor_eq_true {accept : PaxosAccept}
    {sent : Option PaxosMessage} (same : isAcceptFor accept sent = true) :
    ∃ other, sent = some (.accept other) ∧ other.iid = accept.iid ∧
      other.ballot = accept.ballot := by
  unfold isAcceptFor at same
  split at same
  · next other => exact ⟨other, rfl, of_decide_eq_true same⟩
  · cases same

/-- An accept that has been sent is the first for its instance and ballot. -/
theorem firstSent_of_mem {id acceptors : Nat}
    (small : id < maxNOfProposers) {past : List ProposerTransition}
    {p : Proposer}
    (trace : Trace (guarded proposerStep Fitting) (proposerNew id acceptors)
      past p)
    {current : ProposerTransition} (member : current ∈ past)
    {accept : PaxosAccept}
    (sent : current.output.sent = some (.accept accept)) :
    FirstSent past accept := by
  have some_first : ∃ first, past.find? (fun step =>
      isAcceptFor accept step.output.sent) = some first := by
    rw [← Option.isSome_iff_exists, List.find?_isSome]
    refine ⟨current, member, ?_⟩
    rw [sent]
    exact decide_eq_true ⟨rfl, rfl⟩
  obtain ⟨first, found⟩ := some_first
  obtain ⟨isFirst, before, after, split, none_before⟩ :=
    List.find?_eq_some_iff_append.mp found
  obtain ⟨other, otherSent, sameIid, sameNumber⟩ := isAcceptFor_eq_true isFirst
  have firstMember : first ∈ past := by
    rw [split]
    exact List.mem_append_right before List.mem_cons_self
  have same := sent_accept_unique small trace firstMember member otherSent sent
    sameIid sameNumber
  refine ⟨before, first, after, split, same ▸ otherSent, ?_⟩
  intro earlier earlierMember another anotherSent agrees
  have excluded := none_before earlier earlierMember
  rw [anotherSent, isAcceptFor, decide_eq_true agrees] at excluded
  cases excluded

/-- When no age is misjudged, an iteration sends exactly what is overdue. -/
theorem yieldsTimeouts_of_ageFits {past : List ProposerTransition}
    {p : Proposer} {proposerTimeout now : Int} (drainable : p.Drainable)
    (firstSent : ∀ key inst, p.acceptInstances.get key = some inst →
      ∀ accept, instanceToAccept p.id inst = some accept →
        FirstSent past accept)
    (positive : 1 ≤ proposerTimeout)
    (ages : p.Instances (fun _ inst => AgeFits proposerTimeout now inst)
      (fun _ inst => AgeFits proposerTimeout now inst)) :
    YieldsTimeouts past proposerTimeout now p := by
  obtain ⟨accepts, drained, messages⟩ :=
    drainTimeouts_eq drainable positive now (Nat.lt_succ_self _)
  have after : p.stamped proposerTimeout now = { p with
      prepareInstances :=
        p.prepareInstances.mapValues (restarted proposerTimeout now)
      acceptInstances :=
        p.acceptInstances.mapValues (restarted proposerTimeout now) } := by
    rw [Proposer.stamped, mapValues_stamped positive ages.prepare,
      mapValues_stamped positive ages.accept]
  refine ⟨_, _, accepts, _, drained, ?_, ?_, ?_, after,
    drainTimeouts_stamped drainable positive now⟩
  · rw [filter_due positive ages.prepare]
  · rw [messages, filter_due positive ages.accept]
  · intro accept member
    have message : some accept ∈ accepts.map some :=
      List.mem_map.mpr ⟨accept, member, rfl⟩
    rw [messages] at message
    obtain ⟨entry, selected, toAccept⟩ := List.mem_map.mp message
    exact firstSent entry.1 entry.2
      (Table.get_eq_some_iff.mpr (List.mem_filter.mp selected).1) accept
      toAccept

/-- When an iteration sends exactly what is overdue, no age is misjudged. -/
theorem ageFits_of_yieldsTimeouts {past : List ProposerTransition}
    {p : Proposer} {proposerTimeout now : Int} (drainable : p.Drainable)
    (positive : 1 ≤ proposerTimeout)
    (yields : YieldsTimeouts past proposerTimeout now p) :
    p.Instances (fun _ inst => AgeFits proposerTimeout now inst)
      (fun _ inst => AgeFits proposerTimeout now inst) := by
  obtain ⟨fuel, prepares, accepts, after, drained, prepareMessages,
    acceptMessages, _⟩ := yields
  obtain ⟨others, exact, otherMessages⟩ :=
    drainTimeouts_eq drainable positive now (Nat.lt_succ_self _)
  have same := drainTimeouts_unique drained exact
  rw [Prod.mk.injEq, Prod.mk.injEq] at same
  obtain ⟨samePrepares, sameAccepts, _⟩ := same
  constructor
  · apply ageFits_of_messages (instanceToPrepare p.id) positive
      drainable.keyed.prepare
    · intro left _ right _ same
      exact congrArg PaxosPrepare.iid same
    · rw [← samePrepares, prepareMessages]
  · apply ageFits_of_messages (instanceToAccept p.id) positive
      drainable.keyed.accept
    · intro left leftMember right rightMember same
      obtain ⟨out, toAccept⟩ := drainable.valued _ _
        (Table.get_eq_some_iff.mpr leftMember)
      rw [← (instanceToAccept_eq_some toAccept).2.1,
        ← (instanceToAccept_eq_some (same.symm.trans toAccept)).2.1]
    · rw [← otherMessages, ← sameAccepts, acceptMessages]

/-- In every run without overflow, whatever the timeout and the clock: an
iteration sends exactly what is overdue, once, exactly when no instance without
a quorum has an age that the `int` of its difference misjudges; ages within the
range of an `int` are never misjudged. -/
theorem timeouts_yielded_iff {id acceptors : Nat}
    (small : id < maxNOfProposers) {past : List ProposerTransition}
    {p : Proposer}
    (trace : Trace proposerStep (proposerNew id acceptors) past p)
    (fits : ∀ current ∈ past, current.source.fits current.input = true)
    {proposerTimeout : Int} (positive : 1 ≤ proposerTimeout) (now : Int) :
    (YieldsTimeouts past proposerTimeout now p ↔
      p.Instances (fun _ inst => AgeFits proposerTimeout now inst)
        (fun _ inst => AgeFits proposerTimeout now inst)) ∧
    (p.Instances
        (fun _ inst => -2 ^ 31 ≤ now - inst.createdAt ∧
          now - inst.createdAt < 2 ^ 31)
        (fun _ inst => -2 ^ 31 ≤ now - inst.createdAt ∧
          now - inst.createdAt < 2 ^ 31) →
      YieldsTimeouts past proposerTimeout now p) := by
  have sent := (pending_was_sent trace).accept
  have drainable : p.Drainable := by
    refine ⟨(proposer_trace_keyed trace).1, ?_⟩
    intro key inst present
    obtain ⟨_, _, out, _, toAccept⟩ := sent key inst present
    exact ⟨out, toAccept⟩
  have firstSent : ∀ key inst, p.acceptInstances.get key = some inst →
      ∀ accept, instanceToAccept p.id inst = some accept →
        FirstSent past accept := by
    intro key inst present accept toAccept
    obtain ⟨current, isStep, out, isSent, isAccept⟩ := sent key inst present
    rw [toAccept] at isAccept
    cases isAccept
    exact firstSent_of_mem small (trace.guarded fits) isStep isSent
  have yields := @yieldsTimeouts_of_ageFits past p proposerTimeout now
    drainable firstSent positive
  refine ⟨⟨ageFits_of_yieldsTimeouts drainable positive, yields⟩, ?_⟩
  intro small
  apply yields
  constructor
  · intro key inst present
    exact ageFits_of_small positive (small.prepare key inst present).1
      (small.prepare key inst present).2
  · intro key inst present
    exact ageFits_of_small positive (small.accept key inst present).1
      (small.accept key inst present).2

/-- A value is pending since time 0, and another instance waits since time 2. -/
def pendingSince : List ProposerOp :=
  [.propose ⟨[7]⟩, .prepare 0,
    .receivePromise (fun _ => 0)
      ⟨3, 1, 1003, 1003, 1, [0], PaxosValue.empty, [PaxosValue.empty],
        [1003], [1003]⟩,
    .accept, .prepare 2]

/-- At time 3, both are sent again. -/
theorem timeouts_yielded_at_three :
    ∃ past p, Trace proposerStep (proposerNew 3 1) past p ∧
      past.map Transition.input = pendingSince ∧
      YieldsTimeouts past 1 3 p := by
  have trace :=
    trace_of_runFrom proposerStep (proposerNew 3 1) pendingSince rfl
  refine ⟨_, _, trace, rfl, ?_⟩
  refine (timeouts_yielded_iff (by decide) trace ?_ (by decide) 3).2 ?_
  · intro current member
    simp only [List.mem_cons, List.not_mem_nil, or_false] at member
    rcases member with rfl | rfl | rfl | rfl | rfl
    · rfl
    · rfl
    · rfl
    · rfl
    · rfl
  · constructor
    · apply Table.All.of_entries
      decide +kernel
    · apply Table.All.of_entries
      decide +kernel

/-- An instance that waits since time 0 is not sent again at time `2 ^ 31`. -/
theorem timeouts_unyielded_after_int :
    ∃ past p, Trace proposerStep (proposerNew 3 1) past p ∧
      ¬ YieldsTimeouts past 1 (2 ^ 31) p := by
  have trace :=
    trace_of_runFrom proposerStep (proposerNew 3 1) [.prepare 0] rfl
  refine ⟨_, _, trace, ?_⟩
  rintro ⟨fuel, prepares, accepts, after, drained, isPrepares, _⟩
  cases fuel with
  | zero => cases drained
  | succ fuel =>
      have nothing := congrArg (Option.map Prod.fst) drained
      rw [isPrepares] at nothing
      cases nothing

end LibPaxos
