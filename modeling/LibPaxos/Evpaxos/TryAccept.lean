import LibPaxos.Evpaxos.Evproposer
import Mathlib.Data.List.Sort

/-!
# Draining and refilling the prepared instances

What `try_accept` does to the table of waiting instances.  In the order of their
ids, it accepts instances for as long as the next one has its promises and a
value to send; instances without a client value take the queued values in
order.  Then it opens new instances, with higher ids, until the window is full,
unless no value is queued.
-/

namespace LibPaxos

open LibPaxos.Library

/-- The queued value left for an instance without a client value, after the
instances before it have taken theirs. -/
def queuedFor (queue : List PaxosValue) (before : List ProposerInstance) :
    Option PaxosValue :=
  queue[(before.filter fun inst => inst.value.isNone).length]?

/-- The value to send for an instance at its turn: the promised one, else its
own, else the next queued one. -/
def valueAtTurn (queue : List PaxosValue) (before : List ProposerInstance)
    (inst : ProposerInstance) : Option PaxosValue :=
  inst.promisedValue.or (inst.value.or (queuedFor queue before))

/-- The accepts are those of the instances of `run`, which have reached a quorum
and have a value at their turn; the first instance of `rest`, if there is one,
has not. -/
structure LongestRun (id : Nat) (queue : List PaxosValue)
    (run rest : List ProposerInstance) (accepts : List PaxosAccept) :
    Prop where
  length_eq : accepts.length = run.length
  taken : ∀ before inst after, run = before ++ inst :: after →
    quorumReached inst.quorum = true ∧
    ∃ value, valueAtTurn queue before inst = some value ∧
      accepts[before.length]? = some ⟨id, inst.iid, inst.ballot, value⟩
  stops : ∀ inst after, rest = inst :: after →
    quorumReached inst.quorum = false ∨ valueAtTurn queue run inst = none

/-- The queue after an instance has taken its value. -/
def queueAfter (queue : List PaxosValue) (inst : ProposerInstance) :
    List PaxosValue :=
  if inst.value.isNone then queue.tail else queue

theorem queuedFor_nil (queue : List PaxosValue) :
    queuedFor queue [] = queue.head? :=
  List.head?_eq_getElem?.symm

theorem queuedFor_cons
    (queue : List PaxosValue) (inst : ProposerInstance)
    (before : List ProposerInstance) :
    queuedFor queue (inst :: before) =
      queuedFor (queueAfter queue inst) before := by
  unfold queuedFor queueAfter
  cases value : inst.value with
  | none => simp [value]
  | some own => simp [value]

namespace LongestRun

variable {id : Nat} {queue : List PaxosValue} {run rest : List ProposerInstance}
variable {accepts : List PaxosAccept}

theorem nil : LongestRun id queue [] [] [] where
  length_eq := rfl
  taken := by simp
  stops := by simp

/-- Nothing is taken when the first instance is not ready. -/
theorem stop
    {inst : ProposerInstance}
    (missing : quorumReached inst.quorum = false ∨
      valueAtTurn queue [] inst = none) :
    LongestRun id queue [] (inst :: rest) [] where
  length_eq := rfl
  taken := by simp
  stops := by
    intro first after same
    cases same
    exact missing

/-- One more instance at the front. -/
theorem cons
    {inst : ProposerInstance} {value : PaxosValue}
    (reached : quorumReached inst.quorum = true)
    (valued : valueAtTurn queue [] inst = some value)
    (longest : LongestRun id (queueAfter queue inst) run rest accepts) :
    LongestRun id queue (inst :: run) rest
      (⟨id, inst.iid, inst.ballot, value⟩ :: accepts) where
  length_eq := congrArg Nat.succ longest.length_eq
  taken := by
    intro before other after shape
    cases before with
    | nil =>
        cases shape
        exact ⟨reached, value, valued, rfl⟩
    | cons first front =>
        rw [List.cons_append, List.cons.injEq] at shape
        obtain ⟨rfl, shape⟩ := shape
        obtain ⟨otherReached, other, otherValued, found⟩ :=
          longest.taken front _ after shape
        refine ⟨otherReached, other, ?_, found⟩
        rw [valueAtTurn, queuedFor_cons]
        exact otherValued
  stops := by
    intro other after shape
    rcases longest.stops other after shape with missing | starved
    · exact Or.inl missing
    · apply Or.inr
      rw [valueAtTurn, queuedFor_cons]
      exact starved

/-- The accepts have the ids of the instances, in their order. -/
theorem iids (longest : LongestRun id queue run rest accepts) :
    accepts.map PaxosAccept.iid = run.map ProposerInstance.iid := by
  apply List.ext_getElem?
  intro index
  rw [List.getElem?_map, List.getElem?_map]
  cases found : run[index]? with
  | none =>
      rw [List.getElem?_eq_none_iff, ← longest.length_eq,
        ← List.getElem?_eq_none_iff] at found
      rw [found]
      rfl
  | some inst =>
      obtain ⟨bound, rfl⟩ := List.getElem?_eq_some_iff.mp found
      obtain ⟨_, value, _, accepted⟩ := longest.taken (run.take index) _
        (run.drop (index + 1)) (by
          rw [List.getElem_cons_drop bound, List.take_append_drop])
      rw [List.length_take_of_le bound.le] at accepted
      rw [accepted]
      rfl

end LongestRun

/-- The waiting instances of a proposer, listed in the order of their ids. -/
structure Proposer.InOrder (p : Proposer) (insts : List ProposerInstance) :
    Prop where
  sorted : insts.Pairwise fun first second => first.iid < second.iid
  perm : (p.prepareInstances.entries.map Prod.snd).Perm insts

section Order

variable {p : Proposer} {insts rest : List ProposerInstance}

theorem Proposer.Keyed.map_iid
    (keyed : p.Keyed) :
    (p.prepareInstances.entries.map Prod.snd).map ProposerInstance.iid =
      p.prepareInstances.entries.map Prod.fst := by
  rw [List.map_map]
  apply List.map_congr_left
  intro entry member
  exact keyed.prepare entry.1 entry.2 (Table.get_eq_some_iff.mpr member)

/-- The waiting instances can be listed in the order of their ids. -/
theorem Proposer.Keyed.exists_inOrder
    (keyed : p.Keyed) :
    ∃ insts, p.InOrder insts := by
  let sort := (p.prepareInstances.entries.map Prod.snd).mergeSort
    fun first second => decide (first.iid ≤ second.iid)
  have perm : sort.Perm (p.prepareInstances.entries.map Prod.snd) :=
    List.mergeSort_perm _ _
  have sorted : sort.Pairwise fun first second => first.iid ≤ second.iid := by
    have ordered : sort.Pairwise fun first second =>
        decide (first.iid ≤ second.iid) = true := by
      apply List.pairwise_mergeSort
      · intro first second third
        simp only [decide_eq_true_eq]
        omega
      · intro first second
        simp only [Bool.or_eq_true, decide_eq_true_eq]
        omega
    exact ordered.imp fun {first second} lower => of_decide_eq_true lower
  have nodup : (sort.map ProposerInstance.iid).Nodup := by
    rw [(perm.map ProposerInstance.iid).nodup_iff, keyed.map_iid]
    exact p.prepareInstances.keysNodup
  have different : sort.Pairwise fun first second =>
      first.iid ≠ second.iid :=
    List.pairwise_map.mp nodup
  refine ⟨sort, sorted.imp₂ ?_ different, perm.symm⟩
  intro first second lower other
  exact lt_of_le_of_ne lower other

theorem Proposer.InOrder.mem_iff
    (order : p.InOrder insts) (keyed : p.Keyed) (inst : ProposerInstance) :
    inst ∈ insts ↔ p.prepareInstances.get inst.iid = some inst := by
  rw [← order.perm.mem_iff, List.mem_map, Table.get_eq_some_iff]
  constructor
  · rintro ⟨entry, member, rfl⟩
    rw [← Table.get_eq_some_iff]
    exact keyed.prepare_mem member
  · intro member
    exact ⟨_, member, rfl⟩

theorem Proposer.InOrder.size_eq (order : p.InOrder insts) :
    p.prepareInstances.size = insts.length := by
  rw [← order.perm.length_eq, List.length_map]
  rfl

/-- The search for the smallest id passes over no smaller one. -/
theorem smallest_fold_le
    (entries : List (Nat × ProposerInstance)) :
    ∀ (start : Option ProposerInstance),
      (entries ≠ [] ∨ start ≠ none) →
      ∃ inst, entries.foldl
          (fun found entry =>
            match found with
            | none => some entry.2
            | some inst =>
                if entry.2.iid < inst.iid then some entry.2 else some inst)
          start = some inst ∧
        (∀ first, start = some first → inst.iid ≤ first.iid) ∧
        ∀ entry ∈ entries, inst.iid ≤ entry.2.iid := by
  induction entries with
  | nil =>
      intro start nonempty
      cases start with
      | none => simp at nonempty
      | some inst => exact ⟨inst, rfl, by simp, by simp⟩
  | cons entry others inductionHypothesis =>
      intro start _
      rw [List.foldl_cons]
      cases start with
      | none =>
          obtain ⟨inst, found, first, least⟩ :=
            inductionHypothesis (some entry.2) (Or.inr nofun)
          refine ⟨inst, found, nofun, ?_⟩
          rw [List.forall_mem_cons]
          exact ⟨first entry.2 rfl, least⟩
      | some old =>
          by_cases smaller : entry.2.iid < old.iid
          · obtain ⟨inst, found, first, least⟩ :=
              inductionHypothesis (some entry.2) (Or.inr nofun)
            have lower := first entry.2 rfl
            refine ⟨inst, by simpa [smaller] using found, ?_, ?_⟩
            · intro first same
              cases same
              omega
            · rw [List.forall_mem_cons]
              exact ⟨lower, least⟩
          · obtain ⟨inst, found, first, least⟩ :=
              inductionHypothesis (some old) (Or.inr nofun)
            have lower := first old rfl
            refine ⟨inst, by simpa [smaller] using found, ?_, ?_⟩
            · intro first same
              cases same
              exact lower
            · rw [List.forall_mem_cons]
              exact ⟨by omega, least⟩

theorem Proposer.InOrder.smallest_nil
    (order : p.InOrder []) :
    smallestInstance p.prepareInstances = none := by
  have empty := List.map_eq_nil_iff.mp (List.perm_nil.mp order.perm)
  unfold smallestInstance
  rw [empty]
  rfl

theorem Proposer.InOrder.smallest_cons
    {inst : ProposerInstance} (order : p.InOrder (inst :: rest)) :
    smallestInstance p.prepareInstances = some inst := by
  have member : inst ∈ p.prepareInstances.entries.map Prod.snd :=
    order.perm.mem_iff.mpr (List.mem_cons_self ..)
  obtain ⟨entry, inside, rfl⟩ := List.mem_map.mp member
  obtain ⟨found, isFound, _, least⟩ :=
    smallest_fold_le p.prepareInstances.entries none
      (Or.inl (List.ne_nil_of_mem inside))
  have result : smallestInstance p.prepareInstances = some found := isFound
  obtain ⟨key, foundMember⟩ := smallestInstance_mem result
  have listed : found ∈ entry.2 :: rest :=
    order.perm.mem_iff.mp (List.mem_map.mpr ⟨_, foundMember, rfl⟩)
  have low := least entry inside
  rcases List.mem_cons.mp listed with rfl | later
  · exact result
  · have high := List.rel_of_pairwise_cons order.sorted later
    omega

/-- The others stay in order when the first instance is removed. -/
theorem Proposer.InOrder.tail
    {inst : ProposerInstance} {after : Proposer}
    (order : p.InOrder (inst :: rest)) (keyed : p.Keyed)
    (erased : after.prepareInstances = p.prepareInstances.erase inst.iid) :
    after.InOrder rest := by
  refine ⟨order.sorted.tail, ?_⟩
  have present := (order.mem_iff keyed inst).mp (List.mem_cons_self ..)
  have moved := (Table.entries_perm_erase present).map Prod.snd
  rw [erased]
  exact List.Perm.cons_inv (moved.symm.trans order.perm)

end Order

/-- What `takeValue` does in terms of the queued values. -/
theorem takeValue_queue (values : Queue PaxosValue) (inst : ProposerInstance) :
    (takeValue values inst).1.contents = queueAfter values.contents inst ∧
      (takeValue values inst).2 =
        { inst with value := inst.value.or values.contents.head? } := by
  unfold takeValue queueAfter
  cases held : inst.value with
  | none =>
      refine ⟨values.contents_popFront, ?_⟩
      simp only [values.popFront_fst, Option.none_or]
  | some own =>
      refine ⟨rfl, ?_⟩
      cases inst
      simp only at held
      subst held
      rfl

section Loop

variable {p : Proposer} {inst : ProposerInstance} {rest : List ProposerInstance}

/-- Nothing is accepted when the first instance is not ready. -/
theorem proposerAccept_stop
    (order : p.InOrder (inst :: rest)) (keyed : p.Keyed)
    (missing : quorumReached inst.quorum = false ∨
      valueAtTurn p.values.contents [] inst = none) :
    proposerAccept p = some (none, p) := by
  have present := (order.mem_iff keyed inst).mp (List.mem_cons_self ..)
  unfold proposerAccept
  simp only [order.smallest_cons]
  split
  · rfl
  · next reached =>
      have starved := missing.resolve_left reached
      rw [valueAtTurn, queuedFor_nil, Option.or_eq_none_iff] at starved
      obtain ⟨unpromised, unvalued⟩ := starved
      cases took : takeValue p.values inst with
      | mk values valued =>
          have shape := (takeValue_queue p.values inst).2
          rw [took, unvalued] at shape
          have nothing : valued.value = none :=
            congrArg ProposerInstance.value shape
          obtain ⟨rfl, rfl⟩ := (takeValue_eq took).2 nothing
          rw [if_pos ⟨nothing, unpromised⟩, Table.set_eq_self present]

/-- The first instance is accepted when it is ready. -/
theorem proposerAccept_ready
    {value : PaxosValue} (order : p.InOrder (inst :: rest)) (keyed : p.Keyed)
    (tabled : p.Tabled) (reached : quorumReached inst.quorum = true)
    (valued : valueAtTurn p.values.contents [] inst = some value) :
    ∃ after,
      proposerAccept p =
        some (some ⟨p.id, inst.iid, inst.ballot, value⟩, after) ∧
      after.id = p.id ∧ after.nextPrepareIid = p.nextPrepareIid ∧
      after.values.contents = queueAfter p.values.contents inst ∧
      after.InOrder rest := by
  have present := (order.mem_iff keyed inst).mp (List.mem_cons_self ..)
  rw [valueAtTurn, queuedFor_nil] at valued
  have queue := takeValue_queue p.values inst
  cases took : takeValue p.values inst with
  | mk values chosen =>
      rw [took] at queue
      obtain ⟨contents, shape⟩ := queue
      simp only at contents shape
      have sameIid : chosen.iid = inst.iid := by rw [shape]
      have set := Table.get_set_self chosen present
      have absent := tabled.disjoint.accept_none present
      rw [← sameIid] at set absent
      obtain ⟨table, inserted⟩ := Table.exists_insertNew absent
        { chosen with quorum := quorumClear chosen.quorum }
      have toSend : chosen.promisedValue.or chosen.value = some value := by
        rw [shape]
        exact valued
      have something : ¬ (chosen.value = none ∧ chosen.promisedValue = none) := by
        rintro ⟨noValue, noPromise⟩
        rw [noValue, noPromise] at toSend
        cases toSend
      refine ⟨{ p with
        values := values
        prepareInstances := p.prepareInstances.erase inst.iid
        acceptInstances := table }, ?_, rfl, rfl, contents, ?_⟩
      · unfold proposerAccept
        simp only [order.smallest_cons, reached, Bool.true_eq_false, if_false,
          took, if_neg something, proposerMoveInstance, set, inserted,
          Option.map_some, instanceToAccept, toSend]
        rw [sameIid, Table.erase_set, show chosen.ballot = inst.ballot by
          rw [shape]]
      · exact order.tail keyed rfl

/-- One accept keeps the tables in order. -/
theorem proposerAccept_tabled
    {after : Proposer} {out : Option PaxosAccept} (keyed : p.Keyed)
    (tabled : p.Tabled) (ran : proposerAccept p = some (out, after)) :
    after.Keyed ∧ after.Tabled := by
  have outcome := proposerAccept_outcome keyed ran
  exact ⟨outcome.keyed keyed, outcome.tabled tabled nofun⟩

end Loop

/-- The loop of `try_accept` stops after at most one round more than there are
waiting instances, and accepts the longest run that is ready. -/
theorem acceptLoop_longest
    (insts : List ProposerInstance) :
    ∀ {p : Proposer}, p.Keyed → p.Tabled → p.InOrder insts →
      ∃ (accepts : List PaxosAccept) (after : Proposer)
          (run rest : List ProposerInstance),
        (∀ rounds, insts.length < rounds →
          acceptLoop rounds p = some (accepts, after)) ∧
        insts = run ++ rest ∧
        LongestRun p.id p.values.contents run rest accepts ∧
        after.Keyed ∧ after.Tabled ∧
        after.nextPrepareIid = p.nextPrepareIid := by
  induction insts with
  | nil =>
      intro p keyed tabled order
      have stopped : proposerAccept p = some (none, p) := by
        unfold proposerAccept
        simp only [order.smallest_nil]
      refine ⟨[], p, [], [], ?_, rfl, .nil, keyed, tabled, rfl⟩
      intro rounds enough
      cases rounds with
      | zero => exact absurd enough (Nat.lt_irrefl 0)
      | succ rounds => simp only [acceptLoop, stopped]
  | cons inst others inductionHypothesis =>
      intro p keyed tabled order
      by_cases missing : quorumReached inst.quorum = false ∨
          valueAtTurn p.values.contents [] inst = none
      · have stopped := proposerAccept_stop order keyed missing
        refine ⟨[], p, [], inst :: others, ?_, rfl, .stop missing, keyed,
          tabled, rfl⟩
        intro rounds enough
        cases rounds with
        | zero => exact absurd enough (Nat.not_lt_zero _)
        | succ rounds => simp only [acceptLoop, stopped]
      · rw [not_or, Bool.not_eq_false] at missing
        obtain ⟨reached, available⟩ := missing
        obtain ⟨value, valued⟩ := Option.ne_none_iff_exists'.mp available
        obtain ⟨next, accepted, sameId, sameNext, queue, nextOrder⟩ :=
          proposerAccept_ready order keyed tabled reached valued
        obtain ⟨nextKeyed, nextTabled⟩ :=
          proposerAccept_tabled keyed tabled accepted
        obtain ⟨accepts, after, run, rest, looped, rfl, longest, afterKeyed,
          afterTabled, afterNext⟩ :=
          inductionHypothesis nextKeyed nextTabled nextOrder
        rw [sameId, queue] at longest
        refine ⟨_, after, inst :: run, rest, ?_, rfl,
          longest.cons reached valued, afterKeyed, afterTabled,
          afterNext.trans sameNext⟩
        intro rounds enough
        cases rounds with
        | zero => exact absurd enough (Nat.not_lt_zero _)
        | succ rounds =>
            have looped := looped rounds (Nat.lt_of_succ_lt_succ enough)
            simp only [acceptLoop, accepted, looped, Option.map_some]

/-- A prepare opens the next instance. -/
theorem proposerPrepare_opens
    {p : Proposer} (tabled : p.Tabled)
    (fresh : p.freshIid = p.nextPrepareIid + 1) (now : Int) :
    ∃ table,
      p.prepareInstances.insertNew p.freshIid (p.freshInstance now) =
        some table ∧
      proposerPrepare now p =
        some (⟨p.id, p.freshIid, proposerNextBallot p.id 0⟩,
          { p with nextPrepareIid := p.freshIid, prepareInstances := table }) := by
  have absent : p.prepareInstances.get p.freshIid = none := by
    cases found : p.prepareInstances.get p.freshIid with
    | none => rfl
    | some inst =>
        have bound := tabled.bounded.prepare _ _ found
        omega
  obtain ⟨table, inserted⟩ :=
    Table.exists_insertNew absent (p.freshInstance now)
  refine ⟨table, inserted, ?_⟩
  have positive : 0 < word32 (p.nextPrepareIid + 1) := by
    rw [show word32 (p.nextPrepareIid + 1) = p.freshIid from rfl, fresh]
    exact Nat.succ_pos _
  simp only [proposerPrepare, instanceNew, if_pos positive]
  exact congrArg (Option.map _) inserted

/-- The refill opens as many instances as it is asked for, with the next ids. -/
theorem preexecuteLoop_opens
    {now : Nat → Int} (count : Nat) :
    ∀ (i : Nat) {p : Proposer}, p.Keyed → p.Tabled →
      p.nextPrepareIid + count < 2 ^ 32 →
      ∃ prepares after,
        preexecuteLoop now i count p = some (prepares, after) ∧
        prepares.map PaxosPrepare.iid =
          List.range' (p.nextPrepareIid + 1) count ∧
        after.prepareInstances.size = p.prepareInstances.size + count ∧
        after.values = p.values := by
  induction count with
  | zero =>
      intro i p _ _ _
      exact ⟨[], p, rfl, rfl, rfl, rfl⟩
  | succ count inductionHypothesis =>
      intro i p keyed tabled room
      have fresh : p.freshIid = p.nextPrepareIid + 1 :=
        word32_of_lt (by omega)
      obtain ⟨table, inserted, prepared⟩ :=
        proposerPrepare_opens tabled fresh (now i)
      have outcome := proposerPrepare_outcome prepared
      have nextKeyed := outcome.keyed keyed
      have nextTabled := outcome.tabled tabled (fun _ _ => fresh)
      obtain ⟨prepares, after, looped, iids, size, values⟩ :=
        inductionHypothesis (i + 1) nextKeyed nextTabled (by
          change p.freshIid + count < 2 ^ 32
          omega)
      refine ⟨⟨p.id, p.freshIid, proposerNextBallot p.id 0⟩ :: prepares, after,
        ?_, ?_, ?_, values⟩
      · simp only [preexecuteLoop, prepared, looped, Option.map_some]
      · rw [List.map_cons, iids, List.range'_succ]
        change p.freshIid :: List.range' (p.freshIid + 1) count = _
        rw [fresh]
      · have grown := (Table.insertNew_eq_some_iff.mp inserted).2
        rw [size]
        change table.entries.length + count =
          p.prepareInstances.entries.length + (count + 1)
        rw [grown, List.length_append, List.length_singleton]
        omega

/-- After the refill, no value is queued or the window is full. -/
theorem proposerPreexecute_refills
    (now : Nat → Int) {window : Int} {p : Proposer} (keyed : p.Keyed)
    (tabled : p.Tabled) (room : p.nextPrepareIid + window.toNat < 2 ^ 32) :
    ∃ prepares after count,
      proposerPreexecute now window p = some (prepares, after) ∧
      prepares.map PaxosPrepare.iid =
        List.range' (p.nextPrepareIid + 1) count ∧
      (after.values.contents = [] ∨
        window ≤ proposerPreparedCount after) := by
  unfold proposerPreexecute
  by_cases empty : proposerNoValues p = true
  · refine ⟨[], p, 0, by rw [if_pos empty], rfl, Or.inl ?_⟩
    have noneLeft : p.values.val.count = 0 := by
      simpa [proposerNoValues, carrayEmpty] using empty
    apply List.eq_nil_of_length_eq_zero
    rw [← noneLeft]
    exact p.values.property.length_contents
  · rw [if_neg empty]
    by_cases full : window - proposerPreparedCount p ≤ 0
    · refine ⟨[], p, 0, by simp only [if_pos full], rfl, Or.inr ?_⟩
      omega
    · simp only [if_neg full]
      obtain ⟨prepares, after, looped, iids, size, _⟩ :=
        preexecuteLoop_opens
          (window - proposerPreparedCount p).toNat 0 keyed tabled (by omega)
      refine ⟨prepares, after, _, looped, iids, Or.inr ?_⟩
      unfold proposerPreparedCount at full ⊢
      rw [size]
      unfold proposerPreparedCount
      omega

section Run

variable {id acceptors : Nat} {window : Int}
variable {past : List EvProposerTransition} {p : EvProposer}

theorem Proposer.Calls.next_le
    {first last : Proposer} (calls : first.Calls last)
    (started : (proposerNew id acceptors).Calls first) :
    first.nextPrepareIid ≤ last.nextPrepareIid := by
  obtain ⟨future, later, sized⟩ := calls
  induction later with
  | nil => exact Nat.le_refl _
  | snoc earlier stepEq inductionHypothesis =>
      rw [List.forall_mem_append] at sized
      obtain ⟨past, trace, allSized⟩ :=
        started.trans ⟨_, earlier, sized.1⟩
      have keyed := (proposer_trace_keyed trace).1
      have bound := (proposer_trace_trim_le_next trace allSized).2
      have outcome := proposerStep_outcome keyed stepEq
      exact (inductionHypothesis sized.1).trans
        (outcome.next_le ((proposerStep_marks stepEq).opens bound))

theorem Proposer.Calls.tabled
    {state : Proposer} (calls : (proposerNew id acceptors).Calls state) :
    state.Keyed ∧ state.Tabled ∧ state.id = id := by
  obtain ⟨past, trace, sized⟩ := calls
  obtain ⟨keyed, sameId, _⟩ := proposer_trace_keyed trace
  exact ⟨keyed, proposer_trace_tabled_of_iids32 trace sized, sameId⟩

/-- The ids opened in the course of a run are at most the last one. -/
theorem evproposer_trace_next_le
    (trace : Trace evproposerStep (evproposerInitInternal id acceptors window)
      past p)
    (sized : ∀ current ∈ past, current.input.Iids32) :
    ∀ current ∈ past, current.target.state.Tabled ∧
      current.target.state.nextPrepareIid ≤ p.state.nextPrepareIid := by
  induction trace with
  | nil => simp
  | snoc earlier stepEq inductionHypothesis =>
      have tabled :=
        (evproposer_trace_calls (earlier.snoc stepEq) sized).1.tabled.2.1
      rw [List.forall_mem_append, List.forall_mem_singleton] at sized
      rw [List.forall_mem_append, List.forall_mem_singleton]
      refine ⟨?_, tabled, Nat.le_refl _⟩
      have started := (evproposer_trace_calls earlier sized.1).1
      have step := (evproposerStep_advances sized.2 stepEq).calls
      intro current member
      obtain ⟨oldTabled, below⟩ := inductionHypothesis sized.1 current member
      exact ⟨oldTabled, below.trans (step.next_le started)⟩

theorem Proposer.Tabled.key_le
    {state : Proposer} (tabled : state.Tabled) {key : Nat}
    {inst : ProposerInstance}
    (present : state.prepareInstances.get key = some inst ∨
      state.acceptInstances.get key = some inst) :
    key ≤ state.nextPrepareIid := by
  rcases present with waiting | pending
  · exact tabled.bounded.prepare key inst waiting
  · exact tabled.bounded.accept key inst pending

/-- In every reachable state with room for a window of new instances, also in
the middle of a callback, `try_accept` ends.  It sends accepts for the longest
run of waiting instances, in the order of their ids, that have a quorum and a
value at their turn, and then prepares for new instances: either no value is
queued then or the window is full.  New ids are above all ids that the proposer
has had an instance for. -/
theorem try_accept_drains_and_refills
    (trace : Trace evproposerStep (evproposerInitInternal id acceptors window)
      past p)
    (sized : ∀ current ∈ past, current.input.Iids32)
    {state : Proposer} (entered : p.state.Calls state)
    (room : state.nextPrepareIid + window.toNat < 2 ^ 32)
    (now : Nat → Int) :
    ∃ (run rest : List ProposerInstance) (accepts : List PaxosAccept)
        (prepares : List PaxosPrepare) (drained : Proposer)
        (after : EvProposer),
      (∀ rounds, state.prepareInstances.size < rounds →
        acceptLoop rounds state = some (accepts, drained)) ∧
      tryAccept now { p with state := state } =
        some (accepts.map .accept ++ prepares.map .prepare, after) ∧
      (run ++ rest).Pairwise (fun first second => first.iid < second.iid) ∧
      (∀ inst, inst ∈ run ++ rest ↔
        state.prepareInstances.get inst.iid = some inst) ∧
      LongestRun id state.values.contents run rest accepts ∧
      (accepts.map PaxosAccept.iid).Pairwise (· < ·) ∧
      (after.state.values.contents = [] ∨
        window ≤ proposerPreparedCount after.state) ∧
      (prepares.map PaxosPrepare.iid).Pairwise (· < ·) ∧
      ∀ prepare ∈ prepares,
        state.nextPrepareIid < prepare.iid ∧
        (∀ key inst, state.prepareInstances.get key = some inst ∨
          state.acceptInstances.get key = some inst → key < prepare.iid) ∧
        ∀ current ∈ past,
          current.target.state.nextPrepareIid < prepare.iid ∧
          ∀ key inst, current.target.state.prepareInstances.get key = some inst ∨
            current.target.state.acceptInstances.get key = some inst →
            key < prepare.iid := by
  obtain ⟨started, sameWindow⟩ := evproposer_trace_calls trace sized
  have opened := evproposer_trace_next_le trace sized
  have later := entered.next_le started
  obtain ⟨keyed, tabled, sameId⟩ := (started.trans entered).tabled
  obtain ⟨insts, order⟩ := keyed.exists_inOrder
  obtain ⟨accepts, drained, run, rest, looped, rfl, longest, drainedKeyed,
    drainedTabled, sameNext⟩ := acceptLoop_longest insts keyed tabled order
  rw [← sameNext] at room
  obtain ⟨prepares, refilled, count, ran, iids, full⟩ :=
    proposerPreexecute_refills now drainedKeyed drainedTabled room
  rw [sameNext] at iids
  rw [← order.size_eq] at looped
  rw [sameId] at longest
  refine ⟨run, rest, accepts, prepares, drained,
    { p with state := refilled }, looped, ?_, order.sorted,
    order.mem_iff keyed, longest, ?_, full, ?_, ?_⟩
  · unfold tryAccept
    rw [looped _ (Nat.lt_succ_self _)]
    simp only [sameWindow, ran, Option.map_some]
  · rw [longest.iids, List.pairwise_map]
    exact (List.pairwise_append.mp order.sorted).1
  · rw [iids]
    exact List.pairwise_lt_range' 1
  · intro prepare member
    have inside : prepare.iid ∈ prepares.map PaxosPrepare.iid :=
      List.mem_map_of_mem member
    rw [iids, List.mem_range'_1] at inside
    have fresh : state.nextPrepareIid < prepare.iid := inside.1
    refine ⟨fresh, ?_, ?_⟩
    · intro key inst present
      exact (tabled.key_le present).trans_lt fresh
    · intro current earlier
      obtain ⟨oldTabled, below⟩ := opened current earlier
      have older := (below.trans later).trans_lt fresh
      refine ⟨older, ?_⟩
      intro key inst present
      exact (oldTabled.key_le present).trans_lt older

/-- A proposer with a window of two, after its first client value. -/
def servingProposer : EvProposer where
  id := 3
  preexecWindow := 2
  state :=
    { proposerNew 3 1 with
      values := (proposerNew 3 1).values.pushBack ⟨[7]⟩
      nextPrepareIid := 2
      prepareInstances :=
        ⟨[(1, ⟨1, 1003, none, none, 0, quorumInit 1, 0⟩),
          (2, ⟨2, 1003, none, none, 0, quorumInit 1, 0⟩)], by simp⟩ }

/-- The promise for the first of two instances lets it be accepted with the
queued value. -/
theorem try_accept_one_value :
    ∃ (past : List EvProposerTransition) (after : EvProposer)
        (state : Proposer) (sent : List PaxosMessage),
      Trace evproposerStep (evproposerInitInternal 3 1 2) past
        servingProposer ∧
      servingProposer.state.Calls state ∧
      tryAccept (fun _ => 0) { servingProposer with state := state } =
        some (sent, after) ∧
      sent = [.accept ⟨3, 1, 1003, ⟨[7]⟩⟩] ∧
      (after.state.values.contents = [] ∨
        2 ≤ proposerPreparedCount after.state) := by
  have ran : Trace evproposerStep (evproposerInitInternal 3 1 2) _
      servingProposer :=
    trace_of_runFrom evproposerStep (evproposerInitInternal 3 1 2)
      [.handleClientValue (fun _ => 0) ⟨⟨[7]⟩⟩] rfl
  have promised :=
    trace_of_runFrom proposerStep servingProposer.state
      [.receivePromise (fun _ => 0)
        ⟨0, 1, 1003, 0, 1, [0], PaxosValue.empty, [PaxosValue.empty], [1003],
          [0]⟩] rfl
  have entered : servingProposer.state.Calls _ :=
    ⟨_, promised, by
      intro current member
      rw [List.mem_singleton.mp member]
      trivial⟩
  obtain ⟨run, rest, accepts, prepares, drained, after, _, tried, _, _, _, _,
    full, _⟩ :=
    try_accept_drains_and_refills ran
      (by
        intro current member
        rw [List.mem_singleton.mp member]
        trivial)
      entered (by decide) (fun _ => 0)
  refine ⟨_, after, _, _, ran, entered, tried, ?_, by simpa using full⟩
  have computed := congrArg (Option.map Prod.fst) tried
  exact (Option.some.inj computed).symm

end Run

end LibPaxos
