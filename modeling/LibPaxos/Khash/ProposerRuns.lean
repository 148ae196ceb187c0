import LibPaxos.Khash.Proposer
import LibPaxos.Proposer.Steps

/-!
# Runs of the proposer over its hash tables

A call to the proposer over its hash tables returns what the call to
`proposerStep` returns, and leaves tables that differ at most in the order of
their buckets.  So every run over the hash tables is a run of `proposerStep` in
which some calls are followed by a new bucket order.
-/

namespace LibPaxos

open LibPaxos.Library LibPaxos.Library.Buckets

/-- A hash table of instances with the entries of a table. -/
abbrev IsInstances (h : InstanceTable) (table : Table Nat ProposerInstance) :
    Prop :=
  Khash.IsTable khIntHashFunc h table

/-- A bucket with an instance under its id. -/
abbrev AtInstance (h : InstanceTable) (table : Table Nat ProposerInstance)
    (inst : ProposerInstance) (k : Nat) : Prop :=
  Khash.AtBucket khIntHashFunc h table inst.iid inst k

namespace KhProposer

section Tables

variable {h f t : InstanceTable}
  {table source target : Table Nat ProposerInstance}

theorem putNew_none
    (isTable : IsInstances h table) (small : table.size < 2 ^ 30)
    (inst : ProposerInstance) {old : ProposerInstance}
    (present : table.get inst.iid = some old) :
    putNew h inst = none := by
  obtain ⟨ret, k, claimed, after, next, isPut, isSet, _, _, _, isOld⟩ :=
    isTable.put small inst.iid inst
  have zero : ret = 0 := by
    rw [isOld, present]
    rfl
  simp [putNew, isPut, zero]

theorem putNew_some
    (isTable : IsInstances h table) (small : table.size < 2 ^ 30)
    (inst : ProposerInstance) {inserted : Table Nat ProposerInstance}
    (isNew : table.insertNew inst.iid inst = some inserted) :
    ∃ k after next, putNew h inst = some (k, after) ∧
      AtInstance after next inst k ∧
      next.entries.Perm inserted.entries := by
  obtain ⟨absent, shape⟩ := Table.insertNew_eq_some_iff.mp isNew
  obtain ⟨ret, k, claimed, after, next, isPut, isSet, here, perm, positive,
    isOld⟩ := isTable.put small inst.iid inst
  have fresh : ret ≠ 0 := by
    rw [Ne, isOld, absent]
    exact Bool.false_ne_true
  refine ⟨k, after, next, ?_, here, ?_⟩
  · have above : ret > 0 := by omega
    simp [putNew, isPut, above, isSet]
  · rw [shape]
    rw [TableMap.put_entries, TableMap.erase_of_absent absent] at perm
    exact perm.trans (List.perm_append_singleton _ _).symm

theorem moveInstance_none {inst : ProposerInstance}
    (isFrom : IsInstances f source) (isTo : IsInstances t target)
    (small : target.size < 2 ^ 30)
    (fails : proposerMoveInstance source target inst = none) :
    moveInstance f t inst = none := by
  unfold proposerMoveInstance at fails
  cases present : source.get inst.iid with
  | none => simp [moveInstance, isFrom.get_absent present]
  | some old =>
      rw [present, Option.map_eq_none_iff] at fails
      obtain ⟨other, isTaken⟩ := TableMap.present_of_insertNew_none fails
      obtain ⟨k, found, _⟩ := isFrom.get_present present
      have refused := putNew_none isTo small
        { inst with quorum := quorumClear inst.quorum } isTaken
      simp [moveInstance, found, refused]

theorem moveInstance_some {inst : ProposerInstance}
    (isFrom : IsInstances f source) (isTo : IsInstances t target)
    (small : target.size < 2 ^ 30)
    {fromAfter toAfter : Table Nat ProposerInstance}
    (moved :
      proposerMoveInstance source target inst = some (fromAfter, toAfter)) :
    ∃ fAfter k tAfter next, moveInstance f t inst = some (fAfter, k, tAfter) ∧
      IsInstances fAfter fromAfter ∧
      AtInstance tAfter next
        { inst with quorum := quorumClear inst.quorum } k ∧
      next.entries.Perm toAfter.entries := by
  unfold proposerMoveInstance at moved
  cases present : source.get inst.iid with
  | none =>
      rw [present] at moved
      cases moved
  | some old =>
      rw [present, Option.map_eq_some_iff] at moved
      obtain ⟨inserted, isNew, same⟩ := moved
      cases same
      obtain ⟨k, found, here⟩ := isFrom.get_present present
      obtain ⟨fAfter, deleted, kept⟩ := here.del
      obtain ⟨bucket, tAfter, next, isPut, there, perm⟩ :=
        putNew_some isTo small
          { inst with quorum := quorumClear inst.quorum } isNew
      refine ⟨fAfter, bucket, tAfter, next, ?_, kept, there, perm⟩
      simp [moveInstance, found, here.ne_end, deleted, isPut]

/-- What `proposer_trim_instances` gives back and frees. -/
theorem trimEntries_eq_foldl (iid : Nat)
    (entries : List (Nat × ProposerInstance)) :
    ∀ values retired, trimEntries iid entries values retired =
      (entries.filter fun entry => decide (entry.2.iid ≤ iid)).foldl
        (fun freed entry => freeTrimmed freed entry.2) (values, retired) := by
  induction entries with
  | nil =>
      intro values retired
      rfl
  | cons entry rest inductionHypothesis =>
      intro values retired
      obtain ⟨key, inst⟩ := entry
      rw [trimEntries, List.filter_cons]
      by_cases low : inst.iid ≤ iid
      · rw [if_pos low, if_pos (decide_eq_true low), List.foldl_cons,
          freeTrimmed]
        cases inst.value with
        | none => exact inductionHypothesis _ _
        | some v => exact inductionHypothesis _ _
      · rw [if_neg low, if_neg (by simpa using low)]
        exact inductionHypothesis _ _

theorem trimInstances_spec
    (isTable : IsInstances h table) (iid : Nat) (values : Queue PaxosValue)
    (retired : List PaxosValue) :
    ∃ after, trimInstances h iid (values, retired) =
        some (trimEntries iid table.entries values retired, after) ∧
      IsInstances after (trimTable iid table) := by
  obtain ⟨after, ran, kept⟩ := isTable.removeLoop
    (fun inst => decide (inst.iid ≤ iid)) freeTrimmed (values, retired)
  refine ⟨after, ?_, kept⟩
  rw [trimInstances, ran, trimEntries_eq_foldl]

/-! ### Searching the buckets -/

/-- The choice between the instance found and the next one. -/
def smallerOf (found : Option ProposerInstance)
    (entry : Nat × ProposerInstance) : Option ProposerInstance :=
  match found with
  | none => some entry.2
  | some inst => if entry.2.iid < inst.iid then some entry.2 else some inst

/-- What the search for the smallest id has found below a bucket. -/
structure FoundBelow (slots : Nat → Slot Nat ProposerInstance) (n k : Nat)
    (found : Option (Nat × ProposerInstance)) : Prop where
  smallest : found.map Prod.snd = (entries k slots).foldl smallerOf none
  bucket : ∀ i inst, found = some (i, inst) →
    i < n ∧ ∃ key, slots i = .live key inst

theorem smallerInstance_spec
    {slots : Nat → Slot Nat ProposerInstance}
    (represents : Khash.Represents khIntHashFunc h slots) {k : Nat}
    (bound : k < h.nBuckets) {found : Option (Nat × ProposerInstance)}
    (below : FoundBelow slots h.nBuckets k found) :
    ∃ after, smallerInstance h found k = some after ∧
      FoundBelow slots h.nBuckets (k + 1) after := by
  have next : entries (k + 1) slots =
      entries k slots ++ (slots k).entry.toList := collect_succ ..
  have holds := represents.holds k bound
  rw [smallerInstance, represents.exist_eq bound, Option.bind_some]
  have unchanged : (slots k).entry = none →
      FoundBelow slots h.nBuckets (k + 1) found := by
    intro noEntry
    refine ⟨?_, below.bucket⟩
    rw [next, noEntry, Option.toList_none, List.append_nil]
    exact below.smallest
  cases slot : slots k with
  | vacant => exact ⟨found, rfl, unchanged (by rw [slot]; rfl)⟩
  | deleted => exact ⟨found, rfl, unchanged (by rw [slot]; rfl)⟩
  | live key other =>
      have isValue : h.value k = some other := by
        rw [Khash.value, (holds.cells key other slot).2]
        rfl
      have here : k < h.nBuckets ∧ ∃ key, slots k = .live key other :=
        ⟨bound, key, slot⟩
      have smallest := below.smallest
      rw [slot] at next
      simp only [Slot.entry, Option.isSome_some, if_true, isValue,
        Option.map_some, Option.toList_some] at next ⊢
      refine ⟨_, rfl, ?_⟩
      cases found with
      | none =>
          refine ⟨?_, ?_⟩
          · rw [next, List.foldl_append, ← smallest]
            rfl
          · intro i inst same
            cases same
            exact here
      | some pair =>
          obtain ⟨bucket, inst⟩ := pair
          have total : (entries (k + 1) slots).foldl smallerOf none =
              if other.iid < inst.iid then some other else some inst := by
            rw [next, List.foldl_append, ← smallest]
            rfl
          by_cases less : other.iid < inst.iid
          · refine ⟨?_, ?_⟩
            · rw [total]
              simp [less]
            · intro i found same
              simp only [less, if_true, Option.some.injEq,
                Prod.mk.injEq] at same
              rw [← same.1, ← same.2]
              exact here
          · refine ⟨?_, ?_⟩
            · rw [total]
              simp [less]
            · intro i found same
              simp only [less, if_false, Option.some.injEq,
                Prod.mk.injEq] at same
              rw [← same.1, ← same.2]
              exact below.bucket bucket inst rfl

/-- The loop of `proposer_accept` finds the instance with the smallest id, in
its bucket. -/
theorem smallest_spec
    (isTable : IsInstances h table)
    (keyed : table.All fun key inst => inst.iid = key) :
    ∃ found, smallest h = some found ∧
      found.map Prod.snd = smallestInstance table ∧
      ∀ k inst, found = some (k, inst) → AtInstance h table inst k := by
  obtain ⟨slots, represents, same⟩ := isTable
  have begins : FoundBelow slots h.nBuckets 0 none := by
    refine ⟨rfl, ?_⟩
    intro i inst impossible
    cases impossible
  obtain ⟨found, ran, total⟩ := CheckedArray.forEach_invariant
    (fun k found bound below => smallerInstance_spec represents bound below)
    h.nBuckets 0 none (Nat.zero_add _) begins
  refine ⟨found, ran, ?_, ?_⟩
  · rw [total.smallest, same]
    rfl
  · intro k inst isFound
    obtain ⟨bound, key, isLive⟩ := total.bucket k inst isFound
    have member : (key, inst) ∈ table.entries := by
      rw [← same, mem_entries_iff]
      exact ⟨k, bound, isLive⟩
    have isKey := keyed key inst (Table.get_eq_some_iff.mpr member)
    refine ⟨slots, represents, same, bound, ?_⟩
    rw [isKey]
    exact isLive

def entriesFrom (slots : Nat → Slot Nat ProposerInstance) (k count : Nat) :
    List (Nat × ProposerInstance) :=
  (List.range' k count).filterMap fun i => (slots i).entry

theorem entries_append_entriesFrom
    (slots : Nat → Slot Nat ProposerInstance) {n k : Nat} (inside : k ≤ n) :
    entries n slots = entries k slots ++ entriesFrom slots k (n - k) := by
  obtain ⟨rest, rfl⟩ := Nat.exists_eq_add_of_le inside
  rw [Nat.add_sub_cancel_left, entries, entries, collect, collect,
    List.range_eq_range', List.range_eq_range', ← List.range'_append_1,
    List.filterMap_append, Nat.zero_add]
  rfl

/-- The loop of `next_timedout` stops where the loop over the entries does. -/
theorem nextTimedoutLoop_spec
    {slots : Nat → Slot Nat ProposerInstance}
    (represents : Khash.Represents khIntHashFunc h slots)
    (proposerTimeout t : Int) (count : Nat) :
    ∀ k position, k + count = h.nBuckets →
      ∃ bucket found,
        nextTimedoutLoop proposerTimeout t h count k = some (bucket, found) ∧
        (LibPaxos.nextTimedout proposerTimeout t (entriesFrom slots k count)
          position).2 = found ∧
        ∀ inst, found = some inst →
          bucket < h.nBuckets ∧ ∃ key, slots bucket = .live key inst := by
  induction count with
  | zero =>
      intro k position _
      refine ⟨k, none, rfl, rfl, ?_⟩
      intro inst impossible
      cases impossible
  | succ count inductionHypothesis =>
      intro k position reached
      have bound : k < h.nBuckets := by omega
      have holds := represents.holds k bound
      have next : entriesFrom slots k (count + 1) =
          (slots k).entry.toList ++ entriesFrom slots (k + 1) count := by
        rw [entriesFrom, List.range'_succ, List.filterMap_cons]
        cases (slots k).entry <;> rfl
      rw [nextTimedoutLoop, represents.exist_eq bound, Option.bind_some, next]
      cases slot : slots k with
      | vacant => exact inductionHypothesis (k + 1) position (by omega)
      | deleted => exact inductionHypothesis (k + 1) position (by omega)
      | live key inst =>
          have isValue : h.value k = some inst := by
            rw [Khash.value, (holds.cells key inst slot).2]
            rfl
          simp only [Slot.entry, Option.isSome_some, if_true, isValue,
            Option.bind_some, Option.toList_some, List.singleton_append]
          rw [LibPaxos.nextTimedout]
          by_cases reached' : quorumReached inst.quorum
          · simp only [reached', if_true]
            exact inductionHypothesis (k + 1) (position + 1) (by omega)
          · by_cases late : instanceHasTimedout proposerTimeout inst t
            · simp only [reached', late, if_true]
              refine ⟨k, some inst, rfl, rfl, ?_⟩
              intro found same
              cases same
              exact ⟨bound, key, slot⟩
            · simp only [reached', late]
              exact inductionHypothesis (k + 1) (position + 1) (by omega)

/-- The number of entries below a bucket: the place in the listing that a
bucket iterator stands for. -/
def liveBelow (h : InstanceTable) (k : Nat) : Nat :=
  (List.range k).countP fun i => decide (h.exist i = some true)

theorem liveBelow_eq
    {slots : Nat → Slot Nat ProposerInstance}
    (represents : Khash.Represents khIntHashFunc h slots) {k : Nat}
    (inside : k ≤ h.nBuckets) :
    liveBelow h k = (entries k slots).length := by
  rw [liveBelow, entries, collect, List.length_filterMap_eq_countP]
  apply List.countP_congr
  intro i member
  rw [List.mem_range] at member
  rw [represents.exist_eq (by omega)]
  simp

theorem nextTimedout_spec
    (isTable : IsInstances h table)
    (keyed : table.All fun key inst => inst.iid = key)
    (proposerTimeout t : Int) {k : Nat} (inside : k ≤ h.nBuckets) :
    ∃ bucket found, nextTimedout proposerTimeout t h k = some (bucket, found) ∧
      (LibPaxos.nextTimedout proposerTimeout t
        (table.entries.drop (liveBelow h k)) (liveBelow h k)).2 = found ∧
      ∀ inst, found = some inst → AtInstance h table inst bucket := by
  obtain ⟨slots, represents, same⟩ := isTable
  have split := entries_append_entriesFrom slots inside
  obtain ⟨bucket, found, ran, isFound, inBucket⟩ :=
    nextTimedoutLoop_spec represents proposerTimeout t (h.nBuckets - k) k
      (liveBelow h k) (by omega)
  refine ⟨bucket, found, ?_, ?_, ?_⟩
  · rw [nextTimedout, if_pos inside]
    exact ran
  · rw [← same, split, liveBelow_eq represents inside, List.drop_left]
    rw [liveBelow_eq represents inside] at isFound
    exact isFound
  · intro inst isInst
    obtain ⟨bound, key, isLive⟩ := inBucket inst isInst
    have member : (key, inst) ∈ table.entries := by
      rw [← same, mem_entries_iff]
      exact ⟨bucket, bound, isLive⟩
    have isKey := keyed key inst (Table.get_eq_some_iff.mpr member)
    refine ⟨slots, represents, same, bound, ?_⟩
    rw [isKey]
    exact isLive

end Tables

/-! ### One call -/

/-- A proposer hashed two hash tables. -/
def hashed (p : Proposer) (prepareInstances acceptInstances : InstanceTable) :
    KhProposer where
  id := p.id
  acceptors := p.acceptors
  values := p.values
  maxTrimIid := p.maxTrimIid
  nextPrepareIid := p.nextPrepareIid
  prepareInstances := prepareInstances
  acceptInstances := acceptInstances

/-- The hash tables have the entries of the tables in their order, and the
other fields are the same. -/
def Backs (k : KhProposer) (p : Proposer) : Prop :=
  ∃ prepareInstances acceptInstances,
    IsInstances prepareInstances p.prepareInstances ∧
    IsInstances acceptInstances p.acceptInstances ∧
    k = hashed p prepareInstances acceptInstances

/-- A proposer with another bucket order. -/
structure Reordered (p after : Proposer) : Prop where
  prepare : after.prepareInstances.entries.Perm p.prepareInstances.entries
  accept : after.acceptInstances.entries.Perm p.acceptInstances.entries
  frame : after =
    { p with
      prepareInstances := after.prepareInstances
      acceptInstances := after.acceptInstances }

/-- The call over the hash tables fails where the call of the model fails, and
else returns the same and leaves the tables of the model in some order. -/
def Agrees (result : Option (KhProposer × ProposerResult))
    (model : Option (Proposer × ProposerResult)) : Prop :=
  match model with
  | none => result = none
  | some (p, out) =>
      ∃ k after, result = some (k, out) ∧ Reordered p after ∧ Backs k after

/-- A call that leaves the tables of the model in some order. -/
theorem agrees_reordered
    {p : Proposer} {prepareInstances acceptInstances : InstanceTable}
    {prepareTable acceptTable : Table Nat ProposerInstance}
    (out : ProposerResult)
    (isPrepare : IsInstances prepareInstances prepareTable)
    (isAccept : IsInstances acceptInstances acceptTable)
    (samePrepare : prepareTable.entries.Perm p.prepareInstances.entries)
    (sameAccept : acceptTable.entries.Perm p.acceptInstances.entries) :
    Agrees (some (hashed p prepareInstances acceptInstances, out))
      (some (p, out)) :=
  ⟨_, { p with
      prepareInstances := prepareTable
      acceptInstances := acceptTable },
    rfl, ⟨samePrepare, sameAccept, rfl⟩,
    prepareInstances, acceptInstances, isPrepare, isAccept, rfl⟩

/-- A call that leaves both tables in the order of the model. -/
theorem agrees_hashed
    {p : Proposer} {prepareInstances acceptInstances : InstanceTable}
    (out : ProposerResult)
    (isPrepare : IsInstances prepareInstances p.prepareInstances)
    (isAccept : IsInstances acceptInstances p.acceptInstances) :
    Agrees (some (hashed p prepareInstances acceptInstances, out))
      (some (p, out)) :=
  agrees_reordered out isPrepare isAccept (List.Perm.refl _)
    (List.Perm.refl _)

section Step

variable {p : Proposer} {prepareInstances acceptInstances : InstanceTable}
  (isPrepare : IsInstances prepareInstances p.prepareInstances)
  (isAccept : IsInstances acceptInstances p.acceptInstances)

include isPrepare isAccept

theorem prepare_agrees
    (small : p.prepareInstances.size < 2 ^ 30) (now : Int) :
    Agrees (step (hashed p prepareInstances acceptInstances) (.prepare now))
      (proposerStep p (.prepare now)) := by
  rw [step, proposerStep]
  unfold prepare proposerPrepare
  simp only [hashed]
  cases isNew : instanceNew (word32 (p.nextPrepareIid + 1))
      (proposerNextBallot p.id 0) p.acceptors now with
  | none => rfl
  | some inst =>
      have isIid : inst.iid = word32 (p.nextPrepareIid + 1) := by
        unfold instanceNew at isNew
        split at isNew
        · cases isNew
          rfl
        · cases isNew
      simp only [← isIid, Option.bind_some]
      cases inserted : p.prepareInstances.insertNew inst.iid inst with
      | none =>
          obtain ⟨old, present⟩ := TableMap.present_of_insertNew_none inserted
          rw [putNew_none isPrepare small inst present]
          rfl
      | some table =>
          obtain ⟨k, after, next, isPut, here, same⟩ :=
            putNew_some isPrepare small inst inserted
          rw [isPut]
          exact agrees_reordered
            (p := { p with
              nextPrepareIid := inst.iid
              prepareInstances := table })
            _ here.isTable isAccept same (List.Perm.refl _)

theorem receivePromise_agrees (clock : Nat → Int) (ack : PaxosPromise) :
    Agrees
      (step (hashed p prepareInstances acceptInstances)
        (.receivePromise clock ack))
      (proposerStep p (.receivePromise clock ack)) := by
  rw [step, proposerStep]
  unfold receivePromise proposerReceivePromise
  simp only [hashed]
  cases present : p.prepareInstances.get ack.iid with
  | none =>
      simp only [isPrepare.get_absent present, Option.bind_some, if_true]
      exact agrees_hashed _ isPrepare isAccept
  | some inst =>
      obtain ⟨k, found, here⟩ := isPrepare.get_present present
      simp only [found, Option.bind_some, if_neg here.ne_end, here.value_eq]
      cases promiseLoop p.id clock ack (List.range ack.nAids) inst none with
      | none => rfl
      | some result =>
          obtain ⟨inst, out⟩ := result
          obtain ⟨after, assigned, there, _⟩ := here.setValue inst
          simp only [Option.bind_some, assigned, Option.map_some]
          exact agrees_hashed
            (p := { p with
              prepareInstances := p.prepareInstances.set ack.iid inst })
            _ there.isTable isAccept

theorem accept_agrees
    (keyed : p.Keyed) (small : p.acceptInstances.size < 2 ^ 30) :
    Agrees (step (hashed p prepareInstances acceptInstances) .accept)
      (proposerStep p .accept) := by
  obtain ⟨found, isFound, isSmallest, inBucket⟩ :=
    smallest_spec isPrepare keyed.prepare
  rw [step, proposerStep]
  unfold accept proposerAccept
  simp only [hashed, isFound, ← isSmallest, Option.bind_some]
  cases found with
  | none => exact agrees_hashed _ isPrepare isAccept
  | some pair =>
      obtain ⟨k, inst⟩ := pair
      have here := inBucket k inst rfl
      simp only [Option.map_some]
      by_cases reached : quorumReached inst.quorum = false
      · simp only [reached, if_true]
        exact agrees_hashed _ isPrepare isAccept
      · obtain ⟨⟨values, valued⟩, took⟩ :
            ∃ taken, takeValue p.values inst = taken := ⟨_, rfl⟩
        have sameIid := (takeValue_iid took).1
        obtain ⟨after, assigned, there, _⟩ := here.setValue valued
        rw [← sameIid] at there
        simp only [reached, took, assigned, Option.bind_some]
        by_cases nothing : valued.value = none ∧ valued.promisedValue = none
        · simp only [nothing, and_self, if_true]
          exact agrees_hashed
            (p := { p with
              values := values
              prepareInstances := p.prepareInstances.set valued.iid valued })
            _ there.isTable isAccept
        · simp only [nothing]
          cases moved : proposerMoveInstance
              (p.prepareInstances.set valued.iid valued) p.acceptInstances
              valued with
          | none =>
              rw [moveInstance_none there.isTable isAccept small moved]
              rfl
          | some tables =>
              obtain ⟨prepareAfter, acceptAfter⟩ := tables
              obtain ⟨f, bucket, t, next, ran, kept, put, same⟩ :=
                moveInstance_some there.isTable isAccept small moved
              simp only [ran, Option.bind_some]
              cases instanceToAccept p.id valued with
              | none => rfl
              | some out =>
                  exact agrees_reordered
                    (p := { p with
                      values := values
                      prepareInstances := prepareAfter
                      acceptInstances := acceptAfter })
                    _ kept put.isTable (List.Perm.refl _) same

theorem receiveAccepted_agrees (ack : PaxosAccepted) :
    Agrees
      (step (hashed p prepareInstances acceptInstances) (.receiveAccepted ack))
      (proposerStep p (.receiveAccepted ack)) := by
  rw [step, proposerStep]
  unfold receiveAccepted proposerReceiveAccepted
  simp only [hashed]
  cases present : p.acceptInstances.get ack.iid with
  | none =>
      simp only [isAccept.get_absent present, Option.bind_some, if_true]
      exact agrees_hashed _ isPrepare isAccept
  | some inst =>
      obtain ⟨k, found, here⟩ := isAccept.get_present present
      simp only [found, Option.bind_some, if_neg here.ne_end, here.value_eq]
      cases ack.ballots[0]? with
      | none => rfl
      | some ballot =>
          by_cases current : ballot = inst.ballot
          · simp only [current, Option.bind_some, if_true]
            cases ack.aids[0]? with
            | none => rfl
            | some aid =>
                simp only [Option.bind_some]
                cases quorumAdd inst.quorum aid with
                | none => rfl
                | some counted =>
                    obtain ⟨added, quorum⟩ := counted
                    cases added with
                    | false => exact agrees_hashed _ isPrepare isAccept
                    | true =>
                        simp only [Option.bind_some, if_true]
                        by_cases reached : quorumReached quorum
                        · obtain ⟨after, deleted, kept⟩ := here.del
                          cases gave : giveBackValue p.values
                              { inst with quorum := quorum } with
                          | mk values closed =>
                              simp only [reached, if_true, deleted,
                                Option.map_some]
                              exact agrees_hashed
                                (p := { p with
                                  values := values
                                  acceptInstances :=
                                    p.acceptInstances.erase ack.iid })
                                _ isPrepare kept
                        · obtain ⟨after, assigned, there, _⟩ :=
                            here.setValue { inst with quorum := quorum }
                          simp only [reached, assigned]
                          exact agrees_hashed
                            (p := { p with
                              acceptInstances := p.acceptInstances.set ack.iid
                                { inst with quorum := quorum } })
                            _ isPrepare there.isTable
          · simp only [current, Option.bind_some]
            exact agrees_hashed _ isPrepare isAccept

theorem receivePreempted_agrees
    (small : p.prepareInstances.size < 2 ^ 30) (now : Int)
    (ack : PaxosPreempted) :
    Agrees
      (step (hashed p prepareInstances acceptInstances)
        (.receivePreempted now ack))
      (proposerStep p (.receivePreempted now ack)) := by
  rw [step, proposerStep]
  unfold receivePreempted proposerReceivePreempted
  simp only [hashed]
  cases present : p.acceptInstances.get ack.iid with
  | none =>
      simp only [isAccept.get_absent present, Option.bind_some, if_true]
      exact agrees_hashed _ isPrepare isAccept
  | some inst =>
      obtain ⟨k, found, here⟩ := isAccept.get_present present
      simp only [found, Option.bind_some, if_neg here.ne_end, here.value_eq]
      by_cases higher : inst.ballot < ack.ballot
      · simp only [higher, if_true]
        cases moved : proposerMoveInstance p.acceptInstances p.prepareInstances
            inst with
        | none =>
            rw [moveInstance_none isAccept isPrepare small moved]
            rfl
        | some tables =>
            obtain ⟨acceptAfter, prepareAfter⟩ := tables
            obtain ⟨f, bucket, t, next, ran, kept, put, same⟩ :=
              moveInstance_some isAccept isPrepare small moved
            obtain ⟨after, assigned, there, _⟩ :=
              put.setValue (proposerPreempt p.id now inst).1
            simp only [ran, Option.bind_some, assigned, Option.map_some]
            exact agrees_reordered
              (p := { p with
                acceptInstances := acceptAfter
                prepareInstances := prepareAfter.set inst.iid
                  (proposerPreempt p.id now inst).1 })
              _ there.isTable kept (TableMap.set_perm same _ _)
              (List.Perm.refl _)
      · simp only [higher]
        exact agrees_hashed _ isPrepare isAccept

theorem setInstanceId_agrees (iid : Nat) :
    Agrees
      (step (hashed p prepareInstances acceptInstances) (.setInstanceId iid))
      (proposerStep p (.setInstanceId iid)) := by
  rw [step, proposerStep]
  unfold setInstanceId proposerSetInstanceId
  simp only [hashed]
  by_cases above : p.nextPrepareIid < iid
  · obtain ⟨prepareAfter, ran, kept⟩ :=
      trimInstances_spec isPrepare iid p.values []
    obtain ⟨⟨values, retired⟩, freed⟩ :
        ∃ freed, trimEntries iid p.prepareInstances.entries p.values [] =
          freed := ⟨_, rfl⟩
    obtain ⟨acceptAfter, acceptRan, acceptKept⟩ :=
      trimInstances_spec isAccept iid values retired
    rw [freed] at ran
    simp only [above, if_true, ran, Option.bind_some, acceptRan,
      Option.map_some, freed]
    exact agrees_hashed
      (p := { p with
        nextPrepareIid := iid
        values := (trimEntries iid p.acceptInstances.entries values retired).1
        prepareInstances := trimTable iid p.prepareInstances
        acceptInstances := trimTable iid p.acceptInstances })
      _ kept acceptKept
  · simp only [above]
    exact agrees_hashed _ isPrepare isAccept

theorem receiveAcceptorState_agrees (state : PaxosAcceptorState) :
    Agrees
      (step (hashed p prepareInstances acceptInstances)
        (.receiveAcceptorState state))
      (proposerStep p (.receiveAcceptorState state)) := by
  rw [step, proposerStep]
  unfold receiveAcceptorState proposerReceiveAcceptorState
  by_cases above : p.maxTrimIid < state.trimIid
  · have trimmed := setInstanceId_agrees
      (p := { p with maxTrimIid := state.trimIid }) isPrepare isAccept
      state.trimIid
    simp only [hashed, above, if_true] at trimmed ⊢
    exact trimmed
  · simp only [hashed, above]
    exact agrees_hashed _ isPrepare isAccept

theorem timeoutPrepare_agrees
    (keyed : p.Keyed) (proposerTimeout : Int) {iter : TimeoutIterator}
    (inside : iter.pi ≤ prepareInstances.nBuckets) (ai : Nat) :
    Agrees
      (step (hashed p prepareInstances acceptInstances)
        (.timeoutPrepare proposerTimeout iter))
      (proposerStep p (.timeoutPrepare proposerTimeout
        ⟨liveBelow prepareInstances iter.pi, ai, iter.timeout⟩)) := by
  obtain ⟨bucket, found, ran, isFound, inBucket⟩ :=
    nextTimedout_spec isPrepare keyed.prepare proposerTimeout iter.timeout
      inside
  rw [step, proposerStep]
  unfold iteratorPrepare timeoutIteratorPrepare
  simp only [hashed, ran, Option.bind_some]
  obtain ⟨⟨position, result⟩, searched⟩ :
      ∃ searched, LibPaxos.nextTimedout proposerTimeout iter.timeout
        (p.prepareInstances.entries.drop (liveBelow prepareInstances iter.pi))
        (liveBelow prepareInstances iter.pi) = searched := ⟨_, rfl⟩
  rw [searched] at isFound
  simp only at isFound
  simp only [searched, isFound]
  cases found with
  | none => exact agrees_hashed _ isPrepare isAccept
  | some inst =>
      obtain ⟨after, assigned, there, _⟩ := (inBucket inst rfl).setValue
        { inst with createdAt := iter.timeout }
      simp only [assigned, Option.map_some]
      exact agrees_hashed
        (p := { p with
          prepareInstances := p.prepareInstances.set inst.iid
            { inst with createdAt := iter.timeout } })
        _ there.isTable isAccept

theorem timeoutAccept_agrees
    (keyed : p.Keyed) (proposerTimeout : Int) {iter : TimeoutIterator}
    (inside : iter.ai ≤ acceptInstances.nBuckets) (pi : Nat) :
    Agrees
      (step (hashed p prepareInstances acceptInstances)
        (.timeoutAccept proposerTimeout iter))
      (proposerStep p (.timeoutAccept proposerTimeout
        ⟨pi, liveBelow acceptInstances iter.ai, iter.timeout⟩)) := by
  obtain ⟨bucket, found, ran, isFound, inBucket⟩ :=
    nextTimedout_spec isAccept keyed.accept proposerTimeout iter.timeout
      inside
  rw [step, proposerStep]
  unfold iteratorAccept timeoutIteratorAccept
  simp only [hashed, ran, Option.bind_some]
  obtain ⟨⟨position, result⟩, searched⟩ :
      ∃ searched, LibPaxos.nextTimedout proposerTimeout iter.timeout
        (p.acceptInstances.entries.drop (liveBelow acceptInstances iter.ai))
        (liveBelow acceptInstances iter.ai) = searched := ⟨_, rfl⟩
  rw [searched] at isFound
  simp only at isFound
  simp only [searched, isFound]
  cases found with
  | none => exact agrees_hashed _ isPrepare isAccept
  | some inst =>
      obtain ⟨after, assigned, there, _⟩ := (inBucket inst rfl).setValue
        { inst with createdAt := iter.timeout }
      cases isOut : instanceToAccept p.id inst with
      | none =>
          simp only [isOut]
          rfl
      | some out =>
          simp only [isOut, Option.bind_some, assigned, Option.map_some]
          exact agrees_hashed
            (p := { p with
              acceptInstances := p.acceptInstances.set inst.iid
                { inst with createdAt := iter.timeout } })
            _ isPrepare there.isTable

end Step

/-- The call of the model that a call over the hash tables is: an iterator is a
place in the listing. -/
def modelOp (k : KhProposer) : Op → ProposerOp
  | .propose value => .propose value
  | .prepare now => .prepare now
  | .receivePromise clock ack => .receivePromise clock ack
  | .accept => .accept
  | .receiveAccepted ack => .receiveAccepted ack
  | .receivePreempted now ack => .receivePreempted now ack
  | .receiveAcceptorState state => .receiveAcceptorState state
  | .setInstanceId iid => .setInstanceId iid
  | .timeoutPrepare proposerTimeout iter =>
      .timeoutPrepare proposerTimeout
        ⟨liveBelow k.prepareInstances iter.pi,
          liveBelow k.acceptInstances iter.ai, iter.timeout⟩
  | .timeoutAccept proposerTimeout iter =>
      .timeoutAccept proposerTimeout
        ⟨liveBelow k.prepareInstances iter.pi,
          liveBelow k.acceptInstances iter.ai, iter.timeout⟩

/-- An iterator has not passed the end of its table. -/
def Within (k : KhProposer) : Op → Prop
  | .timeoutPrepare _ iter => iter.pi ≤ k.prepareInstances.nBuckets
  | .timeoutAccept _ iter => iter.ai ≤ k.acceptInstances.nBuckets
  | _ => True

/-- Both tables have fewer than `2 ^ 30` instances. -/
def Small (k : KhProposer) : Prop :=
  k.prepareInstances.size < 2 ^ 30 ∧ k.acceptInstances.size < 2 ^ 30

instance (k : KhProposer) : Decidable k.Small :=
  inferInstanceAs (Decidable (_ ∧ _))

theorem step_agrees
    {k : KhProposer} {p : Proposer} (backs : Backs k p) (keyed : p.Keyed)
    (small : k.Small) {op : Op} (within : k.Within op) :
    Agrees (step k op) (proposerStep p (k.modelOp op)) := by
  obtain ⟨prepareInstances, acceptInstances, isPrepare, isAccept, rfl⟩ := backs
  have fewWaiting : p.prepareInstances.size < 2 ^ 30 := by
    rw [← isPrepare.size]
    exact small.1
  have fewPending : p.acceptInstances.size < 2 ^ 30 := by
    rw [← isAccept.size]
    exact small.2
  cases op with
  | propose value =>
      exact agrees_hashed (p := proposerPropose p value) _ isPrepare isAccept
  | prepare now => exact prepare_agrees isPrepare isAccept fewWaiting now
  | receivePromise clock ack =>
      exact receivePromise_agrees isPrepare isAccept clock ack
  | accept => exact accept_agrees isPrepare isAccept keyed fewPending
  | receiveAccepted ack => exact receiveAccepted_agrees isPrepare isAccept ack
  | receivePreempted now ack =>
      exact receivePreempted_agrees isPrepare isAccept fewWaiting now ack
  | receiveAcceptorState state =>
      exact receiveAcceptorState_agrees isPrepare isAccept state
  | setInstanceId iid => exact setInstanceId_agrees isPrepare isAccept iid
  | timeoutPrepare proposerTimeout iter =>
      exact timeoutPrepare_agrees isPrepare isAccept keyed proposerTimeout
        within _
  | timeoutAccept proposerTimeout iter =>
      exact timeoutAccept_agrees isPrepare isAccept keyed proposerTimeout
        within _

theorem within_of_step
    {k : KhProposer} {op : Op} {result : KhProposer × ProposerResult}
    (stepEq : step k op = some result) : k.Within op := by
  cases op with
  | timeoutPrepare proposerTimeout iter =>
      by_cases inside : iter.pi ≤ k.prepareInstances.nBuckets
      · exact inside
      · simp [step, iteratorPrepare, nextTimedout, inside] at stepEq
  | timeoutAccept proposerTimeout iter =>
      by_cases inside : iter.ai ≤ k.acceptInstances.nBuckets
      · exact inside
      · simp [step, iteratorAccept, nextTimedout, inside] at stepEq
  | propose _ => exact True.intro
  | prepare _ => exact True.intro
  | receivePromise _ _ => exact True.intro
  | accept => exact True.intro
  | receiveAccepted _ => exact True.intro
  | receivePreempted _ _ => exact True.intro
  | receiveAcceptorState _ => exact True.intro
  | setInstanceId _ => exact True.intro

/-! ### Runs -/

/-- A call to the proposer with its result, where it is not a change of the
bucket order. -/
def callOf (current : ProposerTransition) :
    Option (ProposerOp × ProposerResult) :=
  match current.input with
  | .rehash _ _ => none
  | op => some (op, current.output)

theorem callOf_modelOp
    (source target : Proposer) (k : KhProposer) (op : Op)
    (out : ProposerResult) :
    callOf ⟨source, k.modelOp op, out, target⟩ =
      some (k.modelOp op, out) := by
  cases op <;> rfl

/-- A step over the hash tables, as a call to the proposer with its result. -/
def callHashed (current : Transition KhProposer Op ProposerResult) :
    ProposerOp × ProposerResult :=
  (current.source.modelOp current.input, current.output)

theorem backs_new (id acceptors : Nat) :
    Backs (new id acceptors) (proposerNew id acceptors) :=
  ⟨khInit, khInit, Khash.isTable_init khIntHashFunc,
    Khash.isTable_init khIntHashFunc, rfl⟩

/-- Another bucket order is one step of the model. -/
theorem Reordered.step {p after : Proposer} (reordered : Reordered p after) :
    proposerStep p (.rehash after.prepareInstances after.acceptInstances) =
      some (after, ⟨none, []⟩) := by
  rw [proposerStep, if_pos ⟨reordered.prepare, reordered.accept⟩,
    ← reordered.frame]

/-- Every run over the hash tables is a run of `proposerStep` with the same
calls and results, and the next call over the hash tables does what the next
call of the model does. -/
theorem tables_refine
    {id acceptors : Nat} {past : List (Transition KhProposer Op ProposerResult)}
    {k : KhProposer} (trace : Trace step (new id acceptors) past k)
    (small : ∀ current ∈ past, current.source.Small) :
    ∃ modelPast p,
      Trace proposerStep (proposerNew id acceptors) modelPast p ∧
      modelPast.filterMap callOf = past.map callHashed ∧ Backs k p ∧
      ∀ op, k.Small → k.Within op →
        Agrees (step k op) (proposerStep p (k.modelOp op)) := by
  suffices reached : ∃ modelPast p,
      Trace proposerStep (proposerNew id acceptors) modelPast p ∧
      modelPast.filterMap callOf = past.map callHashed ∧ Backs k p by
    obtain ⟨modelPast, p, modelTrace, same, backs⟩ := reached
    refine ⟨modelPast, p, modelTrace, same, backs, ?_⟩
    intro op few within
    exact step_agrees backs (proposer_trace_keyed modelTrace).1 few within
  induction trace with
  | nil =>
      exact ⟨[], proposerNew id acceptors, .nil, rfl, backs_new id acceptors⟩
  | @snoc past source target input output _ stepEq inductionHypothesis =>
      obtain ⟨modelPast, p, modelTrace, same, backs⟩ := inductionHypothesis
        fun current member => small current (List.mem_append_left _ member)
      have few : source.Small :=
        small ⟨source, input, output, target⟩
          (List.mem_append_right _ (List.mem_singleton_self _))
      have agrees := step_agrees backs (proposer_trace_keyed modelTrace).1 few
        (within_of_step stepEq)
      cases modelEq : proposerStep p (source.modelOp input) with
      | none =>
          rw [modelEq, stepEq] at agrees
          cases agrees
      | some result =>
          obtain ⟨next, out⟩ := result
          rw [modelEq] at agrees
          obtain ⟨other, after, stepped, reordered, backsAfter⟩ := agrees
          rw [stepEq] at stepped
          cases stepped
          refine ⟨_, after, (modelTrace.snoc modelEq).snoc reordered.step,
            ?_, backsAfter⟩
          rw [List.map_append, ← same, List.filterMap_append,
            List.filterMap_append, List.append_assoc,
            List.filterMap_cons_some
              (callOf_modelOp p next source input output)]
          rfl

/-- Two of three acceptors promise an instance. -/
def acceptedOps : List Op :=
  [.propose ⟨[5]⟩, .prepare 0,
    .receivePromise (fun _ => 0)
      ⟨0, 1, 1001, 0, 1, [0], ⟨[]⟩, [⟨[]⟩], [1001], [0]⟩,
    .receivePromise (fun _ => 0)
      ⟨1, 1, 1001, 0, 1, [1], ⟨[]⟩, [⟨[]⟩], [1001], [0]⟩,
    .accept]

/-- The instance moves from one table to the other. -/
theorem tables_refine_accepted :
    ∃ past k modelPast p,
      runFrom step (new 1 3) acceptedOps = some (past, k) ∧
      Trace proposerStep (proposerNew 1 3) modelPast p ∧
      modelPast.filterMap callOf = past.map callHashed ∧ Backs k p ∧
      ∀ op, k.Small → k.Within op →
        Agrees (step k op) (proposerStep p (k.modelOp op)) := by
  have ends : ∃ past k, runFrom step (new 1 3) acceptedOps = some (past, k) ∧
      ∀ current ∈ past, current.source.Small :=
    ⟨_, _, rfl, by decide⟩
  obtain ⟨past, k, ran, small⟩ := ends
  obtain ⟨modelPast, p, refined⟩ :=
    tables_refine (trace_of_runFrom step (new 1 3) acceptedOps ran) small
  exact ⟨past, k, modelPast, p, ran, refined⟩

end KhProposer

end LibPaxos
