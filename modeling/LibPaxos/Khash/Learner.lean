import LibPaxos.Khash.MemStorage
import LibPaxos.Learner.Bounds

/-!
# The learner over its hash table

The functions of `learner.c` with the hash table that they use, against the
partial function of instances that `Learner` has in its place.  An instance is
changed in the bucket where the program has found or put it.
-/

namespace LibPaxos

open LibPaxos.Library

/-- `struct learner`. -/
structure KhLearner where
  acceptors : Nat
  lateStart : Bool
  currentIid : Nat
  highestIidClosed : Nat
  instances : Khash Nat LearnerInstance

namespace KhLearner

/-- `learner_new`. -/
def new (learnerCatchUp : Bool) (acceptors : Nat) : KhLearner where
  acceptors := acceptors
  lateStart := !learnerCatchUp
  currentIid := 1
  highestIidClosed := 1
  instances := khInit

/-- `learner_set_instance_id`. -/
def setInstanceId (l : KhLearner) (iid : Nat) : KhLearner :=
  { l with currentIid := word32 (iid + 1), highestIidClosed := iid }

/-- `learner_get_instance`: the instance and its bucket. -/
def getInstance (l : KhLearner) (iid : Nat) :
    Option (Option (Nat × LearnerInstance)) :=
  (l.instances.get khIntHashFunc iid).bind fun k =>
    if k = l.instances.nBuckets then
      some none
    else
      (l.instances.value k).map fun inst => some (k, inst)

/-- `learner_get_instance_or_create`. -/
def getInstanceOrCreate (l : KhLearner) (iid : Nat) :
    Option (Nat × LearnerInstance × KhLearner) :=
  (getInstance l iid).bind fun found =>
    match found with
    | some (k, inst) => some (k, inst, l)
    | none =>
        (l.instances.put khIntHashFunc iid).bind fun (rv, k, instances) =>
          if rv = -1 then
            none
          else
            let inst := learnerInstanceNew l.acceptors
            (instances.setValue k inst).map fun instances =>
              (k, inst, { l with instances := instances })

/-- `learner_delete_instance`. -/
def deleteInstance (l : KhLearner) (inst : LearnerInstance) :
    Option KhLearner :=
  (l.instances.get khIntHashFunc inst.iid).bind fun k =>
    (l.instances.del k).map fun instances => { l with instances := instances }

/-- The first part of `learner_receive_accepted`, on a late start. -/
def start (l : KhLearner) (ack : PaxosAccepted) : KhLearner :=
  if l.lateStart then
    { l with lateStart := false, currentIid := ack.iid }
  else
    l

/-- `learner_receive_accepted`. -/
def receiveAccepted (l : KhLearner) (ack : PaxosAccepted) :
    Option KhLearner :=
  let l := start l ack
  if ack.iid < l.currentIid then
    some l
  else
    (getInstanceOrCreate l ack.iid).bind fun (k, inst, l) =>
      (instanceUpdate inst ack l.acceptors).bind fun inst =>
        let (closed, inst) := instanceHasQuorum inst l.acceptors
        (l.instances.setValue k inst).map fun instances =>
          { l with
            instances := instances
            highestIidClosed :=
              if closed ∧ l.highestIidClosed < inst.iid then
                inst.iid
              else
                l.highestIidClosed }

/-- `learner_deliver_next`. -/
def deliverNext (l : KhLearner) : Option (Option PaxosAccepted × KhLearner) :=
  (getInstance l l.currentIid).bind fun found =>
    match found with
    | none => some (none, l)
    | some (k, inst) =>
        let (closed, inst) := instanceHasQuorum inst l.acceptors
        (l.instances.setValue k inst).bind fun instances =>
          let l := { l with instances := instances }
          if closed then
            inst.finalValue.bind fun finalValue =>
              (paxosAcceptedDeepCopy finalValue).bind fun out =>
                (deleteInstance l inst).map fun l =>
                  (some out, { l with currentIid := word32 (l.currentIid + 1) })
          else
            some (none, l)

/-- `learner_has_holes`. -/
def hasHoles (l : KhLearner) : Option (Nat × Nat) :=
  if l.currentIid < l.highestIidClosed then
    some (l.currentIid, l.highestIidClosed)
  else
    none

end KhLearner

def KhLearner.call (l : KhLearner) :
    LearnerCall → Option (KhLearner × Option PaxosAccepted)
  | .op (.receiveAccepted ack) =>
      (l.receiveAccepted ack).map fun l => (l, none)
  | .op .deliverNext => l.deliverNext.map fun (out, l) => (l, out)
  | .setInstanceId iid => some (l.setInstanceId iid, none)

/-! ### Instances under their own id -/

/-- Every instance is filed under its own id. -/
def Learner.OwnIids (l : Learner) : Prop :=
  ∀ iid inst, l.instances iid = some inst → inst.iid = iid

theorem instanceUpdate_iid
    {inst updated : LearnerInstance} {ack : PaxosAccepted} {acceptors : Nat}
    (known : inst.iid = 0 ∨ inst.iid = ack.iid)
    (updates : instanceUpdate inst ack acceptors = some updated) :
    updated.iid = ack.iid := by
  unfold instanceUpdate at updates
  cases starts : instanceStart inst ack with
  | none => simp [starts] at updates
  | some started =>
      have startedIid : started.iid = ack.iid := by
        unfold instanceStart at starts
        split at starts
        · obtain ⟨ballot, _, rfl⟩ := Option.map_eq_some_iff.mp starts
          rfl
        · next begun =>
            cases starts
            exact known.resolve_left begun
      have testedIid := (instanceHasQuorum_iid started acceptors).trans
        startedIid
      simp only [starts] at updates
      split at updates
      · next quorum =>
          cases updates
          rw [quorum] at testedIid
          exact testedIid
      · next quorum =>
          rw [quorum] at testedIid
          split at updates
          · split at updates
            · cases updates
            · split at updates
              · cases updates
                exact testedIid
              · obtain ⟨copy, _, rfl⟩ := Option.map_eq_some_iff.mp updates
                exact testedIid
          · cases updates

theorem Learner.OwnIids.update
    {l : Learner} (own : l.OwnIids) {iid : Nat} {inst : LearnerInstance}
    (sameIid : inst.iid = iid) {other : Nat} {found : LearnerInstance}
    (present : Function.update l.instances iid (some inst) other =
      some found) : found.iid = other := by
  by_cases same : other = iid
  · subst same
    rw [Function.update_self] at present
    cases present
    exact sameIid
  · rw [Function.update_of_ne same] at present
    exact own other found present

theorem Learner.OwnIids.receive
    {l after : Learner} {ack : PaxosAccepted} (own : l.OwnIids)
    (received : learnerReceiveAccepted l ack = some after) :
    after.OwnIids := by
  have started : (learnerStart l ack).OwnIids := by
    rw [learnerStart]
    split
    · exact own
    · exact own
  unfold learnerReceiveAccepted at received
  generalize learnerStart l ack = l at started received
  simp only at received
  split at received
  · cases received
    exact started
  · split at received
    · cases received
    · next inst updates =>
        cases received
        have known : (learnerGetInstanceOrCreate l ack.iid).iid = 0 ∨
            (learnerGetInstanceOrCreate l ack.iid).iid = ack.iid := by
          unfold learnerGetInstanceOrCreate
          cases present : l.instances ack.iid with
          | none => exact Or.inl rfl
          | some inst => exact Or.inr (started ack.iid inst present)
        intro iid found present
        exact started.update ((instanceHasQuorum_iid _ _).trans
          (instanceUpdate_iid known updates)) present

theorem Learner.OwnIids.deliver
    {l after : Learner} {out : Option PaxosAccepted} (own : l.OwnIids)
    (delivered : learnerDeliverNext l = some (out, after)) :
    after.OwnIids := by
  unfold learnerDeliverNext at delivered
  split at delivered
  · cases delivered
    exact own
  · next inst present =>
      have sameIid := (instanceHasQuorum_iid inst l.acceptors).trans
        (own _ _ present)
      split at delivered
      · next quorum =>
          cases delivered
          rw [quorum] at sameIid
          intro iid found isFound
          exact own.update sameIid isFound
      · next closed quorum =>
          split at delivered
          · cases delivered
          · obtain ⟨record, _, same⟩ := Option.map_eq_some_iff.mp delivered
            cases same
            intro iid found isFound
            change Function.update l.instances closed.iid none iid = _
              at isFound
            by_cases gone : iid = closed.iid
            · subst gone
              rw [Function.update_self] at isFound
              cases isFound
            · rw [Function.update_of_ne gone] at isFound
              exact own iid found isFound

theorem Learner.OwnIids.call
    {l after : Learner} {request : LearnerCall} {out : Option PaxosAccepted}
    (own : l.OwnIids) (called : learnerCall l request = some (after, out)) :
    after.OwnIids := by
  cases request with
  | setInstanceId iid =>
      cases called
      exact own
  | op op =>
      cases op with
      | receiveAccepted ack =>
          obtain ⟨next, received, same⟩ := Option.map_eq_some_iff.mp called
          cases same
          exact own.receive received
      | deliverNext =>
          obtain ⟨⟨out, next⟩, delivered, same⟩ :=
            Option.map_eq_some_iff.mp called
          cases same
          exact own.deliver delivered

/-! ### A hash table for a partial function -/

/-- A hash table of learner instances that answers as a partial function. -/
def FilesInstances (h : Khash Nat LearnerInstance)
    (instances : Nat → Option LearnerInstance) : Prop :=
  ∃ table, Khash.IsTable khIntHashFunc h table ∧
    ∀ key, table.get key = instances key

/-- A bucket of it with an instance. -/
def FiledAt (h : Khash Nat LearnerInstance)
    (instances : Nat → Option LearnerInstance) (key : Nat)
    (inst : LearnerInstance) (k : Nat) : Prop :=
  ∃ table, Khash.AtBucket khIntHashFunc h table key inst k ∧
    ∀ key, table.get key = instances key

section Instances

variable {h : Khash Nat LearnerInstance}
  {instances : Nat → Option LearnerInstance} {key k : Nat}
  {inst : LearnerInstance}

theorem FiledAt.setValue
    (here : FiledAt h instances key inst k) (new : LearnerInstance) :
    ∃ after, h.setValue k new = some after ∧
      FilesInstances after (Function.update instances key (some new)) ∧
      after.nBuckets = h.nBuckets := by
  obtain ⟨table, bucket, same⟩ := here
  obtain ⟨after, assigned, there, sameBuckets⟩ := bucket.setValue new
  refine ⟨after, assigned, ⟨_, there.isTable, ?_⟩, sameBuckets⟩
  intro other
  by_cases isKey : other = key
  · rw [isKey, Function.update_self]
    exact Table.get_set_self new bucket.get_eq
  · rw [Function.update_of_ne isKey, Table.get_set_of_ne _ _ isKey]
    exact same other

theorem FilesInstances.erase
    (files : FilesInstances h instances) (key : Nat) :
    ∃ after, h.erase khIntHashFunc key = some after ∧
      FilesInstances after (Function.update instances key none) := by
  obtain ⟨table, isTable, same⟩ := files
  obtain ⟨after, ran, kept⟩ := isTable.erase key
  refine ⟨after, ran, _, kept, ?_⟩
  intro other
  rw [TableMap.get_erase]
  by_cases isKey : other = key
  · rw [isKey, Function.update_self, if_pos rfl]
  · rw [Function.update_of_ne isKey, if_neg isKey]
    exact same other

theorem FilesInstances.put
    (files : FilesInstances h instances) (small : h.size < 2 ^ 30)
    (key : Nat) (inst : LearnerInstance) :
    ∃ ret k claimed after, h.put khIntHashFunc key = some (ret, k, claimed) ∧
      claimed.setValue k inst = some after ∧ ret ≠ -1 ∧
      FiledAt after (Function.update instances key (some inst)) key inst k := by
  obtain ⟨table, isTable, same⟩ := files
  have sized := isTable.size
  obtain ⟨ret, k, claimed, after, next, isPut, isSet, there, perm, positive,
    _⟩ := isTable.put (by omega) key inst
  refine ⟨ret, k, claimed, after, isPut, isSet, by omega, next, there, ?_⟩
  intro other
  rw [TableMap.get_of_perm perm, TableMap.get_put]
  by_cases isKey : other = key
  · rw [isKey, Function.update_self, if_pos rfl]
  · rw [Function.update_of_ne isKey, if_neg isKey]
    exact same other

end Instances

namespace KhLearner

/-- The learner with a partial function hashed a hash table. -/
def hashed (l : Learner) (instances : Khash Nat LearnerInstance) :
    KhLearner where
  acceptors := l.acceptors
  lateStart := l.lateStart
  currentIid := l.currentIid
  highestIidClosed := l.highestIidClosed
  instances := instances

/-- The hash table has the instances of the partial function, and the other
fields are the same. -/
def Files (k : KhLearner) (l : Learner) : Prop :=
  ∃ h, FilesInstances h l.instances ∧ k = hashed l h

/-- The call over the hash table fails where the call of the model fails, and
else returns the same and leaves the instances of the model. -/
def Agrees (result : Option (KhLearner × Option PaxosAccepted))
    (model : Option (Learner × Option PaxosAccepted)) : Prop :=
  match model with
  | none => result = none
  | some (l, answer) => ∃ k, result = some (k, answer) ∧ Files k l

theorem files_new (learnerCatchUp : Bool) (acceptors : Nat) :
    Files (new learnerCatchUp acceptors)
      (learnerNew learnerCatchUp acceptors) :=
  ⟨khInit, ⟨Table.empty, Khash.isTable_init khIntHashFunc, fun _ => rfl⟩,
    rfl⟩

theorem deleteInstance_eq
    (l : KhLearner) (inst : LearnerInstance)
    {after : Khash Nat LearnerInstance}
    (ran : l.instances.erase khIntHashFunc inst.iid = some after) :
    deleteInstance l inst = some { l with instances := after } := by
  rw [Khash.erase, Option.bind_eq_some_iff] at ran
  obtain ⟨k, found, deleted⟩ := ran
  simp only [deleteInstance, found, Option.bind_some, deleted,
    Option.map_some]

section Calls

variable {l : Learner} {h : Khash Nat LearnerInstance}
  (files : FilesInstances h l.instances)

include files

theorem getInstance_none {iid : Nat} (absent : l.instances iid = none) :
    getInstance (hashed l h) iid = some none := by
  obtain ⟨table, isTable, same⟩ := files
  rw [← same] at absent
  simp [getInstance, hashed, isTable.get_absent absent]

theorem getInstance_some
    {iid : Nat} {inst : LearnerInstance}
    (present : l.instances iid = some inst) :
    ∃ k, getInstance (hashed l h) iid = some (some (k, inst)) ∧
      FiledAt h l.instances iid inst k := by
  obtain ⟨table, isTable, same⟩ := files
  rw [← same] at present
  obtain ⟨k, found, here⟩ := isTable.get_present present
  refine ⟨k, ?_, table, here, same⟩
  simp [getInstance, hashed, found, here.ne_end, here.value_eq]

theorem getInstanceOrCreate_spec
    (small : h.size < 2 ^ 30) (iid : Nat) :
    ∃ k after instances,
      getInstanceOrCreate (hashed l h) iid =
        some (k, learnerGetInstanceOrCreate l iid, hashed l after) ∧
      FiledAt after instances iid (learnerGetInstanceOrCreate l iid) k ∧
      ∀ inst, Function.update instances iid inst =
        Function.update l.instances iid inst := by
  unfold getInstanceOrCreate learnerGetInstanceOrCreate
  cases present : l.instances iid with
  | some inst =>
      obtain ⟨k, found, here⟩ := getInstance_some files present
      exact ⟨k, h, l.instances, by simp [found], here, fun _ => rfl⟩
  | none =>
      obtain ⟨ret, k, claimed, after, isPut, isSet, isOk, here⟩ :=
        files.put small iid (learnerInstanceNew l.acceptors)
      refine ⟨k, after, _, ?_, here, ?_⟩
      · have fresh : (hashed l h).instances.put khIntHashFunc iid =
            some (ret, k, claimed) := isPut
        have filled : claimed.setValue k
            (learnerInstanceNew (hashed l h).acceptors) = some after := isSet
        simp only [getInstance_none files present, Option.bind_some, fresh,
          isOk, if_false, filled]
        rfl
      · intro inst
        exact Function.update_idem ..

theorem receiveAccepted_agrees
    (small : h.size < 2 ^ 30) (ack : PaxosAccepted) :
    Agrees (call (hashed l h) (.op (.receiveAccepted ack)))
      (learnerCall l (.op (.receiveAccepted ack))) := by
  have started : start (hashed l h) ack = hashed (learnerStart l ack) h := by
    rw [start, learnerStart]
    cases late : l.lateStart <;> simp [hashed, late]
  have sameFiles : FilesInstances h (learnerStart l ack).instances := by
    rw [learnerStart]
    split
    · exact files
    · exact files
  rw [call, learnerCall, learnerStep]
  unfold receiveAccepted learnerReceiveAccepted
  rw [started]
  generalize learnerStart l ack = l at sameFiles
  by_cases old : ack.iid < l.currentIid
  · simp only [hashed, old, if_true]
    exact ⟨_, rfl, h, sameFiles, rfl⟩
  · obtain ⟨k, after, instances, got, here, same⟩ :=
      getInstanceOrCreate_spec sameFiles small ack.iid
    have notOld : ¬ ack.iid < (hashed l h).currentIid := old
    simp only [notOld, old, if_false, got, Option.bind_some]
    rw [show (hashed l after).acceptors = l.acceptors from rfl]
    cases instanceUpdate (learnerGetInstanceOrCreate l ack.iid) ack
        l.acceptors with
    | none => rfl
    | some inst =>
        obtain ⟨⟨closed, counted⟩, isCounted⟩ :
            ∃ counted, instanceHasQuorum inst l.acceptors = counted :=
          ⟨_, rfl⟩
        obtain ⟨assignedTable, assigned, filed, _⟩ := here.setValue counted
        have stored : (hashed l after).instances.setValue k counted =
            some assignedTable := assigned
        rw [same] at filed
        simp only [Option.bind_some, isCounted, stored, Option.map_some]
        exact ⟨_, rfl, assignedTable, filed, rfl⟩

theorem deliverNext_agrees (own : l.OwnIids) :
    Agrees (call (hashed l h) (.op .deliverNext))
      (learnerCall l (.op .deliverNext)) := by
  rw [call, learnerCall, learnerStep]
  unfold deliverNext learnerDeliverNext
  rw [show (hashed l h).currentIid = l.currentIid from rfl]
  cases present : l.instances l.currentIid with
  | none =>
      rw [getInstance_none files present]
      exact ⟨_, rfl, h, files, rfl⟩
  | some inst =>
      obtain ⟨k, found, here⟩ := getInstance_some files present
      obtain ⟨⟨closed, counted⟩, isCounted⟩ :
          ∃ counted, instanceHasQuorum inst l.acceptors = counted :=
        ⟨_, rfl⟩
      obtain ⟨after, assigned, filed, _⟩ := here.setValue counted
      have stored : (hashed l h).instances.setValue k counted = some after :=
        assigned
      rw [found]
      simp only [Option.bind_some]
      rw [show (hashed l h).acceptors = l.acceptors from rfl]
      cases closed with
      | false =>
          simp only [isCounted, stored, Option.bind_some]
          exact ⟨_, rfl, after, filed, rfl⟩
      | true =>
          simp only [isCounted, stored, Option.bind_some, if_true]
          cases counted.finalValue with
          | none => rfl
          | some finalValue =>
              simp only [Option.bind_some]
              cases paxosAcceptedDeepCopy finalValue with
              | none => rfl
              | some out =>
                  have sameIid := (instanceHasQuorum_iid inst l.acceptors).trans
                    (own _ _ present)
                  rw [isCounted] at sameIid
                  obtain ⟨erased, ran, kept⟩ := filed.erase counted.iid
                  have deleted := deleteInstance_eq (hashed l after) counted ran
                  rw [← sameIid, Function.update_idem] at kept
                  refine ⟨_, ?_, erased, kept, rfl⟩
                  change Option.map _ (Option.map _
                    (deleteInstance (hashed l after) counted)) = _
                  rw [deleted]
                  rfl

end Calls

/-- A call to the learner over the hash table does what the call of the model
does. -/
theorem call_agrees
    {k : KhLearner} {l : Learner} (files : k.Files l) (own : l.OwnIids)
    (small : k.instances.size < 2 ^ 30) (request : LearnerCall) :
    Agrees (k.call request) (learnerCall l request) := by
  obtain ⟨h, files, rfl⟩ := files
  cases request with
  | setInstanceId iid => exact ⟨_, rfl, h, files, rfl⟩
  | op op =>
      cases op with
      | receiveAccepted ack => exact receiveAccepted_agrees files small ack
      | deliverNext => exact deliverNext_agrees files own

/-! ### Runs -/

/-- A call of a run with what it returned. -/
def callOf {σ : Type}
    (current : Transition σ LearnerCall (Option PaxosAccepted)) :
    LearnerCall × Option PaxosAccepted :=
  (current.input, current.output)

/-- Every run over the hash table is a run of `learnerCall` with the same calls
and results, which finds the same holes, and the next call does what the next
call of the model does. -/
theorem instances_refine
    {learnerCatchUp : Bool} {acceptors : Nat}
    {past : List (Transition KhLearner LearnerCall (Option PaxosAccepted))}
    {k : KhLearner} (trace : Trace call (new learnerCatchUp acceptors) past k)
    (small : ∀ current ∈ past, current.source.instances.size < 2 ^ 30) :
    ∃ modelPast l,
      Trace learnerCall (learnerNew learnerCatchUp acceptors) modelPast l ∧
      modelPast.map callOf = past.map callOf ∧
      k.hasHoles = learnerHasHoles l ∧
      (k.instances.size < 2 ^ 30 → ∀ request,
        Agrees (k.call request) (learnerCall l request)) := by
  suffices reached : ∃ modelPast l,
      Trace learnerCall (learnerNew learnerCatchUp acceptors) modelPast l ∧
      modelPast.map callOf = past.map callOf ∧ k.Files l ∧ l.OwnIids by
    obtain ⟨modelPast, l, modelTrace, same, files, own⟩ := reached
    refine ⟨modelPast, l, modelTrace, same, ?_, call_agrees files own⟩
    obtain ⟨h, _, rfl⟩ := files
    rfl
  induction trace with
  | nil =>
      refine ⟨[], _, .nil, rfl, files_new learnerCatchUp acceptors, ?_⟩
      intro iid inst present
      cases present
  | @snoc past source target input output _ stepEq inductionHypothesis =>
      obtain ⟨modelPast, l, modelTrace, same, files, own⟩ :=
        inductionHypothesis fun current member =>
          small current (List.mem_append_left _ member)
      have agrees := call_agrees files own
        (small ⟨source, input, output, target⟩
          (List.mem_append_right _ (List.mem_singleton_self _))) input
      cases modelEq : learnerCall l input with
      | none =>
          rw [modelEq, stepEq] at agrees
          cases agrees
      | some result =>
          obtain ⟨next, out⟩ := result
          rw [modelEq] at agrees
          obtain ⟨after, stepped, filed⟩ := agrees
          rw [stepEq] at stepped
          cases stepped
          refine ⟨_, next, modelTrace.snoc modelEq, ?_, filed,
            own.call modelEq⟩
          rw [List.map_append, List.map_append, same]
          rfl

/-- Two of three acceptors accept an instance. -/
def deliveredCalls : List LearnerCall :=
  [.op (.receiveAccepted
      ⟨0, 1, 7, 7, 1, [0], ⟨[5]⟩, some [⟨[5]⟩], [7], [7]⟩),
    .op (.receiveAccepted
      ⟨1, 1, 7, 7, 1, [1], ⟨[5]⟩, some [⟨[5]⟩], [7], [7]⟩),
    .op .deliverNext]

/-- The instance is delivered and taken out of the table. -/
theorem instances_refine_delivered :
    ∃ past k modelPast l,
      runFrom call (new true 3) deliveredCalls = some (past, k) ∧
      Trace learnerCall (learnerNew true 3) modelPast l ∧
      modelPast.map callOf = past.map callOf ∧
      k.hasHoles = learnerHasHoles l ∧
      (k.instances.size < 2 ^ 30 → ∀ request,
        Agrees (k.call request) (learnerCall l request)) := by
  have ends : ∃ past k,
      runFrom call (new true 3) deliveredCalls = some (past, k) ∧
      ∀ current ∈ past, current.source.instances.size < 2 ^ 30 :=
    ⟨_, _, rfl, by decide⟩
  obtain ⟨past, k, ran, small⟩ := ends
  obtain ⟨modelPast, l, refined⟩ :=
    instances_refine (trace_of_runFrom call (new true 3) deliveredCalls ran)
      small
  exact ⟨past, k, modelPast, l, ran, refined⟩

end KhLearner

end LibPaxos
