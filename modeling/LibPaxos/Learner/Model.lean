import LibPaxos.Types
import LibPaxos.Library.Trace
import Mathlib.Logic.Function.Basic

/-!
# The learner

The functions of `learner.c`.  A function has no result where the program
follows a null pointer or indexes an array outside its bounds.

`paxos_config.learner_catch_up` is a parameter of `learnerNew`.  The hash table
of instances is a partial function, since the learner never iterates over it.
-/

namespace LibPaxos

open LibPaxos.Library

/-- `struct instance` of the learner: one slot per acceptor in `acks`. -/
structure LearnerInstance where
  iid : Nat
  lastUpdateBallot : Nat
  acks : List (Option PaxosAccepted)
  finalValue : Option PaxosAccepted

structure Learner where
  acceptors : Nat
  lateStart : Bool
  currentIid : Nat
  highestIidClosed : Nat
  instances : Nat → Option LearnerInstance

def learnerNew (learnerCatchUp : Bool) (acceptors : Nat) : Learner where
  acceptors := acceptors
  lateStart := !learnerCatchUp
  currentIid := 1
  highestIidClosed := 1
  instances := fun _ => none

def learnerSetInstanceId (l : Learner) (iid : Nat) : Learner :=
  { l with currentIid := word32 (iid + 1), highestIidClosed := iid }

def copyArray {α : Type} (n : Nat) (src : List α) : Option (List α) :=
  if n ≤ src.length then some (src.take n) else none

/-- Copy `n` entries of an array, or the null pointer. -/
def copyArrayOrNull {α : Type} (n : Nat) (src : List α) : Option (List α) :=
  if src = [] then some [] else copyArray n src

/-- Copy `n` entries of `values`, which may be absent. -/
def copyValues (n : Nat) :
    Option (List PaxosValue) → Option (Option (List PaxosValue))
  | none => some none
  | some values => (copyArray n values).map some

def paxosAcceptedDup (ack : PaxosAccepted) : Option PaxosAccepted :=
  if 0 < ack.nAids then do
    let aids ← copyArrayOrNull ack.nAids ack.aids
    let values ← copyValues ack.nAids ack.values
    let ballots ← copyArrayOrNull ack.nAids ack.ballots
    let valueBallots ← copyArrayOrNull ack.nAids ack.valueBallots
    some
      { ack with
        value0 := PaxosValue.empty
        aids := aids
        values := values
        ballots := ballots
        valueBallots := valueBallots }
  else
    some { ack with value0 := PaxosValue.empty }

/-- `paxos_accepted_deep_copy`, which repeats the body of
`paxos_accepted_dup`. -/
def paxosAcceptedDeepCopy (ack : PaxosAccepted) : Option PaxosAccepted :=
  paxosAcceptedDup ack

def learnerInstanceNew (acceptors : Nat) : LearnerInstance :=
  ⟨0, 0, List.replicate acceptors none, none⟩

/-- The loop of `instance_has_quorum`: how many acknowledgements have the
ballot, and the last of them. -/
def agreeing (ballot : Nat) :
    List (Option PaxosAccepted) → Nat × Option PaxosAccepted →
      Nat × Option PaxosAccepted
  | [], found => found
  | none :: rest, found => agreeing ballot rest found
  | some ack :: rest, found =>
      if ack.ballot = ballot then
        agreeing ballot rest (found.1 + 1, some ack)
      else
        agreeing ballot rest found

/-- `instance_has_quorum`, which also sets the final value. -/
def instanceHasQuorum (inst : LearnerInstance) (acceptors : Nat) :
    Bool × LearnerInstance :=
  match inst.finalValue with
  | some _ => (true, inst)
  | none =>
      let (count, valid) := agreeing inst.lastUpdateBallot inst.acks (0, none)
      if paxosQuorum acceptors ≤ count then
        (true, { inst with finalValue := valid })
      else
        (false, inst)

def instanceAddAccept (inst : LearnerInstance) (accepted : PaxosAccepted)
    (acceptorId ballot : Nat) : Option LearnerInstance :=
  (paxosAcceptedDup accepted).map fun copy =>
    { inst with
      acks := inst.acks.set acceptorId (some copy)
      lastUpdateBallot := ballot }

/-- The first part of `instance_update`, on the first message of an
instance. -/
def instanceStart (inst : LearnerInstance) (accepted : PaxosAccepted) :
    Option LearnerInstance :=
  if inst.iid = 0 then
    (accepted.ballots[0]?).map fun ballot =>
      { inst with iid := accepted.iid, lastUpdateBallot := ballot }
  else
    some inst

def instanceUpdate (inst : LearnerInstance) (accepted : PaxosAccepted)
    (acceptors : Nat) : Option LearnerInstance :=
  match instanceStart inst accepted with
  | none => none
  | some inst =>
      match instanceHasQuorum inst acceptors with
      | (true, inst) => some inst
      | (false, inst) =>
          match accepted.aids[0]?, accepted.ballots[0]? with
          | some aid, some ballot =>
              match inst.acks[aid]? with
              | none => none
              | some prevAccepted =>
                  if prevAccepted.any fun prev =>
                      decide (ballot ≤ prev.ballot) then
                    some inst
                  else
                    instanceAddAccept inst accepted aid ballot
          | _, _ => none

def learnerGetInstanceOrCreate (l : Learner) (iid : Nat) : LearnerInstance :=
  (l.instances iid).getD (learnerInstanceNew l.acceptors)

/-- The first part of `learner_receive_accepted`, on a late start. -/
def learnerStart (l : Learner) (ack : PaxosAccepted) : Learner :=
  if l.lateStart then
    { l with lateStart := false, currentIid := ack.iid }
  else
    l

def learnerReceiveAccepted (l : Learner) (ack : PaxosAccepted) :
    Option Learner :=
  let l := learnerStart l ack
  if ack.iid < l.currentIid then
    some l
  else
    match instanceUpdate (learnerGetInstanceOrCreate l ack.iid) ack
        l.acceptors with
    | none => none
    | some inst =>
        let (closed, inst) := instanceHasQuorum inst l.acceptors
        some
          { l with
            instances := Function.update l.instances ack.iid (some inst)
            highestIidClosed :=
              if closed ∧ l.highestIidClosed < inst.iid then
                inst.iid
              else
                l.highestIidClosed }

def learnerDeliverNext (l : Learner) :
    Option (Option PaxosAccepted × Learner) :=
  match l.instances l.currentIid with
  | none => some (none, l)
  | some inst =>
      match instanceHasQuorum inst l.acceptors with
      | (false, inst) =>
          some (none,
            { l with
              instances :=
                Function.update l.instances l.currentIid (some inst) })
      | (true, inst) =>
          match inst.finalValue with
          | none => none
          | some finalValue =>
              (paxosAcceptedDeepCopy finalValue).map fun out =>
                (some out,
                  { l with
                    instances := Function.update l.instances inst.iid none
                    currentIid := word32 (l.currentIid + 1) })

def learnerHasHoles (l : Learner) : Option (Nat × Nat) :=
  if l.currentIid < l.highestIidClosed then
    some (l.currentIid, l.highestIidClosed)
  else
    none

inductive LearnerOp where
  | receiveAccepted (ack : PaxosAccepted)
  | deliverNext

/-- One call into the learner; a successful delivery returns a record. -/
def learnerStep (l : Learner) :
    LearnerOp → Option (Learner × Option PaxosAccepted)
  | .receiveAccepted ack =>
      (learnerReceiveAccepted l ack).map fun l => (l, none)
  | .deliverNext =>
      (learnerDeliverNext l).map fun (out, l) => (l, out)

abbrev LearnerTransition : Type :=
  Transition Learner LearnerOp (Option PaxosAccepted)

end LibPaxos
