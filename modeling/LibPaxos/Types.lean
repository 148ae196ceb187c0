import Mathlib.Algebra.Order.Ring.Int
import Mathlib.Data.List.Basic

/-!
# Paxos values, messages and configuration constants

The structures of `paxos_types.h` and the constants of `paxos.h`.

Instance ids, ballots and acceptor ids are `uint32_t` in the source.  They are
natural numbers here, and every operation of the source that can pass the top
of the type reduces its result with `word32`.  A C array is a list; the empty
list stands for the null pointer as well, except for the `values` of an
accepted record, where the source itself distinguishes a missing array (after
a prepare) from a present one.
-/

namespace LibPaxos

/-- Reduction of an unsigned 32-bit result. -/
def word32 (result : Nat) : Nat :=
  result % 2 ^ 32

theorem word32_of_lt {result : Nat} (bound : result < 2 ^ 32) :
    word32 result = result :=
  Nat.mod_eq_of_lt bound

/-- An `int` stored into a `uint32_t`. -/
def uint32OfInt (value : Int) : Nat :=
  (value % 2 ^ 32).toNat

/-- A `uint32_t` stored into an `int`. -/
def intOfUint32 (value : Nat) : Int :=
  (value : Int).bmod (2 ^ 32)

theorem uint32OfInt_intOfUint32 {value : Nat} (bound : value < 2 ^ 32) :
    uint32OfInt (intOfUint32 value) = value := by
  have reduced : (value : Int).bmod (2 ^ 32) % 2 ^ 32 = value % 2 ^ 32 :=
    Int.bmod_emod
  unfold uint32OfInt intOfUint32
  rw [reduced]
  omega

theorem intOfUint32_of_lt {value : Nat} (bound : value < 2 ^ 31) :
    intOfUint32 value = value := by
  unfold intOfUint32
  apply Int.bmod_eq_of_le
  · omega
  · omega

/-- The element at index zero of an array, or the fallback when the array has
none. -/
def firstOr {α : Type} (fallback : α) : List α → α
  | [] => fallback
  | entry :: _ => entry

@[simp]
theorem firstOr_cons {α : Type} (fallback entry : α) (rest : List α) :
    firstOr fallback (entry :: rest) = entry :=
  rfl

theorem firstOr_append {α : Type} {fallback : α} {entries rest : List α}
    (nonempty : entries ≠ []) :
    firstOr fallback (entries ++ rest) = firstOr fallback entries := by
  cases entries with
  | nil => exact False.elim (nonempty rfl)
  | cons entry tail => rfl

/-- `struct paxos_value`: the length is the length of the byte list. -/
structure PaxosValue where
  bytes : List UInt8
  deriving DecidableEq, Repr

/-- A zeroed `paxos_value`: length zero and no bytes. -/
def PaxosValue.empty : PaxosValue :=
  ⟨[]⟩

def PaxosValue.len (value : PaxosValue) : Nat :=
  value.bytes.length

structure PaxosPrepare where
  src : Nat
  iid : Nat
  ballot : Nat
  deriving DecidableEq, Repr

structure PaxosPromise where
  src : Nat
  iid : Nat
  ballot0 : Nat
  valueBallot0 : Nat
  nAids : Nat
  aids : List Nat
  value0 : PaxosValue
  values : List PaxosValue
  ballots : List Nat
  valueBallots : List Nat
  deriving DecidableEq, Repr

structure PaxosAccept where
  src : Nat
  iid : Nat
  ballot : Nat
  value : PaxosValue
  deriving DecidableEq, Repr

/-- `struct paxos_accepted`, both a message and an acceptor's record of an
instance.  `values` is `none` for the null pointer. -/
structure PaxosAccepted where
  src : Nat
  iid : Nat
  ballot0 : Nat
  valueBallot0 : Nat
  nAids : Nat
  aids : List Nat
  value0 : PaxosValue
  values : Option (List PaxosValue)
  ballots : List Nat
  valueBallots : List Nat
  deriving DecidableEq, Repr

namespace PaxosAccepted

def zeroed : PaxosAccepted :=
  ⟨0, 0, 0, 0, 0, [], PaxosValue.empty, none, [], []⟩

/-- `ballots[0]`. -/
def ballot (record : PaxosAccepted) : Nat :=
  firstOr 0 record.ballots

/-- `value_ballots[0]`. -/
def valueBallot (record : PaxosAccepted) : Nat :=
  firstOr 0 record.valueBallots

/-- `aids[0]`. -/
def aid (record : PaxosAccepted) : Nat :=
  firstOr 0 record.aids

/-- `values[0]`, the empty value where there is no array. -/
def value (record : PaxosAccepted) : PaxosValue :=
  firstOr PaxosValue.empty (record.values.getD [])

end PaxosAccepted

structure PaxosPreempted where
  aid : Nat
  iid : Nat
  ballot : Nat
  deriving DecidableEq, Repr

structure PaxosRepeat where
  first : Nat
  last : Nat
  deriving DecidableEq, Repr

structure PaxosTrim where
  iid : Nat
  deriving DecidableEq, Repr

structure PaxosAcceptorState where
  aid : Nat
  trimIid : Nat
  deriving DecidableEq, Repr

structure PaxosClientValue where
  value : PaxosValue
  deriving DecidableEq, Repr

/-- `struct paxos_message`: the message type and its union. -/
inductive PaxosMessage where
  | prepare (message : PaxosPrepare)
  | promise (message : PaxosPromise)
  | accept (message : PaxosAccept)
  | accepted (message : PaxosAccepted)
  | preempted (message : PaxosPreempted)
  | repeat (message : PaxosRepeat)
  | trim (message : PaxosTrim)
  | acceptorState (message : PaxosAcceptorState)
  | clientValue (message : PaxosClientValue)
  deriving DecidableEq, Repr

def maxNOfProposers : Nat :=
  1000

def paxosQuorum (acceptors : Nat) : Nat :=
  acceptors / 2 + 1

end LibPaxos
