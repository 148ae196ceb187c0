import Mathlib.Algebra.Ring.Int.Defs
import Mathlib.Algebra.Ring.Nat
import Mathlib.Data.List.TakeWhile

/-!
# Strings of C

Functions of the C library on strings, in the "C" locale, with a 64-bit `long`
and a 32-bit `int`.  A string is the list of its characters before the
terminating null character; a pointer into a string is the rest of the string
from there on.
-/

namespace LibPaxos.Library

namespace CString

def isspace (c : Char) : Bool :=
  [' ', '\t', '\n', '\x0b', '\x0c', '\r'].contains c

def isdigit (c : Char) : Bool :=
  decide ('0'.toNat ≤ c.toNat) && decide (c.toNat ≤ '9'.toNat)

def tolower (c : Char) : Char :=
  if 'A'.toNat ≤ c.toNat ∧ c.toNat ≤ 'Z'.toNat then
    Char.ofNat (c.toNat + 32)
  else
    c

/-- Whether `strcasecmp` of two strings is 0. -/
def sameIgnoringCase (left right : List Char) : Bool :=
  decide (left.map tolower = right.map tolower)

/-- `strsep` with one separator: the token, and the rest behind the separator
or the null pointer when there is none. -/
def strsep (separator : Char) (text : List Char) :
    List Char × Option (List Char) :=
  match text.dropWhile fun c => decide (c ≠ separator) with
  | [] => (text, none)
  | _ :: rest => (text.takeWhile (fun c => decide (c ≠ separator)), some rest)

/-- The value of a sequence of decimal digits. -/
def number (digits : List Char) : Nat :=
  digits.foldl (fun value digit => 10 * value + (digit.toNat - '0'.toNat)) 0

/-- An optional sign: whether it is a minus sign, and what follows. -/
def sign (text : List Char) : Bool × List Char :=
  if text.head? = some '-' then (true, text.tail)
  else if text.head? = some '+' then (false, text.tail)
  else (false, text)

/-- The white space, sign and digits at the front of a string: whether there is
a minus sign, the digits and the rest. -/
def numeral (text : List Char) : Bool × List Char × List Char :=
  let (negative, unsigned) := sign (text.dropWhile isspace)
  (negative, unsigned.takeWhile isdigit, unsigned.dropWhile isdigit)

/-- What `strtoull` returns in base 10: the number, the rest of the string and
whether `errno` is `ERANGE`. -/
structure Conversion where
  value : Nat
  rest : List Char
  range : Bool
  deriving DecidableEq

/-- `strtoull` in base 10.  A minus sign negates the number in the unsigned
type. -/
def strtoull (text : List Char) : Conversion :=
  let (negative, digits, rest) := numeral text
  if digits = [] then
    ⟨0, text, false⟩
  else if 2 ^ 64 ≤ number digits then
    ⟨2 ^ 64 - 1, rest, true⟩
  else if negative then
    ⟨(2 ^ 64 - number digits) % 2 ^ 64, rest, false⟩
  else
    ⟨number digits, rest, false⟩

/-- `strtol` in base 10: the number and the rest of the string, which is the
whole string when there are no digits. -/
def strtol (text : List Char) : Int × List Char :=
  let (negative, digits, rest) := numeral text
  if digits = [] then
    (0, text)
  else if negative then
    (max (-2 ^ 63) (-number digits), rest)
  else
    (min (2 ^ 63 - 1) (number digits), rest)

/-- A `long` stored into an `int`. -/
def intOfLong (value : Int) : Int :=
  value.bmod (2 ^ 32)

/-- The conversion `%d` of `sscanf`. -/
def scanInt (text : List Char) : Option (Int × List Char) :=
  let (value, rest) := strtol text
  if rest = text then none else some (intOfLong value, rest)

/-- The conversion `%s` of `sscanf`. -/
def scanString (text : List Char) : Option (List Char × List Char) :=
  let text := text.dropWhile isspace
  let token := text.takeWhile fun c => !isspace c
  if token = [] then none
  else some (token, text.dropWhile fun c => !isspace c)

def AllSpace (text : List Char) : Prop :=
  ∀ c ∈ text, isspace c = true

def AllDigit (text : List Char) : Prop :=
  ∀ c ∈ text, isdigit c = true

theorem isspace_iff {c : Char} :
    isspace c = true ↔
      c = ' ' ∨ c = '\t' ∨ c = '\n' ∨ c = '\x0b' ∨ c = '\x0c' ∨ c = '\r' := by
  simp [isspace]

theorem isdigit_of_isspace {c : Char} (space : isspace c = true) :
    isdigit c = false := by
  rcases isspace_iff.mp space with rfl | rfl | rfl | rfl | rfl | rfl
  all_goals decide

theorem isspace_of_isdigit {c : Char} (digit : isdigit c = true) :
    isspace c = false := by
  cases space : isspace c with
  | false => rfl
  | true =>
      rw [isdigit_of_isspace space] at digit
      cases digit

theorem tolower_of_isspace {c : Char} (space : isspace c = true) :
    tolower c = c := by
  rcases isspace_iff.mp space with rfl | rfl | rfl | rfl | rfl | rfl
  all_goals decide

theorem tolower_of_isdigit {c : Char} (digit : isdigit c = true) :
    tolower c = c := by
  unfold isdigit at digit
  rw [Bool.and_eq_true, decide_eq_true_eq, decide_eq_true_eq] at digit
  have below : '9'.toNat < 'A'.toNat := by decide
  apply if_neg
  omega

theorem dropWhile_isspace_append {space rest : List Char}
    (all : AllSpace space) :
    (space ++ rest).dropWhile isspace = rest.dropWhile isspace :=
  List.dropWhile_append_of_pos all

theorem dropWhile_isspace_all {space : List Char} (all : AllSpace space) :
    space.dropWhile isspace = [] :=
  List.dropWhile_eq_nil_iff.mpr all

/-- A numeral without a sign, behind white space. -/
theorem numeral_of_digits {lead digits tail : List Char}
    (space : AllSpace lead) (nonempty : digits ≠ []) (all : AllDigit digits)
    (ends : ∀ c, tail.head? = some c → isdigit c = false) :
    numeral (lead ++ (digits ++ tail)) = (false, digits, tail) := by
  cases digits with
  | nil => exact absurd rfl nonempty
  | cons first others =>
      have firstDigit := all first List.mem_cons_self
      have trimmed : (lead ++ (first :: others ++ tail)).dropWhile isspace =
          first :: others ++ tail := by
        rw [dropWhile_isspace_append space, List.cons_append,
          List.dropWhile_cons_of_neg]
        rw [isspace_of_isdigit firstDigit]
        decide
      have unsigned : sign (first :: others ++ tail) =
          (false, first :: others ++ tail) := by
        have notMinus : first ≠ '-' := by
          rintro rfl
          exact absurd firstDigit (by decide)
        have notPlus : first ≠ '+' := by
          rintro rfl
          exact absurd firstDigit (by decide)
        simp [sign, notMinus, notPlus]
      have stops : tail.takeWhile isdigit = [] ∧
          tail.dropWhile isdigit = tail := by
        cases tail with
        | nil => exact ⟨rfl, rfl⟩
        | cons c rest =>
            have notDigit := ends c rfl
            simp [notDigit]
      simp only [numeral, trimmed, unsigned]
      rw [List.takeWhile_append_of_pos all, List.dropWhile_append_of_pos all,
        stops.1, stops.2, List.append_nil]

example : strtoull " -1kb".toList = ⟨2 ^ 64 - 1, "kb".toList, false⟩ := by
  decide

end CString

end LibPaxos.Library
