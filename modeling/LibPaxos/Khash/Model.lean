import LibPaxos.Types
import LibPaxos.Library.CheckedArray

/-!
# The hash table of `khash.h`

The functions that `KHASH_INIT2` generates for a map, over any type of keys,
with the hash function as a parameter; the program uses `KHASH_MAP_INIT_INT`,
whose hash function returns the key.

A bucket has two flag bits, which are one `Flag` here, and a cell for its key
and one for its value.  A cell is `none` until it is written, as after
`malloc`, and a function that uses such a cell, or an index outside an array,
has no result.  Neither has a loop that does not end within its fuel.
Allocation does not fail.

The bound `n_buckets * 0.77 + 0.5` is computed in floating point.  The number of
buckets is a power of two below `2^32`, for which rounding does not change the
integer part of the result.
-/

namespace LibPaxos

open LibPaxos.Library

/-- The two flag bits of a bucket. -/
structure Flag where
  isempty : Bool
  isdel : Bool
  deriving DecidableEq, Repr

/-- The flags that `memset` with `0xaa` leaves. -/
def Flag.empty : Flag :=
  ⟨true, false⟩

/-- `__ac_iseither`. -/
def Flag.iseither (flag : Flag) : Bool :=
  flag.isempty || flag.isdel

/-- `kh_name_t`, for keys in `κ` and values in `α`. -/
structure Khash (κ α : Type) where
  nBuckets : Nat
  size : Nat
  nOccupied : Nat
  upperBound : Nat
  flags : List Flag
  keys : List (Option κ)
  vals : List (Option α)
  deriving Repr

def khInit {κ α : Type} : Khash κ α :=
  ⟨0, 0, 0, 0, [], [], []⟩

def kroundup32 (x : Nat) : Nat :=
  let x := word32 (x + (2 ^ 32 - 1))
  let x := x ||| x >>> 1
  let x := x ||| x >>> 2
  let x := x ||| x >>> 4
  let x := x ||| x >>> 8
  let x := x ||| x >>> 16
  word32 (x + 1)

/-- `(khint_t)(n * __ac_HASH_UPPER + 0.5)`. -/
def hashUpper (n : Nat) : Nat :=
  (77 * n + 50) / 100

/-- The number of buckets that `kh_resize` makes of a requested number. -/
def resizeBuckets (n : Nat) : Nat :=
  if kroundup32 n < 4 then 4 else kroundup32 n

/-- `krealloc` of an array to a number of cells. -/
def krealloc {α : Type} (cells : List (Option α)) (n : Nat) :
    List (Option α) :=
  cells.take n ++ List.replicate (n - cells.length) none

/-- `__ac_set_isdel_true`. -/
def setIsdelTrue (flags : List Flag) (i : Nat) : Option (List Flag) :=
  flags[i]?.bind fun flag =>
    CheckedArray.write flags i { flag with isdel := true }

/-- `__ac_set_isempty_false`. -/
def setIsemptyFalse (flags : List Flag) (i : Nat) : Option (List Flag) :=
  flags[i]?.bind fun flag =>
    CheckedArray.write flags i { flag with isempty := false }

/-- The next bucket of a search: `i = (i + (++step)) & mask`, with the step
after its increment. -/
def nextBucket (mask i step : Nat) : Nat :=
  word32 (i + step) &&& mask

namespace Khash

variable {κ α : Type} [DecidableEq κ] (hash : κ → Nat)

/-- Whether the loop of a search ends at a bucket: the bucket is empty, or not
deleted and has the key. -/
def stopsAt (h : Khash κ α) (key : κ) (i : Nat) : Option Bool :=
  h.flags[i]?.bind fun flag =>
    if flag.isempty then
      some true
    else if flag.isdel then
      some false
    else
      h.keys[i]?.join.map fun found => decide (found = key)

/-- The loop of `kh_get`. -/
def getLoop (h : Khash κ α) (key : κ) (last : Nat) :
    Nat → Nat → Nat → Option Nat
  | 0, _, _ => none
  | fuel + 1, i, step =>
      (h.stopsAt key i).bind fun stops =>
        if stops then
          h.flags[i]?.map fun flag =>
            if flag.iseither then h.nBuckets else i
        else
          let i := nextBucket (h.nBuckets - 1) i (step + 1)
          if i = last then
            some h.nBuckets
          else
            getLoop h key last fuel i (step + 1)

def get (h : Khash κ α) (key : κ) : Option Nat :=
  if h.nBuckets ≠ 0 then
    let i := hash key &&& (h.nBuckets - 1)
    h.getLoop key i h.nBuckets i 0
  else
    some 0

omit [DecidableEq κ] in
/-- `kh_exist`. -/
def exist (h : Khash κ α) (x : Nat) : Option Bool :=
  h.flags[x]?.map fun flag => !flag.iseither

omit [DecidableEq κ] in
/-- `kh_value`. -/
def value (h : Khash κ α) (x : Nat) : Option α :=
  h.vals[x]?.join

omit [DecidableEq κ] in
/-- An assignment to `kh_value`. -/
def setValue (h : Khash κ α) (x : Nat) (value : α) : Option (Khash κ α) :=
  (CheckedArray.write h.vals x (some value)).map fun vals =>
    { h with vals := vals }

omit [DecidableEq κ] in
/-- `kh_del`. -/
def del (h : Khash κ α) (x : Nat) : Option (Khash κ α) :=
  if x ≠ h.nBuckets then
    h.flags[x]?.bind fun flag =>
      if !flag.iseither then
        (setIsdelTrue h.flags x).map fun flags =>
          { h with flags := flags, size := word32 (h.size + (2 ^ 32 - 1)) }
      else
        some h
  else
    some h

/-! ### Resizing -/

/-- The memory that the rehashing of `kh_resize` works on. -/
structure Rehash (κ α : Type) where
  flags : List Flag
  newFlags : List Flag
  keys : List (Option κ)
  vals : List (Option α)

omit [DecidableEq κ] in
/-- The search for an empty bucket among the new flags. -/
def emptyLoop (newFlags : List Flag) (newMask : Nat) :
    Nat → Nat → Nat → Option Nat
  | 0, _, _ => none
  | fuel + 1, i, step =>
      newFlags[i]?.bind fun flag =>
        if !flag.isempty then
          emptyLoop newFlags newMask fuel (nextBucket newMask i (step + 1))
            (step + 1)
        else
          some i

omit [DecidableEq κ] in
/-- The kick-out loop: the element goes to an empty bucket of the new table; an
element of the old table that is still there is kicked out and comes next. -/
def kickOut (nBuckets newNBuckets : Nat) :
    Nat → Rehash κ α → κ → α → Option (Rehash κ α)
  | 0, _, _, _ => none
  | fuel + 1, s, key, val =>
      (emptyLoop s.newFlags (newNBuckets - 1) newNBuckets
        (hash key &&& (newNBuckets - 1)) 0).bind fun i =>
      (setIsemptyFalse s.newFlags i).bind fun newFlags =>
      (if i < nBuckets then
        s.flags[i]?.map fun flag => !flag.iseither
      else
        some false).bind fun kicks =>
      if kicks then
        s.keys[i]?.join.bind fun nextKey =>
        s.vals[i]?.join.bind fun nextVal =>
        (CheckedArray.write s.keys i (some key)).bind fun keys =>
        (CheckedArray.write s.vals i (some val)).bind fun vals =>
        (setIsdelTrue s.flags i).bind fun flags =>
          kickOut nBuckets newNBuckets fuel ⟨flags, newFlags, keys, vals⟩
            nextKey nextVal
      else
        (CheckedArray.write s.keys i (some key)).bind fun keys =>
        (CheckedArray.write s.vals i (some val)).map fun vals =>
          ⟨s.flags, newFlags, keys, vals⟩

omit [DecidableEq κ] in
/-- The body of the rehashing loop, for one old bucket. -/
def rehashBucket (nBuckets newNBuckets : Nat) (s : Rehash κ α) (j : Nat) :
    Option (Rehash κ α) :=
  s.flags[j]?.bind fun flag =>
    if !flag.iseither then
      s.keys[j]?.join.bind fun key =>
      s.vals[j]?.join.bind fun val =>
      (setIsdelTrue s.flags j).bind fun flags =>
        kickOut hash nBuckets newNBuckets (nBuckets + 1)
          { s with flags := flags } key val
    else
      some s

omit [DecidableEq κ] in
/-- The memory as `kh_resize` prepares it: new flags, all empty, and longer
arrays if the table is to grow. -/
def rehashStart (h : Khash κ α) (newNBuckets : Nat) : Rehash κ α where
  flags := h.flags
  newFlags := List.replicate newNBuckets Flag.empty
  keys :=
    if h.nBuckets < newNBuckets then krealloc h.keys newNBuckets else h.keys
  vals :=
    if h.nBuckets < newNBuckets then krealloc h.vals newNBuckets else h.vals

omit [DecidableEq κ] in
/-- The table that `kh_resize` leaves: the arrays get shorter if the table
shrinks. -/
def rehashEnd (h : Khash κ α) (newNBuckets : Nat) (s : Rehash κ α) :
    Khash κ α where
  nBuckets := newNBuckets
  size := h.size
  nOccupied := h.size
  upperBound := hashUpper newNBuckets
  flags := s.newFlags
  keys :=
    if newNBuckets < h.nBuckets then krealloc s.keys newNBuckets else s.keys
  vals :=
    if newNBuckets < h.nBuckets then krealloc s.vals newNBuckets else s.vals

omit [DecidableEq κ] in
/-- `kh_resize`. -/
def resize (h : Khash κ α) (newNBuckets : Nat) : Option (Khash κ α) :=
  let newNBuckets := resizeBuckets newNBuckets
  if hashUpper newNBuckets ≤ h.size then
    -- the requested size is too small
    some h
  else
    (CheckedArray.forEach (rehashBucket hash h.nBuckets newNBuckets)
      h.nBuckets 0 (h.rehashStart newNBuckets)).map (h.rehashEnd newNBuckets)

/-! ### Putting -/

omit [DecidableEq κ] in
/-- The first part of `kh_put`: a full table is cleared of its deleted buckets,
or expanded. -/
def makeRoom (h : Khash κ α) : Option (Khash κ α) :=
  if h.upperBound ≤ h.nOccupied then
    if word32 (h.size <<< 1) < h.nBuckets then
      h.resize hash (h.nBuckets - 1)
    else
      h.resize hash (word32 (h.nBuckets + 1))
  else
    some h

/-- The loop of `kh_put`, from the bucket where the search is, with the last
deleted bucket that it has seen, and the choice of the bucket after it. -/
def putLoop (h : Khash κ α) (key : κ) (last : Nat) :
    Nat → Nat → Nat → Nat → Option Nat
  | 0, _, _, _ => none
  | fuel + 1, i, step, site =>
      (h.stopsAt key i).bind fun stops =>
      h.flags[i]?.bind fun flag =>
        if stops then
          some (if flag.isempty ∧ site ≠ h.nBuckets then site else i)
        else
          let site := if flag.isdel then i else site
          let i := nextBucket (h.nBuckets - 1) i (step + 1)
          if i = last then
            some (if site = h.nBuckets then i else site)
          else
            putLoop h key last fuel i (step + 1) site

/-- The bucket that `kh_put` chooses for a key. -/
def putBucket (h : Khash κ α) (key : κ) : Option Nat :=
  let i := hash key &&& (h.nBuckets - 1)
  h.flags[i]?.bind fun flag =>
    if flag.isempty then
      some i
    else
      h.putLoop key i h.nBuckets i 0 h.nBuckets

omit [DecidableEq κ] in
/-- The last part of `kh_put`: the key is written unless the bucket has it. -/
def claim (h : Khash κ α) (key : κ) (x : Nat) : Option (Int × Khash κ α) :=
  h.flags[x]?.bind fun flag =>
    if flag.isempty then
      (CheckedArray.write h.keys x (some key)).bind fun keys =>
      (CheckedArray.write h.flags x ⟨false, false⟩).map fun flags =>
        (1, { h with
          keys := keys
          flags := flags
          size := word32 (h.size + 1)
          nOccupied := word32 (h.nOccupied + 1) })
    else if flag.isdel then
      (CheckedArray.write h.keys x (some key)).bind fun keys =>
      (CheckedArray.write h.flags x ⟨false, false⟩).map fun flags =>
        (2, { h with
          keys := keys
          flags := flags
          size := word32 (h.size + 1) })
    else
      some (0, h)

/-- `kh_put`: the flag `ret`, the bucket of the key, and the table. -/
def put (h : Khash κ α) (key : κ) : Option (Int × Nat × Khash κ α) :=
  (h.makeRoom hash).bind fun h =>
  (h.putBucket hash key).bind fun x =>
    (h.claim key x).map fun result => (result.1, x, result.2)

/-! ### The calls of the program -/

/-- `kh_put` and the assignment of the value that follows it: the flag `ret`
and the table. -/
def putValue (h : Khash κ α) (key : κ) (value : α) :
    Option (Int × Khash κ α) :=
  (h.put hash key).bind fun result =>
    (result.2.2.setValue result.2.1 value).map fun h => (result.1, h)

/-- `kh_get`, the test for the end, and the value that is read. -/
def find (h : Khash κ α) (key : κ) : Option (Option α) :=
  (h.get hash key).bind fun k =>
    if k = h.nBuckets then some none else (h.value k).map some

def erase (h : Khash κ α) (key : κ) : Option (Khash κ α) :=
  (h.get hash key).bind h.del

omit [DecidableEq κ] in
/-- The entry of a bucket that exists is listed. -/
def listBucket (h : Khash κ α) (listed : List (κ × α)) (k : Nat) :
    Option (List (κ × α)) :=
  (h.exist k).bind fun exist =>
    if exist then
      h.keys[k]?.join.bind fun key =>
        (h.value k).map fun value => listed ++ [(key, value)]
    else
      some listed

omit [DecidableEq κ] in
/-- The loop of `kh_foreach`, from `kh_begin` to `kh_end`. -/
def contents (h : Khash κ α) : Option (List (κ × α)) :=
  CheckedArray.forEach h.listBucket h.nBuckets 0 []

omit [DecidableEq κ] in
/-- The body of a loop over the buckets that frees and deletes some of the
values. -/
def removeBucket {σ : Type} (drop : α → Bool) (freed : σ → α → σ)
    (state : σ × Khash κ α) (k : Nat) : Option (σ × Khash κ α) :=
  (state.2.exist k).bind fun exist =>
    if exist then
      (state.2.value k).bind fun value =>
        if drop value then
          (state.2.del k).map fun h => (freed state.1 value, h)
        else
          some state
    else
      some state

omit [DecidableEq κ] in
/-- The loop from `kh_begin` to `kh_end` with this body. -/
def removeLoop {σ : Type} (drop : α → Bool) (freed : σ → α → σ) (start : σ)
    (h : Khash κ α) : Option (σ × Khash κ α) :=
  CheckedArray.forEach (removeBucket drop freed) h.nBuckets 0 (start, h)

end Khash

end LibPaxos
