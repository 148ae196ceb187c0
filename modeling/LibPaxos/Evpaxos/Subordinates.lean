import Mathlib.Algebra.BigOperators.Group.List.Basic
import LibPaxos.Library.CheckedArray
import LibPaxos.Library.Worklist
import LibPaxos.Evpaxos.Evacceptor

/-!
# Counting the subordinates of a replica

`evacceptor_init_internal` searches the groups below its own with two arrays as
long as the list of acceptors, one for the groups it has scanned and one for the
groups to scan, where `-1` marks a free place.  The loops are given here with
the index of every access, and shown to do what `countSubordinates` does.  The
arrays then hold the two lists of a search with a work list, padded with `-1`.
-/

namespace LibPaxos

open LibPaxos.Library

/-! ### The loops with their accesses -/

/-- `malloc` of an array, with what the memory held before. -/
def mallocInts (memory : Nat → Int) (count : Nat) : List Int :=
  (List.range count).map memory

/-- The scan for a free place, over `count` places from index `j` on. -/
def putGroupLoop (grp : Int) : Nat → Nat → List Int → Option (List Int)
  | 0, _, places => some places
  | count + 1, j, places =>
      places[j]?.bind fun place =>
        if place = grp then
          some places
        else if place = -1 then
          CheckedArray.write places j grp
        else
          putGroupLoop grp count (j + 1) places

section Loops

variable (c : EvpaxosConfig) (id : Nat)

/-- The body of the loop over the acceptors. -/
def scanAcceptorAt (grp : Int) (scanned : List Int)
    (progress : Nat × List Int) (i : Nat) : Option (Nat × List Int) :=
  c.acceptors[i]?.bind fun entry =>
    c.acceptors[id]?.bind fun own =>
      if entry.groupid = grp ∧ entry.groupid = own.parentid then
        some (progress.1 + 1, progress.2)
      else if entry.parentid = grp then
        (CheckedArray.contains entry.groupid c.acceptors.length 0
          scanned).bind fun inScanned =>
        (if inScanned then some true
          else CheckedArray.contains entry.groupid c.acceptors.length 0
            progress.2).bind fun fnd =>
        if fnd then
          some (progress.1 + 1, progress.2)
        else
          (putGroupLoop entry.groupid c.acceptors.length 0 progress.2).map
            fun toscan => (progress.1 + 1, toscan)
      else
        some progress

/-- The work-list loop, for at most `fuel` tests of its condition. -/
def scanGroupsLoop : Nat → List Int → List Int → Nat → Option Nat
  | 0, _, _, _ => none
  | fuel + 1, scanned, toscan, ncnt =>
      toscan[0]?.bind fun grp =>
        if grp = -1 then
          some ncnt
        else
          ((CheckedArray.shiftDown (c.acceptors.length - 1) 0 toscan).bind
            fun toscan => CheckedArray.write toscan
              (c.acceptors.length - 1) (-1)).bind fun toscan =>
          (putGroupLoop grp c.acceptors.length 0 scanned).bind
            fun scanned =>
          (CheckedArray.forEach (scanAcceptorAt c id grp scanned)
            c.acceptors.length 0 (ncnt, toscan)).bind fun progress =>
          scanGroupsLoop fuel scanned progress.2 progress.1

/-- The part of `evacceptor_init_internal` that counts the subordinates; it is
`none` when an access is out of range or `fuel` runs out. -/
def initSubordinates (memory : Nat → Int) (fuel : Nat) : Option Nat :=
  (CheckedArray.fill (-1) c.acceptors.length 0
    (mallocInts memory c.acceptors.length)).bind fun scanned =>
  (CheckedArray.fill (-1) c.acceptors.length 0
    (mallocInts memory c.acceptors.length)).bind fun toscan =>
  c.acceptors[id]?.bind fun own =>
  (if own.groupid ≠ own.parentid then
    CheckedArray.write toscan 0 own.groupid
  else
    some toscan).bind fun toscan =>
  scanGroupsLoop c id fuel scanned toscan 0

end Loops

theorem putGroupLoop_append (grp : Int) (rest : List Int) :
    ∀ before : List Int,
      putGroupLoop grp rest.length before.length (before ++ rest) =
        some (before ++ putGroup grp rest) := by
  induction rest with
  | nil =>
      intro before
      rfl
  | cons place rest inductionHypothesis =>
      intro before
      have next := inductionHypothesis (before ++ [place])
      rw [List.length_append, List.length_singleton, List.append_assoc,
        List.singleton_append] at next
      rw [List.length_cons, putGroupLoop, putGroup,
        CheckedArray.getElem?_append_length, Option.bind_some]
      split
      · rfl
      · split
        · exact CheckedArray.write_append_length before place grp rest
        · rw [next, List.append_assoc, List.singleton_append]

theorem length_putGroup (grp : Int) (places : List Int) :
    (putGroup grp places).length = places.length := by
  induction places with
  | nil => rfl
  | cons place rest inductionHypothesis =>
      unfold putGroup
      split
      · rfl
      · split
        · rfl
        · rw [List.length_cons, List.length_cons, inductionHypothesis]

theorem putGroupLoop_all {grp : Int} {count : Nat} {places : List Int}
    (length : places.length = count) :
    putGroupLoop grp count 0 places = some (putGroup grp places) := by
  rw [← length]
  exact putGroupLoop_append grp places []

theorem length_scanAcceptor (own : Address) (grp : Int) (scanned : List Int)
    (progress : Nat × List Int) (entry : Address) :
    (scanAcceptor own grp scanned progress entry).2.length =
      progress.2.length := by
  unfold scanAcceptor
  simp only
  split
  · rfl
  · split
    · split
      · rfl
      · exact length_putGroup _ _
    · rfl

theorem length_foldl_scanAcceptor (own : Address) (grp : Int)
    (scanned : List Int) (entries : List Address) :
    ∀ progress : Nat × List Int,
      (entries.foldl (scanAcceptor own grp scanned) progress).2.length =
        progress.2.length := by
  induction entries with
  | nil =>
      intro progress
      rfl
  | cons entry rest inductionHypothesis =>
      intro progress
      rw [List.foldl_cons, inductionHypothesis, length_scanAcceptor]

theorem scanAcceptorAt_eq {c : EvpaxosConfig} {id i : Nat}
    {own entry : Address} {grp : Int} {scanned : List Int}
    {progress : Nat × List Int}
    (isOwn : c.acceptors[id]? = some own)
    (isEntry : c.acceptors[i]? = some entry)
    (scannedLength : scanned.length = c.acceptors.length)
    (toscanLength : progress.2.length = c.acceptors.length) :
    scanAcceptorAt c id grp scanned progress i =
      some (scanAcceptor own grp scanned progress entry) := by
  have inScanned := CheckedArray.contains_all entry.groupid scanned
  have inToscan := CheckedArray.contains_all entry.groupid progress.2
  rw [scannedLength] at inScanned
  rw [toscanLength] at inToscan
  unfold scanAcceptorAt scanAcceptor
  simp only [isOwn, isEntry, Option.bind_some, inScanned, inToscan,
    putGroupLoop_all toscanLength, decide_eq_true_eq]
  split
  · rfl
  · split
    · by_cases listed : entry.groupid ∈ scanned
      · simp [listed]
      · by_cases waiting : entry.groupid ∈ progress.2
        · simp [listed, waiting]
        · simp [listed, waiting]
    · rfl

/-- With arrays as long as the list of acceptors every access is in range. -/
theorem scanGroupsLoop_eq {c : EvpaxosConfig} {id : Nat} {own : Address}
    (isOwn : c.acceptors[id]? = some own) (fuel : Nat) :
    ∀ {scanned toscan : List Int} (ncnt : Nat),
      scanned.length = c.acceptors.length →
      toscan.length = c.acceptors.length →
      scanGroupsLoop c id fuel scanned toscan ncnt =
        scanGroups c own fuel scanned toscan ncnt := by
  induction fuel with
  | zero =>
      intro scanned toscan ncnt _ _
      rfl
  | succ fuel inductionHypothesis =>
      intro scanned toscan ncnt scannedLength toscanLength
      cases toscan with
      | nil => rfl
      | cons grp rest =>
          rw [List.length_cons] at toscanLength
          have shifted := CheckedArray.shiftDown_write grp rest (-1)
          rw [show rest.length = c.acceptors.length - 1 by omega] at shifted
          have putLength : (putGroup grp scanned).length =
              c.acceptors.length :=
            (length_putGroup grp scanned).trans scannedLength
          have restLength : (rest ++ [-1]).length = c.acceptors.length := by
            rw [List.length_append, List.length_singleton]
            exact toscanLength
          have kept : ∀ (progress : Nat × List Int) (entry : Address),
              entry ∈ c.acceptors →
              progress.2.length = c.acceptors.length →
              (scanAcceptor own grp (putGroup grp scanned) progress
                entry).2.length = c.acceptors.length := by
            intro progress entry _ length
            rw [length_scanAcceptor]
            exact length
          have scans := CheckedArray.forEach_all kept
            (fun progress i entry isEntry length =>
              scanAcceptorAt_eq isOwn isEntry putLength length)
            (ncnt, rest ++ [-1]) restLength
          rw [scanGroupsLoop, scanGroups, List.getElem?_cons_zero,
            Option.bind_some, shifted, Option.bind_some,
            putGroupLoop_all scannedLength, Option.bind_some, scans,
            Option.bind_some]
          split
          · rfl
          · apply inductionHypothesis
            · exact putLength
            · rw [length_foldl_scanAcceptor]
              exact restLength

theorem getElem?_acceptor {c : EvpaxosConfig} {id : Nat}
    (valid : id < c.acceptors.length) :
    c.acceptors[id]? = some (c.acceptor id) := by
  rw [EvpaxosConfig.acceptor, List.getD_eq_getElem?_getD,
    List.getElem?_eq_getElem valid, Option.getD_some]

theorem initSubordinates_eq {c : EvpaxosConfig} {id : Nat}
    (valid : id < c.acceptors.length) (memory : Nat → Int) :
    initSubordinates c id memory (c.acceptors.length + 1) =
      countSubordinates c id := by
  have length : (mallocInts memory c.acceptors.length).length =
      c.acceptors.length := by
    rw [mallocInts, List.length_map, List.length_range]
  have filled := CheckedArray.fill_all (-1)
    (mallocInts memory c.acceptors.length)
  rw [length] at filled
  have isOwn := getElem?_acceptor valid
  have scannedLength : (List.replicate c.acceptors.length (-1 : Int)).length =
      c.acceptors.length := List.length_replicate
  unfold initSubordinates
  rw [filled, Option.bind_some, Option.bind_some, isOwn, Option.bind_some]
  by_cases delegate : (c.acceptor id).groupid ≠ (c.acceptor id).parentid
  · have put : CheckedArray.write (List.replicate c.acceptors.length (-1)) 0
        (c.acceptor id).groupid =
        some ((List.replicate c.acceptors.length (-1)).set 0
          (c.acceptor id).groupid) := by
      rw [CheckedArray.write, if_pos (by rw [scannedLength]; omega)]
    have toscanLength : ((List.replicate c.acceptors.length (-1)).set 0
        (c.acceptor id).groupid).length = c.acceptors.length := by
      rw [List.length_set, scannedLength]
    rw [if_pos delegate, put, Option.bind_some,
      scanGroupsLoop_eq isOwn _ 0 scannedLength toscanLength]
    simp only [countSubordinates, if_pos delegate]
  · rw [if_neg delegate, Option.bind_some,
      scanGroupsLoop_eq isOwn _ 0 scannedLength scannedLength]
    simp only [countSubordinates, if_neg delegate]

/-! ### The search behind the loops -/

/-- An array of groups, with its free places at the end. -/
def padded (count : Nat) (groups : List Int) : List Int :=
  groups ++ List.replicate (count - groups.length) (-1)

theorem mem_padded {count : Nat} {groups : List Int} {grp : Int}
    (isGroup : grp ≠ -1) : grp ∈ padded count groups ↔ grp ∈ groups := by
  rw [padded, List.mem_append, or_iff_left]
  intro free
  exact isGroup (List.eq_of_mem_replicate free)

/-- A group that is not in the array goes to its first free place. -/
theorem putGroup_padded {grp : Int} {groups : List Int} :
    ∀ {count : Nat}, -1 ∉ groups → grp ∉ groups →
      groups.length < count →
      putGroup grp (padded count groups) = padded count (groups ++ [grp]) := by
  induction groups with
  | nil =>
      intro count _ _ room
      obtain ⟨free, rfl⟩ := Nat.exists_eq_succ_of_ne_zero
        (Nat.ne_of_gt room)
      by_cases isFree : grp = -1
      · simp [padded, putGroup, isFree, List.replicate_succ]
      · simp [padded, putGroup, Ne.symm isFree, List.replicate_succ]
  | cons place rest inductionHypothesis =>
      intro count noFree missing room
      rw [List.mem_cons, not_or] at noFree missing
      rw [List.length_cons] at room
      have roomLeft : rest.length < count - 1 := by omega
      have tail := inductionHypothesis noFree.2 missing.2 roomLeft
      have shift : ∀ groups : List Int,
          padded count (place :: groups) =
            place :: padded (count - 1) groups := by
        intro groups
        rw [padded, padded, List.length_cons, List.cons_append]
        congr 3
        omega
      rw [shift rest, List.cons_append, shift, putGroup,
        if_neg (Ne.symm missing.1), if_neg (Ne.symm noFree.1), tail]

/-- A free place is not a group to put. -/
theorem putGroup_free (places : List Int) : putGroup (-1) places = places := by
  induction places with
  | nil => rfl
  | cons place rest inductionHypothesis =>
      unfold putGroup
      split
      · rfl
      · rw [inductionHypothesis]

section Search

variable (c : EvpaxosConfig) (own : Address)

/-- The groups of the acceptors, those that a place can hold. -/
def groupsOf : List Int :=
  (c.acceptors.map Address.groupid).filter fun grp => decide (grp ≠ -1)

/-- The acceptor adds to the count while the group is scanned. -/
def Counts (grp : Int) (entry : Address) : Prop :=
  (entry.groupid = grp ∧ entry.groupid = own.parentid) ∨ entry.parentid = grp

instance (grp : Int) : DecidablePred (Counts own grp) := fun entry =>
  inferInstanceAs (Decidable ((entry.groupid = grp ∧
    entry.groupid = own.parentid) ∨ entry.parentid = grp))

/-- The group of the acceptor is looked for while the group is scanned. -/
def Descends (grp : Int) (entry : Address) : Prop :=
  ¬ (entry.groupid = grp ∧ entry.groupid = own.parentid) ∧
    entry.parentid = grp ∧ entry.groupid ≠ -1

instance (grp : Int) : DecidablePred (Descends own grp) := fun entry =>
  inferInstanceAs (Decidable (¬ (entry.groupid = grp ∧
    entry.groupid = own.parentid) ∧ entry.parentid = grp ∧
      entry.groupid ≠ -1))

/-- The groups that scanning a group leads to. -/
def childGroups (grp : Int) : List Int :=
  (c.acceptors.filter fun entry => decide (Descends own grp entry)).map
    Address.groupid

/-- How many acceptors scanning a group counts. -/
def countedIn (grp : Int) : Nat :=
  c.acceptors.countP fun entry => decide (Counts own grp entry)

variable {c own}

theorem length_groupsOf_le : (groupsOf c).length ≤ c.acceptors.length := by
  apply (List.length_filter_le _ _).trans
  rw [List.length_map]

theorem mem_groupsOf {grp : Int} :
    grp ∈ groupsOf c ↔
      (∃ entry ∈ c.acceptors, entry.groupid = grp) ∧ grp ≠ -1 := by
  simp [groupsOf]

theorem mem_childGroups {grp next : Int} :
    next ∈ childGroups c own grp ↔
      ∃ entry ∈ c.acceptors, Descends own grp entry ∧
        entry.groupid = next := by
  simp [childGroups, and_assoc]

theorem childGroups_inside :
    ∀ grp ∈ groupsOf c, ∀ next ∈ childGroups c own grp,
      next ∈ groupsOf c := by
  intro grp _ next isNext
  obtain ⟨entry, member, descends, rfl⟩ := mem_childGroups.mp isNext
  exact mem_groupsOf.mpr ⟨⟨entry, member, rfl⟩, descends.2.2⟩

section Within

variable {seen queue : List Int}

theorem not_mem_of_within
    (within : Worklist.Within (groupsOf c) seen queue) :
    -1 ∉ seen ∧ -1 ∉ queue := by
  have free : -1 ∉ seen ++ queue := by
    intro member
    exact (mem_groupsOf.mp (within.inside _ member)).2 rfl
  rw [List.mem_append, not_or] at free
  exact free

/-- One acceptor of the loop. -/
theorem scanAcceptor_padded {grp : Int} {entry : Address} (ncnt : Nat)
    (within : Worklist.Within (groupsOf c) seen queue)
    (member : entry ∈ c.acceptors) :
    scanAcceptor own grp (padded c.acceptors.length seen)
        (ncnt, padded c.acceptors.length queue) entry =
      (ncnt + if Counts own grp entry then 1 else 0,
        padded c.acceptors.length
          (if Descends own grp entry then
            Worklist.enqueue seen queue entry.groupid
          else queue)) := by
  have noFree := not_mem_of_within within
  unfold scanAcceptor
  simp only
  by_cases plain : entry.groupid = grp ∧ entry.groupid = own.parentid
  · have counts : Counts own grp entry := Or.inl plain
    have stays : ¬ Descends own grp entry := by
      intro descends
      exact descends.1 plain
    rw [if_pos plain, if_pos counts, if_neg stays]
  · rw [if_neg plain]
    by_cases child : entry.parentid = grp
    · have counts : Counts own grp entry := Or.inr child
      rw [if_pos child, if_pos counts]
      by_cases isFree : entry.groupid = -1
      · -- The place found or left alone is the free one.
        have stays : ¬ Descends own grp entry := by
          intro descends
          exact descends.2.2 isFree
        rw [if_neg stays, isFree, putGroup_free, ite_self]
      · have descends : Descends own grp entry := ⟨plain, child, isFree⟩
        simp only [if_pos descends, mem_padded isFree, Worklist.enqueue]
        split
        · rfl
        · next new =>
            rw [not_or] at new
            have group := mem_groupsOf.mpr ⟨⟨entry, member, rfl⟩, isFree⟩
            have added := within.append group new.1 new.2
            have room := added.length_le.trans length_groupsOf_le
            rw [List.length_append, List.length_singleton] at room
            rw [putGroup_padded noFree.2 new.2 (by omega)]
    · have skipped : ¬ Counts own grp entry := by
        rintro (isPlain | isChild)
        · exact plain isPlain
        · exact child isChild
      have stays : ¬ Descends own grp entry := by
        intro descends
        exact child descends.2.1
      rw [if_neg child, if_neg skipped, if_neg stays, Nat.add_zero]

/-- The loop over the acceptors. -/
theorem foldl_scanAcceptor_padded {grp : Int} (entries : List Address) :
    ∀ {queue : List Int} (ncnt : Nat),
      Worklist.Within (groupsOf c) seen queue →
      (∀ entry ∈ entries, entry ∈ c.acceptors) →
      entries.foldl (scanAcceptor own grp (padded c.acceptors.length seen))
          (ncnt, padded c.acceptors.length queue) =
        (ncnt + entries.countP fun entry => decide (Counts own grp entry),
          padded c.acceptors.length
            (((entries.filter fun entry =>
              decide (Descends own grp entry)).map Address.groupid).foldl
                (Worklist.enqueue seen) queue)) := by
  induction entries with
  | nil =>
      intro queue ncnt _ _
      rfl
  | cons entry rest inductionHypothesis =>
      intro queue ncnt within inside
      have member := inside entry List.mem_cons_self
      have others : ∀ other ∈ rest, other ∈ c.acceptors := by
        intro other isOther
        exact inside other (List.mem_cons_of_mem entry isOther)
      rw [List.foldl_cons, scanAcceptor_padded ncnt within member,
        List.countP_cons]
      by_cases descends : Descends own grp entry
      · have group : entry.groupid ∈ groupsOf c :=
          mem_groupsOf.mpr ⟨⟨entry, member, rfl⟩, descends.2.2⟩
        rw [if_pos descends,
          inductionHypothesis _ (within.enqueue group) others,
          List.filter_cons_of_pos (by simp [descends]), List.map_cons,
          List.foldl_cons]
        simp only [decide_eq_true_eq, Prod.mk.injEq, and_true]
        omega
      · rw [if_neg descends, inductionHypothesis _ within others,
          List.filter_cons_of_neg (by simp [descends])]
        simp only [decide_eq_true_eq, Prod.mk.injEq, and_true]
        omega

end Within

/-- The arrays hold the lists of the search, and the count is the sum over the
groups scanned. -/
theorem scanGroups_eq_search (positive : 0 < c.acceptors.length)
    (fuel : Nat) :
    ∀ {seen queue : List Int},
      Worklist.Within (groupsOf c) seen queue →
      scanGroups c own fuel (padded c.acceptors.length seen)
          (padded c.acceptors.length queue)
          (seen.map (countedIn c own)).sum =
        (Worklist.search (childGroups c own) fuel seen queue).map
          fun visited => (visited.map (countedIn c own)).sum := by
  induction fuel with
  | zero =>
      intro seen queue _
      rfl
  | succ fuel inductionHypothesis =>
      intro seen queue within
      have noFree := not_mem_of_within within
      have short := within.length_le.trans length_groupsOf_le
      cases queue with
      | nil =>
          obtain ⟨free, count⟩ := Nat.exists_eq_succ_of_ne_zero
            (Nat.ne_of_gt positive)
          have allFree : padded c.acceptors.length [] =
              -1 :: List.replicate free (-1) := by
            rw [padded, List.nil_append, List.length_nil, Nat.sub_zero,
              count, List.replicate_succ]
          rw [allFree, scanGroups, if_pos rfl]
          rfl
      | cons grp rest =>
          rw [List.length_cons] at short
          have isGroup : grp ≠ -1 := by
            intro isFree
            exact noFree.2 (isFree ▸ List.mem_cons_self)
          have unseen : grp ∉ seen := by
            intro isSeen
            have apart := (List.nodup_append.mp within.distinct).2.2
            exact apart grp isSeen grp List.mem_cons_self rfl
          have shifted : rest ++ List.replicate
              (c.acceptors.length - (grp :: rest).length) (-1) ++ [-1] =
              padded c.acceptors.length rest := by
            rw [padded, List.append_assoc, ← List.replicate_succ',
              List.length_cons]
            congr 2
            omega
          have sum : ((seen ++ [grp]).map (countedIn c own)).sum =
              (seen.map (countedIn c own)).sum + countedIn c own grp := by
            rw [List.map_append, List.sum_append, List.map_singleton,
              List.sum_singleton]
          have front : padded c.acceptors.length (grp :: rest) =
              grp :: (rest ++ List.replicate
                (c.acceptors.length - (grp :: rest).length) (-1)) := rfl
          rw [front, scanGroups, if_neg isGroup, shifted,
            putGroup_padded noFree.1 unseen (by omega),
            Worklist.search]
          simp only [foldl_scanAcceptor_padded c.acceptors _ within.visit
            (fun _ member => member)]
          rw [← inductionHypothesis, sum]
          · rfl
          · exact within.visit.foldl_enqueue (childGroups_inside grp
              (within.inside grp (List.mem_append_right seen
                List.mem_cons_self)))

end Search

/-! ### The acceptors below a group -/

/-- The least set of groups that has the group in it and, with the parent group
of an acceptor, the group of the acceptor. -/
inductive Below (c : EvpaxosConfig) (top : Int) : Int → Prop where
  | top : Below c top top
  | child {entry : Address} : entry ∈ c.acceptors →
      Below c top entry.parentid → Below c top entry.groupid

section Below

variable {c : EvpaxosConfig} {own : Address}

/-- When the parent group is not below the own group, the search descends to
every acceptor whose parent group it has scanned. -/
theorem reach_iff_below
    (nonnegative : ∀ entry ∈ c.acceptors, 0 ≤ entry.groupid)
    (outside : ¬ Below c own.groupid own.parentid) (grp : Int) :
    Relation.ReflTransGen (fun a b => b ∈ childGroups c own a)
        own.groupid grp ↔
      Below c own.groupid grp := by
  constructor
  · intro reach
    induction reach with
    | refl => exact Below.top
    | tail _ isNext inductionHypothesis =>
        obtain ⟨entry, member, descends, rfl⟩ := mem_childGroups.mp isNext
        apply Below.child member
        rw [descends.2.1]
        exact inductionHypothesis
  · intro below
    induction below with
    | top => exact Relation.ReflTransGen.refl
    | @child entry member above inductionHypothesis =>
        apply inductionHypothesis.tail
        refine mem_childGroups.mpr ⟨entry, member, ⟨?_, rfl, ?_⟩, rfl⟩
        · rintro ⟨_, isParent⟩
          apply outside
          rw [← isParent]
          exact Below.child member above
        · have := nonnegative entry member
          omega

theorem sum_ite_parentid (groups : List Int) (parentid : Int) :
    (groups.map fun grp => if parentid = grp then 1 else 0).sum =
      groups.count parentid := by
  induction groups with
  | nil => rfl
  | cons grp rest inductionHypothesis =>
      rw [List.map_cons, List.sum_cons, List.count_cons, inductionHypothesis]
      by_cases same : parentid = grp
      · simp [same, Nat.add_comm]
      · simp [same, Ne.symm same]

/-- Counting per group counts every acceptor once. -/
theorem sum_countP_parentid {groups : List Int} (distinct : groups.Nodup)
    (entries : List Address) :
    (groups.map fun grp =>
        entries.countP fun entry => decide (entry.parentid = grp)).sum =
      entries.countP fun entry => decide (entry.parentid ∈ groups) := by
  induction entries with
  | nil => simp
  | cons entry rest inductionHypothesis =>
      simp only [List.countP_cons, decide_eq_true_eq, List.sum_map_add,
        sum_ite_parentid, List.Nodup.count distinct, inductionHypothesis]

end Below

/-- The search ends with the sum over the groups that it has scanned, each of
them once. -/
theorem countSubordinates_eq {c : EvpaxosConfig} {id : Nat}
    (valid : id < c.acceptors.length) :
    ∃ visited : List Int,
      countSubordinates c id =
        some (visited.map (countedIn c (c.acceptor id))).sum ∧
      ((c.acceptor id).groupid = (c.acceptor id).parentid → visited = []) ∧
      visited.Nodup ∧
      ((c.acceptor id).groupid ≠ (c.acceptor id).parentid →
        (c.acceptor id).groupid ≠ -1 → ∀ grp, grp ∈ visited ↔
          Relation.ReflTransGen
            (fun a b => b ∈ childGroups c (c.acceptor id) a)
            (c.acceptor id).groupid grp) := by
  have positive : 0 < c.acceptors.length := by omega
  have allFree : List.replicate c.acceptors.length (-1) =
      padded c.acceptors.length [] := rfl
  by_cases searches : (c.acceptor id).groupid ≠ (c.acceptor id).parentid ∧
      (c.acceptor id).groupid ≠ -1
  · have first : (List.replicate c.acceptors.length (-1)).set 0
        (c.acceptor id).groupid =
        padded c.acceptors.length [(c.acceptor id).groupid] := by
      obtain ⟨free, count⟩ := Nat.exists_eq_succ_of_ne_zero
        (Nat.ne_of_gt positive)
      rw [count, padded, List.replicate_succ]
      rfl
    have isEntry : c.acceptor id ∈ c.acceptors :=
      List.mem_of_getElem? (getElem?_acceptor valid)
    have within : Worklist.Within (groupsOf c) []
        [(c.acceptor id).groupid] := by
      constructor
      · exact List.nodup_singleton _
      · intro grp member
        rw [List.mem_singleton.mp member]
        exact mem_groupsOf.mpr ⟨⟨_, isEntry, rfl⟩, searches.2⟩
    have enough : (groupsOf c).length <
        c.acceptors.length + 1 + ([] : List Int).length :=
      Nat.lt_succ_of_le length_groupsOf_le
    obtain ⟨visited, searched, distinct, reached⟩ :=
      Worklist.search_spec childGroups_inside (c.acceptors.length + 1) within
        Worklist.explores_start enough
    refine ⟨visited, ?_, ?_, distinct, fun _ _ => reached⟩
    · simp only [countSubordinates, if_pos searches.1]
      rw [first, allFree]
      apply (scanGroups_eq_search positive _ within).trans
      rw [searched, Option.map_some]
    · intro plain
      exact absurd plain searches.1
  · refine ⟨[], ?_, fun _ => rfl, List.nodup_nil, ?_⟩
    · have empty : (if (c.acceptor id).groupid ≠ (c.acceptor id).parentid then
          (List.replicate c.acceptors.length (-1)).set 0
            (c.acceptor id).groupid
          else List.replicate c.acceptors.length (-1)) =
          padded c.acceptors.length [] := by
        split
        · next delegate =>
            have isFree : (c.acceptor id).groupid = -1 := by
              by_contra isGroup
              exact searches ⟨delegate, isGroup⟩
            rw [isFree, List.set_replicate_self]
            exact allFree
        · exact allFree
      have within : Worklist.Within (groupsOf c) [] [] :=
        ⟨List.nodup_nil, fun _ member => absurd member List.not_mem_nil⟩
      simp only [countSubordinates]
      rw [empty, allFree]
      exact scanGroups_eq_search positive _ within
    · intro delegate isGroup
      exact absurd ⟨delegate, isGroup⟩ searches

open Classical in
/-- For every configuration and every acceptor of it, whatever the memory held
before, the loops end without an access out of range.  A plain member has no
subordinates; for a delegate whose parent group is not below its own, they are
the acceptors with a parent group below its own. -/
theorem subordinates_counted (c : EvpaxosConfig) (id : Nat)
    (valid : id < c.acceptors.length) (memory : Nat → Int) :
    ∃ fuel ncnt, initSubordinates c id memory fuel = some ncnt ∧
      ((c.acceptor id).groupid = (c.acceptor id).parentid → ncnt = 0) ∧
      ((∀ entry ∈ c.acceptors, 0 ≤ entry.groupid) →
        (c.acceptor id).groupid ≠ (c.acceptor id).parentid →
        ¬ Below c (c.acceptor id).groupid (c.acceptor id).parentid →
        ncnt = c.acceptors.countP fun entry =>
          decide (Below c (c.acceptor id).groupid entry.parentid)) := by
  obtain ⟨visited, counted, plainNone, distinct, reached⟩ :=
    countSubordinates_eq valid
  refine ⟨c.acceptors.length + 1, _,
    (initSubordinates_eq valid memory).trans counted, ?_, ?_⟩
  · intro plain
    rw [plainNone plain]
    rfl
  · intro nonnegative delegate outside
    have isGroup : (c.acceptor id).groupid ≠ -1 := by
      have := nonnegative _ (List.mem_of_getElem? (getElem?_acceptor valid))
      omega
    have scanned : ∀ grp, grp ∈ visited ↔
        Below c (c.acceptor id).groupid grp := by
      intro grp
      rw [reached delegate isGroup, reach_iff_below nonnegative outside]
    have counts : visited.map (countedIn c (c.acceptor id)) =
        visited.map fun grp => c.acceptors.countP fun entry =>
          decide (entry.parentid = grp) := by
      apply List.map_congr_left
      intro grp member
      apply List.countP_congr
      intro entry _
      rw [decide_eq_true_eq, decide_eq_true_eq]
      apply or_iff_right
      -- The group scanned is not the parent group.
      rintro ⟨inGroup, isParent⟩
      apply outside
      rw [← isParent, inGroup]
      exact (scanned grp).mp member
    rw [counts, sum_countP_parentid distinct]
    apply List.countP_congr
    intro entry _
    rw [decide_eq_true_eq, decide_eq_true_eq]
    exact scanned entry.parentid

theorem below_threeMembers_iff (grp : Int) :
    Below threeMembers 1 grp ↔ grp = 1 := by
  constructor
  · intro below
    induction below with
    | top => rfl
    | @child entry member _ inductionHypothesis =>
        have onlyOwn : ∀ entry ∈ threeMembers.acceptors,
            entry.parentid = 1 → entry.groupid = 1 := by
          decide
        exact onlyOwn entry member inductionHypothesis
  · intro same
    rw [same]
    exact Below.top

/-- A delegate over three plain members counts three. -/
theorem subordinates_counted_of_three_members :
    ∃ fuel, initSubordinates threeMembers 1 (fun _ => 0) fuel = some 3 := by
  obtain ⟨fuel, ncnt, ended, _, counted⟩ :=
    subordinates_counted threeMembers 1 (by decide) (fun _ => 0)
  have three := counted (by decide) (by decide) (by
    intro below
    exact absurd ((below_threeMembers_iff 0).mp below) (by decide))
  refine ⟨fuel, ended.trans ?_⟩
  rw [three]
  congr 1
  refine (List.countP_congr ?_).trans (rfl :
    threeMembers.acceptors.countP (fun entry =>
      decide (entry.parentid = 1)) = 3)
  intro entry _
  simp only [decide_eq_true_eq]
  exact below_threeMembers_iff entry.parentid

end LibPaxos
