import LibPaxos.Evpaxos.Config

/-!
# Sizes in bytes

A size in bytes is a decimal number with an optional unit, and white space
around both.  What the parser accepts is not quite that: `strtoull` reads a sign
as well and reads no digits as 0, the product with the unit is not checked, and
white space behind a unit is not skipped.  It also stores what it has read
before it finds an error.
-/

namespace LibPaxos

open LibPaxos.Library CString

def byteUnit (suffix : List Char) : Option Nat :=
  if sameIgnoringCase suffix "kb".toList then
    some (2 ^ 10)
  else if sameIgnoringCase suffix "mb".toList then
    some (2 ^ 20)
  else if sameIgnoringCase suffix "gb".toList then
    some (2 ^ 30)
  else
    none

/-- The parts of a size: white space, digits, white space, a unit and white
space.  Without a unit the size is the number itself. -/
structure SizeText where
  lead : List Char
  digits : List Char
  gap : List Char
  suffix : List Char
  trail : List Char
  unit : Nat
  leadSpace : AllSpace lead
  nonempty : digits ≠ []
  allDigit : AllDigit digits
  gapSpace : AllSpace gap
  suffixUnit : (suffix = [] ∧ unit = 1) ∨ byteUnit suffix = some unit
  trailSpace : AllSpace trail

def SizeText.text (size : SizeText) : List Char :=
  size.lead ++ (size.digits ++ (size.gap ++ (size.suffix ++ size.trail)))

def SizeText.bytes (size : SizeText) : Nat :=
  number size.digits * size.unit

/-- The string is a size in bytes, below `2 ^ 64`. -/
def IsByteSize (str : List Char) (value : Nat) : Prop :=
  ∃ size : SizeText, size.text = str ∧ size.bytes = value ∧ value < 2 ^ 64

/-- What is expected of `parse_bytes`: it accepts sizes and stores their value,
and otherwise leaves what was stored before. -/
def ParsesBytes (str : List Char) (stored : Nat) : Prop :=
  (∀ value, IsByteSize str value → parseBytes str = (true, value)) ∧
    ((∀ value, ¬ IsByteSize str value) → parseBytes str = (false, stored))

/-- What `strtoull` leaves of the string, without the white space. -/
def afterNumber (str : List Char) : List Char :=
  (strtoull str).rest.dropWhile isspace

/-- The number is out of range, or something follows it that is no unit. -/
def Rejected (str : List Char) : Prop :=
  (strtoull str).range = true ∨
    (afterNumber str ≠ [] ∧ byteUnit (afterNumber str) = none)

/-! ### Units -/

/-- A unit is two letters. -/
theorem byteUnit_eq_some {suffix : List Char} {unit : Nat}
    (isUnit : byteUnit suffix = some unit) :
    ∃ first, suffix.map tolower = [first, 'b'] ∧
      (first = 'k' ∨ first = 'm' ∨ first = 'g') ∧ 0 < unit := by
  unfold byteUnit at isUnit
  split at isUnit
  · next same =>
      cases isUnit
      exact ⟨'k', of_decide_eq_true same, Or.inl rfl, by decide⟩
  · split at isUnit
    · next same =>
        cases isUnit
        exact ⟨'m', of_decide_eq_true same, Or.inr (Or.inl rfl), by decide⟩
    · split at isUnit
      · next same =>
          cases isUnit
          exact ⟨'g', of_decide_eq_true same, Or.inr (Or.inr rfl), by decide⟩
      · cases isUnit

/-- The letters of a unit are neither white space nor digits. -/
theorem byteUnit_letters {suffix : List Char} {unit : Nat}
    (isUnit : byteUnit suffix = some unit) :
    ∀ c ∈ suffix, isspace c = false ∧ isdigit c = false ∧ c ≠ '-' := by
  obtain ⟨first, letters, isFirst, _⟩ := byteUnit_eq_some isUnit
  intro c member
  have lower : tolower c ∈ ['k', 'm', 'g', 'b'] := by
    have inLetters : tolower c ∈ suffix.map tolower :=
      List.mem_map_of_mem member
    rw [letters] at inLetters
    rcases List.mem_cons.mp inLetters with same | last
    · rw [same]
      rcases isFirst with rfl | rfl | rfl
      all_goals decide
    · rw [List.mem_singleton.mp last]
      decide
  have plain : ∀ letter ∈ ['k', 'm', 'g', 'b'],
      isspace letter = false ∧ isdigit letter = false := by
    simp [isspace, isdigit]
  refine ⟨?_, ?_, ?_⟩
  · by_contra space
    rw [Bool.not_eq_false] at space
    rw [tolower_of_isspace space] at lower
    rw [(plain c lower).1] at space
    cases space
  · by_contra digit
    rw [Bool.not_eq_false] at digit
    rw [tolower_of_isdigit digit] at lower
    rw [(plain c lower).2] at digit
    cases digit
  · rintro rfl
    exact absurd lower (by decide)

/-- The suffixes with a unit, as `parse_bytes` looks for them. -/
theorem parseBytes_eq (str : List Char) :
    parseBytes str =
      if (strtoull str).range then
        (false, (strtoull str).value)
      else if afterNumber str = [] then
        (true, (strtoull str).value)
      else
        match byteUnit (afterNumber str) with
        | some unit => (true, (strtoull str).value * unit % 2 ^ 64)
        | none => (false, (strtoull str).value) := by
  unfold parseBytes
  simp only
  split
  · rfl
  · change (if afterNumber str ≠ [] then _ else _) = _
    by_cases nothing : afterNumber str = []
    · rw [if_neg (not_not.mpr nothing), if_pos nothing]
    · rw [if_pos nothing, if_neg nothing]
      unfold byteUnit
      change (if sameIgnoringCase (afterNumber str) _ then _ else _) = _
      split
      · rfl
      · change (if sameIgnoringCase (afterNumber str) _ then _ else _) = _
        split
        · rfl
        · change (if sameIgnoringCase (afterNumber str) _ then _ else _) = _
          split
          · rfl
          · rfl

/-! ### Sizes -/

/-- `strtoull` reads the number of a size. -/
theorem SizeText.strtoull_eq (size : SizeText)
    (fits : number size.digits < 2 ^ 64) :
    strtoull size.text =
      ⟨number size.digits, size.gap ++ (size.suffix ++ size.trail), false⟩ := by
  have ends : ∀ c,
      (size.gap ++ (size.suffix ++ size.trail)).head? = some c →
        isdigit c = false := by
    intro c head
    have member := List.mem_of_mem_head? head
    rw [List.mem_append, List.mem_append] at member
    rcases member with inGap | inSuffix | inTrail
    · exact isdigit_of_isspace (size.gapSpace c inGap)
    · rcases size.suffixUnit with ⟨empty, _⟩ | isUnit
      · rw [empty] at inSuffix
        cases inSuffix
      · exact (byteUnit_letters isUnit c inSuffix).2.1
    · exact isdigit_of_isspace (size.trailSpace c inTrail)
  have read := numeral_of_digits size.leadSpace size.nonempty size.allDigit
    ends
  unfold strtoull SizeText.text
  simp only [read, if_neg size.nonempty, if_neg (Nat.not_le.mpr fits)]
  rfl

theorem SizeText.unit_positive (size : SizeText) : 0 < size.unit := by
  rcases size.suffixUnit with ⟨_, one⟩ | isUnit
  · rw [one]
    decide
  · obtain ⟨_, _, _, positive⟩ := byteUnit_eq_some isUnit
    exact positive

theorem SizeText.number_lt (size : SizeText) (fits : size.bytes < 2 ^ 64) :
    number size.digits < 2 ^ 64 :=
  Nat.lt_of_le_of_lt (Nat.le_mul_of_pos_right _ size.unit_positive) fits

/-- A size is read as it should, unless white space follows its unit. -/
theorem SizeText.parseBytes_iff (size : SizeText)
    (fits : size.bytes < 2 ^ 64) :
    parseBytes size.text = (true, size.bytes) ↔
      (size.suffix ≠ [] → size.trail = []) := by
  have read := size.strtoull_eq (size.number_lt fits)
  have after : afterNumber size.text =
      (size.suffix ++ size.trail).dropWhile isspace := by
    rw [afterNumber, read]
    exact dropWhile_isspace_append size.gapSpace
  rw [parseBytes_eq, read]
  simp only
  rcases size.suffixUnit with ⟨empty, one⟩ | isUnit
  · have nothing : afterNumber size.text = [] := by
      rw [after, empty, List.nil_append]
      exact dropWhile_isspace_all size.trailSpace
    rw [if_neg (by decide), if_pos nothing]
    refine iff_of_true ?_ (fun suffixed => absurd empty suffixed)
    rw [SizeText.bytes, one, Nat.mul_one]
  · have suffixed : size.suffix ≠ [] := by
      intro empty
      rw [empty] at isUnit
      cases isUnit
    have kept : afterNumber size.text = size.suffix ++ size.trail := by
      rw [after]
      cases shape : size.suffix with
      | nil => exact absurd shape suffixed
      | cons first rest =>
          have letter := (byteUnit_letters isUnit first
            (shape ▸ List.mem_cons_self)).1
          rw [List.cons_append, List.dropWhile_cons_of_neg]
          rw [letter]
          decide
    have something : afterNumber size.text ≠ [] := by
      rw [kept]
      exact List.append_ne_nil_of_left_ne_nil suffixed _
    rw [if_neg (by decide), if_neg something, kept]
    by_cases ends : size.trail = []
    · refine iff_of_true ?_ (fun _ => ends)
      rw [ends, List.append_nil, isUnit]
      simp only [SizeText.bytes] at fits ⊢
      rw [Nat.mod_eq_of_lt fits]
    · refine iff_of_false ?_ (fun allowed => ends (allowed suffixed))
      -- No unit has white space in it.
      have noUnit : byteUnit (size.suffix ++ size.trail) = none := by
        by_contra someUnit
        obtain ⟨other, isOther⟩ := Option.ne_none_iff_exists'.mp someUnit
        obtain ⟨c, member⟩ := List.exists_mem_of_ne_nil _ ends
        have letter := (byteUnit_letters isOther c
          (List.mem_append_right _ member)).1
        rw [size.trailSpace c member] at letter
        cases letter
      rw [noUnit]
      intro accepted
      cases accepted

/-- The parser meets what is expected of it exactly when a string that is a size
has no white space behind its unit, and one that is no size is rejected and the
number that `strtoull` reads in it is what was stored before. -/
theorem bytes_parsed_iff (str : List Char) (stored : Nat) :
    ParsesBytes str stored ↔
      (∀ size : SizeText, size.text = str → size.bytes < 2 ^ 64 →
        size.suffix ≠ [] → size.trail = []) ∧
      ((∀ value, ¬ IsByteSize str value) →
        Rejected str ∧ (strtoull str).value = stored) := by
  unfold ParsesBytes
  apply and_congr
  · constructor
    · intro accepts size isText fits
      have parsed := accepts size.bytes ⟨size, isText, rfl, fits⟩
      rw [← isText] at parsed
      exact (size.parseBytes_iff fits).mp parsed
    · rintro noTrail value ⟨size, isText, isBytes, fits⟩
      rw [← isBytes] at fits
      rw [← isText, ← isBytes]
      exact (size.parseBytes_iff fits).mpr (noTrail size isText fits)
  · apply imp_congr_right
    intro _
    rw [parseBytes_eq, Rejected]
    cases (strtoull str).range with
    | true => simp
    | false =>
        by_cases nothing : afterNumber str = []
        · simp [nothing]
        · cases isUnit : byteUnit (afterNumber str) with
          | none => simp [nothing]
          | some unit => simp [nothing]

def fiveKilobytes : SizeText where
  lead := []
  digits := ['5']
  gap := [' ']
  suffix := ['K', 'B']
  trail := []
  unit := 2 ^ 10
  leadSpace := by simp [AllSpace]
  nonempty := by simp
  allDigit := by simp [AllDigit, isdigit]
  gapSpace := by simp [AllSpace, isspace]
  suffixUnit := Or.inr (by decide)
  trailSpace := by simp [AllSpace]

theorem bytes_parsed_of_five_kilobytes :
    ParsesBytes "5 KB".toList 0 := by
  apply (bytes_parsed_iff "5 KB".toList 0).mpr
  constructor
  · intro size isText _ _
    rcases List.eq_nil_or_concat size.trail with empty | ⟨rest, last, ends⟩
    · exact empty
    · have space := size.trailSpace last (by rw [ends]; simp)
      have lastChar : size.text.getLast? = some last := by
        rw [SizeText.text, ends]
        simp
      rw [isText] at lastChar
      cases lastChar
      exact absurd space (by decide)
  · intro noSize
    exact absurd ⟨fiveKilobytes, by decide, rfl, by decide⟩ (noSize 5120)

/-- A number with a minus sign is accepted and stored modulo `2 ^ 64`. -/
theorem bytes_misparsed_with_sign : ¬ ParsesBytes "-1".toList 0 := by
  rintro ⟨_, rejected⟩
  have result := rejected ?_
  · exact absurd result (by decide)
  · rintro value ⟨size, isText, _, _⟩
    have minus : '-' ∈ size.text := by
      rw [isText]
      decide
    simp only [SizeText.text, List.mem_append] at minus
    rcases minus with inLead | inDigits | inGap | inSuffix | inTrail
    · exact absurd (size.leadSpace _ inLead) (by decide)
    · exact absurd (size.allDigit _ inDigits) (by decide)
    · exact absurd (size.gapSpace _ inGap) (by decide)
    · rcases size.suffixUnit with ⟨empty, _⟩ | isUnit
      · rw [empty] at inSuffix
        cases inSuffix
      · exact (byteUnit_letters isUnit _ inSuffix).2.2 rfl
    · exact absurd (size.trailSpace _ inTrail) (by decide)

end LibPaxos
