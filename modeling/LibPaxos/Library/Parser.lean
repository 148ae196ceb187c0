import Mathlib.Data.List.Basic

/-!
# Parsers of incomplete input

A parser looks at the elements that are there.  It takes a value off their front,
asks for more, or fails.  A word parses to a value when the parser takes exactly
the word, whatever comes after it, and asks for more on every part of the word;
this is kept when parsers follow one another.
-/

namespace LibPaxos.Library

/-- What a parser makes of its input. -/
inductive Parsed (σ α : Type) where
  | done (value : α) (rest : List σ)
  | more
  | fail
  deriving DecidableEq, Repr

def Parser (σ α : Type) : Type :=
  List σ → Parsed σ α

namespace Parser

variable {σ α β : Type}

def pure (value : α) : Parser σ α :=
  fun input => .done value input

def bind (first : Parser σ α) (second : α → Parser σ β) : Parser σ β :=
  fun input =>
    match first input with
    | .done value rest => second value rest
    | .more => .more
    | .fail => .fail

def fail : Parser σ α :=
  fun _ => .fail

def next : Parser σ σ
  | [] => .more
  | symbol :: rest => .done symbol rest

def take (n : Nat) : Parser σ (List σ) :=
  fun input =>
    if n ≤ input.length then .done (input.take n) (input.drop n) else .more

def replicate (parser : Parser σ α) : Nat → Parser σ (List α)
  | 0 => pure []
  | n + 1 =>
      parser.bind fun value =>
        (replicate parser n).bind fun values => pure (value :: values)

/-- The parser takes a word as a value, when all of it is there. -/
structure Parses (parser : Parser σ α) (word : List σ) (value : α) :
    Prop where
  whole : ∀ rest, parser (word ++ rest) = .done value rest
  part : ∀ front, front <+: word → front ≠ word → parser front = .more

theorem parses_pure (value : α) : Parses (pure value : Parser σ α) [] value where
  whole _ := rfl
  part _ isPart proper := absurd (List.prefix_nil.mp isPart) proper

theorem parses_next (symbol : σ) : Parses next [symbol] symbol where
  whole _ := rfl
  part front isPart proper := by
    cases front with
    | nil => rfl
    | cons first rest =>
        obtain ⟨same, isNil⟩ := List.cons_prefix_cons.mp isPart
        rw [List.prefix_nil] at isNil
        exact absurd (by rw [same, isNil]) proper

theorem parses_take {n : Nat} {word : List σ} (length : word.length = n) :
    Parses (take n) word word where
  whole rest := by
    subst length
    have enough : word.length ≤ (word ++ rest).length := by
      rw [List.length_append]
      omega
    simp only [take, if_pos enough, List.take_left, List.drop_left]
  part front isPart proper := by
    have shorter : front.length < n := by
      rw [← length]
      apply Nat.lt_of_le_of_ne isPart.length_le
      intro same
      exact proper (isPart.eq_of_length same)
    simp only [take, if_neg (Nat.not_le_of_lt shorter)]

theorem Parses.bind {first : Parser σ α} {second : α → Parser σ β}
    {word others : List σ} {value : α} {result : β}
    (parsesFirst : Parses first word value)
    (parsesSecond : Parses (second value) others result) :
    Parses (first.bind second) (word ++ others) result where
  whole rest := by
    simp only [Parser.bind, List.append_assoc, parsesFirst.whole,
      parsesSecond.whole]
  part front isPart proper := by
    by_cases whole : word <+: front
    · -- The first parser succeeds, and the second one waits.
      obtain ⟨tail, rfl⟩ := whole
      rw [List.prefix_append_right_inj] at isPart
      have tailProper : tail ≠ others := by
        intro same
        exact proper (by rw [same])
      simp only [Parser.bind, parsesFirst.whole,
        parsesSecond.part tail isPart tailProper]
    · have isFront : front <+: word :=
        (List.prefix_or_prefix_of_prefix isPart
          (List.prefix_append word others)).resolve_right whole
      have frontProper : front ≠ word := by
        intro same
        exact whole (same ▸ List.prefix_rfl)
      simp only [Parser.bind, parsesFirst.part front isFront frontProper]

/-- A parser whose result is changed by a function. -/
theorem Parses.bind_pure {first : Parser σ α} {word : List σ} {value : α}
    (parsesFirst : Parses first word value) (f : α → β) :
    Parses (first.bind fun value => Parser.pure (f value)) word (f value) := by
  have both : Parses (first.bind fun value => Parser.pure (f value))
      (word ++ []) (f value) :=
    parsesFirst.bind (parses_pure (f value))
  rwa [List.append_nil] at both

theorem parses_replicate {parser : Parser σ α} {encode : α → List σ}
    (values : List α)
    (parses : ∀ value ∈ values, Parses parser (encode value) value) :
    Parses (replicate parser values.length) (values.flatMap encode) values := by
  induction values with
  | nil => exact parses_pure []
  | cons value values inductionHypothesis =>
      have first := parses value (List.mem_cons_self ..)
      have others := inductionHypothesis
        (fun other member => parses other (List.mem_cons_of_mem _ member))
      rw [List.flatMap_cons]
      exact first.bind (others.bind_pure (value :: ·))

end Parser

end LibPaxos.Library
