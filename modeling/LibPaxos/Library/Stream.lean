import Mathlib.Data.List.Forall2

/-!
# Frames in a stream of chunks

A receiver takes frames off the front of a buffer, one at a time, and waits when
the buffer holds only a part of a frame.  However a sequence of frames is cut
into chunks, a loop that appends each chunk to the buffer and receives until
there is nothing to receive takes exactly the frames, in order.
-/

namespace LibPaxos.Library

variable {α β : Type}

/-! ### The loop -/

section Loop

/- An attempt to receive leaves a buffer, and gives a value when there is one.
It may also have no result. -/
variable (receive : List β → Option (Option α × List β))

/-- Receives until there is nothing to receive, at most `fuel` times. -/
def drain : Nat → List β → Option (List α × List β)
  | 0, _ => none
  | fuel + 1, buffer =>
      match receive buffer with
      | none => none
      | some (none, rest) => some ([], rest)
      | some (some value, rest) =>
          (drain fuel rest).map fun (values, last) => (value :: values, last)

/-- Appends each chunk to the buffer and drains it. -/
def drainChunks : List β → List (List β) → Option (List α × List β)
  | buffer, [] => some ([], buffer)
  | buffer, chunk :: chunks => do
      let input := buffer ++ chunk
      let (values, rest) ← drain receive (input.length + 1) input
      let (others, last) ← drainChunks rest chunks
      some (values ++ others, last)

end Loop

/-! ### Frames -/

/-- A sequence of elements that is received as one value, and only when all of it
is in the buffer. -/
structure Receives (receive : List β → Option (Option α × List β))
    (frame : List β) (value : α) : Prop where
  nonempty : frame ≠ []
  whole : ∀ rest, receive (frame ++ rest) = some (some value, rest)
  part : ∀ front, front <+: frame → front ≠ frame →
    receive front = some (none, front)

/-- A buffer that holds a part of the first frame, and not all of it. -/
inductive Pending : List β → List (List β) → Prop
  | done : Pending [] []
  | part {front frame : List β} {frames : List (List β)} :
      front <+: frame → front ≠ frame → Pending front (frame :: frames)

section Reassembly

variable {receive : List β → Option (Option α × List β)}
variable {frames : List (List β)} {values : List α}

theorem Pending.receive_eq {front : List β}
    (empty : receive [] = some (none, []))
    (all : List.Forall₂ (Receives receive) frames values)
    (pending : Pending front frames) :
    receive front = some (none, front) := by
  cases pending with
  | done => exact empty
  | part isPart proper =>
      cases all with
      | cons first _ => exact first.part front isPart proper

/-- The elements of a buffer are some whole frames and a part of the next. -/
theorem exists_pending (all : List.Forall₂ (Receives receive) frames values) :
    ∀ {input rest : List β}, input ++ rest = frames.flatten →
      ∃ taken left takenValues leftValues front,
        List.Forall₂ (Receives receive) taken takenValues ∧
        List.Forall₂ (Receives receive) left leftValues ∧
        values = takenValues ++ leftValues ∧
        input = taken.flatten ++ front ∧ front ++ rest = left.flatten ∧
        Pending front left := by
  induction all with
  | nil =>
      intro input rest split
      rw [List.flatten_nil, List.append_eq_nil_iff] at split
      obtain ⟨rfl, rfl⟩ := split
      exact ⟨[], [], [], [], [], .nil, .nil, rfl, rfl, rfl, .done⟩
  | @cons frame value frames values first others inductionHypothesis =>
      intro input rest split
      by_cases whole : frame <+: input
      · obtain ⟨more, rfl⟩ := whole
        rw [List.flatten_cons, List.append_assoc,
          List.append_cancel_left_eq] at split
        obtain ⟨taken, left, takenValues, leftValues, front, isTaken, isLeft,
          isValues, isMore, isRest, pending⟩ := inductionHypothesis split
        refine ⟨frame :: taken, left, value :: takenValues, leftValues, front,
          .cons first isTaken, isLeft, ?_, ?_, isRest, pending⟩
        · rw [isValues, List.cons_append]
        · rw [isMore, List.flatten_cons, List.append_assoc]
      · have isPart : input <+: frame := by
          have inputFirst : input <+: (frame :: frames).flatten :=
            ⟨rest, split⟩
          have frameFirst : frame <+: (frame :: frames).flatten :=
            ⟨frames.flatten, List.flatten_cons.symm⟩
          exact (List.prefix_or_prefix_of_prefix inputFirst
            frameFirst).resolve_right whole
        have proper : input ≠ frame := by
          intro same
          exact whole (same ▸ List.prefix_rfl)
        exact ⟨[], frame :: frames, [], value :: values, input, .nil,
          .cons first others, rfl, rfl, split, .part isPart proper⟩

/-- A loop takes the whole frames of a buffer and leaves the part of a frame
after them. -/
theorem drain_eq (all : List.Forall₂ (Receives receive) frames values)
    {front : List β} (waits : receive front = some (none, front)) :
    ∀ fuel, frames.length < fuel →
      drain receive fuel (frames.flatten ++ front) = some (values, front) := by
  induction all with
  | nil =>
      intro fuel enough
      cases fuel with
      | zero => exact absurd enough (Nat.not_lt_zero _)
      | succ fuel =>
          rw [List.flatten_nil, List.nil_append]
          simp only [drain, waits]
  | cons first others inductionHypothesis =>
      intro fuel enough
      cases fuel with
      | zero => exact absurd enough (Nat.not_lt_zero _)
      | succ fuel =>
          have rest := inductionHypothesis fuel (Nat.lt_of_succ_lt_succ enough)
          rw [List.flatten_cons, List.append_assoc]
          simp only [drain, first.whole, rest, Option.map_some]

/-- There are no more frames than elements. -/
theorem length_le_of_receives
    (all : List.Forall₂ (Receives receive) frames values) :
    frames.length ≤ frames.flatten.length := by
  induction all with
  | nil => exact Nat.le_refl 0
  | cons first others inductionHypothesis =>
      have positive := List.length_pos_of_ne_nil first.nonempty
      rw [List.flatten_cons, List.length_append, List.length_cons]
      omega

theorem pending_of_flatten {input : List β}
    (pending : Pending input frames) (isAll : input = frames.flatten) :
    frames = [] ∧ input = [] := by
  cases pending with
  | done => exact ⟨rfl, rfl⟩
  | @part _ frame frames isPart proper =>
      rw [List.flatten_cons] at isAll
      have shorter := isPart.length_le
      have longer := congrArg List.length isAll
      rw [List.length_append] at longer
      exact absurd (isPart.eq_of_length (by omega)) proper

/-- However frames are cut into chunks, exactly their values are received, in
order, and the buffer is empty after the last chunk. -/
theorem drainChunks_eq (empty : receive [] = some (none, []))
    (chunks : List (List β)) :
    ∀ {frames : List (List β)} {values : List α} {buffer : List β},
      List.Forall₂ (Receives receive) frames values → Pending buffer frames →
      buffer ++ chunks.flatten = frames.flatten →
      drainChunks receive buffer chunks = some (values, []) := by
  induction chunks with
  | nil =>
      intro frames values buffer all pending cut
      rw [List.flatten_nil, List.append_nil] at cut
      obtain ⟨rfl, rfl⟩ := pending_of_flatten pending cut
      cases all
      rfl
  | cons chunk chunks inductionHypothesis =>
      intro frames values buffer all _ cut
      rw [List.flatten_cons, ← List.append_assoc] at cut
      obtain ⟨taken, left, takenValues, leftValues, front, isTaken, isLeft,
        isValues, isInput, isRest, pending⟩ := exists_pending all cut
      have drained : drain receive ((buffer ++ chunk).length + 1)
          (buffer ++ chunk) = some (takenValues, front) := by
        have few := length_le_of_receives isTaken
        rw [isInput, List.length_append]
        exact drain_eq isTaken (pending.receive_eq empty isLeft) _ (by omega)
      have others := inductionHypothesis isLeft pending isRest
      simp only [drainChunks, drained, others, Option.bind_eq_bind,
        Option.bind_some, isValues]

theorem pending_nil (all : List.Forall₂ (Receives receive) frames values) :
    Pending [] frames := by
  cases all with
  | nil => exact .done
  | cons first _ => exact .part (List.nil_prefix) first.nonempty.symm

end Reassembly

end LibPaxos.Library
