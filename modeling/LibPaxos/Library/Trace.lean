import Mathlib.Data.List.Induction

/-!
# Traces of a partial step function

A component is a partial step function: given a state and an input it either
produces the next state together with an output, or has no successor.  A trace
lists the steps taken from an initial state, oldest first, each with the
states around it, so that a statement about a run can speak of what happened
before what.
-/

namespace LibPaxos.Library

universe u v w

variable {σ : Type u} {ι : Type v} {ο : Type w}

/-- One step taken: the states around it, its input and its output. -/
structure Transition (σ : Type u) (ι : Type v) (ο : Type w) where
  source : σ
  input : ι
  output : ο
  target : σ

/-- The steps taken from `start`, oldest first, and the state they lead to. -/
inductive Trace (step : σ → ι → Option (σ × ο)) (start : σ) :
    List (Transition σ ι ο) → σ → Prop
  | nil : Trace step start [] start
  | snoc {past : List (Transition σ ι ο)} {source target : σ}
      {input : ι} {output : ο} :
      Trace step start past source →
      step source input = some (target, output) →
      Trace step start (past ++ [⟨source, input, output, target⟩]) target

namespace Trace

variable {step : σ → ι → Option (σ × ο)} {start : σ}

/-- A property of the initial state kept by every step holds of the state
reached. -/
theorem invariant
    (property : σ → Prop)
    (initial : property start)
    (preserved : ∀ source input target output,
      property source →
      step source input = some (target, output) →
      property target)
    {past : List (Transition σ ι ο)} {final : σ}
    (trace : Trace step start past final) :
    property final := by
  induction trace with
  | nil => exact initial
  | snoc _ stepEq inductionHypothesis =>
      exact preserved _ _ _ _ inductionHypothesis stepEq

/-- One trace after another. -/
theorem trans
    {middle final : σ} {past future : List (Transition σ ι ο)}
    (first : Trace step start past middle)
    (second : Trace step middle future final) :
    Trace step start (past ++ future) final := by
  induction second with
  | nil =>
      rw [List.append_nil]
      exact first
  | snoc _ stepEq inductionHypothesis =>
      rw [← List.append_assoc]
      exact inductionHypothesis.snoc stepEq

/-- Every prefix of a trace is a trace, to the source of the next step. -/
theorem split
    {before after : List (Transition σ ι ο)} {current : Transition σ ι ο}
    {final : σ}
    (trace : Trace step start (before ++ current :: after) final) :
    Trace step start before current.source ∧
      step current.source current.input =
        some (current.target, current.output) := by
  generalize shape : before ++ current :: after = past at trace
  induction trace generalizing after with
  | nil => simp at shape
  | @snoc past source target input output trace stepEq inductionHypothesis =>
      rcases List.eq_nil_or_concat after with rfl | ⟨rest, last, rfl⟩
      · obtain ⟨beforeEq, currentEq⟩ := List.append_inj' shape rfl
        injection currentEq with currentEq
        subst beforeEq currentEq
        exact ⟨trace, stepEq⟩
      · have shorter : before ++ current :: rest = past := by
          have regrouped :
              (before ++ current :: rest) ++ [last] =
                past ++ [⟨source, input, output, target⟩] := by
            simpa using shape
          exact (List.append_inj' regrouped rfl).1
        exact inductionHypothesis shorter

/-- A step of a trace was taken from a state reached by an earlier part of the
trace. -/
theorem mem_split
    {past : List (Transition σ ι ο)} {current : Transition σ ι ο} {final : σ}
    (trace : Trace step start past final)
    (member : current ∈ past) :
    ∃ before after,
      past = before ++ current :: after ∧
      Trace step start before current.source ∧
      step current.source current.input =
        some (current.target, current.output) := by
  obtain ⟨before, after, shape⟩ := List.mem_iff_append.mp member
  subst shape
  exact ⟨before, after, rfl, trace.split⟩

/-- A property established by the target of one step and kept by every step
after it holds of the source of a later step. -/
theorem stable_through
    (property : σ → Prop)
    {before middle after : List (Transition σ ι ο)}
    {earlier later : Transition σ ι ο} {final : σ}
    (trace : Trace step start
      (before ++ earlier :: middle ++ later :: after) final)
    (established : property earlier.target)
    (preserved : ∀ current ∈ middle,
      property current.source →
      step current.source current.input =
        some (current.target, current.output) →
      property current.target) :
    property later.source := by
  have reached := trace.split.1
  clear trace
  generalize later.source = state at reached
  induction middle using List.reverseRecOn generalizing state with
  | nil =>
      generalize shape : before ++ [earlier] = past at reached
      cases reached with
      | nil => simp at shape
      | snoc _ _ =>
          injection (List.append_inj' shape rfl).2 with currentEq
          subst currentEq
          exact established
  | append_singleton rest last inductionHypothesis =>
      generalize shape :
        before ++ earlier :: (rest ++ [last]) = past at reached
      cases reached with
      | nil => simp at shape
      | @snoc earlierPast source _ input output trace stepEq =>
          have regrouped :
              (before ++ earlier :: rest) ++ [last] =
                earlierPast ++ [⟨source, input, output, state⟩] := by
            simpa using shape
          obtain ⟨pastEq, lastEq⟩ := List.append_inj' regrouped rfl
          injection lastEq with lastEq
          subst pastEq lastEq
          have earlierKept := inductionHypothesis
            (fun current member => preserved current
              (List.mem_append_left _ member)) _ trace
          exact preserved _
            (List.mem_append_right _ (List.mem_singleton_self _))
            earlierKept stepEq

/-- A property kept by every step and established by the target of one step
holds of the source of every later step. -/
theorem stable_between
    (property : σ → Prop)
    (preserved : ∀ source input target output,
      property source →
      step source input = some (target, output) →
      property target)
    {before middle after : List (Transition σ ι ο)}
    {earlier later : Transition σ ι ο} {final : σ}
    (trace : Trace step start
      (before ++ earlier :: middle ++ later :: after) final)
    (established : property earlier.target) :
    property later.source :=
  trace.stable_through property established
    fun _ _ holds stepEq => preserved _ _ _ _ holds stepEq

/-- The steps that a component takes in a trace of the whole form a trace of the
component, when every step of the whole is one of the component or leaves it
alone. -/
theorem component
    {σ' : Type*} {ι' : Type*} {ο' : Type*}
    {localStep : σ' → ι' → Option (σ' × ο')} (view : σ → σ')
    {pick : Transition σ ι ο → Option (Transition σ' ι' ο')}
    (steps : ∀ current : Transition σ ι ο,
      step current.source current.input =
          some (current.target, current.output) →
        (pick current = none ∧ view current.target = view current.source) ∨
        ∃ input output,
          pick current =
            some ⟨view current.source, input, output, view current.target⟩ ∧
          localStep (view current.source) input =
            some (view current.target, output))
    {past : List (Transition σ ι ο)} {final : σ}
    (trace : Trace step start past final) :
    Trace localStep (view start) (past.filterMap pick) (view final) := by
  induction trace with
  | nil => exact .nil
  | @snoc past source target input output _ stepEq inductionHypothesis =>
      rw [List.filterMap_append]
      rcases steps ⟨source, input, output, target⟩ stepEq with
        ⟨skipped, same⟩ | ⟨localInput, localOutput, picked, localEq⟩
      · rw [List.filterMap_cons_none skipped, List.filterMap_nil,
          List.append_nil]
        change view target = view source at same
        rw [same]
        exact inductionHypothesis
      · rw [List.filterMap_cons_some picked, List.filterMap_nil]
        exact inductionHypothesis.snoc localEq

end Trace

section Guarded

variable {step : σ → ι → Option (σ × ο)} {allowed : σ → ι → Prop}

open Classical in
/-- The step function restricted to the steps that meet a condition. -/
noncomputable def guarded (step : σ → ι → Option (σ × ο))
    (allowed : σ → ι → Prop) (source : σ) (input : ι) : Option (σ × ο) :=
  if allowed source input then step source input else none

theorem guarded_eq_some_iff {source : σ} {input : ι} {result : σ × ο} :
    guarded step allowed source input = some result ↔
      allowed source input ∧ step source input = some result := by
  unfold guarded
  split
  · next meets => simp [meets]
  · next fails => simp [fails]

/-- A trace whose steps all meet a condition is a trace of the restricted step
function. -/
theorem Trace.guarded
    {start final : σ} {past : List (Transition σ ι ο)}
    (trace : Trace step start past final)
    (all : ∀ current ∈ past, allowed current.source current.input) :
    Trace (guarded step allowed) start past final := by
  induction trace with
  | nil => exact .nil
  | snoc _ stepEq inductionHypothesis =>
      refine .snoc (inductionHypothesis ?_)
        (guarded_eq_some_iff.mpr ⟨?_, stepEq⟩)
      · intro current member
        exact all current (List.mem_append_left _ member)
      · exact all _ (List.mem_append_right _ (List.mem_singleton_self _))

theorem Trace.unguarded
    {start final : σ} {past : List (Transition σ ι ο)}
    (trace : Trace (LibPaxos.Library.guarded step allowed) start past final) :
    Trace step start past final := by
  induction trace with
  | nil => exact .nil
  | snoc _ stepEq inductionHypothesis =>
      exact inductionHypothesis.snoc (guarded_eq_some_iff.mp stepEq).2

/-- Two steps of a trace are the same or one comes before the other. -/
theorem Trace.mem_cases
    {past : List (Transition σ ι ο)} {first second : Transition σ ι ο}
    (firstMember : first ∈ past) (secondMember : second ∈ past) :
    first = second ∨
      (∃ before middle after,
        past = before ++ first :: middle ++ second :: after) ∨
      ∃ before middle after,
        past = before ++ second :: middle ++ first :: after := by
  obtain ⟨before, after, rfl⟩ := List.mem_iff_append.mp firstMember
  rw [List.mem_append, List.mem_cons] at secondMember
  rcases secondMember with early | same | late
  · obtain ⟨front, middle, rfl⟩ := List.mem_iff_append.mp early
    exact Or.inr (Or.inr ⟨front, middle, after, by simp⟩)
  · exact Or.inl same.symm
  · obtain ⟨middle, rest, rfl⟩ := List.mem_iff_append.mp late
    exact Or.inr (Or.inl ⟨before, middle, rest, by simp⟩)

end Guarded

/-- Run the step function over a list of inputs, collecting the transitions. -/
def runFrom (step : σ → ι → Option (σ × ο)) :
    σ → List ι → Option (List (Transition σ ι ο) × σ)
  | state, [] => some ([], state)
  | state, input :: rest =>
      match step state input with
      | none => none
      | some (target, output) =>
          (runFrom step target rest).map fun result =>
            (⟨state, input, output, target⟩ :: result.1, result.2)

/-- A trace extended by a run is a trace. -/
theorem Trace.append_runFrom
    {step : σ → ι → Option (σ × ο)} {start : σ}
    (inputs : List ι) :
    ∀ {past future : List (Transition σ ι ο)} {source final : σ},
      Trace step start past source →
      runFrom step source inputs = some (future, final) →
      Trace step start (past ++ future) final := by
  induction inputs with
  | nil =>
      intro past future source final trace ran
      simp only [runFrom, Option.some.injEq, Prod.mk.injEq] at ran
      obtain ⟨rfl, rfl⟩ := ran
      simpa using trace
  | cons input rest inductionHypothesis =>
      intro past future source final trace ran
      cases stepEq : step source input with
      | none => simp [runFrom, stepEq] at ran
      | some result =>
          obtain ⟨target, output⟩ := result
          cases restEq : runFrom step target rest with
          | none => simp [runFrom, stepEq, restEq] at ran
          | some remaining =>
              simp only [runFrom, stepEq, restEq, Option.map_some,
                Option.some.injEq, Prod.mk.injEq] at ran
              obtain ⟨rfl, rfl⟩ := ran
              have extended :=
                inductionHypothesis (trace.snoc stepEq) restEq
              simpa using extended

/-- The transitions collected by a run form a trace. -/
theorem trace_of_runFrom
    (step : σ → ι → Option (σ × ο)) (start : σ) (inputs : List ι)
    {past : List (Transition σ ι ο)} {final : σ}
    (ran : runFrom step start inputs = some (past, final)) :
    Trace step start past final :=
  Trace.append_runFrom inputs Trace.nil ran

/-- A run takes exactly the given inputs. -/
theorem runFrom_inputs
    {step : σ → ι → Option (σ × ο)} (inputs : List ι) :
    ∀ {start final : σ} {past : List (Transition σ ι ο)},
      runFrom step start inputs = some (past, final) →
      past.map Transition.input = inputs := by
  induction inputs with
  | nil =>
      intro start final past ran
      cases ran
      rfl
  | cons input rest inductionHypothesis =>
      intro start final past ran
      cases stepEq : step start input with
      | none => simp [runFrom, stepEq] at ran
      | some result =>
          simp only [runFrom, stepEq, Option.map_eq_some_iff] at ran
          obtain ⟨remaining, restRan, equal⟩ := ran
          cases equal
          rw [List.map_cons, inductionHypothesis restRan]

/-- A run extended by one step. -/
theorem runFrom_snoc
    {step : σ → ι → Option (σ × ο)} (inputs : List ι) :
    ∀ {start state target : σ} {past : List (Transition σ ι ο)}
      {input : ι} {output : ο},
      runFrom step start inputs = some (past, state) →
      step state input = some (target, output) →
      runFrom step start (inputs ++ [input]) =
        some (past ++ [⟨state, input, output, target⟩], target) := by
  induction inputs with
  | nil =>
      intro start state target past input output ran stepEq
      cases ran
      simp only [List.nil_append, runFrom, stepEq, Option.map_some]
  | cons first rest inductionHypothesis =>
      intro start state target past input output ran stepEq
      cases firstEq : step start first with
      | none => simp [runFrom, firstEq] at ran
      | some result =>
          simp only [runFrom, firstEq, Option.map_eq_some_iff] at ran
          obtain ⟨remaining, restRan, equal⟩ := ran
          cases equal
          simp only [List.cons_append, runFrom, firstEq,
            inductionHypothesis restRan stepEq, Option.map_some]

/-- If every state reached by allowed inputs has a step for every allowed
input, every sequence of allowed inputs has a run. -/
theorem exists_runFrom
    {step : σ → ι → Option (σ × ο)} {start : σ} {allowed : ι → Prop}
    (progress : ∀ past state input, Trace step start past state →
      (∀ current ∈ past, allowed current.input) → allowed input →
      ∃ result, step state input = some result)
    (inputs : List ι) (all : ∀ input ∈ inputs, allowed input) :
    ∃ past final, runFrom step start inputs = some (past, final) := by
  have extend : ∀ (inputs : List ι) (past : List (Transition σ ι ο))
      (state : σ), Trace step start past state →
      (∀ current ∈ past, allowed current.input) →
      (∀ input ∈ inputs, allowed input) →
      ∃ future final, runFrom step state inputs = some (future, final) := by
    intro inputs
    induction inputs with
    | nil =>
        intro past state _ _ _
        exact ⟨[], state, rfl⟩
    | cons input rest inductionHypothesis =>
        intro past state trace earlier all
        have now := all input (List.mem_cons_self ..)
        obtain ⟨⟨target, output⟩, stepEq⟩ :=
          progress past state input trace earlier now
        obtain ⟨future, final, ran⟩ :=
          inductionHypothesis _ target (trace.snoc stepEq)
            (by
              intro current member
              rw [List.mem_append, List.mem_singleton] at member
              rcases member with old | rfl
              · exact earlier current old
              · exact now)
            (fun other member => all other (List.mem_cons_of_mem _ member))
        refine ⟨⟨state, input, output, target⟩ :: future, final, ?_⟩
        simp only [runFrom, stepEq, ran, Option.map_some]
  exact extend inputs [] start .nil (by simp) all

end LibPaxos.Library
