import LibPaxos.Library.Trace

/-!
# Runs matched by runs

A system can be described by another one.  Where every step of the first, after
any run so far, is matched by a run of the second, so is every run.  A part of a
system takes part in it: where each of its steps is a step of the whole, so is
each of its runs, also when the whole collects what the part emits.
-/

namespace LibPaxos.Library

universe u v w u' v' w' x

variable {σ : Type u} {ι : Type v} {ο : Type w}
variable {σ' : Type u'} {ι' : Type v'} {ο' : Type w'} {μ : Type x}

section Matched

variable {step : σ → ι → Option (σ × ο)} {start final : σ}
variable {spec : σ' → ι' → Option (σ' × ο')} {specStart : σ'}

/-- A relation between runs that every step keeps, after some steps of the other
system, relates every run to one. -/
theorem Trace.matched
    (related : List (Transition σ ι ο) → σ →
      List (Transition σ' ι' ο') → σ' → Prop)
    (allowed : Transition σ ι ο → Prop)
    (initial : related [] start [] specStart)
    (advance : ∀ (past : List (Transition σ ι ο))
      (current : Transition σ ι ο)
      (history : List (Transition σ' ι' ο')) (view : σ'),
      Trace spec specStart history view →
      related past current.source history view → allowed current →
      step current.source current.input =
        some (current.target, current.output) →
      ∃ more next, Trace spec view more next ∧
        related (past ++ [current]) current.target (history ++ more) next)
    {past : List (Transition σ ι ο)} (trace : Trace step start past final)
    (all : ∀ current ∈ past, allowed current) :
    ∃ history view, Trace spec specStart history view ∧
      related past final history view := by
  induction trace with
  | nil => exact ⟨[], specStart, .nil, initial⟩
  | @snoc past source target input output _ stepEq inductionHypothesis =>
      rw [List.forall_mem_append, List.forall_mem_singleton] at all
      obtain ⟨history, view, reached, holds⟩ := inductionHypothesis all.1
      obtain ⟨more, next, moved, kept⟩ :=
        advance past ⟨source, input, output, target⟩ history view reached holds
          all.2 stepEq
      exact ⟨history ++ more, next, reached.trans moved, kept⟩

end Matched

section Emitting

variable {step : σ → ι → Option (σ × ο)} {allowed : σ → ι → Prop}
variable {emit : ο → List μ}

/-- What a run emits, oldest first. -/
def emittedBy (emit : ο → List μ) (past : List (Transition σ ι ο)) : List μ :=
  past.flatMap fun current => emit current.output

theorem emittedBy_snoc (emit : ο → List μ) (past : List (Transition σ ι ο))
    (last : Transition σ ι ο) :
    emittedBy emit (past ++ [last]) =
      emittedBy emit past ++ emit last.output := by
  simp [emittedBy]

/-- A state is reached by steps that all meet a condition and that emit this. -/
def Emits (step : σ → ι → Option (σ × ο)) (allowed : σ → ι → Prop)
    (emit : ο → List μ) (start : σ) (emitted : List μ) (final : σ) : Prop :=
  ∃ past, Trace (guarded step allowed) start past final ∧
    emittedBy emit past = emitted

namespace Emits

variable {start middle final : σ} {first second : List μ}

theorem refl (start : σ) : Emits step allowed emit start [] start :=
  ⟨[], .nil, rfl⟩

theorem single
    {input : ι} {output : ο} (meets : allowed start input)
    (stepEq : step start input = some (final, output)) :
    Emits step allowed emit start (emit output) final := by
  refine ⟨_, Trace.nil.snoc (guarded_eq_some_iff.mpr ⟨meets, stepEq⟩), ?_⟩
  simp only [emittedBy, List.nil_append, List.flatMap_cons, List.flatMap_nil,
    List.append_nil]

theorem trans
    (left : Emits step allowed emit start first middle)
    (right : Emits step allowed emit middle second final) :
    Emits step allowed emit start (first ++ second) final := by
  obtain ⟨past, trace, rfl⟩ := left
  obtain ⟨future, later, rfl⟩ := right
  exact ⟨past ++ future, trace.trans later, List.flatMap_append⟩

end Emits

variable {whole : σ' → ι' → Option (σ' × ο')}

/-- A step of a whole that is a step of its part. -/
structure IsStepOf (embed : σ → List μ → σ') (wrap : ι → ι')
    (wrapped : ο → ο') (own : Transition σ ι ο)
    (current : Transition σ' ι' ο') : Prop where
  source : ∃ earlier, current.source = embed own.source earlier
  input : current.input = wrap own.input
  output : current.output = wrapped own.output

variable (emit) in
/-- A run of a part is a run of the whole that collects what it emits. -/
theorem Trace.embedded
    (embed : σ → List μ → σ') (wrap : ι → ι') (wrapped : ο → ο')
    (steps : ∀ source input target output, ∀ emitted : List μ,
      step source input = some (target, output) →
      whole (embed source emitted) (wrap input) =
        some (embed target (emitted ++ emit output), wrapped output))
    {start final : σ} {past : List (Transition σ ι ο)}
    (trace : Trace step start past final) :
    ∃ more, Trace whole (embed start []) more
        (embed final (emittedBy emit past)) ∧
      ∀ current ∈ more, ∃ own ∈ past,
        IsStepOf embed wrap wrapped own current := by
  induction trace with
  | nil => exact ⟨[], .nil, by simp⟩
  | @snoc past source target input output _ stepEq inductionHypothesis =>
      obtain ⟨more, moved, parts⟩ := inductionHypothesis
      have taken :=
        moved.snoc (steps source input target output _ stepEq)
      refine ⟨_, (emittedBy_snoc emit past
        ⟨source, input, output, target⟩) ▸ taken, ?_⟩
      intro current member
      rw [List.mem_append, List.mem_singleton] at member
      rcases member with earlier | rfl
      · obtain ⟨own, ownMember, isStep⟩ := parts current earlier
        exact ⟨own, List.mem_append_left _ ownMember, isStep⟩
      · exact ⟨⟨source, input, output, target⟩,
          List.mem_append_right _ (List.mem_singleton_self _),
          ⟨_, rfl⟩, rfl, rfl⟩

end Emitting

end LibPaxos.Library
