import Mathlib.Data.List.Basic

/-!
# Sessions with an interface

A component that works over an interface makes requests and goes on with the
answers.  A session is that component as data: a finished result, or a request
with what follows each answer.  An implementation of the interface serves a
request from its own state.  Running a session against it gives the result, and
the requests that the session makes on the way can be listed and bounded.
-/

namespace LibPaxos.Library

universe u v w x

/-- A result, or a request and the session that each answer leads to. -/
inductive Session (ρ : Type u) (answer : ρ → Type v) (α : Type w) where
  | done (result : α)
  | call (request : ρ) (resume : answer request → Session ρ answer α)

/-- An implementation of an interface: it answers a request in a state. -/
abbrev Server (ρ : Type u) (answer : ρ → Type v) (σ : Type x) :=
  (request : ρ) → σ → answer request × σ

namespace Session

variable {ρ : Type u} {answer : ρ → Type v} {α : Type w} {σ : Type x}

def run (serve : Server ρ answer σ) : Session ρ answer α → σ → α × σ
  | done result, state => (result, state)
  | call request resume, state =>
      run serve (resume (serve request state).1) (serve request state).2

/-- The requests that a session makes, in order. -/
def requests (serve : Server ρ answer σ) : Session ρ answer α → σ → List ρ
  | done _, _ => []
  | call request resume, state =>
      request ::
        requests serve (resume (serve request state).1) (serve request state).2

/-- Every request that a session makes is allowed. -/
def Allowed (serve : Server ρ answer σ) (allowed : ρ → Prop)
    (session : Session ρ answer α) (state : σ) : Prop :=
  ∀ request ∈ session.requests serve state, allowed request

variable {serve : Server ρ answer σ} {allowed : ρ → Prop}

@[simp]
theorem allowed_done (result : α) (state : σ) :
    (done result : Session ρ answer α).Allowed serve allowed state := by
  intro request member
  cases member

@[simp]
theorem allowed_call_iff (request : ρ)
    (resume : answer request → Session ρ answer α) (state : σ) :
    (call request resume).Allowed serve allowed state ↔
      allowed request ∧
        (resume (serve request state).1).Allowed serve allowed
          (serve request state).2 := by
  simp only [Allowed, requests, List.forall_mem_cons]

/-- A state predicate that every answer keeps holds after a session. -/
theorem run_keeps
    {good : σ → Prop}
    (kept : ∀ request state, good state → good (serve request state).2)
    (session : Session ρ answer α) :
    ∀ {state : σ}, good state → good (session.run serve state).2 := by
  induction session with
  | done result =>
      intro state holds
      exact holds
  | call request resume inductionHypothesis =>
      intro state holds
      exact inductionHypothesis _ (kept request state holds)

end Session

end LibPaxos.Library
