import LibPaxos.Library.Session

/-!
# Sessions that are transactions

An implementation of an interface may work on a copy of its state, which it
keeps when a transaction commits.  A session that begins a transaction first and
commits it last is atomic there: wherever it stops, what is kept is what was kept
before it, or what it keeps in the end.
-/

namespace LibPaxos.Library

universe u v w x y

/-- What a request does to a transaction. -/
inductive TransactionRole where
  | begins
  | works
  | commits
  | aborts

/-- What is kept, and the copy that a transaction works on. -/
structure Journal (σ : Type x) where
  kept : σ
  working : σ

/-- Without an open transaction nothing differs from what is kept. -/
def Journal.closed {σ : Type x} (state : σ) : Journal σ :=
  ⟨state, state⟩

variable {ρ : Type u} {answer : ρ → Type v} {α : Type w} {β : Type y}
variable {σ : Type x}

/-- The implementation that works on a copy. -/
def journaled (role : ρ → TransactionRole) (serve : Server ρ answer σ) :
    Server ρ answer (Journal σ) :=
  fun request state =>
    match role request with
    | .begins =>
        ((serve request state.kept).1,
          ⟨state.kept, (serve request state.kept).2⟩)
    | .works =>
        ((serve request state.working).1,
          ⟨state.kept, (serve request state.working).2⟩)
    | .commits =>
        ((serve request state.working).1,
          .closed (serve request state.working).2)
    | .aborts =>
        ((serve request state.working).1, .closed state.kept)

namespace Session

def map (f : α → β) : Session ρ answer α → Session ρ answer β
  | .done result => .done (f result)
  | .call request resume => .call request fun given => (resume given).map f

theorem run_map
    (f : α → β) (serve : Server ρ answer σ) (session : Session ρ answer α) :
    ∀ state, (session.map f).run serve state =
      Prod.map f id (session.run serve state) := by
  induction session with
  | done result => exact fun _ => rfl
  | call request resume inductionHypothesis =>
      intro state
      exact inductionHypothesis _ _

/-- Serve only so many requests of a session. -/
def runFor (serve : Server ρ answer σ) :
    Nat → Session ρ answer α → σ → σ
  | 0, _, state => state
  | _ + 1, .done _, state => state
  | steps + 1, .call request resume, state =>
      runFor serve steps (resume (serve request state).1)
        (serve request state).2

def IsDone (session : Session ρ answer α) : Prop :=
  ∃ result, session = .done result

/-- Inside a transaction the session works, and then commits it, as long as the
answers that it gets are good. -/
inductive Commits (role : ρ → TransactionRole)
    (good : (request : ρ) → answer request → Prop) :
    Session ρ answer α → Prop
  | commits {request : ρ} {resume : answer request → Session ρ answer α} :
      role request = .commits →
      (∀ given, good request given → (resume given).IsDone) →
      Commits role good (.call request resume)
  | works {request : ρ} {resume : answer request → Session ρ answer α} :
      role request = .works →
      (∀ given, good request given → Commits role good (resume given)) →
      Commits role good (.call request resume)

/-- The session makes no request, or it is one transaction that commits. -/
inductive IsTransaction (role : ρ → TransactionRole)
    (good : (request : ρ) → answer request → Prop) :
    Session ρ answer α → Prop
  | done (result : α) : IsTransaction role good (.done result)
  | begins {request : ρ} {resume : answer request → Session ρ answer α} :
      role request = .begins →
      (∀ given, good request given → Commits role good (resume given)) →
      IsTransaction role good (.call request resume)

variable {role : ρ → TransactionRole} {session : Session ρ answer α}
variable {good : (request : ρ) → answer request → Prop}

theorem Commits.map
    (f : α → β) (commits : session.Commits role good) :
    (session.map f).Commits role good := by
  induction commits with
  | commits isCommit last =>
      refine .commits isCommit fun given isGood => ?_
      obtain ⟨result, isLast⟩ := last given isGood
      rw [isLast]
      exact ⟨f result, rfl⟩
  | works isWork _ inductionHypothesis => exact .works isWork inductionHypothesis

theorem IsTransaction.map
    (f : α → β) (isTransaction : session.IsTransaction role good) :
    (session.map f).IsTransaction role good := by
  cases isTransaction with
  | done result => exact .done (f result)
  | begins isBegin rest =>
      exact .begins isBegin fun given isGood => (rest given isGood).map f

section Run

variable {serve : Server ρ answer σ}
variable (answers : ∀ request state, good request (serve request state).1)

include answers

/-! ### Stopping a session -/

theorem Commits.runFor_kept
    (commits : session.Commits role good) :
    ∀ (state : Journal σ) (steps : Nat),
      (session.runFor (journaled role serve) steps state).kept = state.kept ∨
      (session.runFor (journaled role serve) steps state).kept =
        (session.run (journaled role serve) state).2.kept := by
  induction commits with
  | @commits request resume isCommit last =>
      intro state steps
      cases steps with
      | zero => exact Or.inl rfl
      | succ steps =>
          right
          obtain ⟨result, isLast⟩ := last _ (answers request state.working)
          cases steps <;>
            simp only [runFor, run, journaled, isCommit, isLast]
  | @works request resume isWork _ inductionHypothesis =>
      intro state steps
      cases steps with
      | zero => exact Or.inl rfl
      | succ steps =>
          simp only [runFor, run, journaled, isWork]
          exact inductionHypothesis _ (answers request state.working)
            ⟨state.kept, (serve request state.working).2⟩ steps

/-- Wherever a transaction stops, it has kept nothing or everything. -/
theorem IsTransaction.runFor_kept
    (isTransaction : session.IsTransaction role good) (state : Journal σ)
    (steps : Nat) :
    (session.runFor (journaled role serve) steps state).kept = state.kept ∨
      (session.runFor (journaled role serve) steps state).kept =
        (session.run (journaled role serve) state).2.kept := by
  cases isTransaction with
  | done result => cases steps <;> exact Or.inl rfl
  | @begins request resume isBegin rest =>
      cases steps with
      | zero => exact Or.inl rfl
      | succ steps =>
          simp only [runFor, run, journaled, isBegin]
          exact (rest _ (answers request state.kept)).runFor_kept answers
            ⟨state.kept, (serve request state.kept).2⟩ steps

/-! ### Running a session to its end -/

theorem Commits.run_journaled
    (commits : session.Commits role good) :
    ∀ kept working : σ,
      session.run (journaled role serve) ⟨kept, working⟩ =
        ((session.run serve working).1,
          .closed (session.run serve working).2) := by
  induction commits with
  | @commits request resume isCommit last =>
      intro kept working
      obtain ⟨result, isLast⟩ := last _ (answers request working)
      simp only [run, journaled, isCommit, isLast]
  | @works request resume isWork _ inductionHypothesis =>
      intro kept working
      simp only [run, journaled, isWork]
      exact inductionHypothesis _ (answers request working) _ _

/-- A transaction does over a journal what it does without one. -/
theorem IsTransaction.run_journaled
    (isTransaction : session.IsTransaction role good) (state : σ) :
    session.run (journaled role serve) (.closed state) =
      ((session.run serve state).1, .closed (session.run serve state).2) := by
  cases isTransaction with
  | done result => rfl
  | @begins request resume isBegin rest =>
      simp only [run, Journal.closed, journaled, isBegin]
      exact (rest _ (answers request state)).run_journaled answers _ _

end Run

end Session

end LibPaxos.Library
