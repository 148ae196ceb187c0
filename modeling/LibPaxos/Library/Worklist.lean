import Mathlib.Data.List.Nodup
import Mathlib.Data.List.Perm.Subperm
import Mathlib.Logic.Relation

/-!
# Search with a work list

A search takes a node from the front of a work list, marks it as seen and puts
those of its successors at the back that are neither seen nor waiting.  Over a
finite universe it ends, and has then seen the nodes that the start reaches,
each of them once.
-/

namespace LibPaxos.Library

namespace Worklist

variable {α : Type}

/-- Put a node at the back of the work list, unless it is seen or waiting. -/
def enqueue [DecidableEq α] (seen queue : List α) (node : α) : List α :=
  if node ∈ seen ∨ node ∈ queue then queue else queue ++ [node]

/-- The search, for at most `fuel` looks at the work list.  The result is the
nodes seen, in the order of the search. -/
def search [DecidableEq α] (successors : α → List α) :
    Nat → List α → List α → Option (List α)
  | 0, _, _ => none
  | _ + 1, seen, [] => some seen
  | fuel + 1, seen, node :: rest =>
      search successors fuel (seen ++ [node])
        ((successors node).foldl (enqueue (seen ++ [node])) rest)

/-- The nodes seen and waiting are distinct nodes of the universe. -/
structure Within (nodes seen queue : List α) : Prop where
  distinct : (seen ++ queue).Nodup
  inside : ∀ node ∈ seen ++ queue, node ∈ nodes

section Within

variable {nodes seen queue : List α}

theorem Within.length_le (within : Within nodes seen queue) :
    seen.length + queue.length ≤ nodes.length := by
  rw [← List.length_append]
  exact (List.subperm_of_subset within.distinct within.inside).length_le

/-- The node at the front becomes the last one seen. -/
theorem Within.visit {node : α} {rest : List α}
    (within : Within nodes seen (node :: rest)) :
    Within nodes (seen ++ [node]) rest := by
  have same : seen ++ [node] ++ rest = seen ++ node :: rest := by simp
  constructor
  · rw [same]
    exact within.distinct
  · rw [same]
    exact within.inside

theorem Within.append {node : α}
    (within : Within nodes seen queue) (inside : node ∈ nodes)
    (unseen : node ∉ seen) (idle : node ∉ queue) :
    Within nodes seen (queue ++ [node]) := by
  constructor
  · rw [← List.append_assoc, List.nodup_append]
    refine ⟨within.distinct, List.nodup_singleton node, ?_⟩
    intro other member last isLast same
    rw [List.mem_singleton.mp isLast] at same
    rw [same] at member
    rcases List.mem_append.mp member with inSeen | inQueue
    · exact unseen inSeen
    · exact idle inQueue
  · intro other member
    rw [← List.append_assoc, List.mem_append, List.mem_singleton] at member
    rcases member with old | new
    · exact within.inside other old
    · rw [new]
      exact inside

variable [DecidableEq α]

theorem Within.enqueue {node : α}
    (within : Within nodes seen queue) (inside : node ∈ nodes) :
    Within nodes seen (enqueue seen queue node) := by
  unfold Worklist.enqueue
  split
  · exact within
  · next new =>
      rw [not_or] at new
      exact within.append inside new.1 new.2

theorem Within.foldl_enqueue {added : List α}
    (inside : ∀ node ∈ added, node ∈ nodes) :
    ∀ {queue : List α}, Within nodes seen queue →
      Within nodes seen (added.foldl (Worklist.enqueue seen) queue) := by
  induction added with
  | nil =>
      intro queue within
      exact within
  | cons node rest inductionHypothesis =>
      intro queue within
      apply inductionHypothesis
      · intro other member
        exact inside other (List.mem_cons_of_mem node member)
      · exact within.enqueue (inside node List.mem_cons_self)

end Within

section Enqueue

variable [DecidableEq α]

theorem mem_enqueue {seen queue : List α} {node other : α} :
    other ∈ seen ++ enqueue seen queue node ↔
      other ∈ seen ++ queue ∨ other = node := by
  unfold enqueue
  split
  · next old =>
      rw [← List.mem_append] at old
      constructor
      · exact Or.inl
      · rintro (member | rfl)
        · exact member
        · exact old
  · rw [← List.append_assoc, List.mem_append, List.mem_singleton]

theorem mem_foldl_enqueue {seen : List α} {other : α} (added : List α) :
    ∀ queue, other ∈ seen ++ added.foldl (enqueue seen) queue ↔
      other ∈ seen ++ queue ∨ other ∈ added := by
  induction added with
  | nil =>
      intro queue
      rw [List.foldl_nil, or_iff_left List.not_mem_nil]
  | cons node rest inductionHypothesis =>
      intro queue
      rw [List.foldl_cons, inductionHypothesis, mem_enqueue, List.mem_cons,
        or_assoc]

end Enqueue

section Search

variable (successors : α → List α) (start : α)

/-- What the search keeps: what is seen or waiting is reached from the start,
the start is among it, and so are the successors of what is seen. -/
structure Explores (seen queue : List α) : Prop where
  reached : ∀ node ∈ seen ++ queue,
    Relation.ReflTransGen (fun a b => b ∈ successors a) start node
  started : start ∈ seen ++ queue
  covered : ∀ node ∈ seen, ∀ next ∈ successors node, next ∈ seen ++ queue

variable {successors start}

theorem explores_start : Explores successors start [] [start] where
  reached := by
    intro node member
    rw [List.mem_singleton.mp member]
  started := List.mem_singleton_self start
  covered := by
    intro node member
    exact absurd member List.not_mem_nil

/-- With nothing waiting, exactly what the start reaches has been seen. -/
theorem Explores.mem_iff {seen : List α}
    (explores : Explores successors start seen []) (node : α) :
    node ∈ seen ↔
      Relation.ReflTransGen (fun a b => b ∈ successors a) start node := by
  have started := explores.started
  have covered := explores.covered
  rw [List.append_nil] at started covered
  constructor
  · intro member
    exact explores.reached node (List.mem_append_left [] member)
  · intro reach
    induction reach with
    | refl => exact started
    | tail _ isNext inductionHypothesis =>
        exact covered _ inductionHypothesis _ isNext

variable [DecidableEq α]

theorem Explores.visit {seen rest : List α} {node : α}
    (explores : Explores successors start seen (node :: rest)) :
    Explores successors start (seen ++ [node])
      ((successors node).foldl (enqueue (seen ++ [node])) rest) := by
  have same : seen ++ [node] ++ rest = seen ++ node :: rest := by simp
  constructor
  · intro other member
    rw [mem_foldl_enqueue, same] at member
    rcases member with old | new
    · exact explores.reached other old
    · have before := explores.reached node
        (List.mem_append_right seen List.mem_cons_self)
      exact before.tail new
  · rw [mem_foldl_enqueue, same]
    exact Or.inl explores.started
  · intro source member next isNext
    rw [mem_foldl_enqueue, same]
    rw [List.mem_append, List.mem_singleton] at member
    rcases member with old | new
    · exact Or.inl (explores.covered source old next isNext)
    · rw [new] at isNext
      exact Or.inr isNext

/-- Every look at the work list marks a new node of the universe, so the search
ends. -/
theorem search_spec {nodes : List α}
    (closed : ∀ node ∈ nodes, ∀ next ∈ successors node, next ∈ nodes)
    (fuel : Nat) :
    ∀ {seen queue : List α}, Within nodes seen queue →
      Explores successors start seen queue →
      nodes.length < fuel + seen.length →
      ∃ visited, search successors fuel seen queue = some visited ∧
        visited.Nodup ∧
        ∀ node, node ∈ visited ↔
          Relation.ReflTransGen (fun a b => b ∈ successors a) start node := by
  induction fuel with
  | zero =>
      intro seen queue within _ enough
      have short := within.length_le
      omega
  | succ fuel inductionHypothesis =>
      intro seen queue within explores enough
      cases queue with
      | nil =>
          have distinct := within.distinct
          rw [List.append_nil] at distinct
          exact ⟨seen, rfl, distinct, explores.mem_iff⟩
      | cons node rest =>
          have inside : node ∈ nodes := within.inside node
            (List.mem_append_right seen List.mem_cons_self)
          apply inductionHypothesis
          · exact within.visit.foldl_enqueue (closed node inside)
          · exact explores.visit
          · rw [List.length_append, List.length_singleton]
            omega

end Search

end Worklist

end LibPaxos.Library
