import Mathlib.Data.List.Nodup
import LibPaxos.Library.CheckedArray
import LibPaxos.Library.Trace

/-!
# The table of clients

A replica keeps the connections it has accepted in an array of pointers, and
every client stores its own index in the array.  When a client leaves, the loop
that closes the gap starts at the index that the client has stored, and gives
each client behind it the index of its new place.
-/

namespace LibPaxos

open LibPaxos.Library

/-- The clients of `struct peers`: the array of pointers, its count, and the
`id` of every client that is allocated. -/
structure ClientTable where
  clients : List Nat
  clientsCount : Nat
  id : Nat → Option Nat

def ClientTable.empty : ClientTable :=
  ⟨[], 0, fun _ => none⟩

/-- `realloc` of the array; a new place is written before it is read. -/
def reallocClients (count : Nat) (clients : List Nat) : List Nat :=
  (clients ++ List.replicate count 0).take count

/-- `on_accept`, with the pointer that `make_peer` allocates. -/
def onAccept (t : ClientTable) (peer : Nat) : Option ClientTable :=
  (CheckedArray.write (reallocClients (t.clientsCount + 1) t.clients)
    t.clientsCount peer).map fun clients =>
      { clients := clients
        clientsCount := t.clientsCount + 1
        id := Function.update t.id peer (some t.clientsCount) }

/-- The loop of `on_client_event`, for `count` clients from index `i` on.  It is
`none` when an access is out of the array or the client is not allocated. -/
def closeGap : Nat → Nat → ClientTable → Option ClientTable
  | 0, _, t => some t
  | count + 1, i, t =>
      t.clients[i + 1]?.bind fun next =>
        (CheckedArray.write t.clients i next).bind fun clients =>
          (t.id next).bind fun _ =>
            closeGap count (i + 1)
              { t with
                clients := clients
                id := Function.update t.id next (some i) }

def bevEventEof : BitVec 16 :=
  0x10

def bevEventError : BitVec 16 :=
  0x20

def Disconnects (ev : BitVec 16) : Prop :=
  ev &&& bevEventEof ≠ 0 ∨ ev &&& bevEventError ≠ 0

instance : DecidablePred Disconnects := fun ev =>
  inferInstanceAs (Decidable
    (ev &&& bevEventEof ≠ 0 ∨ ev &&& bevEventError ≠ 0))

def onClientEvent (t : ClientTable) (peer : Nat) (ev : BitVec 16) :
    Option ClientTable :=
  (t.id peer).bind fun id =>
    if Disconnects ev then
      (closeGap (t.clientsCount - 1 - id) id t).map fun closed =>
        { clients := reallocClients (t.clientsCount - 1) closed.clients
          clientsCount := t.clientsCount - 1
          id := Function.update closed.id peer none }
    else
      some t

/-- `peers_foreach_client`: the clients that the callback gets, in order. -/
def peersForeachClient (t : ClientTable) : Option (List Nat) :=
  CheckedArray.forEach
    (fun visited i => t.clients[i]?.map fun peer => visited ++ [peer])
    t.clientsCount 0 []

/-- What happens to the table. -/
inductive ClientEvent where
  | accept (peer : Nat)
  | event (peer : Nat) (ev : BitVec 16)

/-- One callback.  The pointer of a new client is not allocated, and events come
from clients in the table. -/
def clientStep (t : ClientTable) :
    ClientEvent → Option (ClientTable × Unit)
  | .accept peer =>
      if t.id peer = none then (onAccept t peer).map (·, ()) else none
  | .event peer ev =>
      if peer ∈ t.clients then (onClientEvent t peer ev).map (·, ())
      else none

/-- The clients that have connected and not left, in the order in which they
connected. -/
def liveAfter (live : List Nat) : ClientEvent → List Nat
  | .accept peer => live ++ [peer]
  | .event peer ev => if Disconnects ev then live.erase peer else live

/-- Every client in the array is allocated and stores its index. -/
structure ClientTable.Numbered (t : ClientTable) : Prop where
  count_eq : t.clientsCount = t.clients.length
  distinct : t.clients.Nodup
  id_eq : ∀ i peer, t.clients[i]? = some peer → t.id peer = some i

theorem ClientTable.numbered_empty : ClientTable.empty.Numbered where
  count_eq := rfl
  distinct := List.nodup_nil
  id_eq := by
    intro i peer found
    cases found

/-! ### Accepting a connection -/

theorem onAccept_eq {t : ClientTable} (numbered : t.Numbered) (peer : Nat) :
    onAccept t peer = some
      { clients := t.clients ++ [peer]
        clientsCount := t.clientsCount + 1
        id := Function.update t.id peer (some t.clientsCount) } := by
  have resized : reallocClients (t.clientsCount + 1) t.clients =
      t.clients ++ [0] := by
    rw [reallocClients, numbered.count_eq, List.replicate_succ,
      List.take_append, List.take_of_length_le (Nat.le_succ _)]
    simp
  rw [onAccept, resized, numbered.count_eq,
    CheckedArray.write_append_length, Option.map_some]

theorem onAccept_numbered {t after : ClientTable} {peer : Nat}
    (numbered : t.Numbered) (fresh : t.id peer = none)
    (accepted : onAccept t peer = some after) : after.Numbered := by
  rw [onAccept_eq numbered] at accepted
  cases accepted
  have missing : peer ∉ t.clients := by
    intro member
    obtain ⟨i, found⟩ := List.mem_iff_getElem?.mp member
    rw [numbered.id_eq i peer found] at fresh
    cases fresh
  constructor
  · rw [List.length_append, List.length_singleton, numbered.count_eq]
  · rw [List.nodup_append]
    refine ⟨numbered.distinct, List.nodup_singleton peer, ?_⟩
    intro old member new isNew same
    rw [List.mem_singleton.mp isNew] at same
    exact missing (same ▸ member)
  · intro i other found
    rcases Nat.lt_or_ge i t.clients.length with old | new
    · rw [List.getElem?_append_left old] at found
      have different : other ≠ peer := by
        intro same
        exact missing (same ▸ List.mem_of_getElem? found)
      simp only [Function.update_of_ne different]
      exact numbered.id_eq i other found
    · rw [List.getElem?_append_right new] at found
      have isLast : i = t.clients.length := by
        have bound := (List.getElem?_eq_some_iff.mp found).1
        rw [List.length_singleton] at bound
        omega
      rw [isLast, Nat.sub_self, List.getElem?_cons_zero,
        Option.some.injEq] at found
      simp only [← found, Function.update_self, numbered.count_eq, isLast]

/-! ### Losing a connection -/

/-- The indices that the loop stores in the clients behind the gap. -/
def renumber (id : Nat → Option Nat) : Nat → List Nat → Nat → Option Nat
  | _, [] => id
  | i, next :: rest => renumber (Function.update id next (some i)) (i + 1) rest

theorem renumber_of_notMem {peer : Nat} (rest : List Nat) :
    ∀ {id : Nat → Option Nat} {i : Nat}, peer ∉ rest →
      renumber id i rest peer = id peer := by
  induction rest with
  | nil =>
      intro id i _
      rfl
  | cons next rest inductionHypothesis =>
      intro id i missing
      rw [List.mem_cons, not_or] at missing
      rw [renumber, inductionHypothesis missing.2,
        Function.update_of_ne missing.1]

theorem renumber_of_getElem? {peer : Nat} (rest : List Nat) :
    ∀ {id : Nat → Option Nat} {i j : Nat}, rest.Nodup →
      rest[j]? = some peer → renumber id i rest peer = some (i + j) := by
  induction rest with
  | nil =>
      intro id i j _ found
      cases found
  | cons next rest inductionHypothesis =>
      intro id i j distinct found
      rw [List.nodup_cons] at distinct
      rw [renumber]
      cases j with
      | zero =>
          rw [List.getElem?_cons_zero, Option.some.injEq] at found
          rw [← found, renumber_of_notMem rest distinct.1,
            Function.update_self, Nat.add_zero]
      | succ j =>
          rw [List.getElem?_cons_succ] at found
          rw [inductionHypothesis distinct.2 found]
          congr 1
          omega

/-- The loop moves the clients behind the gap down by one place. -/
theorem closeGap_eq (count : Nat) (rest : List Nat) :
    ∀ {id : Nat → Option Nat} (before : List Nat) (first : Nat),
      (∀ peer ∈ rest, (id peer).isSome = true) →
      closeGap rest.length before.length
          ⟨before ++ first :: rest, count, id⟩ =
        some ⟨before ++ rest ++ [rest.getLastD first], count,
          renumber id before.length rest⟩ := by
  induction rest with
  | nil =>
      intro id before first _
      rw [List.append_nil]
      rfl
  | cons next rest inductionHypothesis =>
      intro id before first allocated
      have present := allocated next List.mem_cons_self
      obtain ⟨old, isOld⟩ := Option.isSome_iff_exists.mp present
      have others : ∀ peer ∈ rest,
          (Function.update id next (some before.length) peer).isSome =
            true := by
        intro peer member
        by_cases same : peer = next
        · rw [same, Function.update_self]
          rfl
        · rw [Function.update_of_ne same]
          exact allocated peer (List.mem_cons_of_mem next member)
      have step := inductionHypothesis (before ++ [next]) next others
      rw [List.length_append, List.length_singleton, List.append_assoc,
        List.singleton_append] at step
      have read : (before ++ first :: next :: rest)[before.length + 1]? =
          some next := by
        simp
      simp only [List.length_cons, closeGap, read, Option.bind_some,
        CheckedArray.write_append_length, isOld, step, List.getLastD_cons,
        renumber]
      simp

section Leaving

variable {t : ClientTable} {before rest : List Nat} {peer : Nat}
  {ev : BitVec 16}

/-- The client in the middle leaves. -/
theorem onClientEvent_eq (numbered : t.Numbered)
    (split : t.clients = before ++ peer :: rest) (ends : Disconnects ev) :
    onClientEvent t peer ev = some
      { clients := before ++ rest
        clientsCount := t.clientsCount - 1
        id := Function.update (renumber t.id before.length rest) peer
          none } := by
  have stored : t.id peer = some before.length := by
    apply numbered.id_eq
    rw [split]
    exact CheckedArray.getElem?_append_length before peer rest
  have length : t.clientsCount - 1 - before.length = rest.length := by
    rw [numbered.count_eq, split, List.length_append, List.length_cons]
    omega
  have allocated : ∀ other ∈ rest, (t.id other).isSome = true := by
    intro other member
    have inTable : other ∈ t.clients := by
      rw [split]
      exact List.mem_append_right before (List.mem_cons_of_mem peer member)
    obtain ⟨i, found⟩ := List.mem_iff_getElem?.mp inTable
    rw [numbered.id_eq i other found]
    rfl
  have closed := closeGap_eq t.clientsCount rest before peer allocated
  rw [← split] at closed
  have shorter : reallocClients (t.clientsCount - 1)
      (before ++ rest ++ [rest.getLastD peer]) = before ++ rest := by
    have size : t.clientsCount - 1 = (before ++ rest).length := by
      rw [numbered.count_eq, split]
      simp
    rw [reallocClients, size, List.append_assoc, List.take_left']
    rfl
  rw [onClientEvent, stored, Option.bind_some, if_pos ends, length, closed,
    Option.map_some, shorter]

theorem onClientEvent_numbered (numbered : t.Numbered)
    (split : t.clients = before ++ peer :: rest) :
    ClientTable.Numbered
      { clients := before ++ rest
        clientsCount := t.clientsCount - 1
        id := Function.update (renumber t.id before.length rest) peer
          none } := by
  have distinct := numbered.distinct
  rw [split, List.nodup_middle, List.nodup_cons] at distinct
  obtain ⟨gone, apart⟩ := distinct
  have restDistinct := (List.nodup_append.mp apart).2.1
  constructor
  · simp only [numbered.count_eq, split, List.length_append, List.length_cons]
    omega
  · exact apart
  · intro i other found
    have different : other ≠ peer := by
      intro same
      exact gone (same ▸ List.mem_of_getElem? found)
    simp only [Function.update_of_ne different]
    rcases Nat.lt_or_ge i before.length with early | late
    · -- In front of the gap nothing moves.
      rw [List.getElem?_append_left early] at found
      have behind : other ∉ rest := by
        intro member
        exact (List.nodup_append.mp apart).2.2 other
          (List.mem_of_getElem? found) other member rfl
      rw [renumber_of_notMem rest behind]
      apply numbered.id_eq
      rw [split, List.getElem?_append_left early]
      exact found
    · rw [List.getElem?_append_right late] at found
      rw [renumber_of_getElem? rest restDistinct found]
      congr 1
      omega

end Leaving

/-! ### Every history of joins and leaves -/

/-- One callback keeps the numbering, and the array follows the clients that are
live. -/
theorem clientStep_live {t after : ClientTable} {event : ClientEvent}
    {result : Unit} (numbered : t.Numbered)
    (stepEq : clientStep t event = some (after, result)) :
    after.Numbered ∧ after.clients = liveAfter t.clients event := by
  cases event with
  | accept peer =>
      simp only [clientStep] at stepEq
      split at stepEq
      · next fresh =>
          obtain ⟨target, accepted, same⟩ :=
            Option.map_eq_some_iff.mp stepEq
          cases same
          refine ⟨onAccept_numbered numbered fresh accepted, ?_⟩
          rw [onAccept_eq numbered] at accepted
          cases accepted
          rfl
      · cases stepEq
  | event peer ev =>
      simp only [clientStep] at stepEq
      split at stepEq
      · next member =>
          obtain ⟨target, handled, same⟩ := Option.map_eq_some_iff.mp stepEq
          cases same
          obtain ⟨before, rest, split⟩ := List.append_of_mem member
          by_cases ends : Disconnects ev
          · rw [onClientEvent_eq numbered split ends] at handled
            cases handled
            refine ⟨onClientEvent_numbered numbered split, ?_⟩
            have distinct := numbered.distinct
            rw [split, List.nodup_middle, List.nodup_cons,
              List.mem_append, not_or] at distinct
            rw [liveAfter, if_pos ends, split,
              List.erase_append_right _ distinct.1.1, List.erase_cons_head]
          · obtain ⟨id, stored, unhandled⟩ :=
              Option.bind_eq_some_iff.mp handled
            rw [if_neg ends] at unhandled
            cases unhandled
            exact ⟨numbered, (if_neg ends).symm⟩
      · cases stepEq

/-- The callback of a client in the table, and that of a new client, run to
their end. -/
theorem clientStep_defined {t : ClientTable} (numbered : t.Numbered) :
    (∀ peer, t.id peer = none →
      ∃ after, clientStep t (.accept peer) = some (after, ())) ∧
    (∀ peer ∈ t.clients, ∀ ev,
      ∃ after, clientStep t (.event peer ev) = some (after, ())) := by
  constructor
  · intro peer fresh
    rw [clientStep, if_pos fresh, onAccept_eq numbered]
    exact ⟨_, rfl⟩
  · intro peer member ev
    obtain ⟨before, rest, split⟩ := List.append_of_mem member
    by_cases ends : Disconnects ev
    · rw [clientStep, if_pos member, onClientEvent_eq numbered split ends]
      exact ⟨_, rfl⟩
    · obtain ⟨i, found⟩ := List.mem_iff_getElem?.mp member
      refine ⟨t, ?_⟩
      rw [clientStep, if_pos member, onClientEvent,
        numbered.id_eq i peer found, Option.bind_some, if_neg ends,
        Option.map_some]

theorem peersForeachClient_eq {t : ClientTable} (numbered : t.Numbered) :
    peersForeachClient t = some t.clients := by
  have kept : ∀ (visited : List Nat) (peer : Nat), peer ∈ t.clients →
      True → True := by
    intro _ _ _ _
    exact True.intro
  have agree : ∀ (visited : List Nat) (i peer : Nat),
      t.clients[i]? = some peer → True →
      (t.clients[i]?.map fun next => visited ++ [next]) =
        some (visited ++ [peer]) := by
    intro visited i peer found _
    rw [found, Option.map_some]
  rw [peersForeachClient, numbered.count_eq,
    CheckedArray.forEach_all kept agree [] True.intro]
  simp [← List.flatMap_def]

/-- After every history of connections and disconnections: the array holds the
live clients in the order in which they connected, each of them once and with
its index stored in it; the callbacks of a new client and of every client in the
table run to their end, the first appends the client and the second takes out
exactly the client that leaves; and a pass over the clients visits each live
client once. -/
theorem client_table_exact {past : List (Transition ClientTable ClientEvent Unit)}
    {t : ClientTable} (trace : Trace clientStep ClientTable.empty past t) :
    t.Numbered ∧
      t.clients = (past.map Transition.input).foldl liveAfter [] ∧
      peersForeachClient t = some t.clients ∧
      (∀ peer, t.id peer = none → ∃ after,
        clientStep t (.accept peer) = some (after, ()) ∧ after.Numbered ∧
          after.clients = t.clients ++ [peer]) ∧
      (∀ peer ∈ t.clients, ∀ ev, Disconnects ev → ∃ after,
        clientStep t (.event peer ev) = some (after, ()) ∧ after.Numbered ∧
          after.clients = t.clients.erase peer) := by
  have holds : t.Numbered ∧
      t.clients = (past.map Transition.input).foldl liveAfter [] := by
    induction trace with
    | nil => exact ⟨ClientTable.numbered_empty, rfl⟩
    | snoc _ stepEq inductionHypothesis =>
        obtain ⟨numbered, live⟩ := inductionHypothesis
        have kept := clientStep_live numbered stepEq
        refine ⟨kept.1, ?_⟩
        rw [kept.2, live, List.map_append, List.foldl_append]
        rfl
  obtain ⟨numbered, live⟩ := holds
  have defined := clientStep_defined numbered
  refine ⟨numbered, live, peersForeachClient_eq numbered, ?_, ?_⟩
  · intro peer fresh
    obtain ⟨after, accepted⟩ := defined.1 peer fresh
    exact ⟨after, accepted, clientStep_live numbered accepted⟩
  · intro peer member ev ends
    obtain ⟨after, left⟩ := defined.2 peer member ev
    have kept := clientStep_live numbered left
    refine ⟨after, left, kept.1, ?_⟩
    rw [kept.2, liveAfter, if_pos ends]

/-- Three clients connect, the first leaves and its memory is used again. -/
def clientHistory : List ClientEvent :=
  [.accept 8, .accept 16, .accept 24, .event 8 bevEventEof, .accept 8]

/-- The second client has moved to the front, and the new one is the last. -/
theorem client_table_exact_after_history :
    ∃ past t, Trace clientStep ClientTable.empty past t ∧
      past.map Transition.input = clientHistory ∧
      t.clients = [16, 24, 8] ∧ peersForeachClient t = some [16, 24, 8] := by
  have trace := trace_of_runFrom clientStep ClientTable.empty clientHistory rfl
  have table := client_table_exact trace
  exact ⟨_, _, trace, rfl, table.2.1, table.2.2.1⟩

end LibPaxos
