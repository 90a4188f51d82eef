import HeatWatch.Queue

/-!
# What the calls of the queue do

One equation for each call and each part of the queue, so that no later proof looks into a call.
Main statements:

* `push_head_of_room`, `push_tail_of_room`, `replay_of_room`: where a request is put;
* `push_of_full`, `replay_of_full`: a full queue stays as it is;
* `pop_entries`, `takeWaiting_entries`, `clear_entries`: what a removal leaves.
-/

namespace HeatWatch

/-- The entry that is put in when a failed one is to be sent again. -/
def Entry.again (e : Entry) : Entry := { e with caller := none, replayed := true }

@[simp] theorem Entry.again_urgent (e : Entry) : e.again.urgent = true := rfl

namespace Queue

/-- The entry that a request is put in as. -/
def entryFor (q : Queue) (r : Request) (caller : Option Nat) (p : Position) : Entry :=
  ⟨r, caller, p, false, q.accepted⟩

@[simp] theorem entryFor_urgent (q : Queue) (r : Request) (c : Option Nat) (p : Position) :
    (q.entryFor r c p).urgent = (p == .head) := by
  simp [entryFor, Entry.urgent]

/-! ## Putting in -/

@[simp] theorem insertAt_count (q : Queue) (i : Nat) (e : Entry) :
    (q.insertAt i e).queue.accepted = q.accepted := by
  rw [insertAt]
  split
  · rfl
  · dsimp only
    split <;> rfl

@[simp] theorem Insertion.count_refused (i : Insertion) : i.count.refused = i.refused := by
  rw [Insertion.count]
  split <;> rfl

@[simp] theorem Insertion.count_accepted (i : Insertion) : i.count.accepted = i.accepted := by
  rw [Insertion.accepted, Insertion.count_refused, Insertion.accepted]

@[simp] theorem Insertion.count_entries (i : Insertion) :
    i.count.queue.entries = i.queue.entries := by
  rw [Insertion.count]
  split <;> rfl

@[simp] theorem Insertion.count_capacity (i : Insertion) :
    i.count.queue.capacity = i.queue.capacity := by
  rw [Insertion.count]
  split <;> rfl

/-- The urgent entries at the front end where the first periodic one stands. -/
theorem take_urgentCount (q : Queue) :
    q.entries.take q.urgentCount = q.entries.takeWhile (·.urgent) := by
  have h : q.entries.takeWhile (·.urgent) <+: q.entries := List.takeWhile_prefix _
  exact (List.prefix_iff_eq_take.1 h).symm

theorem drop_urgentCount (q : Queue) :
    q.entries.drop q.urgentCount = q.entries.dropWhile (·.urgent) := by
  have h : q.entries.take q.urgentCount ++ q.entries.dropWhile (·.urgent) = q.entries := by
    rw [take_urgentCount]
    exact List.takeWhile_append_dropWhile
  exact List.append_cancel_left ((List.take_append_drop q.urgentCount q.entries).trans h.symm)

@[simp] theorem push_refused (q : Queue) (r : Request) (c : Option Nat) (p : Position) :
    (q.push r c p).refused = if q.size < q.capacity then none else some (q.entryFor r c p) := by
  cases p <;> simp [push, insertAt_refused, entryFor]

theorem push_accepted (q : Queue) (r : Request) (c : Option Nat) (p : Position) :
    (q.push r c p).accepted = true ↔ q.size < q.capacity := by
  cases p <;> simp [push, insertAt_accepted]

theorem insertAt_of_full {q : Queue} (hs : ¬ q.size < q.capacity) (i : Nat) (e : Entry) :
    (q.insertAt i e).queue = q := by
  rw [insertAt, if_pos (by omega)]

theorem insertAt_of_room {q : Queue} (hs : q.size < q.capacity) (i : Nat) (e : Entry) :
    (q.insertAt i e).queue.entries = q.entries.take i ++ e :: q.entries.drop i := by
  rw [insertAt_entries, if_pos hs]

/-- A full queue stays as it is. -/
theorem push_of_full {q : Queue} (hs : ¬ q.size < q.capacity) (r : Request) (c : Option Nat)
    (p : Position) : (q.push r c p).queue = q := by
  have hf : ∀ i e, (q.insertAt i e).count = q.insertAt i e := by
    intro i e
    rw [Insertion.count, if_neg fun ha => hs ((q.insertAt_accepted i e).1 ha)]
  cases p <;> simp only [push, hf] <;> exact insertAt_of_full hs _ _

/-- A request on demand is put behind the urgent ones at the front. -/
theorem push_head_of_room {q : Queue} (hs : q.size < q.capacity) (r : Request) (c : Option Nat) :
    (q.push r c .head).queue.entries =
      q.entries.takeWhile (·.urgent) ++ q.entryFor r c .head
        :: q.entries.dropWhile (·.urgent) := by
  rw [push, Insertion.count_entries, insertAt_of_room hs, take_urgentCount, drop_urgentCount,
    entryFor]

/-- A periodic request is put at the end. -/
theorem push_tail_of_room {q : Queue} (hs : q.size < q.capacity) (r : Request) (c : Option Nat) :
    (q.push r c .tail).queue.entries = q.entries ++ [q.entryFor r c .tail] := by
  rw [push, Insertion.count_entries, insertAt_of_room hs, size, List.take_length,
    List.drop_length, entryFor]

@[simp] theorem push_capacity (q : Queue) (r : Request) (c : Option Nat) (p : Position) :
    (q.push r c p).queue.capacity = q.capacity := by
  cases p <;> simp [push]

theorem push_count_of_room {q : Queue} (hs : q.size < q.capacity) (r : Request) (c : Option Nat)
    (p : Position) : (q.push r c p).queue.accepted = q.accepted + 1 := by
  have h := fun i e => (q.insertAt_accepted i e).2 hs
  cases p <;> simp [push, Insertion.count, h]

theorem push_size_of_room {q : Queue} (hs : q.size < q.capacity) (r : Request) (c : Option Nat)
    (p : Position) : (q.push r c p).queue.size = q.size + 1 := by
  cases p with
  | head =>
    have hsplit := congrArg List.length
      (List.takeWhile_append_dropWhile (p := fun e : Entry => e.urgent) (l := q.entries))
    rw [List.length_append] at hsplit
    rw [size, push_head_of_room hs, List.length_append, List.length_cons, size]
    omega
  | tail => rw [size, push_tail_of_room hs, List.length_append, List.length_singleton, size]

/-- An urgent entry that stands first stays there. -/
theorem push_head? {q : Queue} {x : Entry} (hx : q.entries.head? = some x) (hu : x.urgent = true)
    (r : Request) (c : Option Nat) (p : Position) :
    (q.push r c p).queue.entries.head? = some x := by
  obtain ⟨rest, hrest⟩ : ∃ rest, q.entries = x :: rest := List.head?_eq_some_iff.1 hx
  by_cases hs : q.size < q.capacity
  · cases p with
    | head =>
      rw [push_head_of_room hs, hrest, List.takeWhile_cons_of_pos hu]
      rfl
    | tail =>
      rw [push_tail_of_room hs, hrest]
      rfl
  · rw [push_of_full hs]
    exact hx

@[simp] theorem replay_refused (q : Queue) (e : Entry) :
    (q.replay e).refused = if q.size < q.capacity then none else some e.again :=
  insertAt_refused q 0 e.again

theorem replay_accepted (q : Queue) (e : Entry) :
    (q.replay e).accepted = true ↔ q.size < q.capacity :=
  insertAt_accepted q 0 e.again

theorem replay_of_full {q : Queue} (hs : ¬ q.size < q.capacity) (e : Entry) :
    (q.replay e).queue = q := insertAt_of_full hs 0 e.again

/-- An entry to be sent again is put before all others. -/
theorem replay_of_room {q : Queue} (hs : q.size < q.capacity) (e : Entry) :
    (q.replay e).queue.entries = e.again :: q.entries := insertAt_of_room hs 0 e.again

@[simp] theorem replay_capacity (q : Queue) (e : Entry) :
    (q.replay e).queue.capacity = q.capacity := insertAt_capacity q 0 e.again

@[simp] theorem replay_count (q : Queue) (e : Entry) :
    (q.replay e).queue.accepted = q.accepted := insertAt_count q 0 e.again

/-! ## Taking out -/

@[simp] theorem settle_entries (q : Queue) : q.settle.entries = q.entries := by
  rw [settle]
  split <;> rfl

@[simp] theorem settle_capacity (q : Queue) : q.settle.capacity = q.capacity := by
  rw [settle]
  split <;> rfl

@[simp] theorem settle_count (q : Queue) : q.settle.accepted = q.accepted := by
  rw [settle]
  split <;> rfl

@[simp] theorem pop_head (q : Queue) : q.pop.1 = q.entries.head? := rfl

@[simp] theorem pop_entries (q : Queue) : q.pop.2.entries = q.entries.tail := by
  simp [pop]

@[simp] theorem pop_capacity (q : Queue) : q.pop.2.capacity = q.capacity := by
  simp [pop]

@[simp] theorem pop_count (q : Queue) : q.pop.2.accepted = q.accepted := by
  simp [pop]

@[simp] theorem takeWaiting_taken (q : Queue) :
    q.takeWaiting.1 = q.entries.filter (·.caller.isSome) := by
  simp [takeWaiting, List.partition_eq_filter_filter]

@[simp] theorem takeWaiting_entries (q : Queue) :
    q.takeWaiting.2.entries = q.entries.filter (·.caller.isNone) := by
  simp only [takeWaiting, List.partition_eq_filter_filter, settle_entries]
  congr 1
  funext e
  simp

@[simp] theorem takeWaiting_capacity (q : Queue) : q.takeWaiting.2.capacity = q.capacity := by
  simp [takeWaiting]

@[simp] theorem takeWaiting_count (q : Queue) : q.takeWaiting.2.accepted = q.accepted := by
  simp [takeWaiting]

@[simp] theorem clear_entries (q : Queue) : q.clear.entries = [] := by
  simp [clear]

@[simp] theorem clear_capacity (q : Queue) : q.clear.capacity = q.capacity := by
  simp [clear]

@[simp] theorem clear_count (q : Queue) : q.clear.accepted = q.accepted := by
  simp [clear]

end Queue

end HeatWatch
