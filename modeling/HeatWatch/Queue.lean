import HeatWatch.Log
import HeatWatch.Request

/-!
# Request queue

A bounded queue with two ends. Requests made on demand go before periodic ones, and each group
keeps the order of arrival. A request that failed at the start of an outage goes before all
others. A full queue refuses a request instead of making its producer wait.

An entry may carry the caller that waits for its result. Such entries can be taken out together,
or thrown away with the rest.
-/

namespace HeatWatch

/-- Where a request is put: on demand at the head, periodically at the tail. -/
inductive Position where
  | head
  | tail
  deriving DecidableEq, Repr

/-- A waiting request. -/
structure Entry where
  request : Request
  /-- The caller that waits for the result. -/
  caller : Option Nat
  position : Position
  /-- The request failed at the start of an outage and is to be sent again. -/
  replayed : Bool
  /-- The number of requests that were accepted before. -/
  serial : Nat
  deriving DecidableEq

/-- The entry stands before all periodic ones. -/
def Entry.urgent (e : Entry) : Bool := e.replayed || e.position == .head

/-- The waiting requests, the next one first. -/
structure Queue where
  capacity : Nat
  /-- Free slots at which the queue counts as nearly full. -/
  margin : Nat
  entries : List Entry
  /-- That the queue is nearly full has been said, and has been true since. -/
  reported : Bool
  /-- The number of requests accepted so far. -/
  accepted : Nat
  deriving DecidableEq

namespace Queue

def empty (capacity margin : Nat) : Queue := ⟨capacity, margin, [], false, 0⟩

def size (q : Queue) : Nat := q.entries.length

/-- The slots that are left. -/
def free (q : Queue) : Nat := q.capacity - q.size

/-- The waiting requests in order. -/
def requests (q : Queue) : List Request := q.entries.map (·.request)

/-- What putting in an entry leads to. The queue stays as it is if the entry is refused. -/
structure Insertion where
  /-- The entry, handed back if there was no free slot. -/
  refused : Option Entry
  queue : Queue
  logs : List LogLine

/-- The entry was put in. -/
def Insertion.accepted (i : Insertion) : Bool := i.refused.isNone

/-- What is logged about a request that finds the queue full. -/
def fullLine (q : Queue) (r : Request) : LogLine :=
  .warn ("Request queue full (" ++ Decimal.Whole.natText q.capacity ++ " entries); dropping "
    ++ r.kindName ++ " for system " ++ r.targetText)

/-- What is logged when the queue becomes nearly full. -/
def nearlyFullLine (q : Queue) : LogLine :=
  .warn ("Request queue nearly full: " ++ Decimal.Whole.natText q.size ++ " of "
    ++ Decimal.Whole.natText q.capacity ++ " slots used")

/-- Puts an entry before the one at an index, if there is a free slot. -/
def insertAt (q : Queue) (i : Nat) (e : Entry) : Insertion :=
  if q.size ≥ q.capacity then ⟨some e, q, [q.fullLine e.request]⟩
  else
    let q := { q with entries := q.entries.take i ++ e :: q.entries.drop i }
    if q.free ≤ q.margin ∧ !q.reported then
      ⟨none, { q with reported := true }, [q.nearlyFullLine]⟩
    else ⟨none, q, []⟩

/-- An entry that finds no free slot is handed back. -/
theorem insertAt_refused (q : Queue) (i : Nat) (e : Entry) :
    (q.insertAt i e).refused = if q.size < q.capacity then none else some e := by
  rw [insertAt]
  by_cases h : q.size < q.capacity
  · rw [if_neg (by omega), if_pos h]
    dsimp only
    split <;> rfl
  · rw [if_pos (by omega), if_neg h]

theorem insertAt_accepted (q : Queue) (i : Nat) (e : Entry) :
    (q.insertAt i e).accepted = true ↔ q.size < q.capacity := by
  rw [Insertion.accepted, insertAt_refused]
  split <;> simp_all

/-- A refused entry leaves the queue as it is; any other stands where it was put. -/
theorem insertAt_entries (q : Queue) (i : Nat) (e : Entry) :
    (q.insertAt i e).queue.entries =
      if q.size < q.capacity then q.entries.take i ++ e :: q.entries.drop i else q.entries := by
  rw [insertAt]
  by_cases h : q.size < q.capacity
  · rw [if_neg (by omega), if_pos h]
    dsimp only
    split <;> rfl
  · rw [if_pos (by omega), if_neg h]

@[simp] theorem insertAt_capacity (q : Queue) (i : Nat) (e : Entry) :
    (q.insertAt i e).queue.capacity = q.capacity := by
  rw [insertAt]
  split
  · rfl
  · dsimp only
    split <;> rfl

/-- Counts an accepted request. -/
def Insertion.count (i : Insertion) : Insertion :=
  if i.accepted then { i with queue := { i.queue with accepted := i.queue.accepted + 1 } } else i

/-- The number of urgent entries at the front. -/
def urgentCount (q : Queue) : Nat := (q.entries.takeWhile (·.urgent)).length

/-- Puts in a request: behind the urgent ones at the front, or at the end. -/
def push (q : Queue) (r : Request) (caller : Option Nat) (p : Position) : Insertion :=
  let e : Entry := ⟨r, caller, p, false, q.accepted⟩
  match p with
  | .head => (q.insertAt q.urgentCount e).count
  | .tail => (q.insertAt q.size e).count

/-- Puts an entry that was taken out before all others. Its caller, if it had one, does not wait
any more. -/
def replay (q : Queue) (e : Entry) : Insertion :=
  q.insertAt 0 { e with caller := none, replayed := true }

/-- Notes that entries were taken out. -/
def settle (q : Queue) : Queue :=
  if q.free > q.margin then { q with reported := false } else q

/-- Takes out the next entry. -/
def pop (q : Queue) : Option Entry × Queue :=
  (q.entries.head?, settle { q with entries := q.entries.drop 1 })

/-- Takes out the entries of all waiting callers. -/
def takeWaiting (q : Queue) : List Entry × Queue :=
  let (waiting, rest) := q.entries.partition (·.caller.isSome)
  (waiting, settle { q with entries := rest })

/-- Throws all entries away. -/
def clear (q : Queue) : Queue := settle { q with entries := [] }

end Queue

end HeatWatch
