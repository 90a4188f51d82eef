import HeatWatch.Engine.Act

/-!
# Time

The engine runs on a clock of its own. Tasks that are ready act in turn, each until it has to
wait; only then time goes on, to the next time that a task waits for. Tasks that wait for one time
go on in the order in which they began to wait.
-/

namespace HeatWatch.Engine

/-- The turn of a task that is ready. -/
def turn? (t : TaskId × Task) : Option (Nat × TaskId) :=
  match t.2.wait with
  | .ready turn => some (turn, t.1)
  | _ => none

/-- The time that a task waits for. -/
def due? (t : TaskId × Task) : Option Nat :=
  match t.2.wait with
  | .alarm due _ => some due
  | _ => none

/-- The task whose turn it is. -/
def next? (e : Engine) : Option TaskId :=
  let turns := e.tasks.entries.filterMap turn?
  turns.foldl (fun best t =>
    match best with
    | some b => if t.1 < b.1 then some t else best
    | none => some t) none |>.map (·.2)

/-- The next time that a task waits for. -/
def nextDue? (e : Engine) : Option Nat := (e.tasks.entries.filterMap due?).min?

/-- A task that waits for a time that has come is ready. -/
def ring (now : Nat) (t : Task) : Task :=
  match t.wait with
  | .alarm due turn => if due ≤ now then { t with wait := .ready turn } else t
  | _ => t

/-- Lets time go on. -/
def elapse (e : Engine) (now : Nat) : Engine :=
  { e with clock := now, tasks := e.tasks.map (ring now) }

/-- The next thing that happens until a time: a task acts, or time goes on. -/
def step? (e : Engine) (limit : Nat) : Option Engine :=
  match e.next? with
  | some id => some (e.act id)
  | none =>
    match e.nextDue? with
    | some due => if due ≤ limit then some (e.elapse due) else none
    | none => none

/-- Takes at most a number of steps. -/
def steps (limit : Nat) : Nat → Engine → Engine
  | 0, e => e
  | fuel + 1, e =>
    match e.step? limit with
    | some e' => steps limit fuel e'
    | none => e

/-- How far the engine is to go on: until a time, with so many slots in its queue. -/
structure Horizon where
  limit : Nat
  slots : Nat

namespace Horizon

/-- The most steps that come of one poll: nine for each request that finds a slot, and its own. -/
def tick (h : Horizon) : Nat := 9 * h.slots + 1

/-- The most steps that come of a task that polls, in each millisecond once. -/
def polling (h : Horizon) : Nat := (h.limit + 1) * h.tick + 3

/-- The most steps that come of an outage and of what begins with the run after it: the taking of
requests and four polls. -/
def round (h : Horizon) : Nat := 4 * h.polling + 20

end Horizon

/-- More steps than can happen until a time. Each task does no more than there would come of an outage in
each millisecond. -/
def stepBound (e : Engine) (limit : Nat) : Nat :=
  let h : Horizon := ⟨limit, e.queue.capacity⟩
  e.tasks.size * ((limit + 1) * h.round + 20) + 8 * e.queue.size + limit + 1

/-- Does everything that happens until a time. -/
def work (e : Engine) (limit : Nat) : Engine := steps limit (e.stepBound limit) e

/-- Lets a number of milliseconds pass, at most the longest wait. -/
def advance (e : Engine) (ms : Nat) : Engine :=
  let limit := e.after ms
  { e.work limit with clock := limit }

end HeatWatch.Engine
