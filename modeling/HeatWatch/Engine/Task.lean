import HeatWatch.Exchange.Script
import HeatWatch.Lookup
import HeatWatch.Polling
import HeatWatch.Queue

/-!
# Tasks

What the engine does at the same time: one task takes requests from the queue, some put periodic
requests into it, one probes the service during an outage, and one serves each caller. A task is
a point that it has reached and what it waits for there. Between two points it does one thing that
no other task can interrupt.
-/

namespace HeatWatch

/-- Lets tasks go on until it is withdrawn. -/
abbrev Permit := Nat

/-- The number of a task. -/
abbrev TaskId := Nat

/-- What an exchange is made for. -/
inductive Purpose where
  /-- An entry taken from the queue under the permit of a run. -/
  | entry (run : Permit) (e : Entry)
  /-- A probe, and the time of the next one. -/
  | probe (outage : Permit) (next : Nat)
  | lookup (l : Lookup)
  deriving DecidableEq

/-- The request that is exchanged. -/
def Purpose.request : Purpose → Request
  | .entry _ e => e.request
  | .probe .. => .listSystems
  | .lookup l => l.request

/-- How far an exchange has come. -/
inductive Stage where
  /-- It is still to join the line. -/
  | join
  /-- It has the wire and sends next, for the second time if a token was rejected. -/
  | send (again : Bool)
  /-- The call is on the wire, and this will come back. -/
  | receive (again : Bool) (a : Arrival)

/-- The point that a task has reached: what it does next. -/
inductive Duty where
  /-- Take the next entry of the queue. -/
  | take (run : Permit)
  /-- Begin to poll, for the first time after a delay. -/
  | startPoll (permit : Permit) (poll : Poll) (delay period : Nat)
  /-- Poll when it is time to. -/
  | poll (permit : Permit) (poll : Poll) (period due : Nat)
  /-- Begin to probe. -/
  | startProbe (outage : Permit)
  /-- Probe when it is time to. -/
  | probe (outage : Permit) (due : Nat)
  /-- Look for the result in the table. -/
  | consult (l : Lookup)
  /-- Choose between the queue and an exchange of one's own. -/
  | route (l : Lookup)
  /-- Put the request into the queue. -/
  | submit (l : Lookup)
  /-- Wait for the result of the request in the queue. -/
  | await (l : Lookup)
  /-- Exchange a request. -/
  | exchange (p : Purpose) (s : Stage)
  /-- Use the result of an exchange. -/
  | conclude (p : Purpose) (r : Except RequestError String)

/-- The permit whose withdrawal ends the wait at a point. An exchange is never cut short, and a
caller always gets its result. -/
def Duty.permit? : Duty → Option Permit
  | .take p | .startPoll p .. | .poll p .. | .startProbe p | .probe p _ => some p
  | _ => none

/-- What a task waits for. -/
inductive Wait where
  /-- Nothing; it goes on when it is its turn. -/
  | ready (turn : Nat)
  /-- A time; of two with one time the one with the earlier turn comes first. -/
  | alarm (due turn : Nat)
  /-- An entry in the queue. -/
  | entry
  /-- The wire. -/
  | line
  /-- The result of a request in the queue. -/
  | result
  deriving DecidableEq, Repr

structure Task where
  duty : Duty
  wait : Wait

end HeatWatch
