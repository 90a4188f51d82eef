import HeatWatch.Engine.Task
import HeatWatch.Settings.Engine

/-!
# State of the engine

The engine is in one of three phases. It is dormant while no one listens, active while requests
are made, and in an outage while the service fails. What it shows is its history.
-/

namespace HeatWatch

/-- The permits of a run: one for all of its tasks, and one each for two of the polls, which can
be replaced alone. -/
structure Run where
  root : Permit
  standard : Permit
  software : Permit
  deriving DecidableEq, Repr

/-- All permits of a run. -/
def Run.permits (r : Run) : List Permit := [r.root, r.standard, r.software]

inductive Phase where
  | dormant
  | active (run : Run)
  /-- The service is probed under this permit. -/
  | outage (probe : Permit)
  deriving DecidableEq, Repr

def Phase.isActive : Phase → Bool
  | .active _ => true
  | _ => false

/-- Something that happened. -/
inductive Happening where
  | log (line : LogLine)
  /-- A poll was due, and its requests were put into the queue as far as there was room. -/
  | polled (permit : Permit) (poll : Poll) (rs : List Request)
  /-- A task joined the line for an exchange. -/
  | joined (task : TaskId) (p : Purpose)
  /-- A task started a call on the wire. -/
  | sent (task : TaskId) (p : Purpose) (token : String)
  /-- The call on the wire ended. -/
  | received (task : TaskId) (p : Purpose) (a : Arrival)
  /-- A task left the line with the result of its exchange. -/
  | exchanged (task : TaskId) (p : Purpose) (r : Except RequestError String)
  | callback (listener : Listener) (system : SystemId) (u : Update)
  /-- The observer is told of an outage. -/
  | outage (e : RequestError)
  /-- The observer is told of the end of an outage. -/
  | recovered
  /-- A caller is told the result of its lookup. -/
  | found (caller : TaskId) (r : Except RequestError Finding)

/-- Something that happened, and when. -/
structure Event where
  time : Nat
  what : Happening

structure Engine where
  settings : EngineSettings
  service : Service
  observer : Option Observer
  script : Script
  /-- The time in milliseconds. -/
  clock : Nat
  phase : Phase
  table : SystemTable
  queue : Queue
  /-- A request was put into the queue while no task waited for one, and none that found the queue
  empty has looked again since. -/
  signal : Bool
  /-- The permits that are not withdrawn. -/
  permits : List Permit
  /-- The tasks with an exchange in the order of arrival. The first one has the wire. -/
  line : List TaskId
  tasks : SortedMap TaskId Task
  nextPermit : Permit
  nextTask : TaskId
  /-- The next turn. -/
  turn : Nat
  /-- All that happened, the latest first. -/
  history : List Event

namespace Engine

/-- A dormant engine at time zero. -/
def start (settings : EngineSettings) (service : Service) (observer : Option Observer)
    (script : Script) : Engine where
  settings := settings
  service := service
  observer := observer
  script := script
  clock := 0
  phase := .dormant
  table := .empty
  queue := .empty settings.queueCapacity settings.queueMargin
  signal := false
  permits := []
  line := []
  tasks := ∅
  nextPermit := 0
  nextTask := 0
  turn := 0
  history := []

/-! ## History -/

def record (e : Engine) (h : Happening) : Engine := { e with history := ⟨e.clock, h⟩ :: e.history }

def log (e : Engine) (l : LogLine) : Engine := e.record (.log l)

def logAll (e : Engine) (ls : List LogLine) : Engine := ls.foldl log e

/-- Records what a delivery shows. -/
def notice (e : Engine) : Notice → Engine
  | .log l => e.log l
  | .callback l id u => e.record (.callback l id u)

/-! ## Tasks -/

/-- Starts a task; it goes on when all that are ready had their turn. -/
def spawn (e : Engine) (d : Duty) : Engine :=
  { e with
    tasks := e.tasks.insert e.nextTask ⟨d, .ready e.turn⟩
    nextTask := e.nextTask + 1
    turn := e.turn + 1 }

/-- Ends a task. -/
def finish (e : Engine) (id : TaskId) : Engine := { e with tasks := e.tasks.erase id }

/-- Moves a task to a point where it waits. -/
def park (e : Engine) (id : TaskId) (d : Duty) (w : Wait) : Engine :=
  { e with tasks := e.tasks.insert id ⟨d, w⟩ }

/-- Moves a task to its next point, where it goes on at once. -/
def proceed (e : Engine) (id : TaskId) (d : Duty) : Engine :=
  match e.tasks.get? id with
  | some t => e.park id d t.wait
  | none => e

/-- Moves a task to a point where it goes on at a time; at once if the time has come. -/
def sleep (e : Engine) (id : TaskId) (d : Duty) (due : Nat) : Engine :=
  if due ≤ e.clock then e.proceed id d
  else { e.park id d (.alarm due e.turn) with turn := e.turn + 1 }

/-- The time after a wait from now on, at most the longest one. -/
def after (e : Engine) (wait : Nat) : Nat := e.clock + min wait longestWait

/-- Lets a waiting task go on at a point when all that are ready had their turn. -/
def wakeAt (e : Engine) (id : TaskId) (d : Duty) : Engine :=
  { e.park id d (.ready e.turn) with turn := e.turn + 1 }

/-- Lets a waiting task go on. -/
def wake (e : Engine) (id : TaskId) : Engine :=
  match e.tasks.get? id with
  | some ⟨_, .ready _⟩ | none => e
  | some t => e.wakeAt id t.duty

/-- Lets the task go on that waits for an entry in the queue. If there is none, the next one that
finds the queue empty is to look again. -/
def wakeTaker (e : Engine) : Engine :=
  match e.tasks.entries.find? fun t => t.2.wait = .entry with
  | some (id, _) => e.wake id
  | none => { e with signal := true }

/-- Gives a waiting caller the result of its request. -/
def reply (e : Engine) (caller : TaskId) (r : Except RequestError String) : Engine :=
  match e.tasks.get? caller with
  | some ⟨.await l, _⟩ => e.wakeAt caller (.conclude (.lookup l) r)
  | _ => e

/-! ## Permits -/

/-- Issues a new permit. -/
def issue (e : Engine) : Permit × Engine :=
  (e.nextPermit, { e with permits := e.nextPermit :: e.permits, nextPermit := e.nextPermit + 1 })

/-- The permit is not withdrawn. -/
def allows (e : Engine) (p : Permit) : Bool := e.permits.contains p

/-- Withdraws permits; the tasks that wait under them go on, to their end. -/
def withdraw (e : Engine) (ps : List Permit) : Engine :=
  let held := e.tasks.entries.filter fun t => t.2.duty.permit?.any ps.contains
  (held.map (·.1)).foldl wake { e with permits := e.permits.filter fun p => !ps.contains p }

/-! ## Queue -/

/-- Takes over what putting in a request led to. -/
def inserted (e : Engine) (i : Queue.Insertion) : Engine :=
  let e := logAll { e with queue := i.queue } i.logs
  if i.accepted then e.wakeTaker else e

/-- Puts a request into the queue; tells whether there was a free slot. -/
def enqueue (e : Engine) (r : Request) (p : Position) : Bool × Engine :=
  let i := e.queue.push r none p
  (i.accepted, e.inserted i)

/-- Puts requests at the end of the queue, as far as there are free slots. -/
def enqueueAll (e : Engine) (rs : List Request) : Engine :=
  rs.foldl (fun e r => (e.enqueue r .tail).2) e

end Engine

end HeatWatch
