import HeatWatch.Dispatch
import HeatWatch.Engine.Phase

/-!
# What the tasks do

`Engine.act` lets a task that is ready go from the point that it has reached to the next one. The
point is left, the task waits there, or it ends.
-/

namespace HeatWatch.Engine

/-! ## Exchanges -/

/-- Joins the line; the wire is free if no one else is there. -/
def join (e : Engine) (id : TaskId) (p : Purpose) : Engine :=
  let next : Duty := .exchange p (.send false)
  let joined := { e with line := e.line ++ [id] }.record (.joined id p)
  if e.line.isEmpty then joined.proceed id next else joined.park id next .line

/-- Leaves the line with a result; the wire goes to the task that came next. -/
def leave (e : Engine) (id : TaskId) (p : Purpose) (r : Except RequestError String) : Engine :=
  let e := { e with line := e.line.drop 1 }.record (.exchanged id p r)
  let e :=
    match e.line with
    | [] => e
    | next :: _ => e.wake next
  e.proceed id (.conclude p r)

/-- Fetches a token and sends the call. Without a token nothing is sent. -/
def send (e : Engine) (id : TaskId) (p : Purpose) (again : Bool) : Engine :=
  match e.script.fetch with
  | (.error f, script) => { e with script }.leave id p (.error f)
  | (.ok token, script) =>
    let (planned, script) := script.reply (e.service.url p.request.path)
    let reply := e.service.await planned
    let e := { e with script }.record (.sent id p token)
    e.sleep id (.exchange p (.receive again reply.arrival)) (e.after reply.delay)

/-- Uses what came back. The first rejection of a token is answered by a second call with a fresh
one; anything else is the result. -/
def receive (e : Engine) (id : TaskId) (p : Purpose) (again : Bool) (a : Arrival) : Engine :=
  let e := e.record (.received id p a)
  match a with
  | .error m => e.leave id p (.error (.transport m))
  | .ok response =>
    if response.status = HttpResponse.unauthorized ∧ !again then
      { e with script := e.script.reject }.proceed id (.exchange p (.send true))
    else
      match response.outcome with
      | .ok body => e.leave id p (.ok body)
      | .error f =>
        let e :=
          if f.isRateLimit then
            e.log (.warn ("Rate limited by the remote API on " ++ p.request.method.name ++ " "
              ++ p.request.path))
          else e
        e.leave id p (.error f)

/-! ## Requests from the queue -/

/-- Waits for an entry, or looks for one again if a request was put in while no task waited. -/
def listen (e : Engine) (id : TaskId) (run : Permit) : Engine :=
  if e.signal then { e with signal := false }.proceed id (.take run)
  else e.park id (.take run) .entry

/-- Takes the next entry; waits for one if there is none. -/
def take (e : Engine) (id : TaskId) (run : Permit) : Engine :=
  if !e.allows run then e.finish id
  else
    match e.queue.pop with
    | (none, queue) => { e with queue }.listen id run
    | (some entry, queue) => { e with queue }.proceed id (.exchange (.entry run entry) .join)

/-- Pauses before the next entry. -/
def pause (e : Engine) (id : TaskId) (run : Permit) : Engine :=
  if !e.allows run then e.finish id
  else e.sleep id (.take run) (e.after e.settings.requestInterval)

/-- Handles the body of a response for which no caller waits. -/
def deliver (e : Engine) (r : Request) (body : String) : Engine :=
  let (table, notices) := Dispatch.deliver e.table r body
  notices.foldl notice { e with table }

/-- Uses the result of a request from the queue: its caller gets it, or else the listener. A
failure of the service ends the run. -/
def concludeEntry (e : Engine) (id : TaskId) (run : Permit) (entry : Entry)
    (r : Except RequestError String) : Engine :=
  match r, entry.caller with
  | .ok body, none => (e.deliver entry.request body).pause id run
  | .ok _, some caller => (e.reply caller r).pause id run
  | .error f, none =>
    if f.isServer then (e.enterOutage run entry f).finish id
    else
      let line : LogLine := .warn ("Dropping " ++ entry.request.kindName ++ " for system "
        ++ entry.request.targetText ++ ": " ++ f.message)
      (e.log line).pause id run
  | .error f, some caller =>
    if f.isServer then ((e.reply caller r).enterOutage run entry f).finish id
    else (e.reply caller r).pause id run

/-! ## Polls -/

/-- A tick that comes later than this moves the ones after it. -/
def tolerance : Nat := 5

/-- The tick after one that was due and comes now: a period later, at most the longest wait. -/
def nextTick (due now period : Nat) : Nat :=
  (if now > due + tolerance then now else due) + min period longestWait

/-- Begins to poll, the first time after a delay of any length. Zero is no period, and the task
ends. -/
def startPoll (e : Engine) (id : TaskId) (permit : Permit) (poll : Poll) (delay period : Nat) :
    Engine :=
  if !e.allows permit || period == 0 then e.finish id
  else e.proceed id (.poll permit poll period (e.clock + delay))

/-- Polls if it is time to, and waits for the next time. -/
def poll (e : Engine) (id : TaskId) (permit : Permit) (poll : Poll) (period due : Nat) : Engine :=
  if !e.allows permit then e.finish id
  else if e.clock < due then e.sleep id (.poll permit poll period due) due
  else
    let rs := poll.requests e.table
    let next := nextTick due e.clock period
    ((e.record (.polled permit poll rs)).enqueueAll rs).sleep id (.poll permit poll period next) next

/-! ## Probes -/

/-- Begins to probe, the first time after a period of any length. Zero is no period, and the outage
lasts. -/
def startProbe (e : Engine) (id : TaskId) (outage : Permit) : Engine :=
  if !e.allows outage || e.settings.aliveInterval == 0 then e.finish id
  else e.proceed id (.probe outage (e.clock + e.settings.aliveInterval))

/-- Probes if it is time to; waits for that time otherwise. -/
def probe (e : Engine) (id : TaskId) (outage : Permit) (due : Nat) : Engine :=
  if !e.allows outage then e.finish id
  else if e.clock < due then e.sleep id (.probe outage due) due
  else
    e.proceed id (.exchange (.probe outage (nextTick due e.clock e.settings.aliveInterval)) .join)

/-- The service still fails, or cannot be reached. -/
def stillFails : Except RequestError String → Bool
  | .error (.server _) | .error (.transport _) => true
  | _ => false

/-- Takes over the listing that a probe brought, if it can be read. -/
def mergeListing (e : Engine) : Except RequestError String → Engine
  | .ok body =>
    match Response.systems.decode body with
    | .ok systems => { e with table := e.table.mergeSystems systems }
    | .error _ => e
  | .error _ => e

/-- Uses the result of a probe: the outage goes on, or it ends. -/
def concludeProbe (e : Engine) (id : TaskId) (outage : Permit) (next : Nat)
    (r : Except RequestError String) : Engine :=
  if stillFails r then e.proceed id (.probe outage next)
  else ((e.mergeListing r).resume outage).finish id

/-! ## Lookups -/

/-- Tells a caller the result, and ends its task. -/
def tell (e : Engine) (id : TaskId) (r : Except RequestError Finding) : Engine :=
  (e.record (.found id r)).finish id

/-- Answers from the table if that is possible. -/
def consult (e : Engine) (id : TaskId) (l : Lookup) : Engine :=
  match l.cached? e.table with
  | some f => e.tell id (.ok f)
  | none => e.proceed id (.route l)

/-- Chooses the queue while requests are taken from it, and an exchange of one's own otherwise. -/
def route (e : Engine) (id : TaskId) (l : Lookup) : Engine :=
  if e.phase.isActive then e.proceed id (.submit l)
  else e.proceed id (.exchange (.lookup l) .join)

/-- Puts the request into the queue, and waits for its result if there was a free slot. -/
def submit (e : Engine) (id : TaskId) (l : Lookup) : Engine :=
  let i := e.queue.push l.request (some id) .head
  let e := e.inserted i
  if i.accepted then e.park id (.await l) .result
  else e.proceed id (.conclude (.lookup l) (.error (.queueFull e.queue.capacity)))

/-- Reads the result of a lookup, keeps it and tells the caller. -/
def concludeLookup (e : Engine) (id : TaskId) (l : Lookup) (r : Except RequestError String) :
    Engine :=
  match r with
  | .error f => e.tell id (.error f)
  | .ok body =>
    match l.read e.table body with
    | .error f => e.tell id (.error (.parse f))
    | .ok (found, table) => { e with table }.tell id (.ok found)

/-! ## All tasks -/

/-- What a task does at a point. -/
def perform (e : Engine) (id : TaskId) : Duty → Engine
  | .take run => e.take id run
  | .startPoll permit poll delay period => e.startPoll id permit poll delay period
  | .poll permit poll period due => e.poll id permit poll period due
  | .startProbe outage => e.startProbe id outage
  | .probe outage due => e.probe id outage due
  | .consult l => e.consult id l
  | .route l => e.route id l
  | .submit l => e.submit id l
  | .await l => e.park id (.await l) .result
  | .exchange p .join => e.join id p
  | .exchange p (.send again) => e.send id p again
  | .exchange p (.receive again a) => e.receive id p again a
  | .conclude (.entry run entry) r => e.concludeEntry id run entry r
  | .conclude (.probe outage next) r => e.concludeProbe id outage next r
  | .conclude (.lookup l) r => e.concludeLookup id l r

/-- Lets a task do what is next, if it is ready. -/
def act (e : Engine) (id : TaskId) : Engine :=
  match e.tasks.get? id with
  | some ⟨duty, .ready _⟩ => e.perform id duty
  | _ => e

end HeatWatch.Engine
