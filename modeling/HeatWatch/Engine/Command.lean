import HeatWatch.Engine.Time

/-!
# Commands

What the host of the poller can ask for. Results come later: to the listener of the system, or to
the caller of a lookup. What is written to a system is also kept, and submitted again from time to
time.
-/

namespace HeatWatch

/-- A call of the host. -/
inductive Command where
  | addListener (id : SystemId) (l : Listener)
  | removeListener (id : SystemId) (l : Listener)
  | lookup (l : Lookup)
  | requestSystem (id : SystemId)
  | requestStatus (id : SystemId)
  | requestAlarm (id : SystemId)
  | requestSoftware (id : SystemId)
  | requestMode (id : SystemId)
  | requestParameters (id : SystemId) (parameters : List ParameterId)
  | setParameters (id : SystemId) (values : SortedMap ParameterId Int64)
  /-- Sends a mode, and sends it again while it is not the default one. -/
  | setMode (id : SystemId) (m : Mode)
  /-- Submits a thermostat, and submits it again until it is removed. -/
  | setThermostat (id : SystemId) (t : Thermostat)
  | removeThermostat (id : SystemId) (t : ThermostatId)
  | addTracked (id : SystemId) (p : ParameterId)
  | removeTracked (id : SystemId) (p : ParameterId)
  | setUpdateInterval (seconds : Nat)
  | setSoftwareDays (days : Int)
  | shutdown

namespace Engine

/-- Starts a lookup; its caller is told by the number of its task. -/
def call (e : Engine) (l : Lookup) : TaskId × Engine := (e.nextTask, e.spawn (.consult l))

/-- Puts a request before all periodic ones. -/
def demand (e : Engine) (r : Request) : Bool × Engine := e.enqueue r .head

/-- Puts requests before all periodic ones; tells whether there was a free slot for each. -/
def demandAll (e : Engine) (rs : List Request) : Bool × Engine :=
  rs.foldl (fun (all, e) r =>
    let (accepted, e) := e.demand r
    (all && accepted, e)) (true, e)

/-- Adds a parameter to poll; tells whether it is new. -/
def addTracked (e : Engine) (id : SystemId) (p : ParameterId) : Bool × Engine :=
  let (isNew, table, logs) := e.table.addTracked id p
  (isNew, logAll { e with table } logs)

/-- Queues a standard poll. -/
def runStandardPoll (e : Engine) : Engine := e.enqueueAll (Polling.standard e.table)

/-- Obeys a call of the host, and tells what it is told at once. -/
def obey (e : Engine) : Command → Option Bool × Engine
  | .addListener id l => (none, e.addListener id l)
  | .removeListener id l => answer (e.removeListener id l)
  | .lookup l => (none, (e.call l).2)
  | .requestSystem id => answer (e.demand (.getSystem id))
  | .requestStatus id => answer (e.demand (.getStatus id))
  | .requestAlarm id => answer (e.demand (.getAlarm id))
  | .requestSoftware id => answer (e.demand (.getSoftware id))
  | .requestMode id => answer (e.demand (.getMode id))
  | .requestParameters id ps => answer (e.demandAll (Request.readParameters id ps))
  | .setParameters id values => answer (e.demand (.setParameters id values))
  | .setMode id m => answer ({ e with table := e.table.setMode id m }.demand (.setMode id m))
  | .setThermostat id t =>
    answer ({ e with table := e.table.putThermostat id t }.demand (.upsertThermostat id t))
  | .removeThermostat id t =>
    let (removed, table) := e.table.removeThermostat id t
    (some removed.isSome, { e with table })
  | .addTracked id p => answer (e.addTracked id p)
  | .removeTracked id p =>
    let (removed, table) := e.table.removeTracked id p
    (some removed, { e with table })
  | .setUpdateInterval seconds => (none, e.setUpdateInterval (seconds * second))
  | .setSoftwareDays days => (none, e.setSoftwareDays days)
  | .shutdown => (none, (e.log (.info "Shutting down uplink connector")).stop)
where
  answer (r : Bool × Engine) : Option Bool × Engine := (some r.1, r.2)

/-- Exchanges requests one after the other, with no queue. -/
def exchangeEach (e : Engine) (rs : List Request) : Engine :=
  rs.foldl (fun e r =>
    let e := (e.call (.body r)).2
    e.work (e.clock + 2 * e.service.timeout)) e

/-- Exchanges requests that all start now, with no queue. -/
def exchangeAll (e : Engine) (rs : List Request) : Engine :=
  let e := rs.foldl (fun e r => (e.call (.body r)).2) e
  e.work (e.clock + 2 * e.service.timeout * rs.length)

end Engine

end HeatWatch
