import HeatWatch.Engine.State

/-!
# Phases

How the engine changes its phase: the first listener starts a run, a failure of the service ends
it in an outage, a probe that gets through starts the next one, and the last listener to go
ends everything. Each of these is one step that nothing can interrupt.
-/

namespace HeatWatch.Engine

/-! ## Runs -/

/-- Starts the standard poll, which begins at once, unless it is switched off. -/
def startStandard (e : Engine) : Permit × Engine :=
  let (p, e) := e.issue
  let period := e.settings.updateInterval
  (p, if period = 0 then e.log (.info "Periodic polling disabled (update interval 0)")
    else e.spawn (.startPoll p .standard 0 period))

/-- Starts the software check, which begins at once, unless it is switched off. -/
def startSoftware (e : Engine) : Permit × Engine :=
  let (p, e) := e.issue
  let days := e.settings.softwareDays
  (p, if days ≤ 0 then e.log (.info "Software update check disabled")
    else e.spawn (.startPoll p .software 0 (days.toNat * day)))

/-- Starts a run: the task that takes requests from the queue, and the polls. -/
def startRun (e : Engine) : Engine :=
  let (root, e) := e.issue
  let e := e.spawn (.take root)
  let (standard, e) := e.startStandard
  let (software, e) := e.startSoftware
  let heartbeat := e.settings.heartbeatInterval
  let e := e.spawn (.startPoll root .thermostats heartbeat heartbeat)
  let e := e.spawn (.startPoll root .modes heartbeat heartbeat)
  { e with phase := .active ⟨root, standard, software⟩ }

/-- Tells callers the same result. -/
def replyAll (e : Engine) (callers : List TaskId) (r : Except RequestError String) : Engine :=
  callers.foldl (fun e c => e.reply c r) e

/-- Ends whatever goes on and throws the queue away; callers with a request there get none. -/
def stop (e : Engine) : Engine :=
  let e :=
    match e.phase with
    | .dormant => e
    | .active run => e.withdraw run.permits
    | .outage probe => e.withdraw [probe]
  let callers := e.queue.entries.filterMap (·.caller)
  replyAll { e with phase := .dormant, queue := e.queue.clear } callers (.error .cancelled)

/-! ## Listeners -/

/-- Registers the listener of a system. The first one starts a run. -/
def addListener (e : Engine) (id : SystemId) (l : Listener) : Engine :=
  let (old, table) := e.table.registerListener id l
  let e := { e with table }.log
    (.info ((if old.isSome then "Replaced" else "Registered") ++ " listener for system " ++ id.text))
  match e.phase with
  | .dormant => (e.log (.info "First listener registered; starting request scheduler")).startRun
  | _ => e

/-- Removes a listener if it is the one of the system. The last one to go stops the engine. -/
def removeListener (e : Engine) (id : SystemId) (l : Listener) : Bool × Engine :=
  let (removed, table) := e.table.removeListener id l
  if !removed then
    (false, e.log (.warn ("No matching listener registered for system " ++ id.text)))
  else
    let e := { e with table }.log (.info ("Removed listener for system " ++ id.text))
    (true, if table.listenerCount = 0 then
        e.stop.log (.info "Last listener removed; request scheduler stopped")
      else e)

/-! ## Intervals -/

/-- Changes the time between two standard polls. A run polls at once. -/
def setUpdateInterval (e : Engine) (interval : Nat) : Engine :=
  let e := { e with settings := { e.settings with updateInterval := interval } }
  let e := e.log (.info ("Update interval set to "
    ++ Decimal.Whole.natText (interval / second) ++ "s"))
  match e.phase with
  | .active run =>
    let (standard, e) := (e.withdraw [run.standard]).startStandard
    { e with phase := .active { run with standard } }
  | _ => e

/-- Changes the days between two software checks. A run checks at once. -/
def setSoftwareDays (e : Engine) (days : Int) : Engine :=
  let e := { e with settings := { e.settings with softwareDays := days } }
  let e := e.log (.info ("Software update check interval set to "
    ++ Decimal.Whole.intText days ++ " day(s)"))
  match e.phase with
  | .active run =>
    let (software, e) := (e.withdraw [run.software]).startSoftware
    { e with phase := .active { run with software } }
  | _ => e

/-! ## Outages -/

/-- Tells the observer of an outage. -/
def observeOutage (e : Engine) (error : RequestError) : Engine :=
  match e.observer with
  | none => e
  | some .recording => e.record (.outage error)
  | some .logging =>
    (e.record (.outage error)).log
      (.warn ("NIBE Uplink unavailable (" ++ error.message ++ "); polling suspended"))

/-- Tells the observer of the end of an outage. -/
def observeRecovery (e : Engine) : Engine :=
  match e.observer with
  | none => e
  | some .recording => e.record .recovered
  | some .logging =>
    (e.record .recovered).log (.info "NIBE Uplink reachable again; polling resumed")

/-- Puts a request that failed before all others. -/
def replay (e : Engine) (entry : Entry) : Engine :=
  let i := e.queue.replay entry
  let e := e.inserted i
  if i.accepted then e else e.log (.warn "Failed request could not be re-queued")

/-- Takes the requests of callers out of the queue and tells them the failure. -/
def refuseWaiting (e : Engine) (error : RequestError) : Engine :=
  let (waiting, queue) := e.queue.takeWaiting
  replyAll { e with queue } (waiting.filterMap (·.caller)) (.error error)

/-- Ends the run in an outage, if the run is still the one that goes on. The request that failed
is the first one afterwards, unless a caller waited for it. -/
def enterOutage (e : Engine) (root : Permit) (failed : Entry) (error : RequestError) : Engine :=
  match e.phase with
  | .active run =>
    if !e.allows root then e
    else
      let e := e.withdraw run.permits
      let e := if failed.caller.isNone then e.replay failed else e
      let (probe, e) := (e.refuseWaiting error).issue
      let e := { e.spawn (.startProbe probe) with phase := .outage probe }
      let e := e.log (.warn ("Remote service outage (" ++ error.message
        ++ "); polling suspended, probing every "
        ++ Decimal.Whole.natText (e.settings.aliveInterval / second) ++ "s"))
      e.observeOutage error
  | _ => e

/-- Starts the next run after an outage, if the outage still lasts. -/
def resume (e : Engine) (probe : Permit) : Engine :=
  match e.phase with
  | .outage _ =>
    if !e.allows probe then e
    else
      let e := (e.withdraw [probe]).startRun
      (e.log (.info "Remote service reachable again; polling resumed")).observeRecovery
  | _ => e

end HeatWatch.Engine
