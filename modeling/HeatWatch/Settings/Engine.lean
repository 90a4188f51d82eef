/-!
# Settings of the engine
-/

namespace HeatWatch

/-- Settings of the engine; durations are in milliseconds. -/
structure EngineSettings where
  queueCapacity : Nat
  /-- Free slots at which the queue counts as nearly full. -/
  queueMargin : Nat
  /-- The pause between two requests. -/
  requestInterval : Nat
  /-- The pause between two probes during an outage. -/
  aliveInterval : Nat
  /-- The time after which thermostats and modes are submitted again. -/
  heartbeatInterval : Nat
  /-- The time between two standard polls; none are made if it is zero. -/
  updateInterval : Nat
  /-- The days between two software checks; none are made if it is not positive. -/
  softwareDays : Int
  deriving DecidableEq, Repr

/-- Milliseconds in a second. -/
def second : Nat := 1000

/-- Milliseconds in a day. -/
def day : Nat := 24 * 60 * 60 * second

/-- The longest pause, delay or period: thirty years, none of them a leap year. What is to take
longer takes this long. Only a first poll or probe may be further away. -/
def longestWait : Nat := 30 * 365 * day

namespace EngineSettings

def default : EngineSettings where
  queueCapacity := 30
  queueMargin := 5
  requestInterval := 5 * second
  aliveInterval := 60 * second
  heartbeatInterval := 15 * 60 * second
  updateInterval := 60 * second
  softwareDays := 7

end EngineSettings

end HeatWatch
