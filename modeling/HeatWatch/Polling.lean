import HeatWatch.SystemTable

/-!
# Periodic requests

What is asked of the service from time to time, in the order in which it is sent.
-/

namespace HeatWatch

namespace Polling

/-- Record, status and tracked parameters of every system that has a listener. -/
def standard (t : SystemTable) : List Request :=
  t.listened.flatMap fun id =>
    .getSystem id :: .getStatus id :: Request.readParameters id (t.tracked id)

/-- The software of every system that has a listener. -/
def software (t : SystemTable) : List Request := t.listened.map .getSoftware

/-- Every thermostat, as it was given, so that the service keeps it. -/
def thermostats (t : SystemTable) : List Request :=
  t.thermostats.flatMap fun (id, ths) => ths.map (.upsertThermostat id)

/-- Every mode that is not the default one. -/
def modes (t : SystemTable) : List Request := t.modeOverrides.map fun (id, m) => .setMode id m

end Polling

/-- What is asked from time to time. -/
inductive Poll where
  | standard
  | software
  | thermostats
  | modes
  deriving DecidableEq, Repr

/-- The requests of a poll, in the order in which they are sent. -/
def Poll.requests : Poll → SystemTable → List Request
  | .standard => Polling.standard
  | .software => Polling.software
  | .thermostats => Polling.thermostats
  | .modes => Polling.modes

end HeatWatch
