import HeatWatch.Log
import HeatWatch.Request

/-!
# Listeners and observers

What the host of the poller hears. A listener is told the results for one system, the observer is
told when the service fails and when it is back. Both are known by what they do with it: some
write to the log, some do nothing, and the others belong to the host and have a name.
-/

namespace HeatWatch

/-- Receives the results for a system. -/
inductive Listener where
  /-- Writes every result to the log. -/
  | logging
  /-- Ignores all results. -/
  | silent
  | named (name : String)
  deriving DecidableEq, Repr

/-- Is told when the service fails and when it is back. -/
inductive Observer where
  | logging
  | recording
  deriving DecidableEq, Repr

/-- A result for a listener. -/
inductive Update where
  | system (s : System)
  | status (categories : List Category)
  | parameters (ps : List Parameter)
  | mode (m : Mode)
  | software (s : SoftwareInfo)
  /-- No alarm is active if there is none here. -/
  | alarm (a : Option AlarmInfo)
  deriving DecidableEq, Repr

namespace Update

private def orDash (s : String) : String := if s.isEmpty then "-" else s

/-- What the logging listener writes about a result. -/
def logLines (id : SystemId) : Update → List LogLine
  | .system s =>
    [.info ("System " ++ s.id.text ++ " (" ++ s.name ++ "): " ++ s.connectionStatus.name
      ++ " alarmed=" ++ (if s.hasAlarmed then "true" else "false"))]
  | .status categories =>
    [.info ("System " ++ id.text ++ " status: "
      ++ orDash (String.intercalate ", " (categories.map (·.name))))]
  | .parameters ps =>
    ps.map fun p =>
      .info ("System " ++ id.text ++ " parameter " ++ p.id.text ++ " (" ++ p.title.getD "-"
        ++ "): " ++ p.displayValue)
  | .mode m => [.info ("System " ++ id.text ++ " mode: " ++ m.name)]
  | .software s =>
    match s.upgrade with
    | some u =>
      [.info ("System " ++ id.text ++ " runs " ++ s.current.name ++ "; upgrade " ++ u.name
        ++ " available")]
    | none => [.info ("System " ++ id.text ++ " runs " ++ s.current.name ++ " (up to date)")]
  | .alarm a =>
    match a with
    | some a =>
      [.warn ("System " ++ id.text ++ " alarm "
        ++ ((a.alarmNumber.map int64Text).getD "-") ++ ": " ++ a.header)]
    | none => [.info ("System " ++ id.text ++ " has no active alarm")]

/-- The system that a callback is about: a record speaks for itself. -/
def subject (id : SystemId) : Update → SystemId
  | .system s => s.id
  | _ => id

end Update

/-- Something that a delivery shows. -/
inductive Notice where
  | log (line : LogLine)
  /-- The listener registered for the system of a request is told its result. -/
  | callback (listener : Listener) (system : SystemId) (u : Update)
  deriving DecidableEq, Repr

/-- A listener is told a result, and what it does with it. -/
def Listener.receive (l : Listener) (id : SystemId) (u : Update) : List Notice :=
  .callback l id u :: match l with
    | .logging => (u.logLines id).map .log
    | .silent | .named _ => []

end HeatWatch
