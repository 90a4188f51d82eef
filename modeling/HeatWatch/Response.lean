import HeatWatch.Installation.Notice
import HeatWatch.Installation.Parameter
import HeatWatch.Installation.SmartHome

/-!
# Responses

The body of a response as a value of the domain, or what is wrong with it and where.

The message of a fault may end with the position in the body where the library for JSON noticed it.
`Response.decodeAt` is told these positions; `Response.decode`, which the rest of the project uses,
leaves them out, so they are missing in the results of callers and in the lines of the log.
-/

namespace HeatWatch

open Json (Shape Failure)

/-- A body that is not what was expected: a name for what was read, the place, and the cause. -/
structure ParseError where
  what : String
  path : String
  message : String
  deriving DecidableEq, Repr

namespace ParseError

def text (e : ParseError) : String :=
  "failed to decode " ++ e.what ++ " at `" ++ e.path ++ "`: " ++ e.message

/-- The failure of a body, which was noticed at a position. -/
def ofFailureAt (what : String) (noticed : Option Json.Position) (f : Failure) : ParseError :=
  ⟨what, Json.Path.text f.path, f.fault.report noticed⟩

/-- The failure of a body, without the position where it was noticed. -/
def ofFailure (what : String) : Failure → ParseError := ofFailureAt what none

end ParseError

/-- A kind of response body: what it is called and the shape it has. -/
structure Response (α : Type) where
  what : String
  shape : Shape α

/-- Where the library for JSON notices the failure of a body. -/
abbrev Positions := String → Failure → Option Json.Position

namespace Response

/-- Reads the first value of a body. -/
def decodeAt {α : Type} (r : Response α) (noticed : Positions) (body : String) :
    Except ParseError α :=
  (r.shape.decode body).mapError fun f => .ofFailureAt r.what (noticed body f) f

/-- Reads the first value of a body, and leaves positions out. -/
def decode {α : Type} (r : Response α) : String → Except ParseError α :=
  r.decodeAt fun _ _ => none

def systems : Response (List System) := ⟨"system list", pageShape System.shape⟩
def system : Response System := ⟨"system", System.shape⟩
def capabilities : Response Capabilities := ⟨"system config", Capabilities.shape⟩
def categories : Response (List Category) := ⟨"categories", .list Category.shape⟩
def status : Response (List Category) := ⟨"system status", .list Category.shape⟩
def software : Response SoftwareInfo := ⟨"software info", SoftwareInfo.shape⟩
def alarms : Response (List AlarmInfo) := ⟨"notifications", pageShape AlarmInfo.shape⟩
def parameters : Response (List Parameter) := ⟨"parameters", .list Parameter.shape⟩
def writes : Response (List ParameterWrite) :=
  ⟨"parameter write result", .list ParameterWrite.shape⟩
def mode : Response Mode := ⟨"mode", Mode.envelopeShape⟩

end Response

/-- The newest alarm of a page of alarms, if there is one. -/
def decodeLatestAlarmAt (noticed : Positions) (body : String) :
    Except ParseError (Option AlarmInfo) :=
  (·.head?) <$> Response.alarms.decodeAt noticed body

def decodeLatestAlarm : String → Except ParseError (Option AlarmInfo) :=
  decodeLatestAlarmAt fun _ _ => none

/-- The parameters that a write gives back. -/
def decodeWritesAt (noticed : Positions) (body : String) : Except ParseError (List Parameter) :=
  (·.map (·.parameter)) <$> Response.writes.decodeAt noticed body

def decodeWrites : String → Except ParseError (List Parameter) :=
  decodeWritesAt fun _ _ => none

end HeatWatch
