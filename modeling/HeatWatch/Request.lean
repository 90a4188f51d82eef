import HeatWatch.Installation.Parameter
import HeatWatch.Installation.SmartHome
import HeatWatch.Json.Print
import HeatWatch.Response

/-!
# Requests

What can be asked of the service. Method, path, query and body are functions of the request alone,
so a request can wait, be sent again, and be compared.
-/

namespace HeatWatch

open Json (Value)

/-- One call to the service. -/
inductive Request where
  | listSystems
  | getSystem (id : SystemId)
  | getStatus (id : SystemId)
  | getConfig (id : SystemId)
  | getCategories (id : SystemId) (withParameters : Bool)
  | getSoftware (id : SystemId)
  /-- The latest active alarm only. -/
  | getAlarm (id : SystemId)
  | getParameters (id : SystemId) (parameters : List ParameterId)
  | setParameters (id : SystemId) (values : SortedMap ParameterId Int64)
  | getMode (id : SystemId)
  | setMode (id : SystemId) (mode : Mode)
  | upsertThermostat (id : SystemId) (thermostat : Thermostat)
  deriving DecidableEq

inductive Method where
  | get
  | put
  | post
  deriving DecidableEq, Repr

def Method.name : Method → String
  | .get => "GET"
  | .put => "PUT"
  | .post => "POST"

namespace Request

/-- The service refuses to read more parameters than this at once. -/
def maxParameters : Nat := 15

/-- Consecutive groups of at most `maxParameters` elements; `fuel` bounds their count. -/
def chunksFuel {α : Type} : Nat → List α → List (List α)
  | 0, _ => []
  | _ + 1, [] => []
  | fuel + 1, a :: as =>
    (a :: as).take maxParameters :: chunksFuel fuel ((a :: as).drop maxParameters)

/-- Consecutive groups of at most `maxParameters` elements. -/
def chunks {α : Type} (as : List α) : List (List α) := chunksFuel as.length as

/-- One read for each group of at most `maxParameters` parameters. -/
def readParameters (id : SystemId) (parameters : List ParameterId) : List Request :=
  (chunks parameters).map (.getParameters id)

/-- The system that a request is aimed at; the listing is aimed at none. -/
def target? : Request → Option SystemId
  | .listSystems => none
  | .getSystem id | .getStatus id | .getConfig id | .getCategories id _ | .getSoftware id
  | .getAlarm id | .getParameters id _ | .setParameters id _ | .getMode id | .setMode id _
  | .upsertThermostat id _ => some id

/-- The target in messages. -/
def targetText (r : Request) : String := (r.target?.map SystemId.text).getD "-"

def kindName : Request → String
  | .listSystems => "list-systems"
  | .getSystem _ => "get-system"
  | .getStatus _ => "get-status"
  | .getConfig _ => "get-config"
  | .getCategories .. => "get-categories"
  | .getSoftware _ => "get-software"
  | .getAlarm _ => "get-alarm"
  | .getParameters .. => "get-parameters"
  | .setParameters .. => "set-parameters"
  | .getMode _ => "get-mode"
  | .setMode .. => "set-mode"
  | .upsertThermostat .. => "upsert-thermostat"

def method : Request → Method
  | .setParameters .. | .setMode .. => .put
  | .upsertThermostat .. => .post
  | _ => .get

/-- The path below the base of the service. -/
def path : Request → String
  | .listSystems => "/systems"
  | .getSystem id => below id ""
  | .getStatus id => below id "/status/system"
  | .getConfig id => below id "/config"
  | .getCategories id _ => below id "/serviceinfo/categories"
  | .getSoftware id => below id "/software"
  | .getAlarm id => below id "/notifications"
  | .getParameters id _ | .setParameters id _ => below id "/parameters"
  | .getMode id | .setMode id _ => below id "/smarthome/mode"
  | .upsertThermostat id _ => below id "/smarthome/thermostats"
where
  below (id : SystemId) (rest : String) : String := "/systems/" ++ id.text ++ rest

/-- The values sent under each name of the query; names and values stand in the order of their
text, each value once. -/
def query : Request → List (String × List String)
  | .getCategories _ withParameters => [("parameters", [if withParameters then "true" else "false"])]
  | .getAlarm _ => [("active", ["true"]), ("itemsPerPage", ["1"])]
  | .getParameters _ parameters =>
    [("parameterIds", (Text.sortDistinct (parameters.map (·.text.toList))).map String.ofList)]
  | _ => []

/-- The pairs of the query. -/
def queryPairs (r : Request) : List (String × String) :=
  r.query.flatMap fun (name, values) => values.map fun v => (name, v)

/-- The parameters named by the query, read back from its text. -/
def parameterIds (r : Request) : List ParameterId :=
  (r.query.filter (·.1 == "parameterIds")).flatMap fun (_, values) =>
    values.filterMap fun v =>
      (Decimal.Whole.read? .i64 v.toList).map fun n => ⟨Int64.ofInt n⟩

/-- The body of a write: the values by the text of their parameter. -/
def settingsBody (values : SortedMap ParameterId Int64) : Value :=
  .ofMembers [("settings", .ofMembers (values.entries.map fun (id, v) => (id.text, .ofInt v.toInt)))]

/-- The body that sets a mode. -/
def modeBody (mode : Mode) : Value := .ofMembers [("mode", .ofText mode.name)]

/-- The body that submits a thermostat; what it does not have is left out. -/
def thermostatBody (t : Thermostat) : Value :=
  let temperature (t : Temperature) : Value := .ofInt t.tenths.toInt
  .ofMembers
    (("externalId", .ofInt t.id.val.toInt) :: ("name", .ofText t.name)
      :: ((t.climateSystems.map fun ns =>
          ("climateSystems", Value.list (ns.map fun n => .ofInt n.toNat))).toList
        ++ (t.current.map fun t => ("actualTemp", temperature t)).toList
        ++ (t.target.map fun t => ("targetTemp", temperature t)).toList))

/-- The text sent with a write. -/
def body? : Request → Option String
  | .setParameters _ values => some (settingsBody values).text
  | .setMode _ mode => some (modeBody mode).text
  | .upsertThermostat _ t => some (thermostatBody t).text
  | _ => none

/-- The whole request on one line: method, an address with the query, and body. -/
def briefAt (r : Request) (address : String) : String :=
  let pairs := r.queryPairs.map fun (name, value) => name ++ "=" ++ value
  r.method.name ++ " " ++ address
    ++ (if pairs.isEmpty then "" else "?" ++ String.intercalate "&" pairs)
    ++ (match r.body? with
        | some body => " " ++ body
        | none => "")

/-- The whole request on one line, with its path. -/
def brief (r : Request) : String := r.briefAt r.path

end Request

/-! ## Failures -/

/-- Why a request brought no result. -/
inductive RequestError where
  /-- There is no usable token. -/
  | auth (message : String)
  /-- The service refuses the request. -/
  | client (status : Nat) (body : String)
  /-- The service itself fails. -/
  | server (status : Nat)
  /-- The call did not get through, or no response came in time. -/
  | transport (message : String)
  /-- A status without a meaning here. -/
  | protocol (status : Nat)
  | parse (e : ParseError)
  | queueFull (capacity : Nat)
  /-- The request was discarded before it was sent. -/
  | cancelled
  deriving DecidableEq, Repr

namespace RequestError

def message : RequestError → String
  | .auth m => "auth error: " ++ m
  | .client status body => "client error: http " ++ Decimal.Whole.natText status ++ ": " ++ body
  | .server status => "server error: http " ++ Decimal.Whole.natText status
  | .transport m => "transport error: " ++ m
  | .protocol status => "unexpected http status " ++ Decimal.Whole.natText status
  | .parse e => e.text
  | .queueFull capacity => "request queue is full (" ++ Decimal.Whole.natText capacity ++ " entries)"
  | .cancelled => "request discarded before execution"

/-- The failure starts an outage. -/
def isServer : RequestError → Bool
  | .server _ => true
  | _ => false

/-- The service asks for fewer requests. -/
def isRateLimit : RequestError → Bool
  | .client 429 _ => true
  | _ => false

end RequestError

end HeatWatch
