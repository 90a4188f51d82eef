import HeatWatch.Installation.Id
import HeatWatch.Settings.Engine
import HeatWatch.Settings.Entries
import HeatWatch.Settings.Environment

/-!
# Configuration

The settings of the poller as the environment gives them. A variable that is unset, blank or no
text leaves its setting at the default, but for the token file and the base address, which are
taken as they are given; any other text has to be readable.
-/

namespace HeatWatch

/-- Where the token comes from. -/
inductive TokenSource where
  | inline (token : String)
  /-- A file that something else keeps up to date. -/
  | file (path : String)
  deriving DecidableEq, Repr

/-- The settings of the poller; durations are in seconds. -/
structure Config where
  token : TokenSource
  base : String
  updateInterval : Nat
  softwareDays : Int
  requestInterval : Nat
  requestTimeout : Nat
  /-- Parameters that are polled on every system. -/
  tracked : List ParameterId
  /-- The systems to poll; all of them if there are none here. -/
  systems : List SystemId
  deriving DecidableEq, Repr

/-- Why there is no configuration. -/
inductive ConfigFault where
  | noToken (path : String)
  | notSeconds (name : String)
  | notDays (name : String)
  | zeroInterval (name : String)
  | badEntry (name message : String)
  deriving DecidableEq, Repr

def ConfigFault.message : ConfigFault → String
  | .noToken path =>
    "Missing access token: set UPLINK_ACCESS_TOKEN or provide " ++ path ++ " (UPLINK_TOKEN_FILE)"
  | .notSeconds name => name ++ " must be a whole number of seconds"
  | .notDays name => name ++ " must be an integer"
  | .zeroInterval name => name ++ " must be at least 1"
  | .badEntry name message => name ++ ": " ++ message

namespace Config

open Decimal (Whole.read? Whole.Kind)

def defaultTokenFile : String := "token.txt"
def defaultBase : String := "https://api.nibeuplink.com/api/v1"
/-- Seconds after which a call is given up. -/
def defaultTimeout : Nat := 5

/-- The text of a setting without white space around it; none if it says nothing. -/
def setting? (e : Environment) (name : String) : Option (List Char) :=
  (e.given? name).map fun s => Text.trim s.toList

/-- A number of seconds. -/
def seconds (e : Environment) (name : String) (absent : Nat) : Except ConfigFault Nat :=
  match setting? e name with
  | none => .ok absent
  | some cs =>
    match Whole.read? Whole.Kind.u64 cs with
    | some n => .ok n.toNat
    | none => .error (.notSeconds name)

/-- A number of days. -/
def days (e : Environment) (name : String) (absent : Int) : Except ConfigFault Int :=
  match setting? e name with
  | none => .ok absent
  | some cs =>
    match Whole.read? Whole.Kind.i64 cs with
    | some n => .ok n
    | none => .error (.notDays name)

/-- A list of numbers. -/
def numbers (e : Environment) (name : String) : Except ConfigFault (List Int64) :=
  match Entries.read (Whole.read? Whole.Kind.i64) ((e.text? name).getD "") with
  | .ok ns => .ok (ns.map Int64.ofInt)
  | .error m => .error (.badEntry name m)

/-- The token file. -/
def tokenPath (e : Environment) : String := (e.text? "UPLINK_TOKEN_FILE").getD defaultTokenFile

/-- Where the token comes from: the environment, or else a file, which has to be there. -/
def tokenSource (files : Files) (e : Environment) : Except ConfigFault TokenSource :=
  match setting? e "UPLINK_ACCESS_TOKEN" with
  | some token => .ok (.inline (String.ofList token))
  | none =>
    if files.isFile (tokenPath e) then .ok (.file (tokenPath e)) else .error (.noToken (tokenPath e))

/-- Reads the settings. The first setting that cannot be read, in this order, is reported. -/
def read (files : Files) (e : Environment) : Except ConfigFault Config := do
  let token ← tokenSource files e
  let base := (e.text? "UPLINK_BASE_URL").getD defaultBase
  let softwareDays ← days e "SOFTWARE_CHECK_DAYS" EngineSettings.default.softwareDays
  let requestInterval ←
    seconds e "REQUEST_INTERVAL_SECS" (EngineSettings.default.requestInterval / second)
  if requestInterval = 0 then throw (.zeroInterval "REQUEST_INTERVAL_SECS")
  let tracked ← numbers e "TRACKED_PARAMETERS"
  let systems ← numbers e "SYSTEM_IDS"
  let updateInterval ←
    seconds e "UPDATE_INTERVAL_SECS" (EngineSettings.default.updateInterval / second)
  let requestTimeout ← seconds e "REQUEST_TIMEOUT_SECS" defaultTimeout
  return { token, base, updateInterval, softwareDays, requestInterval, requestTimeout
           tracked := tracked.map ParameterId.mk, systems := systems.map SystemId.mk }

/-- The settings of the engine. -/
def engine (c : Config) : EngineSettings :=
  { EngineSettings.default with
    requestInterval := c.requestInterval * second
    updateInterval := c.updateInterval * second
    softwareDays := c.softwareDays }

/-- What is logged of the settings. -/
def summary (c : Config) : String :=
  let systems := c.systems.map SystemId.text
  "Config loaded (base_url=" ++ c.base
    ++ ", update_interval=" ++ Decimal.Whole.natText c.updateInterval
    ++ "s, software_check_days=" ++ Decimal.Whole.intText c.softwareDays
    ++ ", request_interval=" ++ Decimal.Whole.natText c.requestInterval
    ++ "s, tracked_parameters=" ++ Decimal.Whole.natText c.tracked.length
    ++ ", system_ids=" ++ (if systems.isEmpty then "all" else String.intercalate "," systems) ++ ")"

end Config

end HeatWatch
