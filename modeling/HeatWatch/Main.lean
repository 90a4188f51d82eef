import HeatWatch.Settings.CommandLine
import HeatWatch.Settings.EnvFile
import HeatWatch.Startup

/-!
# Command line

Reads the environment file, the settings and the first token, and stops before the first call:
this build talks to no service.

What is left out of the project: the transport that carries a call to the service and back, in whose
place `Exchange/Script` says what comes back; what the program does with the first listing, that is
which systems it chooses, the listener that it registers for each of them, and how it waits for the
signal to stop; the line with the version at its start, and the filter and the clock of the log; and
the line and the column that the library for JSON puts behind its messages, for which `Response` has
a parameter that the engine does not use.
-/

namespace HeatWatch.Main

/-- What is at a path on the disk. -/
def node? (path : String) : IO (Option Node) := do
  try return some (.file (← IO.FS.readBinFile path).toList)
  catch _ =>
    try
      if ← (← IO.FS.realPath path).isDir then return some .directory else return none
    catch _ => return none

/-- The files at some paths. -/
def files (paths : List String) : IO Files := do
  let here := Files.names (← IO.currentDir).toString
  paths.foldlM (fun fs path => do
    match ← node? path with
    | some n => return fs.put path n
    | none => return fs) ⟨here, []⟩

/-- The variables of this process. -/
def environment : IO Environment := do
  try return .ofBlock (← IO.FS.readBinFile "/proc/self/environ").toList
  catch _ => return .empty

/-- Loads the environment file that the arguments name, or the default one. -/
def loadEnvironment (arguments : List String) : IO (Except String (Option String × Environment)) := do
  match CommandLine.envFile arguments with
  | .error r => return .error r.message
  | .ok asked =>
    let fs ← files [asked.getD EnvFile.defaultPath]
    let e ← environment
    match EnvFile.select fs asked with
    | .error m => return .error m
    | .ok none => return .ok (none, e)
    | .ok (some path) =>
      match EnvFile.load fs e path with
      | .done e => return .ok (some path, e)
      | .refused m _ => return .error m
      | .aborted => return .error ("cannot set a variable of " ++ path)

/-- Reports why the program cannot go on. -/
def fatal (message : String) : IO UInt32 := do
  IO.eprintln ("fatal: " ++ message)
  return 1

/-- Runs the program. -/
def run (arguments : List String) : IO UInt32 := do
  match ← loadEnvironment arguments with
  | .error m => fatal m
  | .ok (used, e) =>
    if let some path := used then
      IO.eprintln (LogLine.info ("Environment loaded from " ++ path)).print
    let fs ← files [Config.tokenPath e]
    let (lines, outcome) := Startup.prepare fs e
    for l in lines do IO.eprintln l.print
    match outcome with
    | .error m => fatal m
    | .ok _ =>
      fatal ("Listing systems failed: "
        ++ (RequestError.transport "this build talks to no service").message)

end HeatWatch.Main

def main (arguments : List String) : IO UInt32 := HeatWatch.Main.run arguments
