/-!
# Command line

The only option names an environment file: `--env-file path` or `--env-file=path`, at most once
and with a path that is not empty.
-/

namespace HeatWatch.CommandLine

/-- Why a command line is refused. -/
inductive Refusal where
  | unknown (argument : String)
  | noPath
  | repeated
  deriving DecidableEq, Repr

def Refusal.message : Refusal → String
  | .unknown argument => "unrecognised argument: " ++ argument
  | .noPath => "`--env-file` requires a path argument"
  | .repeated => "`--env-file` provided more than once"

/-- The option. -/
def option : List Char := "--env-file".toList

/-- What an argument is. -/
inductive Form where
  /-- The option; its path is the next argument. -/
  | bare
  /-- The option with its path. -/
  | withPath (path : List Char)
  | other
  deriving DecidableEq, Repr

/-- Tells what an argument is. -/
def Form.ofText (argument : List Char) : Form :=
  if option.isPrefixOf argument then
    match argument.drop option.length with
    | [] => .bare
    | '=' :: path => .withPath path
    | _ => .other
  else .other

/-- Takes a path that may be missing or empty. -/
def accept (seen : Option String) (path : Option String) : Except Refusal String :=
  match path.filter (· ≠ "") with
  | none => .error .noPath
  | some p => if seen.isNone then .ok p else .error .repeated

/-- Reads the arguments, after a path that was given before them. -/
def readFrom (seen : Option String) : List String → Except Refusal (Option String)
  | [] => .ok seen
  | argument :: rest =>
    match Form.ofText argument.toList with
    | .other => .error (.unknown argument)
    | .withPath path =>
      match accept seen (some (String.ofList path)) with
      | .error r => .error r
      | .ok p => readFrom (some p) rest
    | .bare =>
      match rest with
      | [] => .error .noPath
      | p :: rest =>
        match accept seen (some p) with
        | .error r => .error r
        | .ok p => readFrom (some p) rest

/-- The environment file that the arguments name. -/
def envFile (arguments : List String) : Except Refusal (Option String) := readFrom none arguments

end HeatWatch.CommandLine
