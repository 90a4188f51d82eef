import HeatWatch.Credentials

/-!
# Start of the poller

What happens before the first call to the service: the settings are read and logged, and the first
token is fetched for the listing of systems.
-/

namespace HeatWatch

/-- Everything is there for the first call. -/
structure Startup where
  config : Config
  credentials : Credentials
  token : String
  deriving DecidableEq, Repr

namespace Startup

/-- Reads the settings and fetches the first token, with the log lines on the way. -/
def prepare (files : Files) (e : Environment) : List LogLine × Except String Startup :=
  match Config.read files e with
  | .error f => ([], .error f.message)
  | .ok config =>
    let loaded : LogLine := .info config.summary
    match (Credentials.ofSource config.token).fetch files with
    | (.error r, _, logs) => (loaded :: logs, .error ("Listing systems failed: " ++ r.message))
    | (.ok token, credentials, logs) => (loaded :: logs, .ok ⟨config, credentials, token⟩)

end Startup

end HeatWatch
