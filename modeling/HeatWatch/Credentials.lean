import HeatWatch.Log
import HeatWatch.Request
import HeatWatch.Settings.Config

/-!
# Tokens

Where the bearer tokens come from: a fixed one, or a file that something else keeps up to date.
The token of the file is kept until the service rejects it.
-/

namespace HeatWatch

/-- A fixed token. A rejection does not change it. -/
structure StaticToken where
  token : String
  deriving DecidableEq, Repr

/-- The token, which must not be blank. -/
def StaticToken.fetch (t : StaticToken) : Except RequestError String :=
  if (Text.trim t.token.toList).isEmpty then .error (.auth "access token is empty") else .ok t.token

/-- A token in a file, and the one read last. -/
structure TokenFile where
  path : String
  cached : Option String
  deriving DecidableEq, Repr

namespace TokenFile

/-- Nothing is read before the first token is asked for. -/
def ofPath (path : String) : TokenFile := ⟨path, none⟩

/-- The token kept, or the one that the file holds now. -/
def fetch (t : TokenFile) (files : Files) :
    Except RequestError String × TokenFile × List LogLine :=
  match t.cached with
  | some token => (.ok token, t, [])
  | none =>
    match files.readText t.path with
    | .error f => (.error (.auth ("failed to read " ++ t.path ++ ": " ++ f.message)), t, [])
    | .ok raw =>
      let token := String.ofList (Text.trim raw.toList)
      if token = "" then (.error (.auth (t.path ++ " is empty")), t, [])
      else (.ok token, { t with cached := some token },
        [.info ("Loaded access token from " ++ t.path)])

/-- The service rejected the token: the next one comes from the file. -/
def invalidate (t : TokenFile) : TokenFile := { t with cached := none }

end TokenFile

/-- A source of tokens. -/
inductive Credentials where
  | fixed (t : StaticToken)
  | file (t : TokenFile)
  deriving DecidableEq, Repr

namespace Credentials

def ofSource : TokenSource → Credentials
  | .inline token => .fixed ⟨token⟩
  | .file path => .file (.ofPath path)

/-- The next token. -/
def fetch (c : Credentials) (files : Files) :
    Except RequestError String × Credentials × List LogLine :=
  match c with
  | .fixed t => (t.fetch, c, [])
  | .file t =>
    let (r, t, logs) := t.fetch files
    (r, .file t, logs)

/-- The service rejected the last token. -/
def invalidate : Credentials → Credentials
  | .fixed t => .fixed t
  | .file t => .file t.invalidate

end Credentials

end HeatWatch
