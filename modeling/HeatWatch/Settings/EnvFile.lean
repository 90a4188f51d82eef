import HeatWatch.Decimal.Whole
import HeatWatch.Settings.Environment

/-!
# Environment files

A file of lines `KEY=value`. A line may be blank, a comment after `#`, or an assignment, which may
stand after `export`. A value is quoted by double quotes, with escapes, or by single quotes,
without; a value without quotes ends at `#`. Variables that are set already keep their value, so
the first assignment of a key wins.
-/

namespace HeatWatch.EnvFile

/-- Why a line is no assignment. -/
inductive Refusal where
  | noEquals
  | emptyName
  | blankInName (name : String)
  | cutEscape
  | openQuote
  | textAfterQuote
  deriving DecidableEq, Repr

def Refusal.message : Refusal → String
  | .noEquals => "missing '=' in assignment"
  | .emptyName => "environment variable name cannot be empty"
  | .blankInName name => "environment variable name contains whitespace: " ++ name
  | .cutEscape => "unterminated escape sequence in quoted value"
  | .openQuote => "unterminated quoted value"
  | .textAfterQuote => "unexpected characters after closing quote"

/-! ## Values -/

/-- The character that stands after a backslash, read. -/
def unescape (c : Char) : Char :=
  if c = 'n' then '\n' else if c = 'r' then '\r' else if c = 't' then '\t' else c

/-- What may follow a closing quote: nothing but white space and a comment. -/
def endsAfterQuote (cs : List Char) : Bool :=
  match Text.trim cs with
  | [] => true
  | c :: _ => c == '#'

/-- Reads up to the closing quote. -/
def readQuoted (quote : Char) (escapes : Bool) : List Char → Except Refusal (List Char)
  | [] => .error .openQuote
  | c :: cs =>
    if escapes ∧ c = '\\' then
      match cs with
      | [] => .error .cutEscape
      | e :: cs => (unescape e :: ·) <$> readQuoted quote escapes cs
    else if c = quote then if endsAfterQuote cs then .ok [] else .error .textAfterQuote
    else (c :: ·) <$> readQuoted quote escapes cs

/-- Reads the value of an assignment. -/
def readValue (raw : List Char) : Except Refusal (List Char) :=
  match Text.trim raw with
  | '"' :: cs => readQuoted '"' true cs
  | '\'' :: cs => readQuoted '\'' false cs
  | cs => .ok (Text.trimEnd (cs.takeWhile (· ≠ '#')))

/-! ## Lines -/

/-- The text without `export ` at its start. -/
def dropExport (cs : List Char) : List Char :=
  if "export ".toList.isPrefixOf cs then Text.trimStart (cs.drop 7) else cs

/-- Reads a line: an assignment, or nothing if it is blank or a comment. -/
def readLine (line : List Char) : Except Refusal (Option (List Char × List Char)) :=
  match Text.trim line with
  | [] => .ok none
  | c :: cs =>
    if c = '#' then .ok none
    else
      let assignment := dropExport (c :: cs)
      match assignment.dropWhile (· ≠ '=') with
      | [] => .error .noEquals
      | _ :: raw =>
        let name := Text.trim (assignment.takeWhile (· ≠ '='))
        if name.isEmpty then .error .emptyName
        else if name.any Text.isBlank then .error (.blankInName (String.ofList name))
        else (fun v => some (name, v)) <$> readValue raw

/-- Reads a line of text. -/
def parseLine (line : String) : Except Refusal (Option (String × String)) :=
  (·.map fun (name, value) => (String.ofList name, String.ofList value)) <$> readLine line.toList

/-! ## Files -/

/-- The lines of a file, without the ends of lines, which are a line feed after at most one
carriage return. What follows the last end of a line is a line unless it is empty. -/
def lines : List UInt8 → List (List UInt8)
  | [] => []
  | b :: bs =>
    if b = 10 then [] :: lines bs
    else
      match lines bs with
      | [] => [[b]]
      | l :: ls => (if b = 13 ∧ bs.head? = some 10 then l else b :: l) :: ls

/-- How loading a file ends, with the environment that it leaves. -/
inductive Outcome where
  | done (e : Environment)
  | refused (message : String) (e : Environment)
  /-- The process cannot hold an assignment and stops. -/
  | aborted
  deriving DecidableEq, Repr

/-- Loads the lines from number `n` on; `path` is the file's name in messages. -/
def loadLines (path : String) (e : Environment) : Nat → List (List UInt8) → Outcome
  | _, [] => .done e
  | n, l :: ls =>
    let number := Decimal.Whole.natText n
    match textOfBytes? l with
    | none =>
      .refused ("failed to read " ++ path ++ " at line " ++ number ++ ": "
        ++ FileFault.notText.message) e
    | some line =>
      match parseLine line with
      | .error r => .refused (path ++ ":" ++ number ++ ": " ++ r.message) e
      | .ok none => loadLines path e (n + 1) ls
      | .ok (some (name, value)) =>
        if (e.get? name).isSome then loadLines path e (n + 1) ls
        else if Environment.Settable name value then
          loadLines path (e.set name value) (n + 1) ls
        else .aborted

/-- Loads a file into the environment. -/
def load (files : Files) (e : Environment) (path : String) : Outcome :=
  match files.lookup path with
  | .error f => .refused ("failed to open " ++ path ++ ": " ++ f.message) e
  | .ok .directory =>
    .refused ("failed to read " ++ path ++ " at line 1: " ++ FileFault.isDirectory.message) e
  | .ok (.file bytes) => loadLines path e 1 (lines bytes)

/-- The environment file that is used without being asked for. -/
def defaultPath : String := ".env"

/-- The file to load: the one asked for, which has to be there, or the default one if it is. -/
def select (files : Files) (asked : Option String) : Except String (Option String) :=
  match asked with
  | some path => if files.isFile path then .ok (some path) else .error ("env file not found: " ++ path)
  | none => .ok (if files.isFile defaultPath then some defaultPath else none)

end HeatWatch.EnvFile
