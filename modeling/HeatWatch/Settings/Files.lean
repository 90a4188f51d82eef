/-!
# Files

The files that settings and tokens are read from: regular files with their bytes, and
directories. A path starts at the root or at the working directory, may go through `.` and `..`
and may repeat its slashes. Names and paths have a greatest length in bytes.
-/

namespace HeatWatch

/-- A file or a directory. -/
inductive Node where
  | file (bytes : List UInt8)
  | directory
  deriving DecidableEq, Repr

/-- Why a file could not be read. -/
inductive FileFault where
  | missing
  | notDirectory
  | isDirectory
  | tooLong
  /-- The path has the character of number zero, which ends every path. -/
  | zeroInPath
  | notText
  deriving DecidableEq, Repr

def FileFault.message : FileFault → String
  | .missing => "No such file or directory (os error 2)"
  | .notDirectory => "Not a directory (os error 20)"
  | .isDirectory => "Is a directory (os error 21)"
  | .tooLong => "File name too long (os error 36)"
  | .zeroInPath => "file name contained an unexpected NUL byte"
  | .notText => "stream did not contain valid UTF-8"

/-- The text that bytes stand for in UTF-8. -/
def textOfBytes? (bytes : List UInt8) : Option String := String.fromUTF8? ⟨bytes.toArray⟩

/-- The files that there are, each under the names on the way to it from the root. -/
structure Files where
  /-- The working directory. -/
  here : List String
  nodes : List (List String × Node)
  deriving DecidableEq, Repr

namespace Files

/-- An empty working directory, the only one below the root. -/
def empty : Files := ⟨["work"], []⟩

/-- The path starts at the root. -/
def isAbsolute (path : String) : Bool := path.toList.head? == some '/'

/-- The names along a path. A slash at its end stands before the name `.`, for either of them
leads to directories only. -/
def names (path : String) : List String :=
  (path.splitOn "/").filter (· ≠ "")
    ++ if path.toList.getLast? = some '/' then ["."] else []

/-- The directory that a path starts at. -/
def origin (fs : Files) (path : String) : List String := if isAbsolute path then [] else fs.here

/-- What is at a place. The directories on the way to a file are there with it. -/
def at? (fs : Files) (place : List String) : Option Node :=
  match fs.nodes.lookup place with
  | some n => some n
  | none =>
    if place.isPrefixOf fs.here || fs.nodes.any fun (p, _) => place.isPrefixOf p then
      some .directory
    else none

/-- The place that a name leads to from a directory. -/
def follow (place : List String) (name : String) : List String :=
  if name = "." then place else if name = ".." then place.dropLast else place ++ [name]

/-- The place that a path names, whatever is there. -/
def place (fs : Files) (path : String) : List String := (names path).foldl follow (fs.origin path)

/-- Bytes of the longest name. -/
def longestName : Nat := 255

/-- Bytes of the longest path. -/
def longestPath : Nat := 4095

/-- Takes away what is at a path, and all below it. -/
def delete (fs : Files) (path : String) : Files :=
  { fs with nodes := fs.nodes.filter fun (p, _) => !(fs.place path).isPrefixOf p }

/-- Puts a file at a path, instead of what was there. -/
def put (fs : Files) (path : String) (n : Node) : Files :=
  { fs with nodes := (fs.place path, n) :: (fs.delete path).nodes }

/-- Goes from a place along names. -/
def walk (fs : Files) (place : List String) : List String → Except FileFault (List String)
  | [] => .ok place
  | n :: ns =>
    match fs.at? place with
    | some .directory =>
      if n.utf8ByteSize ≤ longestName then walk fs (follow place n) ns else .error .tooLong
    | some (.file _) => .error .notDirectory
    | none => .error .missing

/-- What a path leads to. -/
def lookup (fs : Files) (path : String) : Except FileFault Node :=
  if path = "" then .error .missing
  else if '\x00' ∈ path.toList then .error .zeroInPath
  else if path.utf8ByteSize > longestPath then .error .tooLong
  else
    match fs.walk (fs.origin path) (names path) with
    | .error e => .error e
    | .ok place =>
      match fs.at? place with
      | none => .error .missing
      | some n => .ok n

/-- The path leads to a regular file. -/
def isFile (fs : Files) (path : String) : Bool :=
  match fs.lookup path with
  | .ok (.file _) => true
  | _ => false

/-- The whole text of a file. -/
def readText (fs : Files) (path : String) : Except FileFault String :=
  match fs.lookup path with
  | .error e => .error e
  | .ok .directory => .error .isDirectory
  | .ok (.file bytes) =>
    match textOfBytes? bytes with
    | some s => .ok s
    | none => .error .notText

end Files

end HeatWatch
