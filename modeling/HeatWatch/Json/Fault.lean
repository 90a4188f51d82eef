import HeatWatch.Decimal.Shortest
import HeatWatch.Decimal.Whole
import HeatWatch.Text.Quoted

/-!
# Faults of a JSON text

Why a text could not be read as a value of the kind that was wanted, and where. The wording of
every cause is in `Fault.message`, that of a place in `Path.text`.

A message may also end with the position that the reader had reached in the text, as the library for
JSON has it (`Fault.report`). How the library counts positions is not modelled: whoever says anything
about messages with positions says it for any positions, and the readers of this project leave them
out.
-/

namespace HeatWatch.Json

open Decimal

/-- What was found where something else was wanted. -/
inductive Found where
  | null
  | boolean (b : Bool)
  | integer (n : Int)
  /-- A binary64 number by its bits. -/
  | floating (bits : UInt64)
  | string (s : String)
  | sequence
  | map
  deriving DecidableEq, Repr

/-- Floating-point numbers in messages: from `0.00001` to `1000000000000000.0` without an exponent,
and never without a point there. -/
def Found.layout : Layout := ⟨some (-5), some 15, true⟩

def Found.message : Found → String
  | .null => "null"
  | .boolean b => "boolean `" ++ (if b then "true" else "false") ++ "`"
  | .integer n => "integer `" ++ Whole.intText n ++ "`"
  | .floating bits =>
    let text :=
      match BinaryNumber.ofBits .binary64 bits.toNat with
      | .finite negative m q => String.ofList (layout.print .binary64 negative m q)
      | .infinite negative => if negative then "-inf" else "inf"
      | .undefined => "NaN"
    "floating point `" ++ text ++ "`"
  | .string s => "string " ++ Text.Quoted.encode s
  | .sequence => "sequence"
  | .map => "map"

/-- Why a text is not what was wanted. -/
inductive Fault where
  | valueCut
  | objectCut
  | listCut
  | stringCut
  | noValue
  | badWord
  | noColon
  | noCommaOrBrace
  | noCommaOrBracket
  | badNumber
  | numberTooLarge
  | badEscape
  | surrogateAlone
  | surrogateUnpaired
  | controlCharacter
  | nameNotString
  | trailingComma
  | trailingText
  | wrongType (found : Found) (wanted : String)
  | wrongValue (found : Found) (wanted : String)
  | wrongLength (n : Nat) (wanted : String)
  | missingField (name : String)
  | repeatedField (name : String)
  | unknownChoice (name : String) (known : List String)
  /-- A string that its own format refuses, with that format's message. -/
  | malformed (message : String)
  deriving DecidableEq, Repr

/-- A name between backquotes. -/
def ticked (s : String) : String := "`" ++ s ++ "`"

def Fault.message : Fault → String
  | .valueCut => "EOF while parsing a value"
  | .objectCut => "EOF while parsing an object"
  | .listCut => "EOF while parsing a list"
  | .stringCut => "EOF while parsing a string"
  | .noValue => "expected value"
  | .badWord => "expected ident"
  | .noColon => "expected `:`"
  | .noCommaOrBrace => "expected `,` or `\x7d`"
  | .noCommaOrBracket => "expected `,` or `]`"
  | .badNumber => "invalid number"
  | .numberTooLarge => "number out of range"
  | .badEscape => "invalid escape"
  | .surrogateAlone => "unexpected end of hex escape"
  | .surrogateUnpaired => "lone leading surrogate in hex escape"
  | .controlCharacter => "control character (\\u0000-\\u001F) found while parsing a string"
  | .nameNotString => "key must be a string"
  | .trailingComma => "trailing comma"
  | .trailingText => "trailing characters"
  | .wrongType found wanted => "invalid type: " ++ found.message ++ ", expected " ++ wanted
  | .wrongValue found wanted => "invalid value: " ++ found.message ++ ", expected " ++ wanted
  | .wrongLength n wanted =>
    "invalid length " ++ Whole.natText n ++ ", expected " ++ wanted
  | .missingField name => "missing field " ++ ticked name
  | .repeatedField name => "duplicate field " ++ ticked name
  | .unknownChoice name known =>
    "unknown variant " ++ ticked name ++ ", expected one of "
      ++ String.intercalate ", " (known.map ticked)
  | .malformed message => message

/-- A position in a text: the numbers of a line and of a character in it, from one on. -/
structure Position where
  line : Nat
  column : Nat
  deriving DecidableEq, Repr

def Position.text (p : Position) : String :=
  " at line " ++ Whole.natText p.line ++ " column " ++ Whole.natText p.column

/-- The message, and the position if there is one. -/
def Fault.report (f : Fault) : Option Position → String
  | none => f.message
  | some p => f.message ++ p.text

/-! ## Places -/

/-- One step from a value to a part of it. -/
inductive Segment where
  | field (name : String)
  | index (i : Nat)
  /-- The value of a choice that is written as an object. -/
  | choice (name : String)
  /-- A member whose name could not be read. -/
  | unknown
  deriving DecidableEq, Repr

/-- A place inside a value: the steps to it from the root. -/
abbrev Path := List Segment

def Segment.text : Segment → String
  | .field name | .choice name => name
  | .index i => "[" ++ Whole.natText i ++ "]"
  | .unknown => "?"

/-- The segment with a dot in front of it unless it is an index. -/
def Segment.dotted : Segment → String
  | .index i => (Segment.index i).text
  | s => "." ++ s.text

/-- The text of a place: its segments with dots between them, none before an index, and a single
dot for the root. -/
def Path.text : Path → String
  | [] => "."
  | s :: rest => rest.foldl (fun t s => t ++ s.dotted) s.text

/-- What is wrong, and where. -/
structure Failure where
  path : Path
  fault : Fault
  deriving DecidableEq, Repr

namespace Failure

/-- A fault of the value itself. -/
def here (f : Fault) : Failure := ⟨[], f⟩

/-- The failure of a part, seen from the whole. -/
def under (s : Segment) (f : Failure) : Failure := ⟨s :: f.path, f.fault⟩

end Failure

end HeatWatch.Json
