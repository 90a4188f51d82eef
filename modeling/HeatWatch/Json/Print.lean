import HeatWatch.Json.Leaf
import HeatWatch.Text.Order

/-!
# Printing JSON

A value as text without white space. In a string only the quote, the backslash and control
characters are escaped, the latter by a letter if they have one. The members of an object that is
built from a model stand in the order of their names.
-/

namespace HeatWatch.Json

open Decimal

/-- Four hexadecimal digits. -/
def hex4 (n : Nat) : List Char :=
  let cs := Text.Quoted.hex n
  List.replicate (4 - cs.length) '0' ++ cs

/-- How one piece of a string is written. -/
def Piece.print : Piece → List Char
  | .char c =>
    if c = '"' then ['\\', '"']
    else if c = '\\' then ['\\', '\\']
    else if c = '\x08' then ['\\', 'b']
    else if c = '\x0c' then ['\\', 'f']
    else if c = '\n' then ['\\', 'n']
    else if c = '\r' then ['\\', 'r']
    else if c = '\t' then ['\\', 't']
    else [c]
  | .unit n => '\\' :: 'u' :: hex4 n

def Quoted.print (s : Quoted) : List Char := '"' :: (s.flatMap Piece.print ++ ['"'])

def Numeral.print (n : Numeral) : List Char :=
  (if n.negative then ['-'] else []) ++ Digits.text n.whole
    ++ (if n.fraction.isEmpty then [] else '.' :: Digits.text n.fraction)
    ++ (match n.exponent with
      | none => []
      | some e => 'e' :: ((if e.negative then ['-'] else []) ++ Digits.text e.digits))

mutual

/-- A value as text. -/
def Value.print : Value → List Char
  | .null => "null".toList
  | .bool b => if b then "true".toList else "false".toList
  | .number n => n.print
  | .string s => s.print
  | .list items => '[' :: (printItems items ++ [']'])
  | .object members => '{' :: (printMembers members ++ ['}'])

/-- The items of a list with commas between them. -/
def printItems : List Value → List Char
  | [] => []
  | [v] => v.print
  | v :: w :: vs => v.print ++ ',' :: printItems (w :: vs)

/-- The members of an object with commas between them. -/
def printMembers : List (Quoted × Value) → List Char
  | [] => []
  | [(name, v)] => name.print ++ ':' :: v.print
  | (name, v) :: m :: ms => name.print ++ ':' :: (v.print ++ ',' :: printMembers (m :: ms))

end

/-- The text of a value. -/
def Value.text (v : Value) : String := String.ofList v.print

/-! ## Values of models -/

def Value.ofInt (n : Int) : Value :=
  .number ⟨decide (n < 0), Digits.ofNat n.natAbs, [], none⟩

def Value.ofText (s : String) : Value := .string (Quoted.ofText s)

/-- An object with its members in the order of their names. -/
def Value.ofMembers (members : List (String × Value)) : Value :=
  .object ((Text.sortBy (fun m => m.1.toList) members).map fun m => (Quoted.ofText m.1, m.2))

/-- The text of a value that is a string. -/
def Value.string? : Value → Option String
  | .string s => s.text.toOption
  | _ => none

end HeatWatch.Json
