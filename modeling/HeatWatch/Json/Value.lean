import HeatWatch.Decimal.Digits

/-!
# JSON values and fragments

A `Value` is what a complete JSON text says, free of its layout. Strings keep their escapes by
number and numbers keep their digits, so that a value can be asked for more than one reading.

A `Fragment` is what was read of a text that breaks off or goes wrong: the values completed so far
along the way to the place of trouble, and what is wrong there. A text therefore has one reading:
a complete value or a fragment, never both.
-/

namespace HeatWatch.Json

open Decimal (Digit Digits.value)

/-- One element of a string: a character, or a UTF-16 unit written by its number. -/
inductive Piece where
  | char (c : Char)
  | unit (n : Nat)
  deriving DecidableEq, Repr

/-- A string between its quotes. -/
abbrev Quoted := List Piece

/-- The exponent part of a number. -/
structure Exponent where
  negative : Bool
  digits : List Digit
  deriving DecidableEq, Repr

/-- A number by its digits. There is a fraction when `fraction` is not empty. -/
structure Numeral where
  negative : Bool
  whole : List Digit
  fraction : List Digit
  exponent : Option Exponent
  deriving DecidableEq, Repr

/-- A complete JSON value. -/
inductive Value where
  | null
  | bool (b : Bool)
  | number (n : Numeral)
  | string (s : Quoted)
  | list (items : List Value)
  | object (members : List (Quoted × Value))
  deriving Repr, Inhabited

/-- A name and its value inside an object. -/
abbrev Member := Quoted × Value

/-! ## Fragments -/

/-- The three literal names. -/
inductive Word where
  | null
  | true
  | false
  deriving DecidableEq, Repr

/-- The letters of a literal name. -/
def Word.letters : Word → List Char
  | .null => "null".toList
  | .true => "true".toList
  | .false => "false".toList

/-- The value that a literal name stands for. -/
def Word.value : Word → Value
  | .null => .null
  | .true => .bool Bool.true
  | .false => .bool Bool.false

/-- Why a string goes no further: the text ends, or a control character, an unknown escape, or
four bytes that are no hexadecimal number follow. -/
inductive StringStop where
  | cut
  | control
  | badEscape
  | badHex
  deriving DecidableEq, Repr

/-- Why no value could be read at a place. -/
inductive Defect where
  /-- The text ends. -/
  | missing
  /-- A character that starts no value. -/
  | stray
  /-- A literal name that is misspelt or cut. -/
  | word (w : Word) (cut : Bool)
  /-- A number without a digit where one is due, for want of text or not, or with a leading
  zero. -/
  | number (cut : Bool)
  /-- A string that stops after these pieces. -/
  | string (pieces : Quoted) (stop : StringStop)
  deriving DecidableEq, Repr

/-- Why a list goes no further after its items. -/
inductive ListStop where
  /-- The text ends where an item, a comma or the bracket is due. -/
  | cut
  | cutAfterComma
  | closedAfterComma
  /-- Something else than a comma or the bracket follows an item. -/
  | stray
  deriving DecidableEq, Repr

/-- Why an object goes no further after its members. -/
inductive ObjectStop where
  /-- The text ends where a name, a comma or the brace is due. -/
  | cut
  | cutAfterComma
  | closedAfterComma
  /-- Something else than a comma or the brace follows a member. -/
  | stray
  /-- Something that is no string stands where a name is due. -/
  | notAName
  /-- The name itself stops after these pieces. -/
  | name (pieces : Quoted) (stop : StringStop)
  | cutBeforeColon (name : Quoted)
  | noColon (name : Quoted)
  deriving DecidableEq, Repr

/-- What was read of a text that is no JSON value. -/
inductive Fragment where
  | nothing (d : Defect)
  | list (items : List Value) (stop : ListStop)
  /-- The item after these is a fragment. -/
  | item (before : List Value) (last : Fragment)
  | object (members : List Member) (stop : ObjectStop)
  /-- The value of the name after these members is a fragment. -/
  | member (before : List Member) (name : Quoted) (last : Fragment)
  deriving Repr

/-- What a text says from its start on: a value and the text after it, or a fragment. -/
inductive Reading where
  | whole (v : Value) (rest : List Char)
  | broken (f : Fragment)
  deriving Repr

end HeatWatch.Json
