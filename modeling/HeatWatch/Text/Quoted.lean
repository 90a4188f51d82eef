import HeatWatch.Decimal.Digits
import HeatWatch.Text.Visible

/-!
# Quoted text

A text between double quotes, so that it can stand inside a message: the quote and the backslash
follow a backslash, four control characters have a letter, and every other character that does
not show is written by its number in lower-case hexadecimal between braces.
-/

namespace HeatWatch.Text.Quoted

/-- A hexadecimal digit in lower case. -/
def hexDigit (n : Nat) : Char :=
  if n < 10 then Char.ofNat (48 + n) else Char.ofNat (87 + n)

/-- Puts the hexadecimal digits of `n` in front of `acc`; `fuel` bounds their count. -/
def hexFuel : Nat → Nat → List Char → List Char
  | 0, _, acc => acc
  | fuel + 1, n, acc =>
    let acc := hexDigit (n % 16) :: acc
    if n < 16 then acc else hexFuel fuel (n / 16) acc

/-- A number in lower-case hexadecimal without leading zeros. -/
def hex (n : Nat) : List Char := hexFuel (n + 1) n []

/-- How one character is written between the quotes. -/
def encodeChar (c : Char) : List Char :=
  if c = '\x00' then ['\\', '0']
  else if c = '\t' then ['\\', 't']
  else if c = '\r' then ['\\', 'r']
  else if c = '\n' then ['\\', 'n']
  else if c = '\\' ∨ c = '"' then ['\\', c]
  else if isVisible c then [c]
  else "\\u\x7b".toList ++ hex c.toNat ++ "\x7d".toList

/-- The text with quotes around it. -/
def encode (s : String) : String :=
  String.ofList ('"' :: (s.toList.flatMap encodeChar ++ ['"']))

end HeatWatch.Text.Quoted
