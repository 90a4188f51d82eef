import HeatWatch.Json.Fault
import HeatWatch.Json.Scan

/-!
# Strings, numbers and kinds of values

What a string or a number says when it is asked for: the text of a string, whose surrogates have
to come in pairs, and the integer or binary64 number of a numeral. Nothing asks a member that is
skipped, so a skipped string may hold lone surrogates and a skipped number may be of any size.
-/

namespace HeatWatch.Json

open Decimal (Digit Digits.value)

/-! ## Strings -/

namespace Quoted

/-- The unit is the first half of a pair. -/
def isHigh (n : Nat) : Bool := 0xD800 ≤ n && n ≤ 0xDBFF

/-- The unit is the second half of a pair. -/
def isLow (n : Nat) : Bool := 0xDC00 ≤ n && n ≤ 0xDFFF

/-- The character that a pair of units stands for. -/
def pair (high low : Nat) : Char := Char.ofNat (0x10000 + (high - 0xD800) * 0x400 + (low - 0xDC00))

/-- The characters of the pieces in front of `tail`. What the pieces end in the middle of a pair
is `alone`. -/
def decode (alone : Fault) : Quoted → Except Fault (List Char)
  | [] => .ok []
  | .char c :: ps => (c :: ·) <$> decode alone ps
  | .unit n :: ps =>
    if isLow n then .error .surrogateUnpaired
    else if isHigh n then
      match ps with
      | [] => .error alone
      | .char _ :: _ => .error .surrogateAlone
      | .unit m :: ps =>
        if isLow m then (pair n m :: ·) <$> decode alone ps else .error .surrogateUnpaired
    else (Char.ofNat n :: ·) <$> decode alone ps

/-- The text of a complete string. -/
def text (ps : Quoted) : Except Fault String :=
  String.ofList <$> decode .surrogateAlone ps

/-- The fault of a string that stops after these pieces. -/
def stopFault (ps : Quoted) (why : StringStop) : Fault :=
  let last : Fault :=
    match why with
    | .cut => .stringCut
    | .control => .controlCharacter
    | .badEscape | .badHex => .badEscape
  let alone : Fault :=
    match why with
    | .control | .badEscape => .surrogateAlone
    | .cut | .badHex => last
  match decode alone ps with
  | .error f => f
  | .ok _ => last

/-- The pieces that stand for a text: control characters without a letter of their own are
written by number. -/
def ofChar (c : Char) : Piece :=
  if c.toNat < 0x20 ∧ c ≠ '\x08' ∧ c ≠ '\x0c' ∧ c ≠ '\n' ∧ c ≠ '\r' ∧ c ≠ '\t' then .unit c.toNat
  else .char c

def ofText (s : String) : Quoted := s.toList.map ofChar

end Quoted

/-! ## Numbers -/

namespace Numeral

/-- The number has neither fraction nor exponent. -/
def isPlain (n : Numeral) : Bool := n.fraction.isEmpty && n.exponent.isNone

/-- The integer that a numeral stands for, if it is written as one, is not `-0`, and fits a signed
or an unsigned word of 64 bits. -/
def integer? (n : Numeral) : Option Int :=
  let v := Digits.value n.whole
  if n.isPlain then
    if n.negative then if v = 0 ∨ v > 0x8000000000000000 then none else some (-(v : Int))
    else if v < 0x10000000000000000 then some v else none
  else none

/-- The leading digits of a number as far as they fit an unsigned word of 64 bits, and the power of
ten to multiply them with. Digits of the fraction after the first one that does not fit are
dropped. -/
def significand (n : Numeral) : Nat × Int :=
  let rec whole (m : Nat) : List Digit → Nat × Nat
    | [] => (m, 0)
    | d :: ds => if 10 * m + d.val < 0x10000000000000000 then whole (10 * m + d.val) ds else (m, ds.length + 1)
  let rec fraction (m : Nat) (e : Int) : List Digit → Nat × Int
    | [] => (m, e)
    | d :: ds => if 10 * m + d.val < 0x10000000000000000 then fraction (10 * m + d.val) (e - 1) ds else (m, e)
  let (m, e) := whole 0 n.whole
  fraction m e n.fraction

/-- `10^308`, the largest power of ten used in one multiplication or division. -/
def largestPower : Nat := 308

/-- `10^k` as a binary64 number. -/
def power (k : Nat) : Float := Float.ofScientific 1 false k

/-- `m · 10^e` by one multiplication or by divisions, each of them rounded; none if it is too
large. `fuel` bounds the divisions. -/
def scale : Nat → Float → Int → Option Float
  | 0, x, _ => some x
  | fuel + 1, x, e =>
    if e.natAbs ≤ largestPower then
      let y := if e ≥ 0 then x * power e.natAbs else x / power e.natAbs
      if y.isInf then none else some y
    else if x == 0 then some x
    else if e ≥ 0 then none
    else scale fuel (x / power largestPower) (e + largestPower)

/-- The largest exponent that is taken as written. -/
def largestExponent : Nat := 0x7fffffff

/-- The binary64 number that a numeral stands for; none if it is too large. -/
def float? (n : Numeral) : Option Float :=
  let (m, e) := n.significand
  let magnitude : Option Float :=
    match n.exponent with
    | none => scale 4 (Float.ofNat m) e
    | some x =>
      let v := Digits.value x.digits
      if v > largestExponent then if m ≠ 0 ∧ !x.negative then none else some 0
      else
        let sum := if x.negative then e - v else e + v
        let e := max (-0x80000000) (min 0x7fffffff sum)
        scale 4 (Float.ofNat m) e
  if n.negative then (- ·) <$> magnitude else magnitude

/-- What a number is found to be. -/
def found (n : Numeral) : Except Fault Found :=
  match n.integer? with
  | some i => .ok (.integer i)
  | none =>
    match n.float? with
    | some x => .ok (.floating x.toBits)
    | none => .error .numberTooLarge

end Numeral

/-! ## Values of the wrong kind -/

/-- What a value is found to be, where something else was wanted. -/
def Value.found : Value → Except Fault Found
  | .null => .ok .null
  | .bool b => .ok (.boolean b)
  | .number n => n.found
  | .string s => Found.string <$> s.text
  | .list _ => .ok .sequence
  | .object _ => .ok .map

/-- The fault of a value that is not of the wanted type. -/
def Value.mismatch (v : Value) (wanted : String) : Fault :=
  match v.found with
  | .ok found => .wrongType found wanted
  | .error f => f

/-- The fault of a place where no value could be read. -/
def Defect.fault : Defect → Fault
  | .missing => .valueCut
  | .stray => .noValue
  | .word _ cut => if cut then .valueCut else .badWord
  | .number cut => if cut then .valueCut else .badNumber
  | .string ps why => Quoted.stopFault ps why

/-- The fault of a fragment where a value of another kind was wanted. -/
def Fragment.mismatch (f : Fragment) (wanted : String) : Fault :=
  match f with
  | .nothing d => d.fault
  | .list .. | .item .. => .wrongType .sequence wanted
  | .object .. | .member .. => .wrongType .map wanted

/-! ## Skipped values -/

/-- The fault of a string that stops, when it is skipped. -/
def StringStop.skipFault : StringStop → Fault
  | .cut => .stringCut
  | .control => .controlCharacter
  | .badEscape | .badHex => .badEscape

/-- The fault of a place where no value could be read, when it is skipped. -/
def Defect.skipFault : Defect → Fault
  | .missing => .valueCut
  | .stray => .noValue
  | .word _ cut => if cut then .valueCut else .badWord
  | .number _ => .badNumber
  | .string _ why => why.skipFault

def ListStop.skipFault : ListStop → Fault
  | .cut => .listCut
  | .cutAfterComma => .valueCut
  | .closedAfterComma => .noValue
  | .stray => .noCommaOrBracket

def ObjectStop.skipFault : ObjectStop → Fault
  | .cut | .cutAfterComma | .cutBeforeColon _ => .objectCut
  | .closedAfterComma | .notAName => .nameNotString
  | .stray => .noCommaOrBrace
  | .name _ why => why.skipFault
  | .noColon _ => .noColon

/-- The fault of a fragment that is skipped: that of its innermost place of trouble. -/
def Fragment.skipFault : Fragment → Fault
  | .nothing d => d.skipFault
  | .list _ stop => stop.skipFault
  | .item _ last => last.skipFault
  | .object _ stop => stop.skipFault
  | .member _ _ last => last.skipFault

end HeatWatch.Json
