import HeatWatch.Decimal.Digits

/-!
# The shortest decimal text of a binary number

A finite binary number is `m · 2^q`. The reals that round to it form an interval around it, whose
ends belong to it exactly when `m` is even. `Shortest.decimal` gives the decimal with the fewest
digits inside that interval; of two candidates with as many digits the nearer one, and of two
equally near ones the one with an even last digit. The search only looks, for each number of
digits, at the two neighbours on that decimal grid: if any point of a grid lies inside the
interval, so does one of these.
-/

namespace HeatWatch.Decimal

/-- A binary interchange format: bits of the significand, and the exponent of the last one of the
smallest number. -/
structure BinaryFormat where
  precision : Nat
  lowest : Int
  exponentBits : Nat
  deriving DecidableEq, Repr

namespace BinaryFormat

def binary64 : BinaryFormat := ⟨53, -1074, 11⟩
def binary32 : BinaryFormat := ⟨24, -149, 8⟩

end BinaryFormat

/-- What a pattern of bits stands for. -/
inductive BinaryNumber where
  | finite (negative : Bool) (m : Nat) (q : Int)
  | infinite (negative : Bool)
  | undefined
  deriving DecidableEq, Repr

namespace BinaryNumber

/-- Decodes a pattern of bits: sign, exponent, fraction. -/
def ofBits (f : BinaryFormat) (bits : Nat) : BinaryNumber :=
  let hidden := Nat.pow 2 (f.precision - 1)
  let exponents := Nat.pow 2 f.exponentBits
  let fraction := bits % hidden
  let exponent := bits / hidden % exponents
  let negative := bits / hidden / exponents % 2 == 1
  if exponent = exponents - 1 then
    if fraction = 0 then .infinite negative else .undefined
  else if exponent = 0 then .finite negative fraction f.lowest
  else .finite negative (hidden + fraction) (f.lowest + (exponent - 1))

/-- The integer nearest to `m · 2^q`; a half goes away from zero. -/
def roundAway (m : Nat) (q : Int) : Nat :=
  if q ≥ 0 then m * Nat.pow 2 q.toNat
  else
    let den := Nat.pow 2 (-q).toNat
    (2 * m + den) / (2 * den)

end BinaryNumber

namespace Shortest

/-- A fraction `num / den`. -/
structure Ratio where
  num : Nat
  den : Nat

/-- `m · 2^q` as a fraction. -/
def Ratio.ofBinary (m : Nat) (q : Int) : Ratio := ⟨m * Nat.pow 2 q.toNat, Nat.pow 2 (-q).toNat⟩

/-- `n · 10^k` as a fraction. -/
def Ratio.ofDecimal (n : Nat) (k : Int) : Ratio := ⟨n * Nat.pow 10 k.toNat, Nat.pow 10 (-k).toNat⟩

def Ratio.lt (a b : Ratio) : Bool := a.num * b.den < b.num * a.den

/-- `a` is below `b`, or equal to it when `closed`. -/
def Ratio.below (closed : Bool) (a b : Ratio) : Bool :=
  if closed then !b.lt a else a.lt b

/-- The exponent of the highest decimal digit of a positive fraction. -/
def leading (r : Ratio) (fuel : Nat) : Int :=
  if r.num ≥ r.den then (Digits.ofNat (r.num / r.den)).length - 1
  else go r.num fuel 1
where
  go (num : Nat) : Nat → Nat → Int
    | 0, j => -(j : Int)
    | fuel + 1, j => if num * 10 ≥ r.den then -(j : Int) else go (num * 10) fuel (j + 1)

/-- A positive decimal `digits · 10^exponent`. -/
structure Scaled where
  digits : Nat
  exponent : Int
  deriving DecidableEq, Repr

/-- Of the two neighbours of `v` on the grid `10^k`, the one inside the interval from `lo` to
`hi`, the nearer one if both are. -/
def onGrid (closed : Bool) (lo v hi : Ratio) (k : Int) : Option Scaled :=
  let unit := Ratio.ofDecimal 1 k
  let num := v.num * unit.den
  let den := v.den * unit.num
  let t := num / den
  let inside (n : Nat) : Bool :=
    let r := Ratio.ofDecimal n k
    lo.below closed r && r.below closed hi
  let r := 2 * (num % den)
  match inside t && t != 0, inside (t + 1) with
  | true, true =>
    some ⟨if r < den || (r == den && t % 2 == 0) then t else t + 1, k⟩
  | true, false => some ⟨t, k⟩
  | false, true => some ⟨t + 1, k⟩
  | false, false => none

/-- The first grid with a hit, from `n` digits on. -/
def search (closed : Bool) (lo v hi : Ratio) (top : Int) : Nat → Nat → Scaled
  | 0, n => ⟨v.num / v.den, top - n⟩
  | fuel + 1, n =>
    match onGrid closed lo v hi (top - n + 1) with
    | some d => d
    | none => search closed lo v hi top fuel (n + 1)

/-- The shortest decimal that stands for `m · 2^q`, which has to be positive. -/
def decimal (f : BinaryFormat) (m : Nat) (q : Int) : Scaled :=
  let v := Ratio.ofBinary (4 * m) (q - 2)
  let hi := Ratio.ofBinary (4 * m + 2) (q - 2)
  let lo :=
    if m = Nat.pow 2 (f.precision - 1) ∧ q > f.lowest then Ratio.ofBinary (4 * m - 1) (q - 2)
    else Ratio.ofBinary (4 * m - 2) (q - 2)
  search (m % 2 == 0) lo v hi (leading v 400) 20 1

end Shortest

/-! ## Layout -/

/-- How the digits of a number are laid out: powers of the first digit that are written without
an exponent, and whether a whole number keeps its point. -/
structure Layout where
  positionalFrom : Option Int
  positionalTo : Option Int
  keepPoint : Bool
  deriving DecidableEq, Repr

namespace Layout

/-- The digits without zeros at the end, and the exponent of the last one kept. -/
def strip : List Digit → Int → List Digit × Int
  | ds, e =>
    let kept := ds.reverse.dropWhile (· == 0)
    (kept.reverse, e + (ds.length - kept.length))

/-- Writes `0.ddd · 10^(top + 1)`, `top` being the exponent of the first digit. -/
def positional (l : Layout) (ds : List Digit) (top : Int) : List Char :=
  if top < 0 then
    '0' :: '.' :: (List.replicate (-top - 1).toNat '0' ++ Digits.text ds)
  else
    let n := top.toNat + 1
    if ds.length ≤ n then
      Digits.text ds ++ List.replicate (n - ds.length) '0' ++ (if l.keepPoint then ['.', '0'] else [])
    else Digits.text (ds.take n) ++ '.' :: Digits.text (ds.drop n)

/-- Writes one digit, a point if more follow, the rest, and the exponent with its sign. -/
def scientific (ds : List Digit) (top : Int) : List Char :=
  Digits.text (ds.take 1) ++ (if ds.length > 1 then '.' :: Digits.text (ds.drop 1) else [])
    ++ 'e' :: (if top < 0 then '-' else '+') :: Digits.text (Digits.ofNat top.natAbs)

/-- The text of a finite binary number. -/
def print (l : Layout) (f : BinaryFormat) (negative : Bool) (m : Nat) (q : Int) : List Char :=
  let body :=
    if m = 0 then if l.keepPoint then ['0', '.', '0'] else ['0']
    else
      let d := Shortest.decimal f m q
      let (ds, e) := strip (Digits.ofNat d.digits) d.exponent
      let top := e + ds.length - 1
      if l.positionalFrom.all (· ≤ top) && l.positionalTo.all (top ≤ ·) then l.positional ds top
      else scientific ds top
  if negative then '-' :: body else body

end Layout

end HeatWatch.Decimal
