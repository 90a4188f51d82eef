import HeatWatch.Decimal.Digits

/-!
# Whole numbers as text

Printing and reading of whole numbers in base ten. A text may carry one sign; a type without
negative numbers refuses `-`, even in front of zero. Main statement: `read?_print`, what is
printed reads back.
-/

namespace HeatWatch.Decimal

namespace Whole

/-- The decimal text of a natural number. -/
def ofNat (n : Nat) : List Char := Digits.text (Digits.ofNat n)

/-- The decimal text of an integer, with `-` in front of a negative one. -/
def print (n : Int) : List Char :=
  if n < 0 then '-' :: ofNat n.natAbs else ofNat n.natAbs

/-- The decimal text of a natural number as a string. -/
def natText (n : Nat) : String := String.ofList (ofNat n)

/-- The decimal text of an integer as a string. -/
def intText (n : Int) : String := String.ofList (print n)

/-- A kind of whole number: a name and a range. -/
structure Kind where
  name : String
  low : Int
  high : Int
  deriving DecidableEq, Repr

namespace Kind

def i64 : Kind := ⟨"i64", -0x8000000000000000, 0x7fffffffffffffff⟩
def i32 : Kind := ⟨"i32", -0x80000000, 0x7fffffff⟩
def u64 : Kind := ⟨"u64", 0, 0xffffffffffffffff⟩
def u32 : Kind := ⟨"u32", 0, 0xffffffff⟩
def u8 : Kind := ⟨"u8", 0, 0xff⟩

/-- The number lies in the range of the kind. -/
def Holds (k : Kind) (n : Int) : Prop := k.low ≤ n ∧ n ≤ k.high

instance (k : Kind) (n : Int) : Decidable (k.Holds n) :=
  inferInstanceAs (Decidable (_ ∧ _))

end Kind

/-- One or more digits and nothing else. -/
def readDigits? (cs : List Char) : Option Nat :=
  if cs.isEmpty then none else Digits.value <$> Digits.ofText? cs

/-- A number of unbounded size: digits after at most one sign. -/
def readAny? (negatives : Bool) : List Char → Option Int
  | '+' :: cs => Int.ofNat <$> readDigits? cs
  | '-' :: cs => if negatives then (fun n => -Int.ofNat n) <$> readDigits? cs else none
  | cs => Int.ofNat <$> readDigits? cs

/-- A number of the given kind: digits after at most one sign, within the range. -/
def read? (k : Kind) (cs : List Char) : Option Int :=
  match readAny? (decide (k.low < 0)) cs with
  | some n => if k.Holds n then some n else none
  | none => none

/-! ## Laws -/

theorem toChar_ne_sign : ∀ d : Digit, d.toChar ≠ '+' ∧ d.toChar ≠ '-' := by decide

theorem readDigits?_ofNat (n : Nat) : readDigits? (ofNat n) = some n := by
  have hne : (Digits.text (Digits.ofNat n)).isEmpty = false := by
    simp [Digits.text, Digits.ofNat_ne_nil]
  rw [ofNat, readDigits?, hne, Digits.ofText?_text]
  exact congrArg some (Digits.value_ofNat n)

/-- Digits without a sign in front are read as they are. -/
theorem readAny?_text {ds : List Digit} (hne : ds ≠ []) (negatives : Bool) :
    readAny? negatives (Digits.text ds) = Int.ofNat <$> readDigits? (Digits.text ds) := by
  obtain ⟨d, ds, rfl⟩ := List.exists_cons_of_ne_nil hne
  rw [Digits.text, List.map_cons, readAny?]
  · intro cs hcs
    exact (toChar_ne_sign d).1 (List.cons.inj hcs).1
  · intro cs hcs
    exact (toChar_ne_sign d).2 (List.cons.inj hcs).1

theorem readAny?_ofNat (negatives : Bool) (n : Nat) : readAny? negatives (ofNat n) = some n := by
  have hread := readDigits?_ofNat n
  rw [ofNat] at hread ⊢
  rw [readAny?_text (Digits.ofNat_ne_nil n), hread]
  rfl

/-- What is printed reads back. -/
theorem read?_print {k : Kind} {n : Int} (h : k.Holds n) : read? k (print n) = some n := by
  have hany : readAny? (decide (k.low < 0)) (print n) = some n := by
    rw [print]
    split
    · next hn =>
      have : k.low < 0 := Int.lt_of_le_of_lt h.1 hn
      simp only [readAny?, this, decide_true, if_true, readDigits?_ofNat]
      exact congrArg some (by simp only [Int.ofNat_eq_natCast]; omega)
    · next hn =>
      rw [readAny?_ofNat]
      exact congrArg some (by omega)
  rw [read?, hany]
  exact if_pos h

end Whole

end HeatWatch.Decimal
