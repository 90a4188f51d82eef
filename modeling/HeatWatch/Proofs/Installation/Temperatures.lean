import HeatWatch.Installation.SmartHome
import HeatWatch.Proofs.Json.Encoding
import HeatWatch.Proofs.Json.NumberTexts

/-!
# Texts of temperatures

The text of a temperature is a number with one digit after the point, which stands for the degrees. Main
statements:

* `Temperature.magnitude`: the tenths without their sign, as a word;
* `Temperature.number`: the number that the text is one of;
* `Temperature.text_exact`: the number of tenths can be told from the text.
-/

namespace HeatWatch

open Decimal hiding Numeral
open Json (Numeral NumberText natural natural_eq_value)

theorem Decimal.Digits.ofNat_of_lt {n : ℕ} (h : n < 10) : Digits.ofNat n = [⟨n, h⟩] := by
  simp [Digits.ofNat, Digits.ofNatFuel, h, Nat.mod_eq_of_lt h]

theorem Json.natural_append (ds : List Digit) (d : Digit) : natural (ds ++ [d]) = 10 * natural ds + d.val := by
  rw [← natural_eq_value, ← natural_eq_value, Digits.value, Digits.valueFrom, List.foldl_append]
  rfl

/-- The number is written with one digit after the point, and with no zero in front of other digits. -/
structure Json.NumberText.IsTenths (m : NumberText) : Prop where
  no_exponent : m.exponent = none
  one_digit : m.fraction.length = 1
  no_zero : m.whole.head? = some 0 → m.whole = [0]

namespace Temperature

variable (t : Temperature)

/-! ## Arithmetic on words -/

/-- The number of tenths without its sign. It fits a word without sign even if it is that of the lowest word, whose
own negation does not fit. -/
def magnitude : UInt32 := t.tenths.abs.toUInt32

theorem toNat_magnitude : t.magnitude.toNat = t.tenths.toInt.natAbs := by
  change t.tenths.toBitVec.abs.toNat = t.tenths.toBitVec.toInt.natAbs
  have hlt := t.tenths.toBitVec.isLt
  rw [BitVec.toNat_abs, BitVec.toInt_eq_msb_cond]
  split <;> omega

/-- The text by division of words. -/
def wordText : String :=
  String.ofList ((if t.tenths < 0 then ['-'] else []) ++ Whole.ofNat (t.magnitude / 10).toNat
    ++ '.' :: Whole.ofNat (t.magnitude % 10).toNat)

theorem text_eq_wordText : t.text = t.wordText := by
  rw [wordText, UInt32.toNat_div, UInt32.toNat_mod, toNat_magnitude]
  simp only [Int32.lt_iff_toInt_lt]
  rfl

/-! ## The number -/

def degrees : List Digit := Digits.ofNat (t.tenths.toInt.natAbs / 10)

def tenth : Digit := ⟨t.tenths.toInt.natAbs % 10, Nat.mod_lt _ (by decide)⟩

/-- The degrees with one digit after the point. -/
def number : NumberText where
  negative := decide (t.tenths.toInt < 0)
  whole := t.degrees
  fraction := [t.tenth]
  exponent := none
  printable := ⟨(Numeral.printable_ofInt (t.tenths.toInt.natAbs / 10 : ℕ)).whole, nofun⟩
  capital := false
  plus := false

theorem number_text : t.number.text = t.text.toList := by
  have htenth : Digits.ofNat (t.tenths.toInt.natAbs % 10) = [t.tenth] := Digits.ofNat_of_lt _
  simp [NumberText.text, number, text, Whole.ofNat, htenth, degrees]

theorem number_isTenths : t.number.IsTenths := by
  refine ⟨rfl, rfl, fun hhead => ?_⟩
  rcases t.number.printable.whole with hzero | ⟨d, ds, hwhole, hd⟩
  · exact hzero
  · rw [hwhole] at hhead
    exact absurd (Option.some.inj hhead) hd

theorem natural_number : natural (t.degrees ++ [t.tenth]) = t.tenths.toInt.natAbs := by
  rw [Json.natural_append, degrees, ← natural_eq_value, Digits.value_ofNat]
  exact Nat.div_add_mod _ 10

theorem number_value : t.number.value * 10 = t.tenths.toInt := by
  have hpower : t.number.lastPower = -1 := rfl
  have hdigits : natural (t.number.whole ++ t.number.fraction) = t.tenths.toInt.natAbs := t.natural_number
  have hsign : t.number.negative = decide (t.tenths.toInt < 0) := rfl
  rw [Json.Numeral.value, hpower, hdigits, hsign, zpow_neg_one, inv_mul_cancel_right₀ (by norm_num)]
  by_cases h : t.tenths.toInt < 0
  · rw [decide_eq_true h, if_pos rfl, neg_one_mul, Nat.cast_natAbs, abs_of_neg h, Int.cast_neg, neg_neg]
  · rw [decide_eq_false h, if_neg Bool.false_ne_true, one_mul, Nat.cast_natAbs, abs_of_nonneg (Int.not_lt.1 h)]

theorem minus_mem_text : '-' ∈ t.text.toList ↔ t.tenths < 0 := by
  have hdigits : ∀ n, '-' ∉ Whole.ofNat n := fun n hmem => by
    obtain ⟨d, -, hd⟩ := List.mem_map.1 hmem
    exact (Whole.toChar_ne_sign d).2 hd
  rw [text, String.toList_ofList, Int32.lt_iff_toInt_lt]
  simp [hdigits]

end Temperature

/-- The text of every temperature is a number with one digit after the point, which stands for the tenths exactly,
and it is written by arithmetic on words that do not overflow. -/
theorem Temperature.text_exact :
    (∀ t : Temperature,
      t.text = t.wordText ∧ t.magnitude.toNat = t.tenths.toInt.natAbs ∧
      (∃ m : NumberText, m.text = t.text.toList ∧ m.IsTenths) ∧
      ('-' ∈ t.text.toList ↔ t.tenths < 0) ∧
      ∀ m : NumberText, m.text = t.text.toList → m.value * 10 = t.tenths.toInt) ∧
    Function.Injective Temperature.text := by
  have hvalue : ∀ (t : Temperature) (m : NumberText), m.text = t.text.toList → m.value * 10 = t.tenths.toInt := by
    intro t m hm
    rw [NumberText.toNumeral_unique (hm.trans t.number_text.symm), t.number_value]
  refine ⟨fun t => ⟨t.text_eq_wordText, t.toNat_magnitude, ⟨t.number, t.number_text, t.number_isTenths⟩,
    t.minus_mem_text, hvalue t⟩, fun t u h => ?_⟩
  have htenths : (t.tenths.toInt : ℚ) = u.tenths.toInt := by
    rw [← t.number_value, ← hvalue u t.number (by rw [t.number_text, h])]
  have hword : t.tenths = u.tenths := Int32.toInt_inj.1 (by exact_mod_cast htenths)
  cases t
  cases u
  exact congrArg _ hword

end HeatWatch
