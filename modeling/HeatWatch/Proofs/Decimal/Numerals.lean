import HeatWatch.Decimal.Whole
import Mathlib.Data.List.Induction
import Mathlib.Data.Nat.Digits.Defs

/-!
# Texts of whole numbers

A numeral is one digit or more after at most one sign, and stands for the number with these digits in base ten.
Main statements:

* `Digits.value_eq_ofDigits`: what digits stand for;
* `Whole.read?_eq_some_iff`: a text is read as a number of a kind if it is a numeral for it that the kind takes.
-/

namespace HeatWatch.Decimal

/-! ## Numerals -/

/-- What may stand in front of the digits. -/
inductive Sign where
  | none
  | plus
  | minus
  deriving DecidableEq, Repr

namespace Sign

def text : Sign → List Char
  | .none => []
  | .plus => ['+']
  | .minus => ['-']

/-- The number with the sign. -/
def apply : Sign → Nat → Int
  | .minus, n => -n
  | _, n => n

end Sign

/-- A whole number as it is written. -/
structure Numeral where
  sign : Sign
  digits : List Digit
  ne_nil : digits ≠ []

namespace Numeral

def text (m : Numeral) : List Char := m.sign.text ++ Digits.text m.digits

/-- The number that is written, the last digit being the one of the units. -/
def value (m : Numeral) : Int := m.sign.apply (Nat.ofDigits 10 (m.digits.reverse.map Fin.val))

end Numeral

/-- The number is in the range of the kind. A kind without negative numbers takes no minus sign, also in
front of zero. -/
def Whole.Kind.Takes (k : Kind) (m : Numeral) : Prop := k.Holds m.value ∧ (m.sign = .minus → k.low < 0)

/-! ## Digits -/

theorem Digit.ofChar?_eq_some_iff {c : Char} {d : Digit} : ofChar? c = some d ↔ c = d.toChar := by
  constructor
  · intro h
    unfold ofChar? at h
    split at h
    case isTrue hc =>
      cases h
      have hcode : 48 + (c.toNat - 48) = c.toNat := by omega
      show c = Char.ofNat (48 + (c.toNat - 48))
      rw [hcode, Char.ofNat_toNat]
    case isFalse => cases h
  · rintro rfl
    exact ofChar?_toChar d

theorem Digits.ofText?_eq_some_iff {cs : List Char} {ds : List Digit} :
    ofText? cs = some ds ↔ cs = text ds := by
  constructor
  · intro h
    induction cs generalizing ds with
    | nil =>
      cases h
      rfl
    | cons c cs ih =>
      obtain ⟨d, hd, h⟩ := Option.bind_eq_some_iff.1 h
      obtain ⟨ds', hds, h⟩ := Option.bind_eq_some_iff.1 h
      cases h
      rw [Digit.ofChar?_eq_some_iff.1 hd, ih hds]
      rfl
  · rintro rfl
    exact ofText?_text ds

theorem Digits.value_eq_ofDigits (ds : List Digit) :
    value ds = Nat.ofDigits 10 (ds.reverse.map Fin.val) := by
  -- the digits are taken in from the left, and counted from the right
  induction ds using List.reverseRecOn with
  | nil => rfl
  | append_singleton ds d ih =>
    have hvalue : value (ds ++ [d]) = 10 * value ds + d.val := by
      unfold value valueFrom
      rw [List.foldl_append]
      rfl
    rw [hvalue, ih, List.reverse_append, List.reverse_singleton, List.singleton_append, List.map_cons,
      Nat.ofDigits_cons]
    omega

/-! ## Reading -/

namespace Whole

variable {k : Kind} {cs : List Char} {n : Int} {negatives : Bool}

theorem readDigits?_eq_some_iff {n : Nat} : readDigits? cs = some n ↔
    ∃ ds, ds ≠ [] ∧ cs = Digits.text ds ∧ n = Nat.ofDigits 10 (ds.reverse.map Fin.val) := by
  unfold readDigits?
  constructor
  · intro h
    split at h
    case isTrue => cases h
    case isFalse hne =>
      obtain ⟨ds, hds, hvalue⟩ := Option.map_eq_some_iff.1 h
      have htext : cs = Digits.text ds := Digits.ofText?_eq_some_iff.1 hds
      refine ⟨ds, ?_, htext, ?_⟩
      · rintro rfl
        rw [htext] at hne
        exact hne rfl
      · rw [← hvalue, Digits.value_eq_ofDigits]
  · rintro ⟨ds, hne, rfl, rfl⟩
    have htext : (Digits.text ds).isEmpty = false := by
      rw [List.isEmpty_eq_false_iff, Digits.text, Ne, List.map_eq_nil_iff]
      exact hne
    rw [htext, Digits.ofText?_text, ← Digits.value_eq_ofDigits]
    rfl

theorem readAny?_eq_some_iff : readAny? negatives cs = some n ↔
    ∃ m : Numeral, m.text = cs ∧ m.value = n ∧ (m.sign = .minus → negatives = true) := by
  constructor
  · intro h
    unfold readAny? at h
    split at h
    case h_1 cs =>
      obtain ⟨v, hv, rfl⟩ := Option.map_eq_some_iff.1 h
      obtain ⟨ds, hne, rfl, rfl⟩ := readDigits?_eq_some_iff.1 hv
      exact ⟨⟨.plus, ds, hne⟩, rfl, rfl, nofun⟩
    case h_2 cs =>
      split at h
      case isTrue hnegatives =>
        obtain ⟨v, hv, rfl⟩ := Option.map_eq_some_iff.1 h
        obtain ⟨ds, hne, rfl, rfl⟩ := readDigits?_eq_some_iff.1 hv
        exact ⟨⟨.minus, ds, hne⟩, rfl, rfl, fun _ => hnegatives⟩
      case isFalse => cases h
    case h_3 =>
      obtain ⟨v, hv, rfl⟩ := Option.map_eq_some_iff.1 h
      obtain ⟨ds, hne, rfl, rfl⟩ := readDigits?_eq_some_iff.1 hv
      exact ⟨⟨.none, ds, hne⟩, rfl, rfl, nofun⟩
  · rintro ⟨⟨sign, ds, hne⟩, rfl, rfl, hsign⟩
    have hread : readDigits? (Digits.text ds) = some (Nat.ofDigits 10 (ds.reverse.map Fin.val)) :=
      readDigits?_eq_some_iff.2 ⟨ds, hne, rfl, rfl⟩
    cases sign with
    | none =>
      show readAny? negatives (Digits.text ds) = _
      rw [readAny?_text hne, hread]
      rfl
    | plus =>
      show readAny? negatives ('+' :: Digits.text ds) = _
      rw [readAny?, hread]
      rfl
    | minus =>
      show readAny? negatives ('-' :: Digits.text ds) = _
      rw [readAny?, if_pos (hsign rfl), hread]
      rfl

/-- A text stands for one number only. -/
theorem value_unique {m m' : Numeral} (h : m.text = m'.text) : m.value = m'.value := by
  have hread : ∀ m : Numeral, readAny? true m.text = some m.value := by
    intro m
    exact readAny?_eq_some_iff.2 ⟨m, rfl, rfl, fun _ => rfl⟩
  have hsame := hread m
  rw [h, hread m'] at hsame
  exact (Option.some.inj hsame).symm

/-- What is read as a number of a kind, and as which one. -/
theorem read?_eq_some_iff : read? k cs = some n ↔ ∃ m : Numeral, m.text = cs ∧ m.value = n ∧ k.Takes m := by
  unfold read?
  constructor
  · intro h
    split at h
    case h_1 v hv =>
      split at h
      case isTrue hholds =>
        cases h
        obtain ⟨m, htext, rfl, hsign⟩ := readAny?_eq_some_iff.1 hv
        exact ⟨m, htext, rfl, hholds, fun hminus => of_decide_eq_true (hsign hminus)⟩
      case isFalse => cases h
    case h_2 => cases h
  · rintro ⟨m, rfl, rfl, hholds, hsign⟩
    have hany : readAny? (decide (k.low < 0)) m.text = some m.value :=
      readAny?_eq_some_iff.2 ⟨m, rfl, rfl, fun hminus => decide_eq_true (hsign hminus)⟩
    rw [hany]
    exact if_pos hholds

end Whole

end HeatWatch.Decimal
