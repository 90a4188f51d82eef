/-!
# Decimal digits

A whole number is written as the list of its decimal digits, the highest first. Main statement:
`value_ofNat`, the digits of `n` stand for `n`.
-/

namespace HeatWatch.Decimal

/-- One decimal digit. -/
abbrev Digit := Fin 10

namespace Digit

/-- The character that stands for the digit. -/
def toChar (d : Digit) : Char := Char.ofNat (48 + d.val)

/-- The digit that an ASCII character stands for. -/
def ofChar? (c : Char) : Option Digit :=
  if h : 48 ≤ c.toNat ∧ c.toNat ≤ 57 then some ⟨c.toNat - 48, by omega⟩ else none

theorem ofChar?_toChar : ∀ d : Digit, ofChar? d.toChar = some d := by decide

end Digit

namespace Digits

/-- The number that the digits stand for when they follow digits that stand for `n`. -/
def valueFrom (n : Nat) (ds : List Digit) : Nat := ds.foldl (fun n d => 10 * n + d.val) n

/-- The number that the digits stand for. -/
def value (ds : List Digit) : Nat := valueFrom 0 ds

/-- Puts the digits of `n` in front of `acc`; `fuel` bounds their count. -/
def ofNatFuel : Nat → Nat → List Digit → List Digit
  | 0, _, acc => acc
  | fuel + 1, n, acc =>
    let acc := ⟨n % 10, Nat.mod_lt n (by decide)⟩ :: acc
    if n < 10 then acc else ofNatFuel fuel (n / 10) acc

/-- The decimal digits of a number, without leading zeros; zero has the digit `0`. -/
def ofNat (n : Nat) : List Digit := ofNatFuel (n + 1) n []

/-- The digits as text. -/
def text (ds : List Digit) : List Char := ds.map Digit.toChar

/-- The digits in front of the first character that is none, and the text from there on. -/
def takeFrom : List Char → List Digit × List Char
  | [] => ([], [])
  | c :: cs =>
    match Digit.ofChar? c with
    | some d => let (ds, rest) := takeFrom cs; (d :: ds, rest)
    | none => ([], c :: cs)

/-- The digits of a text that holds nothing else. -/
def ofText? : List Char → Option (List Digit)
  | [] => some []
  | c :: cs => do return (← Digit.ofChar? c) :: (← ofText? cs)

/-! ## Laws -/

theorem valueFrom_ofNatFuel (fuel n m : Nat) (acc : List Digit) (h : n < fuel) :
    ∃ b, n < b ∧ valueFrom m (ofNatFuel fuel n acc) = valueFrom (m * b + n) acc := by
  induction fuel generalizing n acc with
  | zero => omega
  | succ fuel ih =>
    by_cases hn : n < 10
    · refine ⟨10, hn, ?_⟩
      have : 10 * m + n % 10 = m * 10 + n := by omega
      simp [ofNatFuel, hn, valueFrom, this]
    · obtain ⟨b, hb, hv⟩ := ih (n / 10) (⟨n % 10, Nat.mod_lt n (by decide)⟩ :: acc) (by omega)
      refine ⟨b * 10, by omega, ?_⟩
      have : 10 * (m * b + n / 10) + n % 10 = m * (b * 10) + n := by
        rw [Nat.mul_add, ← Nat.mul_assoc m]
        omega
      simp only [ofNatFuel, hn, if_false, hv]
      simp [valueFrom, this]

theorem value_ofNat (n : Nat) : value (ofNat n) = n := by
  obtain ⟨k, -, hv⟩ := valueFrom_ofNatFuel (n + 1) n 0 [] (Nat.lt_succ_self n)
  simpa [value, ofNat, valueFrom] using hv

theorem ofNatFuel_ne_nil (fuel n : Nat) {acc : List Digit} (h : acc ≠ []) :
    ofNatFuel fuel n acc ≠ [] := by
  induction fuel generalizing n acc with
  | zero => exact h
  | succ fuel ih =>
    rw [ofNatFuel]
    split
    · exact List.cons_ne_nil _ _
    · exact ih _ (List.cons_ne_nil _ _)

theorem ofNat_ne_nil (n : Nat) : ofNat n ≠ [] := by
  rw [ofNat, ofNatFuel]
  split
  · exact List.cons_ne_nil _ _
  · exact ofNatFuel_ne_nil _ _ (List.cons_ne_nil _ _)

theorem ofText?_text (ds : List Digit) : ofText? (text ds) = some ds := by
  induction ds with
  | nil => rfl
  | cons d ds ih =>
    rw [text] at ih
    simp [text, ofText?, Digit.ofChar?_toChar, ih]

end Digits

end HeatWatch.Decimal
