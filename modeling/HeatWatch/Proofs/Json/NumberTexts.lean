import HeatWatch.Proofs.Decimal.Numerals
import HeatWatch.Proofs.Json.Printing
import Mathlib.Data.Nat.Digits.Lemmas
import Mathlib.Data.Rat.Cast.Order
import Mathlib.Tactic.NormNum

/-!
# Texts of numbers

A number has many texts: its exponent can be marked in two ways, and one that is not negative can have a sign.
What a number stands for is a rational number, of whatever size. Main statements:

* `NumberText`, `Numeral.value`: the texts of numbers, and what they stand for;
* `token_number_iff`: these are the texts of numbers that the grammar allows;
* `Numeral.integer?_eq_some_iff`: which numbers are read as integers, and as which ones.
-/

namespace HeatWatch.Json

open Scan
open Decimal (Digit Digits.text Digits.value Digits.value_eq_ofDigits)
open Decimal.Whole (Kind)
open Decimal.Digit (ofChar? ofChar?_toChar ofChar?_eq_some_iff)

/-! ## What a number stands for -/

/-- The natural number with these digits, the last one being that of the units. -/
def natural (ds : List Digit) : ℕ := Nat.ofDigits 10 (ds.reverse.map Fin.val)

def Exponent.value (e : Exponent) : ℤ := if e.negative then -natural e.digits else natural e.digits

namespace Numeral

/-- The power of ten that the last digit counts for. -/
def lastPower (n : Numeral) : ℤ := n.exponent.elim 0 Exponent.value - n.fraction.length

/-- The number that the digits stand for, with sign, point and exponent. -/
def value (n : Numeral) : ℚ := (if n.negative then -1 else 1) * natural (n.whole ++ n.fraction) * 10 ^ n.lastPower

/-- The number in front of the point. -/
def integer (n : Numeral) : ℤ := if n.negative then -natural n.whole else natural n.whole

end Numeral

/-! ## Texts -/

/-- A number as it is written. -/
structure NumberText extends Numeral where
  printable : toNumeral.Printable
  /-- A capital letter marks the exponent. -/
  capital : Bool
  /-- An exponent that is not negative has a sign. -/
  plus : Bool

namespace NumberText

/-- The letter in front of the exponent. -/
def mark (m : NumberText) : Char := if m.capital then 'E' else 'e'

/-- The sign of an exponent that is not negative. -/
def sign (m : NumberText) : List Char := if m.plus then ['+'] else []

def text (m : NumberText) : List Char :=
  (if m.negative then ['-'] else []) ++ (Digits.text m.whole ++
    ((if m.fraction.isEmpty then [] else '.' :: Digits.text m.fraction) ++
      match m.exponent with
      | none => []
      | some e => m.mark :: ((if e.negative then ['-'] else m.sign) ++ Digits.text e.digits)))

/-! ## The grammar allows these texts -/

theorem token (m : NumberText) : Token (.number m.toNumeral) m.text := by
  have hmark : m.mark = 'e' ∨ m.mark = 'E' := by
    cases h : m.capital <;> simp [mark, h]
  have hsign : m.sign = [] ∨ m.sign = ['+'] := by
    cases h : m.plus <;> simp [sign, h]
  obtain ⟨place, hplace, hwhole⟩ := Token.whole m.printable
  obtain ⟨place', hplace', hfraction⟩ :=
    NumberState.Reads.fraction m.negative m.whole.reverse m.fraction hplace
  exact hwhole (hfraction (.exponent m.printable hplace' hmark hsign))

end NumberText

namespace Scan.NumberState

/-- The first digit, which stands last here, is not zero. -/
structure Counts (whole : List Digit) : Prop where
  first_ne : ∃ d ds, whole.reverse = d :: ds ∧ d ≠ 0

/-- The digits in front of the point that a number can have, the latest first. -/
inductive Leads (whole : List Digit) : Prop where
  | zero (h : whole = [0])
  | counts (h : Counts whole)

/-- A number up to its fraction. -/
def front (s : NumberState) : List Char :=
  (if s.negative then ['-'] else []) ++ (Digits.text s.whole.reverse ++
    if s.fraction.isEmpty then [] else '.' :: Digits.text s.fraction.reverse)

/-- The text that a number has so far. -/
def Wrote (s : NumberState) (cs : List Char) : Prop :=
  match s.place with
  | .sign => s = minus ∧ cs = ['-']
  | .zero | .whole =>
    (Leads s.whole ∧ s.fraction = [] ∧ s.exponentNegative = false ∧ s.exponent = [] ∧ cs = s.front) ∧
      (s.place = .whole → Counts s.whole)
  | .point =>
    Leads s.whole ∧ s.fraction = [] ∧ s.exponentNegative = false ∧ s.exponent = [] ∧ cs = s.front ++ ['.']
  | .fraction =>
    Leads s.whole ∧ s.fraction ≠ [] ∧ s.exponentNegative = false ∧ s.exponent = [] ∧ cs = s.front
  | .mark =>
    Leads s.whole ∧ s.exponentNegative = false ∧ s.exponent = [] ∧
      ∃ mark ∈ ['e', 'E'], cs = s.front ++ [mark]
  | .markSign =>
    Leads s.whole ∧ s.exponent = [] ∧
      ∃ mark ∈ ['e', 'E'], cs = s.front ++ mark :: (if s.exponentNegative then ['-'] else ['+'])
  | .exponent =>
    Leads s.whole ∧ s.exponent ≠ [] ∧
      ∃ mark ∈ ['e', 'E'], ∃ plus ∈ [[], ['+']],
        cs = s.front ++ mark :: ((if s.exponentNegative then ['-'] else plus) ++ Digits.text s.exponent.reverse)

section

variable {s t : NumberState} {c : Char} {cs : List Char}

theorem wrote_minus : minus.Wrote ['-'] := ⟨rfl, rfl⟩

/-- The first digit, with the sign in front of it. -/
theorem wrote_first (negative : Bool) (d : Digit) :
    Wrote ⟨negative, [d], [], false, [], if d.val = 0 then .zero else .whole⟩
      ((if negative then ['-'] else []) ++ [d.toChar]) := by
  by_cases hzero : d.val = 0
  · obtain rfl : d = 0 := Fin.ext hzero
    exact ⟨⟨.zero rfl, rfl, rfl, rfl, rfl⟩, nofun⟩
  · have hcounts : Counts [d] := ⟨d, [], rfl, fun h => hzero (congrArg Fin.val h)⟩
    simp only [hzero, if_false]
    exact ⟨⟨.counts hcounts, rfl, rfl, rfl, rfl⟩, fun _ => hcounts⟩

theorem wrote_digit {d : Digit} (h : s.Wrote cs) (hstep : s.step d.toChar = .more t) :
    t.Wrote (cs ++ [d.toChar]) := by
  obtain ⟨negative, whole, fraction, exponentNegative, exponent, place⟩ := s
  simp only [step, ofChar?_toChar] at hstep
  cases place with
  | sign =>
    cases hstep
    obtain ⟨hs, rfl⟩ := h
    cases hs
    exact wrote_first true d
  | zero => cases hstep
  | whole =>
    cases hstep
    obtain ⟨⟨-, rfl, rfl, rfl, rfl⟩, hcounts⟩ := h
    obtain ⟨e, es, hes, he⟩ := hcounts rfl
    have hcounts' : Counts (d :: whole) := by
      refine ⟨e, es ++ [d], ?_, he⟩
      rw [List.reverse_cons, hes]
      rfl
    refine ⟨⟨.counts hcounts', rfl, rfl, rfl, ?_⟩, fun _ => hcounts'⟩
    simp [front, Digits.text]
  | point =>
    cases hstep
    obtain ⟨hlead, rfl, rfl, rfl, rfl⟩ := h
    refine ⟨hlead, List.cons_ne_nil _ _, rfl, rfl, ?_⟩
    simp [front, Digits.text]
  | fraction =>
    cases hstep
    obtain ⟨hlead, hsome, rfl, rfl, rfl⟩ := h
    refine ⟨hlead, List.cons_ne_nil _ _, rfl, rfl, ?_⟩
    simp [front, Digits.text, hsome]
  | mark =>
    cases hstep
    obtain ⟨hlead, rfl, rfl, mark, hmark, rfl⟩ := h
    refine ⟨hlead, List.cons_ne_nil _ _, mark, hmark, [], List.mem_cons_self, ?_⟩
    simp [front, Digits.text]
  | markSign =>
    cases hstep
    obtain ⟨hlead, rfl, mark, hmark, rfl⟩ := h
    refine ⟨hlead, List.cons_ne_nil _ _, mark, hmark, ['+'], .tail _ List.mem_cons_self, ?_⟩
    simp [front, Digits.text]
  | exponent =>
    cases hstep
    obtain ⟨hlead, -, mark, hmark, plus, hplus, rfl⟩ := h
    refine ⟨hlead, List.cons_ne_nil _ _, mark, hmark, plus, hplus, ?_⟩
    simp [front, Digits.text]

theorem leads_of_wrote (h : s.Wrote cs) (hplace : s.place = .zero ∨ s.place = .whole) :
    Leads s.whole ∧ s.fraction = [] ∧ s.exponentNegative = false ∧ s.exponent = [] ∧ cs = s.front := by
  unfold Wrote at h
  rcases hplace with hplace | hplace
  · rw [hplace] at h
    exact h.1
  · rw [hplace] at h
    exact h.1

theorem finish_ne_more : s.finish ≠ .more t := by
  unfold finish
  split <;> nofun

theorem wrote_other (h : s.Wrote cs) (hc : ofChar? c = none) (hstep : s.step c = .more t) :
    t.Wrote (cs ++ [c]) := by
  unfold step at hstep
  rw [hc] at hstep
  cases hplace : s.place with
  | sign | point | markSign | exponent =>
    rw [hplace] at hstep
    exact absurd hstep finish_ne_more
  | zero | whole =>
    obtain ⟨hlead, hfraction, hnegative, hexponent, rfl⟩ := leads_of_wrote h (by simp [hplace])
    rw [hplace] at hstep
    dsimp only at hstep
    split at hstep
    case isTrue hpoint =>
      cases hstep
      subst hpoint
      exact ⟨hlead, hfraction, hnegative, hexponent, rfl⟩
    case isFalse =>
      split at hstep
      case isTrue hmark =>
        cases hstep
        exact ⟨hlead, hnegative, hexponent, c, by simpa using hmark, rfl⟩
      case isFalse => exact absurd hstep finish_ne_more
  | fraction =>
    unfold Wrote at h
    rw [hplace] at hstep h
    obtain ⟨hlead, -, hnegative, hexponent, rfl⟩ := h
    dsimp only at hstep
    split at hstep
    case isTrue hmark =>
      cases hstep
      exact ⟨hlead, hnegative, hexponent, c, by simpa using hmark, rfl⟩
    case isFalse => exact absurd hstep finish_ne_more
  | mark =>
    unfold Wrote at h
    rw [hplace] at hstep h
    obtain ⟨hlead, hnegative, hexponent, mark, hmark, rfl⟩ := h
    dsimp only at hstep
    split at hstep
    case isTrue hplus =>
      cases hstep
      subst hplus
      refine ⟨hlead, hexponent, mark, hmark, ?_⟩
      simp [front, hnegative]
    case isFalse =>
      split at hstep
      case isTrue hminus =>
        cases hstep
        subst hminus
        refine ⟨hlead, hexponent, mark, hmark, ?_⟩
        simp [front]
      case isFalse => exact absurd hstep finish_ne_more

theorem wrote_step (h : s.Wrote cs) (hstep : s.step c = .more t) : t.Wrote (cs ++ [c]) := by
  cases hc : ofChar? c with
  | some d =>
    obtain rfl := ofChar?_eq_some_iff.1 hc
    exact wrote_digit h hstep
  | none => exact wrote_other h hc hstep

/-- A number that is complete has one of its texts. -/
theorem exists_text {n : Numeral} (h : s.Wrote cs) (hn : s.numeral? = some n) :
    ∃ m : NumberText, m.toNumeral = n ∧ m.text = cs := by
  have hwhole : ∀ {fraction : List Digit}, Leads s.whole →
      (Numeral.mk s.negative s.whole.reverse fraction none).Printable := by
    intro fraction hlead
    refine ⟨?_, nofun⟩
    cases hlead with
    | zero h => exact .inl (congrArg List.reverse h)
    | counts h => exact .inr h.first_ne
  unfold numeral? at hn
  cases hplace : s.place with
  | sign | point | mark | markSign =>
    rw [hplace] at hn
    cases hn
  | zero | whole =>
    obtain ⟨hlead, hfraction, -, -, rfl⟩ := leads_of_wrote h (by simp [hplace])
    rw [hplace] at hn
    cases hn
    refine ⟨⟨_, hwhole hlead, false, false⟩, rfl, ?_⟩
    simp [NumberText.text, front]
  | fraction =>
    unfold Wrote at h
    rw [hplace] at hn h
    obtain ⟨hlead, -, -, -, rfl⟩ := h
    cases hn
    refine ⟨⟨_, hwhole hlead, false, false⟩, rfl, ?_⟩
    simp [NumberText.text, front]
  | exponent =>
    unfold Wrote at h
    rw [hplace] at hn h
    obtain ⟨hlead, hsome, mark, hmark, plus, hplus, rfl⟩ := h
    cases hn
    have hprintable : (Numeral.mk s.negative s.whole.reverse s.fraction.reverse
        (some ⟨s.exponentNegative, s.exponent.reverse⟩)).Printable := by
      have hplain : (Numeral.mk s.negative s.whole.reverse [] none).Printable := hwhole hlead
      refine ⟨hplain.whole, fun e he => ?_⟩
      cases he
      simpa using hsome
    refine ⟨⟨_, hprintable, mark == 'E', plus == ['+']⟩, rfl, ?_⟩
    simp only [List.mem_cons, List.not_mem_nil, or_false] at hmark hplus
    rcases hmark with rfl | rfl <;> rcases hplus with rfl | rfl <;>
      simp [NumberText.text, NumberText.mark, NumberText.sign, front]

theorem exists_text_of_reads {n : Numeral} {rest : List Char} (h : s.Wrote cs) (hreads : s.Reads rest n) :
    ∃ m : NumberText, m.toNumeral = n ∧ m.text = cs ++ rest := by
  induction hreads generalizing cs with
  | done hn =>
    rw [List.append_nil]
    exact exists_text h hn
  | more hstep _ ih =>
    rw [List.append_cons]
    exact ih (wrote_step h hstep)

end

end Scan.NumberState

open Scan.NumberState in
/-- The texts of a number that the grammar allows are these. -/
theorem token_number_iff {n : Numeral} {cs : List Char} :
    Token (.number n) cs ↔ ∃ m : NumberText, m.toNumeral = n ∧ m.text = cs := by
  constructor
  · intro h
    generalize hv : Value.number n = v at h
    cases h with
    | word w => cases w <;> cases hv
    | string => cases hv
    | negative hreads =>
      cases hv
      exact exists_text_of_reads wrote_minus hreads
    | @number c d rest _ hd hreads =>
      cases hv
      obtain rfl := ofChar?_eq_some_iff.1 hd
      exact exists_text_of_reads (wrote_first false d) hreads
  · rintro ⟨m, rfl, rfl⟩
    exact m.token

/-- A text is that of one number only. -/
theorem NumberText.toNumeral_unique {m m' : NumberText} (h : m.text = m'.text) :
    m.toNumeral = m'.toNumeral := by
  have hrun : ∀ m : NumberText, run start m.text = .whole (.number m.toNumeral) [] := by
    intro m
    have hread : run start (m.text ++ []) = .whole (.number m.toNumeral) [] := m.token.readsAs.run [] trivial
    rwa [List.append_nil] at hread
  have hsame := hrun m
  rw [h, hrun m'] at hsame
  simpa using hsame.symm

/-! ## Reading integers -/

theorem natural_eq_value (ds : List Digit) : Digits.value ds = natural ds := Digits.value_eq_ofDigits ds

theorem natural_cons (d : Digit) (ds : List Digit) : natural (d :: ds) = natural ds + 10 ^ ds.length * d.val := by
  rw [natural, List.reverse_cons, List.map_append, Nat.ofDigits_append, List.length_map, List.length_reverse]
  simp [natural]

namespace Numeral

variable {n : Numeral}

/-- The digits in front of the point stand for zero only if there is but a zero. -/
theorem Printable.natural_eq_zero_iff (hn : n.Printable) : natural n.whole = 0 ↔ n.whole = [0] := by
  constructor
  · intro h
    rcases hn.whole with hzero | ⟨d, ds, hds, hd⟩
    · exact hzero
    · rw [hds, natural_cons] at h
      have hpos : 0 < 10 ^ ds.length * d.val :=
        Nat.mul_pos (Nat.pow_pos (by decide)) (Nat.pos_of_ne_zero fun h => hd (Fin.ext h))
      omega
  · intro h
    rw [h]
    rfl

/-- A number without fraction and exponent stands for an integer. -/
theorem value_of_plain (hfraction : n.fraction = []) (hexponent : n.exponent = none) : n.value = n.integer := by
  rw [value, lastPower, integer, hfraction, hexponent, List.append_nil]
  cases n.negative <;> simp

/-- A number is read as an integer if it is written as one, is not `-0`, and fits a word of 64 bits. -/
theorem integer?_eq_some_iff {i : ℤ} : n.integer? = some i ↔
    n.fraction = [] ∧ n.exponent = none ∧ ¬ (n.negative = true ∧ natural n.whole = 0) ∧ n.integer = i ∧
      -0x8000000000000000 ≤ i ∧ i < 0x10000000000000000 := by
  unfold integer? isPlain integer
  simp only [natural_eq_value, Bool.and_eq_true, List.isEmpty_iff, Option.isNone_iff_eq_none]
  by_cases hplain : n.fraction = [] ∧ n.exponent = none
  · simp only [hplain, and_self, if_true, true_and]
    cases n.negative with
    | false => grind
    | true => grind
  · simp only [hplain, if_false, reduceCtorEq, false_iff]
    tauto

end Numeral

/-- All numbers of the kind fit a word of 64 bits. -/
def IsWord (k : Kind) : Prop := -0x8000000000000000 ≤ k.low ∧ k.high < 0x10000000000000000

instance (k : Kind) : Decidable (IsWord k) := inferInstanceAs (Decidable (_ ∧ _))

/-- The text is that of an integer of the kind, and is not `-0`. -/
structure NumberText.Fits (m : NumberText) (k : Kind) : Prop where
  no_fraction : m.fraction = []
  no_exponent : m.exponent = none
  not_minus_zero : m.text ≠ ['-', '0']
  in_range : k.low ≤ m.value ∧ m.value ≤ k.high

namespace NumberText

variable {m : NumberText} {k : Kind}

theorem exists_minus_zero : ∃ m : NumberText, m.toNumeral = ⟨true, [0], [], none⟩ ∧ m.text = ['-', '0'] :=
  ⟨⟨⟨true, [0], [], none⟩, ⟨.inl rfl, nofun⟩, false, false⟩, rfl, rfl⟩

theorem text_eq_minus_zero (hfraction : m.fraction = []) (hexponent : m.exponent = none) :
    m.text = ['-', '0'] ↔ m.negative = true ∧ natural m.whole = 0 := by
  rw [m.printable.natural_eq_zero_iff]
  constructor
  · intro h
    obtain ⟨m', hnumeral, htext⟩ := exists_minus_zero
    rw [toNumeral_unique (h.trans htext.symm), hnumeral]
    exact ⟨rfl, rfl⟩
  · rintro ⟨hnegative, hwhole⟩
    rw [text, hfraction, hexponent, hnegative, hwhole]
    rfl

/-- A number is read as one of the kind if its text fits, and then it is the number that the text stands for. -/
theorem fits_iff (hk : IsWord k) :
    m.Fits k ↔ ∃ i, m.integer? = some i ∧ k.Holds i ∧ (i : ℚ) = m.value := by
  constructor
  · rintro ⟨hfraction, hexponent, hzero, hlow, hhigh⟩
    rw [m.value_of_plain hfraction hexponent] at hlow hhigh ⊢
    have hholds : k.Holds m.integer := ⟨by exact_mod_cast hlow, by exact_mod_cast hhigh⟩
    refine ⟨m.integer, Numeral.integer?_eq_some_iff.2 ⟨hfraction, hexponent, ?_, rfl, ?_⟩, hholds, rfl⟩
    · rwa [← text_eq_minus_zero hfraction hexponent]
    · exact ⟨hk.1.trans hholds.1, hholds.2.trans_lt hk.2⟩
  · rintro ⟨i, hi, hholds, hvalue⟩
    obtain ⟨hfraction, hexponent, hzero, -⟩ := Numeral.integer?_eq_some_iff.1 hi
    rw [← text_eq_minus_zero hfraction hexponent] at hzero
    refine ⟨hfraction, hexponent, hzero, ?_⟩
    rw [← hvalue]
    exact ⟨by exact_mod_cast hholds.1, by exact_mod_cast hholds.2⟩

end NumberText

end HeatWatch.Json
