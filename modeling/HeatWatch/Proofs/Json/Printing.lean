import HeatWatch.Json.Print
import HeatWatch.Proofs.Json.Grammar

/-!
# What is printed reads back

The text of a value that can be printed is one of the texts that the grammar allows: strings with
their escapes, numbers by their digits, lists and objects to any depth, without white space. So the
machine gives the value back.

* `Token.printed_string`, `Token.printed_number`: strings and numbers;
* `Value.Printable.spells`: what is printed is spelled by the grammar;
* `Reading.ofText_print`: what is printed reads back.
-/

namespace HeatWatch.Json

open Decimal (Digit Digits.text)
open Decimal.Digit (ofChar?_toChar)
open Text.Quoted (hexDigit hexFuel hex)

/-! ## What can be printed -/

/-- Control characters stand in a string by their letter or by their number. -/
def Piece.Printable : Piece → Prop
  | .char c => 0x20 ≤ c.toNat ∨ c ∈ ['\x08', '\x0c', '\n', '\r', '\t']
  | .unit n => n < 0x10000

def Quoted.Printable (s : Quoted) : Prop := ∀ p ∈ s, p.Printable

/-- A number starts with a zero only if it has no other digit before the point, and an exponent has
digits. -/
structure Numeral.Printable (n : Numeral) : Prop where
  whole : n.whole = [0] ∨ ∃ d ds, n.whole = d :: ds ∧ d ≠ 0
  exponent : ∀ e, n.exponent = some e → e.digits ≠ []

inductive Value.Printable : Value → Prop where
  | null : Value.Printable .null
  | bool (b : Bool) : Value.Printable (.bool b)
  | number {n : Numeral} (h : n.Printable) : Value.Printable (.number n)
  | string {s : Quoted} (h : s.Printable) : Value.Printable (.string s)
  | list {items : List Value} (h : ∀ v ∈ items, Value.Printable v) : Value.Printable (.list items)
  | object {members : List Member} (names : ∀ m ∈ members, m.1.Printable)
      (values : ∀ m ∈ members, Value.Printable m.2) : Value.Printable (.object members)

namespace Scan

/-! ## Strings -/

theorem hexFuel_digit {n : Nat} (h : n < 16) (fuel : Nat) (acc : List Char) :
    hexFuel (fuel + 1) n acc = hexDigit n :: acc := by
  rw [hexFuel, if_pos h, Nat.mod_eq_of_lt h]

theorem hexFuel_more {n : Nat} (h : 16 ≤ n) (fuel : Nat) (acc : List Char) :
    hexFuel (fuel + 1) n acc = hexFuel fuel (n / 16) (hexDigit (n % 16) :: acc) := by
  rw [hexFuel, if_neg (Nat.not_lt.2 h)]

/-- A number of at most four hexadecimal digits is written with four. -/
theorem hex4_eq {n : Nat} (h : n < 0x10000) :
    hex4 n = [hexDigit (n / 4096), hexDigit (n / 256 % 16), hexDigit (n / 16 % 16),
      hexDigit (n % 16)] := by
  rcases Nat.lt_or_ge n 16 with h1 | h1
  · have hd : n / 4096 = 0 ∧ n / 256 % 16 = 0 ∧ n / 16 % 16 = 0 ∧ n % 16 = n := by omega
    simp only [hex4, hex, hexFuel_digit h1, hd]
    rfl
  · obtain ⟨m, rfl⟩ : ∃ m, n = m + 3 := ⟨n - 3, by omega⟩
    rcases Nat.lt_or_ge ((m + 3) / 16) 16 with h2 | h2
    · have hd : (m + 3) / 4096 = 0 ∧ (m + 3) / 256 % 16 = 0 ∧ (m + 3) / 16 % 16 = (m + 3) / 16 := by
        omega
      simp only [hex4, hex, hexFuel_more h1, hexFuel_digit h2, hd]
      rfl
    · rcases Nat.lt_or_ge ((m + 3) / 16 / 16) 16 with h3 | h3
      · have hd : (m + 3) / 4096 = 0 ∧ (m + 3) / 256 % 16 = (m + 3) / 16 / 16 := by omega
        simp only [hex4, hex, hexFuel_more h1, hexFuel_more h2, hexFuel_digit h3, hd]
        rfl
      · have h4 : (m + 3) / 16 / 16 / 16 < 16 := by omega
        have hd : (m + 3) / 4096 = (m + 3) / 16 / 16 / 16 ∧ (m + 3) / 256 = (m + 3) / 16 / 16 := by
          omega
        simp only [hex4, hex, hexFuel_more h1, hexFuel_more h2, hexFuel_more h3, hexFuel_digit h4, hd]
        rfl

theorem hexValue?_hexDigit : ∀ n : Fin 16,
    StringState.hexValue? (hexDigit n) = some n.val ∧
      (hexDigit n).utf8Size = 1 := by decide

theorem unit?_hex4 {n : Nat} (h : n < 0x10000) : StringState.unit? (hex4 n) = some n := by
  have hvalue : ∀ d, d < 16 → StringState.hexValue? (hexDigit d) = some d :=
    fun d hd => (hexValue?_hexDigit ⟨d, hd⟩).1
  have hlength : (hex4 n).length = 4 := by rw [hex4_eq h]; rfl
  rw [StringState.unit?, if_pos hlength, hex4_eq h]
  have h1 : n / 4096 < 16 := by omega
  have hsum : 16 * (16 * (16 * (n / 4096) + n / 256 % 16) + n / 16 % 16) + n % 16 = n := by omega
  simp [hvalue, h1, Nat.mod_lt, hsum]

namespace StringState.Reads

variable {ps : List Piece} {rest : List Char} {s n : Quoted}

/-- A letter after a backslash stands for a character. -/
theorem escaped {letter c : Char} (hu : letter ≠ 'u') (h : escaped? letter = some c)
    (hrest : Reads ⟨.char c :: ps, .plain⟩ rest n) :
    Reads ⟨ps, .plain⟩ ('\\' :: letter :: rest) n := by
  have hletter : step ⟨ps, .escape⟩ letter = .more ⟨.char c :: ps, .plain⟩ := by
    simp only [step, hu, if_false, h]
  exact .more rfl (.more hletter hrest)

/-- Four hexadecimal digits after a backslash and `u` stand for a unit. -/
theorem unit {m : Nat} (hm : m < 0x10000) (hrest : Reads ⟨.unit m :: ps, .plain⟩ rest n) :
    Reads ⟨ps, .plain⟩ ('\\' :: 'u' :: (hex4 m ++ rest)) n := by
  have hsize : ∀ d, d < 16 → (hexDigit d).utf8Size = 1 :=
    fun d hd => (hexValue?_hexDigit ⟨d, hd⟩).2
  have hunit := unit?_hex4 hm
  rw [hex4_eq hm] at hunit ⊢
  have h1 : m / 4096 < 16 := by omega
  -- the number is judged with its fourth digit
  refine .more (t := ⟨ps, .escape⟩) rfl (.more (t := ⟨ps, .hex []⟩) rfl ?_)
  refine .more (t := ⟨ps, .hex [hexDigit (m / 4096)]⟩) ?_
    (.more (t := ⟨ps, .hex [hexDigit (m / 256 % 16), hexDigit (m / 4096)]⟩) ?_
      (.more (t := ⟨ps, .hex [hexDigit (m / 16 % 16), hexDigit (m / 256 % 16),
          hexDigit (m / 4096)]⟩) ?_ (.more ?_ hrest)))
  all_goals simp [step, hsize, h1, Nat.mod_lt, hunit]

theorem piece {p : Piece} (hp : p.Printable) (hrest : Reads ⟨p :: ps, .plain⟩ rest n) :
    Reads ⟨ps, .plain⟩ (p.print ++ rest) n := by
  cases p with
  | unit m => exact unit hp hrest
  | char c =>
    unfold Piece.print
    dsimp only
    split_ifs with hquote hslash h8 h12 hn hr ht
    case neg =>
      -- a character without a letter of its own stands for itself
      have hplain : ¬ c.toNat < 0x20 := by
        rcases hp with hp | hp
        · omega
        · simp_all
      refine .more ?_ hrest
      simp only [step, hquote, hslash, hplain, if_false]
    all_goals
      subst c
      exact escaped (by decide) rfl hrest

theorem pieces (hs : s.Printable) (hrest : Reads ⟨s.reverse ++ ps, .plain⟩ rest n) :
    Reads ⟨ps, .plain⟩ (s.flatMap Piece.print ++ rest) n := by
  induction s generalizing ps with
  | nil => exact hrest
  | cons p s ih =>
    rw [List.flatMap_cons, List.append_assoc]
    refine piece (hs p List.mem_cons_self) (ih (fun q hq => hs q (.tail p hq)) ?_)
    rwa [List.reverse_cons, List.append_assoc] at hrest

end StringState.Reads

/-! ## Numbers -/

namespace NumberState.Reads

variable {rest : List Char} {n m : Numeral}

/-- Digits are read in the states `k ds`, of which `ds` are read, the latest first. -/
theorem digits {k : List Digit → NumberState}
    (hk : ∀ ds (d : Digit), (k ds).step d.toChar = .more (k (d :: ds))) {ds es : List Digit}
    (hrest : (k (es.reverse ++ ds)).Reads rest m) : (k ds).Reads (Digits.text es ++ rest) m := by
  induction es generalizing ds with
  | nil => exact hrest
  | cons d es ih =>
    rw [List.reverse_cons, List.append_assoc] at hrest
    exact .more (hk ds d) (ih hrest)

/-- The fraction, if there is one. -/
theorem fraction (negative : Bool) (whole fraction : List Digit) {place : NumberPlace}
    (hplace : place = .zero ∨ place = .whole) :
    ∃ place', (place' = .zero ∨ place' = .whole ∨ place' = .fraction) ∧ ∀ {rest m},
      Reads ⟨negative, whole, fraction.reverse, false, [], place'⟩ rest m →
        Reads ⟨negative, whole, [], false, [], place⟩
          ((if fraction.isEmpty then [] else '.' :: Digits.text fraction) ++ rest) m := by
  cases fraction with
  | nil => exact ⟨place, hplace.imp_right .inl, fun hrest => hrest⟩
  | cons d ds =>
    refine ⟨.fraction, .inr (.inr rfl), fun hrest => ?_⟩
    have hpoint : step ⟨negative, whole, [], false, [], place⟩ '.' =
        .more ⟨negative, whole, [], false, [], .point⟩ := by
      rcases hplace with rfl | rfl <;> rfl
    have hfirst : step ⟨negative, whole, [], false, [], .point⟩ d.toChar =
        .more ⟨negative, whole, [d], false, [], .fraction⟩ := by
      simp only [step, ofChar?_toChar]
    rw [List.reverse_cons] at hrest
    refine .more hpoint (.more hfirst ?_)
    refine digits (k := fun ds => ⟨negative, whole, ds, false, [], .fraction⟩) (fun ds d => ?_) hrest
    simp only [step, ofChar?_toChar]

/-- The exponent, if there is one, after either mark. One that is not negative can have a sign. -/
theorem exponent (hn : n.Printable) {place : NumberPlace}
    (hplace : place = .zero ∨ place = .whole ∨ place = .fraction) {mark : Char}
    (hmark : mark = 'e' ∨ mark = 'E') {plus : List Char} (hplus : plus = [] ∨ plus = ['+']) :
    Reads ⟨n.negative, n.whole.reverse, n.fraction.reverse, false, [], place⟩
      (match n.exponent with
        | none => []
        | some e => mark :: ((if e.negative then ['-'] else plus) ++ Digits.text e.digits)) n := by
  obtain ⟨negative, whole, fraction, exponent⟩ := n
  cases exponent with
  | none =>
    refine .done ?_
    rcases hplace with rfl | rfl | rfl <;> simp only [numeral?, List.reverse_reverse]
  | some e =>
    obtain ⟨minus, es⟩ := e
    obtain ⟨d, ds, rfl⟩ := List.exists_cons_of_ne_nil (hn.exponent _ rfl)
    have hstep : step ⟨negative, whole.reverse, fraction.reverse, false, [], place⟩ mark =
        .more ⟨negative, whole.reverse, fraction.reverse, false, [], .mark⟩ := by
      rcases hmark with rfl | rfl <;> rcases hplace with rfl | rfl | rfl <;> rfl
    have hdone : Reads ⟨negative, whole.reverse, fraction.reverse, minus, (d :: ds).reverse, .exponent⟩
        [] ⟨negative, whole, fraction, some ⟨minus, d :: ds⟩⟩ := by
      refine .done ?_
      simp only [numeral?, List.reverse_reverse]
    have hdigits : Reads ⟨negative, whole.reverse, fraction.reverse, minus, [d], .exponent⟩
        (Digits.text ds ++ []) ⟨negative, whole, fraction, some ⟨minus, d :: ds⟩⟩ := by
      rw [List.reverse_cons] at hdone
      refine digits (k := fun ds => ⟨negative, whole.reverse, fraction.reverse, minus, ds, .exponent⟩)
        (fun ds d => ?_) hdone
      simp only [step, ofChar?_toChar]
    rw [List.append_nil] at hdigits
    have hfirst : ∀ {place : NumberPlace}, place = .mark ∨ place = .markSign →
        step ⟨negative, whole.reverse, fraction.reverse, minus, [], place⟩ d.toChar =
          .more ⟨negative, whole.reverse, fraction.reverse, minus, [d], .exponent⟩ := by
      intro place hplace
      rcases hplace with rfl | rfl <;> simp only [step, ofChar?_toChar]
    refine .more hstep ?_
    -- the first digit stands after the mark or after a sign
    cases minus with
    | false =>
      rcases hplus with rfl | rfl
      · exact .more (hfirst (.inl rfl)) hdigits
      · exact .more (t := ⟨negative, whole.reverse, fraction.reverse, false, [], .markSign⟩) rfl
          (.more (hfirst (.inr rfl)) hdigits)
    | true =>
      exact .more (t := ⟨negative, whole.reverse, fraction.reverse, true, [], .markSign⟩) rfl
        (.more (hfirst (.inr rfl)) hdigits)

end NumberState.Reads

end Scan

open Scan

namespace Token

theorem printed_string {s : Quoted} (hs : s.Printable) : Token (.string s) s.print := by
  have hclose : StringState.step ⟨s.reverse ++ [], .plain⟩ '"' = .closed s := by
    simp [StringState.step]
  exact .string (.pieces hs (.close hclose))

/-- The first digit of a number, with the sign in front of it. -/
theorem firstDigit (negative : Bool) (d : Digit) {rest : List Char} {n : Numeral}
    (hrest : NumberState.Reads
      ⟨negative, [d], [], false, [], if d.val = 0 then .zero else .whole⟩ rest n) :
    Token (.number n) ((if negative then ['-'] else []) ++ d.toChar :: rest) := by
  cases negative with
  | false => exact .number (ofChar?_toChar d) hrest
  | true =>
    refine .negative (.more ?_ hrest)
    simp only [NumberState.step, NumberState.minus, ofChar?_toChar]

/-- The part of a number in front of its point. -/
theorem whole {n : Numeral} (hn : n.Printable) :
    ∃ place, (place = .zero ∨ place = .whole) ∧ ∀ {rest m},
      NumberState.Reads ⟨n.negative, n.whole.reverse, [], false, [], place⟩ rest m →
        Token (.number m) ((if n.negative then ['-'] else []) ++ (Digits.text n.whole ++ rest)) := by
  rcases hn.whole with hzero | ⟨d, ds, hds, hd⟩
  · refine ⟨.zero, .inl rfl, fun hrest => ?_⟩
    rw [hzero] at hrest ⊢
    exact firstDigit n.negative 0 hrest
  · refine ⟨.whole, .inr rfl, fun hrest => ?_⟩
    have hdval : d.val ≠ 0 := fun h => hd (Fin.ext h)
    rw [hds, List.reverse_cons] at hrest
    rw [hds]
    refine firstDigit n.negative d ?_
    rw [if_neg hdval]
    refine .digits (k := fun ds => ⟨n.negative, ds, [], false, [], .whole⟩) (fun ds d => ?_) hrest
    simp only [NumberState.step, ofChar?_toChar]

theorem printed_number {n : Numeral} (hn : n.Printable) : Token (.number n) n.print := by
  unfold Numeral.print
  simp only [List.append_assoc]
  obtain ⟨place, hplace, hwhole⟩ := whole hn
  obtain ⟨place', hplace', hfraction⟩ :=
    NumberState.Reads.fraction n.negative n.whole.reverse n.fraction hplace
  exact hwhole (hfraction (.exponent hn hplace' (.inl rfl) (.inl rfl)))

end Token

/-! ## Lists and objects -/

/-- The part without white space around it. -/
def Spaced.tight {π : Type} (p : π) : Spaced π := ⟨.empty, p, .empty⟩

@[simp] theorem Spaced.part_tight {π : Type} (p : π) : (Spaced.tight p).part = p := rfl

@[simp] theorem Spaced.layout_tight {π : Type} (text : π → List Char) (p : π) :
    (Spaced.tight p).layout text = text p := by
  rw [layout, tight, Gap.empty, List.nil_append, List.append_nil]

/-- An item as it is printed. -/
def Item.printed (v : Value) : Item := ⟨v, v.print⟩

/-- A member as it is printed. -/
def Entry.printed (m : Member) : Entry := ⟨m.1, m.1.print, .empty, .empty, m.2, m.2.print⟩

theorem printItems_eq : (vs : List Value) →
    printItems vs = commas ((vs.map Item.printed).map Item.text)
  | [] => rfl
  | [_] => rfl
  | v :: w :: vs => by
    rw [printItems, printItems_eq (w :: vs)]
    rfl

theorem printMembers_eq : (ms : List Member) →
    printMembers ms = commas ((ms.map Entry.printed).map Entry.text)
  | [] => rfl
  | [_] => rfl
  | m :: m' :: ms => by
    have htext : (Entry.printed m).text = m.1.print ++ ':' :: m.2.print := rfl
    rw [printMembers, printMembers_eq (m' :: ms)]
    simp only [List.map_cons, commas, htext, List.append_assoc, List.cons_append]

namespace Spells

theorem printed_list {items : List Value} (h : ∀ v ∈ items, Spells v v.print) :
    Spells (.list items) (Value.list items).print := by
  rw [Value.print, printItems_eq]
  cases items with
  | nil => exact .emptyList .empty
  | cons v vs =>
    have hlist := @Spells.list ((v :: vs).map fun w => .tight (Item.printed w)) (by simp)
      (List.forall_mem_map.2 h)
    simpa [Function.comp_def, Item.printed] using hlist

theorem printed_object {members : List Member} (hnames : ∀ m ∈ members, m.1.Printable)
    (h : ∀ m ∈ members, Spells m.2 m.2.print) :
    Spells (.object members) (Value.object members).print := by
  rw [Value.print, printMembers_eq]
  cases members with
  | nil => exact .emptyObject .empty
  | cons m ms =>
    have hobject := @Spells.object ((m :: ms).map fun e => .tight (Entry.printed e)) (by simp)
      (List.forall_mem_map.2 fun e he => .printed_string (hnames e he))
      (List.forall_mem_map.2 h)
    simpa [Function.comp_def, Entry.printed, Entry.member] using hobject

end Spells

/-! ## Whole texts -/

/-- What is printed is spelled by the grammar. -/
theorem Value.Printable.spells {v : Value} (h : v.Printable) : Spells v v.print := by
  induction h with
  | null => exact .token (.word .null)
  | bool b =>
    cases b with
    | false => exact .token (.word .false)
    | true => exact .token (.word .true)
  | number h => exact .token (.printed_number h)
  | string h => exact .token (.printed_string h)
  | list _ ih => exact .printed_list ih
  | object names _ ih => exact .printed_object names ih

/-- The value reads back from its text wherever a value is due: the text starts with a character that
starts a value, and the machine goes on after it. -/
structure ReadsBack (v : Value) : Prop where
  head : ∃ c cs, v.print = c :: cs ∧ isSpace c = false ∧ c ≠ ']'
  run : ∀ frames {more}, EndsNumber more →
    run ⟨frames, .value⟩ (v.print ++ more) = resume v frames more

theorem Value.Printable.readsBack {v : Value} (h : v.Printable) : ReadsBack v :=
  ⟨h.spells.readsAs.head, h.spells.readsAs.run⟩

/-- What is printed reads back. -/
theorem Reading.ofText_print {v : Value} (h : v.Printable) :
    Reading.ofText v.print = .whole v [] := by
  have hend : EndsNumber [] := trivial
  have hrun := h.readsBack.run [] hend
  rw [List.append_nil] at hrun
  exact hrun

/-- A printable value is determined by its text. -/
theorem Value.print_inj {v w : Value} (hv : v.Printable) (hw : w.Printable) :
    v.print = w.print ↔ v = w := by
  constructor
  · intro h
    have hread := Reading.ofText_print hv
    rw [h, Reading.ofText_print hw] at hread
    exact (Reading.whole.inj hread).1.symm
  · rintro rfl
    rfl

end HeatWatch.Json
