import HeatWatch.Json.Word
import HeatWatch.Proofs.Json.Printing
import HeatWatch.Proofs.Json.Records
import HeatWatch.Proofs.Text.Order
import Mathlib.Data.List.Nodup
import Mathlib.Tactic.ByContra

/-!
# Values that stand for models

A text, a whole number and a record become values that can be printed, and that the shapes of the
models read as what they stand for. The members of an object are sorted by their names, which does
not matter to a record. Main statements:

* `Quoted.text_ofText`, `Numeral.integer?_ofInt`: a text and a whole number are kept;
* `Value.ofMembers_eq`: the names of an object stand in ascending order;
* `Shape.read_ofMembers`: a record is read by the values of its fields.
-/

namespace HeatWatch.Json

open Decimal

/-! ## Texts -/

namespace Quoted

theorem printable_ofText (s : String) : (ofText s).Printable := by
  intro p hp
  obtain ⟨c, -, rfl⟩ := List.mem_map.1 hp
  unfold ofChar
  split
  case isTrue h => exact Nat.lt_trans h.1 (by decide)
  case isFalse h =>
    by_cases hc : c.toNat < 0x20
    · right
      by_contra hnone
      simp only [List.mem_cons, List.not_mem_nil, or_false, not_or] at hnone
      exact h ⟨hc, hnone⟩
    · exact .inl (Nat.le_of_not_lt hc)

/-- A character is kept, be it written by itself or by its number. -/
theorem decode_ofChar (alone : Fault) (c : Char) (ps : Quoted) :
    decode alone (ofChar c :: ps) = (c :: ·) <$> decode alone ps := by
  unfold ofChar
  split
  case isFalse => rw [decode]
  case isTrue h =>
    have hhigh : isHigh c.toNat = false := by
      simp only [isHigh, Bool.and_eq_false_iff, decide_eq_false_iff_not]
      omega
    have hlow : isLow c.toNat = false := by
      simp only [isLow, Bool.and_eq_false_iff, decide_eq_false_iff_not]
      omega
    rw [decode.eq_def]
    simp only [hlow, hhigh, Bool.false_eq_true, if_false, Char.ofNat_toNat]

theorem text_ofText (s : String) : (ofText s).text = .ok s := by
  have hdecode : ∀ cs : List Char, decode .surrogateAlone (cs.map ofChar) = .ok cs := by
    intro cs
    induction cs with
    | nil => rfl
    | cons c cs ih =>
      rw [List.map_cons, decode_ofChar, ih]
      rfl
  rw [text, ofText, hdecode]
  exact congrArg Except.ok (String.ofList_toList)

end Quoted

theorem Value.printable_ofText (s : String) : (Value.ofText s).Printable :=
  .string (Quoted.printable_ofText s)

theorem Shape.read_ofText (s : String) : Shape.text.read (.ofText s) = .ok s := by
  rw [Value.ofText, read, Quoted.text_ofText]
  rfl

/-! ## Whole numbers -/

/-- The first digit of a number other than zero is not zero. -/
theorem digits_head {n fuel : Nat} (hpos : 0 < n) (hfuel : n < fuel) (acc : List Digit) :
    ∃ d ds, Digits.ofNatFuel fuel n acc = d :: ds ∧ d ≠ 0 := by
  induction fuel generalizing n acc with
  | zero => exact absurd hfuel (Nat.not_lt_zero n)
  | succ fuel ih =>
    rw [Digits.ofNatFuel]
    split
    case isTrue h =>
      refine ⟨_, _, rfl, fun hzero => ?_⟩
      have hmod : n % 10 = 0 := congrArg Fin.val hzero
      omega
    case isFalse => exact ih (by omega) (by omega) _

theorem Numeral.printable_ofInt (n : Int) :
    (Numeral.mk (decide (n < 0)) (Digits.ofNat n.natAbs) [] none).Printable where
  whole := by
    rcases Nat.eq_zero_or_pos n.natAbs with h | h
    · rw [h]
      exact .inl rfl
    · exact .inr (digits_head h (Nat.lt_succ_self _) [])
  exponent := by
    intro e he
    cases he

theorem Value.printable_ofInt (n : Int) : (Value.ofInt n).Printable :=
  .number (Numeral.printable_ofInt n)

/-- A number that fits a word is kept. -/
theorem Numeral.integer?_ofInt {n : Int} (h : -0x8000000000000000 ≤ n ∧ n < 0x10000000000000000) :
    (Numeral.mk (decide (n < 0)) (Digits.ofNat n.natAbs) [] none).integer? = some n := by
  unfold integer?
  simp only [isPlain, List.isEmpty_nil, Option.isNone_none, Bool.and_self, if_true,
    Digits.value_ofNat, decide_eq_true_eq]
  split
  case isTrue hneg =>
    have hfits : ¬ (n.natAbs = 0 ∨ n.natAbs > 0x8000000000000000) := by omega
    rw [if_neg hfits]
    exact congrArg some (by omega)
  case isFalse hneg =>
    have hfits : n.natAbs < 0x10000000000000000 := by omega
    rw [if_pos hfits]
    exact congrArg some (by omega)

theorem Shape.read_ofInt {α : Type} {t : WholeType α} {n : Int} (hk : t.kind.Holds n)
    (h : -0x8000000000000000 ≤ n ∧ n < 0x10000000000000000) :
    (Shape.whole t).read (.ofInt n) = .ok (t.ofInt n) := by
  rw [Value.ofInt, read]
  simp only [WholeType.read, Numeral.integer?_ofInt h, if_pos hk]
  rfl

/-! ## Objects -/

theorem Value.printable_ofMembers {members : List (String × Value)}
    (h : ∀ m ∈ members, m.2.Printable) : (Value.ofMembers members).Printable := by
  have hsorted : ∀ m ∈ (Text.sortBy (fun m => m.1.toList) members).map
      (fun m => (Quoted.ofText m.1, m.2)), ∃ m' ∈ members, m = (Quoted.ofText m'.1, m'.2) := by
    intro m hm
    obtain ⟨m', hm', rfl⟩ := List.mem_map.1 hm
    exact ⟨m', (Text.perm_sortBy members).mem_iff.1 hm', rfl⟩
  refine .object (fun m hm => ?_) (fun m hm => ?_)
  · obtain ⟨m', -, rfl⟩ := hsorted m hm
    exact Quoted.printable_ofText m'.1
  · obtain ⟨m', hm', rfl⟩ := hsorted m hm
    exact h m' hm'

/-- Names that are all different have at most one value each. -/
theorem lookup_eq_some_iff_mem {members : List (String × Value)} (h : (members.map (·.1)).Nodup)
    {name : String} {v : Value} : members.lookup name = some v ↔ (name, v) ∈ members := by
  induction members with
  | nil => simp
  | cons m members ih =>
    obtain ⟨hm, hmembers⟩ := List.nodup_cons.1 h
    obtain ⟨n, w⟩ := m
    rw [List.lookup_cons, List.mem_cons]
    by_cases hn : name = n
    · subst hn
      have hnot : (name, v) ∉ members := fun hmem => hm (List.mem_map.2 ⟨_, hmem, rfl⟩)
      simp [hnot, eq_comm]
    · have hne : (name == n) = false := beq_eq_false_iff_ne.2 hn
      simp [hne, hn, ih hmembers]

theorem lookup_perm {members members' : List (String × Value)} (hp : members.Perm members')
    (h : (members.map (·.1)).Nodup) (name : String) :
    members.lookup name = members'.lookup name := by
  have h' : (members'.map (·.1)).Nodup := (hp.map _).nodup_iff.1 h
  ext v
  rw [lookup_eq_some_iff_mem h, lookup_eq_some_iff_mem h', hp.mem_iff]

/-- The value of a member, among members whose names are texts. -/
theorem memberNamed?_ofText (members : List (String × Value)) (name : String) :
    memberNamed? (members.map fun m => (Quoted.ofText m.1, m.2)) name = members.lookup name := by
  induction members with
  | nil => rfl
  | cons m members ih =>
    unfold memberNamed? at ih ⊢
    rw [List.map_cons, List.find?_cons, List.lookup_cons, Quoted.text_ofText]
    by_cases h : name = m.1
    · simp [h, Except.toOption]
    · have hne : (name == m.1) = false := beq_eq_false_iff_ne.2 h
      have hne' : (some m.1 == some name) = false := beq_eq_false_iff_ne.2 fun heq =>
        h (Option.some.inj heq).symm
      rw [hne, ← ih]
      simp only [Except.toOption, hne']

/-- Members with different names and good values give no trouble. -/
theorem membersTrouble_ofText {names : List String} {trouble : String → Value → Option Failure}
    {seen : List String} {members : List (String × Value)} (h : (members.map (·.1)).Nodup)
    (hseen : ∀ m ∈ members, m.1 ∉ seen) (hgood : ∀ m ∈ members, trouble m.1 m.2 = none) :
    membersTrouble names trouble seen (members.map fun m => (Quoted.ofText m.1, m.2)) = none := by
  induction members generalizing seen with
  | nil => rfl
  | cons m members ih =>
    obtain ⟨hm, hmembers⟩ := List.nodup_cons.1 h
    have hrest : ∀ m' ∈ members, trouble m'.1 m'.2 = none := fun m' hm' => hgood m' (.tail m hm')
    rw [List.map_cons, membersTrouble, Quoted.text_ofText]
    dsimp only
    split
    case isFalse => exact ih hmembers (fun m' hm' => hseen m' (.tail m hm')) hrest
    case isTrue =>
      have hnew : seen.contains m.1 = false := by
        simpa using hseen m List.mem_cons_self
      rw [hnew, hgood m List.mem_cons_self, if_neg Bool.false_ne_true]
      refine ih hmembers (fun m' hm' hmem => ?_) hrest
      rcases List.mem_cons.1 hmem with heq | hmem
      · exact hm (List.mem_map.2 ⟨m', hm', heq⟩)
      · exact hseen m' (.tail m hm') hmem

/-- The value given for a field is good if it was read, and otherwise belongs to a later field. -/
theorem trouble_of_read {α : Type} {s : Shape α} {given : String → Option Value} {name n : String}
    {v w : Value} {a : α} {later : Option Failure} (hgiven : given name = some w)
    (hw : s.read w = .ok a) (hv : given n = some v) (hlater : later = none) :
    (if n = name then
      match s.read v with
      | .error e => some e
      | .ok _ => none
    else later) = none := by
  split
  case isFalse => exact hlater
  case isTrue heq =>
    obtain rfl : v = w := by
      rw [heq, hgiven] at hv
      exact (Option.some.inj hv).symm
    rw [hw]

/-- Where the fields can be filled, each value given for one of them is good. -/
theorem Fields.trouble_of_fill {γ : Type} : (fs : Fields γ) → {given : String → Option Value} →
    {g : γ} → fs.fill given = .ok g → {n : String} → {v : Value} → given n = some v →
    fs.trouble n v = none
  | .nil, _, _, _, _, _, _ => rfl
  | .required name s rest, given, g, h, n, v, hv => by
    unfold fill at h
    cases hgiven : given name with
    | none =>
      rw [hgiven] at h
      cases h
    | some w =>
      rw [hgiven] at h
      dsimp only at h
      cases hw : s.read w with
      | error e =>
        rw [hw] at h
        cases h
      | ok a =>
        rw [hw] at h
        obtain ⟨g', hg', rfl⟩ := of_map_ok h
        exact trouble_of_read hgiven hw hv (rest.trouble_of_fill hg' hv)
  | .defaulted name s absent rest, given, g, h, n, v, hv => by
    unfold fill at h
    cases hgiven : given name with
    | none =>
      rw [hgiven] at h
      obtain ⟨g', hg', rfl⟩ := of_map_ok h
      have hne : n ≠ name := by
        rintro rfl
        rw [hgiven] at hv
        cases hv
      unfold trouble
      rw [if_neg hne]
      exact rest.trouble_of_fill hg' hv
    | some w =>
      rw [hgiven] at h
      dsimp only at h
      cases hw : s.read w with
      | error e =>
        rw [hw] at h
        cases h
      | ok a =>
        rw [hw] at h
        obtain ⟨g', hg', rfl⟩ := of_map_ok h
        exact trouble_of_read hgiven hw hv (rest.trouble_of_fill hg' hv)

/-- A record is read by the values of its fields, in whatever order they were given. -/
theorem Shape.read_ofMembers {γ α : Type} {name : String} {fields : Fields γ} {make : γ → α}
    {members : List (String × Value)} {g : γ} (hnames : (members.map (·.1)).Nodup)
    (hfill : fields.fill (fun n => members.lookup n) = .ok g) :
    (Shape.record name fields make).read (.ofMembers members) = .ok (make g) := by
  have hperm : (Text.sortBy (fun m => m.1.toList) members).Perm members := Text.perm_sortBy members
  have hnames' := (hperm.map (·.1)).nodup_iff.2 hnames
  have hgood : ∀ m ∈ members, fields.trouble m.1 m.2 = none := fun m hm =>
    fields.trouble_of_fill hfill ((lookup_eq_some_iff_mem hnames).2 hm)
  have htrouble : membersTrouble fields.names (fun n v => fields.trouble n v) []
      ((Text.sortBy (fun m => m.1.toList) members).map fun m => (Quoted.ofText m.1, m.2)) = none :=
    membersTrouble_ofText hnames' (fun m _ => List.not_mem_nil) fun m hm =>
      hgood m (hperm.mem_iff.1 hm)
  have hgiven : memberNamed? ((Text.sortBy (fun m => m.1.toList) members).map
      fun m => (Quoted.ofText m.1, m.2)) = fun n => members.lookup n := by
    funext n
    rw [memberNamed?_ofText, lookup_perm hperm hnames']
  rw [Value.ofMembers, read]
  simp only [htrouble, hgiven, hfill]
  rfl

/-- A field that has to be given. -/
theorem Fields.fill_required {α γ : Type} {name : String} {s : Shape α} {rest : Fields γ}
    {given : String → Option Value} {v : Value} {a : α} (hgiven : given name = some v)
    (hread : s.read v = .ok a) :
    (Fields.required name s rest).fill given = (a, ·) <$> rest.fill given := by
  simp only [fill, hgiven, hread]

/-- A field that may be absent, where a value that it has is given. -/
theorem Fields.fill_optional {α γ : Type} {name : String} {s : Shape α} {rest : Fields γ}
    {given : String → Option Value} {x : Option α} {write : α → Value}
    (hgiven : given name = x.map write) (hread : ∀ a, s.read (write a) = .ok a)
    (hnull : ∀ a, write a ≠ .null) :
    (Fields.defaulted name (.optional s) none rest).fill given = (x, ·) <$> rest.fill given := by
  cases x with
  | none => simp only [fill, hgiven, Option.map_none]
  | some a =>
    have hsome : (Shape.optional s).read (write a) = .ok (some a) := by
      rw [Shape.read.eq_def]
      dsimp only
      split
      case h_1 heq => exact absurd heq (hnull a)
      case h_2 => rw [hread]; rfl
    simp only [fill, hgiven, Option.map_some, hsome]

/-- A list is read item by item. -/
theorem Shape.read_list {α : Type} {s : Shape α} {write : α → Value}
    (h : ∀ a, s.read (write a) = .ok a) (as : List α) :
    (Shape.list s).read (.list (as.map write)) = .ok as := by
  have hitems : ∀ (as : List α) (i : Nat),
      readItems (fun v => s.read v) i (as.map write) = .ok as := by
    intro as
    induction as with
    | nil => exact fun _ => rfl
    | cons a as ih =>
      intro i
      rw [List.map_cons, readItems, h, ih]
      rfl
  rw [read]
  exact hitems as 0

/-- A choice is read from the name of its option. -/
theorem Shape.read_choice {α : Type} {options : List (String × α)} {name : String} {a : α}
    (h : options.lookup name = some a) : (Shape.choice options).read (.ofText name) = .ok a := by
  rw [Value.ofText, read]
  simp only [readChoice, pickQuoted, Quoted.text_ofText, pick, h]
  rfl

/-- The names of the members are texts in strictly ascending order. -/
def Ascending (members : List Member) : Prop :=
  ∃ names : List String, members.map (·.1.text) = names.map .ok ∧ names.Pairwise (· < ·)

/-- The members that an object is made of, in the order of their names. -/
theorem Value.ofMembers_eq {members : List (String × Value)} (h : (members.map (·.1)).Nodup) :
    ∃ sorted : List (String × Value), sorted.Perm members ∧
      Value.ofMembers members = .object (sorted.map fun m => (Quoted.ofText m.1, m.2)) ∧
      Ascending (sorted.map fun m => (Quoted.ofText m.1, m.2)) := by
  have hkeys : (members.map fun m => m.1.toList).Nodup := by
    rw [← Function.comp_def String.toList, ← List.map_map]
    exact h.map fun a b hab => String.toList_inj.1 hab
  refine ⟨_, Text.perm_sortBy members, rfl, (Text.sortBy (fun m => m.1.toList) members).map (·.1),
    ?_, ?_⟩
  · simp only [List.map_map, Function.comp_def, Quoted.text_ofText]
  · rw [List.pairwise_map]
    exact (Text.ascending_sortBy hkeys).imp fun hab => String.lt_iff.2 hab

/-! ## Whole texts -/

/-- A value that is printed is read as what it stands for. -/
theorem Shape.decodeAll_text {α : Type} {s : Shape α} {v : Value} {a : α} (hv : v.Printable)
    (hread : s.read v = .ok a) : s.decodeAll v.text = .ok a := by
  rw [decodeAll, Value.text, String.toList_ofList, Reading.ofText_print hv]
  simp only [hread, List.all_nil, if_true]

end HeatWatch.Json
