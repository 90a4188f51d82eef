import HeatWatch.Proofs.Json.Cuts
import HeatWatch.Proofs.Json.NumberTexts

/-!
# Numbers are read exactly

A whole number in a value is read as the number that its text stands for, or is refused where it stands. Main
statements:

* `Shape.NumberAt`: the places where a shape has whole numbers;
* `NumberSite`: such a place, and where the number is found in what is read;
* `ReadsExactly`: what becomes of the texts of numbers at one place;
* `ReadsExactly.accepts_iff`: the numbers that are accepted are those that fit;
* `Shape.Numbers.readsNumbers`: so it is with every number of a shape.
-/

namespace HeatWatch.Json

open Decimal.Whole (Kind)

/-! ## Places of numbers -/

mutual

/-- The shape has a whole number of the kind at the place. -/
def Shape.NumberAt {α : Type} : Shape α → Path → Kind → Prop
  | .whole t, path, k => path = [] ∧ t.kind = k
  | .optional s, path, k => s.NumberAt path k
  | .list s, path, k => ∃ i rest, path = .index i :: rest ∧ s.NumberAt rest k
  | .record _ fields _, path, k => ∃ place rest, path = place :: rest ∧ fields.NumberAt 0 place rest k
  | .boolean, _, _ | .text, _, _ | .formatted .., _, _ | .choice _, _, _ => False

/-- One of the fields, the first of which is at index `i` of a list of them, has a whole number. -/
def Fields.NumberAt {γ : Type} : Fields γ → Nat → Segment → Path → Kind → Prop
  | .nil, _, _, _, _ => False
  | .required name s rest, i, place, path, k | .defaulted name s _ rest, i, place, path, k =>
    (place = .field name ∨ place = .index i) ∧ s.NumberAt path k ∨ rest.NumberAt (i + 1) place path k

end

/-- A place for a whole number, and the number that is found there in what is read. -/
structure NumberSite (α : Type) where
  path : Path
  kind : Kind
  get : α → Option ℤ
  isWord : IsWord kind

namespace NumberSite

variable {α β : Type}

/-- What is read is a number itself. -/
def whole (k : Kind) (hk : IsWord k) (toInt : α → ℤ) : NumberSite α := ⟨[], k, fun a => some (toInt a), hk⟩

def optional (x : NumberSite α) : NumberSite (Option α) := ⟨x.path, x.kind, fun a => a.bind x.get, x.isWord⟩

def item (x : NumberSite α) (i : Nat) : NumberSite (List α) :=
  ⟨.index i :: x.path, x.kind, fun as => as[i]?.bind x.get, x.isWord⟩

/-- A number in a field of a record. -/
def field (x : NumberSite β) (place : Segment) (of : α → β) : NumberSite α :=
  ⟨place :: x.path, x.kind, fun a => x.get (of a), x.isWord⟩

end NumberSite

/-- The numbers of the items of a list. -/
def itemNumbers {α : Type} (xs : Set (NumberSite α)) : Set (NumberSite (List α)) :=
  {y | ∃ x ∈ xs, ∃ i, y = x.item i}

/-- The numbers of a field of a record, which is known by its name in an object and by its index in a list. -/
def fieldNumbers {α β : Type} (name : String) (i : Nat) (of : α → β) (xs : Set (NumberSite β)) :
    Set (NumberSite α) :=
  {y | ∃ x ∈ xs, ∃ place, (place = .field name ∨ place = .index i) ∧ y = x.field place of}

/-- One of the places is that of a number of the kind. -/
def HasNumber {α : Type} (xs : Set (NumberSite α)) (path : Path) (k : Kind) : Prop :=
  ∃ x ∈ xs, x.path = path ∧ x.kind = k

section

variable {α β : Type} {path : Path} {k : Kind}

theorem hasNumber_empty : ¬ HasNumber (∅ : Set (NumberSite α)) path k := fun ⟨_, hx, _⟩ => hx

theorem hasNumber_union {xs ys : Set (NumberSite α)} :
    HasNumber (xs ∪ ys) path k ↔ HasNumber xs path k ∨ HasNumber ys path k := by
  simp only [HasNumber, Set.mem_union, or_and_right, exists_or]

theorem hasNumber_whole {hk : IsWord k} {k' : Kind} {toInt : α → ℤ} :
    HasNumber {NumberSite.whole k hk toInt} path k' ↔ path = [] ∧ k = k' := by
  simp [HasNumber, NumberSite.whole, eq_comm]

theorem hasNumber_optional {xs : Set (NumberSite α)} :
    HasNumber (NumberSite.optional '' xs) path k ↔ HasNumber xs path k := by
  simp [HasNumber, NumberSite.optional]

theorem hasNumber_items {xs : Set (NumberSite α)} :
    HasNumber (itemNumbers xs) path k ↔ ∃ i rest, path = .index i :: rest ∧ HasNumber xs rest k := by
  constructor
  · rintro ⟨_, ⟨x, hx, i, rfl⟩, rfl, rfl⟩
    exact ⟨i, x.path, rfl, x, hx, rfl, rfl⟩
  · rintro ⟨i, _, rfl, x, hx, rfl, rfl⟩
    exact ⟨x.item i, ⟨x, hx, i, rfl⟩, rfl, rfl⟩

theorem hasNumber_field {name : String} {i : Nat} {of : α → β} {xs : Set (NumberSite β)} :
    HasNumber (fieldNumbers name i of xs) path k ↔
      ∃ place rest, path = place :: rest ∧ (place = .field name ∨ place = .index i) ∧ HasNumber xs rest k := by
  constructor
  · rintro ⟨_, ⟨x, hx, place, hplace, rfl⟩, rfl, rfl⟩
    exact ⟨place, x.path, rfl, hplace, x, hx, rfl, rfl⟩
  · rintro ⟨place, _, rfl, hplace, x, hx, rfl, rfl⟩
    exact ⟨x.field place of, ⟨x, hx, place, hplace, rfl⟩, rfl, rfl⟩

end

/-! ## Numbers of shapes -/

/-- A whole number of the kind by itself. -/
def Shape.integer (k : Kind) : Shape ℤ := .whole ⟨k, id⟩

theorem WholeType.read_eq {α : Type} (t : WholeType α) (n : Numeral) :
    t.read n = t.ofInt <$> (WholeType.mk t.kind id).read n := by
  unfold read
  cases n.integer? with
  | none => rfl
  | some i =>
    dsimp only
    split <;> rfl

theorem Shape.read_whole {α : Type} (t : WholeType α) (v : Value) :
    (Shape.whole t).read v = t.ofInt <$> (Shape.integer t.kind).read v := by
  cases v with
  | number n =>
    simp only [integer, read, t.read_eq n]
    cases (WholeType.mk t.kind id).read n <;> rfl
  | null | bool | string | list | object => rfl

section

variable {k : Kind} {n : Numeral} {i : ℤ}

theorem Shape.read_integer_of_some (h : n.integer? = some i) : (integer k).read (.number n) =
    if k.Holds i then .ok i else .error (.here (.wrongValue (.integer i) k.name)) := by
  rw [integer, read, WholeType.read, h]
  dsimp only
  split <;> rfl

theorem Shape.read_integer_of_none (h : n.integer? = none) :
    (integer k).read (.number n) = .error (.here ((Value.number n).mismatch k.name)) := by
  rw [integer, read, WholeType.read, h]
  rfl

theorem Shape.holds_of_read_integer {v : Value} (h : (integer k).read v = .ok i) : k.Holds i := by
  cases v with
  | number n =>
    cases hinteger : n.integer? with
    | none =>
      rw [read_integer_of_none hinteger] at h
      cases h
    | some j =>
      rw [read_integer_of_some hinteger] at h
      split at h
      case isTrue hholds =>
        cases h
        exact hholds
      case isFalse => cases h
  | null | bool | string | list | object => cases h

/-- A text that fits is read as the number that it stands for, and any other one is refused. -/
theorem Shape.read_integer (hk : IsWord k) (m : NumberText) :
    (m.Fits k ∧ ∃ i : ℤ, (i : ℚ) = m.value ∧ (integer k).read (.number m.toNumeral) = .ok i) ∨
      ¬ m.Fits k ∧ ∃ f, (integer k).read (.number m.toNumeral) = .error (.here f) := by
  rw [m.fits_iff hk]
  cases hinteger : m.integer? with
  | none => exact .inr ⟨nofun, _, read_integer_of_none hinteger⟩
  | some i =>
    have hread := read_integer_of_some (k := k) hinteger
    by_cases hholds : k.Holds i
    · obtain ⟨hfraction, hexponent, -, hi, -⟩ := Numeral.integer?_eq_some_iff.1 hinteger
      have hvalue : (i : ℚ) = m.value := by rw [m.value_of_plain hfraction hexponent, hi]
      exact .inl ⟨⟨i, rfl, hholds, hvalue⟩, i, hvalue, hread.trans (if_pos hholds)⟩
    · refine .inr ⟨?_, _, hread.trans (if_neg hholds)⟩
      rintro ⟨i', hi, hholds', -⟩
      cases hi
      exact hholds hholds'

end

/-- How the number at a place is read on its own and found again. Where `null` can stand for it, no number is
read. -/
structure NumberSite.Reader {α : Type} (x : NumberSite α) where
  part : Value → Except Failure (Option ℤ)
  get : α → Option (Option ℤ)
  part_eq : ∀ v, v ≠ .null → part v = some <$> (Shape.integer x.kind).read v
  get_eq : ∀ a, x.get a = (get a).join

/-- The number at the place is read on its own and found again, whatever is around it. -/
def Shape.ShowsNumber {α : Type} (s : Shape α) (x : NumberSite α) : Prop :=
  ∃ r : x.Reader, s.Shows x.path r.part r.get

/-- Nothing is read of `null`. -/
def unlessNull {α : Type} (part : Value → Except Failure (Option α)) : Value → Except Failure (Option α)
  | .null => .ok none
  | v => part v

theorem unlessNull_of_ne {α : Type} {part : Value → Except Failure (Option α)} {v : Value} (hv : v ≠ .null) :
    unlessNull part v = part v := by
  cases v with
  | null => exact absurd rfl hv
  | bool | number | string | list | object => rfl

theorem some_of_map {ε α : Type} {x : Except ε α} {b : Option α} (h : some <$> x = .ok b) :
    ∃ a, b = some a ∧ x = .ok a := by
  cases x with
  | error e => cases h
  | ok a => exact ⟨a, (Except.ok.inj h).symm, rfl⟩

namespace Shape.ShowsNumber

variable {α : Type} {s : Shape α} {x : NumberSite α}

theorem whole {t : WholeType α} {toInt : α → ℤ} (hk : IsWord t.kind)
    (exact : ∀ n, t.kind.Holds n → toInt (t.ofInt n) = n) :
    (Shape.whole t).ShowsNumber (.whole t.kind hk toInt) := by
  refine ⟨⟨fun v => some <$> (integer t.kind).read v, fun a => some (some (toInt a)), fun _ _ => rfl,
    fun _ => rfl⟩, fun fill hfill => ?_⟩
  cases hfill
  refine .kept (fun b => t.ofInt (b.getD 0)) (fun w b hb => ?_) fun w => ?_
  · obtain ⟨i, rfl, hread⟩ := some_of_map hb
    exact congrArg (fun i => some (some i)) (exact i (holds_of_read_integer hread))
  · simp only [id, read_whole]
    cases (integer t.kind).read w <;> rfl

/-- Something optional that is a number itself can be `null`. -/
theorem optional_here {kind : Kind} {get : α → Option ℤ} {hk : IsWord kind}
    (h : s.ShowsNumber ⟨[], kind, get, hk⟩) :
    (Shape.optional s).ShowsNumber (NumberSite.optional ⟨[], kind, get, hk⟩) := by
  obtain ⟨r, hshows⟩ := h
  refine ⟨⟨unlessNull r.part, fun a => some (a.bind get), fun v hv => ?_, fun _ => rfl⟩, fun fill hfill => ?_⟩
  · exact (unlessNull_of_ne hv).trans (r.part_eq v hv)
  · cases hfill
    -- every failure is inside the value when nothing is around it
    cases hshows id .here with
    | sooner e apart | later e apart => exact absurd List.nil_prefix apart
    | kept make found h =>
      refine .kept (·.map fun i => make (some i)) (fun w b hb => ?_) fun w => ?_
      · by_cases hw : w = .null
        · subst hw
          cases hb
          rfl
        · have hpart : r.part w = .ok b := (unlessNull_of_ne hw).symm.trans hb
          obtain ⟨i, rfl, -⟩ := some_of_map ((r.part_eq w hw).symm.trans hpart)
          have hfound : get (make (some i)) = some i := by
            refine (r.get_eq _).trans ?_
            rw [found w _ hpart]
            rfl
          exact congrArg some hfound
      · by_cases hw : w = .null
        · subst hw
          rfl
        · have hread : s.read w = _ := h w
          simp only [id, read_optional hw, unlessNull_of_ne hw, hread, r.part_eq w hw]
          cases (integer kind).read w <;> rfl

theorem optional (h : s.ShowsNumber x) : (Shape.optional s).ShowsNumber x.optional := by
  obtain ⟨path, kind, get, hk⟩ := x
  by_cases hpath : path = []
  · subst hpath
    exact optional_here h
  · obtain ⟨r, hshows⟩ := h
    refine ⟨⟨r.part, fun a => a.bind r.get, r.part_eq, fun a => ?_⟩, hshows.optional hpath⟩
    cases a with
    | none => rfl
    | some a => exact r.get_eq a

theorem list (h : s.ShowsNumber x) (i : Nat) : (Shape.list s).ShowsNumber (x.item i) := by
  obtain ⟨r, hshows⟩ := h
  refine ⟨⟨r.part, fun as => as[i]?.bind r.get, r.part_eq, fun as => ?_⟩, hshows.list i⟩
  simp only [NumberSite.item]
  cases as[i]? with
  | none => rfl
  | some a => exact r.get_eq a

theorem field {β γ : Type} {fields : Fields γ} {field : String} {i : Nat} {value : γ → α} (h : s.ShowsNumber x)
    (hfield : fields.Picks field i s value) (distinct : fields.names.Nodup) {name : String} {make : γ → β}
    {of : β → α} (hof : ∀ g, of (make g) = value g) {place : Segment}
    (hplace : place = .field field ∨ place = .index i) :
    (Shape.record name fields make).ShowsNumber (x.field place of) := by
  obtain ⟨r, hshows⟩ := h
  exact ⟨⟨r.part, fun b => r.get (of b), r.part_eq, fun b => r.get_eq (of b)⟩,
    hshows.record hfield distinct name hof hplace⟩

end Shape.ShowsNumber

/-- These are the numbers of a shape: it has no others, and each is read on its own and found again. -/
structure Shape.Numbers {α : Type} (s : Shape α) (xs : Set (NumberSite α)) : Prop where
  every : ∀ path k, s.NumberAt path k ↔ HasNumber xs path k
  shows : ∀ x ∈ xs, s.ShowsNumber x

namespace Shape.Numbers

variable {α : Type} {s : Shape α} {xs : Set (NumberSite α)}

theorem none (h : ∀ path k, ¬ s.NumberAt path k) : s.Numbers ∅ where
  every path k := iff_of_false (h path k) hasNumber_empty
  shows x hx := absurd hx (Set.notMem_empty x)

theorem whole {t : WholeType α} {toInt : α → ℤ} (hk : IsWord t.kind)
    (exact : ∀ n, t.kind.Holds n → toInt (t.ofInt n) = n) :
    (Shape.whole t).Numbers {.whole t.kind hk toInt} where
  every path k := by rw [NumberAt, hasNumber_whole]
  shows := by
    rintro x rfl
    exact .whole hk exact

theorem optional (h : s.Numbers xs) : (Shape.optional s).Numbers (NumberSite.optional '' xs) where
  every path k := by rw [NumberAt, h.every, hasNumber_optional]
  shows := by
    rintro _ ⟨x, hx, rfl⟩
    exact (h.shows x hx).optional

theorem list (h : s.Numbers xs) : (Shape.list s).Numbers (itemNumbers xs) where
  every path k := by simp only [NumberAt, h.every, hasNumber_items]
  shows := by
    rintro _ ⟨x, hx, i, rfl⟩
    exact (h.shows x hx).list i

/-- The numbers of a field are numbers of the record. -/
theorem shows_field {β γ : Type} {fields : Fields γ} {field : String} {i : Nat} {value : γ → α}
    (h : s.Numbers xs) (hfield : fields.Picks field i s value) (distinct : fields.names.Nodup) {name : String}
    {make : γ → β} {of : β → α} (hof : ∀ g, of (make g) = value g) :
    ∀ x ∈ fieldNumbers field i of xs, (Shape.record name fields make).ShowsNumber x := by
  rintro _ ⟨x, hx, place, hplace, rfl⟩
  exact (h.shows x hx).field hfield distinct hof hplace

end Shape.Numbers

/-! ## Reading exactly -/

/-- What is answered to a body while the number at one place of it changes: it is accepted as the number that it
stands for, or is refused where it stands. -/
structure ReadsExactly {α : Type} (answer : List Char → Except Failure α) (x : NumberSite α) : Prop where
  /-- What fits is found in the answer, unless nothing in its place is accepted, for a reason elsewhere. -/
  accepted {m : NumberText} : m.Fits x.kind →
    (∃ a i, answer m.text = .ok a ∧ x.get a = some i ∧ (i : ℚ) = m.value) ∨
      ∃ e, answer m.text = .error e ∧ ¬ e.Inside x.path ∧ ∀ {w text a}, Spells w text → answer text ≠ .ok a
  /-- What does not fit is refused where it stands, unless the answer is the same whatever stands there. -/
  refused {m : NumberText} : ¬ m.Fits x.kind → (∃ f, answer m.text = .error ⟨x.path, f⟩) ∨
    ∃ e, ¬ e.Inside x.path ∧ ∀ {w text}, Spells w text → answer text = .error e

/-- Where anything is accepted, the numbers that fit are accepted, and no others. -/
theorem ReadsExactly.accepts_iff {α : Type} {answer : List Char → Except Failure α} {x : NumberSite α}
    (h : ReadsExactly answer x) {w : Value} {text : List Char} {a : α} (hw : Spells w text)
    (hok : answer text = .ok a) {m : NumberText} : (∃ b, answer m.text = .ok b) ↔ m.Fits x.kind := by
  constructor
  · rintro ⟨b, hb⟩
    by_contra hfits
    rcases h.refused hfits with ⟨f, hf⟩ | ⟨e, -, he⟩
    · rw [hf] at hb
      cases hb
    · rw [he hw] at hok
      cases hok
  · intro hfits
    rcases h.accepted hfits with ⟨b, i, hb, -⟩ | ⟨e, -, -, hno⟩
    · exact ⟨b, hb⟩
    · exact absurd hok (hno hw)

/-- In every body with a value at the place, every text of a number can stand there, and is read exactly. -/
def ReadsNumber {α : Type} (decode : String → Except Failure α) (x : NumberSite α) : Prop :=
  ∀ {v : Value} {body rest : List Char} {w : Value}, Body v body rest → v.at? x.path = some w →
    ∃ before text after, body = before ++ (text ++ after) ∧ Spells w text ∧
      (∀ {w' text'}, Spells w' text' →
        ∃ v', Body v' (before ++ (text' ++ after)) rest ∧ v'.at? x.path = some w') ∧
      ReadsExactly (fun text' => decode (String.ofList (before ++ (text' ++ after)))) x

section

variable {α : Type} {s : Shape α} {x : NumberSite α}

/-- What becomes of the number on its own decides. -/
theorem Through.readsExactly {r : x.Reader} {whole : Value → Except Failure α}
    {answer : List Char → Except Failure α} (h : Through x.path r.part whole r.get)
    (hanswer : ∀ {w text}, Spells w text → answer text = whole w) : ReadsExactly answer x where
  accepted {m} hfits := by
    rw [hanswer (.token m.token)]
    obtain ⟨-, i, hvalue, hread⟩ | ⟨hno, -⟩ := Shape.read_integer x.isWord m
    · have hnumber : r.part (.number m.toNumeral) = .ok (some i) := by
        rw [r.part_eq (.number m.toNumeral) nofun, hread]
        rfl
      cases h with
      | sooner e apart h =>
        refine .inr ⟨e, h _, apart, fun hw hok => ?_⟩
        rw [hanswer hw, h] at hok
        cases hok
      | later e apart h =>
        refine .inr ⟨e, by rw [h, hnumber], apart, fun hw hok => ?_⟩
        rw [hanswer hw, h] at hok
        split at hok <;> cases hok
      | kept make found h =>
        refine .inl ⟨make (some i), i, by rw [h, hnumber], ?_, hvalue⟩
        rw [r.get_eq, found _ _ hnumber]
        rfl
    · exact absurd hfits hno
  refused {m} hfits := by
    rw [hanswer (.token m.token)]
    obtain ⟨hyes, -⟩ | ⟨-, f, hread⟩ := Shape.read_integer x.isWord m
    · exact absurd hyes hfits
    · have hnumber : r.part (.number m.toNumeral) = .error (.here f) := by
        rw [r.part_eq (.number m.toNumeral) nofun, hread]
        rfl
      have hat : (Failure.here f).at x.path = ⟨x.path, f⟩ := by rw [Failure.at, Failure.here, List.append_nil]
      cases h with
      | sooner e apart h => exact .inr ⟨e, apart, fun hw => (hanswer hw).trans (h _)⟩
      | later e apart h => exact .inl ⟨f, by rw [h, hnumber, ← hat]⟩
      | kept make found h => exact .inl ⟨f, by rw [h, hnumber, ← hat]⟩

/-- So it is with all that is read of a value with its surroundings. -/
theorem readsNumber_of_through {r : x.Reader} {decode : String → Except Failure α}
    (hchoice : ∀ name, .choice name ∉ x.path)
    (h : ∀ fill rest, Around x.path fill → ∃ whole, Through x.path r.part whole r.get ∧
      ∀ {w b}, Body (fill w) b.toList rest → decode b = whole w) : ReadsNumber decode x := by
  intro v body rest w hbody hw
  obtain ⟨fill, before, text, after, haround, hcut, rfl, htext, rfl⟩ := exists_cut hbody hw hchoice
  obtain ⟨whole, hthrough, hwhole⟩ := h fill rest haround
  refine ⟨before, text, after ++ rest, rfl, htext, fun hw' => ⟨_, hcut hw' rest, haround.at_fill _⟩, ?_⟩
  refine hthrough.readsExactly fun hw' => hwhole ?_
  rw [String.toList_ofList]
  exact hcut hw' rest

namespace Shape.ShowsNumber

theorem readsNumber_decode (h : s.ShowsNumber x) (hpath : x.path ≠ [])
    (hchoice : ∀ name, .choice name ∉ x.path) : ReadsNumber s.decode x := by
  obtain ⟨r, hshows⟩ := h
  exact readsNumber_of_through hchoice fun fill _ haround =>
    ⟨fun w => s.read (fill w), hshows fill haround, fun hb => decode_of_body hb (haround.bracketed hpath _)⟩

/-- The text after the value is looked at only when the value is accepted. -/
theorem readsNumber_decodeAll (h : s.ShowsNumber x) (hpath : x.path ≠ [])
    (hchoice : ∀ name, .choice name ∉ x.path) : ReadsNumber s.decodeAll x := by
  obtain ⟨r, hshows⟩ := h
  apply readsNumber_of_through (r := r) hchoice
  intro fill rest haround
  -- other text after the value is a failure of the whole, which is not at the place
  by_cases hspace : rest.all Scan.isSpace = true
  · refine ⟨fun w => s.read (fill w), hshows fill haround, fun {w b} hb => ?_⟩
    rw [decodeAll, hb.ofText (haround.bracketed hpath w)]
    dsimp only
    cases s.read (fill w) with
    | error e => rfl
    | ok a => exact if_pos hspace
  · refine ⟨_, (hshows fill haround).spoil (e := .here .trailingText) ?_ _, fun {w b} hb => ?_⟩
    · rintro ⟨tail, htail⟩
      exact hpath (List.append_eq_nil_iff.1 htail).1
    · rw [decodeAll, hb.ofText (haround.bracketed hpath w)]
      dsimp only
      cases s.read (fill w) with
      | error e => rfl
      | ok a => exact if_neg hspace

end Shape.ShowsNumber

end

mutual

/-- No number of a shape stands inside a choice. -/
theorem Shape.choice_notMem {k : Kind} : {α : Type} → (s : Shape α) → ∀ {path}, s.NumberAt path k →
    ∀ name, .choice name ∉ path
  | _, .whole _, _, h => by simp [h.1]
  | _, .optional s, _, h => s.choice_notMem h
  | _, .list s, _, h => by
    obtain ⟨i, rest, rfl, h⟩ := h
    intro name
    rw [List.mem_cons, not_or]
    exact ⟨nofun, s.choice_notMem h name⟩
  | _, .record _ fields _, _, h => by
    obtain ⟨place, rest, rfl, h⟩ := h
    exact fields.choice_notMem h
  | _, .boolean, _, h | _, .text, _, h | _, .formatted .., _, h | _, .choice _, _, h => h.elim

theorem Fields.choice_notMem {k : Kind} : {γ : Type} → (fs : Fields γ) → ∀ {i place path},
    fs.NumberAt i place path k → ∀ name, .choice name ∉ place :: path
  | _, .nil, _, _, _, h => h.elim
  | _, .required _ s rest, _, _, _, h | _, .defaulted _ s _ rest, _, _, _, h => by
    intro name
    rcases h with ⟨hplace, h⟩ | h
    · rw [List.mem_cons, not_or]
      refine ⟨?_, s.choice_notMem h name⟩
      rcases hplace with rfl | rfl <;> nofun
    · exact rest.choice_notMem h name

end

/-- The numbers of the shape stand at these places, and each is read exactly, be it from a text that starts with a
value or from one that is a value. -/
structure Shape.ReadsNumbers {α : Type} (s : Shape α) (xs : Set (NumberSite α)) : Prop where
  every : ∀ path k, s.NumberAt path k ↔ HasNumber xs path k
  first : ∀ x ∈ xs, ReadsNumber s.decode x
  all : ∀ x ∈ xs, ReadsNumber s.decodeAll x

/-- All numbers of a shape of lists or records are read exactly. -/
theorem Shape.Numbers.readsNumbers {α : Type} {s : Shape α} {xs : Set (NumberSite α)} (h : s.Numbers xs)
    (hroot : ∀ k, ¬ s.NumberAt [] k) : s.ReadsNumbers xs := by
  have hpath : ∀ x ∈ xs, x.path ≠ [] ∧ ∀ name, .choice name ∉ x.path := by
    intro x hx
    have hat : s.NumberAt x.path x.kind := (h.every _ _).2 ⟨x, hx, rfl, rfl⟩
    exact ⟨fun hnil => hroot x.kind (hnil ▸ hat), s.choice_notMem hat⟩
  refine ⟨h.every, fun x hx => ?_, fun x hx => ?_⟩
  · exact (h.shows x hx).readsNumber_decode (hpath x hx).1 (hpath x hx).2
  · exact (h.shows x hx).readsNumber_decodeAll (hpath x hx).1 (hpath x hx).2

theorem Shape.not_numberAt_list {α : Type} {s : Shape α} (k : Kind) : ¬ (Shape.list s).NumberAt [] k := by
  rintro ⟨i, rest, hpath, -⟩
  cases hpath

theorem Shape.not_numberAt_record {α γ : Type} {name : String} {fields : Fields γ} {make : γ → α} (k : Kind) :
    ¬ (Shape.record name fields make).NumberAt [] k := by
  rintro ⟨place, rest, hpath, -⟩
  cases hpath

end HeatWatch.Json
