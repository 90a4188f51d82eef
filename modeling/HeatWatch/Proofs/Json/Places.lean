import HeatWatch.Proofs.Json.Edits

/-!
# Where a failure is

A failure names a place. There is a value at that place of the text, and something is declared for it; the
value alone fails in the same way, and it fails itself and not by one of its parts. There is one exception:
where the name of a member is no text, the place ends with a segment for that name. Main statements:

* `Declared.Own`: what can be wrong with a value itself;
* `Shape.blames`: whatever fails to be read, the failure is at the place of the value to blame;
* `responses_locate_failures`: so it is with the texts of all responses.
-/

namespace HeatWatch.Json

open Scan

/-! ## Places -/

/-- The part of a value that a segment leads to. Of members with the same name the first one counts. -/
def Value.part? : Value → Segment → Option Value
  | .list items, .index i => items[i]?
  | .object members, .field name => memberNamed? members name
  | .object members, .choice name => memberNamed? members name
  | _, _ => none

/-- The value at a place. -/
def Value.at? : Value → Path → Option Value
  | v, [] => some v
  | v, s :: path => (v.part? s).bind fun w => w.at? path

/-- What is declared for a place: a shape, or `null` for the value of a choice that is an object. -/
inductive Declared where
  | shape {α : Type} (s : Shape α)
  | unit

namespace Declared

/-- The value alone cannot be read as what is declared. -/
def Fails : Declared → Value → Failure → Prop
  | .shape s, v, e => s.read v = .error e
  | .unit, v, e => v ≠ .null ∧ e = .here (v.mismatch "unit")

/-- What is declared for a part. -/
inductive Part : Declared → Segment → Declared → Prop
  | optional {α : Type} {s : Shape α} {place : Segment} {d : Declared} (h : Part (.shape s) place d) :
      Part (.shape (.optional s)) place d
  | item {α : Type} (s : Shape α) (i : Nat) : Part (.shape (.list s)) (.index i) (.shape s)
  | field {γ α : Type} {name : String} {fields : Fields γ} {make : γ → α} {f : Field}
      (hf : f ∈ fields.toList) :
      Part (.shape (.record name fields make)) (.field f.name) (.shape f.shape)
  | fieldAt {γ α : Type} {name : String} {fields : Fields γ} {make : γ → α} {f : Field} {i : Nat}
      (hf : fields.toList[i]? = some f) :
      Part (.shape (.record name fields make)) (.index i) (.shape f.shape)
  | choice {α : Type} {options : List (String × α)} {name : String} (h : name ∈ options.map (·.1)) :
      Part (.shape (.choice options)) (.choice name) .unit

/-- What is declared for a place. -/
inductive At : Declared → Path → Declared → Prop
  | here (d : Declared) : At d [] d
  | part {d d' d'' : Declared} {place : Segment} {path : Path} (h : d.Part place d')
      (rest : At d' path d'') : At d (place :: path) d''

end Declared

/-! ## Blame -/

/-- The values of the shape have no parts. -/
def Shape.Plain {α : Type} : Shape α → Prop
  | .whole _ | .boolean | .text | .formatted .. => True
  | .optional _ | .list _ | .choice _ | .record .. => False

/-- What is wrong with a value itself, whatever its parts are. -/
inductive Declared.Own : Declared → Value → Failure → Prop
  | plain {α : Type} {s : Shape α} {v : Value} {e : Failure} (hs : s.Plain) (h : s.read v = .error e) :
      Own (.shape s) v e
  | unit {v : Value} (h : v ≠ .null) : Own .unit v (.here (v.mismatch "unit"))
  | optional {α : Type} {s : Shape α} {v : Value} {e : Failure} (hv : v ≠ .null)
      (h : Own (.shape s) v e) : Own (.shape (.optional s)) v e
  | noList {α : Type} {s : Shape α} {v : Value} (h : ∀ items, v ≠ .list items) :
      Own (.shape (.list s)) v (.here (v.mismatch "a sequence"))
  /-- The name is none of the names to choose from. -/
  | choice {α : Type} {options : List (String × α)} {v : Value} {n : Quoted} {f : Fault}
      (hv : v = .string n ∨ ∃ w more, v = .object ((n, w) :: more))
      (h : pickQuoted options n = .error (.here f)) : Own (.shape (.choice options)) v (.here f)
  | noChoice {α : Type} {options : List (String × α)} {v : Value} (hstring : ∀ n, v ≠ .string n)
      (hobject : ∀ m, v ≠ .object [m]) : Own (.shape (.choice options)) v (.here .noValue)
  | noRecord {γ α : Type} {name : String} {fields : Fields γ} {make : γ → α} {v : Value}
      (hlist : ∀ items, v ≠ .list items) (hobject : ∀ ms, v ≠ .object ms) :
      Own (.shape (.record name fields make)) v (.here (v.mismatch ("struct " ++ name)))
  /-- No member gives a field that has to be there. -/
  | missing {γ α : Type} {name : String} {fields : Fields γ} {make : γ → α} {ms : List Member}
      {f : Field} (hf : f ∈ fields.toList) (required : f.absent = none)
      (h : ∀ v, ¬ Gives ms f.name v) :
      Own (.shape (.record name fields make)) (.object ms) (.here (.missingField f.name))
  /-- A member gives a field that another member gives before it. -/
  | repeated {γ α : Type} {name : String} {fields : Fields γ} {make : γ → α}
      {before after : List Member} {n : Quoted} {t : String} {v w : Value} (hn : n.text = .ok t)
      (known : t ∈ fields.names) (h : Gives before t w) :
      Own (.shape (.record name fields make)) (.object (before ++ (n, v) :: after))
        (.here (.repeatedField t))
  /-- The name of a member is no text. -/
  | noName {γ α : Type} {name : String} {fields : Fields γ} {make : γ → α} {ms : List Member}
      {n : Quoted} {v : Value} {f : Fault} (hmem : (n, v) ∈ ms) (hn : n.text = .error f) :
      Own (.shape (.record name fields make)) (.object ms) ⟨[.unknown], f⟩
  /-- The list ends before a field that has to be there. -/
  | short {γ α : Type} {name : String} {fields : Fields γ} {make : γ → α} {items : List Value}
      {i : Nat} {f : Field} (hi : items.length ≤ i) (hf : fields.toList[i]? = some f)
      (required : f.absent = none) :
      Own (.shape (.record name fields make)) (.list items)
        (.here (.wrongLength i (fields.wanted name)))
  | long {γ α : Type} {name : String} {fields : Fields γ} {make : γ → α} {items : List Value}
      (h : fields.names.length < items.length) :
      Own (.shape (.record name fields make)) (.list items) (.here .trailingText)

/-- The place of the failure is that of a value which fails itself. -/
inductive Blames (d : Declared) (v : Value) : Failure → Prop
  | intro {path : Path} {d' : Declared} {w : Value} {e : Failure} (hd : d.At path d')
      (hv : v.at? path = some w) (fails : d'.Fails w e) (own : d'.Own w e) :
      Blames d v ⟨path ++ e.path, e.fault⟩

namespace Blames

variable {d d' : Declared} {v w : Value} {e : Failure}

/-- The value as a whole is to blame. -/
theorem whole (fails : d.Fails v e) (own : d.Own v e) : Blames d v e :=
  .intro (.here d) rfl fails own

/-- A part of the value is to blame. -/
theorem under {place : Segment} (hd : d.Part place d') (hv : v.part? place = some w)
    (h : Blames d' w e) : Blames d v (e.under place) := by
  obtain ⟨hat, hw, fails, own⟩ := h
  refine .intro (.part hd hat) ?_ fails own
  rw [Value.at?, hv]
  exact hw

theorem optional {α : Type} {s : Shape α} (hv : v ≠ .null) (h : Blames (.shape s) v e) :
    Blames (.shape (.optional s)) v e := by
  obtain ⟨hat, hw, fails, own⟩ := h
  cases hat with
  | here =>
    -- the value itself is to blame: it fails as an optional one too, for it is not `null`
    cases hw
    refine .whole ?_ (.optional hv own)
    have hread : s.read v = .error _ := fails
    cases v with
    | null => exact absurd rfl hv
    | bool | number | string | list | object =>
      show some <$> s.read _ = _
      rw [hread]
      rfl
  | part hpart hrest => exact .intro (.part (.optional hpart) hrest) hw fails own

end Blames

/-! ## Choices and lists -/

theorem map_eq_error {ε α β : Type} {x : Except ε α} {g : α → β} {e : ε} (h : g <$> x = .error e) :
    x = .error e := by
  cases x with
  | error e' =>
    cases h
    rfl
  | ok a => cases h

/-- Of one part and those after it, one cannot be read. -/
theorem seq_eq_error {α β γ : Type} {x : Except Failure α} {k : Except Failure β} {place : Segment}
    {f : α → β → γ} {e : Failure} :
    (match x with
      | .error e => .error (e.under place)
      | .ok a => f a <$> k) = Except.error e →
    (∃ e', x = .error e' ∧ e = e'.under place) ∨ k = .error e := by
  intro h
  cases x with
  | error e' =>
    cases h
    exact .inl ⟨e', rfl, rfl⟩
  | ok a => exact .inr (map_eq_error h)

theorem text_of_pickQuoted {α : Type} {options : List (String × α)} {n : Quoted} {name : String} {a : α}
    (h : pickQuoted options n = .ok (name, a)) : n.text = .ok name ∧ name ∈ options.map (·.1) := by
  unfold pickQuoted pick at h
  split at h
  case h_1 => cases h
  case h_2 t ht =>
    split at h
    case h_1 => cases h
    case h_2 b hb =>
      cases h
      refine ⟨ht, ?_⟩
      split at hb
      case h_1 c hc =>
        obtain ⟨before, after, rfl, -⟩ := List.lookup_eq_some_iff.1 hc
        simp
      case h_2 => cases hb

theorem fault_of_pickQuoted {α : Type} {options : List (String × α)} {n : Quoted} {e : Failure}
    (h : pickQuoted options n = .error e) : ∃ f, e = .here f := by
  unfold pickQuoted at h
  split at h
  case h_1 f _ =>
    cases h
    exact ⟨f, rfl⟩
  case h_2 =>
    split at h
    case h_1 f _ =>
      cases h
      exact ⟨f, rfl⟩
    case h_2 => cases h

/-- The name of the first member of an object finds its value. -/
theorem memberNamed?_cons_self {n : Quoted} {t : String} (h : n.text = .ok t) (v : Value)
    (ms : List Member) : memberNamed? ((n, v) :: ms) t = some v := by
  have htext : (n.text.toOption == some t) = true := by
    rw [h]
    exact beq_self_eq_true _
  rw [memberNamed?, List.find?_cons, htext]
  rfl

/-- Only `null` is read as the value of a choice. -/
theorem readUnit_eq_error {name : String} {v : Value} {e : Failure} (h : readUnit name v = .error e) :
    v ≠ .null ∧ e = (Failure.here (v.mismatch "unit")).under (.choice name) := by
  cases v with
  | null => cases h
  | bool | number | string | list | object =>
    cases h
    refine ⟨?_, rfl⟩
    rintro ⟨⟩

section

variable {α : Type} {options : List (String × α)} {v : Value} {e : Failure}

theorem blames_choice_name {n : Quoted} (h : (Shape.choice options).read v = .error e)
    (hv : v = .string n ∨ ∃ w more, v = .object ((n, w) :: more)) (hpick : pickQuoted options n = .error e) :
    Blames (.shape (.choice options)) v e := by
  obtain ⟨f, rfl⟩ := fault_of_pickQuoted hpick
  exact .whole h (.choice hv hpick)

theorem blames_choice_member {n : Quoted} {w : Value} {more : List Member}
    (h : (Shape.choice options).read (.object ((n, w) :: more)) = .error e) :
    Blames (.shape (.choice options)) (.object ((n, w) :: more)) e := by
  have hread := h
  unfold Shape.read readChoice at hread
  dsimp only at hread
  cases hpick : pickQuoted options n with
  | error e' =>
    rw [hpick] at hread
    cases hread
    exact blames_choice_name h (.inr ⟨w, more, rfl⟩) hpick
  | ok picked =>
    obtain ⟨name, a⟩ := picked
    obtain ⟨htext, hmem⟩ := text_of_pickQuoted hpick
    replace hread : (readUnit name w >>= fun _ =>
        if more.isEmpty then .ok a else .error (.here .noValue)) = .error e := by rwa [hpick] at hread
    cases hunit : readUnit name w with
    | error e' =>
      rw [hunit] at hread
      cases hread
      obtain ⟨hnull, rfl⟩ := readUnit_eq_error hunit
      exact .under (.choice hmem) (memberNamed?_cons_self htext w more)
        (.whole ⟨hnull, rfl⟩ (.unit hnull))
    | ok =>
      -- name and value are fine, so there are more members
      rw [hunit] at hread
      cases more with
      | nil => cases hread
      | cons m more =>
        cases hread
        refine .whole h (.noChoice ?_ ?_)
        · rintro n' ⟨⟩
        · rintro m' ⟨⟩

theorem blames_choice (h : (Shape.choice options).read v = .error e) :
    Blames (.shape (.choice options)) v e := by
  have hread : readChoice options v = .error e := h
  cases v with
  | null | bool | number | list =>
    cases hread
    refine .whole h (.noChoice ?_ ?_)
    · rintro n ⟨⟩
    · rintro m ⟨⟩
  | string n => exact blames_choice_name h (.inl rfl) (map_eq_error hread)
  | object members =>
    cases members with
    | nil =>
      cases hread
      refine .whole h (.noChoice ?_ ?_)
      · rintro n ⟨⟩
      · rintro m ⟨⟩
    | cons m more => exact blames_choice_member h

end

/-- A list that cannot be read has an item that cannot. -/
theorem readItems_eq_error {α : Type} {read : Value → Except Failure α} {i : Nat} {items : List Value}
    {e : Failure} (h : readItems read i items = .error e) :
    ∃ j v e', items[j]? = some v ∧ read v = .error e' ∧ e = e'.under (.index (i + j)) := by
  induction items generalizing i with
  | nil => cases h
  | cons v items ih =>
    rcases seq_eq_error h with ⟨e', hv, rfl⟩ | hrest
    · exact ⟨0, v, e', rfl, hv, rfl⟩
    · obtain ⟨j, w, e', hw, hread, he⟩ := ih hrest
      refine ⟨j + 1, w, e', hw, hread, ?_⟩
      rw [he, Nat.add_assoc, Nat.add_comm 1]

theorem blames_list {α : Type} {s : Shape α} {v : Value} {e : Failure}
    (h : (Shape.list s).read v = .error e)
    (items : ∀ w e', s.read w = .error e' → Blames (.shape s) w e') :
    Blames (.shape (.list s)) v e := by
  have hread := h
  unfold Shape.read at hread
  cases v with
  | null | bool | number | string | object =>
    cases hread
    refine .whole h (.noList ?_)
    rintro items ⟨⟩
  | list vs =>
    obtain ⟨j, w, e', hw, hfails, rfl⟩ := readItems_eq_error hread
    rw [Nat.zero_add]
    exact .under (.item s j) hw (items w e' hfails)

/-! ## Records -/

section

variable {fs : List Field} {wanted : String} {i : Nat} {items : List Value}
  {given : String → Option Value} {f : Field} {v : Value} {e : Failure}

/-- A list of values for the fields, the first at index `i`, ends too early or has an item that cannot be
read. -/
def FailsByItem (fs : List Field) (wanted : String) (i : Nat) (items : List Value) (e : Failure) : Prop :=
  ∃ j f, fs[j]? = some f ∧
    (items.length ≤ j ∧ f.absent = none ∧ e = .here (.wrongLength (i + j) wanted) ∨
      ∃ v e', items[j]? = some v ∧ f.shape.read v = .error e' ∧ e = e'.under (.index (i + j)))

/-- A field that has to be there is not given, or one is given a value that cannot be read. -/
def FailsByField (fs : List Field) (given : String → Option Value) (e : Failure) : Prop :=
  ∃ f ∈ fs,
    (given f.name = none ∧ f.absent = none ∧ e = .here (.missingField f.name) ∨
      ∃ v e', given f.name = some v ∧ f.shape.read v = .error e' ∧ e = e'.under (.field f.name))

theorem FailsByItem.later (h : FailsByItem fs wanted (i + 1) items.tail e) :
    FailsByItem (f :: fs) wanted i items e := by
  obtain ⟨j, f', hf', hwhy⟩ := h
  refine ⟨j + 1, f', hf', ?_⟩
  rwa [List.length_tail, List.getElem?_tail, Nat.sub_le_iff_le_add, Nat.add_assoc, Nat.add_comm 1] at hwhy

theorem FailsByItem.first (hv : f.shape.read v = .error e) :
    FailsByItem (f :: fs) wanted i (v :: items) (e.under (.index i)) :=
  ⟨0, f, rfl, .inr ⟨v, e, rfl, hv, rfl⟩⟩

theorem FailsByField.later (h : FailsByField fs given e) : FailsByField (f :: fs) given e := by
  obtain ⟨f', hf', hwhy⟩ := h
  exact ⟨f', .tail f hf', hwhy⟩

theorem FailsByField.first (hgiven : given f.name = some v) (hv : f.shape.read v = .error e) :
    FailsByField (f :: fs) given (e.under (.field f.name)) :=
  ⟨f, List.mem_cons_self, .inr ⟨v, e, hgiven, hv, rfl⟩⟩

/-- Fields that cannot be read from a list fail by one of its items. -/
theorem Fields.readItems_eq_error {γ : Type} : (fs : Fields γ) → {wanted : String} → {i : Nat} →
    {items : List Value} → {e : Failure} → fs.readItems wanted i items = .error e →
    FailsByItem fs.toList wanted i items e
  | .nil, _, _, _, _, h => by cases h
  | .required _ _ rest, _, _, items, _, h => by
    cases items with
    | nil =>
      cases h
      exact ⟨0, _, rfl, .inl ⟨Nat.le_refl 0, rfl, rfl⟩⟩
    | cons v items =>
      rcases seq_eq_error h with ⟨e', hv, rfl⟩ | hrest
      · exact .first hv
      · exact (rest.readItems_eq_error hrest).later
  | .defaulted _ _ _ rest, _, _, items, _, h => by
    cases items with
    | nil => exact (rest.readItems_eq_error (map_eq_error h)).later
    | cons v items =>
      rcases seq_eq_error h with ⟨e', hv, rfl⟩ | hrest
      · exact .first hv
      · exact (rest.readItems_eq_error hrest).later

/-- Fields that cannot be filled fail by one of them. -/
theorem Fields.fill_eq_error {γ : Type} : (fs : Fields γ) → {e : Failure} → fs.fill given = .error e →
    FailsByField fs.toList given e
  | .nil, _, h => by cases h
  | .required name _ rest, _, h => by
    unfold fill at h
    cases hgiven : given name with
    | none =>
      rw [hgiven] at h
      cases h
      exact ⟨_, List.mem_cons_self, .inl ⟨hgiven, rfl, rfl⟩⟩
    | some v =>
      rw [hgiven] at h
      rcases seq_eq_error h with ⟨e', hv, rfl⟩ | hrest
      · exact .first hgiven hv
      · exact (rest.fill_eq_error hrest).later
  | .defaulted name _ _ rest, _, h => by
    unfold fill at h
    cases hgiven : given name with
    | none =>
      rw [hgiven] at h
      exact (rest.fill_eq_error (map_eq_error h)).later
    | some v =>
      rw [hgiven] at h
      rcases seq_eq_error h with ⟨e', hv, rfl⟩ | hrest
      · exact .first hgiven hv
      · exact (rest.fill_eq_error hrest).later

theorem trouble_cases {α : Type} {x : Except Failure α} {p : Prop} [Decidable p] {k : Option Failure} :
    (if p then
      match x with
      | .error e => some e
      | .ok _ => none
    else k) = some e → p ∧ x = .error e ∨ k = some e := by
  intro h
  split at h
  case isTrue hp =>
    cases x with
    | error e' =>
      cases h
      exact .inl ⟨hp, rfl⟩
    | ok a => cases h
  case isFalse => exact .inr h

/-- What is wrong with the value of a field is that it cannot be read. -/
theorem Fields.trouble_eq_some {γ : Type} {t : String} : (fs : Fields γ) → {e : Failure} →
    fs.trouble t v = some e → ∃ f ∈ fs.toList, f.name = t ∧ f.shape.read v = .error e
  | .nil, _, h => by cases h
  | .required _ _ rest, _, h | .defaulted _ _ _ rest, _, h => by
    unfold trouble at h
    rcases trouble_cases h with ⟨rfl, hv⟩ | hrest
    · exact ⟨_, List.mem_cons_self, rfl, hv⟩
    · obtain ⟨f, hf, hwhy⟩ := rest.trouble_eq_some hrest
      exact ⟨f, .tail _ hf, hwhy⟩

end

section

variable {names seen : List String} {ms : List Member} {n : Quoted} {s t : String} {v : Value}
  {trouble : String → Value → Option Failure} {e : Failure}

/-- The field is one of those seen, or a member gives it. -/
def Taken (seen : List String) (ms : List Member) (t : String) : Prop := t ∈ seen ∨ ∃ w, Gives ms t w

theorem not_gives_nil : ¬ Gives [] t v := by
  rintro ⟨n, hmem, -⟩
  cases hmem

theorem taken_nil : Taken seen [] t ↔ t ∈ seen := by
  constructor
  · rintro (hseen | ⟨w, hw⟩)
    · exact hseen
    · exact absurd hw not_gives_nil
  · exact .inl

/-- A member takes the field that it names. -/
theorem taken_cons (hn : n.text = .ok t) : Taken seen ((n, v) :: ms) s ↔ s = t ∨ Taken seen ms s := by
  unfold Taken
  simp only [gives_cons, hn, Except.ok.injEq, exists_or, exists_and_left, exists_eq, and_true]
  rw [or_left_comm, eq_comm]

/-- A member that is a field counts as seen after it. -/
theorem taken_seen (hn : n.text = .ok t) : Taken (t :: seen) ms s ↔ Taken seen ((n, v) :: ms) s := by
  rw [taken_cons hn, Taken, List.mem_cons, or_assoc, Taken]

/-- What is wrong with the members of an object is the first thing that is: a name that is no text, a field
that was given before, or the value of a field. -/
theorem membersTrouble_eq_some (h : membersTrouble names trouble seen ms = some e) :
    ∃ before n v after, ms = before ++ (n, v) :: after ∧
      ((∃ f, n.text = .error f ∧ e = ⟨[.unknown], f⟩) ∨
        ∃ t ∈ names, n.text = .ok t ∧
          (Taken seen before t ∧ e = .here (.repeatedField t) ∨
            ¬ Taken seen before t ∧ ∃ e', trouble t v = some e' ∧ e = e'.under (.field t))) := by
  induction ms generalizing seen with
  | nil => cases h
  | cons m ms ih =>
    obtain ⟨n, v⟩ := m
    unfold membersTrouble at h
    cases hn : n.text with
    | error f =>
      rw [hn] at h
      cases h
      exact ⟨[], n, v, ms, rfl, .inl ⟨f, hn, rfl⟩⟩
    | ok t =>
      simp only [hn, List.contains_iff_mem] at h
      split at h
      case isTrue hknown =>
        split at h
        case isTrue hseen =>
          cases h
          exact ⟨[], n, v, ms, rfl, .inr ⟨t, hknown, hn, .inl ⟨taken_nil.2 hseen, rfl⟩⟩⟩
        case isFalse hseen =>
          have hfresh : ¬ Taken seen [] t := fun htaken => hseen (taken_nil.1 htaken)
          split at h
          case h_1 e' htrouble =>
            cases h
            exact ⟨[], n, v, ms, rfl, .inr ⟨t, hknown, hn, .inr ⟨hfresh, e', htrouble, rfl⟩⟩⟩
          case h_2 =>
            -- what this member gives is seen by the others
            obtain ⟨before, n', v', after, rfl, hwhy⟩ := ih h
            refine ⟨(n, v) :: before, n', v', after, rfl, hwhy.imp_right ?_⟩
            rintro ⟨s, hs, hs', hwhy⟩
            refine ⟨s, hs, hs', ?_⟩
            rwa [taken_seen hn] at hwhy
      case isFalse hother =>
        -- a member that is no field takes none
        obtain ⟨before, n', v', after, rfl, hwhy⟩ := ih h
        refine ⟨(n, v) :: before, n', v', after, rfl, hwhy.imp_right ?_⟩
        rintro ⟨s, hs, hs', hwhy⟩
        have hne : s ≠ t := by
          rintro rfl
          exact hother hs
        refine ⟨s, hs, hs', ?_⟩
        rwa [taken_cons hn, or_iff_right hne]

end

theorem memberNamed?_eq_none {ms : List Member} {t : String} (h : memberNamed? ms t = none) (v : Value) :
    ¬ Gives ms t v := by
  rintro ⟨n, hmem, hn⟩
  have hnone := List.find?_eq_none.1 (Option.map_eq_none_iff.1 h) (n, v) hmem
  rw [hn] at hnone
  exact hnone (beq_self_eq_true _)

/-- The first member of a name gives the value that is found. -/
theorem memberNamed?_of_first {before after : List Member} {n : Quoted} {t : String} {v : Value}
    (hn : n.text = .ok t) (h : ∀ w, ¬ Gives before t w) :
    memberNamed? (before ++ (n, v) :: after) t = some v := by
  have hbefore : before.find? (fun m => m.1.text.toOption == some t) = none := by
    refine List.find?_eq_none.2 ?_
    rintro ⟨n', w⟩ hmem hsame
    refine h w ⟨n', hmem, ?_⟩
    cases hn' : n'.text with
    | error f =>
      rw [hn'] at hsame
      cases hsame
    | ok t' =>
      rw [hn'] at hsame
      rw [show t' = t by simpa [Except.toOption] using hsame]
  rw [memberNamed?, List.find?_append, hbefore]
  exact memberNamed?_cons_self hn v after

section

variable {γ α : Type} {name : String} {fields : Fields γ} {make : γ → α} {v : Value} {e : Failure}

theorem blames_record_list {items : List Value}
    (h : (Shape.record name fields make).read (.list items) = .error e)
    (parts : ∀ f ∈ fields.toList, ∀ w e', f.shape.read w = .error e' → Blames (.shape f.shape) w e') :
    Blames (.shape (.record name fields make)) (.list items) e := by
  have hread := h
  unfold Shape.read at hread
  dsimp only at hread
  cases hitems : fields.readItems (fields.wanted name) 0 items with
  | error e' =>
    rw [hitems] at hread
    cases hread
    obtain ⟨j, f, hf, ⟨hj, hrequired, rfl⟩ | ⟨w, e', hw, hfails, rfl⟩⟩ :=
      fields.readItems_eq_error hitems
    · rw [Nat.zero_add] at h ⊢
      exact .whole h (.short hj hf hrequired)
    · rw [Nat.zero_add]
      exact .under (.fieldAt hf) hw (parts f (List.mem_of_getElem? hf) w e' hfails)
  | ok g =>
    rw [hitems] at hread
    dsimp only at hread
    split at hread
    case isTrue hlong =>
      cases hread
      exact .whole h (.long hlong)
    case isFalse => cases hread

theorem blames_record_object {ms : List Member}
    (h : (Shape.record name fields make).read (.object ms) = .error e)
    (parts : ∀ f ∈ fields.toList, ∀ w e', f.shape.read w = .error e' → Blames (.shape f.shape) w e') :
    Blames (.shape (.record name fields make)) (.object ms) e := by
  have hread := h
  unfold Shape.read at hread
  dsimp only at hread
  split at hread
  case h_1 e' htrouble =>
    cases hread
    obtain ⟨before, n, v, after, rfl, hwhy⟩ := membersTrouble_eq_some htrouble
    rcases hwhy with ⟨f, hn, rfl⟩ | ⟨t, hknown, hn, ⟨hrepeated, rfl⟩ | ⟨hfresh, e', hvalue, rfl⟩⟩
    · exact .whole h (.noName (List.mem_append_right _ List.mem_cons_self) hn)
    · rcases hrepeated with hmem | ⟨w, hw⟩
      · cases hmem
      · exact .whole h (.repeated hn hknown hw)
    · obtain ⟨f, hf, rfl, hfails⟩ := fields.trouble_eq_some hvalue
      have hfirst : ∀ w, ¬ Gives before f.name w := fun w hw => hfresh (.inr ⟨w, hw⟩)
      exact .under (.field hf) (memberNamed?_of_first hn hfirst) (parts f hf v e' hfails)
  case h_2 =>
    obtain ⟨f, hf, ⟨habsent, hrequired, rfl⟩ | ⟨v, e', hv, hfails, rfl⟩⟩ :=
      fields.fill_eq_error (map_eq_error hread)
    · exact .whole h (.missing hf hrequired (memberNamed?_eq_none habsent))
    · exact .under (.field hf) hv (parts f hf v e' hfails)

theorem blames_record (h : (Shape.record name fields make).read v = .error e)
    (parts : ∀ f ∈ fields.toList, ∀ w e', f.shape.read w = .error e' → Blames (.shape f.shape) w e') :
    Blames (.shape (.record name fields make)) v e := by
  cases v with
  | list items => exact blames_record_list h parts
  | object ms => exact blames_record_object h parts
  | null | bool | number | string =>
    have hread := h
    unfold Shape.read at hread
    cases hread
    refine .whole h (.noRecord ?_ ?_)
    · rintro items ⟨⟩
    · rintro ms ⟨⟩

end

/-! ## All shapes -/

mutual

/-- Whatever fails to be read, the failure is at the place of the value to blame. -/
theorem Shape.blames : {α : Type} → (s : Shape α) → ∀ v e, s.read v = .error e → Blames (.shape s) v e
  | _, .whole _, _, _, h => .whole h (.plain trivial h)
  | _, .boolean, _, _, h => .whole h (.plain trivial h)
  | _, .text, _, _, h => .whole h (.plain trivial h)
  | _, .formatted .., _, _, h => .whole h (.plain trivial h)
  | _, .optional s, v, e, h => by
    have hnull : v ≠ .null := by
      rintro rfl
      cases h
    have hread : s.read v = .error e := by
      unfold Shape.read at h
      split at h
      · cases h
      · exact map_eq_error h
    exact .optional hnull (s.blames v e hread)
  | _, .list s, _, _, h => blames_list h s.blames
  | _, .choice _, _, _, h => blames_choice h
  | _, .record _ fields _, _, _, h => blames_record h fields.blames

theorem Fields.blames : {γ : Type} → (fs : Fields γ) → ∀ f ∈ fs.toList, ∀ w e,
    f.shape.read w = .error e → Blames (.shape f.shape) w e
  | _, .nil, _, hf, _, _, _ => by cases hf
  | _, .required _ s rest, f, hf, w, e, h => by
    rcases List.mem_cons.1 hf with rfl | hf
    · exact s.blames w e h
    · exact rest.blames f hf w e h
  | _, .defaulted _ s _ rest, f, hf, w, e, h => by
    rcases List.mem_cons.1 hf with rfl | hf
    · exact s.blames w e h
    · exact rest.blames f hf w e h

end

/-! ## Texts -/

/-- A text that is a value, with white space around it, says that value. -/
theorem Body.ofText_whole {v : Value} {body : List Char} {g : Gap} (h : Body v body g.chars) :
    Reading.ofText body = .whole v g.chars := by
  obtain ⟨before, cs, hcs, rfl⟩ := h
  have hskip : Skips start := by
    intro c hc
    simp only [start, State.step, hc, if_true]
  have hend : EndsNumber g.chars := by
    cases hg : g.chars with
    | nil => trivial
    | cons c more =>
      -- what comes after the first character does not matter
      have hspace := endsNumber_of_gap g (.inl rfl) []
      rw [hg] at hspace
      exact hspace
  rw [Reading.ofText, run_gap hskip]
  exact hcs.readsAs.run [] hend

theorem Shape.decode_of_whole {α : Type} {s : Shape α} {b : String} {v : Value} {g : Gap}
    (h : Body v b.toList g.chars) : s.decode b = s.read v := by
  rw [decode, h.ofText_whole]

theorem path_of_mapError {α : Type} {x : Except Fault α} {e : Failure}
    (h : x.mapError Failure.here = .error e) : e.path = [] := by
  cases x with
  | error f =>
    cases h
    rfl
  | ok a => cases h

/-- A value without parts fails at its own place. -/
theorem Shape.Plain.path {α : Type} {s : Shape α} (hs : s.Plain) {v : Value} {e : Failure}
    (h : s.read v = .error e) : e.path = [] := by
  unfold read at h
  cases s with
  | optional | list | choice | record => cases hs
  | whole =>
    dsimp only at h
    split at h
    · exact path_of_mapError h
    · cases h
      rfl
  | boolean =>
    dsimp only at h
    split at h
    · cases h
    · cases h
      rfl
  | text =>
    dsimp only at h
    split at h
    · exact path_of_mapError h
    · cases h
      rfl
  | formatted wanted parse =>
    dsimp only at h
    split at h
    · split at h
      · cases h
        rfl
      · rename_i t _
        cases hparse : parse t with
        | error m =>
          rw [hparse] at h
          cases h
          rfl
        | ok a =>
          rw [hparse] at h
          cases h
    · cases h
      rfl

/-- A value itself fails at its own place, unless the name of a member is no text. -/
theorem Declared.Own.place {d : Declared} {v : Value} {e : Failure} (own : d.Own v e) :
    e.path = [] ∨ e.path = [.unknown] ∧ ∃ ms n w, v = .object ms ∧ (n, w) ∈ ms ∧ n.text = .error e.fault := by
  induction own with
  | plain hs h => exact .inl (hs.path h)
  | optional _ _ ih => exact ih
  | noName hmem hn => exact .inr ⟨rfl, _, _, _, rfl, hmem, hn⟩
  | unit | noList | choice | noChoice | noRecord | missing | repeated | short | long => exact .inl rfl

end HeatWatch.Json

namespace HeatWatch

open Json (Body Declared Gap Path Shape)

/-! ## Responses -/

/-- Where `f` refuses a text that is one value, the path leads to a value for which something is declared,
and that value alone fails itself, for the same reason. Where the name of a member is no text, the path leads
to the object of that member, and has a mark for the name after that. The message is that of the reason,
wherever in the text it was noticed. -/
def Response.Locates {α β : Type} (r : Response β) (f : Positions → String → Except ParseError α) : Prop :=
  ∀ noticed b v (g : Gap) err, Body v b.toList g.chars → f noticed b = .error err →
    ∃ path d w fault position, (Declared.shape r.shape).At path d ∧ v.at? path = some w ∧
      err.what = r.what ∧ err.message = fault.report position ∧
      (err.path = Path.text path ∧ d.Fails w (.here fault) ∧ d.Own w (.here fault) ∨
        err.path = Path.text (path ++ [.unknown]) ∧ d.Fails w ⟨[.unknown], fault⟩ ∧
          ∃ ms n u, w = .object ms ∧ (n, u) ∈ ms ∧ n.text = .error fault)

theorem Response.locates {α β : Type} {r : Response β} {f : Positions → String → Except ParseError α}
    (h : ∀ noticed b err, f noticed b = .error err → r.decodeAt noticed b = .error err) : r.Locates f := by
  intro noticed b v g err hb hf
  have herr := h noticed b err hf
  unfold decodeAt at herr
  rw [Shape.decode_of_whole hb] at herr
  cases hread : r.shape.read v with
  | ok a =>
    rw [hread] at herr
    cases herr
  | error e =>
    rw [hread] at herr
    cases herr
    obtain @⟨path, d, w, ⟨tail, fault⟩, hd, hv, fails, own⟩ := r.shape.blames v e hread
    refine ⟨path, d, w, fault, noticed b _, hd, hv, rfl, rfl, ?_⟩
    rcases own.place with hhere | ⟨hname, ms, n, u, hw, hmem, hn⟩
    · -- the value fails at its own place, so the path of the failure is the path to it
      obtain rfl : tail = [] := hhere
      refine .inl ⟨?_, fails, own⟩
      exact congrArg Path.text (List.append_nil path)
    · obtain rfl : tail = [.unknown] := hname
      exact .inr ⟨rfl, fails, ms, n, u, hw, hmem, hn⟩

/-- Every response that is refused though its text is one value names the place of what is wrong, whatever
response it is. -/
theorem responses_locate_failures :
    Response.systems.Locates Response.systems.decodeAt ∧
      Response.system.Locates Response.system.decodeAt ∧
      Response.capabilities.Locates Response.capabilities.decodeAt ∧
      Response.categories.Locates Response.categories.decodeAt ∧
      Response.status.Locates Response.status.decodeAt ∧
      Response.software.Locates Response.software.decodeAt ∧
      Response.alarms.Locates decodeLatestAlarmAt ∧
      Response.parameters.Locates Response.parameters.decodeAt ∧
      Response.writes.Locates decodeWritesAt ∧
      Response.mode.Locates Response.mode.decodeAt := by
  have hsame : ∀ {α : Type} (r : Response α), r.Locates r.decodeAt := fun r => r.locates fun _ _ _ => id
  exact ⟨hsame _, hsame _, hsame _, hsame _, hsame _, hsame _,
    Response.locates fun _ _ _ => Json.map_eq_error, hsame _,
    Response.locates fun _ _ _ => Json.map_eq_error, hsame _⟩

/-- The name of a member that is half of a surrogate pair is no text, and the path has a mark for it that
leads to nothing. -/
theorem mark_without_place :
    let v : Json.Value := .list [.object [([.unit 0xD800], .number ⟨false, [0], [], none⟩)]]
    let b := "[\x7b\"\\ud800\":0\x7d]"
    Body v b.toList [] ∧
      Response.parameters.decode b =
        .error ⟨"parameters", "[0].?", "unexpected end of hex escape"⟩ ∧
      ∀ path w, v.at? path = some w → Path.text path ≠ "[0].?" := by
  intro v b
  have hprintable : v.Printable := by
    refine .list (List.forall_mem_singleton.2 (.object (List.forall_mem_singleton.2 ?_)
      (List.forall_mem_singleton.2 ?_)))
    · exact List.forall_mem_singleton.2 (show 0xD800 < 0x10000 by decide)
    · exact .number ⟨.inl rfl, nofun⟩
  have hprint : b.toList = v.print := by decide +kernel
  have hb : Body v b.toList [] := by
    refine Json.body_of_ofText ?_
    rw [hprint]
    exact Json.Reading.ofText_print hprintable
  refine ⟨hb, ?_, ?_⟩
  · rw [Response.decode, Response.decodeAt, Shape.decode_of_whole (g := .empty) hb]
    rfl
  · intro path w hw
    rcases path with _ | ⟨s, path⟩
    · decide +kernel
    · obtain ⟨o, ho, hw⟩ := Option.bind_eq_some_iff.1 hw
      cases s with
      | field | choice | unknown => cases ho
      | index i =>
        cases i with
        | succ => cases ho
        | zero =>
          cases ho
          rcases path with _ | ⟨s', path⟩
          · decide +kernel
          · -- the only member of the object has no name that a segment could have
            obtain ⟨u, hu, -⟩ := Option.bind_eq_some_iff.1 hw
            cases s' <;> cases hu

end HeatWatch
