import HeatWatch.Proofs.Json.Records

/-!
# What the members of an object say

An object is read as a record by its members, in the order of the text. Here it is said without an
order: a member gives the value of the field that it names, no field is given twice, and a field that
no member gives is absent. Main statements:

* `membersTrouble_eq_none`: when there is nothing wrong with the members;
* `Shape.read_object_iff`: what an object is read as.
-/

namespace HeatWatch.Json

/-! ## Fields -/

/-- A field of a record, and what stands for an absent one if it can be absent. -/
structure Field where
  type : Type
  name : String
  shape : Shape type
  absent : Option type

/-- The fields of a record in the order of their declaration. -/
def Fields.toList {γ : Type} : Fields γ → List Field
  | .nil => []
  | .required name s rest => ⟨_, name, s, none⟩ :: rest.toList
  | .defaulted name s absent rest => ⟨_, name, s, some absent⟩ :: rest.toList

theorem Fields.names_eq {γ : Type} : (fs : Fields γ) → fs.names = fs.toList.map (·.name)
  | .nil => rfl
  | .required name _ rest => congrArg (name :: ·) rest.names_eq
  | .defaulted name _ _ rest => congrArg (name :: ·) rest.names_eq

/-! ## Objects -/

/-- A member of the name gives the value. -/
def Gives (ms : List Member) (name : String) (v : Value) : Prop :=
  ∃ n, (n, v) ∈ ms ∧ n.text = .ok name

/-- The names of the members are texts, and none of these fields is given twice. -/
structure Named (names : List String) (ms : List Member) : Prop where
  texts : ∀ m ∈ ms, ∃ t, m.1.text = .ok t
  once : ms.Pairwise fun m m' => ∀ t ∈ names, m.1.text = .ok t → m'.1.text ≠ .ok t

/-- What the members say a field is. -/
def Field.FilledBy (f : Field) (ms : List Member) (a : f.type) : Prop :=
  (∃ v, Gives ms f.name v ∧ f.shape.read v = .ok a) ∨
    (∀ v, ¬ Gives ms f.name v) ∧ f.absent = some a

/-- What the members say the fields are. -/
def Fields.FilledBy {γ : Type} : Fields γ → List Member → γ → Prop
  | .nil, _, _ => True
  | .required name s rest, ms, (a, g) =>
    Field.FilledBy ⟨_, name, s, none⟩ ms a ∧ rest.FilledBy ms g
  | .defaulted name s absent rest, ms, (a, g) =>
    Field.FilledBy ⟨_, name, s, some absent⟩ ms a ∧ rest.FilledBy ms g

section

variable {names : List String} {ms : List Member} {n : Quoted} {name t : String} {v w : Value}

theorem gives_cons : Gives ((n, w) :: ms) t v ↔ n.text = .ok t ∧ v = w ∨ Gives ms t v := by
  constructor
  · rintro ⟨n', hmem, ht⟩
    rcases List.mem_cons.1 hmem with heq | hmem
    · cases heq
      exact .inl ⟨ht, rfl⟩
    · exact .inr ⟨n', hmem, ht⟩
  · rintro (⟨ht, rfl⟩ | ⟨n', hmem, ht⟩)
    · exact ⟨n, List.mem_cons_self, ht⟩
    · exact ⟨n', .tail _ hmem, ht⟩

theorem named_nil : Named names [] := ⟨nofun, List.Pairwise.nil⟩

theorem named_cons : Named names ((n, v) :: ms) ↔
    (∃ t, n.text = .ok t ∧ (t ∈ names → ∀ w, ¬ Gives ms t w)) ∧ Named names ms := by
  constructor
  · rintro ⟨htexts, honce⟩
    obtain ⟨hfirst, hrest⟩ := List.pairwise_cons.1 honce
    obtain ⟨t, ht⟩ := htexts (n, v) List.mem_cons_self
    refine ⟨⟨t, ht, ?_⟩, fun m hm => htexts m (.tail _ hm), hrest⟩
    rintro hknown w ⟨n', hmem, ht'⟩
    exact hfirst (n', w) hmem t hknown ht ht'
  · rintro ⟨⟨t, ht, hfresh⟩, htexts, honce⟩
    refine ⟨fun m hm => ?_, List.pairwise_cons.2 ⟨?_, honce⟩⟩
    · rcases List.mem_cons.1 hm with rfl | hm
      · exact ⟨t, ht⟩
      · exact htexts m hm
    · rintro ⟨n', w⟩ hm t' hknown ht' hsame
      obtain rfl : t = t' := Except.ok.inj (ht.symm.trans ht')
      exact hfresh hknown w ⟨n', hm, hsame⟩

/-- A field is given one value. -/
theorem Named.unique (h : Named names ms) (ht : t ∈ names) (hv : Gives ms t v) (hw : Gives ms t w) :
    v = w := by
  induction ms with
  | nil =>
    obtain ⟨n, hmem, -⟩ := hv
    cases hmem
  | cons m ms ih =>
    obtain ⟨⟨t', ht', hfresh⟩, hms⟩ := named_cons.1 h
    rcases gives_cons.1 hv with ⟨hn, rfl⟩ | hv' <;> rcases gives_cons.1 hw with ⟨hn', rfl⟩ | hw'
    · rfl
    · obtain rfl : t' = t := Except.ok.inj (ht'.symm.trans hn)
      exact absurd hw' (hfresh ht w)
    · obtain rfl : t' = t := Except.ok.inj (ht'.symm.trans hn')
      exact absurd hv' (hfresh ht v)
    · exact ih hms hv' hw'

/-- There is nothing wrong with members whose names are in order and whose values can be read. -/
theorem membersTrouble_eq_none {trouble : String → Value → Option Failure} {seen : List String} :
    membersTrouble names trouble seen ms = none ↔ Named names ms ∧
      ∀ t ∈ names, ∀ v, Gives ms t v → t ∉ seen ∧ trouble t v = none := by
  induction ms generalizing seen with
  | nil =>
    refine ⟨fun _ => ⟨named_nil, ?_⟩, fun _ => rfl⟩
    rintro t - v ⟨n, hmem, -⟩
    cases hmem
  | cons m ms ih =>
    obtain ⟨n, v⟩ := m
    unfold membersTrouble
    rw [named_cons]
    simp only [gives_cons]
    cases hn : n.text with
    | error f => simp
    | ok t =>
      by_cases hknown : t ∈ names
      · by_cases hseen : t ∈ seen
        · simp only [List.contains_iff_mem, hknown, hseen, if_true]
          refine ⟨nofun, fun h => ?_⟩
          exact absurd hseen (h.2 t hknown v (.inl ⟨rfl, rfl⟩)).1
        · simp only [List.contains_iff_mem, hknown, hseen, if_true, if_false]
          cases htrouble : trouble t v with
          | some e =>
            refine ⟨nofun, fun h => ?_⟩
            cases htrouble.symm.trans (h.2 t hknown v (.inl ⟨rfl, rfl⟩)).2
          | none =>
            rw [ih]
            grind
      · simp only [List.contains_iff_mem, hknown, if_false]
        rw [ih]
        grind

theorem gives_of_memberNamed? (h : memberNamed? ms t = some v) : Gives ms t v := by
  obtain ⟨m, hm, rfl⟩ := Option.map_eq_some_iff.1 h
  refine ⟨m.1, List.mem_of_find?_eq_some hm, ?_⟩
  have htext : m.1.text.toOption = some t := by simpa using List.find?_some hm
  cases hn : m.1.text with
  | error f =>
    rw [hn] at htext
    cases htext
  | ok t' =>
    rw [hn] at htext
    cases htext
    rfl

theorem memberNamed?_eq_some (h : Named names ms) (ht : t ∈ names) :
    memberNamed? ms t = some v ↔ Gives ms t v := by
  refine ⟨gives_of_memberNamed?, fun hv => ?_⟩
  cases hfound : memberNamed? ms t with
  | some w => rw [h.unique ht (gives_of_memberNamed? hfound) hv]
  | none =>
    obtain ⟨n, hmem, hn⟩ := hv
    have hnone := List.find?_eq_none.1 (Option.map_eq_none_iff.1 hfound) (n, v) hmem
    rw [hn] at hnone
    exact absurd (beq_self_eq_true _) hnone

theorem Field.filledBy_of_absent {f : Field} {a : f.type} (h : ∀ v, ¬ Gives ms f.name v) :
    f.FilledBy ms a ↔ f.absent = some a := by
  constructor
  · rintro (⟨v, hv, -⟩ | ⟨-, ha⟩)
    · exact absurd hv (h v)
    · exact ha
  · exact fun ha => .inr ⟨h, ha⟩

theorem Field.filledBy_of_given {f : Field} {a : f.type} (h : ∀ w, Gives ms f.name w ↔ w = v) :
    f.FilledBy ms a ↔ f.shape.read v = .ok a := by
  have hv : Gives ms f.name v := (h v).2 rfl
  constructor
  · rintro (⟨w, hw, hread⟩ | ⟨hnone, -⟩)
    · rwa [← (h w).1 hw]
    · exact absurd hv (hnone v)
  · exact fun hread => .inl ⟨v, hv, hread⟩

theorem Field.filledBy_iff {f : Field} {a : f.type} {given : Option Value} :
    (∀ v, given = some v ↔ Gives ms f.name v) → (f.FilledBy ms a ↔
      match given with
      | none => f.absent = some a
      | some v => f.shape.read v = .ok a) := by
  intro h
  cases given with
  | none => exact filledBy_of_absent fun v hv => nomatch (h v).2 hv
  | some v =>
    refine filledBy_of_given fun w => ?_
    rw [← h, Option.some_inj, eq_comm]

theorem map_pair_eq_ok {ε α β : Type} {x : Except ε β} {a a' : α} {b : β} :
    (a', ·) <$> x = .ok (a, b) ↔ a' = a ∧ x = .ok b := by
  cases x with
  | error e => exact ⟨nofun, nofun⟩
  | ok b' =>
    constructor
    · intro h
      cases h
      exact ⟨rfl, rfl⟩
    · rintro ⟨rfl, h⟩
      cases h
      rfl

theorem Fields.fill_eq_ok {γ : Type} {given : String → Option Value} : (fs : Fields γ) → {g : γ} →
    (∀ t ∈ fs.names, ∀ v, given t = some v ↔ Gives ms t v) →
    (fs.fill given = .ok g ↔ fs.FilledBy ms g)
  | .nil, _, _ => ⟨fun _ => trivial, fun _ => rfl⟩
  | .required name s rest, (a, g), h => by
    unfold fill FilledBy
    rw [Field.filledBy_iff (h name List.mem_cons_self),
      ← rest.fill_eq_ok fun t ht => h t (.tail name ht)]
    cases given name with
    | none => simp
    | some v => cases hv : s.read v <;> simp [hv, map_pair_eq_ok]
  | .defaulted name s absent rest, (a, g), h => by
    unfold fill FilledBy
    rw [Field.filledBy_iff (h name List.mem_cons_self),
      ← rest.fill_eq_ok fun t ht => h t (.tail name ht)]
    cases given name with
    | none => simp [map_pair_eq_ok]
    | some v => cases hv : s.read v <;> simp [hv, map_pair_eq_ok]

/-- There is nothing wrong with the value of a field that could be filled. -/
theorem Fields.trouble_eq_none {γ : Type} : (fs : Fields γ) → {g : γ} → fs.FilledBy ms g →
    t ∈ fs.names → (∀ w, Gives ms t w ↔ w = v) → fs.trouble t v = none
  | .nil, _, _, ht, _ => by cases ht
  | .required name s rest, (a, g), hfilled, ht, hv => by
    unfold trouble
    split
    case isTrue heq =>
      subst heq
      have hread : s.read v = .ok a := (Field.filledBy_of_given hv).1 hfilled.1
      rw [hread]
    case isFalse hne =>
      exact rest.trouble_eq_none hfilled.2 ((List.mem_cons.1 ht).resolve_left hne) hv
  | .defaulted name s absent rest, (a, g), hfilled, ht, hv => by
    unfold trouble
    split
    case isTrue heq =>
      subst heq
      have hread : s.read v = .ok a := (Field.filledBy_of_given hv).1 hfilled.1
      rw [hread]
    case isFalse hne =>
      exact rest.trouble_eq_none hfilled.2 ((List.mem_cons.1 ht).resolve_left hne) hv

/-- What an object is read as, whatever the order of its members. -/
theorem Shape.read_object_iff {γ α : Type} {fields : Fields γ} {make : γ → α} {a : α} :
    (Shape.record name fields make).read (.object ms) = .ok a ↔
      Named fields.names ms ∧ ∃ g, fields.FilledBy ms g ∧ make g = a := by
  have hfill : Named fields.names ms → ∀ {g}, fields.fill (memberNamed? ms) = .ok g ↔
      fields.FilledBy ms g :=
    fun h => fields.fill_eq_ok fun t ht v => memberNamed?_eq_some h ht
  unfold read
  dsimp only
  constructor
  · intro h
    split at h
    case h_1 => cases h
    case h_2 hnone =>
      obtain ⟨hnamed, -⟩ := membersTrouble_eq_none.1 hnone
      obtain ⟨g, hg, rfl⟩ := of_map_ok h
      exact ⟨hnamed, g, (hfill hnamed).1 hg, rfl⟩
  · rintro ⟨hnamed, g, hg, rfl⟩
    have hnone : membersTrouble fields.names (fun n v => fields.trouble n v) [] ms = none := by
      refine membersTrouble_eq_none.2 ⟨hnamed, fun t ht v hv => ⟨nofun, ?_⟩⟩
      refine fields.trouble_eq_none hg ht fun w => ⟨fun hw => hnamed.unique ht hw hv, ?_⟩
      rintro rfl
      exact hv
    simp only [hnone, (hfill hnamed).2 hg]
    rfl

end

end HeatWatch.Json
