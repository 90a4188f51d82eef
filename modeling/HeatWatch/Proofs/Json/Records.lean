import HeatWatch.Json.Shape

/-!
# What records are made of

A record is made of the values of its fields, each of which was read or is the one that stands for an
absent field, whether the record was written as an object or as a list. Main statements:

* `Shape.make_of_read`: a record that was read is made of such values;
* `Shape.read_of_decode`: so it is with a record that is the first value of a text.
-/

namespace HeatWatch.Json

/-- Each value is one that its field can have: it was read, or stands for an absent field. -/
def Fields.Has {γ : Type} : Fields γ → γ → Prop
  | .nil, _ => True
  | .required _ s rest, (a, g) => (∃ v, s.read v = .ok a) ∧ rest.Has g
  | .defaulted _ s absent rest, (a, g) => (a = absent ∨ ∃ v, s.read v = .ok a) ∧ rest.Has g

/-- What is made of a value that was read comes of one that was read with success. -/
theorem of_map_ok {ε α β : Type} {x : Except ε α} {g : α → β} {b : β} (h : g <$> x = .ok b) :
    ∃ a, x = .ok a ∧ g a = b := by
  cases x with
  | error => cases h
  | ok a => exact ⟨a, rfl, Except.ok.inj h⟩

theorem Fields.has_of_readItems {γ : Type} : (fs : Fields γ) → {wanted : String} → {i : Nat} →
    {items : List Value} → {g : γ} → fs.readItems wanted i items = .ok g → fs.Has g
  | .nil, _, _, _, _, _ => trivial
  | .required _ s rest, wanted, i, items, g, h => by
    cases items with
    | nil => cases h
    | cons v vs =>
      unfold readItems at h
      dsimp only at h
      cases hv : s.read v with
      | error f =>
        rw [hv] at h
        cases h
      | ok a =>
        rw [hv] at h
        obtain ⟨g', hg', rfl⟩ := of_map_ok h
        exact ⟨⟨v, hv⟩, rest.has_of_readItems hg'⟩
  | .defaulted _ s absent rest, wanted, i, items, g, h => by
    unfold readItems at h
    cases items with
    | nil =>
      obtain ⟨g', hg', rfl⟩ := of_map_ok h
      exact ⟨.inl rfl, rest.has_of_readItems hg'⟩
    | cons v vs =>
      dsimp only at h
      cases hv : s.read v with
      | error f =>
        rw [hv] at h
        cases h
      | ok a =>
        rw [hv] at h
        obtain ⟨g', hg', rfl⟩ := of_map_ok h
        exact ⟨.inr ⟨v, hv⟩, rest.has_of_readItems hg'⟩

theorem Fields.has_of_fill {γ : Type} : (fs : Fields γ) → {given : String → Option Value} → {g : γ} →
    fs.fill given = .ok g → fs.Has g
  | .nil, _, _, _ => trivial
  | .required name s rest, given, g, h => by
    unfold fill at h
    cases hgiven : given name with
    | none =>
      rw [hgiven] at h
      cases h
    | some v =>
      rw [hgiven] at h
      dsimp only at h
      cases hv : s.read v with
      | error f =>
        rw [hv] at h
        cases h
      | ok a =>
        rw [hv] at h
        obtain ⟨g', hg', rfl⟩ := of_map_ok h
        exact ⟨⟨v, hv⟩, rest.has_of_fill hg'⟩
  | .defaulted name s absent rest, given, g, h => by
    unfold fill at h
    cases hgiven : given name with
    | none =>
      rw [hgiven] at h
      obtain ⟨g', hg', rfl⟩ := of_map_ok h
      exact ⟨.inl rfl, rest.has_of_fill hg'⟩
    | some v =>
      rw [hgiven] at h
      dsimp only at h
      cases hv : s.read v with
      | error f =>
        rw [hv] at h
        cases h
      | ok a =>
        rw [hv] at h
        obtain ⟨g', hg', rfl⟩ := of_map_ok h
        exact ⟨.inr ⟨v, hv⟩, rest.has_of_fill hg'⟩

namespace Shape

/-- A record is made of values that its fields can have. -/
theorem make_of_read {γ α : Type} {name : String} {fields : Fields γ} {make : γ → α} {v : Value}
    {a : α} (h : (Shape.record name fields make).read v = .ok a) :
    ∃ g, fields.Has g ∧ make g = a := by
  unfold read at h
  cases v with
  | list items =>
    dsimp only at h
    cases hitems : fields.readItems (fields.wanted name) 0 items with
    | error f =>
      rw [hitems] at h
      cases h
    | ok g =>
      rw [hitems] at h
      dsimp only at h
      split at h
      · cases h
      · exact ⟨g, fields.has_of_readItems hitems, Except.ok.inj h⟩
  | object members =>
    dsimp only at h
    split at h
    · cases h
    · obtain ⟨g, hg, hmake⟩ := of_map_ok h
      exact ⟨g, fields.has_of_fill hg, hmake⟩
  | null | bool | number | string => cases h

/-- The items of a list were read. -/
theorem read_of_mem {α : Type} {s : Shape α} {v : Value} {as : List α} {a : α}
    (h : (Shape.list s).read v = .ok as) (ha : a ∈ as) : ∃ w, s.read w = .ok a := by
  have hitems : ∀ {items : List Value} {i : Nat} {as : List α},
      readItems (fun v => s.read v) i items = .ok as → a ∈ as → ∃ w, s.read w = .ok a := by
    intro items
    induction items with
    | nil =>
      intro i as h ha
      cases h
      cases ha
    | cons v vs ih =>
      intro i as h ha
      unfold readItems at h
      cases hv : s.read v with
      | error f =>
        rw [hv] at h
        cases h
      | ok b =>
        rw [hv] at h
        obtain ⟨bs, hbs, rfl⟩ := of_map_ok h
        rcases List.mem_cons.1 ha with rfl | hrest
        · exact ⟨v, hv⟩
        · exact ih hbs hrest
  unfold read at h
  cases v with
  | list items => exact hitems h ha
  | null | bool | number | string | object => cases h

/-- What a text holds was read from its first value. -/
theorem read_of_decode {α : Type} {s : Shape α} {text : String} {a : α} (h : s.decode text = .ok a) :
    ∃ v, s.read v = .ok a := by
  unfold decode at h
  split at h
  case h_1 v _ _ => exact ⟨v, h⟩
  case h_2 => cases h

end Shape

end HeatWatch.Json
