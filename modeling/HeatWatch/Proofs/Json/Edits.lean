import HeatWatch.Proofs.Json.Derivations
import HeatWatch.Proofs.Json.Members
import HeatWatch.Proofs.Json.Printing
import Mathlib.Logic.Relation

/-!
# Edits of a text that change nothing

A record is known by its fields: neither the order of its members nor members that are no fields
matter, nor does it matter whether a field that can be null is null or absent. Main statements:

* `Shape.Edit`: the edits of a value, at any depth;
* `Shape.Edit.agree`: an edit does not change what is read;
* `responses_depend_on_fields`: so it is with the texts of all responses.
-/

namespace HeatWatch.Json

/-! ## Edits -/

/-- The field can be null, which means the same as if it was absent. -/
inductive Field.Nullable : Field → Prop where
  | intro {α : Type} (name : String) (s : Shape α) :
      Field.Nullable ⟨Option α, name, .optional s, some none⟩

/-- The edits of a value that a shape reads: the members of a record change their order, a member that
is no field of it comes in, a field that is absent becomes null, or a part of the value is edited.
Every edit can be undone. -/
inductive Shape.Edit : {α : Type} → Shape α → Value → Value → Prop where
  | permute {γ α : Type} {name : String} {fields : Fields γ} {make : γ → α} {ms ms' : List Member}
      (h : ms.Perm ms') : Edit (.record name fields make) (.object ms) (.object ms')
  | add {γ α : Type} {name : String} {fields : Fields γ} {make : γ → α} {n : Quoted} {t : String}
      (text : n.text = .ok t) (unknown : t ∉ fields.names) (v : Value) (before after : List Member) :
      Edit (.record name fields make) (.object (before ++ after))
        (.object (before ++ (n, v) :: after))
  | null {γ α : Type} {name : String} {fields : Fields γ} {make : γ → α} {n : Quoted} {t : String}
      (text : n.text = .ok t) (known : t ∈ fields.names)
      (nullable : ∀ f ∈ fields.toList, f.name = t → f.Nullable) {before after : List Member}
      (absent : ∀ m ∈ before ++ after, m.1.text ≠ .ok t) :
      Edit (.record name fields make) (.object (before ++ after))
        (.object (before ++ (n, .null) :: after))
  | nullItem {γ α : Type} {name : String} {fields : Fields γ} {make : γ → α} {items : List Value}
      {f : Field} (field : fields.toList[items.length]? = some f) (nullable : f.Nullable) :
      Edit (.record name fields make) (.list items) (.list (items ++ [.null]))
  | member {γ α : Type} {name : String} {fields : Fields γ} {make : γ → α} {n : Quoted} {t : String}
      {v w : Value} (text : n.text = .ok t) (known : t ∈ fields.names)
      (value : ∀ f ∈ fields.toList, f.name = t → Edit f.shape v w) (before after : List Member) :
      Edit (.record name fields make) (.object (before ++ (n, v) :: after))
        (.object (before ++ (n, w) :: after))
  | memberItem {γ α : Type} {name : String} {fields : Fields γ} {make : γ → α} {f : Field}
      {v w : Value} (before after : List Value) (field : fields.toList[before.length]? = some f)
      (value : Edit f.shape v w) :
      Edit (.record name fields make) (.list (before ++ v :: after)) (.list (before ++ w :: after))
  | item {α : Type} {s : Shape α} {v w : Value} (value : Edit s v w) (before after : List Value) :
      Edit (.list s) (.list (before ++ v :: after)) (.list (before ++ w :: after))
  | optional {α : Type} {s : Shape α} {v w : Value} (value : Edit s v w) : Edit (.optional s) v w
  | undo {α : Type} {s : Shape α} {v w : Value} (value : Edit s v w) : Edit s w v

theorem Shape.Edit.bracketed {α : Type} {s : Shape α} {v w : Value} (h : s.Edit v w) :
    v.Bracketed ∧ w.Bracketed := by
  induction h with
  | permute | add | null | nullItem | member | memberItem | item => exact ⟨trivial, trivial⟩
  | optional _ ih => exact ih
  | undo _ ih => exact ih.symm

/-! ## Agreement -/

/-- The two give the same value, if they give one. -/
def Agree {ε α : Type} (x y : Except ε α) : Prop := ∀ a, x = .ok a ↔ y = .ok a

namespace Agree

variable {ε α β : Type} {x y : Except ε α}

theorem refl (x : Except ε α) : Agree x x := fun _ => Iff.rfl

theorem error (e e' : ε) : Agree (.error e : Except ε α) (.error e') := fun _ => ⟨nofun, nofun⟩

theorem symm (h : Agree x y) : Agree y x := fun a => (h a).symm

theorem trans {z : Except ε α} (h : Agree x y) (h' : Agree y z) : Agree x z :=
  fun a => (h a).trans (h' a)

theorem cases (h : Agree x y) :
    (∃ e e', x = .error e ∧ y = .error e') ∨ ∃ a, x = .ok a ∧ y = .ok a := by
  cases x with
  | ok a => exact .inr ⟨a, rfl, (h a).1 rfl⟩
  | error e =>
    cases y with
    | ok a => cases (h a).2 rfl
    | error e' => exact .inl ⟨e, e', rfl, rfl⟩

theorem map (g : α → β) (h : Agree x y) : Agree (g <$> x) (g <$> y) := by
  rcases h.cases with ⟨e, e', rfl, rfl⟩ | ⟨a, rfl, rfl⟩
  · exact .error e e'
  · exact .refl _

end Agree

/-! ## Lists -/

/-- One part after the other, where both agree. -/
theorem agree_seq {α β γ : Type} {x y : Except Failure α} {k l : Except Failure β} (place : Segment)
    (f : α → β → γ) : Agree x y → Agree k l → Agree
      (match x with
        | .error e => .error (e.under place)
        | .ok a => f a <$> k)
      (match y with
        | .error e => .error (e.under place)
        | .ok a => f a <$> l) := by
  intro h hrest
  rcases h.cases with ⟨e, e', rfl, rfl⟩ | ⟨a, rfl, rfl⟩
  · exact .error _ _
  · exact hrest.map (f a)

theorem agree_readItems {α : Type} {read : Value → Except Failure α} {v w : Value}
    (h : Agree (read v) (read w)) (before after : List Value) (i : Nat) :
    Agree (readItems read i (before ++ v :: after)) (readItems read i (before ++ w :: after)) := by
  induction before generalizing i with
  | nil => exact agree_seq (.index i) _ h (.refl _)
  | cons u before ih => exact agree_seq (.index i) _ (.refl (read u)) (ih (i + 1))

namespace Fields

/-- The value of one field of a list of them. -/
theorem agree_readItems_at {γ : Type} : (fs : Fields γ) → {wanted : String} → {i : Nat} → {f : Field} →
    {v w : Value} → (before after : List Value) → fs.toList[before.length]? = some f →
    Agree (f.shape.read v) (f.shape.read w) →
    Agree (fs.readItems wanted i (before ++ v :: after)) (fs.readItems wanted i (before ++ w :: after))
  | .nil, _, _, _, _, _, _, _, hf, _ => by cases hf
  | .required name s rest, wanted, i, f, v, w, before, after, hf, h => by
    cases before with
    | nil =>
      cases hf
      exact agree_seq (.index i) Prod.mk h (.refl _)
    | cons u before =>
      exact agree_seq (.index i) Prod.mk (.refl (s.read u)) (rest.agree_readItems_at before after hf h)
  | .defaulted name s absent rest, wanted, i, f, v, w, before, after, hf, h => by
    cases before with
    | nil =>
      cases hf
      exact agree_seq (.index i) Prod.mk h (.refl _)
    | cons u before =>
      exact agree_seq (.index i) Prod.mk (.refl (s.read u)) (rest.agree_readItems_at before after hf h)

/-- Null in the place of a field that is absent. -/
theorem agree_readItems_null {γ : Type} : (fs : Fields γ) → {wanted : String} → {i : Nat} →
    {f : Field} → (items : List Value) → fs.toList[items.length]? = some f → f.Nullable →
    Agree (fs.readItems wanted i items) (fs.readItems wanted i (items ++ [.null]))
  | .nil, _, _, _, _, hf, _ => by cases hf
  | .required name s rest, wanted, i, f, items, hf, h => by
    cases items with
    | nil =>
      cases hf
      cases h
    | cons u items =>
      exact agree_seq (.index i) Prod.mk (.refl (s.read u)) (rest.agree_readItems_null items hf h)
  | .defaulted name s absent rest, wanted, i, f, items, hf, h => by
    cases items with
    | nil =>
      cases hf
      cases h
      exact .refl _
    | cons u items =>
      exact agree_seq (.index i) Prod.mk (.refl (s.read u)) (rest.agree_readItems_null items hf h)

end Fields

/-! ## Edits of objects -/

section

variable {names : List String} {ms ms' : List Member} {n : Quoted} {name t : String} {v w : Value}

theorem Field.filledBy_congr {f : Field} {a : f.type}
    (h : ∀ v, Gives ms f.name v ↔ Gives ms' f.name v) : f.FilledBy ms a ↔ f.FilledBy ms' a := by
  unfold FilledBy
  simp only [h]

theorem Fields.filledBy_congr {γ : Type} : (fs : Fields γ) →
    (∀ f ∈ fs.toList, ∀ a, f.FilledBy ms a ↔ f.FilledBy ms' a) → ∀ {g : γ},
    fs.FilledBy ms g ↔ fs.FilledBy ms' g
  | .nil, _, _ => Iff.rfl
  | .required _ _ rest, h, (a, _) =>
    and_congr (h _ List.mem_cons_self a) (rest.filledBy_congr fun f hf => h f (.tail _ hf))
  | .defaulted _ _ _ rest, h, (a, _) =>
    and_congr (h _ List.mem_cons_self a) (rest.filledBy_congr fun f hf => h f (.tail _ hf))

variable {γ α : Type} {fields : Fields γ} {make : γ → α}

/-- Objects agree if they fill each field the same. -/
theorem agree_object (hnamed : Named fields.names ms ↔ Named fields.names ms')
    (hfields : Named fields.names ms →
      ∀ f ∈ fields.toList, ∀ a, f.FilledBy ms a ↔ f.FilledBy ms' a) :
    Agree ((Shape.record name fields make).read (.object ms))
      ((Shape.record name fields make).read (.object ms')) := by
  intro a
  rw [Shape.read_object_iff, Shape.read_object_iff, ← hnamed]
  exact and_congr_right fun h => exists_congr fun g =>
    and_congr_left fun _ => fields.filledBy_congr (hfields h)

theorem named_perm (h : ms.Perm ms') (hms : Named names ms) : Named names ms' where
  texts m hm := hms.texts m (h.mem_iff.2 hm)
  once := by
    refine (h.pairwise_iff ?_).1 hms.once
    exact fun hne t ht hm' hm => hne t ht hm hm'

/-- The members of a record can stand in any order. -/
theorem agree_permute (h : ms.Perm ms') : Agree ((Shape.record name fields make).read (.object ms))
    ((Shape.record name fields make).read (.object ms')) := by
  refine agree_object ⟨named_perm h, named_perm h.symm⟩ fun _ f _ a => Field.filledBy_congr fun v => ?_
  exact exists_congr fun n => and_congr_left fun _ => h.mem_iff

/-- A member that is no field can come in. -/
theorem agree_add (hn : n.text = .ok t) (ht : t ∉ fields.names) :
    Agree ((Shape.record name fields make).read (.object ms))
      ((Shape.record name fields make).read (.object ((n, v) :: ms))) := by
  refine agree_object ?_ fun _ f hf a => Field.filledBy_congr fun w => ?_
  · rw [named_cons]
    exact ⟨fun h => ⟨⟨t, hn, fun hknown => absurd hknown ht⟩, h⟩, And.right⟩
  · rw [gives_cons]
    refine ⟨.inr, fun h => h.resolve_left ?_⟩
    rintro ⟨hn', -⟩
    obtain rfl : t = f.name := Except.ok.inj (hn.symm.trans hn')
    rw [fields.names_eq] at ht
    exact ht (List.mem_map_of_mem hf)

/-- Null can stand for a field that is absent. -/
theorem agree_null (hn : n.text = .ok t) (hnull : ∀ f ∈ fields.toList, f.name = t → f.Nullable)
    (habsent : ∀ v, ¬ Gives ms t v) : Agree ((Shape.record name fields make).read (.object ms))
      ((Shape.record name fields make).read (.object ((n, .null) :: ms))) := by
  refine agree_object ?_ fun _ f hf a => ?_
  · rw [named_cons]
    exact ⟨fun h => ⟨⟨t, hn, fun _ => habsent⟩, h⟩, And.right⟩
  · by_cases hname : f.name = t
    · -- it means the same that the field is absent and that it is null
      have hnow : ∀ w, Gives ((n, .null) :: ms) f.name w ↔ w = .null := by
        intro w
        rw [gives_cons, hname]
        exact ⟨fun h => (h.resolve_right (habsent w)).2, fun h => .inl ⟨hn, h⟩⟩
      rw [Field.filledBy_of_absent (hname ▸ habsent), Field.filledBy_of_given hnow]
      obtain ⟨fname, s⟩ := hnull f hf hname
      simp [Shape.read]
    · refine Field.filledBy_congr fun w => ?_
      rw [gives_cons]
      refine ⟨.inr, fun h => h.resolve_left ?_⟩
      rintro ⟨hn', -⟩
      exact hname (Except.ok.inj (hn'.symm.trans hn))

/-- The value of a field can be edited. -/
theorem agree_member (hn : n.text = .ok t) (ht : t ∈ fields.names)
    (h : ∀ f ∈ fields.toList, f.name = t → Agree (f.shape.read v) (f.shape.read w)) :
    Agree ((Shape.record name fields make).read (.object ((n, v) :: ms)))
      ((Shape.record name fields make).read (.object ((n, w) :: ms))) := by
  refine agree_object (by rw [named_cons, named_cons]) fun hnamed f hf a => ?_
  by_cases hname : f.name = t
  · obtain ⟨⟨t', ht', hfresh⟩, -⟩ := named_cons.1 hnamed
    obtain rfl : t = t' := Except.ok.inj (hn.symm.trans ht')
    have hgiven : ∀ v u, Gives ((n, v) :: ms) f.name u ↔ u = v := by
      intro v u
      rw [gives_cons, hname]
      exact ⟨fun h => (h.resolve_right (hfresh ht u)).2, fun h => .inl ⟨hn, h⟩⟩
    rw [Field.filledBy_of_given (hgiven v), Field.filledBy_of_given (hgiven w)]
    exact h f hf hname a
  · refine Field.filledBy_congr fun u => ?_
    have hother : ¬ (n.text = .ok f.name) := fun hn' => hname (Except.ok.inj (hn'.symm.trans hn))
    simp only [gives_cons, hother, false_and]

/-- Two lists of the values of fields. -/
theorem agree_record_list {items items' : List Value}
    (h : Agree (fields.readItems (fields.wanted name) 0 items)
      (fields.readItems (fields.wanted name) 0 items'))
    (hlength : items.length > fields.names.length ↔ items'.length > fields.names.length) :
    Agree ((Shape.record name fields make).read (.list items))
      ((Shape.record name fields make).read (.list items')) := by
  unfold Shape.read
  dsimp only
  rcases h.cases with ⟨e, e', hx, hy⟩ | ⟨g, hx, hy⟩
  · rw [hx, hy]
    exact .error e e'
  · rw [hx, hy]
    simp only [hlength]
    exact .refl _

end

theorem Value.Bracketed.ne_null {v : Value} (hv : v.Bracketed) : v ≠ .null := by
  rintro rfl
  cases hv

theorem Shape.read_optional {α : Type} {s : Shape α} {v : Value} (hv : v ≠ .null) :
    (Shape.optional s).read v = some <$> s.read v := by
  cases v with
  | null => exact absurd rfl hv
  | bool | number | string | list | object => rfl

/-- An edit does not change what is read. -/
theorem Shape.Edit.agree {α : Type} {s : Shape α} {v w : Value} (h : s.Edit v w) :
    Agree (s.read v) (s.read w) := by
  induction h with
  | permute h => exact agree_permute h
  | add text unknown v before after =>
    exact (agree_add text unknown).trans (agree_permute List.perm_middle.symm)
  | @null _ _ _ _ _ _ _ text known nullable before after absent =>
    refine (agree_null text nullable ?_).trans (agree_permute List.perm_middle.symm)
    rintro v ⟨n, hmem, hn⟩
    exact absent (n, v) hmem hn
  | @nullItem _ _ _ _ _ items f field nullable =>
    refine agree_record_list (Fields.agree_readItems_null _ items field nullable) ?_
    -- there is a field for the new item
    obtain ⟨hlength, -⟩ := List.getElem?_eq_some_iff.1 field
    rw [Fields.names_eq, List.length_map, List.length_append, List.length_singleton]
    omega
  | member text known _ before after ih =>
    exact ((agree_permute List.perm_middle).trans (agree_member text known ih)).trans
      (agree_permute List.perm_middle.symm)
  | memberItem before after field _ ih =>
    refine agree_record_list (Fields.agree_readItems_at _ before after field ih) ?_
    simp only [List.length_append, List.length_cons]
  | item _ before after ih => exact agree_readItems ih before after 0
  | optional value ih =>
    rw [read_optional value.bracketed.1.ne_null, read_optional value.bracketed.2.ne_null]
    exact ih.map some
  | undo _ ih => exact ih.symm

/-! ## Edits of texts -/

/-- One edit of a text: the value is written in another way, with other white space between its
tokens, or the value is edited. What follows the value stays. -/
def Shape.TextEdit {α : Type} (s : Shape α) (b b' : String) : Prop :=
  ∃ v w rest, v.Bracketed ∧ Body v b.toList rest ∧ Body w b'.toList rest ∧ (w = v ∨ s.Edit v w)

theorem Shape.decode_of_body {α : Type} {s : Shape α} {b : String} {v : Value} {rest : List Char}
    (h : Body v b.toList rest) (hv : v.Bracketed) : s.decode b = s.read v := by
  rw [decode, h.ofText hv]

theorem Shape.TextEdit.agree {α : Type} {s : Shape α} {b b' : String} (h : s.TextEdit b b') :
    Agree (s.decode b) (s.decode b') := by
  obtain ⟨v, w, rest, hv, hb, hb', rfl | hedit⟩ := h
  · rw [decode_of_body hb hv, decode_of_body hb' hv]
    exact .refl _
  · rw [decode_of_body hb hv, decode_of_body hb' hedit.bracketed.2]
    exact hedit.agree

/-- The texts that `f` accepts are texts of lists and objects, and give the same however they are
edited, as long as what the shape reads stays. -/
def DependsOnFields {ε α β : Type} (s : Shape β) (f : String → Except ε α) : Prop :=
  ∀ b a, f b = .ok a → (∃ v rest, v.Bracketed ∧ Body v b.toList rest) ∧
    ∀ b', Relation.ReflTransGen s.TextEdit b b' → f b' = .ok a

theorem dependsOnFields {ε α β : Type} {s : Shape β} {f : String → Except ε α} (hs : s.Bracketed)
    (g : β → α) (hf : ∀ b a, f b = .ok a ↔ ∃ c, s.decode b = .ok c ∧ g c = a) :
    DependsOnFields s f := by
  intro b a hb
  obtain ⟨c, hc, rfl⟩ := (hf b a).1 hb
  constructor
  · unfold Shape.decode at hc
    split at hc
    case h_1 v rest hread => exact ⟨v, rest, hs hc, body_of_ofText hread⟩
    case h_2 => cases hc
  · intro b' hedits
    have hagree : Agree (s.decode b) (s.decode b') := by
      induction hedits with
      | refl => exact .refl _
      | tail _ hedit ih => exact ih.trans hedit.agree
    exact (hf b' _).2 ⟨c, (hagree c).1 hc, rfl⟩

end HeatWatch.Json

namespace HeatWatch

open Json (DependsOnFields Shape Body)

/-! ## Responses -/

theorem Response.decode_eq_ok {α : Type} {r : Response α} {b : String} {a : α} :
    r.decode b = .ok a ↔ r.shape.decode b = .ok a := by
  unfold decode decodeAt
  cases r.shape.decode b with
  | error e => exact ⟨nofun, nofun⟩
  | ok a' => exact ⟨fun h => congrArg _ (Except.ok.inj h), fun h => congrArg _ (Except.ok.inj h)⟩

theorem Response.dependsOnFields {α : Type} {r : Response α} (h : r.shape.Bracketed) :
    DependsOnFields r.shape r.decode :=
  Json.dependsOnFields h id fun b a => by simp [decode_eq_ok]

theorem Response.dependsOnFields_map {α β : Type} {r : Response α} (h : r.shape.Bracketed)
    (g : α → β) : DependsOnFields r.shape fun b => g <$> r.decode b :=
  Json.dependsOnFields h g fun b a => by
    simp only [← decode_eq_ok]
    exact ⟨Json.of_map_ok, fun ⟨c, hc, hg⟩ => by rw [hc, ← hg]; rfl⟩

/-- Every response depends on its fields only: the white space between its tokens, the order of the
members in a record, members that are no fields, and null in the place of a field that is absent do
not matter, whatever response it is. -/
theorem responses_depend_on_fields :
    DependsOnFields Response.systems.shape Response.systems.decode ∧
      DependsOnFields Response.system.shape Response.system.decode ∧
      DependsOnFields Response.capabilities.shape Response.capabilities.decode ∧
      DependsOnFields Response.categories.shape Response.categories.decode ∧
      DependsOnFields Response.status.shape Response.status.decode ∧
      DependsOnFields Response.software.shape Response.software.decode ∧
      DependsOnFields Response.alarms.shape decodeLatestAlarm ∧
      DependsOnFields Response.parameters.shape Response.parameters.decode ∧
      DependsOnFields Response.writes.shape decodeWrites ∧
      DependsOnFields Response.mode.shape Response.mode.decode := by
  open Json.Shape Response in
  exact ⟨dependsOnFields (bracketed_record ..), dependsOnFields (bracketed_record ..),
    dependsOnFields (bracketed_record ..), dependsOnFields (bracketed_list _),
    dependsOnFields (bracketed_list _), dependsOnFields (bracketed_record ..),
    dependsOnFields_map (bracketed_record ..) _, dependsOnFields (bracketed_list _),
    dependsOnFields_map (bracketed_list _) _, dependsOnFields (bracketed_record ..)⟩

/-- What a system is able to do is no field of its record. -/
example (v : Json.Value) (before after : List Json.Member) :
    System.shape.Edit (.object (before ++ after))
      (.object (before ++ (Json.Quoted.ofText "capabilities", v) :: after)) :=
  .add rfl (by decide) v before after

/-- A name that is half of a surrogate pair is no text, so it is no field, and yet a member of that
name cannot come in. -/
theorem member_without_text :
    let n : Json.Quoted := [.unit 0xD800]
    let v : Json.Value := .number ⟨false, [0], [], none⟩
    let b := "\x7b\x7d"
    let b' := "\x7b\"\\ud800\":0\x7d"
    Body (.object []) b.toList [] ∧ Body (.object [(n, v)]) b'.toList [] ∧ (∀ t, n.text ≠ .ok t) ∧
      Response.capabilities.decode b = .ok ⟨false, false, false, false⟩ ∧
      Response.capabilities.decode b' =
        .error ⟨"system config", "?", "unexpected end of hex escape"⟩ := by
  intro n v b b'
  have hprintable : (Json.Value.object [(n, v)]).Printable := by
    refine .object (List.forall_mem_singleton.2 ?_) (List.forall_mem_singleton.2 ?_)
    · exact List.forall_mem_singleton.2 (show 0xD800 < 0x10000 by decide)
    · exact .number ⟨.inl rfl, nofun⟩
  have hprint : b'.toList = (Json.Value.object [(n, v)]).print := by decide +kernel
  have hb : Body (.object []) b.toList [] := ⟨.empty, _, .emptyObject .empty, by decide⟩
  have hb' : Body (.object [(n, v)]) b'.toList [] := by
    refine Json.body_of_ofText ?_
    rw [hprint]
    exact Json.Reading.ofText_print hprintable
  refine ⟨hb, hb', nofun, ?_, ?_⟩
  · rw [Response.decode, Response.decodeAt, Shape.decode_of_body hb trivial]
    rfl
  · rw [Response.decode, Response.decodeAt, Shape.decode_of_body hb' trivial]
    rfl

end HeatWatch
