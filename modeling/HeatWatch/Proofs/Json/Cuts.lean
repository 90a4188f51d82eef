import HeatWatch.Proofs.Json.Parts

/-!
# Cutting a text at the place of a value

The text of a value that stands inside of another one is a stretch of the text of the whole. Any other text of a
value can stand there instead. Main statements:

* `Cut`: what stands before such a stretch and after it;
* `exists_cut`: every body can be cut at the place of every value in it.
-/

namespace HeatWatch.Json

/-- Between the two texts there can be a text of any value, and whatever follows them, the body says that value with
everything around it. -/
def Cut (fill : Value → Value) (before after : List Char) : Prop :=
  ∀ {w cs}, Spells w cs → ∀ rest, Body (fill w) (before ++ (cs ++ (after ++ rest))) rest

/-- The same of the text of a value alone. -/
def SpellsAround (fill : Value → Value) (before after : List Char) : Prop :=
  ∀ {w cs}, Spells w cs → Spells (fill w) (before ++ (cs ++ after))

/-- One of the texts between commas can change. -/
theorem commas_around (ts us : List (List Char)) :
    ∃ before after, ∀ t, commas (ts ++ t :: us) = before ++ (t ++ after) := by
  induction ts with
  | nil =>
    cases us with
    | nil => exact ⟨[], [], fun t => (List.append_nil t).symm⟩
    | cons u us => exact ⟨[], ',' :: commas (u :: us), fun _ => rfl⟩
  | cons s ts ih =>
    obtain ⟨before, after, h⟩ := ih
    refine ⟨s ++ ',' :: before, after, fun t => ?_⟩
    have hcons : commas (s :: (ts ++ t :: us)) = s ++ ',' :: commas (ts ++ t :: us) := by
      cases ts <;> rfl
    rw [List.cons_append, hcons, h t, List.append_assoc, List.cons_append]

/-- One of several parts can change, with the white space around it. -/
theorem layouts_around {π : Type} (text : π → List Char) (ps qs : List (Spaced π)) (p : Spaced π) :
    ∃ before after, ∀ q : π,
      commas ((ps ++ ⟨p.before, q, p.after⟩ :: qs).map (Spaced.layout text)) = before ++ (text q ++ after) := by
  obtain ⟨before, after, h⟩ := commas_around (ps.map (Spaced.layout text)) (qs.map (Spaced.layout text))
  refine ⟨before ++ p.before.chars, p.after.chars ++ after, fun q => ?_⟩
  rw [List.map_append, List.map_cons, h, Spaced.layout]
  simp only [List.append_assoc]

theorem forall_mem_replace {π : Type} {P : π → Prop} {ps qs : List π} {p q : π}
    (h : ∀ r ∈ ps ++ p :: qs, P r) (hq : P q) : ∀ r ∈ ps ++ q :: qs, P r := by
  simp only [List.forall_mem_append, List.forall_mem_cons] at h ⊢
  exact ⟨h.1, hq, h.2.2⟩

/-- The text of a value can be cut at the place of a value in it. -/
def HasCut (v : Value) (text : List Char) (path : Path) (w : Value) : Prop :=
  ∃ fill before cs after, Around path fill ∧ SpellsAround fill before after ∧ fill w = v ∧ Spells w cs ∧
    text = before ++ (cs ++ after)

section

variable {path : Path} {w : Value}

theorem hasCut_list {items more : List (Spaced Item)} {i : Spaced Item}
    (values : ∀ j ∈ items ++ i :: more, Spells j.part.value j.part.text)
    (h : HasCut i.part.value i.part.text path w) :
    HasCut (.list ((items ++ i :: more).map (·.part.value)))
      ('[' :: (commas ((items ++ i :: more).map (Spaced.layout Item.text)) ++ [']']))
      (.index items.length :: path) w := by
  obtain ⟨fill, before, cs, after, haround, hspells, hvalue, hw, htext⟩ := h
  obtain ⟨before', after', hlayouts⟩ := layouts_around Item.text items more i
  refine ⟨fun w => .list (items.map (·.part.value) ++ fill w :: more.map (·.part.value)),
    '[' :: (before' ++ before), cs, after ++ (after' ++ [']']), ?_, ?_, ?_, hw, ?_⟩
  · have haround' := Around.item (items.map (·.part.value)) (more.map (·.part.value)) haround
    rwa [List.length_map] at haround'
  · intro w cs hcs
    have hlist := @Spells.list (items ++ ⟨i.before, ⟨fill w, before ++ (cs ++ after)⟩, i.after⟩ :: more)
      (by simp) (forall_mem_replace values (hspells hcs))
    rw [hlayouts, List.map_append, List.map_cons] at hlist
    simpa using hlist
  · rw [List.map_append, List.map_cons, ← hvalue]
  · have hsame : commas ((items ++ i :: more).map (Spaced.layout Item.text)) =
        before' ++ (i.part.text ++ after') := hlayouts i.part
    rw [hsame, htext]
    simp

theorem hasCut_object {entries more : List (Spaced Entry)} {e : Spaced Entry} {t : String}
    (names : ∀ d ∈ entries ++ e :: more, Token (.string d.part.name) d.part.nameText)
    (values : ∀ d ∈ entries ++ e :: more, Spells d.part.value d.part.valueText)
    (ht : e.part.name.text = .ok t) (first : ∀ u, ¬ Gives (entries.map (·.part.member)) t u)
    (h : HasCut e.part.value e.part.valueText path w) :
    HasCut (.object ((entries ++ e :: more).map (·.part.member)))
      ('{' :: (commas ((entries ++ e :: more).map (Spaced.layout Entry.text)) ++ ['}']))
      (.field t :: path) w := by
  obtain ⟨fill, before, cs, after, haround, hspells, hvalue, hw, htext⟩ := h
  obtain ⟨before', after', hlayouts⟩ := layouts_around Entry.text entries more e
  have hentry : ∀ v text, (Entry.mk e.part.name e.part.nameText e.part.beforeColon e.part.afterColon v text).text =
      e.part.nameText ++ (e.part.beforeColon.chars ++ ':' :: (e.part.afterColon.chars ++ text)) := fun _ _ => rfl
  refine ⟨fun w => .object (entries.map (·.part.member) ++ (e.part.name, fill w) :: more.map (·.part.member)),
    '{' :: (before' ++ (e.part.nameText ++
      (e.part.beforeColon.chars ++ ':' :: (e.part.afterColon.chars ++ before)))), cs,
    after ++ (after' ++ ['}']), .member ht first _ haround, ?_, ?_, hw, ?_⟩
  · intro w cs hcs
    have hobject := @Spells.object (entries ++ ⟨e.before, ⟨e.part.name, e.part.nameText, e.part.beforeColon,
        e.part.afterColon, fill w, before ++ (cs ++ after)⟩, e.after⟩ :: more)
      (by simp) (forall_mem_replace names (names e (by simp))) (forall_mem_replace values (hspells hcs))
    rw [hlayouts, hentry, List.map_append, List.map_cons] at hobject
    simpa [Entry.member] using hobject
  · rw [List.map_append, List.map_cons, Entry.member, ← hvalue]
  · have hsame : commas ((entries ++ e :: more).map (Spaced.layout Entry.text)) =
        before' ++ (e.part.text ++ after') := hlayouts e.part
    rw [hsame, Entry.text, htext]
    simp

/-- The member that gives the value of a name stands behind members that do not. -/
theorem exists_first {ms : List (Spaced Entry)} {t : String} {u : Value}
    (h : memberNamed? (ms.map (·.part.member)) t = some u) :
    ∃ before e after, ms = before ++ e :: after ∧ e.part.name.text = .ok t ∧ e.part.value = u ∧
      ∀ v, ¬ Gives (before.map (·.part.member)) t v := by
  have htext : ∀ n : Quoted, (n.text.toOption == some t) = true ↔ n.text = .ok t := by
    intro n
    rw [beq_iff_eq]
    cases n.text <;> simp [Except.toOption]
  rw [memberNamed?, List.find?_map, Option.map_map, Option.map_eq_some_iff] at h
  obtain ⟨e, he, rfl⟩ := h
  obtain ⟨hname, before, after, rfl, hbefore⟩ := List.find?_eq_some_iff_append.1 he
  refine ⟨before, e, after, rfl, (htext _).1 hname, rfl, ?_⟩
  rintro v ⟨n, hmem, hn⟩
  obtain ⟨d, hd, hmember⟩ := List.mem_map.1 hmem
  obtain ⟨rfl, rfl⟩ := Prod.mk.inj hmember
  have hother : (!(d.part.name.text.toOption == some t)) = true := hbefore d hd
  rw [(htext _).2 hn] at hother
  cases hother

/-- The part of a value at a place is spelled inside the text of the value. -/
theorem Spells.hasCut {v : Value} {text : List Char} (h : Spells v text) (hw : v.at? path = some w)
    (hpath : ∀ name, .choice name ∉ path) : HasCut v text path w := by
  induction path generalizing v text with
  | nil =>
    cases hw
    refine ⟨id, [], text, [], .here, fun hcs => ?_, rfl, h, by simp⟩
    rwa [List.append_nil]
  | cons place path ih =>
    have hrest : ∀ name, .choice name ∉ path := fun name hname => hpath name (.tail _ hname)
    obtain ⟨u, hu, hw⟩ := Option.bind_eq_some_iff.1 hw
    cases h with
    | token h =>
      cases h with
      | word w => cases w <;> cases hu
      | negative | number | string => cases hu
    | emptyList =>
      cases place with
      | index => cases hu
      | field | choice | unknown => cases hu
    | emptyObject =>
      cases place with
      | field | choice => cases hu
      | index | unknown => cases hu
    | @list items hsome values =>
      cases place with
      | field | choice | unknown => cases hu
      | index i =>
        rw [Value.part?, List.getElem?_map] at hu
        obtain ⟨j, hj, rfl⟩ := Option.map_eq_some_iff.1 hu
        obtain ⟨hi, rfl⟩ := List.getElem?_eq_some_iff.1 hj
        have hsplit : items.take i ++ items[i] :: items.drop (i + 1) = items := by
          rw [List.getElem_cons_drop, List.take_append_drop]
        have hcut := hasCut_list (hsplit.symm ▸ values) (ih (values _ (List.getElem_mem hi)) hw hrest)
        rwa [hsplit, List.length_take_of_le (Nat.le_of_lt hi)] at hcut
    | @object entries hsome names values =>
      cases place with
      | index | unknown => cases hu
      | choice name => exact absurd List.mem_cons_self (hpath name)
      | field t =>
        obtain ⟨before, e, after, rfl, ht, rfl, hfirst⟩ := exists_first hu
        exact hasCut_object names values ht hfirst (ih (values e (by simp)) hw hrest)

/-- Every body can be cut at the place of every value in it. -/
theorem exists_cut {v : Value} {body rest : List Char} (h : Body v body rest) (hw : v.at? path = some w)
    (hpath : ∀ name, .choice name ∉ path) :
    ∃ fill before cs after, Around path fill ∧ Cut fill before after ∧ fill w = v ∧ Spells w cs ∧
      body = before ++ (cs ++ (after ++ rest)) := by
  obtain ⟨g, text, htext, rfl⟩ := h
  obtain ⟨fill, before, cs, after, haround, hspells, hvalue, hcs, rfl⟩ := htext.hasCut hw hpath
  refine ⟨fill, g.chars ++ before, cs, after, haround, fun hcs' rest' => ?_, hvalue, hcs, by simp⟩
  exact ⟨g, _, hspells hcs', by simp⟩

end

end HeatWatch.Json
