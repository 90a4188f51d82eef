import HeatWatch.Proofs.Json.Places

/-!
# Reading a value by one of its parts

What is around a part of a value stays while the part changes. Reading the whole then either stops at something
else, and gives the same failure whatever the part is, or reads the part on its own: a failure of the part is
that of the whole, seen from there, and what the part is read as is found again in the whole. Main statements:

* `Around`: the surroundings of a place;
* `Through`: what the reading of a whole makes of one part;
* `Through.comp`: a part of a part is a part;
* `through_list`, `through_member`, `through_column`: the items of a list and the fields of a record are parts;
* `Shape.Shows`: the parts of what has a shape.
-/

namespace HeatWatch.Json

/-! ## Surroundings -/

/-- Everything around the value at a place, into which any value can be put. -/
inductive Around : Path → (Value → Value) → Prop
  | here : Around [] id
  | item {path : Path} {fill : Value → Value} (before after : List Value) (inner : Around path fill) :
      Around (.index before.length :: path) fun w => .list (before ++ fill w :: after)
  | member {path : Path} {fill : Value → Value} {n : Quoted} {t : String} (hn : n.text = .ok t)
      {before : List Member} (first : ∀ u, ¬ Gives before t u) (after : List Member)
      (inner : Around path fill) :
      Around (.field t :: path) fun w => .object (before ++ (n, fill w) :: after)

namespace Around

variable {path : Path} {fill : Value → Value}

theorem bracketed (h : Around path fill) (hpath : path ≠ []) (w : Value) : (fill w).Bracketed := by
  cases h with
  | here => exact absurd rfl hpath
  | item => trivial
  | member => trivial

/-- The value that was put in stands at the place. -/
theorem at_fill (h : Around path fill) (w : Value) : (fill w).at? path = some w := by
  induction h with
  | here => rfl
  | item before after _ ih =>
    rw [Value.at?, Value.part?, List.getElem?_append_right (Nat.le_refl _), Nat.sub_self]
    exact ih
  | member hn first after _ ih =>
    rw [Value.at?, Value.part?, memberNamed?_of_first hn first]
    exact ih

end Around

/-! ## Parts of a whole -/

/-- The failure of a part at a place, seen from the whole. -/
def Failure.at (path : Path) (f : Failure) : Failure := ⟨path ++ f.path, f.fault⟩

/-- The failure is at the place, or inside the value there. -/
def Failure.Inside (f : Failure) (path : Path) : Prop := path <+: f.path

/-- What the reading of a whole makes of the part at a place, where `get` gives the part of what the whole is
read as. -/
inductive Through {α β : Type} (path : Path) (part : Value → Except Failure β)
    (whole : Value → Except Failure α) (get : α → Option β) : Prop
  /-- The reading stops before it comes to the part. -/
  | sooner (e : Failure) (apart : ¬ e.Inside path) (h : ∀ w, whole w = .error e)
  /-- It stops after the part was read. -/
  | later (e : Failure) (apart : ¬ e.Inside path)
      (h : ∀ w, whole w = match part w with
        | .error e' => .error (e'.at path)
        | .ok _ => .error e)
  /-- Everything else can be read. -/
  | kept (make : β → α) (found : ∀ w b, part w = .ok b → get (make b) = some b)
      (h : ∀ w, whole w = match part w with
        | .error e => .error (e.at path)
        | .ok b => .ok (make b))

namespace Through

variable {α β γ δ : Type} {path : Path} {place other : Segment} {part : Value → Except Failure β}
  {whole : Value → Except Failure α} {get : α → Option β}

theorem congr (h : Through path part whole get) {whole' : Value → Except Failure α}
    (heq : ∀ w, whole' w = whole w) : Through path part whole' get := by
  obtain rfl : whole' = whole := funext heq
  exact h

/-- Something is made of the whole that shows the part. -/
theorem map (h : Through path part whole get) (f : α → δ) {get' : δ → Option β}
    (hget : ∀ w a, whole w = .ok a → get' (f a) = get a) :
    Through path part (fun w => f <$> whole w) get' := by
  cases h with
  | sooner e apart h =>
    refine .sooner e apart fun w => ?_
    rw [h w]
    rfl
  | later e apart h =>
    refine .later e apart fun w => ?_
    rw [h w]
    cases part w <;> rfl
  | kept make found h =>
    refine .kept (fun b => f (make b)) (fun w b hb => ?_) fun w => ?_
    · have hwhole : whole w = .ok (make b) := by rw [h w, hb]
      rw [hget w _ hwhole, found w b hb]
    · rw [h w]
      cases part w <;> rfl

/-- Whatever is read of the whole, there is something else wrong. -/
theorem spoil (h : Through path part whole get) {e : Failure} (apart : ¬ e.Inside path)
    (get' : δ → Option β) :
    Through path part (fun w => match whole w with
      | .error e' => .error e'
      | .ok _ => .error e) get' := by
  cases h with
  | sooner e' apart' h =>
    refine .sooner e' apart' fun w => ?_
    rw [h w]
  | later e' apart' h =>
    refine .later e' apart' fun w => ?_
    rw [h w]
    cases part w <;> rfl
  | kept make found h =>
    refine .later e apart fun w => ?_
    rw [h w]
    cases part w <;> rfl

/-- The whole is seen from around it. -/
theorem under (h : Through path part whole get) (place : Segment) :
    Through (place :: path) part (fun w => match whole w with
      | .error e => .error (e.under place)
      | .ok a => .ok a) get := by
  have hunder : ∀ {e : Failure}, ¬ e.Inside path → ¬ (e.under place).Inside (place :: path) := by
    rintro e he ⟨tail, htail⟩
    exact he ⟨tail, (List.cons.inj htail).2⟩
  cases h with
  | sooner e apart h =>
    refine .sooner (e.under place) (hunder apart) fun w => ?_
    rw [h w]
  | later e apart h =>
    refine .later (e.under place) (hunder apart) fun w => ?_
    rw [h w]
    cases part w <;> rfl
  | kept make found h =>
    refine .kept make found fun w => ?_
    rw [h w]
    cases part w <;> rfl

/-- The part is read first, and then the rest. -/
theorem first {rest : Except Failure γ} {f : β → γ → α} (hget : ∀ b c, get (f b c) = some b)
    (hrest : ∀ e, rest = .error e → ¬ e.Inside [place]) :
    Through [place] part (fun w => match part w with
      | .error e => .error (e.under place)
      | .ok b => f b <$> rest) get := by
  cases rest with
  | error e =>
    refine .later e (hrest e rfl) fun w => ?_
    cases part w <;> rfl
  | ok c =>
    refine .kept (fun b => f b c) (fun _ b _ => hget b c) fun w => ?_
    cases part w <;> rfl

theorem not_inside_of_ne (hne : other ≠ place) (e : Failure) : ¬ (e.under other).Inside (place :: path) := by
  rintro ⟨tail, htail⟩
  exact hne (List.cons.inj htail).1.symm

/-- Another part is read first, and then the rest with the part in it. -/
theorem next (h : Through (place :: path) part whole get) (hne : other ≠ place) {x : Except Failure γ}
    {f : γ → α → δ} {get' : δ → Option β} (hget : ∀ c a, get' (f c a) = get a) :
    Through (place :: path) part (fun w => match x with
      | .error e => .error (e.under other)
      | .ok c => f c <$> whole w) get' := by
  cases x with
  | error e => exact .sooner (e.under other) (not_inside_of_ne hne e) fun _ => rfl
  | ok c => exact h.map (f c) fun _ a _ => hget c a

/-- The part alone is read first, and something else may be found wrong before the whole is read. -/
theorem checked (h : Through [place] part whole get) {trouble : Option Failure}
    (apart : ∀ e, trouble = some e → ¬ e.Inside [place]) :
    Through [place] part (fun w => match part w with
      | .error e => .error (e.under place)
      | .ok _ => match trouble with
        | some e => .error e
        | none => whole w) get := by
  cases trouble with
  | some e =>
    refine .later e (apart e rfl) fun w => ?_
    cases part w <;> rfl
  | none =>
    cases h with
    | sooner e apart h =>
      refine .later e apart fun w => ?_
      cases part w with
      | error e' => rfl
      | ok b => exact h w
    | later e apart h =>
      refine .later e apart fun w => ?_
      dsimp only
      rw [h w]
      cases part w <;> rfl
    | kept make found h =>
      refine .kept make found fun w => ?_
      dsimp only
      rw [h w]
      cases part w <;> rfl

/-- A part of a part is a part. -/
theorem comp {mid : Value → Except Failure γ} {find : α → Option γ} {get : γ → Option β}
    {fill : Value → Value} (hinner : Through path part (fun w => mid (fill w)) get)
    (houter : Through [place] mid whole find) :
    Through (place :: path) part (fun w => whole (fill w)) fun a => (find a).bind get := by
  have hlonger : ∀ {e : Failure}, ¬ e.Inside [place] → ¬ e.Inside (place :: path) := by
    rintro e he ⟨tail, htail⟩
    exact he ⟨path ++ tail, htail⟩
  cases houter with
  | sooner e apart h => exact .sooner e (hlonger apart) fun w => h (fill w)
  | later e apart h =>
    refine ((hinner.under place).spoil (hlonger apart) _).congr fun w => ?_
    rw [h (fill w)]
    cases mid (fill w) <;> rfl
  | kept make found h =>
    refine ((hinner.under place).map make fun w c hc => ?_).congr fun w => ?_
    · have hmid : mid (fill w) = .ok c := by
        cases hread : mid (fill w) with
        | error e =>
          rw [hread] at hc
          cases hc
        | ok c' =>
          rw [hread] at hc
          exact hc
      rw [found (fill w) c hmid]
      rfl
    · rw [h (fill w)]
      cases mid (fill w) <;> rfl

end Through

/-! ## Items of lists -/

section

variable {α : Type}

theorem index_ne {i j : Nat} (h : i ≠ j) : Segment.index i ≠ .index j := fun heq => h (Segment.index.inj heq)

theorem field_ne {s t : String} (h : s ≠ t) : Segment.field s ≠ .field t := fun heq => h (Segment.field.inj heq)

theorem through_readItems (read : Value → Except Failure α) (before after : List Value) (i : Nat) :
    Through [.index (i + before.length)] read (fun w => readItems read i (before ++ w :: after))
      fun as => as[before.length]? := by
  induction before generalizing i with
  | nil =>
    refine .first (fun _ _ => rfl) fun e he => ?_
    obtain ⟨j, v, e', -, -, rfl⟩ := readItems_eq_error he
    exact Through.not_inside_of_ne (index_ne (by rw [List.length_nil]; omega)) e'
  | cons v before ih =>
    have hrest := ih (i + 1)
    rw [Nat.add_right_comm] at hrest
    exact hrest.next (index_ne (by omega)) fun _ _ => rfl

theorem through_list (s : Shape α) (before after : List Value) :
    Through [.index before.length] s.read (fun w => (Shape.list s).read (.list (before ++ w :: after)))
      fun as => as[before.length]? := by
  have h := through_readItems s.read before after 0
  rw [Nat.zero_add] at h
  exact h

end

/-! ## Fields of records -/

/-- A field of a record: its name, where it stands in a list of the values, its shape, and its value among
those of all fields. -/
inductive Fields.Picks : {γ β : Type} → Fields γ → String → Nat → Shape β → (γ → β) → Prop
  | required {β γ : Type} {name : String} {s : Shape β} {rest : Fields γ} :
      Picks (.required name s rest) name 0 s Prod.fst
  | defaulted {β γ : Type} {name : String} {s : Shape β} {absent : β} {rest : Fields γ} :
      Picks (.defaulted name s absent rest) name 0 s Prod.fst
  | afterRequired {α β γ : Type} {other : String} {s' : Shape α} {rest : Fields γ} {name : String} {i : Nat}
      {s : Shape β} {value : γ → β} (h : Picks rest name i s value) :
      Picks (.required other s' rest) name (i + 1) s fun g => value g.2
  | afterDefaulted {α β γ : Type} {other : String} {s' : Shape α} {absent : α} {rest : Fields γ}
      {name : String} {i : Nat} {s : Shape β} {value : γ → β} (h : Picks rest name i s value) :
      Picks (.defaulted other s' absent rest) name (i + 1) s fun g => value g.2

namespace Fields.Picks

variable {β γ : Type} {fields : Fields γ} {name : String} {i : Nat} {s : Shape β} {value : γ → β}

theorem mem_names (h : fields.Picks name i s value) : name ∈ fields.names := by
  induction h with
  | required | defaulted => exact List.mem_cons_self
  | afterRequired _ ih | afterDefaulted _ ih => exact .tail _ ih

/-- Later items of a list fail at places of their own. -/
theorem not_inside_of_readItems {fs : Fields γ} {wanted : String} {j k : Nat} {items : List Value} {e : Failure}
    (h : fs.readItems wanted k items = .error e) (hk : j < k) : ¬ e.Inside [.index j] := by
  obtain ⟨l, f, -, ⟨-, -, rfl⟩ | ⟨v, e', -, -, rfl⟩⟩ := fs.readItems_eq_error h
  · nofun
  · exact Through.not_inside_of_ne (index_ne (by omega)) e'

/-- A field in a list of the values. -/
theorem through_readItems (h : fields.Picks name i s value) {before : List Value} (hbefore : before.length = i)
    (after : List Value) (wanted : String) (j : Nat) :
    Through [.index (j + i)] s.read (fun w => fields.readItems wanted j (before ++ w :: after))
      fun g => some (value g) := by
  induction h generalizing before j with
  | required | defaulted =>
    obtain rfl := List.length_eq_zero_iff.1 hbefore
    exact .first (fun _ _ => rfl) fun e he => not_inside_of_readItems he (Nat.lt_succ_self j)
  | afterRequired _ ih | afterDefaulted _ ih =>
    obtain ⟨v, before, rfl⟩ := List.exists_cons_of_length_eq_add_one hbefore
    have hrest := ih (Nat.succ.inj hbefore) (j + 1)
    rw [Nat.add_right_comm] at hrest
    exact hrest.next (index_ne (by omega)) fun _ _ => rfl

/-- What is wrong with the value of a field. -/
theorem trouble_eq (h : fields.Picks name i s value) (distinct : fields.names.Nodup) (w : Value) :
    fields.trouble name w = match s.read w with
      | .error e => some e
      | .ok _ => none := by
  induction h with
  | required | defaulted =>
    exact if_pos rfl
  | afterRequired h ih | afterDefaulted h ih =>
    obtain ⟨hother, hrest⟩ := List.nodup_cons.1 distinct
    have hne : _ ≠ _ := ne_of_mem_of_not_mem h.mem_names hother
    rw [trouble, if_neg hne, ih hrest]

end Fields.Picks

/-- Only the fields that are given matter. -/
theorem Fields.fill_congr {γ : Type} {given given' : String → Option Value} : (fs : Fields γ) →
    (∀ t ∈ fs.names, given t = given' t) → fs.fill given = fs.fill given'
  | .nil, _ => rfl
  | .required name _ rest, h | .defaulted name _ _ rest, h => by
    unfold fill
    rw [h name List.mem_cons_self, rest.fill_congr fun t ht => h t (.tail name ht)]

/-- Other fields fail at places of their own. -/
theorem Fields.not_inside_of_fill {γ : Type} {fs : Fields γ} {given : String → Option Value} {t : String}
    {e : Failure} (h : fs.fill given = .error e) (ht : t ∉ fs.names) : ¬ e.Inside [.field t] := by
  obtain ⟨f, hf, ⟨-, -, rfl⟩ | ⟨v, e', -, -, rfl⟩⟩ := fs.fill_eq_error h
  · nofun
  · refine Through.not_inside_of_ne (field_ne ?_) e'
    rintro rfl
    rw [fs.names_eq] at ht
    exact ht (List.mem_map_of_mem hf)

section

variable {β γ : Type} {t : String} {s : Shape β} {given : Value → String → Option Value}

/-- The first field among those that are given. -/
theorem through_fill_first {fields : Fields (β × γ)} {rest : Fields γ} (hname : t ∉ rest.names)
    (hothers : ∀ w w' t', t' ≠ t → given w t' = given w' t') :
    (∀ w, fields.fill (given w) = match s.read w with
      | .error e => .error (e.under (.field t))
      | .ok a => (a, ·) <$> rest.fill (given w)) →
    Through [.field t] s.read (fun w => fields.fill (given w)) fun g => some g.1 := by
  intro hfill
  have hrest : ∀ w, rest.fill (given w) = rest.fill (given .null) := fun w =>
    rest.fill_congr fun t' ht' => hothers w .null t' fun heq => hname (heq ▸ ht')
  have hfirst : Through [.field t] s.read (fun w => match s.read w with
      | .error e => .error (e.under (.field t))
      | .ok a => Prod.mk a <$> rest.fill (given .null)) fun g => some g.1 :=
    .first (fun _ _ => rfl) fun e he => Fields.not_inside_of_fill he hname
  refine hfirst.congr fun w => ?_
  rw [hfill w, hrest w]

/-- A field among those that are given. -/
theorem Fields.Picks.through_fill {fields : Fields γ} {i : Nat} {value : γ → β}
    (h : fields.Picks t i s value) (distinct : fields.names.Nodup) (hgiven : ∀ w, given w t = some w)
    (hothers : ∀ w w' t', t' ≠ t → given w t' = given w' t') :
    Through [.field t] s.read (fun w => fields.fill (given w)) fun g => some (value g) := by
  induction h with
  | @required _ _ _ s | @defaulted _ _ _ s =>
    obtain ⟨hname, -⟩ := List.nodup_cons.1 distinct
    refine through_fill_first hname hothers fun w => ?_
    cases hread : s.read w <;> simp only [fill, hgiven w, hread]
  | @afterRequired _ _ _ other s' _ _ _ _ _ h ih =>
    obtain ⟨hother, hrest⟩ := List.nodup_cons.1 distinct
    have hne : other ≠ _ := (ne_of_mem_of_not_mem h.mem_names hother).symm
    have hthrough := ih hrest hgiven hothers
    cases hx : given .null other with
    | none =>
      refine .sooner (.here (.missingField other)) nofun fun w => ?_
      rw [fill, hothers w .null other hne, hx]
    | some v =>
      refine (hthrough.next (field_ne hne) (x := s'.read v) (f := Prod.mk) fun _ _ => rfl).congr fun w => ?_
      cases hread : s'.read v <;> simp only [fill, hothers w .null other hne, hx, hread]
  | @afterDefaulted _ _ _ other s' absent _ _ _ _ _ h ih =>
    obtain ⟨hother, hrest⟩ := List.nodup_cons.1 distinct
    have hne : other ≠ _ := (ne_of_mem_of_not_mem h.mem_names hother).symm
    have hthrough := ih hrest hgiven hothers
    cases hx : given .null other with
    | none =>
      refine (hthrough.map (absent, ·) fun _ _ _ => rfl).congr fun w => ?_
      rw [fill, hothers w .null other hne, hx]
    | some v =>
      refine (hthrough.next (field_ne hne) (x := s'.read v) (f := Prod.mk) fun _ _ => rfl).congr fun w => ?_
      cases hread : s'.read v <;> simp only [fill, hothers w .null other hne, hx, hread]

end

/-! ## Members of objects -/

section

variable {names seen : List String} {trouble : String → Value → Option Failure} {before after : List Member}
  {n : Quoted} {t : String}

/-- Members that come after a field do not fail inside of it. -/
theorem not_inside_of_members {e : Failure} (hseen : t ∈ seen)
    (h : membersTrouble names trouble seen after = some e) : ¬ e.Inside [.field t] := by
  obtain ⟨ms, m, v, more, -, ⟨f, -, rfl⟩ | ⟨t', -, -, ⟨-, rfl⟩ | ⟨hfresh, e', -, rfl⟩⟩⟩ :=
    membersTrouble_eq_some h
  · rintro ⟨tail, htail⟩
    cases htail
  · nofun
  · refine Through.not_inside_of_ne (field_ne ?_) e'
    rintro rfl
    exact hfresh (.inl hseen)

variable (trouble after) in
/-- What is wrong with the members, as far as the value of one field matters. -/
theorem membersTrouble_around (hn : n.text = .ok t) (hknown : t ∈ names) (hseen : t ∉ seen)
    (hfirst : ∀ u, ¬ Gives before t u) :
    (∃ e : Failure, ¬ e.Inside [.field t] ∧
      ∀ w, membersTrouble names trouble seen (before ++ (n, w) :: after) = some e) ∨
    ∃ rest : Option Failure, (∀ e, rest = some e → ¬ e.Inside [.field t]) ∧
      ∀ w, membersTrouble names trouble seen (before ++ (n, w) :: after) =
        ((trouble t w).map (·.under (.field t))).or rest := by
  induction before generalizing seen with
  | nil =>
    refine .inr ⟨membersTrouble names trouble (t :: seen) after, ?_, fun w => ?_⟩
    · intro e he
      exact not_inside_of_members List.mem_cons_self he
    · rw [List.nil_append, membersTrouble]
      simp only [hn, List.contains_iff_mem, hknown, hseen, if_true, if_false]
      cases trouble t w <;> rfl
  | cons m before ih =>
    obtain ⟨n', v⟩ := m
    have hrest : ∀ u, ¬ Gives before t u := fun u hu => hfirst u (gives_cons.2 (.inr hu))
    simp only [List.cons_append, membersTrouble]
    cases hn' : n'.text with
    | error f =>
      refine .inl ⟨⟨[.unknown], f⟩, ?_, fun _ => rfl⟩
      rintro ⟨tail, htail⟩
      cases htail
    | ok t' =>
      have hne : t' ≠ t := by
        rintro rfl
        exact hfirst v (gives_cons.2 (.inl ⟨hn', rfl⟩))
      dsimp only
      split
      case isTrue =>
        split
        case isTrue =>
          refine .inl ⟨.here (.repeatedField t'), ?_, fun _ => rfl⟩
          rintro ⟨tail, htail⟩
          cases htail
        case isFalse =>
          split
          case h_1 e _ =>
            exact .inl ⟨e.under (.field t'), Through.not_inside_of_ne (field_ne hne) e, fun _ => rfl⟩
          case h_2 =>
            refine ih (fun hmem => ?_) hrest
            exact (List.mem_cons.1 hmem).elim (fun heq => hne heq.symm) hseen
      case isFalse => exact ih hseen hrest

/-- The members of other names are the same whatever the value of one member is. -/
theorem memberNamed?_of_ne (hn : n.text = .ok t) {t' : String} (hne : t' ≠ t) (w w' : Value) :
    memberNamed? (before ++ (n, w) :: after) t' = memberNamed? (before ++ (n, w') :: after) t' := by
  have hother : ((Except.ok t : Except Fault String).toOption == some t') = false := by
    rw [beq_eq_false_iff_ne]
    exact fun heq => hne (Option.some.inj heq).symm
  simp only [memberNamed?, List.find?_append, List.find?_cons, hn, hother]

end

section

variable {β γ α : Type} {fields : Fields γ} {t : String} {i : Nat} {s : Shape β} {value : γ → β}

/-- A field of a record that is written as an object. -/
theorem through_member (h : fields.Picks t i s value) (distinct : fields.names.Nodup) (name : String)
    {make : γ → α} {get : α → β} (hget : ∀ g, get (make g) = value g) {n : Quoted} (hn : n.text = .ok t)
    {before : List Member} (hfirst : ∀ u, ¬ Gives before t u) (after : List Member) :
    Through [.field t] s.read
      (fun w => (Shape.record name fields make).read (.object (before ++ (n, w) :: after)))
      fun a => some (get a) := by
  have hfill : Through [.field t] s.read
      (fun w => make <$> fields.fill (memberNamed? (before ++ (n, w) :: after))) fun a => some (get a) := by
    refine (h.through_fill distinct ?_ ?_).map make fun _ g _ => congrArg some (hget g)
    · exact fun w => memberNamed?_of_first hn hfirst
    · exact fun w w' t' hne => memberNamed?_of_ne hn hne w w'
  rcases membersTrouble_around (fun n v => fields.trouble n v) after hn h.mem_names (List.not_mem_nil (a := t))
      hfirst with ⟨e, apart, hmembers⟩ | ⟨rest, apart, hmembers⟩
  · refine .sooner e apart fun w => ?_
    simp only [Shape.read, hmembers w]
  · refine (hfill.checked apart).congr fun w => ?_
    simp only [Shape.read, hmembers w, h.trouble_eq distinct w]
    cases s.read w <;> cases rest <;> rfl

/-- A field of a record that is written as a list. -/
theorem through_column (h : fields.Picks t i s value) (name : String) {make : γ → α} {get : α → β}
    (hget : ∀ g, get (make g) = value g) {before : List Value} (hbefore : before.length = i)
    (after : List Value) :
    Through [.index i] s.read (fun w => (Shape.record name fields make).read (.list (before ++ w :: after)))
      fun a => some (get a) := by
  have hitems := h.through_readItems hbefore after (fields.wanted name) 0
  rw [Nat.zero_add] at hitems
  have hlength : ∀ w, (before ++ w :: after).length = before.length + (after.length + 1) := fun w => by
    rw [List.length_append, List.length_cons]
  by_cases hlong : before.length + (after.length + 1) > fields.names.length
  · refine (hitems.spoil (e := .here .trailingText) nofun _).congr fun w => ?_
    cases hread : fields.readItems (fields.wanted name) 0 (before ++ w :: after) <;>
      simp only [Shape.read, hread, hlength w, if_pos hlong]
  · refine (hitems.map make fun _ g _ => congrArg some (hget g)).congr fun w => ?_
    simp only [Shape.read, hlength w, if_neg hlong]
    cases fields.readItems (fields.wanted name) 0 (before ++ w :: after) <;> rfl

end

/-! ## Shapes -/

/-- A part of a whole of the shape, whatever is around it: its place, how it is read, and where it is found in what
the whole is read as. -/
def Shape.Shows {α β : Type} (s : Shape α) (path : Path) (part : Value → Except Failure β)
    (get : α → Option β) : Prop :=
  ∀ fill, Around path fill → Through path part (fun w => s.read (fill w)) get

namespace Shape.Shows

variable {α β γ δ : Type} {s : Shape α} {path : Path} {part : Value → Except Failure β} {get : α → Option β}

/-- A part of something optional that is not the whole of it. -/
theorem optional (h : s.Shows path part get) (hpath : path ≠ []) :
    (Shape.optional s).Shows path part fun a => a.bind get := by
  intro fill hfill
  exact ((h fill hfill).map some fun _ _ _ => rfl).congr fun w => read_optional (hfill.bracketed hpath w).ne_null

theorem list (h : s.Shows path part get) (i : Nat) :
    (Shape.list s).Shows (.index i :: path) part fun as => as[i]?.bind get := by
  intro fill hfill
  cases hfill with
  | item before after inner => exact (h _ inner).comp (through_list s before after)

/-- A field of a record. -/
theorem record {fields : Fields γ} {t : String} {i : Nat} {value : γ → α} (hs : s.Shows path part get)
    (h : fields.Picks t i s value) (distinct : fields.names.Nodup) (name : String) {make : γ → δ}
    {of : δ → α} (hof : ∀ g, of (make g) = value g) {place : Segment}
    (hplace : place = .field t ∨ place = .index i) :
    (Shape.record name fields make).Shows (place :: path) part fun d => get (of d) := by
  rcases hplace with rfl | rfl
  · intro fill hfill
    cases hfill with
    | member hn first after inner => exact (hs _ inner).comp (through_member h distinct name hof hn first after)
  · intro fill hfill
    generalize hi : Segment.index i = place at hfill
    cases hfill with
    | member => cases hi
    | item before after inner =>
      cases hi
      exact (hs _ inner).comp (through_column h name hof rfl after)

end Shape.Shows

end HeatWatch.Json
