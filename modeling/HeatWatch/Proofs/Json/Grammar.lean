import HeatWatch.Proofs.Json.Prefixes

/-!
# The grammar of JSON texts

A value has many texts: white space can stand between any two tokens, and a token can be written in
several ways. The grammar says which texts these are, and the machine reads every one of them. Main
statements:

* `Token`, `Spells`: the texts of tokens and of values;
* `Spells.readsAs`: the machine reads the value from each of its texts;
* `Body.ofText`: so it does where the text stands at the beginning of a body.
-/

namespace HeatWatch.Json

open Scan
open Decimal.Digit (ofChar?)

/-! ## Tokens -/

namespace Scan

/-- The rest of a string, up to its closing quote, and what the whole of it says. -/
inductive StringState.Reads : StringState → List Char → Quoted → Prop where
  | close {s : StringState} {c : Char} {n : Quoted} (h : s.step c = .closed n) : Reads s [c] n
  | more {s t : StringState} {c : Char} {cs : List Char} {n : Quoted} (h : s.step c = .more t)
      (rest : Reads t cs n) : Reads s (c :: cs) n

/-- The rest of a number, and what the whole of it says. -/
inductive NumberState.Reads : NumberState → List Char → Numeral → Prop where
  | done {s : NumberState} {n : Numeral} (h : s.numeral? = some n) : Reads s [] n
  | more {s t : NumberState} {c : Char} {cs : List Char} {n : Numeral} (h : s.step c = .more t)
      (rest : Reads t cs n) : Reads s (c :: cs) n

end Scan

/-- The texts of a literal name, a number or a string. -/
inductive Token : Value → List Char → Prop where
  | word (w : Word) : Token w.value w.letters
  | negative {cs : List Char} {n : Numeral} (h : NumberState.minus.Reads cs n) :
      Token (.number n) ('-' :: cs)
  | number {c : Char} {d : Decimal.Digit} {cs : List Char} {n : Numeral} (hd : ofChar? c = some d)
      (h : (NumberState.first d).Reads cs n) : Token (.number n) (c :: cs)
  | string {cs : List Char} {s : Quoted} (h : StringState.start.Reads cs s) :
      Token (.string s) ('"' :: cs)

/-! ## Values -/

/-- White space between two tokens. -/
structure Gap where
  chars : List Char
  blank : ∀ c ∈ chars, isSpace c = true

/-- No white space. -/
def Gap.empty : Gap := ⟨[], nofun⟩

/-- A part of a list or an object with the white space around it. -/
structure Spaced (π : Type) where
  before : Gap
  part : π
  after : Gap

/-- The part as it stands in a text. -/
def Spaced.layout {π : Type} (text : π → List Char) (s : Spaced π) : List Char :=
  s.before.chars ++ (text s.part ++ s.after.chars)

/-- An item of a list and the text of it. -/
structure Item where
  value : Value
  text : List Char

/-- A member of an object and the texts of it. -/
structure Entry where
  name : Quoted
  nameText : List Char
  beforeColon : Gap
  afterColon : Gap
  value : Value
  valueText : List Char

def Entry.text (e : Entry) : List Char :=
  e.nameText ++ (e.beforeColon.chars ++ ':' :: (e.afterColon.chars ++ e.valueText))

def Entry.member (e : Entry) : Member := (e.name, e.value)

/-- The texts with commas between them. -/
def commas : List (List Char) → List Char
  | [] => []
  | [t] => t
  | t :: u :: ts => t ++ ',' :: commas (u :: ts)

/-- The texts of a value, from its first token to its last one. -/
inductive Spells : Value → List Char → Prop where
  | token {v : Value} {cs : List Char} (h : Token v cs) : Spells v cs
  | emptyList (g : Gap) : Spells (.list []) ('[' :: (g.chars ++ [']']))
  | list {items : List (Spaced Item)} (some : items ≠ [])
      (values : ∀ i ∈ items, Spells i.part.value i.part.text) :
      Spells (.list (items.map (·.part.value)))
        ('[' :: (commas (items.map (Spaced.layout Item.text)) ++ [']']))
  | emptyObject (g : Gap) : Spells (.object []) ('{' :: (g.chars ++ ['}']))
  | object {entries : List (Spaced Entry)} (some : entries ≠ [])
      (names : ∀ e ∈ entries, Token (.string e.part.name) e.part.nameText)
      (values : ∀ e ∈ entries, Spells e.part.value e.part.valueText) :
      Spells (.object (entries.map (·.part.member)))
        ('{' :: (commas (entries.map (Spaced.layout Entry.text)) ++ ['}']))

/-- A body that has a text of a value at its beginning, and then the rest. -/
def Body (v : Value) (body rest : List Char) : Prop :=
  ∃ (g : Gap) (cs : List Char), Spells v cs ∧ body = g.chars ++ (cs ++ rest)

/-! ## The machine goes on -/

namespace Scan

/-- No number goes on with this text. -/
def EndsNumber : List Char → Prop
  | [] => True
  | c :: _ => ofChar? c = none ∧ c ≠ '.' ∧ c ≠ 'e' ∧ c ≠ 'E'

theorem endsNumber_of_delimiter {c : Char} (h : c = ',' ∨ c = ']' ∨ c = '}') (more : List Char) :
    EndsNumber (c :: more) := by
  rcases h with rfl | rfl | rfl <;> exact ⟨rfl, by decide, by decide, by decide⟩

/-- Reads the text after a complete value. -/
def resume (v : Value) (frames : List Frame) (more : List Char) : Reading :=
  match push v frames with
  | some s => run s more
  | none => .whole v more

theorem run_more {s s' : State} {c : Char} (h : s.step c = .more s') (more : List Char) :
    run s (c :: more) = run s' more := by
  rw [run, h]

theorem run_complete {s : State} {c : Char} {v : Value} {frames : List Frame}
    (h : s.step c = complete v frames) (more : List Char) :
    run s (c :: more) = resume v frames more := by
  rw [run, h, complete, resume]
  cases push v frames <;> rfl

/-- The machine stays where it is as long as white space comes. -/
def Skips (s : State) : Prop := ∀ c, isSpace c = true → s.step c = .more s

theorem run_gap {s : State} (hs : Skips s) (g : Gap) (more : List Char) :
    run s (g.chars ++ more) = run s more := by
  obtain ⟨cs, hcs⟩ := g
  induction cs with
  | nil => rfl
  | cons c cs ih =>
    obtain ⟨hc, hrest⟩ := List.forall_mem_cons.1 hcs
    exact (run_more (hs c hc) (cs ++ more)).trans (ih hrest)

theorem endsNumber_of_gap (g : Gap) {c : Char} (h : c = ',' ∨ c = ']' ∨ c = '}')
    (more : List Char) : EndsNumber (g.chars ++ c :: more) := by
  obtain ⟨cs, hcs⟩ := g
  cases cs with
  | nil => exact endsNumber_of_delimiter h more
  | cons d cs =>
    have hd := hcs d List.mem_cons_self
    simp only [isSpace, Bool.or_eq_true, beq_iff_eq] at hd
    rcases hd with ((rfl | rfl) | rfl) | rfl <;> exact ⟨rfl, by decide, by decide, by decide⟩

/-! ## Reading tokens -/

/-- The machine takes the letters of a literal name, of which the first one is taken already. -/
theorem run_letters (w : Word) (frames : List Frame) (more : List Char) :
    run ⟨frames, .word w (w.letters.drop 1)⟩ (w.letters.drop 1 ++ more) =
      resume w.value frames more := by
  have hmore : ∀ l₁ l₂ ls, run ⟨frames, .word w (l₁ :: l₂ :: ls)⟩ (l₁ :: l₂ :: ls ++ more) =
      run ⟨frames, .word w (l₂ :: ls)⟩ (l₂ :: ls ++ more) := fun l₁ l₂ ls =>
    run_more (by simp [State.step]) (l₂ :: ls ++ more)
  have hlast : ∀ l, run ⟨frames, .word w [l]⟩ (l :: more) = resume w.value frames more :=
    fun l => run_complete (by simp [State.step]) more
  cases w with
  | null => exact ((hmore 'u' 'l' ['l']).trans (hmore 'l' 'l' [])).trans (hlast 'l')
  | true => exact ((hmore 'r' 'u' ['e']).trans (hmore 'u' 'e' [])).trans (hlast 'e')
  | false =>
    exact (((hmore 'a' 'l' ['s', 'e']).trans (hmore 'l' 's' ['e'])).trans (hmore 's' 'e' [])).trans
      (hlast 'e')

/-- The machine reads a string in the states `k t`, of which it has read `t`. -/
def InString (k : StringState → State) : Prop :=
  ∀ {t u : StringState} {c : Char}, t.step c = .more u → (k t).step c = .more (k u)

theorem inString_string (frames : List Frame) : InString fun t => ⟨frames, .string t⟩ := by
  intro t u c h
  simp only [State.step, h]

theorem inString_name (frames : List Frame) (members : List Member) :
    InString fun t => ⟨frames, .name members t⟩ := by
  intro t u c h
  simp only [State.step, h]

variable {k : StringState → State} {t : StringState} {cs : List Char} {n : Quoted}

/-- The machine reads a string to its end, in whatever states it does so. -/
theorem run_reads (hk : InString k) {more : List Char} {last : Reading}
    (hclose : ∀ {t c}, t.step c = .closed n → run (k t) (c :: more) = last)
    (h : t.Reads cs n) : run (k t) (cs ++ more) = last := by
  induction h with
  | close h => exact hclose h
  | more h _ ih => exact (run_more (hk h) _).trans (ih hclose)

theorem run_stringReads (h : t.Reads cs n) (frames : List Frame) (more : List Char) :
    run ⟨frames, .string t⟩ (cs ++ more) = resume (.string n) frames more :=
  run_reads (inString_string frames) (fun h => run_complete (by simp only [State.step, h]) more) h

theorem run_nameReads (h : t.Reads cs n) (frames : List Frame) (members : List Member)
    (more : List Char) :
    run ⟨frames, .name members t⟩ (cs ++ more) = run ⟨frames, .colon members n⟩ more :=
  run_reads (inString_name frames members) (fun h => run_more (by simp only [State.step, h]) more) h

/-- A number that is complete ends where no number goes on. -/
theorem run_ended {s : NumberState} {n : Numeral} (hn : s.numeral? = some n) (frames : List Frame)
    {more : List Char} (hmore : EndsNumber more) :
    run ⟨frames, .number s⟩ more = resume (.number n) frames more := by
  cases more with
  | nil =>
    simp only [run, State.finish, hn, resume]
    cases frames with
    | nil => rfl
    | cons frame frames => cases frame <;> rfl
  | cons c more =>
    obtain ⟨hdigit, hpoint, he, hE⟩ := hmore
    have hend : s.step c = .ended n := by
      have hfinish : s.finish = .ended n := by rw [NumberState.finish, hn]
      unfold NumberState.step
      rw [hdigit]
      unfold NumberState.numeral? at hn
      cases hplace : s.place <;> simp_all
    have hstep : State.step ⟨frames, .number s⟩ c = stepAfterValue (.number n) frames c := by
      simp only [State.step, hend]
    rw [run, hstep]
    cases frames with
    | nil => rfl
    | cons frame frames => cases frame <;> rfl

theorem run_numberReads {s : NumberState} {n : Numeral} (h : s.Reads cs n) (frames : List Frame)
    {more : List Char} (hmore : EndsNumber more) :
    run ⟨frames, .number s⟩ (cs ++ more) = resume (.number n) frames more := by
  induction h with
  | done h => exact run_ended h frames hmore
  | more h _ ih => exact (run_more (by simp only [State.step, h]) _).trans ih

end Scan

/-- The machine reads the value from the text wherever a value is due: the text starts with a
character that starts a value, and the machine goes on after it. -/
structure ReadsAs (v : Value) (cs : List Char) : Prop where
  head : ∃ c tail, cs = c :: tail ∧ isSpace c = false ∧ c ≠ ']'
  run : ∀ frames {more}, EndsNumber more → run ⟨frames, .value⟩ (cs ++ more) = resume v frames more

theorem isSpace_of_digit {c : Char} {d : Decimal.Digit} (h : ofChar? c = some d) :
    isSpace c = false := by
  refine Bool.eq_false_iff.2 fun hc => ?_
  simp only [isSpace, Bool.or_eq_true, beq_iff_eq] at hc
  rcases hc with ((rfl | rfl) | rfl) | rfl <;> cases h

theorem startValue_digit {c : Char} {d : Decimal.Digit} (h : ofChar? c = some d)
    (frames : List Frame) : startValue frames c = .more ⟨frames, .number (.first d)⟩ := by
  have hc : ∀ c' : Char, ofChar? c' = none → c ≠ c' := by
    rintro c' hnone rfl
    cases hnone.symm.trans h
  unfold startValue
  rw [if_neg (hc _ rfl), if_neg (hc _ rfl), if_neg (hc _ rfl), if_neg (hc _ rfl), if_neg (hc _ rfl),
    if_neg (hc _ rfl), if_neg (hc _ rfl), h]

theorem Token.readsAs {v : Value} {cs : List Char} (h : Token v cs) : ReadsAs v cs := by
  cases h with
  | word w =>
    constructor
    · cases w <;> exact ⟨_, _, rfl, by decide, by decide⟩
    · intro frames more _
      cases w <;> exact run_letters _ frames more
  | negative h =>
    refine ⟨⟨'-', _, rfl, by decide, by decide⟩, fun frames more hmore => ?_⟩
    exact (run_more rfl _).trans (run_numberReads h frames hmore)
  | @number c d tail n hd h =>
    refine ⟨⟨c, tail, rfl, isSpace_of_digit hd, ?_⟩, fun frames more hmore => ?_⟩
    · rintro rfl
      cases hd
    · have hstep : State.step ⟨frames, .value⟩ c = .more ⟨frames, .number (.first d)⟩ := by
        simp only [State.step, isSpace_of_digit hd, startValue_digit hd, Bool.false_eq_true, if_false]
      exact (run_more hstep _).trans (run_numberReads h frames hmore)
  | string h =>
    refine ⟨⟨'"', _, rfl, by decide, by decide⟩, fun frames more _ => ?_⟩
    exact (run_more rfl _).trans (run_stringReads h frames more)

/-! ## Reading lists -/

namespace ReadsAs

variable {frames : List Frame} {items : List Value} {members : List Member} {s : State} {c : Char}

/-- Where an item is due, the machine reads it up to what follows it. -/
theorem run_item {i : Spaced Item} (hi : ReadsAs i.part.value i.part.text)
    (hs : s = ⟨frames, .nextItem items⟩ ∨ (s = ⟨frames, .firstItem⟩ ∧ items = []))
    (hc : c = ',' ∨ c = ']' ∨ c = '}') (more : List Char) :
    Scan.run s (i.layout Item.text ++ c :: more) =
      Scan.run ⟨frames, .afterItem (i.part.value :: items)⟩ (c :: more) := by
  obtain ⟨d, tail, htext, hspace, hbracket⟩ := hi.head
  have hskip : Skips s := by
    intro d hd
    rcases hs with rfl | ⟨rfl, rfl⟩ <;> simp only [State.step, hd, if_true]
  -- the item is read as any value
  have hvalue : ∀ more, Scan.run s (i.part.text ++ more) =
      Scan.run ⟨.item items :: frames, .value⟩ (i.part.text ++ more) := by
    intro more
    have hstep : s.step d = startValue (.item items :: frames) d := by
      rcases hs with rfl | ⟨rfl, rfl⟩ <;>
        simp only [State.step, hspace, hbracket, Bool.false_eq_true, if_false]
    have hdue : State.step ⟨.item items :: frames, .value⟩ d =
        startValue (.item items :: frames) d := by
      simp only [State.step, hspace, Bool.false_eq_true, if_false]
    rw [htext, List.cons_append, Scan.run, Scan.run, hdue, hstep]
  have hafter : Skips ⟨frames, .afterItem (i.part.value :: items)⟩ := by
    intro d hd
    simp only [State.step, stepAfterItem, hd, if_true]
  rw [Spaced.layout, List.append_assoc, List.append_assoc, run_gap hskip, hvalue,
    hi.run _ (endsNumber_of_gap i.after hc more)]
  exact run_gap hafter i.after (c :: more)

/-- The items of a list that is not empty. -/
theorem run_items {i : Spaced Item} {is : List (Spaced Item)}
    (h : ∀ j ∈ i :: is, ReadsAs j.part.value j.part.text)
    (hs : s = ⟨frames, .nextItem items⟩ ∨ (s = ⟨frames, .firstItem⟩ ∧ items = []))
    (more : List Char) :
    Scan.run s (commas ((i :: is).map (Spaced.layout Item.text)) ++ ']' :: more) =
      resume (.list (items.reverse ++ (i :: is).map (·.part.value))) frames more := by
  have hi := h i List.mem_cons_self
  induction is generalizing i items s with
  | nil =>
    have hclose : State.step ⟨frames, .afterItem (i.part.value :: items)⟩ ']' =
        complete (.list (items.reverse ++ [i.part.value])) frames := by
      rw [← List.reverse_cons]
      rfl
    exact (run_item hi hs (.inr (.inl rfl)) more).trans (run_complete hclose more)
  | cons j js ih =>
    have hcomma : State.step ⟨frames, .afterItem (i.part.value :: items)⟩ ',' =
        .more ⟨frames, .nextItem (i.part.value :: items)⟩ := rfl
    have hjs : ∀ k ∈ j :: js, ReadsAs k.part.value k.part.text := fun k hk => h k (.tail i hk)
    rw [List.map_cons, List.map_cons, commas, List.append_assoc, List.cons_append,
      run_item hi hs (.inl rfl), run_more hcomma]
    refine (ih hjs (.inl rfl) (hjs j List.mem_cons_self)).trans ?_
    rw [List.reverse_cons, List.append_assoc]
    rfl

theorem list {items : List (Spaced Item)} (hsome : items ≠ [])
    (h : ∀ i ∈ items, ReadsAs i.part.value i.part.text) :
    ReadsAs (.list (items.map (·.part.value)))
      ('[' :: (commas (items.map (Spaced.layout Item.text)) ++ [']'])) where
  head := ⟨'[', _, rfl, by decide, by decide⟩
  run frames more _ := by
    have hopen : State.step ⟨frames, .value⟩ '[' = .more ⟨frames, .firstItem⟩ := rfl
    obtain ⟨i, is, rfl⟩ := List.exists_cons_of_ne_nil hsome
    rw [List.cons_append, List.append_assoc, run_more hopen]
    exact run_items h (.inr ⟨rfl, rfl⟩) more

theorem emptyList (g : Gap) : ReadsAs (.list []) ('[' :: (g.chars ++ [']'])) where
  head := ⟨'[', _, rfl, by decide, by decide⟩
  run frames more _ := by
    have hopen : State.step ⟨frames, .value⟩ '[' = .more ⟨frames, .firstItem⟩ := rfl
    have hskip : Skips ⟨frames, .firstItem⟩ := by
      intro c hc
      simp only [State.step, hc, if_true]
    have hclose : State.step ⟨frames, .firstItem⟩ ']' = complete (.list []) frames := rfl
    rw [List.cons_append, List.append_assoc, run_more hopen, run_gap hskip]
    exact run_complete hclose more

/-! ## Reading objects -/

/-- Where a name is due, the machine reads the member up to what follows it. -/
theorem run_entry {e : Spaced Entry} (hname : Token (.string e.part.name) e.part.nameText)
    (he : ReadsAs e.part.value e.part.valueText)
    (hs : s = ⟨frames, .nextName members⟩ ∨ (s = ⟨frames, .firstName⟩ ∧ members = []))
    (hc : c = ',' ∨ c = ']' ∨ c = '}') (more : List Char) :
    Scan.run s (e.layout Entry.text ++ c :: more) =
      Scan.run ⟨frames, .afterMember (e.part.member :: members)⟩ (c :: more) := by
  obtain ⟨tail, htext, hreads⟩ : ∃ tail, e.part.nameText = '"' :: tail ∧
      StringState.start.Reads tail e.part.name := by
    generalize e.part.nameText = cs, hv : Value.string e.part.name = v at hname
    cases hname with
    | word w => cases w <;> cases hv
    | negative | number => cases hv
    | string h =>
      cases hv
      exact ⟨_, rfl, h⟩
  have hskip : Skips s := by
    intro d hd
    rcases hs with rfl | ⟨rfl, rfl⟩ <;> simp only [State.step, hd, if_true]
  have hopen : s.step '"' = .more ⟨frames, .name members .start⟩ := by
    rcases hs with rfl | ⟨rfl, rfl⟩ <;> rfl
  have hbefore : Skips ⟨frames, .colon members e.part.name⟩ := by
    intro d hd
    simp only [State.step, hd, if_true]
  have hcolon : State.step ⟨frames, .colon members e.part.name⟩ ':' =
      .more ⟨.member members e.part.name :: frames, .value⟩ := rfl
  have hdue : Skips ⟨.member members e.part.name :: frames, .value⟩ := by
    intro d hd
    simp only [State.step, hd, if_true]
  have hafter : Skips ⟨frames, .afterMember (e.part.member :: members)⟩ := by
    intro d hd
    simp only [State.step, stepAfterMember, hd, if_true]
  simp only [Spaced.layout, Entry.text, List.append_assoc, List.cons_append]
  rw [run_gap hskip, htext, List.cons_append, run_more hopen, run_nameReads hreads, run_gap hbefore,
    run_more hcolon, run_gap hdue, he.run _ (endsNumber_of_gap e.after hc more)]
  exact run_gap hafter e.after (c :: more)

/-- The members of an object that is not empty. -/
theorem run_entries {e : Spaced Entry} {es : List (Spaced Entry)}
    (hnames : ∀ d ∈ e :: es, Token (.string d.part.name) d.part.nameText)
    (h : ∀ d ∈ e :: es, ReadsAs d.part.value d.part.valueText)
    (hs : s = ⟨frames, .nextName members⟩ ∨ (s = ⟨frames, .firstName⟩ ∧ members = []))
    (more : List Char) :
    Scan.run s (commas ((e :: es).map (Spaced.layout Entry.text)) ++ '}' :: more) =
      resume (.object (members.reverse ++ (e :: es).map (·.part.member))) frames more := by
  have hname := hnames e List.mem_cons_self
  have he := h e List.mem_cons_self
  induction es generalizing e members s with
  | nil =>
    have hclose : State.step ⟨frames, .afterMember (e.part.member :: members)⟩ '}' =
        complete (.object (members.reverse ++ [e.part.member])) frames := by
      rw [← List.reverse_cons]
      rfl
    exact (run_entry hname he hs (.inr (.inr rfl)) more).trans (run_complete hclose more)
  | cons d ds ih =>
    have hcomma : State.step ⟨frames, .afterMember (e.part.member :: members)⟩ ',' =
        .more ⟨frames, .nextName (e.part.member :: members)⟩ := rfl
    rw [List.map_cons, List.map_cons, commas, List.append_assoc, List.cons_append,
      run_entry hname he hs (.inl rfl), run_more hcomma]
    refine (ih (fun k hk => hnames k (.tail e hk)) (fun k hk => h k (.tail e hk)) (.inl rfl)
      (hnames d (.tail e List.mem_cons_self)) (h d (.tail e List.mem_cons_self))).trans ?_
    rw [List.reverse_cons, List.append_assoc]
    rfl

theorem object {entries : List (Spaced Entry)} (hsome : entries ≠ [])
    (hnames : ∀ e ∈ entries, Token (.string e.part.name) e.part.nameText)
    (h : ∀ e ∈ entries, ReadsAs e.part.value e.part.valueText) :
    ReadsAs (.object (entries.map (·.part.member)))
      ('{' :: (commas (entries.map (Spaced.layout Entry.text)) ++ ['}'])) where
  head := ⟨'{', _, rfl, by decide, by decide⟩
  run frames more _ := by
    have hopen : State.step ⟨frames, .value⟩ '{' = .more ⟨frames, .firstName⟩ := rfl
    obtain ⟨e, es, rfl⟩ := List.exists_cons_of_ne_nil hsome
    rw [List.cons_append, List.append_assoc, run_more hopen]
    exact run_entries hnames h (.inr ⟨rfl, rfl⟩) more

theorem emptyObject (g : Gap) : ReadsAs (.object []) ('{' :: (g.chars ++ ['}'])) where
  head := ⟨'{', _, rfl, by decide, by decide⟩
  run frames more _ := by
    have hopen : State.step ⟨frames, .value⟩ '{' = .more ⟨frames, .firstName⟩ := rfl
    have hskip : Skips ⟨frames, .firstName⟩ := by
      intro c hc
      simp only [State.step, hc, if_true]
    have hclose : State.step ⟨frames, .firstName⟩ '}' = complete (.object []) frames := rfl
    rw [List.cons_append, List.append_assoc, run_more hopen, run_gap hskip]
    exact run_complete hclose more

end ReadsAs

/-! ## Reading bodies -/

/-- The machine reads a value from each of its texts. -/
theorem Spells.readsAs {v : Value} {cs : List Char} (h : Spells v cs) : ReadsAs v cs := by
  induction h with
  | token h => exact h.readsAs
  | emptyList g => exact .emptyList g
  | list hsome _ ih => exact .list hsome ih
  | emptyObject g => exact .emptyObject g
  | object hsome hnames _ ih => exact .object hsome hnames ih

/-- A body that begins with a text of a list or an object says that value, whatever follows it. -/
theorem Body.ofText {v : Value} {body rest : List Char} (h : Body v body rest) (hv : v.Bracketed) :
    Reading.ofText body = .whole v rest := by
  obtain ⟨g, cs, hcs, rfl⟩ := h
  have hskip : Skips start := by
    intro c hc
    simp only [start, State.step, hc, if_true]
  have hwhole : Scan.run start cs = .whole v [] := by
    have hend : EndsNumber [] := trivial
    have hrun := hcs.readsAs.run [] hend
    rwa [List.append_nil] at hrun
  obtain ⟨taken, htaken, hrun⟩ := run_splits hwhole hv
  rw [List.append_nil] at htaken
  rw [Reading.ofText, run_gap hskip, htaken]
  exact hrun rest

end HeatWatch.Json
