import HeatWatch.Proofs.Json.Grammar

/-!
# What was read is spelled by the grammar

Nothing is read but what the grammar allows: behind every value that the machine gives back there is
a text of that value. What the machine has taken so far is known from its state: the texts of the
items and members in the frames, each with the comma after it, and the beginning of what comes next.
Main statements:

* `Scan.took_step`: so it is after one more character;
* `body_of_ofText`: a body that says a value begins with a text of it.
-/

namespace HeatWatch.Json

/-- One more character of white space. -/
def Gap.push (g : Gap) (c : Char) (hc : Scan.isSpace c = true) : Gap :=
  ⟨g.chars ++ [c], fun d hd => by
    rcases List.mem_append.1 hd with h | h
    · exact g.blank d h
    · rwa [List.mem_singleton.1 h]⟩

/-! ## Parts of lists and objects -/

/-- A kind of parts: their texts, which of them are spelled as they should be, and what they say. -/
structure PartKind (π ν : Type) where
  text : π → List Char
  Spelled : π → Prop
  value : π → ν

namespace PartKind

def items : PartKind Item Value := ⟨Item.text, fun i => Spells i.value i.text, Item.value⟩

def members : PartKind Entry Member :=
  ⟨Entry.text, fun e => Token (.string e.name) e.nameText ∧ Spells e.value e.valueText, Entry.member⟩

variable {π ν : Type} {k : PartKind π ν} {ps : List π} {p : π} {vs : List ν} {cs : List Char} {c : Char}

/-- The parts say the values, of which the latest one stands first. -/
structure Say (k : PartKind π ν) (ps : List π) (vs : List ν) : Prop where
  spelled : ∀ p ∈ ps, k.Spelled p
  values : vs = (ps.map k.value).reverse

theorem Say.concat (h : k.Say ps vs) (hp : k.Spelled p) : k.Say (ps ++ [p]) (k.value p :: vs) where
  spelled q hq := by
    rcases List.mem_append.1 hq with hq | hq
    · exact h.spelled q hq
    · rwa [List.mem_singleton.1 hq]
  values := by
    rw [List.map_append, List.reverse_append, ← h.values]
    rfl

theorem Say.reverse (h : k.Say ps vs) : vs.reverse = ps.map k.value := by
  rw [h.values, List.reverse_reverse]

/-- The text of parts that each have the comma after it. -/
def terminated (k : PartKind π ν) (ps : List (Spaced π)) : List Char :=
  ps.flatMap fun p => p.layout k.text ++ [',']

theorem terminated_concat (ps : List (Spaced π)) (p : Spaced π) :
    k.terminated (ps ++ [p]) = k.terminated ps ++ p.layout k.text ++ [','] := by
  unfold terminated
  rw [List.flatMap_append, List.flatMap_singleton, List.append_assoc]

theorem commas_concat (ps : List (Spaced π)) (p : Spaced π) :
    commas ((ps ++ [p]).map (Spaced.layout k.text)) = k.terminated ps ++ p.layout k.text := by
  induction ps with
  | nil => rfl
  | cons q qs ih =>
    have hcons : ∀ t ts, ts ≠ [] → commas (t :: ts) = t ++ ',' :: commas ts := by
      intro t ts hts
      obtain ⟨u, us, rfl⟩ := List.exists_cons_of_ne_nil hts
      rfl
    rw [List.cons_append, List.map_cons, hcons _ _ (by simp), ih]
    simp [terminated]

/-- The text of parts after which another one can come. -/
def Open (k : PartKind π ν) (vs : List ν) (cs : List Char) : Prop :=
  ∃ (ps : List (Spaced π)) (g : Gap), k.Say (ps.map (·.part)) vs ∧ cs = k.terminated ps ++ g.chars

/-- The text of parts after which a comma or the end can come. -/
def Read (k : PartKind π ν) (vs : List ν) (cs : List Char) : Prop :=
  ∃ (ps : List (Spaced π)) (p : Spaced π), k.Say ((ps ++ [p]).map (·.part)) vs ∧
    cs = k.terminated ps ++ p.layout k.text

theorem open_nil : k.Open [] [] := ⟨[], .empty, ⟨nofun, rfl⟩, rfl⟩

theorem gap_of_open (h : k.Open [] cs) : ∃ g : Gap, cs = g.chars := by
  obtain ⟨ps, g, hps, rfl⟩ := h
  obtain rfl : ps = [] := by simpa using hps.reverse.symm
  exact ⟨g, rfl⟩

theorem Open.space (h : k.Open vs cs) (hc : Scan.isSpace c = true) : k.Open vs (cs ++ [c]) := by
  obtain ⟨ps, g, hps, rfl⟩ := h
  exact ⟨ps, g.push c hc, hps, List.append_assoc ..⟩

theorem Open.read (h : k.Open vs cs) (hp : k.Spelled p) :
    k.Read (k.value p :: vs) (cs ++ k.text p) := by
  obtain ⟨ps, g, hps, rfl⟩ := h
  refine ⟨ps, ⟨g, p, .empty⟩, ?_, ?_⟩
  · rw [List.map_append]
    exact hps.concat hp
  · simp [Spaced.layout, Gap.empty]

theorem Read.space (h : k.Read vs cs) (hc : Scan.isSpace c = true) : k.Read vs (cs ++ [c]) := by
  obtain ⟨ps, p, hps, rfl⟩ := h
  refine ⟨ps, { p with after := p.after.push c hc }, ?_, ?_⟩
  · rw [List.map_append] at hps ⊢
    exact hps
  · simp [Spaced.layout, Gap.push]

theorem Read.comma (h : k.Read vs cs) : k.Open vs (cs ++ [',']) := by
  obtain ⟨ps, p, hps, rfl⟩ := h
  refine ⟨ps ++ [p], .empty, hps, ?_⟩
  rw [terminated_concat]
  exact (List.append_nil _).symm

end PartKind

theorem spells_emptyList {cs : List Char} (h : PartKind.items.Open [] cs) :
    Spells (.list []) ('[' :: (cs ++ [']'])) := by
  obtain ⟨g, rfl⟩ := PartKind.gap_of_open h
  exact .emptyList g

theorem spells_emptyObject {cs : List Char} (h : PartKind.members.Open [] cs) :
    Spells (.object []) ('{' :: (cs ++ ['}'])) := by
  obtain ⟨g, rfl⟩ := PartKind.gap_of_open h
  exact .emptyObject g

theorem spells_list {items : List Value} {cs : List Char} (h : PartKind.items.Read items cs) :
    Spells (.list items.reverse) ('[' :: (cs ++ [']'])) := by
  obtain ⟨is, i, his, rfl⟩ := h
  rw [his.reverse, List.map_map, ← PartKind.commas_concat]
  exact .list (by simp) fun j hj => his.spelled j.part (List.mem_map_of_mem hj)

theorem spells_object {members : List Member} {cs : List Char}
    (h : PartKind.members.Read members cs) :
    Spells (.object members.reverse) ('{' :: (cs ++ ['}'])) := by
  obtain ⟨es, e, hes, rfl⟩ := h
  rw [hes.reverse, List.map_map, ← PartKind.commas_concat]
  exact .object (by simp) (fun d hd => (hes.spelled d.part (List.mem_map_of_mem hd)).1)
    fun d hd => (hes.spelled d.part (List.mem_map_of_mem hd)).2

namespace Scan

/-! ## What was taken -/

/-- What stands before the value that is due inside the frames. -/
def Opened : List Frame → List Char → Prop
  | [], cs => ∃ g : Gap, cs = g.chars
  | .item before :: frames, cs => ∃ outer inner, Opened frames outer ∧
      PartKind.items.Open before inner ∧ cs = outer ++ '[' :: inner
  | .member before name :: frames, cs => ∃ outer inner nameText, ∃ g h : Gap, Opened frames outer ∧
      PartKind.members.Open before inner ∧ Token (.string name) nameText ∧
      cs = outer ++ '{' :: (inner ++ (nameText ++ (g.chars ++ ':' :: h.chars)))

/-- What the machine has taken of a text when it is in the state. -/
def State.Took : State → List Char → Prop
  | ⟨frames, .value⟩, cs => Opened frames cs
  | ⟨frames, .firstItem⟩, cs => ∃ outer inner, Opened frames outer ∧
      PartKind.items.Open [] inner ∧ cs = outer ++ '[' :: inner
  | ⟨frames, .nextItem items⟩, cs => ∃ outer inner, Opened frames outer ∧
      PartKind.items.Open items inner ∧ cs = outer ++ '[' :: inner
  | ⟨frames, .afterItem items⟩, cs => ∃ outer inner, Opened frames outer ∧
      PartKind.items.Read items inner ∧ cs = outer ++ '[' :: inner
  | ⟨frames, .firstName⟩, cs => ∃ outer inner, Opened frames outer ∧
      PartKind.members.Open [] inner ∧ cs = outer ++ '{' :: inner
  | ⟨frames, .nextName members⟩, cs => ∃ outer inner, Opened frames outer ∧
      PartKind.members.Open members inner ∧ cs = outer ++ '{' :: inner
  | ⟨frames, .afterMember members⟩, cs => ∃ outer inner, Opened frames outer ∧
      PartKind.members.Read members inner ∧ cs = outer ++ '{' :: inner
  | ⟨frames, .name members t⟩, cs => ∃ outer inner begun, Opened frames outer ∧
      PartKind.members.Open members inner ∧
      (∀ rest n, t.Reads rest n → Token (.string n) (begun ++ rest)) ∧
      cs = outer ++ '{' :: (inner ++ begun)
  | ⟨frames, .colon members name⟩, cs => ∃ outer inner nameText, ∃ g : Gap, Opened frames outer ∧
      PartKind.members.Open members inner ∧ Token (.string name) nameText ∧
      cs = outer ++ '{' :: (inner ++ (nameText ++ g.chars))
  | ⟨frames, .word w left⟩, cs => ∃ outer begun, Opened frames outer ∧ left ≠ [] ∧
      begun ++ left = w.letters ∧ cs = outer ++ begun
  | ⟨frames, .number s⟩, cs => ∃ outer begun, Opened frames outer ∧
      (∀ rest n, s.Reads rest n → Token (.number n) (begun ++ rest)) ∧ cs = outer ++ begun
  | ⟨frames, .string t⟩, cs => ∃ outer begun, Opened frames outer ∧
      (∀ rest n, t.Reads rest n → Token (.string n) (begun ++ rest)) ∧ cs = outer ++ begun

/-- What was taken with one more character, or the text of the value that ends there. -/
def Step.Took (cs : List Char) (c : Char) : Step → Prop
  | .more s => s.Took (cs ++ [c])
  | .whole v taken => Body v (cs ++ [c]) (if taken then [] else [c])
  | .broken _ => True

variable {frames : List Frame} {items : List Value} {members : List Member}
  {outer inner cs text : List Char} {c : Char} {v : Value}

/-! ## Steps -/

theorem read_item (h : PartKind.items.Open items inner) (hv : Spells v text) :
    PartKind.items.Read (v :: items) (inner ++ text) :=
  PartKind.Open.read (p := Item.mk v text) h hv

theorem read_member {name : Quoted} {nameText : List Char} (g g' : Gap)
    (h : PartKind.members.Open members inner) (hname : Token (.string name) nameText)
    (hv : Spells v text) : PartKind.members.Read ((name, v) :: members)
      (inner ++ (nameText ++ (g.chars ++ ':' :: (g'.chars ++ text)))) :=
  PartKind.Open.read (p := Entry.mk name nameText g g' v text) h ⟨hname, hv⟩

/-- A value that is complete takes its place in the innermost frame. -/
theorem took_complete (h : Opened frames outer) (hv : Spells v text)
    (hcs : cs ++ [c] = outer ++ text) : (complete v frames).Took cs c := by
  unfold complete
  cases frames with
  | nil =>
    obtain ⟨g, rfl⟩ := h
    exact ⟨g, text, hv, by rw [hcs]; simp⟩
  | cons frame frames =>
    cases frame with
    | item before =>
      obtain ⟨outer', inner, houter, hinner, rfl⟩ := h
      refine ⟨outer', _, houter, read_item hinner hv, ?_⟩
      rw [hcs, List.append_assoc, List.cons_append]
    | member before name =>
      obtain ⟨outer', inner, nameText, g, g', houter, hinner, hname, rfl⟩ := h
      refine ⟨outer', _, houter, read_member g g' hinner hname hv, ?_⟩
      rw [hcs]
      simp

theorem took_startValue (h : Opened frames cs) : (startValue frames c).Took cs c := by
  unfold startValue
  split_ifs with hquote hbracket hbrace hn ht hf hminus
  · subst hquote
    exact ⟨cs, ['"'], h, fun _ _ hr => .string hr, rfl⟩
  · subst hbracket
    exact ⟨cs, [], h, PartKind.open_nil, rfl⟩
  · subst hbrace
    exact ⟨cs, [], h, PartKind.open_nil, rfl⟩
  · subst hn
    exact ⟨cs, ['n'], h, nofun, rfl, rfl⟩
  · subst ht
    exact ⟨cs, ['t'], h, nofun, rfl, rfl⟩
  · subst hf
    exact ⟨cs, ['f'], h, nofun, rfl, rfl⟩
  · subst hminus
    exact ⟨cs, ['-'], h, fun _ _ hr => .negative hr, rfl⟩
  · split
    case h_1 d hd => exact ⟨cs, [c], h, fun _ _ hr => .number hd hr, rfl⟩
    case h_2 => trivial

theorem took_startName (h : Opened frames outer) (hinner : PartKind.members.Open members inner)
    (hcs : cs = outer ++ '{' :: inner) : (startName frames members c).Took cs c := by
  unfold startName
  split_ifs with hquote
  · subst hquote hcs
    exact ⟨outer, inner, ['"'], h, hinner, fun _ _ hr => .string hr, by simp⟩
  · trivial

theorem took_stepAfterItem (h : Opened frames outer) (hinner : PartKind.items.Read items inner)
    (hcs : cs = outer ++ '[' :: inner) : (stepAfterItem frames items c).Took cs c := by
  subst hcs
  unfold stepAfterItem
  split_ifs with hspace hcomma hbracket
  · exact ⟨outer, inner ++ [c], h, hinner.space hspace, by simp⟩
  · subst hcomma
    exact ⟨outer, inner ++ [','], h, hinner.comma, by simp⟩
  · subst hbracket
    exact took_complete h (spells_list hinner) (by simp)
  · trivial

theorem took_stepAfterMember (h : Opened frames outer)
    (hinner : PartKind.members.Read members inner) (hcs : cs = outer ++ '{' :: inner) :
    (stepAfterMember frames members c).Took cs c := by
  subst hcs
  unfold stepAfterMember
  split_ifs with hspace hcomma hbrace
  · exact ⟨outer, inner ++ [c], h, hinner.space hspace, by simp⟩
  · subst hcomma
    exact ⟨outer, inner ++ [','], h, hinner.comma, by simp⟩
  · subst hbrace
    exact took_complete h (spells_object hinner) (by simp)
  · trivial

/-- A value that ended before the character takes its place, and the character follows it. -/
theorem took_stepAfterValue (h : Opened frames outer) (hv : Spells v text)
    (hcs : cs = outer ++ text) : (stepAfterValue v frames c).Took cs c := by
  subst hcs
  cases frames with
  | nil =>
    obtain ⟨g, rfl⟩ := h
    exact ⟨g, text, hv, List.append_assoc ..⟩
  | cons frame frames =>
    cases frame with
    | item before =>
      obtain ⟨outer', inner, houter, hinner, rfl⟩ := h
      exact took_stepAfterItem houter (read_item hinner hv) (by simp)
    | member before name =>
      obtain ⟨outer', inner, nameText, g, g', houter, hinner, hname, rfl⟩ := h
      exact took_stepAfterMember houter (read_member g g' hinner hname hv) (by simp)

theorem finish_of_ended {s : NumberState} {n : Numeral} (h : s.step c = .ended n) :
    s.finish = .ended n := by
  unfold NumberState.step at h
  split at h
  · -- no digit ends a number
    split at h <;> cases h
  · split at h <;> first | exact h | (split_ifs at h; exact h)

theorem numeral?_of_ended {s : NumberState} {n : Numeral} (h : s.step c = .ended n) :
    s.numeral? = some n := by
  have hfinish := finish_of_ended h
  unfold NumberState.finish at hfinish
  split at hfinish
  case h_1 m hm =>
    cases hfinish
    exact hm
  case h_2 => cases hfinish

theorem Opened.space (h : Opened frames outer) (hc : isSpace c = true) :
    Opened frames (outer ++ [c]) := by
  cases frames with
  | nil =>
    obtain ⟨g, rfl⟩ := h
    exact ⟨g.push c hc, rfl⟩
  | cons frame frames =>
    cases frame with
    | item before =>
      obtain ⟨outer', inner, houter, hinner, rfl⟩ := h
      exact ⟨outer', inner ++ [c], houter, hinner.space hc, by simp⟩
    | member before name =>
      obtain ⟨outer', inner, nameText, g, g', houter, hinner, hname, rfl⟩ := h
      exact ⟨outer', inner, nameText, g, g'.push c hc, houter, hinner, hname, by simp [Gap.push]⟩

/-- So it is after one more character. -/
theorem took_step {s : State} (h : s.Took cs) (c : Char) : (s.step c).Took cs c := by
  obtain ⟨frames, place⟩ := s
  cases place with
  | value =>
    simp only [State.step]
    split_ifs with hspace
    · exact Opened.space h hspace
    · exact took_startValue h
  | firstItem =>
    obtain ⟨outer, inner, houter, hinner, rfl⟩ := h
    simp only [State.step]
    split_ifs with hspace hbracket
    · exact ⟨outer, inner ++ [c], houter, hinner.space hspace, by simp⟩
    · subst hbracket
      exact took_complete houter (spells_emptyList hinner) (by simp)
    · exact took_startValue ⟨outer, inner, houter, hinner, rfl⟩
  | afterItem items =>
    obtain ⟨outer, inner, houter, hinner, hcs⟩ := h
    exact took_stepAfterItem houter hinner hcs
  | nextItem items =>
    obtain ⟨outer, inner, houter, hinner, rfl⟩ := h
    simp only [State.step]
    split_ifs with hspace hbracket
    · exact ⟨outer, inner ++ [c], houter, hinner.space hspace, by simp⟩
    · trivial
    · exact took_startValue ⟨outer, inner, houter, hinner, rfl⟩
  | firstName =>
    obtain ⟨outer, inner, houter, hinner, rfl⟩ := h
    simp only [State.step]
    split_ifs with hspace hbrace
    · exact ⟨outer, inner ++ [c], houter, hinner.space hspace, by simp⟩
    · subst hbrace
      exact took_complete houter (spells_emptyObject hinner) (by simp)
    · exact took_startName houter hinner rfl
  | afterMember members =>
    obtain ⟨outer, inner, houter, hinner, hcs⟩ := h
    exact took_stepAfterMember houter hinner hcs
  | nextName members =>
    obtain ⟨outer, inner, houter, hinner, rfl⟩ := h
    simp only [State.step]
    split_ifs with hspace hbrace
    · exact ⟨outer, inner ++ [c], houter, hinner.space hspace, by simp⟩
    · trivial
    · exact took_startName houter hinner rfl
  | name members t =>
    obtain ⟨outer, inner, begun, houter, hinner, htoken, rfl⟩ := h
    simp only [State.step]
    split
    case h_1 u hu =>
      refine ⟨outer, inner, begun ++ [c], houter, hinner, fun rest n hr => ?_, by simp⟩
      rw [List.append_assoc]
      exact htoken _ n (.more hu hr)
    case h_2 name hclose =>
      exact ⟨outer, inner, begun ++ [c], .empty, houter, hinner, htoken _ name (.close hclose),
        by simp [Gap.empty]⟩
    case h_3 => trivial
  | colon members name =>
    obtain ⟨outer, inner, nameText, g, houter, hinner, hname, rfl⟩ := h
    simp only [State.step]
    split_ifs with hspace hcolon
    · exact ⟨outer, inner, nameText, g.push c hspace, houter, hinner, hname, by simp [Gap.push]⟩
    · subst hcolon
      exact ⟨outer, inner, nameText, g, .empty, houter, hinner, hname, by simp [Gap.empty]⟩
    · trivial
  | word w left =>
    obtain ⟨outer, begun, houter, hleft, hletters, rfl⟩ := h
    obtain ⟨l, ls, rfl⟩ := List.exists_cons_of_ne_nil hleft
    simp only [State.step]
    split_ifs with hc hlast
    · -- the last letter
      subst hc
      obtain rfl := List.isEmpty_iff.1 hlast
      refine took_complete houter (.token ?_) (List.append_assoc ..)
      rw [hletters]
      exact .word w
    · subst hc
      exact ⟨outer, begun ++ [c], houter, fun hnil => hlast (List.isEmpty_iff.2 hnil),
        by rw [← hletters]; simp, by simp⟩
    · trivial
  | number s =>
    obtain ⟨outer, begun, houter, htoken, rfl⟩ := h
    simp only [State.step]
    split
    case h_1 t ht =>
      refine ⟨outer, begun ++ [c], houter, fun rest n hr => ?_, by simp⟩
      rw [List.append_assoc]
      exact htoken _ n (.more ht hr)
    case h_2 n hended =>
      have hnumber := htoken [] n (.done (numeral?_of_ended hended))
      rw [List.append_nil] at hnumber
      exact took_stepAfterValue houter (.token hnumber) rfl
    case h_3 => trivial
  | string t =>
    obtain ⟨outer, begun, houter, htoken, rfl⟩ := h
    simp only [State.step]
    split
    case h_1 u hu =>
      refine ⟨outer, begun ++ [c], houter, fun rest n hr => ?_, by simp⟩
      rw [List.append_assoc]
      exact htoken _ n (.more hu hr)
    case h_2 n hclose =>
      exact took_complete houter (.token (htoken _ n (.close hclose))) (List.append_assoc ..)
    case h_3 => trivial

/-! ## Whole texts -/

theorem took_finish {s : State} {rest : List Char} (h : s.Took cs) (hfinish : s.finish = .whole v rest) :
    Body v cs rest := by
  obtain ⟨frames, place⟩ := s
  cases place with
  | number s =>
    obtain ⟨outer, begun, houter, htoken, rfl⟩ := h
    simp only [State.finish] at hfinish
    split at hfinish
    case h_1 => cases hfinish
    case h_2 n hn =>
      have hnumber := htoken [] n (.done hn)
      rw [List.append_nil] at hnumber
      -- only a number outside of lists and objects ends with the text
      split at hfinish <;> cases hfinish
      obtain ⟨g, rfl⟩ := houter
      exact ⟨g, begun, .token hnumber, by simp⟩
  | value | firstItem | afterItem | nextItem | firstName | afterMember | nextName | name | colon
    | word | string => cases hfinish

theorem took_run {s : State} {rest : List Char} (h : s.Took cs) (hrun : run s text = .whole v rest) :
    Body v (cs ++ text) rest := by
  induction text generalizing s cs with
  | nil =>
    rw [List.append_nil]
    exact took_finish h hrun
  | cons c text ih =>
    have hstep := took_step h c
    unfold run at hrun
    cases heq : s.step c with
    | more s' =>
      rw [heq] at hrun hstep
      rw [List.append_cons]
      exact ih hstep hrun
    | whole w taken =>
      rw [heq] at hrun hstep
      obtain ⟨g, cs', hcs', htext⟩ := hstep
      cases hrun
      refine ⟨g, cs', hcs', ?_⟩
      rw [List.append_cons, htext]
      cases taken <;> simp
    | broken f =>
      rw [heq] at hrun
      cases hrun

end Scan

/-- A body that says a value begins with a text of that value. -/
theorem body_of_ofText {v : Value} {body rest : List Char}
    (h : Reading.ofText body = .whole v rest) : Body v body rest := by
  have hstart : Scan.start.Took [] := ⟨.empty, rfl⟩
  exact Scan.took_run hstart h

end HeatWatch.Json
