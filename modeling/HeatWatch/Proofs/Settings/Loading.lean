import HeatWatch.Proofs.Exchange.Tokens
import HeatWatch.Proofs.Settings.Assignments

/-!
# Loading environment files

A file is read line by line up to the first line that says nothing well-formed, and the environment grows as
it is read. Main statements:

* `lines_append`, `lines_rest`: what the lines of a file are;
* `settable_iff_of_assigns`, `Sets.settable`: the process can hold what a line assigns, if the file has no byte
  of number zero;
* `loadLines_wellFormed`: what lines that are well-formed leave of an environment;
* `load_sets_first_assignments`: what a file leaves of it, when loading fails, and that a file may be loaded
  again.
-/

/-! ## One variable -/

namespace HeatWatch.Environment

/-- The environment with the variable set, if it was not. -/
def offer (e : Environment) (name value : String) : Environment :=
  if (e.get? name).isSome then e else e.set name value

variable {e : Environment} {name name' value : String} {v : Variable}

theorem offer_of_set (h : (e.get? name).isSome = true) (value : String) : e.offer name value = e :=
  if_pos h

/-- What is set stays, and of the others one is set. -/
theorem get?_offer (e : Environment) (name name' value : String) : (e.offer name value).get? name' =
    (e.get? name').or (if name' = name then some (.text value) else none) := by
  by_cases hset : (e.get? name).isSome = true
  · rw [offer_of_set hset]
    by_cases hname : name' = name
    · obtain ⟨v, hv⟩ := Option.isSome_iff_exists.1 hset
      rw [hname, hv, Option.some_or]
    · rw [if_neg hname, Option.or_none]
  · have hunset : e.get? name = none := Option.not_isSome_iff_eq_none.1 hset
    rw [offer, if_neg hset, get?_set e name name' value hunset]
    by_cases hname : name' = name
    · rw [if_pos hname, if_pos hname, hname, hunset, Option.none_or]
    · rw [if_neg hname, if_neg hname, Option.or_none]

theorem get?_offer_of_some (h : e.get? name' = some v) (name value : String) :
    (e.offer name value).get? name' = some v := by
  rw [get?_offer, h, Option.some_or]

theorem get?_offer_self (h : e.get? name = none) (value : String) :
    (e.offer name value).get? name = some (.text value) := by
  rw [get?_offer, h, if_pos rfl, Option.none_or]

theorem get?_offer_of_ne (h : name' ≠ name) (e : Environment) (value : String) :
    (e.offer name value).get? name' = e.get? name' := by
  rw [get?_offer, if_neg h, Option.or_none]

end HeatWatch.Environment

namespace HeatWatch.EnvFile

/-! ## Lines and what they say -/

/-- The bytes are a text that is blank, a comment or an assignment. -/
def WellFormed (l : List UInt8) : Prop :=
  ∃ s, textOfBytes? l = some s ∧ (IsRemark s.toList ∨ ∃ name v, Assigns s.toList name v)

/-- The line assigns the value to the name. -/
def Sets (l : List UInt8) (name value : String) : Prop :=
  ∃ s, textOfBytes? l = some s ∧ Assigns s.toList name.toList value.toList

/-- The first of the lines that assigns something to the name assigns the value. -/
def SetsFirst (ls : List (List UInt8)) (name value : String) : Prop :=
  ∃ before l after, ls = before ++ l :: after ∧ Sets l name value ∧
    ∀ l' ∈ before, ∀ other, ¬ Sets l' name other

/-- The message names the file and the number of the line. -/
inductive Complains (path : String) (n : Nat) (l : List UInt8) : String → Prop
  | notText (h : textOfBytes? l = none) : Complains path n l
      ("failed to read " ++ path ++ " at line " ++ Decimal.Whole.natText n ++ ": "
        ++ FileFault.notText.message)
  | noAssignment {s : String} {r : Refusal} (h : textOfBytes? l = some s) (hr : parseLine s = .error r) :
      Complains path n l (path ++ ":" ++ Decimal.Whole.natText n ++ ": " ++ r.message)

/-- The variables that were set are as they were, the others are what the lines assign to them first. -/
structure Extends (e : Environment) (ls : List (List UInt8)) (e' : Environment) : Prop where
  kept : ∀ name v, e.get? name = some v → e'.get? name = some v
  assigned : ∀ name value, e.get? name = none → SetsFirst ls name value →
    e'.get? name = some (.text value)
  untouched : ∀ name, e.get? name = none → (∀ l ∈ ls, ∀ value, ¬ Sets l name value) →
    e'.get? name = none

theorem Sets.unique {l : List UInt8} {name name' value value' : String} (h : Sets l name value)
    (h' : Sets l name' value') : name = name' ∧ value = value' := by
  obtain ⟨s, hs, hassigns⟩ := h
  obtain ⟨s', hs', hassigns'⟩ := h'
  cases hs.symm.trans hs'
  have hread := parseLine_eq_some_iff.2 hassigns
  rw [parseLine_eq_some_iff.2 hassigns'] at hread
  cases hread
  exact ⟨rfl, rfl⟩

theorem WellFormed.cases {l : List UInt8} (h : WellFormed l) :
    (∃ s, textOfBytes? l = some s ∧ IsRemark s.toList) ∨ ∃ name value, Sets l name value := by
  obtain ⟨s, hs, hremark | ⟨name, v, hassigns⟩⟩ := h
  · exact .inl ⟨s, hs, hremark⟩
  · refine .inr ⟨String.ofList name, String.ofList v, s, hs, ?_⟩
    rwa [String.toList_ofList, String.toList_ofList]

theorem wellFormed_iff {l : List UInt8} :
    WellFormed l ↔ ((textOfBytes? l).any fun s => (parseLine s).isOk) = true := by
  rw [Option.any_eq_true]
  constructor
  · rintro ⟨s, hs, hremark | ⟨name, v, hassigns⟩⟩
    · refine ⟨s, hs, ?_⟩
      rw [parseLine_eq_none_iff.2 hremark]
      rfl
    · refine ⟨s, hs, ?_⟩
      rw [← String.toList_ofList (l := name), ← String.toList_ofList (l := v)] at hassigns
      rw [parseLine_eq_some_iff.2 hassigns]
      rfl
  · rintro ⟨s, hs, hok⟩
    refine ⟨s, hs, ?_⟩
    cases hread : parseLine s with
    | error r =>
      rw [hread] at hok
      cases hok
    | ok answer =>
      rcases answer with _ | ⟨name, value⟩
      · exact .inl (parseLine_eq_none_iff.1 hread)
      · exact .inr ⟨_, _, parseLine_eq_some_iff.1 hread⟩

instance (l : List UInt8) : Decidable (WellFormed l) := decidable_of_iff _ wellFormed_iff.symm

/-- A blank line or a comment assigns nothing. -/
theorem not_sets_of_isRemark {l : List UInt8} {s : String} (hs : textOfBytes? l = some s)
    (h : IsRemark s.toList) (name value : String) : ¬ Sets l name value := by
  rintro ⟨s', hs', hassigns⟩
  cases hs.symm.trans hs'
  have hread := parseLine_eq_none_iff.2 h
  rw [parseLine_eq_some_iff.2 hassigns] at hread
  cases hread

/-! ## The character of number zero -/

/-- The characters of a value stand between the quotes, but for the white space that escapes mean. -/
theorem Quotes.Spells.mem {q : Quotes} {body v : List Char} (h : q.Spells body v) {c : Char}
    (hc : c ∈ v) : c ∈ body ∨ c ∈ ['\n', '\r', '\t'] := by
  induction h with
  | nil => cases hc
  | plain _ _ _ ih =>
    rcases List.mem_cons.1 hc with rfl | hc
    · exact .inl List.mem_cons_self
    · exact (ih hc).imp_left (List.mem_cons_of_mem _)
  | escaped _ e _ ih =>
    rcases List.mem_cons.1 hc with rfl | hc
    · unfold unescape
      split
      case isTrue => exact .inr (by decide)
      case isFalse =>
        split
        case isTrue => exact .inr (by decide)
        case isFalse =>
          split
          case isTrue => exact .inr (by decide)
          case isFalse => exact .inl (by simp)
    · exact (ih hc).imp_left fun hmem => List.mem_cons_of_mem _ (List.mem_cons_of_mem _ hmem)

theorem Denotes.mem {raw v : List Char} (h : Denotes raw v) {c : Char} (hc : c ∈ v) :
    c ∈ raw ∨ c ∈ ['\n', '\r', '\t'] := by
  rcases h with ⟨gap, q, hbody, -⟩ | ⟨gap, -, -, -, -, -⟩
  · refine (hbody.mem hc).imp_left fun hmem => ?_
    simp [hmem]
  · exact .inl (by simp [hc])

theorem name_of_assigns {line name v : List Char} (h : Assigns line name v) :
    name ≠ [] ∧ '=' ∉ name := by
  obtain ⟨heading, -⟩ := h
  exact ⟨heading.key.ne_nil, fun hmem => (heading.key.solid '=' hmem).2 rfl⟩

theorem zero_not_mem_of_assigns {line name v : List Char} (h : Assigns line name v)
    (hzero : '\x00' ∉ line) : '\x00' ∉ name ∧ '\x00' ∉ v := by
  obtain ⟨heading, hraw⟩ := h
  rw [heading.text_append] at hzero
  constructor
  · intro hname
    exact hzero (by simp [hname])
  · intro hv
    rcases hraw.mem hv with hmem | hmem
    · exact hzero (by simp [hmem])
    · exact absurd hmem (by decide)

/-- Of what a line assigns, the process can hold all but the character of number zero. -/
theorem settable_iff_of_assigns {line : List Char} {name value : String}
    (h : Assigns line name.toList value.toList) :
    Environment.Settable name value ↔ '\x00' ∉ name.toList ∧ '\x00' ∉ value.toList := by
  obtain ⟨hne, hequals⟩ := name_of_assigns h
  constructor
  · rintro ⟨-, -, hname, hvalue⟩
    exact ⟨hname, hvalue⟩
  · rintro ⟨hname, hvalue⟩
    exact ⟨mt String.toList_eq_nil_iff.2 hne, hequals, hname, hvalue⟩

/-- The character of number zero is the byte of number zero. -/
theorem zero_mem_of_textOfBytes? {l : List UInt8} {s : String} (h : textOfBytes? l = some s)
    (hs : '\x00' ∈ s.toList) : 0 ∈ l := by
  unfold textOfBytes? String.fromUTF8? at h
  split at h
  case isFalse => cases h
  case isTrue hvalid =>
    have hbytes : s.toByteArray = ⟨l.toArray⟩ := by
      cases h
      rfl
    -- the bytes of a text are those of its characters, one character after the other
    have hlist : s.toList.flatMap String.utf8EncodeChar = l := by
      have hencode := String.utf8Encode_toList (b := s)
      rw [hbytes] at hencode
      have hdata := congrArg (fun b : ByteArray => b.data.toList) hencode
      simpa [List.utf8Encode, List.data_toByteArray] using hdata
    rw [← hlist]
    exact List.mem_flatMap.2 ⟨'\x00', hs, by decide⟩

/-- The process can hold what a line without the byte of number zero assigns. -/
theorem Sets.settable {l : List UInt8} {name value : String} (h : Sets l name value) (hzero : 0 ∉ l) :
    Environment.Settable name value := by
  obtain ⟨s, hs, hassigns⟩ := h
  exact (settable_iff_of_assigns hassigns).2
    (zero_not_mem_of_assigns hassigns fun hmem => hzero (zero_mem_of_textOfBytes? hs hmem))

/-! ## The lines of a file -/

/-- A line ends before the line feed, and before a carriage return in front of that. -/
theorem lines_append {l : List UInt8} (h : 10 ∉ l) (bytes : List UInt8) :
    lines (l ++ 10 :: bytes) = (if l.getLast? = some 13 then l.dropLast else l) :: lines bytes := by
  induction l with
  | nil => rw [List.nil_append, lines, if_pos rfl]; rfl
  | cons b l ih =>
    have hb : b ≠ 10 := fun heq => h (heq ▸ List.mem_cons_self)
    have hl : 10 ∉ l := fun hmem => h (List.mem_cons_of_mem b hmem)
    rw [List.cons_append, lines, if_neg hb, ih hl]
    dsimp only
    cases l with
    | nil =>
      -- the line feed follows, so a carriage return goes
      by_cases hreturn : b = 13 <;> simp [hreturn]
    | cons c l =>
      have hc : c ≠ 10 := fun heq => hl (heq ▸ List.mem_cons_self)
      rw [if_neg (by simp [hc]), List.getLast?_cons_cons]
      split <;> rfl

/-- What follows the last line feed is a line, as it is. -/
theorem lines_rest {l : List UInt8} (h : 10 ∉ l) (hne : l ≠ []) : lines l = [l] := by
  induction l with
  | nil => exact absurd rfl hne
  | cons b l ih =>
    have hb : b ≠ 10 := fun heq => h (heq ▸ List.mem_cons_self)
    have hl : 10 ∉ l := fun hmem => h (List.mem_cons_of_mem b hmem)
    rw [lines, if_neg hb]
    cases l with
    | nil => rfl
    | cons c l =>
      have hc : c ≠ 10 := fun heq => hl (heq ▸ List.mem_cons_self)
      rw [ih hl (List.cons_ne_nil c l)]
      dsimp only
      rw [if_neg (by simp [hc])]

/-- The lines are the file but for the ends of lines. -/
theorem flatten_lines_sublist (bytes : List UInt8) : (lines bytes).flatten.Sublist bytes := by
  induction bytes with
  | nil => exact .slnil
  | cons b bytes ih =>
    unfold lines
    split
    case isTrue => exact ih.cons b
    case isFalse =>
      split
      case h_1 => exact (List.nil_sublist bytes).cons_cons b
      case h_2 l ls hrest =>
        rw [hrest] at ih
        split
        · exact ih.cons b
        · exact ih.cons_cons b

/-! ## One line -/

section

variable {l : List UInt8} {ls : List (List UInt8)} {e e' : Environment} {name value path : String}

theorem loadLines_of_remark {s : String} (hs : textOfBytes? l = some s) (h : IsRemark s.toList)
    (path : String) (e : Environment) (n : Nat) (ls : List (List UInt8)) :
    loadLines path e n (l :: ls) = loadLines path e (n + 1) ls := by
  rw [loadLines, hs]
  dsimp only
  rw [parseLine_eq_none_iff.2 h]

/-- A variable that is set stays, and one that is not is set if the process can hold it. -/
theorem loadLines_of_assignment (h : Sets l name value) (path : String) (e : Environment) (n : Nat)
    (ls : List (List UInt8)) : loadLines path e n (l :: ls) =
      if (e.get? name).isSome ∨ Environment.Settable name value then
        loadLines path (e.offer name value) (n + 1) ls
      else .aborted := by
  obtain ⟨s, hs, hassigns⟩ := h
  rw [loadLines, hs]
  dsimp only
  rw [parseLine_eq_some_iff.2 hassigns]
  dsimp only
  by_cases hset : (e.get? name).isSome = true
  · rw [if_pos hset, if_pos (.inl hset), Environment.offer_of_set hset]
  · rw [if_neg hset, Environment.offer, if_neg hset]
    exact if_congr (or_iff_right hset).symm rfl rfl

theorem loadLines_of_sets (h : Sets l name value) (hzero : 0 ∉ l) (path : String) (e : Environment)
    (n : Nat) (ls : List (List UInt8)) :
    loadLines path e n (l :: ls) = loadLines path (e.offer name value) (n + 1) ls := by
  rw [loadLines_of_assignment h, if_pos (.inr (h.settable hzero))]

/-- A line that is not well-formed ends the loading. -/
theorem loadLines_of_not_wellFormed (h : ¬ WellFormed l) (path : String) (e : Environment) (n : Nat)
    (ls : List (List UInt8)) :
    ∃ message, Complains path n l message ∧ loadLines path e n (l :: ls) = .refused message e := by
  cases hs : textOfBytes? l with
  | none =>
    refine ⟨_, .notText hs, ?_⟩
    rw [loadLines, hs]
  | some s =>
    cases hread : parseLine s with
    | error r =>
      refine ⟨_, .noAssignment hs hread, ?_⟩
      rw [loadLines, hs]
      dsimp only
      rw [hread]
    | ok answer =>
      refine absurd (wellFormed_iff.2 ?_) h
      rw [hs, Option.any_some, hread]
      rfl

theorem Extends.refl (e : Environment) : Extends e [] e where
  kept _ _ h := h
  assigned := by
    rintro name value - ⟨before, l, after, hsplit, -⟩
    cases before <;> cases hsplit
  untouched _ h _ := h

/-- A line that assigns nothing does not matter. -/
theorem Extends.cons_of_silent (h : Extends e ls e') (hl : ∀ name value, ¬ Sets l name value) :
    Extends e (l :: ls) e' where
  kept := h.kept
  assigned := by
    rintro name value hunset ⟨before, l', after, hsplit, hsets, hbefore⟩
    cases before with
    | nil =>
      cases hsplit
      exact absurd hsets (hl _ _)
    | cons first before =>
      cases hsplit
      exact h.assigned name value hunset
        ⟨before, l', after, rfl, hsets, fun l'' hl'' => hbefore l'' (List.mem_cons_of_mem _ hl'')⟩
  untouched name hunset hnone :=
    h.untouched name hunset fun l' hl' => hnone l' (List.mem_cons_of_mem _ hl')

/-- A line that assigns comes first, and the others add to what it leaves. -/
theorem Extends.cons_of_sets (h : Extends (e.offer name value) ls e') (hl : Sets l name value) :
    Extends e (l :: ls) e' where
  kept other v hset := h.kept other v (Environment.get?_offer_of_some hset name value)
  assigned := by
    rintro other value' hunset ⟨before, l', after, hsplit, hsets, hbefore⟩
    cases before with
    | nil =>
      -- what this line sets is kept by the others
      cases hsplit
      obtain ⟨rfl, rfl⟩ := hl.unique hsets
      exact h.kept _ _ (Environment.get?_offer_self hunset _)
    | cons first before =>
      -- a name that is first assigned to later is not the name of this line
      cases hsplit
      have hne : other ≠ name := by
        rintro rfl
        exact hbefore l List.mem_cons_self value hl
      refine h.assigned other value' ?_
        ⟨before, l', after, rfl, hsets, fun l'' hl'' => hbefore l'' (List.mem_cons_of_mem _ hl'')⟩
      rw [Environment.get?_offer_of_ne hne, hunset]
  untouched other hunset hnone := by
    have hne : other ≠ name := by
      rintro rfl
      exact hnone l List.mem_cons_self value hl
    refine h.untouched other ?_ fun l' hl' => hnone l' (List.mem_cons_of_mem _ hl')
    rw [Environment.get?_offer_of_ne hne, hunset]

/-! ## All lines -/

/-- Lines that are well-formed are read to their end, and what they leave is what they assign. -/
theorem loadLines_wellFormed (path : String) (e : Environment) (hgood : ∀ l ∈ ls, WellFormed l)
    (hzero : ∀ l ∈ ls, 0 ∉ l) : ∃ e', Extends e ls e' ∧
      ∀ n rest, loadLines path e n (ls ++ rest) = loadLines path e' (n + ls.length) rest := by
  -- every line is read in the environment that those before it leave
  induction ls generalizing e with
  | nil => exact ⟨e, .refl e, fun _ _ => rfl⟩
  | cons l ls ih =>
    obtain ⟨hl, hls⟩ := List.forall_mem_cons.1 hgood
    obtain ⟨hlzero, hlszero⟩ := List.forall_mem_cons.1 hzero
    have hlength : ∀ n, n + 1 + ls.length = n + (l :: ls).length := by
      intro n
      rw [List.length_cons]
      omega
    rcases hl.cases with ⟨s, hs, hremark⟩ | ⟨name, value, hsets⟩
    · obtain ⟨e', hextends, hload⟩ := ih e hls hlszero
      refine ⟨e', hextends.cons_of_silent (not_sets_of_isRemark hs hremark), fun n rest => ?_⟩
      rw [List.cons_append, loadLines_of_remark hs hremark, hload, hlength]
    · obtain ⟨e', hextends, hload⟩ := ih (e.offer name value) hls hlszero
      refine ⟨e', hextends.cons_of_sets hsets, fun n rest => ?_⟩
      rw [List.cons_append, loadLines_of_sets hsets hlzero, hload, hlength]

/-- If a line assigns to a name, one of them does first. -/
theorem exists_setsFirst (h : ∃ l ∈ ls, ∃ value, Sets l name value) : ∃ value, SetsFirst ls name value := by
  induction ls with
  | nil =>
    obtain ⟨l, hl, -⟩ := h
    cases hl
  | cons l ls ih =>
    by_cases hl : ∃ value, Sets l name value
    · obtain ⟨value, hvalue⟩ := hl
      exact ⟨value, [], l, ls, rfl, hvalue, fun _ hmem => absurd hmem List.not_mem_nil⟩
    · obtain ⟨l', hl', value, hvalue⟩ := h
      have hrest : l' ∈ ls := by
        rcases List.mem_cons.1 hl' with rfl | hrest
        · exact absurd ⟨value, hvalue⟩ hl
        · exact hrest
      obtain ⟨value', before, l'', after, rfl, hsets, hbefore⟩ := ih ⟨l', hrest, value, hvalue⟩
      refine ⟨value', l :: before, l'', after, rfl, hsets, ?_⟩
      exact List.forall_mem_cons.2 ⟨fun other hother => hl ⟨other, hother⟩, hbefore⟩

/-- Every name that is assigned to is set in the end. -/
theorem Extends.isSome_of_sets (h : Extends e ls e') (hl : l ∈ ls) (hsets : Sets l name value) :
    (e'.get? name).isSome = true := by
  cases hset : e.get? name with
  | some v =>
    rw [h.kept name v hset]
    rfl
  | none =>
    obtain ⟨value', hfirst⟩ := exists_setsFirst ⟨l, hl, value, hsets⟩
    rw [h.assigned name value' hset hfirst]
    rfl

/-- Lines whose names are set leave the environment as it is. -/
theorem loadLines_of_set (path : String) (n : Nat) (hgood : ∀ l ∈ ls, WellFormed l)
    (hzero : ∀ l ∈ ls, 0 ∉ l)
    (hset : ∀ l ∈ ls, ∀ name value, Sets l name value → (e.get? name).isSome = true) :
    loadLines path e n ls = .done e := by
  induction ls generalizing n with
  | nil => rfl
  | cons l ls ih =>
    obtain ⟨hl, hls⟩ := List.forall_mem_cons.1 hgood
    obtain ⟨hlzero, hlszero⟩ := List.forall_mem_cons.1 hzero
    obtain ⟨hlset, hlsset⟩ := List.forall_mem_cons.1 hset
    rcases hl.cases with ⟨s, hs, hremark⟩ | ⟨name, value, hsets⟩
    · rw [loadLines_of_remark hs hremark]
      exact ih (n + 1) hls hlszero hlsset
    · rw [loadLines_of_sets hsets hlzero, Environment.offer_of_set (hlset name value hsets)]
      exact ih (n + 1) hls hlszero hlsset

/-- The lines up to the first one that is not well-formed. -/
theorem exists_wellFormed_append (ls : List (List UInt8)) : ∃ good rest, ls = good ++ rest ∧
    (∀ l ∈ good, WellFormed l) ∧ ∀ l ∈ rest.head?, ¬ WellFormed l := by
  induction ls with
  | nil => exact ⟨[], [], rfl, fun _ h => absurd h List.not_mem_nil, nofun⟩
  | cons l ls ih =>
    by_cases hl : WellFormed l
    · obtain ⟨good, rest, rfl, hgood, hrest⟩ := ih
      exact ⟨l :: good, rest, rfl, List.forall_mem_cons.2 ⟨hl, hgood⟩, hrest⟩
    · refine ⟨[], l :: ls, rfl, fun _ h => absurd h List.not_mem_nil, ?_⟩
      rintro _ ⟨⟩
      exact hl

end

/-- A file sets the variables that were not set to what its lines assign to them first, up to the first line
that is not well-formed, and no others. It is loaded if there is no such line, and then leaves the
environment as it is when it is loaded again; else the number of the line is in the message. -/
theorem load_sets_first_assignments {files : Files} {path : String} {bytes : List UInt8}
    (hfile : files.lookup path = .ok (.file bytes)) (hzero : 0 ∉ bytes) (e : Environment) :
    ∃ good rest e', lines bytes = good ++ rest ∧ (∀ l ∈ good, WellFormed l) ∧
      (∀ l ∈ rest.head?, ¬ WellFormed l) ∧ Extends e good e' ∧
      (rest = [] → load files e path = .done e' ∧ load files e' path = .done e') ∧
      (∀ l ∈ rest.head?, ∃ message, Complains path (good.length + 1) l message ∧
        load files e path = .refused message e') ∧
      ((∃ done, load files e path = .done done) ↔ ∀ l ∈ lines bytes, WellFormed l) := by
  have hload : ∀ start, load files start path = loadLines path start 1 (lines bytes) := by
    intro start
    rw [load, hfile]
  have hlines : ∀ l ∈ lines bytes, 0 ∉ l := fun l hl hmem =>
    hzero ((flatten_lines_sublist bytes).subset (List.mem_flatten_of_mem hl hmem))
  obtain ⟨good, rest, hsplit, hgood, hrest⟩ := exists_wellFormed_append (lines bytes)
  have hgoodzero : ∀ l ∈ good, 0 ∉ l := by
    intro l hl
    refine hlines l ?_
    rw [hsplit]
    exact List.mem_append_left _ hl
  obtain ⟨e', hextends, hrun⟩ := loadLines_wellFormed path e hgood hgoodzero
  have hstart : load files e path = loadLines path e' (1 + good.length) rest := by
    rw [hload, hsplit, hrun]
  have hdone : rest = [] → load files e path = .done e' := by
    rintro rfl
    exact hstart
  have hrefused : ∀ l ∈ rest.head?, ∃ message, Complains path (good.length + 1) l message ∧
      load files e path = .refused message e' := by
    intro l hl
    obtain ⟨ls, rfl⟩ := List.head?_eq_some_iff.1 hl
    rw [hstart, Nat.add_comm 1]
    exact loadLines_of_not_wellFormed (hrest l hl) path e' (good.length + 1) ls
  refine ⟨good, rest, e', hsplit, hgood, hrest, hextends, ?_, hrefused, ?_⟩
  · intro hnone
    refine ⟨hdone hnone, ?_⟩
    rw [hload, hsplit, hnone, List.append_nil]
    exact loadLines_of_set path 1 hgood hgoodzero fun l hl name value => hextends.isSome_of_sets hl
  · rw [hsplit]
    cases rest with
    | nil =>
      rw [List.append_nil]
      exact ⟨fun _ => hgood, fun _ => ⟨e', hdone rfl⟩⟩
    | cons l ls =>
      constructor
      · rintro ⟨done, hload'⟩
        obtain ⟨message, -, hmessage⟩ := hrefused l rfl
        rw [hmessage] at hload'
        cases hload'
      · intro hall
        exact absurd (hall l (List.mem_append_right _ List.mem_cons_self)) (hrest l rfl)

/-- Of two assignments to a name the first one counts, also when the file is loaded again. -/
theorem first_assignment_loaded :
    let files : Files := ⟨["work"], [(["work", "t"], .file [65, 61, 49, 10, 65, 61, 50])]⟩
    files.lookup "t" = .ok (.file [65, 61, 49, 10, 65, 61, 50]) ∧
      0 ∉ ([65, 61, 49, 10, 65, 61, 50] : List UInt8) ∧
      ∃ e, load files .empty "t" = .done e ∧ load files e "t" = .done e ∧
        e.get? "A" = some (.text "1") := by
  intro files
  have hfile : files.lookup "t" = .ok (.file [65, 61, 49, 10, 65, 61, 50]) := by
    unfold Files.lookup
    rw [Credentials.names_of_name]
    decide +kernel
  have hzero : 0 ∉ ([65, 61, 49, 10, 65, 61, 50] : List UInt8) := by decide
  obtain ⟨good, rest, e, hsplit, hgood, hrest, hextends, hdone, hrefused, hall⟩ :=
    load_sets_first_assignments hfile hzero .empty
  have hlines : lines [65, 61, 49, 10, 65, 61, 50] = [[65, 61, 49], [65, 61, 50]] := by decide
  have hwell : ∀ l ∈ [[65, 61, 49], [65, 61, 50]], WellFormed l := by decide +kernel
  have hnone : rest = [] := by
    rcases rest with _ | ⟨l, rest⟩
    · rfl
    · refine absurd (hwell l ?_) (hrest l rfl)
      rw [← hlines, hsplit]
      exact List.mem_append_right _ List.mem_cons_self
  have hfirst : SetsFirst good "A" "1" := by
    rw [hnone, List.append_nil, hlines] at hsplit
    rw [← hsplit]
    refine ⟨[], [65, 61, 49], [[65, 61, 50]], rfl, ⟨"A=1", by decide +kernel, ?_⟩, fun _ h => nomatch h⟩
    exact parseLine_eq_some_iff.1 (by decide +kernel)
  exact ⟨hfile, hzero, e, (hdone hnone).1, (hdone hnone).2, hextends.assigned "A" "1" rfl hfirst⟩

end HeatWatch.EnvFile
