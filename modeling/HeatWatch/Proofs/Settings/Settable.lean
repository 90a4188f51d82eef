import HeatWatch.Proofs.Settings.Loading

/-!
# Assignments that a process can hold

A name in an environment is not empty and has no equals sign, and neither a name nor a value has the character of
number zero. What is read of a line keeps to this but for that character, and loading stops the process where it
is assigned. Main statements:

* `stops_cons_of_silent`, `stops_cons_of_sets`: what one line does;
* `loadLines_eq_aborted_iff`: which lines stop the process;
* `aborted_iff_zero_assigned`: what can be set, and which files stop the process.
-/

namespace HeatWatch.EnvFile

theorem Sets.wellFormed {l : List UInt8} {name value : String} (h : Sets l name value) : WellFormed l := by
  obtain ⟨s, hs, hassigns⟩ := h
  exact ⟨s, hs, .inr ⟨_, _, hassigns⟩⟩

/-! ## Lines that stop the process -/

/-- After these lines the line assigns to a variable that is not set then what the process cannot hold. -/
structure StopsAt (e : Environment) (before : List (List UInt8)) (l : List UInt8) (name value : String) : Prop where
  read : ∀ l' ∈ before, WellFormed l'
  assigns : Sets l name value
  unsettable : ¬ Environment.Settable name value
  unset : e.get? name = none
  first : ∀ l' ∈ before, ∀ other, ¬ Sets l' name other

/-- The process stops at one of the lines. -/
def Stops (e : Environment) (ls : List (List UInt8)) : Prop :=
  ∃ before l after name value, ls = before ++ l :: after ∧ StopsAt e before l name value

variable {l k : List UInt8} {ls before : List (List UInt8)} {e : Environment} {name value other text : String}

theorem stopsAt_cons_iff : StopsAt e (k :: before) l name value ↔
    (WellFormed k ∧ ∀ other, ¬ Sets k name other) ∧ StopsAt e before l name value := by
  constructor
  · rintro ⟨hread, hassigns, hheld, hunset, hfirst⟩
    obtain ⟨hk, hread⟩ := List.forall_mem_cons.1 hread
    obtain ⟨hkfirst, hfirst⟩ := List.forall_mem_cons.1 hfirst
    exact ⟨⟨hk, hkfirst⟩, hread, hassigns, hheld, hunset, hfirst⟩
  · rintro ⟨⟨hk, hkfirst⟩, h⟩
    exact ⟨List.forall_mem_cons.2 ⟨hk, h.read⟩, h.assigns, h.unsettable, h.unset,
      List.forall_mem_cons.2 ⟨hkfirst, h.first⟩⟩

/-- A line that sets another variable makes no difference. -/
theorem stopsAt_offer_iff (hne : name ≠ other) (text : String) :
    StopsAt (e.offer other text) before l name value ↔ StopsAt e before l name value := by
  have hsame := Environment.get?_offer_of_ne hne e text
  constructor
  · rintro ⟨hread, hassigns, hheld, hunset, hfirst⟩
    exact ⟨hread, hassigns, hheld, hsame.symm.trans hunset, hfirst⟩
  · rintro ⟨hread, hassigns, hheld, hunset, hfirst⟩
    exact ⟨hread, hassigns, hheld, hsame.trans hunset, hfirst⟩

theorem not_stops_nil (e : Environment) : ¬ Stops e [] := by
  rintro ⟨before, l, after, name, value, hsplit, -⟩
  cases before <;> cases hsplit

/-- The process stops at the first line, or this one is read and it stops at a later one. -/
theorem stops_cons_iff : Stops e (l :: ls) ↔ (∃ name value, StopsAt e [] l name value) ∨
    ∃ before l' after name value, ls = before ++ l' :: after ∧
      (WellFormed l ∧ ∀ other, ¬ Sets l name other) ∧ StopsAt e before l' name value := by
  constructor
  · rintro ⟨before, l', after, name, value, hsplit, h⟩
    cases before with
    | nil =>
      cases hsplit
      exact .inl ⟨name, value, h⟩
    | cons first before =>
      cases hsplit
      exact .inr ⟨before, l', after, name, value, rfl, stopsAt_cons_iff.1 h⟩
  · rintro (⟨name, value, h⟩ | ⟨before, l', after, name, value, rfl, h⟩)
    · exact ⟨[], l, ls, name, value, rfl, h⟩
    · exact ⟨l :: before, l', after, name, value, rfl, stopsAt_cons_iff.2 h⟩

theorem not_stops_of_not_wellFormed (h : ¬ WellFormed l) : ¬ Stops e (l :: ls) := by
  intro hstops
  rcases stops_cons_iff.1 hstops with ⟨name, value, hat⟩ | ⟨-, -, -, -, -, -, ⟨hl, -⟩, -⟩
  · exact h hat.assigns.wellFormed
  · exact h hl

/-- A line that assigns nothing does not matter. -/
theorem stops_cons_of_silent (hl : WellFormed l) (hnone : ∀ name value, ¬ Sets l name value) :
    Stops e (l :: ls) ↔ Stops e ls := by
  rw [stops_cons_iff]
  constructor
  · rintro (⟨name, value, hat⟩ | ⟨before, l', after, name, value, hsplit, -, hat⟩)
    · exact absurd hat.assigns (hnone name value)
    · exact ⟨before, l', after, name, value, hsplit, hat⟩
  · rintro ⟨before, l', after, name, value, hsplit, hat⟩
    exact .inr ⟨before, l', after, name, value, hsplit, ⟨hl, hnone name⟩, hat⟩

/-- After a line that does not stop the process the others are read in the environment that it leaves. -/
theorem stops_cons_of_sets (h : Sets l other text)
    (hheld : (e.get? other).isSome = true ∨ Environment.Settable other text) :
    Stops e (l :: ls) ↔ Stops (e.offer other text) ls := by
  rw [stops_cons_iff]
  constructor
  · rintro (⟨name, value, hat⟩ | ⟨before, l', after, name, value, hsplit, ⟨-, hfirst⟩, hat⟩)
    · obtain ⟨rfl, rfl⟩ := h.unique hat.assigns
      rcases hheld with hset | hheld
      · rw [hat.unset] at hset
        cases hset
      · exact absurd hheld hat.unsettable
    · have hne : name ≠ other := by
        rintro rfl
        exact hfirst text h
      exact ⟨before, l', after, name, value, hsplit, (stopsAt_offer_iff hne text).2 hat⟩
  · rintro ⟨before, l', after, name, value, hsplit, hat⟩
    -- the variable of the first line is set afterwards, so it is another one
    have hne : name ≠ other := by
      rintro rfl
      have hunset := hat.unset
      rw [Environment.get?_offer, Option.or_eq_none_iff, if_pos rfl] at hunset
      cases hunset.2
    have hfirst : ∀ v, ¬ Sets l name v := fun v hv => hne (hv.unique h).1
    exact .inr ⟨before, l', after, name, value, hsplit, ⟨h.wellFormed, hfirst⟩, (stopsAt_offer_iff hne text).1 hat⟩

/-- Loading stops the process at the first line that assigns to a variable what it cannot hold, and only there. -/
theorem loadLines_eq_aborted_iff (path : String) (e : Environment) (n : Nat) (ls : List (List UInt8)) :
    loadLines path e n ls = .aborted ↔ Stops e ls := by
  -- every line that does not stop the process leaves the environment for the next one
  induction ls generalizing e n with
  | nil => exact iff_of_false nofun (not_stops_nil e)
  | cons l ls ih =>
    by_cases hwell : WellFormed l
    · rcases hwell.cases with ⟨s, hs, hremark⟩ | ⟨name, value, hsets⟩
      · rw [loadLines_of_remark hs hremark, ih, stops_cons_of_silent hwell (not_sets_of_isRemark hs hremark)]
      · rw [loadLines_of_assignment hsets]
        by_cases hheld : (e.get? name).isSome = true ∨ Environment.Settable name value
        · rw [if_pos hheld, ih, stops_cons_of_sets hsets hheld]
        · rw [if_neg hheld]
          obtain ⟨hunset, hheld⟩ := not_or.1 hheld
          refine iff_of_true rfl (stops_cons_iff.2 (.inl ⟨name, value, ?_⟩))
          exact ⟨nofun, hsets, hheld, Option.not_isSome_iff_eq_none.1 hunset, nofun⟩
    · obtain ⟨message, -, hload⟩ := loadLines_of_not_wellFormed hwell path e n ls
      rw [hload]
      exact iff_of_false nofun (not_stops_of_not_wellFormed hwell)

/-- What is read of a line can be set unless there is a character of number zero in it, and then the line has that
character too. Loading a file stops the process at such an assignment, if it is the first one to a variable that is
not set and all lines before it are read; else it is loaded or refused. -/
theorem aborted_iff_zero_assigned (files : Files) (e : Environment) (path : String) :
    (∀ line name value, parseLine line = .ok (some (name, value)) → name ≠ "" ∧ '=' ∉ name.toList ∧
      (Environment.Settable name value ↔ '\x00' ∉ name.toList ∧ '\x00' ∉ value.toList) ∧
      ('\x00' ∉ line.toList → Environment.Settable name value)) ∧
    (load files e path = .aborted ↔
      ∃ bytes, files.lookup path = .ok (.file bytes) ∧ Stops e (lines bytes)) := by
  constructor
  · intro line name value h
    have hassigns := parseLine_eq_some_iff.1 h
    obtain ⟨hne, hequals⟩ := name_of_assigns hassigns
    have hsettable := settable_iff_of_assigns hassigns
    refine ⟨mt String.toList_eq_nil_iff.2 hne, hequals, hsettable, ?_⟩
    intro hzero
    exact hsettable.2 (zero_not_mem_of_assigns hassigns hzero)
  · unfold load
    rcases files.lookup path with f | bytes | _
    · refine iff_of_false nofun ?_
      rintro ⟨bytes, hbytes, -⟩
      cases hbytes
    · rw [loadLines_eq_aborted_iff]
      constructor
      · intro hstops
        exact ⟨bytes, rfl, hstops⟩
      · rintro ⟨bytes', hbytes, hstops⟩
        cases hbytes
        exact hstops
    · refine iff_of_false nofun ?_
      rintro ⟨bytes, hbytes, -⟩
      cases hbytes

/-- A name with the character of number zero is read, and stops the process. -/
theorem zero_in_name_stops :
    let files : Files := ⟨["work"], [(["work", "t"], .file [65, 0, 66, 61, 49])]⟩
    parseLine "A\x00B=1" = .ok (some ("A\x00B", "1")) ∧ ¬ Environment.Settable "A\x00B" "1" ∧
      load files .empty "t" = .aborted := by
  intro files
  have hread : parseLine "A\x00B=1" = .ok (some ("A\x00B", "1")) := by decide +kernel
  have hfile : files.lookup "t" = .ok (.file [65, 0, 66, 61, 49]) := by
    unfold Files.lookup
    rw [Credentials.names_of_name]
    decide +kernel
  obtain ⟨hassignments, hloads⟩ := aborted_iff_zero_assigned files .empty "t"
  have hheld : ¬ Environment.Settable "A\x00B" "1" := by
    obtain ⟨-, -, hsettable, -⟩ := hassignments _ _ _ hread
    rw [hsettable]
    decide +kernel
  have hsets : Sets [65, 0, 66, 61, 49] "A\x00B" "1" :=
    ⟨"A\x00B=1", by decide +kernel, parseLine_eq_some_iff.1 hread⟩
  refine ⟨hread, hheld, hloads.2 ⟨_, hfile, [], _, [], "A\x00B", "1", rfl, ?_⟩⟩
  exact ⟨nofun, hsets, hheld, rfl, nofun⟩

end HeatWatch.EnvFile
