import HeatWatch.Text.Blank
import Mathlib.Data.List.DropRight

/-!
# Texts without white space at their ends

A text is white space, what trimming leaves, and white space again, and what trimming leaves neither starts
nor ends with white space. There is only one such way to cut a text: `trim_eq_iff`.
-/

namespace HeatWatch.Text

/-- The text does not start with white space. -/
def StartsBare (cs : List Char) : Prop := ∀ c ∈ cs.head?, isBlank c = false

/-- The text does not end with white space. -/
def EndsBare (cs : List Char) : Prop := ∀ c ∈ cs.getLast?, isBlank c = false

variable {c : Char} {cs ws xs ys : List Char}

theorem allBlank_nil : AllBlank [] := fun _ h => absurd h List.not_mem_nil

theorem allBlank_append : AllBlank (xs ++ ys) ↔ AllBlank xs ∧ AllBlank ys := List.forall_mem_append

theorem startsBare_cons (h : isBlank c = false) (cs : List Char) : StartsBare (c :: cs) := by
  intro d hd
  cases hd
  exact h

/-! ## The start -/

theorem trimStart_of_bare (h : StartsBare cs) : trimStart cs = cs := by
  cases cs with
  | nil => rfl
  | cons c cs =>
    have hc : isBlank c = false := h c rfl
    rw [trimStart, List.dropWhile_cons, if_neg (by simp [hc])]

theorem startsBare_trimStart (cs : List Char) : StartsBare (trimStart cs) := by
  intro c hc
  have hhead := List.head?_dropWhile_not isBlank cs
  rw [show (cs.dropWhile isBlank).head? = some c from hc] at hhead
  simpa using hhead

/-- What trimming takes from the start is white space. -/
theorem exists_gap_trimStart (cs : List Char) : ∃ ws, AllBlank ws ∧ cs = ws ++ trimStart cs := by
  refine ⟨cs.takeWhile isBlank, ?_, ?_⟩
  · intro c hc
    exact List.mem_takeWhile_imp hc
  · exact List.takeWhile_append_dropWhile.symm

theorem trimStart_gap (hws : AllBlank ws) (h : StartsBare cs) : trimStart (ws ++ cs) = cs := by
  rw [trimStart_append_of_allBlank hws, trimStart_of_bare h]

/-! ## The end -/

theorem trimEnd_of_bare (h : EndsBare cs) : trimEnd cs = cs := by
  refine List.rdropWhile_eq_self_iff.2 ?_
  intro hne
  rw [h (cs.getLast hne) (List.getLast?_eq_some_getLast hne)]
  exact Bool.false_ne_true

theorem endsBare_trimEnd (cs : List Char) : EndsBare (trimEnd cs) := by
  intro c hc
  have hne : trimEnd cs ≠ [] := by
    intro hnil
    rw [hnil] at hc
    cases hc
  rw [List.getLast?_eq_some_getLast hne] at hc
  cases hc
  exact Bool.eq_false_iff.2 (List.rdropWhile_last_not isBlank cs hne)

/-- White space at the end does not count. -/
theorem trimEnd_append_gap (hws : AllBlank ws) (cs : List Char) : trimEnd (cs ++ ws) = trimEnd cs := by
  have hrev : AllBlank ws.reverse := fun c hc => hws c (List.mem_reverse.1 hc)
  unfold trimEnd
  rw [List.reverse_append]
  exact congrArg List.reverse (trimStart_append_of_allBlank hrev cs.reverse)

/-- What trimming takes from the end is white space. -/
theorem exists_gap_trimEnd (cs : List Char) : ∃ ws, AllBlank ws ∧ cs = trimEnd cs ++ ws := by
  obtain ⟨ws, hws, hcs⟩ := exists_gap_trimStart cs.reverse
  refine ⟨ws.reverse, fun c hc => hws c (List.mem_reverse.1 hc), ?_⟩
  have hrev := congrArg List.reverse hcs
  rwa [List.reverse_reverse, List.reverse_append] at hrev

/-- Nothing before a character that is no white space is taken from the end. -/
theorem trimEnd_append_cons (hc : isBlank c = false) (xs ys : List Char) :
    trimEnd (xs ++ c :: ys) = xs ++ c :: trimEnd ys := by
  obtain ⟨ws, hws, hys⟩ := exists_gap_trimEnd ys
  have hends : EndsBare (xs ++ c :: trimEnd ys) := by
    rcases List.eq_nil_or_concat' (trimEnd ys) with hnil | ⟨zs, d, hzs⟩
    · rw [hnil]
      intro d hd
      rw [List.getLast?_concat] at hd
      cases hd
      exact hc
    · intro d' hd'
      refine endsBare_trimEnd ys d' ?_
      rw [hzs] at hd' ⊢
      rw [← List.cons_append, ← List.append_assoc, List.getLast?_concat] at hd'
      rwa [List.getLast?_concat]
  calc trimEnd (xs ++ c :: ys)
      = trimEnd ((xs ++ c :: trimEnd ys) ++ ws) := by
        rw [List.append_assoc, List.cons_append, ← hys]
    _ = xs ++ c :: trimEnd ys := by rw [trimEnd_append_gap hws, trimEnd_of_bare hends]

theorem prefix_trimEnd (cs : List Char) : trimEnd cs <+: cs := List.rdropWhile_prefix isBlank cs

/-! ## Both ends -/

/-- White space before a character that is none goes, and nothing up to that character else. -/
theorem trim_gap_cons (hws : AllBlank ws) (hc : isBlank c = false) (cs : List Char) :
    trim (ws ++ c :: cs) = c :: trimEnd cs := by
  rw [trim, trimStart_gap hws (startsBare_cons hc cs)]
  exact trimEnd_append_cons hc [] cs

/-- There is one way to cut white space off both ends such that none is left there. -/
theorem trim_eq_iff : trim cs = xs ↔ StartsBare xs ∧ EndsBare xs ∧
    ∃ ws ws', AllBlank ws ∧ AllBlank ws' ∧ cs = ws ++ xs ++ ws' := by
  constructor
  · rintro rfl
    obtain ⟨ws, hws, hstart⟩ := exists_gap_trimStart cs
    obtain ⟨ws', hws', hend⟩ := exists_gap_trimEnd (trimStart cs)
    refine ⟨?_, endsBare_trimEnd _, ws, ws', hws, hws', ?_⟩
    · -- the first character is also the first one before the end was trimmed
      intro c hc
      refine startsBare_trimStart cs c ?_
      rw [hend]
      rw [List.head?_append, show (trimEnd (trimStart cs)).head? = some c from hc]
      rfl
    · rw [List.append_assoc]
      exact hstart.trans (congrArg (ws ++ ·) hend)
  · rintro ⟨hstart, hend, ws, ws', hws, hws', rfl⟩
    cases xs with
    | nil =>
      have hblank : AllBlank (ws ++ [] ++ ws') := by
        rw [List.append_nil]
        exact allBlank_append.2 ⟨hws, hws'⟩
      rw [trim, trimStart_eq_nil_iff.2 hblank]
      rfl
    | cons c xs =>
      have hc : isBlank c = false := hstart c rfl
      rw [List.append_assoc, List.cons_append, trim_gap_cons hws hc, trimEnd_append_gap hws']
      -- the end of the rest is bare, for it is the end of the whole
      have hself := trimEnd_of_bare hend
      rwa [← List.nil_append (c :: xs), trimEnd_append_cons hc] at hself

theorem trim_of_bare (hstart : StartsBare cs) (hend : EndsBare cs) : trim cs = cs :=
  trim_eq_iff.2 ⟨hstart, hend, [], [], allBlank_nil, allBlank_nil, (List.append_nil cs).symm⟩

theorem trim_eq_nil_iff : trim cs = [] ↔ AllBlank cs := by
  constructor
  · intro h
    obtain ⟨-, -, ws, ws', hws, hws', rfl⟩ := trim_eq_iff.1 h
    rw [List.append_nil]
    exact allBlank_append.2 ⟨hws, hws'⟩
  · intro h
    rw [trim, trimStart_eq_nil_iff.2 h]
    rfl

/-- Trimming the end first does not matter. -/
theorem trim_append_gap (hws : AllBlank ws) (cs : List Char) : trim (cs ++ ws) = trim cs := by
  obtain ⟨hstart, hend, before, after, hbefore, hafter, hcs⟩ := trim_eq_iff.1 (rfl : trim cs = trim cs)
  refine trim_eq_iff.2 ⟨hstart, hend, before, after ++ ws, hbefore, allBlank_append.2 ⟨hafter, hws⟩, ?_⟩
  rw [← List.append_assoc, ← hcs]

theorem trim_trimEnd (cs : List Char) : trim (trimEnd cs) = trim cs := by
  obtain ⟨ws, hws, hcs⟩ := exists_gap_trimEnd cs
  rw [← trim_append_gap hws, ← hcs]

end HeatWatch.Text
