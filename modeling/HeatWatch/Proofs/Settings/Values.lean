import HeatWatch.Settings.EnvFile
import HeatWatch.Proofs.Text.Trim

/-!
# Values in environment files

What follows the equals sign is given by its form: `Quotes.Spells` for what stands between quotes, `Denotes`
for a value with the white space and the comment around it. What has this form is read as the value, and
nothing else is read. Main statements:

* `endsAfterQuote_iff`: what may follow a closing quote;
* `exists_spelled`: how far a text after an opening quote goes;
* `readQuoted_eq_ok_iff`: when such a text is read;
* `readValue_eq_ok_iff`: when a value is read.
-/

namespace HeatWatch.EnvFile

open Text

/-! ## Forms -/

/-- White space. -/
abbrev Gap := { ws : List Char // AllBlank ws }

/-- White space, and a comment or nothing. -/
inductive IsRemark : List Char → Prop
  | blank {ws : List Char} (hws : AllBlank ws) : IsRemark ws
  | comment {ws : List Char} (hws : AllBlank ws) (text : List Char) : IsRemark (ws ++ '#' :: text)

/-- The quotes that a value may stand in. -/
inductive Quotes where
  | double
  | single
  deriving DecidableEq, Repr

namespace Quotes

def mark : Quotes → Char
  | .double => '"'
  | .single => '\''

/-- A backslash between the quotes is an escape. -/
def escapes : Quotes → Bool
  | .double => true
  | .single => false

theorem mark_solid (q : Quotes) : isBlank q.mark = false := by cases q <;> decide

/-- The closing quote is no escape. -/
theorem mark_ne_backslash (q : Quotes) : ¬ (q.escapes = true ∧ q.mark = '\\') := by
  cases q <;> decide

/-- What stands between quotes, and the value that it spells. -/
inductive Spells (q : Quotes) : List Char → List Char → Prop
  | nil : Spells q [] []
  | plain {c : Char} {body v : List Char} (hmark : c ≠ q.mark) (hc : ¬ (q.escapes = true ∧ c = '\\'))
      (h : Spells q body v) : Spells q (c :: body) (c :: v)
  | escaped {body v : List Char} (hq : q.escapes = true) (e : Char) (h : Spells q body v) :
      Spells q ('\\' :: e :: body) (unescape e :: v)

end Quotes

/-- What follows the equals sign, and the value. -/
inductive Denotes : List Char → List Char → Prop
  | quoted (gap : Gap) (q : Quotes) {body v tail : List Char} (hbody : q.Spells body v)
      (htail : IsRemark tail) : Denotes (gap.1 ++ q.mark :: (body ++ q.mark :: tail)) v
  | bare (gap : Gap) {v tail : List Char} (hstart : StartsBare v) (hend : EndsBare v)
      (hquote : ∀ q : Quotes, v.head? ≠ some q.mark) (hhash : '#' ∉ v) (htail : IsRemark tail) :
      Denotes (gap.1 ++ (v ++ tail)) v

/-! ## Remarks -/

theorem trim_of_comment {ws : List Char} (hws : AllBlank ws) (text : List Char) :
    trim (ws ++ '#' :: text) = '#' :: trimEnd text :=
  trim_gap_cons hws (by decide) text

theorem isRemark_iff_trim {cs : List Char} :
    IsRemark cs ↔ trim cs = [] ∨ ∃ text, trim cs = '#' :: text := by
  constructor
  · rintro (hws | ⟨hws, text⟩)
    · exact .inl (trim_eq_nil_iff.2 hws)
    · exact .inr ⟨_, trim_of_comment hws text⟩
  · rintro (hnil | ⟨text, htext⟩)
    · exact .blank (trim_eq_nil_iff.1 hnil)
    · -- white space at the end belongs to the comment
      obtain ⟨-, -, ws, ws', hws, -, rfl⟩ := trim_eq_iff.1 htext
      rw [List.append_assoc]
      exact .comment hws (text ++ ws')

theorem IsRemark.append_gap {cs : List Char} (h : IsRemark cs) (gap : Gap) : IsRemark (cs ++ gap.1) := by
  rw [isRemark_iff_trim, trim_append_gap gap.2]
  exact isRemark_iff_trim.1 h

theorem IsRemark.gap_append {cs : List Char} (h : IsRemark cs) (gap : Gap) : IsRemark (gap.1 ++ cs) := by
  rcases h with hws | ⟨hws, text⟩
  · exact .blank (allBlank_append.2 ⟨gap.2, hws⟩)
  · rw [← List.append_assoc]
    exact .comment (allBlank_append.2 ⟨gap.2, hws⟩) text

theorem endsAfterQuote_iff {cs : List Char} : endsAfterQuote cs = true ↔ IsRemark cs := by
  rw [isRemark_iff_trim, endsAfterQuote]
  cases trim cs <;> simp

instance (cs : List Char) : Decidable (IsRemark cs) := decidable_of_iff _ endsAfterQuote_iff

/-! ## Quoted values -/

section

variable {q : Quotes} {body cs v : List Char}

/-! The four ways in which one step can go. -/

theorem readQuoted_nil {quote : Char} {escapes : Bool} :
    readQuoted quote escapes [] = .error .openQuote := rfl

theorem readQuoted_last {quote : Char} {escapes : Bool} (h : escapes = true) :
    readQuoted quote escapes ['\\'] = .error .cutEscape :=
  if_pos (show escapes = true ∧ '\\' = '\\' from ⟨h, rfl⟩)

theorem readQuoted_escape {quote : Char} {escapes : Bool} (h : escapes = true) (e : Char)
    (cs : List Char) : readQuoted quote escapes ('\\' :: e :: cs) =
      (unescape e :: ·) <$> readQuoted quote escapes cs :=
  if_pos (show escapes = true ∧ '\\' = '\\' from ⟨h, rfl⟩)

theorem readQuoted_plain {quote c : Char} {escapes : Bool} (h : ¬ (escapes = true ∧ c = '\\'))
    (cs : List Char) : readQuoted quote escapes (c :: cs) =
      if c = quote then if endsAfterQuote cs then .ok [] else .error .textAfterQuote
      else (c :: ·) <$> readQuoted quote escapes cs := by
  cases cs <;> exact if_neg h

/-- What spells a value is read as it, and the rest after it. -/
theorem readQuoted_append (h : q.Spells body v) (rest : List Char) :
    readQuoted q.mark q.escapes (body ++ rest) = (v ++ ·) <$> readQuoted q.mark q.escapes rest := by
  induction h with
  | nil =>
    rw [List.nil_append]
    cases readQuoted q.mark q.escapes rest <;> rfl
  | plain hmark hc _ ih =>
    rw [List.cons_append, readQuoted_plain hc, if_neg hmark, ih]
    cases readQuoted q.mark q.escapes rest <;> rfl
  | escaped hq e _ ih =>
    rw [List.cons_append, List.cons_append, readQuoted_escape hq, ih]
    cases readQuoted q.mark q.escapes rest <;> rfl

theorem readQuoted_open (h : q.Spells body v) :
    readQuoted q.mark q.escapes body = .error .openQuote := by
  have hread := readQuoted_append h []
  rwa [List.append_nil, readQuoted_nil] at hread

theorem readQuoted_cut (h : q.Spells body v) (hq : q.escapes = true) :
    readQuoted q.mark q.escapes (body ++ ['\\']) = .error .cutEscape := by
  rw [readQuoted_append h, readQuoted_last hq]
  rfl

theorem readQuoted_closed (h : q.Spells body v) (tail : List Char) :
    readQuoted q.mark q.escapes (body ++ q.mark :: tail) =
      if endsAfterQuote tail then .ok v else .error .textAfterQuote := by
  rw [readQuoted_append h, readQuoted_plain q.mark_ne_backslash, if_pos rfl]
  cases endsAfterQuote tail with
  | true => exact congrArg Except.ok (List.append_nil v)
  | false => rfl

/-- After an opening quote there is what spells a value, and then the text ends, also inside an escape, or
the quotes are closed. -/
theorem exists_spelled (q : Quotes) (cs : List Char) : ∃ body v, q.Spells body v ∧
    (cs = body ∨ q.escapes = true ∧ cs = body ++ ['\\'] ∨ ∃ tail, cs = body ++ q.mark :: tail) := by
  -- an escape takes two characters at once
  induction cs using List.twoStepInduction with
  | nil => exact ⟨[], [], .nil, .inl rfl⟩
  | singleton c =>
    by_cases hescape : q.escapes = true ∧ c = '\\'
    · rcases hescape with ⟨hq, rfl⟩
      exact ⟨[], [], .nil, .inr (.inl ⟨hq, rfl⟩)⟩
    · by_cases hmark : c = q.mark
      · exact ⟨[], [], .nil, .inr (.inr ⟨[], by rw [hmark]; rfl⟩)⟩
      · exact ⟨[c], [c], .plain hmark hescape .nil, .inl rfl⟩
  | cons_cons c d cs ih ih' =>
    by_cases hescape : q.escapes = true ∧ c = '\\'
    · rcases hescape with ⟨hq, rfl⟩
      obtain ⟨body, v, hbody, hcs⟩ := ih
      refine ⟨'\\' :: d :: body, unescape d :: v, .escaped hq d hbody, ?_⟩
      rcases hcs with rfl | ⟨hq, rfl⟩ | ⟨tail, rfl⟩
      · exact .inl rfl
      · exact .inr (.inl ⟨hq, rfl⟩)
      · exact .inr (.inr ⟨tail, rfl⟩)
    · by_cases hmark : c = q.mark
      · exact ⟨[], [], .nil, .inr (.inr ⟨d :: cs, by rw [hmark]; rfl⟩)⟩
      · obtain ⟨body, v, hbody, hcs⟩ := ih' d
        refine ⟨c :: body, c :: v, .plain hmark hescape hbody, ?_⟩
        rcases hcs with hcs | ⟨hq, hcs⟩ | ⟨tail, hcs⟩
        · exact .inl (by rw [hcs])
        · exact .inr (.inl ⟨hq, by rw [hcs]; rfl⟩)
        · exact .inr (.inr ⟨tail, by rw [hcs]; rfl⟩)

theorem readQuoted_eq_ok_iff : readQuoted q.mark q.escapes cs = .ok v ↔
    ∃ body tail, cs = body ++ q.mark :: tail ∧ q.Spells body v ∧ IsRemark tail := by
  constructor
  · intro h
    obtain ⟨body, u, hbody, hcs⟩ := exists_spelled q cs
    rcases hcs with rfl | ⟨hq, rfl⟩ | ⟨tail, rfl⟩
    · rw [readQuoted_open hbody] at h
      cases h
    · rw [readQuoted_cut hbody hq] at h
      cases h
    · -- only where the quotes are closed something is read
      rw [readQuoted_closed hbody] at h
      split at h
      case isTrue hends =>
        cases h
        exact ⟨body, tail, rfl, hbody, endsAfterQuote_iff.1 hends⟩
      case isFalse => cases h
  · rintro ⟨body, tail, rfl, hbody, htail⟩
    rw [readQuoted_closed hbody, if_pos (endsAfterQuote_iff.2 htail)]

/-- A text inside the quotes that is cut off spells a value, or ends inside an escape. -/
theorem Quotes.Spells.cut {p : List Char} (h : q.Spells body v) (hp : p <+: body) :
    (∃ u, q.Spells p u) ∨ ∃ p' u, q.escapes = true ∧ p = p' ++ ['\\'] ∧ q.Spells p' u := by
  induction h generalizing p with
  | nil =>
    rw [List.prefix_nil.1 hp]
    exact .inl ⟨[], .nil⟩
  | plain hmark hc _ ih =>
    rcases List.prefix_cons_iff.1 hp with rfl | ⟨p, rfl, hrest⟩
    · exact .inl ⟨[], .nil⟩
    · rcases ih hrest with ⟨u, hu⟩ | ⟨p', u, hq, rfl, hu⟩
      · exact .inl ⟨_, .plain hmark hc hu⟩
      · exact .inr ⟨_, _, hq, rfl, .plain hmark hc hu⟩
  | escaped hq e _ ih =>
    rcases List.prefix_cons_iff.1 hp with rfl | ⟨p, rfl, hrest⟩
    · exact .inl ⟨[], .nil⟩
    · rcases List.prefix_cons_iff.1 hrest with rfl | ⟨p, rfl, hlast⟩
      · -- the cut is between the backslash and the character after it
        exact .inr ⟨[], [], hq, rfl, .nil⟩
      · rcases ih hlast with ⟨u, hu⟩ | ⟨p', u, hq, rfl, hu⟩
        · exact .inl ⟨_, .escaped hq e hu⟩
        · exact .inr ⟨_, _, hq, rfl, .escaped hq e hu⟩

end

/-! ## Values -/

section

variable {raw v : List Char}

theorem readValue_of_quoted {q : Quotes} {cs : List Char} (h : trim raw = q.mark :: cs) :
    readValue raw = readQuoted q.mark q.escapes cs := by
  rw [readValue, h]
  cases q <;> rfl

theorem readValue_of_bare (h : ∀ q : Quotes, (trim raw).head? ≠ some q.mark) :
    readValue raw = .ok (trimEnd ((trim raw).takeWhile (· ≠ '#'))) := by
  unfold readValue
  split
  case h_1 cs hcs => exact absurd (by rw [hcs]; rfl) (h .double)
  case h_2 cs hcs => exact absurd (by rw [hcs]; rfl) (h .single)
  case h_3 => rfl

/-- What a text is cut at does not stand in what is before the cut. -/
theorem forall_ne_of_not_mem {d : Char} {cs : List Char} (h : d ∉ cs) : ∀ c ∈ cs, decide (c ≠ d) = true := by
  intro c hc
  refine decide_eq_true ?_
  rintro rfl
  exact h hc

/-- A comment after a value is not trimmed away, but the white space before the value is. -/
theorem trim_before_comment (gap : Gap) {ws : List Char} (hws : AllBlank ws) (hstart : StartsBare v)
    (hend : EndsBare v) (hhash : '#' ∉ v) (text : List Char) : ∃ lead,
      trim (gap.1 ++ (v ++ (ws ++ '#' :: text))) = lead ++ '#' :: trimEnd text ∧
      '#' ∉ lead ∧ trimEnd lead = v ∧ lead.head? = v.head? := by
  by_cases hv : v = []
  · subst hv
    refine ⟨[], ?_, List.not_mem_nil, rfl, rfl⟩
    rw [List.nil_append, ← List.append_assoc]
    exact trim_of_comment (allBlank_append.2 ⟨gap.2, hws⟩) text
  · have hbare : StartsBare (v ++ (ws ++ '#' :: text)) := by
      intro c hc
      rw [List.head?_append_of_ne_nil _ hv] at hc
      exact hstart c hc
    refine ⟨v ++ ws, ?_, ?_, ?_, List.head?_append_of_ne_nil _ hv⟩
    · rw [trim, trimStart_gap gap.2 hbare, ← List.append_assoc]
      exact trimEnd_append_cons (by decide) _ _
    · rw [List.mem_append]
      rintro (hmem | hmem)
      · exact hhash hmem
      · exact absurd (hws _ hmem) (by decide)
    · rw [trimEnd_append_gap hws, trimEnd_of_bare hend]

theorem readValue_bare (gap : Gap) {tail : List Char} (hstart : StartsBare v) (hend : EndsBare v)
    (hquote : ∀ q : Quotes, v.head? ≠ some q.mark) (hhash : '#' ∉ v) (htail : IsRemark tail) :
    readValue (gap.1 ++ (v ++ tail)) = .ok v := by
  rcases htail with hws | @⟨ws, hws, text⟩
  · have htrim : trim (gap.1 ++ (v ++ tail)) = v := by
      refine trim_eq_iff.2 ⟨hstart, hend, gap.1, tail, gap.2, hws, ?_⟩
      rw [List.append_assoc]
    have hall : v.takeWhile (· ≠ '#') = v :=
      List.takeWhile_eq_self_iff.2 (forall_ne_of_not_mem hhash)
    rw [readValue_of_bare (by rwa [htrim]), htrim, hall, trimEnd_of_bare hend]
  · obtain ⟨lead, htrim, hlead, hvalue, hhead⟩ := trim_before_comment gap hws hstart hend hhash text
    have hbare : ∀ q : Quotes, (lead ++ '#' :: trimEnd text).head? ≠ some q.mark := by
      intro q
      cases lead with
      | nil => cases q <;> exact fun h => absurd h (by simp [Quotes.mark])
      | cons c lead =>
        show some c ≠ some q.mark
        rw [show some c = v.head? from hhead]
        exact hquote q
    have hcut : (lead ++ '#' :: trimEnd text).takeWhile (· ≠ '#') = lead := by
      rw [List.takeWhile_append_of_pos (forall_ne_of_not_mem hlead)]
      simp
    rw [readValue_of_bare (by rwa [htrim]), htrim, hcut, hvalue]

/-- White space around what denotes a value does not count. -/
theorem Denotes.within (h : Denotes raw v) (gap gap' : Gap) : Denotes (gap.1 ++ raw ++ gap'.1) v := by
  rcases h with ⟨inner, q, hbody, htail⟩ | ⟨inner, hstart, hend, hquote, hhash, htail⟩
  · have hform := Denotes.quoted ⟨gap.1 ++ inner.1, allBlank_append.2 ⟨gap.2, inner.2⟩⟩ q hbody
      (htail.append_gap gap')
    simpa using hform
  · have hform := Denotes.bare ⟨gap.1 ++ inner.1, allBlank_append.2 ⟨gap.2, inner.2⟩⟩ hstart hend
      hquote hhash (htail.append_gap gap')
    simpa using hform

/-- What a value without quotes ends at. -/
theorem isRemark_dropWhile (cs : List Char) : IsRemark (cs.dropWhile (· ≠ '#')) := by
  cases hdrop : cs.dropWhile (· ≠ '#') with
  | nil => exact .blank allBlank_nil
  | cons c text =>
    have hhead := List.head?_dropWhile_not (· ≠ '#') cs
    rw [hdrop] at hhead
    have hc : c = '#' := by simpa using hhead
    rw [hc]
    exact IsRemark.comment allBlank_nil text

/-- A text without quotes is a value up to `#`. -/
theorem denotes_bare (hstart : StartsBare raw) (hquote : ∀ q : Quotes, raw.head? ≠ some q.mark) :
    Denotes raw (trimEnd (raw.takeWhile (· ≠ '#'))) := by
  obtain ⟨gap, hgap, htake⟩ := exists_gap_trimEnd (raw.takeWhile (· ≠ '#'))
  have hcut : raw = trimEnd (raw.takeWhile (· ≠ '#')) ++ (gap ++ raw.dropWhile (· ≠ '#')) := by
    rw [← List.append_assoc, ← htake, List.takeWhile_append_dropWhile]
  have hends := endsBare_trimEnd (raw.takeWhile (· ≠ '#'))
  have hhash : '#' ∉ trimEnd (raw.takeWhile (· ≠ '#')) := by
    intro hmem
    have hmem' := (prefix_trimEnd _).subset hmem
    simpa using List.mem_takeWhile_imp hmem'
  generalize trimEnd (raw.takeWhile (· ≠ '#')) = v at *
  -- the value starts as the text does
  have hhead : ∀ c, v.head? = some c → raw.head? = some c := by
    intro c hc
    rw [hcut, List.head?_append, hc]
    rfl
  have hform := Denotes.bare ⟨[], allBlank_nil⟩
    (fun c hc => hstart c (hhead c hc)) hends (fun q hq => hquote q (hhead _ hq)) hhash
    ((isRemark_dropWhile raw).gap_append ⟨gap, hgap⟩)
  rwa [List.nil_append, ← hcut] at hform

/-- What is read after the equals sign is the value that stands there. -/
theorem readValue_eq_ok_iff : readValue raw = .ok v ↔ Denotes raw v := by
  constructor
  · intro h
    obtain ⟨hstart, -, ws, ws', hws, hws', hraw⟩ := trim_eq_iff.1 (rfl : trim raw = trim raw)
    -- the white space around the value does not count
    suffices hvalue : Denotes (trim raw) v by
      rw [hraw]
      exact hvalue.within ⟨ws, hws⟩ ⟨ws', hws'⟩
    by_cases hquoted : ∃ q : Quotes, (trim raw).head? = some q.mark
    · obtain ⟨q, hq⟩ := hquoted
      obtain ⟨cs, hcs⟩ := List.head?_eq_some_iff.1 hq
      rw [readValue_of_quoted hcs] at h
      obtain ⟨body, tail, rfl, hbody, htail⟩ := readQuoted_eq_ok_iff.1 h
      rw [hcs]
      exact .quoted ⟨[], allBlank_nil⟩ q hbody htail
    · have hbare : ∀ q : Quotes, (trim raw).head? ≠ some q.mark := fun q hq => hquoted ⟨q, hq⟩
      rw [readValue_of_bare hbare] at h
      cases h
      exact denotes_bare hstart hbare
  · rintro (⟨gap, q, hbody, htail⟩ | ⟨gap, hstart, hend, hquote, hhash, htail⟩)
    · rw [readValue_of_quoted (trim_gap_cons gap.2 q.mark_solid _), trimEnd_append_cons q.mark_solid]
      refine readQuoted_eq_ok_iff.2 ⟨_, _, rfl, hbody, ?_⟩
      rw [isRemark_iff_trim, trim_trimEnd]
      exact isRemark_iff_trim.1 htail
    · exact readValue_bare gap hstart hend hquote hhash htail

end

end HeatWatch.EnvFile
