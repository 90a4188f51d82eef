import HeatWatch.Proofs.Settings.Values

/-!
# Lines of environment files

What a line says is given by its form: `IsRemark` for a line that says nothing, `Assigns` for an assignment
with its name and its value. A line is read as what its form says, and refused if it has neither form.
Main statements:

* `Heading.readLine_text`: a line that starts as an assignment is read as its name and its value;
* `readLine_eq_none_iff`, `readLine_eq_some_iff`: what is read of a line;
* `quoted_values_read_back`: a value that was written in quotes is read back, whatever it is.
-/

namespace HeatWatch.EnvFile

open Text

/-! ## Forms -/

/-- The name of a variable, as it can be written. -/
structure Key where
  chars : List Char
  ne_nil : chars ≠ []
  solid : ∀ c ∈ chars, isBlank c = false ∧ c ≠ '='

/-- The word before an assignment, and the white space after it. -/
def exportText : Option Gap → List Char
  | none => []
  | some gap => "export ".toList ++ gap.1

/-- A line up to its equals sign. -/
structure Heading where
  indent : Gap
  exported : Option Gap
  key : Key
  pad : Gap
  /-- Without the word, the line does not start as a comment does, nor as if with the word. -/
  unmistaken : exported = none →
    key.chars.head? ≠ some '#' ∧ ¬ "export ".toList <+: key.chars ++ pad.1

def Heading.text (h : Heading) : List Char :=
  h.indent.1 ++ (exportText h.exported ++ (h.key.chars ++ h.pad.1)) ++ ['=']

/-- A line that assigns, with the name and the value. -/
inductive Assigns : List Char → List Char → List Char → Prop
  | mk (h : Heading) {raw v : List Char} (hraw : Denotes raw v) :
      Assigns (h.text ++ raw) h.key.chars v

/-! ## Lines -/

section

variable {line before raw cs name v : List Char} {c : Char}

/-- How a line with an equals sign is read, once it is trimmed and without the word before it. -/
theorem readLine_of_cut (htrim : trim line = c :: cs) (hc : c ≠ '#')
    (hcut : dropExport (c :: cs) = before ++ '=' :: raw) (hbefore : '=' ∉ before) :
    readLine line =
      if (trim before).isEmpty then .error .emptyName
      else if (trim before).any isBlank then .error (.blankInName (String.ofList (trim before)))
      else (fun v => some (trim before, v)) <$> readValue raw := by
  have hdrop : (dropExport (c :: cs)).dropWhile (· ≠ '=') = '=' :: raw := by
    rw [hcut, List.dropWhile_append_of_pos (forall_ne_of_not_mem hbefore)]
    simp
  have htake : (dropExport (c :: cs)).takeWhile (· ≠ '=') = before := by
    rw [hcut, List.takeWhile_append_of_pos (forall_ne_of_not_mem hbefore)]
    simp
  rw [readLine, htrim]
  dsimp only
  rw [if_neg hc, hdrop, htake]

theorem readLine_of_noEquals (htrim : trim line = c :: cs) (hc : c ≠ '#')
    (hnone : '=' ∉ dropExport (c :: cs)) : readLine line = .error .noEquals := by
  have hdrop : (dropExport (c :: cs)).dropWhile (· ≠ '=') = [] :=
    List.dropWhile_eq_nil_iff.2 (forall_ne_of_not_mem hnone)
  rw [readLine, htrim]
  dsimp only
  rw [if_neg hc, hdrop]

theorem readLine_of_remark (h : IsRemark line) : readLine line = .ok none := by
  rcases isRemark_iff_trim.1 h with hnil | ⟨text, htext⟩
  · rw [readLine, hnil]
  · rw [readLine, htext]
    rfl

/-- Without the word at its start a text stays as it is; else the word goes, with white space after it. -/
theorem dropExport_cases (cs : List Char) :
    ¬ "export ".toList <+: cs ∧ dropExport cs = cs ∨
      ∃ gap : Gap, cs = exportText (some gap) ++ dropExport cs := by
  unfold dropExport
  split
  case isTrue h =>
    obtain ⟨rest, rfl⟩ := List.isPrefixOf_iff_prefix.1 h
    obtain ⟨ws, hws, hrest⟩ := exists_gap_trimStart rest
    refine .inr ⟨⟨ws, hws⟩, ?_⟩
    show "export ".toList ++ rest = "export ".toList ++ ws ++ trimStart rest
    rw [List.append_assoc, ← hrest]
  case isFalse h => exact .inl ⟨fun hword => h (List.isPrefixOf_iff_prefix.2 hword), rfl⟩

theorem word_eq : "export ".toList = ['e', 'x', 'p', 'o', 'r', 't', ' '] := by rfl

theorem exportText_none : exportText none = [] := rfl

theorem exportText_some (gap : Gap) : exportText (some gap) = "export ".toList ++ gap.1 := rfl

/-- The word is at the start of a text, and not a comment. -/
theorem head?_exportText (gap : Gap) (cs : List Char) :
    (exportText (some gap) ++ cs).head? = some 'e' := by
  rw [exportText_some, word_eq]
  rfl

theorem Key.startsBare (k : Key) (cs : List Char) : StartsBare (k.chars ++ cs) := by
  intro c hc
  rw [List.head?_append_of_ne_nil _ k.ne_nil] at hc
  exact (k.solid c (List.mem_of_mem_head? hc)).1

theorem Key.trim_pad (k : Key) (pad : Gap) : trim (k.chars ++ pad.1) = k.chars := by
  rw [trim_append_gap pad.2]
  refine trim_of_bare ?_ ?_
  · exact fun c hc => (k.solid c (List.mem_of_mem_head? hc)).1
  · exact fun c hc => (k.solid c (List.mem_of_mem_getLast? hc)).1

theorem Key.equals_not_mem_pad (k : Key) (pad : Gap) : '=' ∉ k.chars ++ pad.1 := by
  rw [List.mem_append]
  rintro (hmem | hmem)
  · exact (k.solid _ hmem).2 rfl
  · exact absurd (pad.2 _ hmem) (by decide)

namespace Heading

variable (h : Heading)

theorem text_append (raw : List Char) : h.text ++ raw =
    h.indent.1 ++ (exportText h.exported ++ (h.key.chars ++ (h.pad.1 ++ '=' :: raw))) := by
  simp [text]

/-- A line that starts with a heading, trimmed. -/
theorem trim_text (raw : List Char) : trim (h.text ++ raw) =
    exportText h.exported ++ (h.key.chars ++ h.pad.1 ++ '=' :: trimEnd raw) := by
  have hbare : StartsBare (exportText h.exported ++ (h.key.chars ++ (h.pad.1 ++ '=' :: raw))) := by
    cases h.exported with
    | none => exact h.key.startsBare _
    | some gap =>
      intro c hc
      rw [head?_exportText] at hc
      cases hc
      decide
  rw [h.text_append, trim, trimStart_gap h.indent.2 hbare, ← List.append_assoc, ← List.append_assoc,
    trimEnd_append_cons (by decide)]
  simp

/-- The word before the assignment goes with the white space after it, and nothing else does. -/
theorem dropExport_text (raw : List Char) :
    dropExport (exportText h.exported ++ (h.key.chars ++ h.pad.1 ++ '=' :: raw)) =
      h.key.chars ++ h.pad.1 ++ '=' :: raw := by
  cases hexported : h.exported with
  | none =>
    have hword : ¬ "export ".toList <+: h.key.chars ++ h.pad.1 ++ '=' :: raw := by
      intro hword
      have hform : h.key.chars ++ h.pad.1 ++ ['='] <+: h.key.chars ++ h.pad.1 ++ '=' :: raw :=
        ⟨raw, by simp⟩
      -- the word has no equals sign, so it ends before the one of the line
      have hequals : '=' ∉ "export ".toList := by decide
      rcases List.prefix_or_prefix_of_prefix hword hform with hshort | hlong
      · rcases List.prefix_concat_iff.1 hshort with hsame | hshort
        · rw [hsame] at hequals
          exact hequals List.mem_concat_self
        · exact (h.unmistaken hexported).2 hshort
      · exact hequals (hlong.subset List.mem_concat_self)
    rw [exportText_none, List.nil_append, dropExport, if_neg]
    exact fun hstarts => hword (List.isPrefixOf_iff_prefix.1 hstarts)
  | some gap =>
    have hword : "export ".toList <+:
        exportText (some gap) ++ (h.key.chars ++ h.pad.1 ++ '=' :: raw) := by
      rw [exportText_some, List.append_assoc]
      exact List.prefix_append _ _
    rw [dropExport, if_pos (List.isPrefixOf_iff_prefix.2 hword), exportText_some, word_eq,
      List.append_assoc, List.append_assoc]
    exact trimStart_gap gap.2 (h.key.startsBare _)

/-- A line that starts with a heading is neither blank nor a comment. -/
theorem exists_trim_text (raw : List Char) : ∃ c cs, trim (h.text ++ raw) = c :: cs ∧ c ≠ '#' := by
  have htrim := h.trim_text raw
  cases hexported : h.exported with
  | none =>
    obtain ⟨c, key, hkey⟩ := List.exists_cons_of_ne_nil h.key.ne_nil
    refine ⟨c, key ++ h.pad.1 ++ '=' :: trimEnd raw, ?_, ?_⟩
    · rw [htrim, hexported, exportText_none, hkey]
      rfl
    · rintro rfl
      exact (h.unmistaken hexported).1 (by rw [hkey]; rfl)
  | some gap =>
    rw [hexported] at htrim
    have hhead := head?_exportText gap (h.key.chars ++ h.pad.1 ++ '=' :: trimEnd raw)
    obtain ⟨cs, hcs⟩ := List.head?_eq_some_iff.1 hhead
    exact ⟨'e', cs, htrim.trans hcs, by decide⟩

/-- A line that starts with a heading is read as its name and its value. -/
theorem readLine_text (raw : List Char) :
    readLine (h.text ++ raw) = (fun v => some (h.key.chars, v)) <$> readValue raw := by
  have hvalue : readValue (trimEnd raw) = readValue raw := by
    rw [readValue, readValue, trim_trimEnd]
  obtain ⟨c, cs, hline, hc⟩ := h.exists_trim_text raw
  have hdrop := h.dropExport_text (trimEnd raw)
  rw [← h.trim_text raw, hline] at hdrop
  rw [readLine_of_cut hline hc hdrop (h.key.equals_not_mem_pad h.pad), h.key.trim_pad, hvalue, if_neg,
    if_neg]
  · intro hany
    obtain ⟨d, hd, hblank⟩ := List.any_eq_true.1 hany
    rw [(h.key.solid d hd).1] at hblank
    cases hblank
  · intro hempty
    exact h.key.ne_nil (List.isEmpty_iff.1 hempty)

end Heading

/-- Without the word a line that is trimmed starts with the name. -/
theorem exists_heading_plain (indent : Gap) (key : Key) {lead pad : List Char} (hlead : AllBlank lead)
    (hpad : AllBlank pad) (hstart : StartsBare (c :: cs)) (hc : c ≠ '#')
    (hword : ¬ "export ".toList <+: c :: cs)
    (hline : c :: cs = lead ++ key.chars ++ pad ++ '=' :: raw) :
    ∃ h : Heading, ∀ rest, indent.1 ++ (c :: cs) ++ rest = h.text ++ (raw ++ rest) := by
  have hnolead : lead = [] := by
    cases lead with
    | nil => rfl
    | cons w lead =>
      have hhead : some c = some w := congrArg List.head? hline
      have hbare : isBlank w = false := hstart w hhead
      rw [hlead w List.mem_cons_self] at hbare
      cases hbare
  rw [hnolead, List.nil_append] at hline
  have hhead : key.chars.head? = some c := by
    have hsome := congrArg List.head? hline
    rw [List.append_assoc, List.head?_append_of_ne_nil _ key.ne_nil] at hsome
    exact hsome.symm
  have hunmistaken : key.chars.head? ≠ some '#' ∧ ¬ "export ".toList <+: key.chars ++ pad := by
    constructor
    · rw [hhead]
      intro hhash
      exact hc (Option.some.inj hhash)
    · intro hstarts
      refine hword (hstarts.trans ?_)
      rw [hline]
      exact List.prefix_append _ _
  refine ⟨⟨indent, none, key, ⟨pad, hpad⟩, fun _ => hunmistaken⟩, ?_⟩
  intro rest
  rw [Heading.text_append, hline]
  simp only [exportText_none, List.nil_append, List.append_assoc, List.cons_append]

/-- A line with an equals sign starts with a heading, if what stands before the sign is a name. -/
theorem exists_heading (htrim : trim line = c :: cs) (hc : c ≠ '#')
    (hcut : dropExport (c :: cs) = before ++ '=' :: raw) (hbefore : '=' ∉ before)
    (hne : trim before ≠ []) (hsolid : ∀ d ∈ trim before, isBlank d = false) :
    ∃ (h : Heading) (rest : List Char), line = h.text ++ (raw ++ rest) := by
  obtain ⟨hstart, -, ws, ws', hws, -, hline⟩ := trim_eq_iff.1 htrim
  obtain ⟨-, -, lead, pad, hlead, hpad, hname⟩ := trim_eq_iff.1 (rfl : trim before = trim before)
  generalize trim before = name at hne hsolid hname
  subst hname
  have hequals : ∀ d ∈ name, d ≠ '=' := by
    rintro d hd rfl
    exact hbefore (List.mem_append_left _ (List.mem_append_right _ hd))
  let key : Key := ⟨name, hne, fun d hd => ⟨hsolid d hd, hequals d hd⟩⟩
  rcases dropExport_cases (c :: cs) with ⟨hword, hsame⟩ | ⟨gap, hform⟩
  · -- nothing was dropped: the line itself starts with the name
    obtain ⟨h, hh⟩ := exists_heading_plain ⟨ws, hws⟩ key hlead hpad hstart hc hword
      (hsame.symm.trans hcut)
    exact ⟨h, ws', hline.trans (hh ws')⟩
  · -- white space before the name is white space after the word
    refine ⟨⟨⟨ws, hws⟩, some ⟨gap.1 ++ lead, allBlank_append.2 ⟨gap.2, hlead⟩⟩, key, ⟨pad, hpad⟩, ?_⟩,
      ws', ?_⟩
    · intro hnone
      exact absurd hnone (Option.some_ne_none _)
    · rw [Heading.text_append, hline, hform, hcut]
      simp only [key, exportText_some, List.append_assoc, List.cons_append]

/-- A line is blank or a comment, or it starts with a heading, or it is refused. -/
theorem readLine_cases (line : List Char) : IsRemark line ∨
    (∃ (h : Heading) (raw : List Char), line = h.text ++ raw) ∨ ∃ r, readLine line = .error r := by
  cases htrim : trim line with
  | nil => exact .inl (.blank (trim_eq_nil_iff.1 htrim))
  | cons c cs =>
    by_cases hc : c = '#'
    · exact .inl (isRemark_iff_trim.2 (.inr ⟨cs, by rw [htrim, hc]⟩))
    · by_cases hequals : '=' ∈ dropExport (c :: cs)
      · obtain ⟨before, raw, hcut, hbefore⟩ := List.eq_append_cons_of_mem hequals
        have hread := readLine_of_cut htrim hc hcut hbefore
        split at hread
        case isTrue => exact .inr (.inr ⟨_, hread⟩)
        case isFalse hname =>
          split at hread
          case isTrue => exact .inr (.inr ⟨_, hread⟩)
          case isFalse hsolid =>
            rw [List.isEmpty_iff] at hname
            rw [List.any_eq_true] at hsolid
            obtain ⟨h, rest, hline⟩ := exists_heading htrim hc hcut hbefore hname
              fun d hd => Bool.eq_false_iff.2 fun hblank => hsolid ⟨d, hd, hblank⟩
            exact .inr (.inl ⟨h, _, hline⟩)
      · exact .inr (.inr ⟨_, readLine_of_noEquals htrim hc hequals⟩)

/-- Nothing is read of a line that is blank or a comment, and of no other. -/
theorem readLine_eq_none_iff : readLine line = .ok none ↔ IsRemark line := by
  constructor
  · intro h
    rcases readLine_cases line with hremark | ⟨heading, raw, rfl⟩ | ⟨r, hr⟩
    · exact hremark
    · rw [heading.readLine_text] at h
      cases hvalue : readValue raw <;> rw [hvalue] at h <;> cases h
    · rw [hr] at h
      cases h
  · exact readLine_of_remark

/-- What is read of an assignment is its name and its value, and nothing else is read as one. -/
theorem readLine_eq_some_iff : readLine line = .ok (some (name, v)) ↔ Assigns line name v := by
  constructor
  · intro h
    rcases readLine_cases line with hremark | ⟨heading, raw, rfl⟩ | ⟨r, hr⟩
    · rw [readLine_of_remark hremark] at h
      cases h
    · rw [heading.readLine_text] at h
      cases hvalue : readValue raw with
      | error r =>
        rw [hvalue] at h
        cases h
      | ok u =>
        rw [hvalue] at h
        cases h
        exact .mk heading (readValue_eq_ok_iff.1 hvalue)
    · rw [hr] at h
      cases h
  · rintro ⟨h, hraw⟩
    rw [h.readLine_text, readValue_eq_ok_iff.2 hraw]
    rfl

theorem parseLine_eq_none_iff {line : String} : parseLine line = .ok none ↔ IsRemark line.toList := by
  rw [← readLine_eq_none_iff, parseLine]
  rcases readLine line.toList with r | _ | ⟨name, v⟩
  · exact ⟨nofun, nofun⟩
  · exact ⟨fun _ => rfl, fun _ => rfl⟩
  · exact ⟨nofun, nofun⟩

theorem parseLine_eq_some_iff {line name value : String} :
    parseLine line = .ok (some (name, value)) ↔ Assigns line.toList name.toList value.toList := by
  rw [← readLine_eq_some_iff, parseLine]
  rcases readLine line.toList with r | _ | ⟨name', v⟩
  · exact ⟨nofun, nofun⟩
  · exact ⟨nofun, nofun⟩
  · constructor
    · intro h
      cases h
      simp
    · intro h
      cases h
      simp [Functor.map, Except.map]

end

/-! ## Values that are written in quotes -/

namespace Quotes

/-- A character of a value, as it is written in double quotes. -/
def escape : Char → List Char
  | '\\' => ['\\', '\\']
  | '"' => ['\\', '"']
  | '\n' => ['\\', 'n']
  | '\r' => ['\\', 'r']
  | '\t' => ['\\', 't']
  | c => [c]

/-- A value, as it is written in quotes. -/
def write : Quotes → List Char → List Char
  | .double, v => v.flatMap escape
  | .single, v => v

/-- The value can be written in the quotes: single ones do not stand between single ones. -/
def Fits : Quotes → List Char → Prop
  | .double, _ => True
  | .single, v => '\'' ∉ v

/-- One character of a value, in front of others. -/
theorem Spells.escape {body v : List Char} (h : Quotes.double.Spells body v) (c : Char) :
    Quotes.double.Spells (Quotes.escape c ++ body) (c :: v) := by
  unfold Quotes.escape
  split
  case h_1 => exact .escaped rfl '\\' h
  case h_2 => exact .escaped rfl '"' h
  case h_3 => exact .escaped rfl 'n' h
  case h_4 => exact .escaped rfl 'r' h
  case h_5 => exact .escaped rfl 't' h
  case h_6 hbackslash hmark _ _ _ => exact .plain hmark (fun hc => hbackslash hc.2) h

theorem spells_write {q : Quotes} {v : List Char} (h : q.Fits v) : q.Spells (q.write v) v := by
  cases q with
  | double =>
    clear h
    induction v with
    | nil => exact .nil
    | cons c v ih => exact ih.escape c
  | single =>
    induction v with
    | nil => exact .nil
    | cons c v ih =>
      have hc : c ≠ '\'' := fun heq => h (heq ▸ List.mem_cons_self)
      have hv : '\'' ∉ v := fun hmem => h (List.mem_cons_of_mem c hmem)
      exact .plain hc (fun hescape => absurd hescape.1 Bool.false_ne_true) (ih hv)

end Quotes

/-- The heading of a line with nothing between the name and the equals sign. -/
def Heading.tight (indent : Gap) (exported : Option Gap) (key : Key)
    (hkey : key.chars.head? ≠ some '#') : Heading where
  indent := indent
  exported := exported
  key := key
  pad := ⟨[], allBlank_nil⟩
  unmistaken _ := by
    refine ⟨hkey, ?_⟩
    rw [List.append_nil]
    intro hword
    -- the word has a space in it, and a name has none
    have hspace : ' ' ∈ "export ".toList := by rw [word_eq]; decide
    exact absurd (key.solid ' ' (hword.subset hspace)).1 (by decide)

/-- A line whose value is in quotes is read as what stands between them. -/
theorem Heading.readLine_quoted (h : Heading) (gap : Gap) (q : Quotes) (cs : List Char) :
    readLine (h.text ++ (gap.1 ++ q.mark :: cs)) =
      (fun v => some (h.key.chars, v)) <$> readQuoted q.mark q.escapes (trimEnd cs) := by
  rw [h.readLine_text, readValue_of_quoted (trim_gap_cons gap.2 q.mark_solid cs)]

/-- A value that is written in quotes is read back, with the name, whatever stands around the assignment.
With another text after the closing quote, without that quote or after a backslash the line is refused. -/
theorem quoted_values_read_back (indent gap : Gap) (exported : Option Gap) (key : Key) (q : Quotes)
    (v : String) (hkey : key.chars.head? ≠ some '#') (hv : q.Fits v.toList) :
    let line rest := String.ofList
      (indent.1 ++ (exportText exported ++ (key.chars ++ '=' :: (gap.1 ++ q.mark :: rest))))
    let written := q.write v.toList
    (∀ tail, IsRemark tail →
      parseLine (line (written ++ q.mark :: tail)) = .ok (some (String.ofList key.chars, v))) ∧
    (∀ tail, ¬ IsRemark tail →
      parseLine (line (written ++ q.mark :: tail)) = .error .textAfterQuote) ∧
    (∀ inside, inside <+: written →
      parseLine (line inside) = .error .openQuote ∨ parseLine (line inside) = .error .cutEscape) ∧
    parseLine (line (written ++ ['\\'])) = .error (if q.escapes then .cutEscape else .openQuote) := by
  intro line written
  have hbody : q.Spells written v.toList := Quotes.spells_write hv
  -- whatever follows the opening quote, the heading is read first
  have hread : ∀ rest, parseLine (line rest) =
      (fun value => some (String.ofList key.chars, String.ofList value)) <$>
        readQuoted q.mark q.escapes (trimEnd rest) := by
    intro rest
    have hquoted := (Heading.tight indent exported key hkey).readLine_quoted gap q rest
    rw [Heading.text_append] at hquoted
    rw [parseLine, String.toList_ofList]
    refine (congrArg _ hquoted).trans ?_
    cases readQuoted q.mark q.escapes (trimEnd rest) <;> rfl
  have hclosed : ∀ tail, readQuoted q.mark q.escapes (trimEnd (written ++ q.mark :: tail)) =
      if IsRemark tail then .ok v.toList else .error .textAfterQuote := by
    intro tail
    have hends : endsAfterQuote (trimEnd tail) = true ↔ IsRemark tail := by
      rw [endsAfterQuote_iff, isRemark_iff_trim, isRemark_iff_trim, trim_trimEnd]
    rw [trimEnd_append_cons q.mark_solid, readQuoted_closed hbody, if_congr hends rfl rfl]
  refine ⟨?_, ?_, ?_, ?_⟩
  · -- nothing but a remark follows the closing quote
    intro tail htail
    rw [hread, hclosed, if_pos htail]
    exact congrArg (fun value => Except.ok (some (String.ofList key.chars, value))) String.ofList_toList
  · intro tail htail
    rw [hread, hclosed, if_neg htail]
    rfl
  · intro inside hinside
    -- trimming the line takes more of what spells the value
    rcases hbody.cut ((prefix_trimEnd inside).trans hinside) with ⟨u, hu⟩ | ⟨p, u, hq, hp, hu⟩
    · left
      rw [hread, readQuoted_open hu]
      rfl
    · right
      rw [hread, hp, readQuoted_cut hu hq]
      rfl
  · rw [hread, trimEnd_append_cons (by decide)]
    cases q with
    | double =>
      rw [show trimEnd [] = [] from rfl, readQuoted_cut hbody rfl]
      rfl
    | single =>
      -- a backslash is a character like others
      have hlonger : Quotes.single.Fits (v.toList ++ ['\\']) := by
        intro hmem
        rcases List.mem_append.1 hmem with hmem | hmem
        · exact hv hmem
        · exact absurd hmem (by decide)
      have hopen : readQuoted Quotes.single.mark Quotes.single.escapes (written ++ ['\\']) =
          .error .openQuote := readQuoted_open (Quotes.spells_write hlonger)
      rw [show trimEnd [] = [] from rfl, hopen]
      rfl

/-- Between single quotes a backslash is kept, and a comment after them is not. -/
theorem single_quotes_read_back :
    ['X'].head? ≠ some '#' ∧ Quotes.single.Fits "raw\\n".toList ∧ IsRemark " # kept".toList ∧
      parseLine (String.ofList ("X='raw\\n'".toList ++ " # kept".toList)) = .ok (some ("X", "raw\\n")) := by
  have hkey : ['X'].head? ≠ some '#' := by decide
  have hfits : Quotes.single.Fits "raw\\n".toList := by
    show '\'' ∉ "raw\\n".toList
    decide +kernel
  have hremark : IsRemark " # kept".toList := by decide +kernel
  refine ⟨hkey, hfits, hremark, ?_⟩
  have hsolid : ∀ c ∈ ['X'], isBlank c = false ∧ c ≠ '=' := List.forall_mem_singleton.2 (by decide)
  have hread := (quoted_values_read_back ⟨[], allBlank_nil⟩ ⟨[], allBlank_nil⟩ none
    ⟨['X'], List.cons_ne_nil _ _, hsolid⟩ .single "raw\\n" hkey hfits).1 " # kept".toList hremark
  exact hread

end HeatWatch.EnvFile
