import HeatWatch.Settings.CommandLine

/-!
# What a command line may say

An argument is the option, the option with a path behind an equals sign, or nothing that is known. A path can
be given once, and nothing may follow it. So a command line that is not refused is empty, or gives one path in
one of two ways. Main statements:

* `Form.ofText_cases`: what an argument is;
* `readFrom_cases`: what the first argument does;
* `readFrom_path`: what may follow a path;
* `envFile_forms`: which command lines are not refused, and what they name.
-/

namespace HeatWatch.CommandLine

/-! ## Arguments -/

theorem Form.ofText_option : Form.ofText option = .bare := by decide

theorem Form.ofText_path (path : List Char) : Form.ofText (option ++ '=' :: path) = .withPath path := by
  rw [Form.ofText, if_pos (List.isPrefixOf_iff_prefix.2 (List.prefix_append _ _)), List.drop_left]
  rfl

/-- An argument is the option, the option with a path, or something else. -/
theorem Form.ofText_cases (cs : List Char) :
    cs = option ∨ (∃ path, cs = option ++ '=' :: path) ∨ Form.ofText cs = .other := by
  unfold Form.ofText
  split
  case isTrue hoption =>
    obtain ⟨rest, rfl⟩ := List.isPrefixOf_iff_prefix.1 hoption
    rw [List.drop_left]
    split
    case h_1 =>
      left
      exact List.append_nil option
    case h_2 path =>
      right; left
      exact ⟨path, rfl⟩
    case h_3 =>
      right; right
      rfl
  case isFalse =>
    right; right
    rfl

theorem toList_append_path (path : String) :
    ("--env-file=" ++ path).toList = option ++ '=' :: path.toList := by
  rw [String.toList_append]
  rfl

/-! ## Paths -/

section

variable {seen given asked : Option String} {p : String} {arguments : List String}

/-- A path is taken if it is the first one and not empty. -/
theorem accept_eq_ok_iff : accept seen given = .ok p ↔ seen = none ∧ given = some p ∧ p ≠ "" := by
  unfold accept
  constructor
  · intro h
    split at h
    case h_1 => cases h
    case h_2 q hq =>
      obtain ⟨hgiven, hne⟩ := Option.filter_eq_some_iff.1 hq
      split at h
      case isTrue hseen =>
        cases h
        exact ⟨Option.isNone_iff_eq_none.1 hseen, hgiven, of_decide_eq_true hne⟩
      case isFalse => cases h
  · rintro ⟨rfl, rfl, hne⟩
    rw [Option.filter_some, if_pos (decide_eq_true hne)]
    rfl

/-- The option, and its path in the next argument. -/
theorem readFrom_apart (seen : Option String) (given : String) (rest : List String) :
    readFrom seen ("--env-file" :: given :: rest) =
      (accept seen (some given) >>= fun p => readFrom (some p) rest) := by
  have hform : Form.ofText "--env-file".toList = .bare := Form.ofText_option
  rw [readFrom, hform]
  dsimp only
  cases accept seen (some given) <;> rfl

/-- The option and its path in one argument. -/
theorem readFrom_joined (seen : Option String) (given : String) (rest : List String) :
    readFrom seen (("--env-file=" ++ given) :: rest) =
      (accept seen (some given) >>= fun p => readFrom (some p) rest) := by
  rw [readFrom.eq_def]
  dsimp only
  rw [toList_append_path, Form.ofText_path]
  dsimp only
  rw [String.ofList_toList]
  cases accept seen (some given) <;> rfl

/-- The first argument is refused, or a path is given, with this argument or the next one. -/
theorem readFrom_cases (seen : Option String) (arguments : List String) :
    arguments = [] ∨ (∃ r, readFrom seen arguments = .error r) ∨
      ∃ given rest, arguments = "--env-file" :: given :: rest ∨
        arguments = ("--env-file=" ++ given) :: rest := by
  rcases arguments with _ | ⟨argument, rest⟩
  · left
    rfl
  · right
    rcases Form.ofText_cases argument.toList with hoption | ⟨path, hpath⟩ | hother
    · have hargument : argument = "--env-file" := String.toList_inj.1 hoption
      rcases rest with _ | ⟨given, rest⟩
      · left
        rw [hargument]
        exact ⟨.noPath, rfl⟩
      · right
        exact ⟨given, rest, .inl (by rw [hargument])⟩
    · right
      have hargument : argument = "--env-file=" ++ String.ofList path := by
        refine String.toList_inj.1 ?_
        rw [hpath, toList_append_path, String.toList_ofList]
      exact ⟨String.ofList path, rest, .inr (by rw [hargument])⟩
    · left
      rw [readFrom.eq_def]
      dsimp only
      rw [hother]
      exact ⟨_, rfl⟩

/-- Nothing may follow a path: no other one, nor anything else. -/
theorem readFrom_path : readFrom (some p) arguments = .ok asked ↔ arguments = [] ∧ asked = some p := by
  have hrepeated : ∀ given rest,
      (accept (some p) (some given) >>= fun p => readFrom (some p) rest) ≠ .ok asked := by
    intro given rest h
    cases haccept : accept (some p) (some given) with
    | error r =>
      rw [haccept] at h
      cases h
    | ok q => exact absurd (accept_eq_ok_iff.1 haccept).1 (Option.some_ne_none p)
  constructor
  · intro h
    rcases readFrom_cases (some p) arguments with rfl | ⟨r, hr⟩ | ⟨given, rest, rfl | rfl⟩
    · cases h
      exact ⟨rfl, rfl⟩
    · rw [hr] at h
      cases h
    · rw [readFrom_apart] at h
      exact absurd h (hrepeated given rest)
    · rw [readFrom_joined] at h
      exact absurd h (hrepeated given rest)
  · rintro ⟨rfl, rfl⟩
    rfl

/-- The first path is the one that is named, if it is not empty and nothing follows it. -/
theorem accept_first {given : String} {rest : List String} :
    (accept none (some given) >>= fun p => readFrom (some p) rest) = .ok asked ↔
      given ≠ "" ∧ rest = [] ∧ asked = some given := by
  constructor
  · intro h
    cases haccept : accept none (some given) with
    | error r =>
      rw [haccept] at h
      cases h
    | ok q =>
      obtain ⟨-, hq, hne⟩ := accept_eq_ok_iff.1 haccept
      rw [haccept] at h
      obtain ⟨hrest, hasked⟩ := readFrom_path.1 h
      rw [Option.some.inj hq]
      exact ⟨hne, hrest, hasked⟩
  · rintro ⟨hne, rfl, rfl⟩
    rw [accept_eq_ok_iff.2 ⟨rfl, rfl, hne⟩]
    rfl

/-- What a command line names, unless it is refused. -/
theorem envFile_eq_ok_iff : envFile arguments = .ok asked ↔ arguments = [] ∧ asked = none ∨
    ∃ p, p ≠ "" ∧ asked = some p ∧ (arguments = ["--env-file", p] ∨ arguments = ["--env-file=" ++ p]) := by
  unfold envFile
  constructor
  · intro h
    rcases readFrom_cases none arguments with rfl | ⟨r, hr⟩ | ⟨given, rest, rfl | rfl⟩
    · left
      cases h
      exact ⟨rfl, rfl⟩
    · rw [hr] at h
      cases h
    · right
      rw [readFrom_apart] at h
      obtain ⟨hne, rfl, rfl⟩ := accept_first.1 h
      exact ⟨given, hne, rfl, .inl rfl⟩
    · right
      rw [readFrom_joined] at h
      obtain ⟨hne, rfl, rfl⟩ := accept_first.1 h
      exact ⟨given, hne, rfl, .inr rfl⟩
  · rintro (⟨rfl, rfl⟩ | ⟨p, hne, rfl, rfl | rfl⟩)
    · rfl
    · rw [readFrom_apart]
      exact accept_first.2 ⟨hne, rfl, rfl⟩
    · rw [readFrom_joined]
      exact accept_first.2 ⟨hne, rfl, rfl⟩

end

/-- The empty command line names no file. One that names a file is the option and the path, as two arguments or
as one with an equals sign between them, and the path is any text but the empty one. Every other command line
is refused. -/
theorem envFile_forms (arguments : List String) :
    (envFile arguments = .ok none ↔ arguments = []) ∧
    (∀ p, envFile arguments = .ok (some p) ↔
      p ≠ "" ∧ (arguments = ["--env-file", p] ∨ arguments = ["--env-file=" ++ p])) ∧
    ((∃ r, envFile arguments = .error r) ↔ arguments ≠ [] ∧
      ¬ ∃ p, p ≠ "" ∧ (arguments = ["--env-file", p] ∨ arguments = ["--env-file=" ++ p])) := by
  have hnone : envFile arguments = .ok none ↔ arguments = [] := by
    rw [envFile_eq_ok_iff]
    constructor
    · rintro (⟨hempty, -⟩ | ⟨p, -, hp, -⟩)
      · exact hempty
      · cases hp
    · intro hempty
      exact .inl ⟨hempty, rfl⟩
  have hsome : ∀ p, envFile arguments = .ok (some p) ↔
      p ≠ "" ∧ (arguments = ["--env-file", p] ∨ arguments = ["--env-file=" ++ p]) := by
    intro p
    rw [envFile_eq_ok_iff]
    constructor
    · rintro (⟨-, hp⟩ | ⟨q, hne, hq, hform⟩)
      · cases hp
      · cases hq
        exact ⟨hne, hform⟩
    · rintro ⟨hne, hform⟩
      exact .inr ⟨p, hne, rfl, hform⟩
  refine ⟨hnone, hsome, ?_⟩
  -- a command line is refused or names a file or names none, and only one of these
  rw [Ne, ← hnone]
  simp only [← hsome]
  rcases envFile arguments with r | _ | p
  · simp
  · simp
  · simp

/-- A path may look like the option. -/
example : envFile ["--env-file", "--env-file"] = .ok (some "--env-file") := by rfl

end HeatWatch.CommandLine
