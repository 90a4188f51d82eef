import HeatWatch.Settings.Files
import HeatWatch.Text.Blank

/-!
# Environment variables

The variables of a process by name. A value may be text or bytes that are no text; the latter
counts as unset where a setting is read, but as set where an environment file looks for it.
-/

namespace HeatWatch

/-- The value of a variable. -/
inductive Variable where
  | text (s : String)
  /-- Bytes that are not valid UTF-8. -/
  | raw (bytes : List UInt8)
  deriving DecidableEq, Repr

/-- The value with these bytes. -/
def Variable.ofBytes (bytes : List UInt8) : Variable :=
  match textOfBytes? bytes with
  | some s => .text s
  | none => .raw bytes

/-- The variables of a process; of two entries with one name the first one counts. -/
structure Environment where
  bindings : List (String × Variable)
  deriving DecidableEq, Repr

namespace Environment

def empty : Environment := ⟨[]⟩

/-- The variables of a block of bytes `name=value`, each of which ends with zero. A name that is
no text is left out, for nothing here asks for it. -/
def ofBlock (block : List UInt8) : Environment :=
  ⟨(block.splitOn 0).filterMap fun bytes =>
    match bytes.dropWhile (· ≠ 61) with
    | [] => none
    | _ :: value =>
      (textOfBytes? (bytes.takeWhile (· ≠ 61))).map fun name => (name, .ofBytes value)⟩

/-- The value of a variable, text or not. -/
def get? (e : Environment) (name : String) : Option Variable := e.bindings.lookup name

/-- The text of a variable; none if it is unset or no text. -/
def text? (e : Environment) (name : String) : Option String :=
  match e.get? name with
  | some (.text s) => some s
  | _ => none

/-- The text of a variable that says something: set, text, and not blank. -/
def given? (e : Environment) (name : String) : Option String :=
  (e.text? name).filter fun s => !(Text.trim s.toList).isEmpty

/-- Sets a variable that is not set. -/
def set (e : Environment) (name value : String) : Environment :=
  ⟨e.bindings ++ [(name, .text value)]⟩

theorem get?_set (e : Environment) (name name' value : String) (h : e.get? name = none) :
    (e.set name value).get? name' = if name' = name then some (.text value) else e.get? name' := by
  simp only [get?, set] at h ⊢
  rw [List.lookup_append, List.lookup_cons, List.lookup_nil]
  by_cases hn : name' = name
  · subst hn
    rw [h, beq_self_eq_true, if_pos rfl, Option.none_or]
  · rw [if_neg hn, beq_eq_false_iff_ne.2 hn, Option.or_none]

/-- A name and a value that the process can hold: the name is not empty and has no equals sign,
and neither has the character of number zero. -/
def Settable (name value : String) : Prop :=
  name ≠ "" ∧ '=' ∉ name.toList ∧ '\x00' ∉ name.toList ∧ '\x00' ∉ value.toList

instance (name value : String) : Decidable (Settable name value) :=
  inferInstanceAs (Decidable (_ ∧ _ ∧ _ ∧ _))

end Environment

end HeatWatch
