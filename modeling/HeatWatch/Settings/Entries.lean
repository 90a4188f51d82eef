import HeatWatch.Decimal.Whole
import HeatWatch.Text.Blank

/-!
# Lists in settings

A list is written as entries between commas. White space around an entry does not count, and an
entry without anything else is skipped.
-/

namespace HeatWatch.Entries

/-- The text between commas, in order; there is one part more than there are commas. -/
def parts : List Char → List (List Char)
  | [] => [[]]
  | c :: cs =>
    if c = ',' then [] :: parts cs
    else
      match parts cs with
      | [] => [[c]]
      | p :: ps => (c :: p) :: ps

/-- The entries without white space around them, blank ones left out. -/
def ofText (raw : String) : List (List Char) :=
  ((parts raw.toList).map Text.trim).filter fun p => !p.isEmpty

/-- Reads every entry; the first one that cannot be read is named. -/
def read {α : Type} (entry : List Char → Option α) (raw : String) : Except String (List α) :=
  (ofText raw).mapM fun p =>
    match entry p with
    | some a => .ok a
    | none => .error ("invalid list entry: " ++ String.ofList p)

/-- A truth value by its name. -/
def bool? (cs : List Char) : Option Bool :=
  if cs = "true".toList then some true else if cs = "false".toList then some false else none

end HeatWatch.Entries
