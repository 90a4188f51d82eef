/-!
# Texts in order

Texts in the order of their characters, and lists sorted by it. `sort` keeps every element;
`sortDistinct` keeps one of each.
-/

namespace HeatWatch.Text

/-- The first text comes before the second one: at the first difference it has the smaller
character, or it ends. -/
def precedes : List Char → List Char → Bool
  | _, [] => false
  | [], _ :: _ => true
  | a :: as, b :: bs => a.toNat < b.toNat || (a == b && precedes as bs)

/-- Puts an element before the first one whose text is not smaller. -/
def insertBy {α : Type} (key : α → List Char) (a : α) : List α → List α
  | [] => [a]
  | b :: bs => if precedes (key b) (key a) then b :: insertBy key a bs else a :: b :: bs

/-- The elements in the order of their texts. -/
def sortBy {α : Type} (key : α → List Char) (as : List α) : List α :=
  as.foldr (insertBy key) []

/-- The texts in order, each once. -/
def sortDistinct (ts : List (List Char)) : List (List Char) :=
  (sortBy id ts).eraseReps

end HeatWatch.Text
