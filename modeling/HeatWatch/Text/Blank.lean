/-!
# White space

The characters of Unicode's `White_Space` property, and texts without them at their ends.
-/

namespace HeatWatch.Text

/-- The character has Unicode's `White_Space` property. -/
def isBlank (c : Char) : Bool :=
  let n := c.toNat
  (9 ≤ n && n ≤ 13) || n == 0x20 || n == 0x85 || n == 0xA0 || n == 0x1680
    || (0x2000 ≤ n && n ≤ 0x200A) || n == 0x2028 || n == 0x2029 || n == 0x202F || n == 0x205F
    || n == 0x3000

/-- The text without white space at its start. -/
def trimStart (cs : List Char) : List Char := cs.dropWhile isBlank

/-- The text without white space at its end. -/
def trimEnd (cs : List Char) : List Char := (cs.reverse.dropWhile isBlank).reverse

/-- The text without white space at its ends. -/
def trim (cs : List Char) : List Char := trimEnd (trimStart cs)

/-- The text has no other characters than white space. -/
def AllBlank (cs : List Char) : Prop := ∀ c ∈ cs, isBlank c = true

instance (cs : List Char) : Decidable (AllBlank cs) :=
  inferInstanceAs (Decidable (∀ c ∈ cs, _))

/-! ## Laws -/

theorem trimStart_eq_nil_iff {cs : List Char} : trimStart cs = [] ↔ AllBlank cs := by
  induction cs with
  | nil => simp [trimStart, AllBlank]
  | cons c cs ih =>
    unfold trimStart AllBlank at *
    rw [List.dropWhile_cons, List.forall_mem_cons]
    by_cases hc : isBlank c
    · rw [if_pos hc, ih]
      exact ⟨fun h => ⟨hc, h⟩, And.right⟩
    · simp [hc]

theorem trimStart_append_of_allBlank {ws : List Char} (h : AllBlank ws) (cs : List Char) :
    trimStart (ws ++ cs) = trimStart cs := by
  induction ws with
  | nil => rfl
  | cons w ws ih =>
    have hw : isBlank w = true := h w (by simp)
    have := ih fun c hc => h c (by simp [hc])
    simpa [trimStart, hw] using this

end HeatWatch.Text
