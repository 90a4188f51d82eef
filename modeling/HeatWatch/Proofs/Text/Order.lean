import HeatWatch.Text.Order

/-!
# Sorting by text

`precedes` is the order of lists of characters, and `sortBy` sorts by it:

* `perm_sortBy`: every element is kept, and none is added;
* `ascending_sortBy`: elements with different texts end up in strictly ascending order;
* `ascending_sortDistinct`, `mem_sortDistinct`: `sortDistinct` keeps one of each.
-/

namespace HeatWatch.Text

theorem precedes_iff {a b : List Char} : precedes a b = true ↔ a < b := by
  induction a generalizing b with
  | nil => cases b <;> simp [precedes]
  | cons c a ih =>
    cases b with
    | nil => simp [precedes]
    | cons d b =>
      have hlt : c.toNat < d.toNat ↔ c < d := gt_iff_lt
      simp only [precedes, Bool.or_eq_true, decide_eq_true_eq, Bool.and_eq_true, beq_iff_eq,
        List.cons_lt_cons_iff, ih, hlt]

variable {α : Type} {key : α → List Char}

theorem perm_insertBy (a : α) (as : List α) : (insertBy key a as).Perm (a :: as) := by
  induction as with
  | nil => exact .refl _
  | cons b bs ih =>
    rw [insertBy]
    split
    · exact (ih.cons b).trans (.swap a b bs)
    · exact .refl _

theorem perm_sortBy (as : List α) : (sortBy key as).Perm as := by
  induction as with
  | nil => exact .refl _
  | cons a as ih => exact (perm_insertBy a (sortBy key as)).trans (ih.cons a)

/-- An element whose text is not there yet finds its place between the smaller and the larger ones. -/
theorem ascending_insertBy {a : α} {as : List α} (has : as.Pairwise fun b c => key b < key c)
    (hnew : ∀ b ∈ as, key b ≠ key a) :
    (insertBy key a as).Pairwise fun b c => key b < key c := by
  induction as with
  | nil => exact List.pairwise_singleton _ _
  | cons b bs ih =>
    obtain ⟨hb, hbs⟩ := List.pairwise_cons.1 has
    rw [insertBy]
    split
    case isTrue hlt =>
      refine List.pairwise_cons.2 ⟨fun c hc => ?_, ih hbs fun c hc => hnew c (.tail b hc)⟩
      rcases List.mem_cons.1 ((perm_insertBy a bs).mem_iff.1 hc) with rfl | hc
      · exact precedes_iff.1 hlt
      · exact hb c hc
    case isFalse hge =>
      have hle : ¬ key b < key a := fun h => hge (precedes_iff.2 h)
      have hab : key a < key b :=
        (List.le_iff_lt_or_eq.1 (List.not_lt.1 hle)).resolve_right (hnew b List.mem_cons_self).symm
      refine List.pairwise_cons.2 ⟨fun c hc => ?_, has⟩
      rcases List.mem_cons.1 hc with rfl | hc
      · exact hab
      · exact List.lt_trans hab (hb c hc)

theorem ascending_sortBy {as : List α} (h : (as.map key).Nodup) :
    (sortBy key as).Pairwise fun a b => key a < key b := by
  induction as with
  | nil => exact .nil
  | cons a as ih =>
    obtain ⟨ha, has⟩ := List.nodup_cons.1 h
    refine ascending_insertBy (ih has) fun b hb heq => ha ?_
    rw [← heq]
    exact List.mem_map_of_mem ((perm_sortBy as).mem_iff.1 hb)

theorem sorted_insertBy {a : α} {as : List α} (has : as.Pairwise fun b c => ¬ key c < key b) :
    (insertBy key a as).Pairwise fun b c => ¬ key c < key b := by
  induction as with
  | nil => exact List.pairwise_singleton _ _
  | cons b bs ih =>
    obtain ⟨hb, hbs⟩ := List.pairwise_cons.1 has
    rw [insertBy]
    split
    case isTrue hlt =>
      refine List.pairwise_cons.2 ⟨fun c hc => ?_, ih hbs⟩
      rcases List.mem_cons.1 ((perm_insertBy a bs).mem_iff.1 hc) with rfl | hc
      · exact List.lt_asymm (precedes_iff.1 hlt)
      · exact hb c hc
    case isFalse hge =>
      have hab : ¬ key b < key a := fun h => hge (precedes_iff.2 h)
      refine List.pairwise_cons.2 ⟨fun c hc => ?_, has⟩
      rcases List.mem_cons.1 hc with rfl | hc
      · exact hab
      · intro hca
        rcases List.le_iff_lt_or_eq.1 (List.not_lt.1 hab) with hlt | heq
        · exact hb c hc (List.lt_trans hca hlt)
        · exact hb c hc (heq ▸ hca)

theorem sorted_sortBy (as : List α) : (sortBy key as).Pairwise fun a b => ¬ key b < key a := by
  induction as with
  | nil => exact .nil
  | cons a as ih => exact sorted_insertBy ih

/-! ## One of each -/

/-- Of two neighbours that are equal the second one goes. -/
theorem eraseReps_cons_cons [BEq α] (a b : α) (as : List α) : (a :: b :: as).eraseReps =
    if a == b then (a :: as).eraseReps else a :: (b :: as).eraseReps := by
  have hloop : ∀ (as : List α) (a : α) (acc : List α),
      List.eraseRepsBy.loop (· == ·) a as acc =
        acc.reverse ++ List.eraseRepsBy.loop (· == ·) a as [] := by
    intro as
    induction as with
    | nil =>
      intro a acc
      simp [List.eraseRepsBy.loop]
    | cons b as ih =>
      intro a acc
      unfold List.eraseRepsBy.loop
      split
      · exact ih a acc
      · rw [ih b (a :: acc), ih b [a]]
        simp
  show List.eraseRepsBy.loop (· == ·) a (b :: as) [] = _
  unfold List.eraseRepsBy.loop
  cases a == b with
  | true => rfl
  | false => exact hloop as b [a]

theorem mem_eraseReps [BEq α] [LawfulBEq α] {x : α} {as : List α} :
    x ∈ as.eraseReps ↔ x ∈ as := by
  induction as with
  | nil => exact Iff.rfl
  | cons a as ih =>
    cases as with
    | nil => exact Iff.rfl
    | cons b as =>
      rw [eraseReps_cons_cons]
      split
      case isTrue hab =>
        obtain rfl := eq_of_beq hab
        rw [ih, List.mem_cons, List.mem_cons, List.mem_cons, or_self_left]
      case isFalse => rw [List.mem_cons, ih, List.mem_cons (b := a)]

theorem ascending_eraseReps {ts : List (List Char)} (h : ts.Pairwise fun t u => ¬ u < t) :
    ts.eraseReps.Pairwise (· < ·) := by
  induction ts with
  | nil => exact .nil
  | cons a ts ih =>
    obtain ⟨ha, hts⟩ := List.pairwise_cons.1 h
    cases ts with
    | nil => exact List.pairwise_singleton _ _
    | cons b ts =>
      rw [eraseReps_cons_cons]
      split
      case isTrue hab =>
        obtain rfl := eq_of_beq hab
        exact ih hts
      case isFalse hab =>
        have hne : a ≠ b := fun heq => hab (beq_iff_eq.2 heq)
        have hlt : a < b :=
          (List.le_iff_lt_or_eq.1 (List.not_lt.1 (ha b List.mem_cons_self))).resolve_right hne
        refine List.pairwise_cons.2 ⟨fun c hc => ?_, ih hts⟩
        rcases List.mem_cons.1 (mem_eraseReps.1 hc) with rfl | hc
        · exact hlt
        · have hbc := List.not_lt.1 ((List.pairwise_cons.1 hts).1 c hc)
          rcases List.le_iff_lt_or_eq.1 hbc with hbc | rfl
          · exact List.lt_trans hlt hbc
          · exact hlt

theorem ascending_sortDistinct (ts : List (List Char)) : (sortDistinct ts).Pairwise (· < ·) :=
  ascending_eraseReps (sorted_sortBy ts)

theorem mem_sortDistinct {t : List Char} {ts : List (List Char)} :
    t ∈ sortDistinct ts ↔ t ∈ ts := by
  rw [sortDistinct, mem_eraseReps, (perm_sortBy ts).mem_iff]

end HeatWatch.Text
