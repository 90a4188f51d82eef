import HeatWatch.Proofs.Request.Bodies
import Mathlib.Data.List.Nodup

/-!
# Reads of parameters

The service refuses to read more than a number of parameters at once, so a read of more becomes
several requests, each for one group of them. The parameters of a request are read back from its
query, where they stand as texts in the order of texts. Main statements:

* `flatten_chunks`, `length_chunks`, `getElem?_chunks`, `length_of_mem_chunks`: the groups;
* `mem_parameterIds`, `nodup_parameterIds`: a request names each of its parameters once;
* `divided_readParameters`: the requests of a read share out what is read.
-/

namespace HeatWatch

namespace Request

/-! ## Groups -/

section

variable {α : Type} {as group : List α}

theorem flatten_chunks (as : List α) : (chunks as).flatten = as := by
  have hfuel : ∀ (fuel : Nat) (as : List α), as.length ≤ fuel →
      (chunksFuel fuel as).flatten = as := by
    intro fuel
    induction fuel with
    | zero =>
      intro as h
      exact (List.length_eq_zero_iff.1 (Nat.le_zero.1 h)).symm
    | succ fuel ih =>
      intro as h
      cases as with
      | nil => rfl
      | cons a as =>
        have hrest : ((a :: as).drop maxParameters).length ≤ fuel := by
          rw [List.length_drop, maxParameters]
          omega
        rw [chunksFuel, List.flatten_cons, ih _ hrest, List.take_append_drop]
  exact hfuel as.length as (Nat.le_refl _)

/-- There is one group for each full one, and one for the rest. -/
theorem length_chunks (as : List α) : (chunks as).length = (as.length + 14) / 15 := by
  have hfuel : ∀ (fuel : Nat) (as : List α), as.length ≤ fuel →
      (chunksFuel fuel as).length = (as.length + 14) / 15 := by
    intro fuel
    induction fuel with
    | zero =>
      intro as h
      rw [Nat.le_zero.1 h]
      rfl
    | succ fuel ih =>
      intro as h
      cases as with
      | nil => rw [chunksFuel, List.length_nil, List.length_nil]
      | cons a as =>
        have hdrop : ((a :: as).drop maxParameters).length = as.length + 1 - 15 := by
          rw [List.length_drop, List.length_cons, maxParameters]
        rw [List.length_cons] at h
        rw [chunksFuel, List.length_cons, ih _ (by omega), hdrop, List.length_cons]
        omega
  exact hfuel as.length as (Nat.le_refl _)

/-- Each group has the elements that follow those of the groups before it. -/
theorem getElem?_chunks (as : List α) (k : Nat) :
    (chunks as)[k]? = if 15 * k < as.length then some ((as.drop (15 * k)).take 15) else none := by
  have hfuel : ∀ (fuel : Nat) (as : List α) (k : Nat), as.length ≤ fuel →
      (chunksFuel fuel as)[k]? =
        if 15 * k < as.length then some ((as.drop (15 * k)).take 15) else none := by
    intro fuel
    induction fuel with
    | zero =>
      intro as k h
      rw [if_neg (by omega)]
      rfl
    | succ fuel ih =>
      intro as k h
      cases as with
      | nil => rfl
      | cons a as =>
        cases k with
        | zero => rfl
        | succ k =>
          have hdrop : ((a :: as).drop maxParameters).length = (a :: as).length - 15 :=
            List.length_drop
          have hrest : ((a :: as).drop maxParameters).length ≤ fuel := by
            rw [hdrop]
            omega
          have hmore : 15 * k < (a :: as).length - 15 ↔ 15 * (k + 1) < (a :: as).length := by omega
          rw [chunksFuel, List.getElem?_cons_succ, ih _ k hrest, hdrop, List.drop_drop, maxParameters]
          simp only [hmore, Nat.mul_succ, Nat.add_comm]
  exact hfuel as.length as k (Nat.le_refl _)

/-- No group is empty, and none is too large. -/
theorem length_of_mem_chunks (h : group ∈ chunks as) : 0 < group.length ∧ group.length ≤ 15 := by
  have hfuel : ∀ (fuel : Nat) (as : List α), group ∈ chunksFuel fuel as →
      0 < group.length ∧ group.length ≤ 15 := by
    intro fuel
    induction fuel with
    | zero =>
      intro as h
      cases h
    | succ fuel ih =>
      intro as h
      cases as with
      | nil => cases h
      | cons a as =>
        rcases List.mem_cons.1 h with rfl | h
        · rw [List.length_take, List.length_cons, maxParameters]
          omega
        · exact ih _ h
  exact hfuel as.length as h

end

/-! ## What a request names -/

variable {id : SystemId} {ps : List ParameterId} {p : ParameterId}

/-- The parameter that a text names. -/
def named? (t : List Char) : Option ParameterId :=
  (Decimal.Whole.read? .i64 t).map fun n => ⟨Int64.ofInt n⟩

theorem named?_text (p : ParameterId) : named? p.text.toList = some p := by
  have htext : p.text.toList = Decimal.Whole.print p.val.toInt := String.toList_ofList
  rw [named?, htext, Decimal.Whole.read?_print (bounds_i64 p.val).1]
  exact congrArg (fun n => some (ParameterId.mk n)) (Int64.ofInt_toInt p.val)

/-- The texts in the query are those of the parameters that are read back. -/
theorem parameterIds_texts (id : SystemId) (ps : List ParameterId) :
    (getParameters id ps).parameterIds.map (·.text.toList) =
      Text.sortDistinct (ps.map (·.text.toList)) := by
  have hread : ∀ ts : List (List Char), (∀ t ∈ ts, ∃ p : ParameterId, p.text.toList = t) →
      (ts.filterMap named?).map (·.text.toList) = ts := by
    intro ts
    induction ts with
    | nil => exact fun _ => rfl
    | cons t ts ih =>
      intro h
      obtain ⟨p, rfl⟩ := h t List.mem_cons_self
      rw [List.filterMap_cons_some (named?_text p), List.map_cons,
        ih fun t ht => h t (.tail _ ht)]
  have hvalues : (getParameters id ps).parameterIds =
      (Text.sortDistinct (ps.map (·.text.toList))).filterMap named? := by
    simp [parameterIds, query, List.filterMap_map]
    rfl
  rw [hvalues]
  refine hread _ fun t ht => ?_
  obtain ⟨p, -, rfl⟩ := List.mem_map.1 (Text.mem_sortDistinct.1 ht)
  exact ⟨p, rfl⟩

theorem text_injective : Function.Injective fun p : ParameterId => p.text.toList := by
  rintro ⟨m⟩ ⟨n⟩ h
  exact congrArg ParameterId.mk (intText_inj.1 (String.toList_inj.1 h))

theorem mem_parameterIds : p ∈ (getParameters id ps).parameterIds ↔ p ∈ ps := by
  rw [← List.mem_map_of_injective text_injective, parameterIds_texts, Text.mem_sortDistinct,
    List.mem_map_of_injective text_injective]

theorem nodup_parameterIds (id : SystemId) (ps : List ParameterId) :
    (getParameters id ps).parameterIds.Nodup := by
  have htexts : ((getParameters id ps).parameterIds.map (·.text.toList)).Nodup := by
    rw [parameterIds_texts]
    refine (Text.ascending_sortDistinct _).imp fun {t u} hlt heq => ?_
    rw [heq] at hlt
    exact List.lt_irrefl u hlt
  exact htexts.of_map _

theorem parameterIds_perm (h : ps.Nodup) : (getParameters id ps).parameterIds.Perm ps :=
  (List.perm_ext_iff_of_nodup (nodup_parameterIds id ps) h).2 fun _ => mem_parameterIds

/-! ## Reads -/

/-- The requests read the parameters of a system: as few requests as there can be, each of which
names some and not too many, no two of them the same, and all of them together what is read. -/
structure Divided (id : SystemId) (ps : List ParameterId) (reads : List Request) : Prop where
  count : reads.length = (ps.length + 14) / 15
  read : ∀ r ∈ reads, ∃ group, r = .getParameters id group
  some : ∀ r ∈ reads, 0 < r.parameterIds.length
  few : ∀ r ∈ reads, r.parameterIds.length ≤ 15
  apart : reads.Pairwise fun r r' => r.parameterIds.Disjoint r'.parameterIds
  all : (reads.flatMap parameterIds).Perm ps

theorem divided_readParameters (id : SystemId) (h : ps.Nodup) :
    Divided id ps (readParameters id ps) := by
  have hnodup : ∀ group ∈ chunks ps, group.Nodup := by
    rw [← flatten_chunks ps, List.nodup_flatten] at h
    exact h.1
  have hlength : ∀ r ∈ readParameters id ps, ∃ group ∈ chunks ps,
      r = .getParameters id group ∧ r.parameterIds.length = group.length := by
    intro r hr
    obtain ⟨group, hgroup, rfl⟩ := List.mem_map.1 hr
    exact ⟨group, hgroup, rfl, (parameterIds_perm (hnodup group hgroup)).length_eq⟩
  refine ⟨?_, fun r hr => ?_, fun r hr => ?_, fun r hr => ?_, ?_, ?_⟩
  · rw [readParameters, List.length_map, length_chunks]
  · obtain ⟨group, -, rfl, -⟩ := hlength r hr
    exact ⟨group, rfl⟩
  · obtain ⟨group, hgroup, -, heq⟩ := hlength r hr
    exact heq ▸ (length_of_mem_chunks hgroup).1
  · obtain ⟨group, hgroup, -, heq⟩ := hlength r hr
    exact heq ▸ (length_of_mem_chunks hgroup).2
  · -- the groups of a list without repetitions have nothing in common
    have hapart : (chunks ps).Pairwise List.Disjoint := by
      rw [← flatten_chunks ps, List.nodup_flatten] at h
      exact h.2
    refine List.pairwise_map.2 (hapart.imp fun hdisjoint p hp hp' => ?_)
    exact hdisjoint (mem_parameterIds.1 hp) (mem_parameterIds.1 hp')
  · have hgroups : ((readParameters id ps).flatMap parameterIds).Perm (chunks ps).flatten := by
      rw [readParameters, List.flatMap_map, ← List.flatMap_id]
      exact List.Perm.flatMap_left _ fun group hgroup => parameterIds_perm (hnodup group hgroup)
    rwa [flatten_chunks] at hgroups

end Request

end HeatWatch
