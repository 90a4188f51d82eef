/-!
# Sorted maps

A finite map as the list of its entries in the order of their keys. The order is part of the type,
so two maps that agree on every key are equal. Main statements:

* `get?_insert`, `get?_erase`: what a change does to every key;
* `ext_get?`: a map is determined by its values.
-/

namespace HeatWatch

/-- Keys that are ordered by a number of their own. -/
class Ranked (κ : Type) where
  rank : κ → Int
  rank_inj : ∀ {a b : κ}, rank a = rank b → a = b

export Ranked (rank rank_inj)

instance : Ranked Nat where
  rank n := n
  rank_inj h := Int.ofNat_inj.1 h

variable {κ α : Type}

namespace SortedMap

/-- The entries stand in the order of their keys, each key once. -/
def Ascending [Ranked κ] (es : List (κ × α)) : Prop :=
  es.Pairwise fun a b => rank a.1 < rank b.1

/-- Puts a value in its place, instead of the one that its key had. -/
def insertEntry [Ranked κ] (k : κ) (v : α) : List (κ × α) → List (κ × α)
  | [] => [(k, v)]
  | e :: es =>
    if rank k < rank e.1 then (k, v) :: e :: es
    else if rank e.1 < rank k then e :: insertEntry k v es
    else (k, v) :: es

theorem mem_insertEntry [Ranked κ] {k : κ} {v : α} {es : List (κ × α)} {e : κ × α}
    (h : e ∈ insertEntry k v es) : e = (k, v) ∨ e ∈ es := by
  induction es with
  | nil => simpa [insertEntry] using h
  | cons a es ih =>
    rw [insertEntry] at h
    split at h
    · simpa using h
    · split at h
      · rcases List.mem_cons.1 h with rfl | h
        · simp
        · rcases ih h with h | h <;> simp [h]
      · rcases List.mem_cons.1 h with rfl | h <;> simp_all

theorem Ascending.insertEntry [Ranked κ] {k : κ} {v : α} {es : List (κ × α)}
    (h : Ascending es) : Ascending (insertEntry k v es) := by
  induction es with
  | nil => simp [SortedMap.insertEntry, Ascending]
  | cons a es ih =>
    obtain ⟨ha, hes⟩ := List.pairwise_cons.1 h
    rw [SortedMap.insertEntry]
    split
    case isTrue hlt =>
      refine List.pairwise_cons.2 ⟨fun e he => ?_, h⟩
      rcases List.mem_cons.1 he with rfl | he
      · exact hlt
      · exact Int.lt_trans hlt (ha e he)
    case isFalse hge =>
      split
      case isTrue hgt =>
        refine List.pairwise_cons.2 ⟨fun e he => ?_, ih hes⟩
        rcases mem_insertEntry he with rfl | he
        · exact hgt
        · exact ha e he
      case isFalse hle =>
        have heq : rank a.1 = rank k := by omega
        exact List.pairwise_cons.2 ⟨fun e he => heq ▸ ha e he, hes⟩

end SortedMap

/-- A finite map with its entries in the order of their keys. -/
structure SortedMap (κ α : Type) [Ranked κ] where
  entries : List (κ × α)
  ascending : SortedMap.Ascending entries

/-- A finite set in the order of its elements. -/
abbrev SortedSet (κ : Type) [Ranked κ] := SortedMap κ Unit

namespace SortedMap

variable [Ranked κ]

instance [DecidableEq κ] [DecidableEq α] : DecidableEq (SortedMap κ α) := fun m m' =>
  if h : m.entries = m'.entries then
    .isTrue (by cases m; cases m'; simpa using h)
  else .isFalse fun e => h (e ▸ rfl)

/-- The map without entries. -/
def empty : SortedMap κ α := ⟨[], List.Pairwise.nil⟩

instance : EmptyCollection (SortedMap κ α) := ⟨empty⟩
instance : Inhabited (SortedMap κ α) := ⟨empty⟩

/-- Gives a key a value. -/
def insert (m : SortedMap κ α) (k : κ) (v : α) : SortedMap κ α :=
  ⟨insertEntry k v m.entries, m.ascending.insertEntry⟩

/-- Takes a key out. -/
def erase (m : SortedMap κ α) (k : κ) : SortedMap κ α :=
  ⟨m.entries.filter fun e => rank e.1 ≠ rank k, m.ascending.filter _⟩

/-- The value of a key. -/
def get? (m : SortedMap κ α) (k : κ) : Option α :=
  (m.entries.find? fun e => rank e.1 = rank k).map (·.2)

/-- The key has a value. -/
def contains (m : SortedMap κ α) (k : κ) : Bool := (m.get? k).isSome

/-- The keys in order. -/
def keys (m : SortedMap κ α) : List κ := m.entries.map (·.1)

/-- The values in the order of their keys. -/
def values (m : SortedMap κ α) : List α := m.entries.map (·.2)

def size (m : SortedMap κ α) : Nat := m.entries.length

/-- Changes every value. -/
def map {β : Type} (f : α → β) (m : SortedMap κ α) : SortedMap κ β :=
  ⟨m.entries.map fun e => (e.1, f e.2), by
    simpa only [Ascending, List.pairwise_map] using m.ascending⟩

/-- The map of a list of entries; of two with one key the later one stays. -/
def ofList (es : List (κ × α)) : SortedMap κ α :=
  es.foldl (fun m e => m.insert e.1 e.2) empty

/-! ## Laws -/

theorem rank_eq_rank_iff {a b : κ} : rank a = rank b ↔ a = b := ⟨rank_inj, fun h => h ▸ rfl⟩

@[simp] theorem get?_empty (k : κ) : (empty : SortedMap κ α).get? k = none := rfl

theorem find?_insertEntry (k k' : κ) (v : α) (es : List (κ × α)) :
    ((insertEntry k v es).find? fun e => rank e.1 = rank k').map (·.2) =
      if rank k = rank k' then some v else (es.find? fun e => rank e.1 = rank k').map (·.2) := by
  induction es with
  | nil => by_cases h : rank k = rank k' <;> simp [insertEntry, h]
  | cons a es ih =>
    rw [insertEntry]
    split
    case isTrue hlt => by_cases h : rank k = rank k' <;> simp [h]
    case isFalse hge =>
      split
      case isTrue hgt =>
        by_cases ha : rank a.1 = rank k'
        · have : rank k ≠ rank k' := by omega
          simp [ha, this]
        · simpa [List.find?_cons, ha] using ih
      case isFalse hle =>
        have heq : rank a.1 = rank k := by omega
        by_cases h : rank k = rank k' <;> simp [heq, h]

@[simp] theorem get?_insert (m : SortedMap κ α) (k k' : κ) (v : α) :
    (m.insert k v).get? k' = if rank k = rank k' then some v else m.get? k' :=
  find?_insertEntry k k' v m.entries

@[simp] theorem get?_erase (m : SortedMap κ α) (k k' : κ) :
    (m.erase k).get? k' = if rank k = rank k' then none else m.get? k' := by
  have aux : ∀ es : List (κ × α),
      ((es.filter fun e => rank e.1 ≠ rank k).find? fun e => rank e.1 = rank k').map (·.2) =
        if rank k = rank k' then none
        else (es.find? fun e => rank e.1 = rank k').map (·.2) := by
    intro es
    induction es with
    | nil => simp
    | cons a es ih =>
      by_cases ha : rank a.1 = rank k
      · by_cases h : rank k = rank k' <;> simp_all
      · by_cases h : rank a.1 = rank k'
        · have : rank k ≠ rank k' := fun h' => ha (h.trans h'.symm)
          have : rank k' ≠ rank k := fun h' => ha (h.trans h')
          simp_all
        · simp_all
  exact aux m.entries

@[simp] theorem get?_map {β : Type} (f : α → β) (m : SortedMap κ α) (k : κ) :
    (m.map f).get? k = (m.get? k).map f := by
  have aux : ∀ es : List (κ × α),
      ((es.map fun e => (e.1, f e.2)).find? fun e => rank e.1 = rank k).map (·.2) =
        ((es.find? fun e => rank e.1 = rank k).map (·.2)).map f := by
    intro es
    induction es with
    | nil => rfl
    | cons a es ih =>
      by_cases h : rank a.1 = rank k
      · simp [h]
      · simpa [List.find?_cons, h] using ih
  exact aux m.entries

theorem mem_entries_iff (m : SortedMap κ α) (k : κ) (v : α) :
    (k, v) ∈ m.entries ↔ m.get? k = some v := by
  have aux : ∀ es : List (κ × α), Ascending es →
      ((k, v) ∈ es ↔ (es.find? fun e => rank e.1 = rank k).map (·.2) = some v) := by
    intro es
    induction es with
    | nil => simp
    | cons a es ih =>
      intro h
      obtain ⟨ha, hes⟩ := List.pairwise_cons.1 h
      by_cases hk : rank a.1 = rank k
      · have hak : a.1 = k := rank_inj hk
        have hnot : (k, v) ∉ es := fun hm => by have := ha _ hm; simp only at this; omega
        simp only [List.mem_cons, hnot, or_false, List.find?_cons, hk, decide_true, Option.map_some,
          Option.some.injEq]
        constructor
        · rintro rfl; rfl
        · rintro rfl; cases a; simp_all
      · have : (k, v) ≠ a := by rintro rfl; exact hk rfl
        simpa [List.find?_cons, hk, this] using ih hes
  exact aux m.entries m.ascending

theorem ext_get? {m m' : SortedMap κ α} (h : ∀ k, m.get? k = m'.get? k) : m = m' := by
  have aux : ∀ es es' : List (κ × α), Ascending es → Ascending es' →
      (∀ e, e ∈ es ↔ e ∈ es') → es = es' := by
    intro es
    induction es with
    | nil =>
      intro es' _ _ h
      cases es' with
      | nil => rfl
      | cons a _ => exact absurd ((h a).2 (by simp)) (by simp)
    | cons a es ih =>
      intro es' hes hes' h
      cases es' with
      | nil => exact absurd ((h a).1 (by simp)) (by simp)
      | cons b es' =>
        obtain ⟨ha, hs⟩ := List.pairwise_cons.1 hes
        obtain ⟨hb, hs'⟩ := List.pairwise_cons.1 hes'
        have hab : a = b := by
          rcases List.mem_cons.1 ((h a).1 (by simp)) with rfl | h1
          · rfl
          · rcases List.mem_cons.1 ((h b).2 (by simp)) with rfl | h2
            · rfl
            · have := ha b h2
              have := hb a h1
              omega
        subst hab
        refine congrArg (a :: ·) (ih es' hs hs' fun e => ?_)
        have := h e
        simp only [List.mem_cons] at this
        constructor
        · intro he
          rcases this.1 (.inr he) with rfl | h'
          · exact absurd (ha _ he) (by omega)
          · exact h'
        · intro he
          rcases this.2 (.inr he) with rfl | h'
          · exact absurd (hb _ he) (by omega)
          · exact h'
  have he : m.entries = m'.entries := by
    refine aux _ _ m.ascending m'.ascending fun e => ?_
    obtain ⟨k, v⟩ := e
    rw [mem_entries_iff, mem_entries_iff, h]
  cases m
  cases m'
  simpa using he

end SortedMap

end HeatWatch
