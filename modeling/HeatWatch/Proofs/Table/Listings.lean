import HeatWatch.Proofs.Table.Operations

/-!
# Listings

A listing brings the records of many systems at once. It fills in what a system is able to do
whenever a record comes, while a record that comes by itself looks there only if it is the first one
of its system. Main statements:

* `foldl_mergeRecord`: what the records of a system in a listing make of its entry;
* `informed_run`: what is known of what a system is able to do is in its record, whatever changes are
  made;
* `mergeSystems_eq_run`: so a listing does the same as its records one by one;
* `mergeSystems_again`: the same listing once more changes nothing;
* `listing_is_updates`: both after every history, with all that a listing changes.
-/

namespace HeatWatch

/-- What is known of what the system is able to do, from its record or apart from it. -/
def SystemEntry.known (e : SystemEntry) : Option Capabilities :=
  (e.record.bind (·.capabilities)).or e.capabilities

/-- What is known of what the system is able to do is in its record, if there is one. -/
def SystemEntry.Informed (e : SystemEntry) : Prop :=
  ∀ r, e.record = some r → r.capabilities.or e.capabilities = r.capabilities

namespace SystemTable

variable {t : SystemTable} {e : SystemEntry} {id : SystemId}

/-! ## Records of a listing -/

/-- A record of a listing takes over what is known, unless it says itself what the system is able to
do. -/
theorem mergeRecord_eq (e : SystemEntry) (s : System) : SystemEntry.mergeRecord e s =
    { e with record := some { s with capabilities := s.capabilities.or e.known } } := by
  unfold SystemEntry.mergeRecord SystemEntry.known
  cases e.record with
  | none => rfl
  | some old =>
    show { e with record := some { s with
      capabilities := (s.capabilities.or old.capabilities).or e.capabilities } } = _
    rw [Option.or_assoc]
    rfl

theorem known_or_capabilities (e : SystemEntry) : e.known.or e.capabilities = e.known := by
  unfold SystemEntry.known
  rw [Option.or_assoc, Option.or_self]

theorem known_mergeRecord (e : SystemEntry) (s : System) :
    (SystemEntry.mergeRecord e s).known = s.capabilities.or e.known := by
  rw [mergeRecord_eq]
  show (s.capabilities.or e.known).or e.capabilities = _
  rw [Option.or_assoc, known_or_capabilities]

/-- The last record that says what the system is able to do decides. -/
theorem known_foldl_mergeRecord (e : SystemEntry) (ss : List System) :
    (ss.foldl SystemEntry.mergeRecord e).known =
      (ss.reverse.findSome? (·.capabilities)).or e.known := by
  induction ss generalizing e with
  | nil => rfl
  | cons s ss ih =>
    rw [List.foldl_cons, ih, known_mergeRecord, List.reverse_cons, List.findSome?_append,
      List.findSome?_singleton, Option.or_assoc]

/-- The last record stays, with what is known by then. -/
theorem foldl_mergeRecord (e : SystemEntry) (ss : List System) (last : System) :
    (ss ++ [last]).foldl SystemEntry.mergeRecord e =
      { e with record := some { last with
          capabilities := ((ss ++ [last]).reverse.findSome? (·.capabilities)).or e.known } } := by
  have hrest : ∀ (ss : List System) (e : SystemEntry) (r : Option System),
      { ss.foldl SystemEntry.mergeRecord e with record := r } = { e with record := r } := by
    intro ss
    induction ss with
    | nil => exact fun _ _ => rfl
    | cons s ss ih => exact fun e r => ih (SystemEntry.mergeRecord e s) r
  rw [List.foldl_append, List.foldl_cons, List.foldl_nil, mergeRecord_eq, hrest,
    known_foldl_mergeRecord, List.reverse_concat, List.findSome?_cons]
  cases last.capabilities <;> rfl

/-- The same records once more change nothing. -/
theorem foldl_mergeRecord_again (e : SystemEntry) (ss : List System) :
    ss.foldl SystemEntry.mergeRecord (ss.foldl SystemEntry.mergeRecord e) =
      ss.foldl SystemEntry.mergeRecord e := by
  rcases List.eq_nil_or_concat ss with rfl | ⟨front, last, rfl⟩
  · rfl
  · rw [List.concat_eq_append, foldl_mergeRecord _ front last, known_foldl_mergeRecord,
      ← Option.or_assoc, Option.or_self, foldl_mergeRecord]

/-! ## Records by themselves -/

/-- A record by itself does what it does in a listing, as long as the one before it has all that is
known. -/
theorem updateRecord_eq (h : e.Informed) (s : System) :
    e.updateRecord s = SystemEntry.mergeRecord e s := by
  unfold SystemEntry.updateRecord SystemEntry.mergeRecord
  cases hrecord : e.record with
  | none => rfl
  | some old =>
    show { e with record := some { s with capabilities := s.capabilities.or old.capabilities } } =
      { e with record := some { s with
        capabilities := (s.capabilities.or old.capabilities).or e.capabilities } }
    rw [Option.or_assoc, h old hrecord]

theorem informed_mergeRecord (e : SystemEntry) (s : System) :
    (SystemEntry.mergeRecord e s).Informed := by
  intro r hr
  rw [mergeRecord_eq] at hr ⊢
  obtain rfl := Option.some.inj hr
  show (s.capabilities.or e.known).or e.capabilities = s.capabilities.or e.known
  rw [Option.or_assoc, known_or_capabilities]

/-- What is known of what the systems are able to do is in their records. -/
def Informed (t : SystemTable) : Prop := ∀ id, (t.entry id).Informed

theorem informed_empty : empty.Informed := by
  intro id r hr
  cases hr

theorem informed_edit (h : e.Informed) (op : Op) : (op.edit id e).Informed := by
  cases op with
  | mergeSystems ss =>
    show (ss.foldl _ e).Informed
    induction ss generalizing e with
    | nil => exact h
    | cons s ss ih =>
      refine ih ?_
      dsimp only
      split
      · exact informed_mergeRecord e s
      · exact h
  | updateSystem s =>
    unfold Op.edit
    dsimp only
    split
    · rw [updateRecord_eq h]
      exact informed_mergeRecord e s
    · exact h
  | setCapabilities id' c =>
    unfold Op.edit
    dsimp only
    split
    · intro r hr
      obtain ⟨_, -, rfl⟩ := Option.map_eq_some_iff.1 hr
      rfl
    · exact h
  | registerListener | removeListener | addTracked | removeTracked | putThermostat | removeThermostat
  | setMode | setCategories =>
    -- neither the record nor what the system is able to do is touched
    unfold Op.edit
    dsimp only
    split <;> exact h

theorem informed_apply (h : t.Informed) (op : Op) : (t.apply op).Informed := by
  intro id
  rw [entry_apply]
  exact informed_edit (h id) op

theorem informed_run (h : t.Informed) (ops : List Op) : (t.run ops).Informed := by
  induction ops generalizing t with
  | nil => exact h
  | cons op ops ih => exact ih (informed_apply h op)

/-! ## Tables -/

theorem updateSystem_eq (h : t.Informed) (s : System) :
    (t.updateSystem s).2 = t.modify s.id fun e => SystemEntry.mergeRecord e s :=
  congrArg (fun e => (⟨t.entries.insert s.id e⟩ : SystemTable)) (updateRecord_eq (h s.id) s)

/-- A listing does the same as its records one by one. -/
theorem mergeSystems_eq_run (h : t.Informed) (ss : List System) :
    t.mergeSystems ss = t.run (ss.map .updateSystem) := by
  induction ss generalizing t with
  | nil => rfl
  | cons s ss ih =>
    show (t.modify s.id _).mergeSystems ss = (t.updateSystem s).2.run _
    rw [← updateSystem_eq h]
    exact ih (informed_apply h (.updateSystem s))

/-- The entry of a system takes the records of the listing that are of this system. -/
theorem entry_mergeSystems_filter (t : SystemTable) (ss : List System) :
    (t.mergeSystems ss).entry id =
      (ss.filter (·.id = id)).foldl SystemEntry.mergeRecord (t.entry id) := by
  rw [entry_mergeSystems, List.foldl_filter]
  simp only [decide_eq_true_eq]

/-- A table is known by its entries and the systems that have one. -/
theorem ext_entry {t t' : SystemTable} (hentry : ∀ id, t.entry id = t'.entry id)
    (hsystems : ∀ id, t.entries.contains id = t'.entries.contains id) : t = t' := by
  have hget : ∀ id, t.entries.get? id = t'.entries.get? id := by
    intro id
    have he : (t.entries.get? id).getD .empty = (t'.entries.get? id).getD .empty := hentry id
    have hs : (t.entries.get? id).isSome = (t'.entries.get? id).isSome := hsystems id
    cases ht : t.entries.get? id <;> cases ht' : t'.entries.get? id <;> simp_all
  exact congrArg SystemTable.mk (SortedMap.ext_get? hget)

/-- The systems of a listing get an entry, and no others do. -/
theorem contains_mergeSystems (t : SystemTable) (ss : List System) (id : SystemId) :
    (t.mergeSystems ss).entries.contains id =
      (decide (id ∈ ss.map (·.id)) || t.entries.contains id) := by
  induction ss generalizing t with
  | nil => rfl
  | cons s ss ih =>
    have hmodify : (t.modify s.id fun e => SystemEntry.mergeRecord e s).entries.contains id =
        (decide (id = s.id) || t.entries.contains id) := by
      simp only [modify, SortedMap.contains, SortedMap.get?_insert, SortedMap.rank_eq_rank_iff]
      by_cases hid : id = s.id
      · simp [hid]
      · simp [hid, Ne.symm hid]
    show ((t.modify s.id _).mergeSystems ss).entries.contains id = _
    rw [ih, hmodify, List.map_cons]
    simp only [List.mem_cons, Bool.decide_or]
    rw [← Bool.or_assoc, Bool.or_comm (decide (id ∈ ss.map (·.id)))]

/-- The same listing once more changes nothing. -/
theorem mergeSystems_again (t : SystemTable) (ss : List System) :
    (t.mergeSystems ss).mergeSystems ss = t.mergeSystems ss := by
  refine ext_entry (fun id => ?_) fun id => ?_
  · rw [entry_mergeSystems_filter, entry_mergeSystems_filter, foldl_mergeRecord_again]
  · rw [contains_mergeSystems, contains_mergeSystems, ← Bool.or_assoc, Bool.or_self]

/-- What a listing makes of the entry of a system: nothing if the system is not listed. Otherwise the
record is the last one listed of the system; what the system is able to do is said by the last of its
records that says so, or else is what was known before. -/
theorem entry_listed (t : SystemTable) (ss : List System) (id : SystemId) :
    (t.mergeSystems ss).entry id =
      match (ss.filter (·.id = id)).getLast? with
      | none => t.entry id
      | some last => { t.entry id with record := some { last with
          capabilities := ((ss.filter (·.id = id)).reverse.findSome? (·.capabilities)).or
            (t.entry id).known } } := by
  rw [entry_mergeSystems_filter]
  rcases List.eq_nil_or_concat (ss.filter (·.id = id)) with hnone | ⟨front, last, hlisted⟩
  · rw [hnone]
    rfl
  · rw [hlisted, List.concat_eq_append, List.getLast?_concat, foldl_mergeRecord]

/-- However the table came to be, a listing does the same to it as its records one by one, and once
more it does nothing. Of what is kept for a system it changes the record alone, and that only if the
system is listed: the record is then the last one listed, with what is known of what the system is
able to do. -/
theorem listing_is_updates (ops : List Op) (ss : List System) :
    let t := empty.run ops
    let merged := t.mergeSystems ss
    merged = ss.foldl (fun t s => (t.updateSystem s).2) t ∧
      merged.mergeSystems ss = merged ∧
      (∀ id, id ∉ ss.map (·.id) → merged.entry id = t.entry id) ∧
      ∀ id ∈ ss.map (·.id), ∃ last, (ss.filter (·.id = id)).getLast? = some last ∧
        merged.entry id = { t.entry id with record := some { last with
          capabilities := ((ss.filter (·.id = id)).reverse.findSome? (·.capabilities)).or
            (t.entry id).known } } := by
  intro t merged
  have hinformed : t.Informed := informed_run informed_empty ops
  refine ⟨?_, mergeSystems_again t ss, fun id hid => ?_, fun id hid => ?_⟩
  · have hrun : merged = t.run (ss.map .updateSystem) := mergeSystems_eq_run hinformed ss
    rw [hrun, run, List.foldl_map]
    rfl
  · have hout : id ∉ (Op.mergeSystems ss).systems := hid
    exact entry_apply_of_not_mem hout
  · obtain ⟨s, hs, rfl⟩ := List.mem_map.1 hid
    have hlisted : ss.filter (·.id = s.id) ≠ [] :=
      List.ne_nil_of_mem (List.mem_filter.2 ⟨hs, decide_eq_true rfl⟩)
    have hlast := List.getLast?_eq_some_getLast hlisted
    have hentry := entry_listed t ss s.id
    rw [hlast] at hentry
    exact ⟨_, hlast, hentry⟩

end SystemTable

end HeatWatch
