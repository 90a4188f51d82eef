import HeatWatch.Proofs.Table.Results

/-!
# Listeners in the table

At most one listener is registered for each system. The host registers, replaces and removes them,
and nothing else does. Main statements:

* `listener?_registerListener`, `listener?_removeListener`: who is registered afterwards;
* `removeListener_iff`: only the one that is registered is removed;
* `listenerCount_eq_zero_iff`: the count is zero if no one is registered.
-/

namespace HeatWatch

namespace SystemTable

variable (t : SystemTable) (id id' : SystemId)

@[simp] theorem listener?_empty : empty.listener? id = none := rfl

theorem listener?_modify (f : SystemEntry → SystemEntry) : (t.modify id f).listener? id' =
    if id = id' then (f (t.entry id)).listener else t.listener? id' := by
  unfold listener?
  rw [entry_modify]
  split <;> rfl

/-- A change that touches no listener. -/
theorem listener?_modify_of_same {f : SystemEntry → SystemEntry}
    (hf : ∀ e, (f e).listener = e.listener) : (t.modify id f).listener? id' = t.listener? id' := by
  rw [listener?_modify, hf]
  split
  case isTrue h =>
    rw [h]
    rfl
  case isFalse => rfl

/-- The last one that is registered stays. -/
theorem listener?_registerListener (l : Listener) : (t.registerListener id l).2.listener? id' =
    if id = id' then some l else t.listener? id' := by
  unfold registerListener
  exact t.listener?_modify id id' _

theorem removeListener_iff {t : SystemTable} {id : SystemId} {l : Listener} :
    (t.removeListener id l).1 = true ↔ t.listener? id = some l := by
  unfold removeListener listener?
  split
  case isTrue h => exact ⟨fun _ => h, fun _ => rfl⟩
  case isFalse h => exact ⟨nofun, fun h' => absurd h' h⟩

/-- Nothing changes if another listener is to be removed than the one that is registered. -/
theorem removeListener_of_other {t : SystemTable} {id : SystemId} {l : Listener}
    (h : t.listener? id ≠ some l) : t.removeListener id l = (false, t) := by
  unfold removeListener
  exact if_neg h

theorem listener?_removeListener (l : Listener) : (t.removeListener id l).2.listener? id' =
    if id = id' ∧ t.listener? id = some l then none else t.listener? id' := by
  by_cases h : t.listener? id = some l
  · have hremoved : t.removeListener id l =
        (true, t.modify id fun e => { e with listener := none, tracked := ∅, mode := none }) := by
      unfold removeListener
      exact if_pos h
    rw [hremoved, listener?_modify]
    simp only [h, and_true]
  · rw [removeListener_of_other h, if_neg fun hboth => h hboth.2]

/-- Whoever is registered after a removal was registered before. -/
theorem registered_of_removeListener {t : SystemTable} {id id' : SystemId} {l l' : Listener}
    (h : (t.removeListener id l).2.listener? id' = some l') : t.listener? id' = some l' := by
  rw [listener?_removeListener] at h
  split at h
  · cases h
  · exact h

/-! ## How many -/

theorem listenerCount_eq_zero_iff : t.listenerCount = 0 ↔ ∀ id, t.listener? id = none := by
  unfold listenerCount
  rw [List.length_eq_zero_iff, List.filter_eq_nil_iff]
  constructor
  · intro h id
    unfold listener? entry
    cases hentry : t.entries.get? id with
    | none => rfl
    | some e =>
      have hmem : e ∈ t.entries.values :=
        List.mem_map.2 ⟨(id, e), (SortedMap.mem_entries_iff ..).2 hentry, rfl⟩
      have hnone := h e hmem
      rw [Bool.not_eq_true, Option.isSome_eq_false_iff, Option.isNone_iff_eq_none] at hnone
      exact hnone
  · intro h e hmem hsome
    obtain ⟨⟨id, e'⟩, hentry, rfl⟩ := List.mem_map.1 hmem
    have hnone : (t.entry id).listener = none := h id
    rw [entry_of_mem hentry] at hnone
    rw [hnone] at hsome
    cases hsome

theorem listenerCount_ne_zero_iff : t.listenerCount ≠ 0 ↔ ∃ id l, t.listener? id = some l := by
  rw [ne_eq, listenerCount_eq_zero_iff, Classical.not_forall]
  exact exists_congr fun id => Option.ne_none_iff_exists'

/-! ## Other changes -/

@[simp] theorem listener?_addTracked (p : ParameterId) :
    (t.addTracked id p).2.1.listener? id' = t.listener? id' :=
  listener?_modify_of_same t id id' fun _ => rfl

@[simp] theorem listener?_removeTracked (p : ParameterId) :
    (t.removeTracked id p).2.listener? id' = t.listener? id' := by
  unfold removeTracked
  split
  · exact listener?_modify_of_same t id id' fun _ => rfl
  · rfl

@[simp] theorem listener?_putThermostat (th : Thermostat) :
    (t.putThermostat id th).listener? id' = t.listener? id' :=
  listener?_modify_of_same t id id' fun _ => rfl

@[simp] theorem listener?_removeThermostat (th : ThermostatId) :
    (t.removeThermostat id th).2.listener? id' = t.listener? id' := by
  unfold removeThermostat
  split
  · exact listener?_modify_of_same t id id' fun _ => rfl
  · rfl

@[simp] theorem listener?_setMode (m : Mode) :
    (t.setMode id m).listener? id' = t.listener? id' :=
  listener?_modify_of_same t id id' fun _ => rfl

/-- The listener belongs to what the host gave. -/
theorem listener?_of_hosted {t t' : SystemTable} {id : SystemId}
    (h : (t'.entry id).hosted = (t.entry id).hosted) : t'.listener? id = t.listener? id :=
  congrArg (·.listener) h

end SystemTable

end HeatWatch
