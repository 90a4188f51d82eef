import HeatWatch.Proofs.Table.Kept
import HeatWatch.Proofs.Table.Listeners

/-!
# What the table answers

The lists that the table gives stand in the order of their numbers, each number once, so each of them
is known by what is in it. Main statements:

* `tracked_ascending`, `mem_tracked`: the parameters to poll;
* `listened_ascending`, `mem_listened`, `listenerCount_eq`: the systems that have a listener;
* `thermostats_ascending`, `mem_thermostats`: the thermostats of every system;
* `modeOverrides_ascending`, `mem_modeOverrides`: the modes.
-/

namespace HeatWatch

namespace SystemTable

variable {t : SystemTable} {id : SystemId} {p : ParameterId} {m : Mode} {th : Thermostat}
  {ths : List Thermostat}

/-! ## Parameters to poll -/

theorem tracked_ascending (t : SystemTable) (id : SystemId) :
    (t.tracked id).Pairwise fun p q => rank p < rank q :=
  List.pairwise_map.2 (t.entry id).tracked.ascending

theorem tracked_nodup (t : SystemTable) (id : SystemId) : (t.tracked id).Nodup := by
  refine (t.tracked_ascending id).imp fun {p q} hlt heq => ?_
  rw [heq] at hlt
  exact Int.lt_irrefl (rank q) hlt

theorem mem_tracked : p ∈ t.tracked id ↔ (t.entry id).tracked.contains p = true := by
  constructor
  · intro h
    obtain ⟨⟨q, u⟩, hmem, rfl⟩ := List.mem_map.1 h
    exact Option.isSome_of_eq_some ((SortedMap.mem_entries_iff ..).1 hmem)
  · intro h
    obtain ⟨u, hu⟩ := Option.isSome_iff_exists.1 h
    exact List.mem_map.2 ⟨(p, u), (SortedMap.mem_entries_iff ..).2 hu, rfl⟩

/-! ## Listeners -/

theorem listened_ascending (t : SystemTable) :
    t.listened.Pairwise fun a b => rank a < rank b :=
  List.pairwise_map.2 (t.entries.ascending.filter _)

/-- A system that has a listener has an entry. -/
theorem mem_listened : id ∈ t.listened ↔ (t.listener? id).isSome = true := by
  constructor
  · intro h
    obtain ⟨⟨id', e⟩, hmem, rfl⟩ := List.mem_map.1 h
    obtain ⟨hentry, hsome⟩ := List.mem_filter.1 hmem
    show (t.entry id').listener.isSome = true
    rwa [entry_of_mem hentry]
  · intro h
    have hentry : (id, t.entry id) ∈ t.entries.entries := by
      rw [SortedMap.mem_entries_iff]
      unfold listener? entry at h
      unfold entry
      generalize t.entries.get? id = o at h
      cases o with
      | some e => rfl
      | none => cases h
    exact List.mem_map.2 ⟨(id, t.entry id), List.mem_filter.2 ⟨hentry, h⟩, rfl⟩

theorem listenerCount_eq (t : SystemTable) : t.listenerCount = t.listened.length := by
  rw [listenerCount, SortedMap.values, List.filter_map, List.length_map, listened, List.length_map]
  rfl

/-! ## Thermostats -/

theorem thermostats_ascending (t : SystemTable) :
    t.thermostats.Pairwise fun a b => rank a.1 < rank b.1 :=
  List.pairwise_map.2 (t.entries.ascending.filter _)

/-- A system without thermostats is left out. -/
theorem thermostats_ne_nil (h : (id, ths) ∈ t.thermostats) : ths ≠ [] := by
  obtain ⟨⟨id', e⟩, hmem, heq⟩ := List.mem_map.1 h
  cases heq
  have hsome : (!e.thermostats.entries.isEmpty) = true := (List.mem_filter.1 hmem).2
  intro hnil
  rw [List.map_eq_nil_iff.1 hnil] at hsome
  cases hsome

/-- A thermostat is listed for its system if it is submitted again. -/
theorem mem_thermostats (hf : t.Filed) : (∃ ths, (id, ths) ∈ t.thermostats ∧ th ∈ ths) ↔
    t.kept? (.thermostat id th.id) = some (.upsertThermostat id th) := by
  have hsubmitted : (∃ ths, (id, ths) ∈ t.thermostats ∧ th ∈ ths) ↔
      .upsertThermostat id th ∈ Poll.thermostats.requests t := by
    constructor
    · rintro ⟨ths, hths, hth⟩
      exact List.mem_flatMap.2 ⟨(id, ths), hths, List.mem_map_of_mem hth⟩
    · intro h
      obtain ⟨⟨id', ths⟩, hths, hr⟩ := List.mem_flatMap.1 h
      obtain ⟨th', hth, heq⟩ := List.mem_map.1 hr
      cases heq
      exact ⟨ths, hths, hth⟩
  rw [hsubmitted, mem_thermostats_iff]
  constructor
  · rintro ⟨id', k, h⟩
    -- what is kept about a thermostat is kept under its own number
    have htopic := hf h
    cases htopic
    exact h
  · exact fun h => ⟨id, th.id, h⟩

/-- The thermostats of a system stand in the order of their numbers. -/
theorem thermostats_of_ascending (hf : t.Filed) (h : (id, ths) ∈ t.thermostats) :
    ths.Pairwise fun a b => rank a.id < rank b.id := by
  obtain ⟨hone, -⟩ := List.pairwise_flatMap.1 (thermostats_pairwise hf)
  refine (List.pairwise_map.1 (hone (id, ths) h)).imp fun {a b} hab => ?_
  rcases hab with hlt | ⟨-, hlt⟩
  · exact absurd hlt (Int.lt_irrefl _)
  · exact hlt

/-! ## Modes -/

theorem modeOverrides_ascending (t : SystemTable) :
    t.modeOverrides.Pairwise fun a b => rank a.1 < rank b.1 := by
  refine (List.pairwise_map.1 (modes_pairwise t)).imp fun {a b} hab => ?_
  exact hab

theorem mem_modeOverrides :
    (id, m) ∈ t.modeOverrides ↔ t.kept? (.mode id) = some (.setMode id m) := by
  have hsubmitted : (id, m) ∈ t.modeOverrides ↔ .setMode id m ∈ Poll.modes.requests t := by
    constructor
    · exact fun h => List.mem_map.2 ⟨(id, m), h, rfl⟩
    · intro h
      obtain ⟨⟨id', m'⟩, hmem, heq⟩ := List.mem_map.1 h
      cases heq
      exact hmem
  rw [hsubmitted, mem_modes_iff]
  constructor
  · rintro ⟨id', h⟩
    obtain ⟨m', -, heq⟩ := Option.map_eq_some_iff.1 h
    cases heq
    exact h
  · exact fun h => ⟨id, h⟩

end SystemTable

end HeatWatch
