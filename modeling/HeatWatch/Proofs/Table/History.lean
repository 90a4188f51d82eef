import HeatWatch.Proofs.Table.Operations
import HeatWatch.Proofs.Table.Queries
import Mathlib.Data.List.Basic

/-!
# Answers and the history

What the table answers is known from the changes that were made, without looking at the table: a
thing is there if it was put there and nothing took it away since. Main statements:

* `stands_concat`: how one more change bears on it;
* `listener?_apply`, `contains_tracked_apply`, `kept?_thermostat_apply`, `kept?_mode_apply`: the step
  that the table takes;
* `recorded_run`: what is in the table is what stands;
* `answers_follow`: every query and every result of a change, after any changes.
-/

namespace HeatWatch

namespace SystemTable

/-! ## Histories -/

/-- Some change brought it about, and none after it has undone it. Whether a change undoes it can
depend on those before that one. -/
def Stands (brings : Op → Prop) (undoes : List Op → Op → Prop) (ops : List Op) : Prop :=
  ∃ before op after, ops = before ++ op :: after ∧ brings op ∧
    ∀ mid op' rest, after = mid ++ op' :: rest → ¬ undoes (before ++ op :: mid) op'

variable {brings : Op → Prop} {undoes : List Op → Op → Prop} {ops : List Op} {op : Op}

theorem not_stands_nil : ¬ Stands brings undoes [] := by
  rintro ⟨before, op, after, heq, -⟩
  cases before <;> cases heq

/-- One more change brings it about, or leaves it standing. -/
theorem stands_concat : Stands brings undoes (ops ++ [op]) ↔
    brings op ∨ Stands brings undoes ops ∧ ¬ undoes ops op := by
  constructor
  · rintro ⟨before, c, after, heq, hc, hafter⟩
    rcases List.eq_nil_or_concat' after with rfl | ⟨after', last, rfl⟩
    · obtain ⟨-, hlast⟩ := List.append_inj' heq rfl
      obtain rfl : op = c := List.singleton_inj.1 hlast
      exact .inl hc
    · rw [← List.cons_append, ← List.append_assoc] at heq
      obtain ⟨rfl, hlast⟩ := List.append_inj' heq rfl
      obtain rfl : op = last := List.singleton_inj.1 hlast
      refine .inr ⟨⟨before, c, after', rfl, hc, fun mid op' rest hmid => ?_⟩, hafter after' op [] rfl⟩
      refine hafter mid op' (rest ++ [op]) ?_
      rw [hmid, List.append_assoc, List.cons_append]
  · rintro (hop | ⟨⟨before, c, after, rfl, hc, hafter⟩, hop⟩)
    · exact ⟨ops, op, [], rfl, hop, fun mid op' rest hnil => by cases mid <;> cases hnil⟩
    · refine ⟨before, c, after ++ [op], by simp, hc, fun mid op' rest heq => ?_⟩
      rcases List.eq_nil_or_concat' rest with rfl | ⟨rest', last, rfl⟩
      · obtain ⟨rfl, hlast⟩ := List.append_inj' heq rfl
        obtain rfl : op = op' := List.singleton_inj.1 hlast
        exact hop
      · rw [← List.cons_append, ← List.append_assoc] at heq
        exact hafter mid op' rest' (List.append_inj' heq rfl).1

variable {id : SystemId} {l : Listener} {p : ParameterId} {th : Thermostat} {m : Mode}

/-- The listener was registered last, and was not removed since. -/
def Registered (id : SystemId) (l : Listener) : List Op → Prop :=
  Stands (· = .registerListener id l) fun _ op =>
    op = .removeListener id l ∨ ∃ l', op = .registerListener id l'

/-- The change removes the listener that is registered for a system. -/
def Unregisters (id : SystemId) (ops : List Op) (op : Op) : Prop :=
  ∃ l, op = .removeListener id l ∧ Registered id l ops

/-- The parameter was added, and neither it nor the listener was removed since. -/
def Followed (id : SystemId) (p : ParameterId) : List Op → Prop :=
  Stands (· = .addTracked id p) fun ops op => op = .removeTracked id p ∨ Unregisters id ops op

/-- The thermostat was put there last, of those with its number, and was not removed since. -/
def Installed (id : SystemId) (th : Thermostat) : List Op → Prop :=
  Stands (· = .putThermostat id th) fun _ op =>
    op = .removeThermostat id th.id ∨ ∃ th', th'.id = th.id ∧ op = .putThermostat id th'

/-- The mode is not the default one, was set last, and the listener was not removed since. -/
def Overridden (id : SystemId) (m : Mode) : List Op → Prop :=
  Stands (fun op => op = .setMode id m ∧ m.isDefault = false) fun ops op =>
    (∃ m', op = .setMode id m') ∨ Unregisters id ops op

theorem registered_concat : Registered id l (ops ++ [op]) ↔ op = .registerListener id l ∨
    Registered id l ops ∧ ¬ (op = .removeListener id l ∨ ∃ l', op = .registerListener id l') :=
  stands_concat

theorem followed_concat : Followed id p (ops ++ [op]) ↔ op = .addTracked id p ∨
    Followed id p ops ∧ ¬ (op = .removeTracked id p ∨ Unregisters id ops op) := stands_concat

theorem installed_concat : Installed id th (ops ++ [op]) ↔ op = .putThermostat id th ∨
    Installed id th ops ∧ ¬ (op = .removeThermostat id th.id ∨
      ∃ th', th'.id = th.id ∧ op = .putThermostat id th') := stands_concat

theorem overridden_concat : Overridden id m (ops ++ [op]) ↔
    (op = .setMode id m ∧ m.isDefault = false) ∨
      Overridden id m ops ∧ ¬ ((∃ m', op = .setMode id m') ∨ Unregisters id ops op) := stands_concat

/-! ## Steps of the table -/

variable {t : SystemTable}

theorem listener?_apply : (t.apply op).listener? id = some l ↔ op = .registerListener id l ∨
    t.listener? id = some l ∧
      ¬ (op = .removeListener id l ∨ ∃ l', op = .registerListener id l') := by
  cases hfetch : op.isFetch with
  | true =>
    rw [listener?_of_hosted (t.hosted_apply hfetch id)]
    cases op <;> cases hfetch <;> simp
  | false =>
    show ((t.apply op).entry id).listener = some l ↔ _ ∨ (t.entry id).listener = some l ∧ _
    rw [entry_apply]
    generalize t.entry id = e
    cases op with
    | mergeSystems | updateSystem | setCapabilities | setCategories => cases hfetch
    | _ =>
      unfold Op.edit
      dsimp only
      split <;> grind

theorem contains_insert {s : SortedSet ParameterId} {q : ParameterId} :
    (s.insert q ()).contains p = true ↔ q = p ∨ s.contains p = true := by
  unfold SortedMap.contains
  rw [SortedMap.get?_insert]
  by_cases h : q = p <;> simp [SortedMap.rank_eq_rank_iff, h]

theorem contains_erase {s : SortedSet ParameterId} {q : ParameterId} :
    (s.erase q).contains p = true ↔ q ≠ p ∧ s.contains p = true := by
  unfold SortedMap.contains
  rw [SortedMap.get?_erase]
  by_cases h : q = p <;> simp [SortedMap.rank_eq_rank_iff, h]

theorem not_contains_empty : (∅ : SortedSet ParameterId).contains p = false := rfl

theorem contains_tracked_apply : ((t.apply op).entry id).tracked.contains p = true ↔
    op = .addTracked id p ∨ (t.entry id).tracked.contains p = true ∧
      ¬ (op = .removeTracked id p ∨ ∃ l, op = .removeListener id l ∧ t.listener? id = some l) := by
  cases hfetch : op.isFetch with
  | true =>
    have hsame : ((t.apply op).entry id).tracked = (t.entry id).tracked :=
      congrArg (·.tracked) (t.hosted_apply hfetch id)
    rw [hsame]
    cases op <;> cases hfetch <;> simp
  | false =>
    rw [entry_apply, show t.listener? id = (t.entry id).listener from rfl]
    generalize t.entry id = e
    cases op with
    | mergeSystems | updateSystem | setCapabilities | setCategories => cases hfetch
    | _ =>
      unfold Op.edit
      dsimp only
      split <;> grind [contains_insert, contains_erase, not_contains_empty]

/-- What is submitted again stays about its topic. -/
theorem filed_apply (h : t.Filed) (op : Op) : (t.apply op).Filed := by
  intro topic r hr
  cases hfetch : op.isFetch with
  | true => exact h ((kept?_of_hosted (t.hosted_apply hfetch _)).symm.trans hr)
  | false =>
    cases op with
    | mergeSystems | updateSystem | setCapabilities | setCategories => cases hfetch
    | registerListener id' l' => exact h ((t.kept?_registerListener id' topic l').symm.trans hr)
    | addTracked id' p => exact h ((t.kept?_addTracked id' topic p).symm.trans hr)
    | removeTracked id' p => exact h ((t.kept?_removeTracked id' topic p).symm.trans hr)
    | removeListener id' l' =>
      have hkept := (t.kept?_removeListener id' topic l').symm.trans hr
      split at hkept
      · cases hkept
      · exact h hkept
    | removeThermostat id' th =>
      have hkept := (t.kept?_removeThermostat id' topic th).symm.trans hr
      split at hkept
      · cases hkept
      · exact h hkept
    | putThermostat id' th =>
      have hkept := (t.kept?_putThermostat id' topic th).symm.trans hr
      split at hkept
      case isTrue htopic =>
        cases hkept
        exact congrArg some htopic.symm
      case isFalse => exact h hkept
    | setMode id' m =>
      have hkept := (t.kept?_setMode id' topic m).symm.trans hr
      split at hkept
      case isTrue htopic =>
        split at hkept
        · cases hkept
        · cases hkept
          exact congrArg some htopic.symm
      case isFalse => exact h hkept

theorem kept?_thermostat_apply : (t.apply op).kept? (.thermostat id th.id) =
      some (.upsertThermostat id th) ↔
    op = .putThermostat id th ∨ t.kept? (.thermostat id th.id) = some (.upsertThermostat id th) ∧
      ¬ (op = .removeThermostat id th.id ∨
        ∃ th', th'.id = th.id ∧ op = .putThermostat id th') := by
  cases hfetch : op.isFetch with
  | true =>
    rw [kept?_of_hosted (t.hosted_apply hfetch _)]
    cases op <;> cases hfetch <;> simp
  | false =>
    cases op with
    | mergeSystems | updateSystem | setCapabilities | setCategories => cases hfetch
    | _ =>
      unfold apply
      grind [kept?_registerListener, kept?_addTracked, kept?_removeTracked, kept?_removeListener,
        kept?_removeThermostat, kept?_putThermostat, kept?_setMode]

theorem kept?_mode_apply : (t.apply op).kept? (.mode id) = some (.setMode id m) ↔
    (op = .setMode id m ∧ m.isDefault = false) ∨ t.kept? (.mode id) = some (.setMode id m) ∧
      ¬ ((∃ m', op = .setMode id m') ∨ ∃ l, op = .removeListener id l ∧ t.listener? id = some l) := by
  cases hfetch : op.isFetch with
  | true =>
    rw [kept?_of_hosted (t.hosted_apply hfetch _)]
    cases op <;> cases hfetch <;> simp
  | false =>
    cases op with
    | mergeSystems | updateSystem | setCapabilities | setCategories => cases hfetch
    | _ =>
      unfold apply
      grind [kept?_registerListener, kept?_addTracked, kept?_removeTracked, kept?_removeListener,
        kept?_removeThermostat, kept?_putThermostat, kept?_setMode, removeListener_iff]

/-! ## Runs -/

/-- What is in the table is what the history leaves standing. -/
structure Recorded (ops : List Op) (t : SystemTable) : Prop where
  filed : t.Filed
  listener : ∀ {id l}, t.listener? id = some l ↔ Registered id l ops
  tracked : ∀ {id p}, (t.entry id).tracked.contains p = true ↔ Followed id p ops
  thermostat : ∀ {id th},
    t.kept? (.thermostat id th.id) = some (.upsertThermostat id th) ↔ Installed id th ops
  mode : ∀ {id m}, t.kept? (.mode id) = some (.setMode id m) ↔ Overridden id m ops

theorem recorded_empty : Recorded [] empty where
  filed := filed_empty
  listener := ⟨nofun, fun h => absurd h not_stands_nil⟩
  tracked := ⟨nofun, fun h => absurd h not_stands_nil⟩
  thermostat := ⟨nofun, fun h => absurd h not_stands_nil⟩
  mode := ⟨nofun, fun h => absurd h not_stands_nil⟩

theorem Recorded.unregisters (h : Recorded ops t) :
    (∃ l, op = .removeListener id l ∧ t.listener? id = some l) ↔ Unregisters id ops op :=
  exists_congr fun _ => and_congr_right fun _ => h.listener

theorem Recorded.apply (h : Recorded ops t) (op : Op) : Recorded (ops ++ [op]) (t.apply op) where
  filed := filed_apply h.filed op
  listener := by
    intro id l
    rw [listener?_apply, h.listener, registered_concat]
  tracked := by
    intro id p
    rw [contains_tracked_apply, h.tracked, h.unregisters, followed_concat]
  thermostat := by
    intro id th
    rw [kept?_thermostat_apply, h.thermostat, installed_concat]
  mode := by
    intro id m
    rw [kept?_mode_apply, h.mode, h.unregisters, overridden_concat]

theorem recorded_run (ops : List Op) : Recorded ops (empty.run ops) := by
  induction ops using List.reverseRecOn with
  | nil => exact recorded_empty
  | append_singleton ops op ih =>
    rw [run_concat]
    exact ih.apply op

/-! ## Answers -/

/-- The table answers every query as the history has it. -/
structure AnswersFrom (ops : List Op) (t : SystemTable) : Prop where
  tracked_sorted : ∀ id, (t.tracked id).Pairwise fun p q => rank p < rank q
  tracked : ∀ id p, p ∈ t.tracked id ↔ Followed id p ops
  thermostats_sorted : t.thermostats.Pairwise fun a b => rank a.1 < rank b.1
  thermostats_of_sorted : ∀ id ths, (id, ths) ∈ t.thermostats →
    ths ≠ [] ∧ ths.Pairwise fun a b => rank a.id < rank b.id
  thermostats : ∀ id th, (∃ ths, (id, ths) ∈ t.thermostats ∧ th ∈ ths) ↔ Installed id th ops
  modes_sorted : t.modeOverrides.Pairwise fun a b => rank a.1 < rank b.1
  modes : ∀ id m, (id, m) ∈ t.modeOverrides ↔ Overridden id m ops
  listened_sorted : t.listened.Pairwise fun a b => rank a < rank b
  listened : ∀ id, id ∈ t.listened ↔ ∃ l, Registered id l ops
  count : t.listenerCount = t.listened.length
  listener : ∀ id l, t.listener? id = some l ↔ Registered id l ops

/-- A change tells what it found. -/
structure TellsFrom (ops : List Op) (t : SystemTable) : Prop where
  registerListener : ∀ id l l', (t.registerListener id l).1 = some l' ↔ Registered id l' ops
  removeListener : ∀ id l, (t.removeListener id l).1 = true ↔ Registered id l ops
  addTracked : ∀ id p, (t.addTracked id p).1 = true ↔ ¬ Followed id p ops
  removeTracked : ∀ id p, (t.removeTracked id p).1 = true ↔ Followed id p ops
  removeThermostat : ∀ id k th,
    (t.removeThermostat id k).1 = some th ↔ th.id = k ∧ Installed id th ops

theorem Recorded.answers (h : Recorded ops t) : AnswersFrom ops t where
  tracked_sorted := t.tracked_ascending
  tracked _ _ := mem_tracked.trans h.tracked
  thermostats_sorted := t.thermostats_ascending
  thermostats_of_sorted _ _ hmem := ⟨thermostats_ne_nil hmem, thermostats_of_ascending h.filed hmem⟩
  thermostats _ _ := (mem_thermostats h.filed).trans h.thermostat
  modes_sorted := t.modeOverrides_ascending
  modes _ _ := mem_modeOverrides.trans h.mode
  listened_sorted := t.listened_ascending
  listened _ := mem_listened.trans (Option.isSome_iff_exists.trans (exists_congr fun _ => h.listener))
  count := t.listenerCount_eq
  listener _ _ := h.listener

theorem removeThermostat_eq_some {k : ThermostatId} (hf : t.Filed) :
    (t.removeThermostat id k).1 = some th ↔
      th.id = k ∧ t.kept? (.thermostat id th.id) = some (.upsertThermostat id th) := by
  have hfound : (t.removeThermostat id k).1 = (t.entry id).thermostats.get? k := by
    unfold removeThermostat
    split
    case h_1 hth => exact hth.symm
    case h_2 hnone => exact hnone.symm
  have hkept : (t.entry id).thermostats.get? k = some th ↔
      t.kept? (.thermostat id k) = some (.upsertThermostat id th) := by
    show _ ↔ ((t.entry id).thermostats.get? k).map _ = _
    simp
  rw [hfound, hkept]
  constructor
  · intro h
    -- it is kept under its own number
    have htopic := hf h
    cases htopic
    exact ⟨rfl, h⟩
  · rintro ⟨rfl, h⟩
    exact h

theorem Recorded.tells (h : Recorded ops t) : TellsFrom ops t where
  registerListener _ _ _ := h.listener
  removeListener _ _ := removeListener_iff.trans h.listener
  addTracked id p := by
    rw [← h.tracked]
    show (!(t.entry id).tracked.contains p) = true ↔ _
    rw [Bool.not_eq_true', Bool.not_eq_true]
  removeTracked id p := by
    rw [← h.tracked]
    unfold SystemTable.removeTracked
    split
    case isTrue hp => exact ⟨fun _ => hp, fun _ => rfl⟩
    case isFalse hp => exact ⟨nofun, fun hp' => absurd hp' hp⟩
  removeThermostat _ _ _ :=
    (removeThermostat_eq_some h.filed).trans (and_congr_right fun _ => h.thermostat)

/-- Whatever was done to a table that was empty, its answers follow from that, and so does what the
next change tells. No change bears on another system than those that it is about. -/
theorem answers_follow (ops : List Op) :
    AnswersFrom ops (empty.run ops) ∧ TellsFrom ops (empty.run ops) ∧
      ∀ op id, id ∉ op.systems → ((empty.run ops).apply op).entry id = (empty.run ops).entry id :=
  ⟨(recorded_run ops).answers, (recorded_run ops).tells, fun _ _ h => entry_apply_of_not_mem h⟩

end SystemTable

end HeatWatch
