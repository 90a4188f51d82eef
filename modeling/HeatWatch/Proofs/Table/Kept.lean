import HeatWatch.Polling
import HeatWatch.Proofs.Table.Results

/-!
# What is submitted again

A mode or a thermostat that the host gave is kept in the table and submitted again from time to time.
Results never change it, and a poll asks for nothing else. Main statements:

* `kept?_of_hosted`: results leave it alone;
* `mem_thermostats_iff`, `mem_modes_iff`: the polls submit all that is kept, and nothing else;
* `thermostats_pairwise`, `modes_pairwise`: in the order of the systems and the thermostats.
-/

namespace HeatWatch

/-- What can be submitted again: the mode of a system, or one of its thermostats. -/
inductive Topic where
  | mode (id : SystemId)
  | thermostat (id : SystemId) (th : ThermostatId)
  deriving DecidableEq

/-- What a request submits, if it submits anything. -/
def Request.topic? : Request → Option Topic
  | .setMode id _ => some (.mode id)
  | .upsertThermostat id th => some (.thermostat id th.id)
  | _ => none

/-- The request is about a topic. -/
def Request.isAbout (topic : Topic) (r : Request) : Bool := r.topic? = some topic

theorem Request.isAbout_iff {topic : Topic} {r : Request} :
    r.isAbout topic = true ↔ r.topic? = some topic := decide_eq_true_iff

/-- Reading parameters submits nothing. -/
theorem Request.topic?_of_mem_readParameters {id : SystemId} {ps : List ParameterId} {r : Request}
    (h : r ∈ readParameters id ps) : r.topic? = none := by
  obtain ⟨group, -, rfl⟩ := List.mem_map.1 h
  rfl

/-- The system that a topic belongs to. -/
def Topic.system : Topic → SystemId
  | .mode id | .thermostat id _ => id

/-- The request that is submitted again about a topic of a system. -/
def SystemEntry.kept? (e : SystemEntry) : Topic → Option Request
  | .mode id => e.mode.map (.setMode id)
  | .thermostat id th => (e.thermostats.get? th).map (.upsertThermostat id)

namespace SystemTable

/-- The request that is submitted again about a topic. -/
def kept? (t : SystemTable) (topic : Topic) : Option Request := (t.entry topic.system).kept? topic

/-- What is kept about a topic is about that topic. -/
def Filed (t : SystemTable) : Prop :=
  ∀ {topic r}, t.kept? topic = some r → r.topic? = some topic

theorem filed_empty : empty.Filed := by
  intro topic r h
  cases topic <;> cases h

variable (t : SystemTable) (id : SystemId) (topic : Topic)

theorem kept?_modify (f : SystemEntry → SystemEntry) : (t.modify id f).kept? topic =
    if id = topic.system then (f (t.entry topic.system)).kept? topic else t.kept? topic := by
  unfold kept?
  rw [entry_modify]
  split
  case isTrue h => rw [h]
  case isFalse => rfl

/-! ## Changes that leave it alone -/

theorem kept?_modify_of_same {f : SystemEntry → SystemEntry}
    (hf : ∀ e, (f e).kept? topic = e.kept? topic) : (t.modify id f).kept? topic = t.kept? topic := by
  rw [kept?_modify, hf]
  exact ite_self _

@[simp] theorem kept?_registerListener (l : Listener) :
    (t.registerListener id l).2.kept? topic = t.kept? topic :=
  kept?_modify_of_same t id topic fun _ => by cases topic <;> rfl

@[simp] theorem kept?_addTracked (p : ParameterId) :
    (t.addTracked id p).2.1.kept? topic = t.kept? topic :=
  kept?_modify_of_same t id topic fun _ => by cases topic <;> rfl

@[simp] theorem kept?_removeTracked (p : ParameterId) :
    (t.removeTracked id p).2.kept? topic = t.kept? topic := by
  unfold removeTracked
  split
  · exact kept?_modify_of_same t id topic fun _ => by cases topic <;> rfl
  · rfl

/-- It belongs to what the host gave, which no result changes. -/
theorem kept?_of_hosted {t t' : SystemTable} {topic : Topic}
    (h : (t'.entry topic.system).hosted = (t.entry topic.system).hosted) :
    t'.kept? topic = t.kept? topic := by
  have hkept : ∀ e : SystemEntry, e.hosted.kept? topic = e.kept? topic := fun e => by
    cases topic <;> rfl
  unfold kept?
  rw [← hkept, h, hkept]

/-! ## Changes by the host -/

/-- Removing the listener of a system ends the submission of its mode. -/
theorem kept?_removeListener (l : Listener) : (t.removeListener id l).2.kept? topic =
    if (t.removeListener id l).1 = true ∧ topic = .mode id then none else t.kept? topic := by
  unfold removeListener
  split
  case isTrue =>
    dsimp only
    rw [kept?_modify]
    cases topic with
    | mode id' =>
      by_cases h : id = id'
      · subst h
        rw [if_pos (show id = (Topic.mode id).system from rfl), if_pos ⟨rfl, rfl⟩]
        rfl
      · rw [if_neg (show id ≠ (Topic.mode id').system from h),
          if_neg fun heq => h (Topic.mode.inj heq.2).symm]
    | thermostat id' th =>
      rw [if_neg (fun heq => Topic.noConfusion heq.2 :
        ¬ (true = true ∧ Topic.thermostat id' th = .mode id))]
      exact ite_self _
  case isFalse => exact (if_neg fun h => Bool.false_ne_true h.1).symm

/-- Nothing is submitted any more about a thermostat that is removed. -/
theorem kept?_removeThermostat (th : ThermostatId) : (t.removeThermostat id th).2.kept? topic =
    if topic = .thermostat id th then none else t.kept? topic := by
  unfold removeThermostat
  split
  case h_1 =>
    dsimp only
    rw [kept?_modify]
    cases topic with
    | mode id' =>
      rw [if_neg (fun heq => Topic.noConfusion heq : Topic.mode id' ≠ .thermostat id th)]
      exact ite_self _
    | thermostat id' th' =>
      by_cases h : id = id'
      · subst h
        have herase : ((t.entry id).thermostats.erase th).get? th' =
            if th = th' then none else (t.entry id).thermostats.get? th' := by
          rw [SortedMap.get?_erase]
          exact ite_congr (propext SortedMap.rank_eq_rank_iff) (fun _ => rfl) fun _ => rfl
        rw [if_pos (show id = (Topic.thermostat id th').system from rfl)]
        show Option.map _ (((t.entry id).thermostats.erase th).get? th') = _
        rw [herase]
        by_cases hth : th = th'
        · subst hth
          rw [if_pos rfl, if_pos rfl]
          rfl
        · rw [if_neg hth, if_neg fun heq => hth (Topic.thermostat.inj heq).2.symm]
          rfl
      · rw [if_neg (show id ≠ (Topic.thermostat id' th').system from h),
          if_neg fun heq => h (Topic.thermostat.inj heq).1.symm]
  case h_2 hnone =>
    split
    case isTrue h =>
      subst h
      show Option.map _ ((t.entry id).thermostats.get? th) = none
      rw [hnone]
      rfl
    case isFalse => rfl

/-- The default mode is not submitted again, any other mode is. -/
theorem kept?_setMode (m : Mode) : (t.setMode id m).kept? topic =
    if topic = .mode id then (if m.isDefault then none else some (.setMode id m))
    else t.kept? topic := by
  unfold setMode
  rw [kept?_modify]
  cases topic with
  | mode id' =>
    -- the entry of the system is changed, and only its mode
    by_cases h : id = id'
    · subst h
      rw [if_pos (show id = (Topic.mode id).system from rfl), if_pos rfl]
      show Option.map _ (if m.isDefault then none else some m) = _
      cases m.isDefault <;> rfl
    · rw [if_neg (show id ≠ (Topic.mode id').system from h),
        if_neg fun heq => h (Topic.mode.inj heq).symm]
  | thermostat id' th =>
    rw [if_neg (fun heq => Topic.noConfusion heq : Topic.thermostat id' th ≠ .mode id)]
    exact ite_self _

/-- A thermostat is submitted again as it was given. -/
theorem kept?_putThermostat (th : Thermostat) : (t.putThermostat id th).kept? topic =
    if topic = .thermostat id th.id then some (.upsertThermostat id th) else t.kept? topic := by
  unfold putThermostat
  rw [kept?_modify]
  cases topic with
  | mode id' =>
    rw [if_neg (fun heq => Topic.noConfusion heq : Topic.mode id' ≠ .thermostat id th.id)]
    exact ite_self _
  | thermostat id' th' =>
    by_cases h : id = id'
    · subst h
      have hinsert : ((t.entry id).thermostats.insert th.id th).get? th' =
          if th.id = th' then some th else (t.entry id).thermostats.get? th' := by
        rw [SortedMap.get?_insert]
        exact ite_congr (propext SortedMap.rank_eq_rank_iff) (fun _ => rfl) fun _ => rfl
      rw [if_pos (show id = (Topic.thermostat id th').system from rfl)]
      show Option.map _ (((t.entry id).thermostats.insert th.id th).get? th') = _
      rw [hinsert]
      by_cases hth : th.id = th'
      · subst hth
        rw [if_pos rfl, if_pos rfl]
        rfl
      · rw [if_neg hth, if_neg fun heq => hth (Topic.thermostat.inj heq).2.symm]
        rfl
    · rw [if_neg (show id ≠ (Topic.thermostat id' th').system from h),
        if_neg fun heq => h (Topic.thermostat.inj heq).1.symm]

/-! ## Polls -/

/-- A system of which something is kept has an entry. -/
theorem mem_entries_of_kept? {t : SystemTable} {topic : Topic} {r : Request}
    (h : t.kept? topic = some r) :
    (topic.system, t.entry topic.system) ∈ t.entries.entries := by
  rw [SortedMap.mem_entries_iff]
  unfold kept? at h
  unfold entry at h ⊢
  generalize t.entries.get? topic.system = o at h
  cases o with
  | some e => rfl
  | none => cases topic <;> cases h

/-- Every thermostat that is kept is submitted, and nothing else. -/
theorem mem_thermostats_iff {t : SystemTable} {r : Request} : r ∈ Poll.thermostats.requests t ↔
    ∃ id th, t.kept? (.thermostat id th) = some r := by
  constructor
  · intro h
    obtain ⟨⟨id, ths⟩, hths, hr⟩ := List.mem_flatMap.1 h
    obtain ⟨th, hth, rfl⟩ := List.mem_map.1 hr
    obtain ⟨⟨id', e⟩, he, heq⟩ := List.mem_map.1 hths
    cases heq
    obtain ⟨⟨k, v⟩, hmem, rfl⟩ := List.mem_map.1 hth
    refine ⟨id, k, ?_⟩
    show (t.entry id).kept? (.thermostat id k) = _
    rw [entry_of_mem (List.mem_filter.1 he).1]
    show (e.thermostats.get? k).map _ = _
    rw [(SortedMap.mem_entries_iff ..).1 hmem]
    rfl
  · rintro ⟨id, k, h⟩
    have he := mem_entries_of_kept? h
    obtain ⟨th, hth, rfl⟩ := Option.map_eq_some_iff.1 h
    have hmem : (k, th) ∈ (t.entry id).thermostats.entries := (SortedMap.mem_entries_iff ..).2 hth
    refine List.mem_flatMap.2 ⟨(id, (t.entry id).thermostats.values), List.mem_map.2
      ⟨(id, t.entry id), List.mem_filter.2 ⟨he, ?_⟩, rfl⟩, List.mem_map_of_mem ?_⟩
    · simpa using List.ne_nil_of_mem hmem
    · exact List.mem_map_of_mem hmem

/-- Every mode that is kept is submitted, and nothing else. -/
theorem mem_modes_iff {t : SystemTable} {r : Request} : r ∈ Poll.modes.requests t ↔
    ∃ id, t.kept? (.mode id) = some r := by
  constructor
  · intro h
    obtain ⟨⟨id, m⟩, hm, rfl⟩ := List.mem_map.1 h
    obtain ⟨⟨id', e⟩, he, heq⟩ := List.mem_filterMap.1 hm
    obtain ⟨m', hmode, heq⟩ := Option.map_eq_some_iff.1 heq
    cases heq
    refine ⟨id, ?_⟩
    show (t.entry id).mode.map _ = _
    rw [entry_of_mem he, hmode]
    rfl
  · rintro ⟨id, h⟩
    have he := mem_entries_of_kept? h
    obtain ⟨m, hm, rfl⟩ := Option.map_eq_some_iff.1 h
    refine List.mem_map.2 ⟨(id, m), List.mem_filterMap.2 ⟨_, he, ?_⟩, rfl⟩
    show (t.entry id).mode.map _ = _
    rw [show (t.entry id).mode = some m from hm]
    rfl

end SystemTable

/-- The order in which requests are submitted again: by their systems, and for one system by its
thermostats. -/
def Request.Before : Request → Request → Prop
  | .upsertThermostat id th, .upsertThermostat id' th' =>
    rank id < rank id' ∨ (id = id' ∧ rank th.id < rank th'.id)
  | .setMode id _, .setMode id' _ => rank id < rank id'
  | _, _ => False

namespace SystemTable

theorem thermostats_pairwise {t : SystemTable} (hf : t.Filed) :
    (Poll.thermostats.requests t).Pairwise Request.Before := by
  refine List.pairwise_flatMap.2 ⟨fun ⟨id, ths⟩ hths => ?_, ?_⟩
  · -- a thermostat is kept under its own number
    obtain ⟨⟨id', e⟩, he, heq⟩ := List.mem_map.1 hths
    cases heq
    have hfiled : ∀ {k th}, (k, th) ∈ e.thermostats.entries → th.id = k := by
      intro k th hmem
      have hkept : t.kept? (.thermostat id k) = some (.upsertThermostat id th) := by
        show (t.entry id).kept? (.thermostat id k) = _
        rw [entry_of_mem (List.mem_filter.1 he).1]
        show (e.thermostats.get? k).map _ = _
        rw [(SortedMap.mem_entries_iff ..).1 hmem]
        rfl
      have htopic := hf hkept
      cases htopic
      rfl
    refine List.pairwise_map.2 (List.pairwise_map.2 ?_)
    refine e.thermostats.ascending.imp_of_mem fun {a b} ha hb hlt => .inr ⟨rfl, ?_⟩
    rwa [hfiled ha, hfiled hb]
  · refine List.pairwise_map.2 ((t.entries.ascending.filter _).imp fun {a b} hlt x hx y hy => ?_)
    obtain ⟨th, -, rfl⟩ := List.mem_map.1 hx
    obtain ⟨th', -, rfl⟩ := List.mem_map.1 hy
    exact .inl hlt

theorem modes_pairwise (t : SystemTable) : (Poll.modes.requests t).Pairwise Request.Before := by
  refine List.pairwise_map.2 (List.pairwise_filterMap.2 ?_)
  refine t.entries.ascending.imp fun {a b} hlt x hx y hy => ?_
  obtain ⟨m, -, rfl⟩ := Option.map_eq_some_iff.1 hx
  obtain ⟨m', -, rfl⟩ := Option.map_eq_some_iff.1 hy
  exact hlt

/-- A poll submits what is kept. -/
theorem kept?_of_mem_requests {t : SystemTable} (hf : t.Filed) {p : Poll} {r : Request}
    {topic : Topic} (h : r ∈ p.requests t) (hr : r.topic? = some topic) :
    t.kept? topic = some r := by
  cases p with
  | thermostats =>
    obtain ⟨id, th, hkept⟩ := mem_thermostats_iff.1 h
    cases (hf hkept).symm.trans hr
    exact hkept
  | modes =>
    obtain ⟨id, hkept⟩ := mem_modes_iff.1 h
    cases (hf hkept).symm.trans hr
    exact hkept
  | standard =>
    -- what it asks for submits nothing
    obtain ⟨id, -, hr'⟩ := List.mem_flatMap.1 h
    rcases List.mem_cons.1 hr' with rfl | hr'
    · cases hr
    rcases List.mem_cons.1 hr' with rfl | hr'
    · cases hr
    rw [Request.topic?_of_mem_readParameters hr'] at hr
    cases hr
  | software =>
    obtain ⟨id, -, rfl⟩ := List.mem_map.1 h
    cases hr

end SystemTable

end HeatWatch
