import HeatWatch.Proofs.Engine.Shifts
import HeatWatch.Proofs.Table.Listeners
import Mathlib.Data.List.Induction

/-!
# Listeners and phases

The engine is at work for its listeners: it is dormant if there is none, and only a shutdown puts it
to rest while there is one. Main statements:

* `listener?_move`: only the host changes who is registered;
* `Serves.move`: whenever the engine is at work someone listens;
* `dormant_iff`: when the engine is dormant;
* `listeners_and_phases`: the phases, and what a removal leads to.
-/

namespace HeatWatch

/-- The host removes a listener. -/
def Move.unlistens : Move → Bool
  | .obey (.removeListener _ _) => true
  | _ => false

theorem Move.unlistens_iff {m : Move} :
    m.unlistens = true ↔ ∃ s l, m = .obey (.removeListener s l) := by
  constructor
  · intro h
    unfold unlistens at h
    split at h
    case h_1 s l => exact ⟨s, l, rfl⟩
    case h_2 => cases h
  · rintro ⟨s, l, rfl⟩
    rfl

/-- Someone is registered. -/
def SystemTable.Heard (t : SystemTable) : Prop := ∃ id l, t.listener? id = some l

theorem SystemTable.not_heard_iff {t : SystemTable} : ¬ t.Heard ↔ ∀ id, t.listener? id = none := by
  constructor
  · intro h id
    refine Option.eq_none_iff_forall_ne_some.2 fun l hl => h ⟨id, l, hl⟩
  · rintro h ⟨id, l, hl⟩
    cases hl.symm.trans (h id)

/-- The host shut the engine down, and registered no listener since. -/
def Silenced (ms : List Move) : Prop :=
  ∃ before after, ms = before ++ .obey .shutdown :: after ∧ ∀ m ∈ after, m.listens = false

theorem Silenced.concat {ms : List Move} (h : Silenced ms) {m : Move} (hm : m.listens = false) :
    Silenced (ms ++ [m]) := by
  obtain ⟨before, after, rfl, hafter⟩ := h
  refine ⟨before, after ++ [m], ?_, fun n hn => ?_⟩
  · rw [List.append_assoc, List.cons_append]
  · rcases List.mem_append.1 hn with hold | hnew
    · exact hafter n hold
    · rw [List.mem_singleton.1 hnew]
      exact hm

theorem Silenced.shutdown {ms : List Move} (h : Silenced ms) : .obey .shutdown ∈ ms := by
  obtain ⟨before, after, rfl, -⟩ := h
  exact List.mem_append_right _ List.mem_cons_self

namespace Engine

variable {e s : Engine} {m : Move}

/-! ## Who is registered -/

/-- Calls of the host other than for listeners change no listener. -/
theorem listener?_tabled {c : Command} (hadd : (Move.obey c).listens = false)
    (hremove : (Move.obey c).unlistens = false) (t : SystemTable) (id : SystemId) :
    (c.tabled t).listener? id = t.listener? id := by
  cases c with
  | addListener => cases hadd
  | removeListener => cases hremove
  | setMode s mode => exact t.listener?_setMode s id mode
  | setThermostat s th => exact t.listener?_putThermostat s id th
  | removeThermostat s th => exact t.listener?_removeThermostat s id th
  | addTracked s p => exact t.listener?_addTracked s id p
  | removeTracked s p => exact t.listener?_removeTracked s id p
  | lookup | requestSystem | requestStatus | requestAlarm | requestSoftware | requestMode
  | requestParameters | setParameters | setUpdateInterval | setSoftwareDays | shutdown => rfl

/-- No other move than a registration or a removal changes who is registered. -/
theorem listener?_move (hadd : m.listens = false) (hremove : m.unlistens = false) (id : SystemId) :
    (e.move m).table.listener? id = e.table.listener? id := by
  cases m with
  | obey c =>
    rw [move_table]
    exact listener?_tabled hadd hremove e.table id
  | act | elapse | pass | plan =>
    refine SystemTable.listener?_of_hosted (hosted_move (fun c h => ?_) id)
    cases h

/-- Whoever is registered after a move was registered before, unless the host registers someone. -/
theorem registered_of_move (hadd : m.listens = false) {id : SystemId} {l : Listener}
    (h : (e.move m).table.listener? id = some l) : e.table.listener? id = some l := by
  by_cases hremove : m.unlistens = true
  · obtain ⟨s, l', rfl⟩ := Move.unlistens_iff.1 hremove
    rw [move_table] at h
    exact SystemTable.registered_of_removeListener h
  · rw [← h]
    exact (listener?_move hadd (by simpa using hremove) id).symm

theorem heard_of_listens (h : m.listens = true) : (e.move m).table.Heard := by
  obtain ⟨s, l, rfl⟩ := Move.listens_iff.1 h
  refine ⟨s, l, ?_⟩
  rw [move_table]
  exact (e.table.listener?_registerListener s s l).trans (if_pos rfl)

/-- Someone is still registered after a move that does not stop the engine. -/
theorem heard_move (h : e.table.Heard) (hstop : m.stops e.table = false) :
    (e.move m).table.Heard := by
  by_cases hadd : m.listens = true
  · exact heard_of_listens hadd
  have hadd : m.listens = false := by simpa using hadd
  by_cases hremove : m.unlistens = true
  · obtain ⟨s, l, rfl⟩ := Move.unlistens_iff.1 hremove
    have hstop : ((e.table.removeListener s l).1 &&
      (e.table.removeListener s l).2.listenerCount = 0) = false := hstop
    rw [move_table]
    show (e.table.removeListener s l).2.Heard
    by_cases hremoved : (e.table.removeListener s l).1 = true
    · refine (SystemTable.listenerCount_ne_zero_iff _).1 fun hzero => ?_
      rw [hremoved, hzero] at hstop
      cases hstop
    · -- nothing was removed
      rw [SystemTable.removeListener_of_other (mt SystemTable.removeListener_iff.2 hremoved)]
      exact h
  · obtain ⟨id, l, hl⟩ := h
    exact ⟨id, l, (listener?_move hadd (by simpa using hremove) id).trans hl⟩

/-- A removal that stops the engine leaves no one. -/
theorem not_heard_of_stops {c : Command} (hstop : c.stops e.table = true) (hc : c ≠ .shutdown) :
    ¬ (e.move (.obey c)).table.Heard := by
  cases c with
  | shutdown => exact absurd rfl hc
  | removeListener s l =>
    have hstop : ((e.table.removeListener s l).1 &&
      (e.table.removeListener s l).2.listenerCount = 0) = true := hstop
    rw [Bool.and_eq_true, decide_eq_true_iff] at hstop
    rw [move_table, SystemTable.not_heard_iff]
    exact (SystemTable.listenerCount_eq_zero_iff _).1 hstop.2
  | addListener | lookup | requestSystem | requestStatus | requestAlarm | requestSoftware
  | requestMode | requestParameters | setParameters | setMode | setThermostat | removeThermostat
  | addTracked | removeTracked | setUpdateInterval | setSoftwareDays => cases hstop

/-! ## Phases -/

/-- Whenever the engine is at work someone is registered. -/
def Serves (e : Engine) : Prop := e.phase ≠ .dormant → e.table.Heard

theorem Serves.move (h : e.Serves) (hr : e.roster.Orderly) (m : Move) : (e.move m).Serves := by
  intro hwork
  have hshift := shift hr m
  generalize (e.records m).filter Happening.isSignal = hs at hshift
  generalize (e.move m).phase = phase at hshift hwork
  cases hshift with
  | lasts hlasts hstop =>
    refine heard_move (h fun hdormant => ?_) hstop
    rw [hdormant] at hlasts
    cases phase with
    | dormant => exact hwork rfl
    | active | outage => cases hlasts
  | starts _ hstart => exact heard_of_listens hstart
  | stops => exact absurd rfl hwork
  | fails hphase | resumes hphase =>
    refine heard_move (h fun hdormant => ?_) rfl
    cases hphase.symm.trans hdormant

/-- The engine comes to rest when no one is registered any more, or when it is shut down. -/
theorem dormant_concat {ms : List Move} (hr : (s.follow ms).roster.Orderly)
    (h : (s.follow ms).phase = .dormant → ¬ (s.follow ms).table.Heard ∨ Silenced ms) {m : Move}
    (hdormant : ((s.follow ms).move m).phase = .dormant) :
    ¬ ((s.follow ms).move m).table.Heard ∨ Silenced (ms ++ [m]) := by
  have hshift := shift hr m
  generalize ((s.follow ms).records m).filter Happening.isSignal = hs at hshift
  rw [hdormant] at hshift
  cases hshift with
  | lasts hlasts hstop hstart =>
    have hphase : (s.follow ms).phase = .dormant := by
      cases hphase : (s.follow ms).phase with
      | dormant => rfl
      | active | outage =>
        rw [hphase] at hlasts
        cases hlasts
    have hadd : m.listens = false := hstart hphase
    rcases h hphase with hnone | hsilenced
    · refine .inl fun hheard => hnone ?_
      obtain ⟨id, l, hl⟩ := hheard
      exact ⟨id, l, registered_of_move hadd hl⟩
    · exact .inr (hsilenced.concat hadd)
  | stops hstop =>
    cases m with
    | obey c =>
      by_cases hc : c = .shutdown
      · subst hc
        exact .inr ⟨ms, [], rfl, nofun⟩
      · exact .inl (not_heard_of_stops hstop hc)
    | act | elapse | pass | plan => cases hstop

/-- A dormant engine stays dormant until the host registers a listener. -/
theorem dormant_follow {ms : List Move} (hr : e.roster.Orderly) (hphase : e.phase = .dormant)
    (hms : ∀ m ∈ ms, m.listens = false) : (e.follow ms).phase = .dormant := by
  induction ms generalizing e with
  | nil => exact hphase
  | cons m ms ih =>
    obtain ⟨hm, hrest⟩ := List.forall_mem_cons.1 hms
    refine ih ((move_evolves hr m).orderly hr) ?_ hrest
    have hshift := shift hr m
    generalize (e.records m).filter Happening.isSignal = hs at hshift
    generalize (e.move m).phase = phase at hshift ⊢
    cases hshift with
    | lasts hlasts =>
      rw [hphase] at hlasts
      cases phase with
      | dormant => rfl
      | active | outage => cases hlasts
    | starts _ hstart => cases hm.symm.trans hstart
    | stops => rfl
    | fails hphase' | resumes hphase' => cases hphase.symm.trans hphase'

section Start

variable (settings : EngineSettings) (service : Service) (observer : Option Observer)
  (script : Script)

theorem not_heard_start : ¬ (start settings service observer script).table.Heard := by
  rintro ⟨id, l, hl⟩
  cases hl

/-- After every run someone is registered whenever the engine is at work. -/
theorem serves_follow (ms : List Move) : ((start settings service observer script).follow ms).Serves :=
  orderly_induction (fun _ m hr h => h.move hr m) (fun hwork => absurd rfl hwork)
    (start_orderly settings service observer script) ms

/-- After every run the engine is dormant exactly if no one is registered, or it was shut down and no
one was registered since. -/
theorem dormant_iff (ms : List Move) :
    ((start settings service observer script).follow ms).phase = .dormant ↔
      ¬ ((start settings service observer script).follow ms).table.Heard ∨ Silenced ms := by
  have hs := start_orderly settings service observer script
  constructor
  · induction ms using List.reverseRecOn with
    | nil => exact fun _ => .inl (not_heard_start settings service observer script)
    | append_singleton ms m ih =>
      rw [follow_append]
      exact dormant_concat (follow_orderly settings service observer script ms) ih
  · rintro (hnone | ⟨before, after, rfl, hafter⟩)
    · exact Decidable.not_not.1 fun hwork =>
        hnone (serves_follow settings service observer script ms hwork)
    · rw [follow_append, follow_cons]
      have hr := follow_orderly settings service observer script before
      refine dormant_follow ((move_evolves hr _).orderly hr) ?_ hafter
      exact obey_phase_of_stops rfl

end Start

/-! ## Removals -/

theorem removeListener_answer (e : Engine) (s : SystemId) (l : Listener) :
    (e.obey (.removeListener s l)).1 = some (e.table.removeListener s l).1 := by
  show some (e.removeListener s l).1 = _
  unfold removeListener
  generalize e.table.removeListener s l = removal
  obtain ⟨removed, table⟩ := removal
  cases removed <;> rfl

/-- A removal tells whether the listener was the registered one. -/
theorem removal_succeeds_iff {s : SystemId} {l : Listener} :
    (e.obey (.removeListener s l)).1 = some true ↔ e.table.listener? s = some l := by
  rw [removeListener_answer, Option.some.injEq]
  exact SystemTable.removeListener_iff

/-- Removing the last listener stops the engine whatever it does. -/
theorem stops_of_last {s : SystemId} {l : Listener} (h : e.table.listener? s = some l)
    (hnone : ¬ (e.obey (.removeListener s l)).2.table.Heard) :
    (Command.removeListener s l).stops e.table = true := by
  have htable : (e.obey (.removeListener s l)).2.table = (e.table.removeListener s l).2 :=
    e.move_table (.obey (.removeListener s l))
  rw [htable, SystemTable.not_heard_iff, ← SystemTable.listenerCount_eq_zero_iff] at hnone
  have hremoved : (e.table.removeListener s l).1 = true := SystemTable.removeListener_iff.2 h
  show ((e.table.removeListener s l).1 &&
    (e.table.removeListener s l).2.listenerCount = 0) = true
  rw [hremoved, hnone]
  rfl

/-- Removing anyone else than the registered listener changes nothing. -/
theorem removal_of_other {s : SystemId} {l : Listener} (h : e.table.listener? s ≠ some l) :
    e.removeListener s l =
      (false, e.log (.warn ("No matching listener registered for system " ++ s.text))) := by
  unfold removeListener
  rw [SystemTable.removeListener_of_other h]
  rfl

/-- After every run someone is registered whenever the engine is at work, and it is dormant exactly
if no one is registered, or it was shut down and no one was registered since. A removal tells whether
the listener was the registered one. If it was and it leaves no one, the engine is dormant and its
queue is empty, and if it was not, nothing changes. -/
theorem listeners_and_phases (settings : EngineSettings) (service : Service)
    (observer : Option Observer) (script : Script) (ms : List Move) :
    let e := (start settings service observer script).follow ms
    (e.phase ≠ .dormant → ∃ id l, e.table.listener? id = some l) ∧
      (e.phase = .dormant ↔ (∀ id, e.table.listener? id = none) ∨ Silenced ms) ∧
      (.obey .shutdown ∉ ms → (e.phase = .dormant ↔ ∀ id, e.table.listener? id = none)) ∧
      ∀ s l, let answer := (e.obey (.removeListener s l)).1
        let e' := (e.obey (.removeListener s l)).2
        (answer = some true ↔ e.table.listener? s = some l) ∧
        (answer = some true → (∀ id, e'.table.listener? id = none) →
          e'.phase = .dormant ∧ e'.queue.entries = []) ∧
        (e.table.listener? s ≠ some l → answer = some false ∧ e'.table = e.table ∧
          e'.queue = e.queue ∧ e'.phase = e.phase) := by
  intro e
  have hdormant : e.phase = .dormant ↔ (∀ id, e.table.listener? id = none) ∨ Silenced ms := by
    rw [← SystemTable.not_heard_iff]
    exact dormant_iff settings service observer script ms
  refine ⟨serves_follow settings service observer script ms, hdormant, fun hup => ?_, fun s l => ?_⟩
  · rw [hdormant]
    exact ⟨fun h => h.resolve_right fun hsilenced => hup hsilenced.shutdown, .inl⟩
  · refine ⟨removal_succeeds_iff, fun hanswer hnone => ?_, fun hother => ?_⟩
    · have hstop := stops_of_last (removal_succeeds_iff.1 hanswer)
        (SystemTable.not_heard_iff.2 hnone)
      exact ⟨obey_phase_of_stops hstop, queue_of_stops hstop⟩
    · show some (e.removeListener s l).1 = _ ∧ (e.removeListener s l).2.table = _ ∧
        (e.removeListener s l).2.queue = _ ∧ (e.removeListener s l).2.phase = _
      rw [removal_of_other hother]
      exact ⟨rfl, rfl, rfl, rfl⟩

end Engine

end HeatWatch
