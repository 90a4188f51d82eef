import HeatWatch.Proofs.Engine.Cadence
import HeatWatch.Proofs.Engine.Latest
import HeatWatch.Proofs.Engine.Registration

/-!
# What is submitted again in a run

The heartbeats of a run submit what the host gave: each thermostat as the last call about it gave it,
unless that call removed it, and each mode likewise, unless it is the default one or the listener was
removed since. Main statements:

* `kept?_obey`: what each call of the host decides;
* `kept?_follow`: the last call about a topic decides what is submitted again about it;
* `heartbeats_submit_last_word`: what the heartbeats of every run submit, and when.
-/

namespace HeatWatch

/-- A call of the host, given what the host was told, decides what is submitted again about a topic. A
listener is removed only if the host is told so. -/
def Command.decides (topic : Topic) (told : Option Bool) : Command → Bool
  | .setMode id _ => topic = .mode id
  | .removeListener id _ => told = some true ∧ topic = .mode id
  | .setThermostat id th => topic = .thermostat id th.id
  | .removeThermostat id th => topic = .thermostat id th
  | _ => false

/-- What is submitted again after a call that decides about it. -/
def Command.kept? : Command → Option Request
  | .setMode id m => if m.isDefault then none else some (.setMode id m)
  | .setThermostat id th => some (.upsertThermostat id th)
  | _ => none

/-- A call of the host, and what the host was told at once. -/
abbrev HostCall := Command × Option Bool

/-- The last of some calls that decides about a topic. -/
def lastWord? (topic : Topic) (cs : List HostCall) : Option Command :=
  (cs.reverse.find? fun c => c.1.decides topic c.2).map (·.1)

namespace Engine

/-- The calls of the host in a run. -/
def calls : Engine → List Move → List HostCall
  | _, [] => []
  | e, .obey c :: ms => (c, (e.obey c).1) :: (e.move (.obey c)).calls ms
  | e, m :: ms => (e.move m).calls ms

variable {e : Engine} {m : Move} {ms : List Move} {topic : Topic} {r : Request} {cs : List HostCall}
  {permit root : Permit} {rs : List Request}

/-! ## The last word -/

/-- What each call decides. -/
theorem kept?_obey (e : Engine) (c : Command) (topic : Topic) : (e.obey c).2.table.kept? topic =
    if c.decides topic (e.obey c).1 then c.kept? else e.table.kept? topic := by
  have htable : (e.obey c).2.table = c.tabled e.table := congrArg Ledger.table (obey_ledger e c)
  rw [htable]
  cases c with
  | addListener id l => exact e.table.kept?_registerListener id topic l
  | addTracked id p => exact e.table.kept?_addTracked id topic p
  | removeTracked id p => exact e.table.kept?_removeTracked id topic p
  | setMode id mode =>
    refine (e.table.kept?_setMode id topic mode).trans ?_
    simp only [Command.decides, decide_eq_true_eq]
    rfl
  | setThermostat id th =>
    refine (e.table.kept?_putThermostat id topic th).trans ?_
    simp only [Command.decides, decide_eq_true_eq]
    rfl
  | removeThermostat id th =>
    refine (e.table.kept?_removeThermostat id topic th).trans ?_
    simp only [Command.decides, decide_eq_true_eq]
    rfl
  | removeListener id l =>
    refine (e.table.kept?_removeListener id topic l).trans ?_
    rw [removeListener_answer]
    simp only [Command.decides, decide_eq_true_eq, Option.some.injEq]
    rfl
  | lookup | requestSystem | requestStatus | requestAlarm | requestSoftware | requestMode
  | requestParameters | setParameters | setUpdateInterval | setSoftwareDays | shutdown => rfl

theorem lastWord?_cons (c : HostCall) (cs : List HostCall) : lastWord? topic (c :: cs) =
    (lastWord? topic cs).or (if c.1.decides topic c.2 then some c.1 else none) := by
  unfold lastWord?
  rw [List.reverse_cons, List.find?_append, Option.map_or]
  congr 1
  rw [List.find?_singleton]
  split <;> rfl

/-- The last call about a topic decides what is submitted again about it. -/
theorem kept?_follow (e : Engine) (ms : List Move) (topic : Topic) :
    (e.follow ms).table.kept? topic =
      (lastWord? topic (e.calls ms)).elim (e.table.kept? topic) Command.kept? := by
  induction ms generalizing e with
  | nil => rfl
  | cons m ms ih =>
    rw [follow_cons, ih]
    cases m with
    | obey c =>
      show _ = (lastWord? topic ((c, (e.obey c).1) :: (e.move (.obey c)).calls ms)).elim _ _
      rw [lastWord?_cons]
      cases lastWord? topic ((e.move (.obey c)).calls ms) with
      | some last => rfl
      | none =>
        show (e.obey c).2.table.kept? topic = _
        rw [kept?_obey]
        dsimp only [Option.none_or]
        split <;> rfl
    | act | elapse | pass | plan =>
      refine congrArg (fun o => Option.elim _ o Command.kept?)
        (SystemTable.kept?_of_hosted (hosted_move (fun c h => ?_) _))
      cases h

theorem decides_of_lastWord {c : Command} (h : lastWord? topic cs = some c) :
    ∃ told, c.decides topic told = true := by
  obtain ⟨⟨c', told⟩, hfound, rfl⟩ := Option.map_eq_some_iff.1 h
  have hdecides := List.find?_some hfound
  exact ⟨told, hdecides⟩

theorem thermostat_of_lastWord {id : SystemId} {th : ThermostatId} {c : Command}
    (h : lastWord? (.thermostat id th) cs = some c) (hr : c.kept? = some r) :
    ∃ t, c = .setThermostat id t ∧ t.id = th ∧ r = .upsertThermostat id t := by
  obtain ⟨told, hdecides⟩ := decides_of_lastWord h
  cases c with
  | setThermostat id' t =>
    have htopic : Topic.thermostat id th = .thermostat id' t.id := of_decide_eq_true hdecides
    cases htopic
    exact ⟨t, rfl, rfl, (Option.some.inj hr).symm⟩
  | setMode id' m =>
    have htopic : Topic.thermostat id th = .mode id' := of_decide_eq_true hdecides
    cases htopic
  | _ => cases hr

theorem mode_of_lastWord {id : SystemId} {c : Command} (h : lastWord? (.mode id) cs = some c)
    (hr : c.kept? = some r) :
    ∃ mode, c = .setMode id mode ∧ mode.isDefault = false ∧ r = .setMode id mode := by
  obtain ⟨told, hdecides⟩ := decides_of_lastWord h
  cases c with
  | setMode id' mode =>
    have htopic : Topic.mode id = .mode id' := of_decide_eq_true hdecides
    cases htopic
    have hkept : (if mode.isDefault then none else some (.setMode id mode)) = some r := hr
    split at hkept
    case isTrue => cases hkept
    case isFalse hdefault =>
      exact ⟨mode, rfl, Bool.eq_false_iff.2 hdefault, (Option.some.inj hkept).symm⟩
  | setThermostat id' t =>
    have htopic : Topic.mode id = .thermostat id' t.id := of_decide_eq_true hdecides
    cases htopic
  | _ => cases hr

/-! ## Heartbeats -/

/-- What the heartbeats of a run submit after some calls of the host, and when. -/
structure Heartbeats (e : Engine) (interval : Nat) (cs : List HostCall) : Prop where
  /-- A run that begins makes both polls after the interval for the first time, and then again and
  again. -/
  ticks : ∀ m run poll, poll = .thermostats ∨ poll = .modes → e.InTime m →
    (e.move m).phase = .active run → run.root ∉ e.permits →
      (e.move m).Ticks poll run.root ((e.move m).clock + interval) (min interval longestWait)
  /-- The one puts a request for each thermostat behind all others, in order: the same one as the last
  call that set it, unless the thermostat was removed since. -/
  thermostats : ∀ m permit rs, .polled permit .thermostats rs ∈ e.records m →
    (e.move m).queue.requests = e.queue.requests ++ rs.take e.queue.free ∧
      rs.Pairwise Request.Before ∧
      ∀ r, r ∈ rs ↔ ∃ id th, lastWord? (.thermostat id th.id) cs = some (.setThermostat id th) ∧
        (Command.setThermostat id th).demands = [r]
  /-- So does the other one for each mode that was set last and is not the default one, unless the
  listener of the system was removed since. -/
  modes : ∀ m permit rs, .polled permit .modes rs ∈ e.records m →
    (e.move m).queue.requests = e.queue.requests ++ rs.take e.queue.free ∧
      rs.Pairwise Request.Before ∧
      ∀ r, r ∈ rs ↔ ∃ id mode, lastWord? (.mode id) cs = some (.setMode id mode) ∧
        mode.isDefault = false ∧ (Command.setMode id mode).demands = [r]
  /-- No poll submits the default mode. -/
  default : ∀ m permit poll rs id mode, .polled permit poll rs ∈ e.records m →
    .setMode id mode ∈ rs → mode.isDefault = false

section

variable (hkept : ∀ topic, e.table.kept? topic = (lastWord? topic cs).bind Command.kept?)
include hkept

theorem thermostats_of_calls : r ∈ Poll.thermostats.requests e.table ↔
    ∃ id th, lastWord? (.thermostat id th.id) cs = some (.setThermostat id th) ∧
      (Command.setThermostat id th).demands = [r] := by
  rw [SystemTable.mem_thermostats_iff]
  constructor
  · rintro ⟨id, th, h⟩
    rw [hkept] at h
    obtain ⟨c, hlast, hr⟩ := Option.bind_eq_some_iff.1 h
    obtain ⟨t, rfl, rfl, rfl⟩ := thermostat_of_lastWord hlast hr
    exact ⟨id, t, hlast, rfl⟩
  · rintro ⟨id, t, hlast, hr⟩
    refine ⟨id, t.id, ?_⟩
    rw [hkept, hlast]
    exact congrArg some (List.singleton_inj.1 hr)

theorem modes_of_calls : r ∈ Poll.modes.requests e.table ↔
    ∃ id mode, lastWord? (.mode id) cs = some (.setMode id mode) ∧ mode.isDefault = false ∧
      (Command.setMode id mode).demands = [r] := by
  rw [SystemTable.mem_modes_iff]
  constructor
  · rintro ⟨id, h⟩
    rw [hkept] at h
    obtain ⟨c, hlast, hr⟩ := Option.bind_eq_some_iff.1 h
    obtain ⟨mode, rfl, hdefault, rfl⟩ := mode_of_lastWord hlast hr
    exact ⟨id, mode, hlast, hdefault, rfl⟩
  · rintro ⟨id, mode, hlast, hdefault, hr⟩
    refine ⟨id, ?_⟩
    rw [hkept, hlast]
    show (if mode.isDefault then none else some (Request.setMode id mode)) = some r
    rw [hdefault]
    exact congrArg some (List.singleton_inj.1 hr)

end

theorem follow_heartbeat (hr : e.roster.Orderly) (ms : List Move) :
    (e.follow ms).settings.heartbeatInterval = e.settings.heartbeatInterval :=
  (follow_evolves hr ms).heartbeat

section

variable (settings : EngineSettings) (service : Service) (observer : Option Observer) (script : Script)

theorem follow_filed (ms : List Move) :
    ((start settings service observer script).follow ms).table.Filed :=
  follow_induction (P := fun e => e.table.Filed) (fun _ m h => filed_move h m) SystemTable.filed_empty
    ms

/-- What is submitted again is what the last call about it left to submit. -/
theorem kept?_calls (ms : List Move) (topic : Topic) :
    ((start settings service observer script).follow ms).table.kept? topic =
      (lastWord? topic ((start settings service observer script).calls ms)).bind Command.kept? := by
  rw [kept?_follow]
  cases lastWord? topic ((start settings service observer script).calls ms) with
  | some c => rfl
  | none => cases topic <;> rfl

end

/-- The heartbeats of every run submit what the last calls of the host left to submit. The time
between two of them is thirty years at most. -/
theorem heartbeats_submit_last_word (settings : EngineSettings) (service : Service)
    (observer : Option Observer) (script : Script) (hon : 0 < settings.heartbeatInterval)
    (ms : List Move) (htimely : (start settings service observer script).Timely ms) :
    ((start settings service observer script).follow ms).Heartbeats settings.heartbeatInterval
      ((start settings service observer script).calls ms) := by
  have hs := (sound_start settings service observer script).follow htimely
  have hp := follow_periodic settings service observer script ms
  have hfiled : ((start settings service observer script).follow ms).table.Filed :=
    follow_filed settings service observer script ms
  have hkept := kept?_calls settings service observer script ms
  generalize (start settings service observer script).calls ms = cs at hkept
  refine ⟨fun m run poll hpoll hm hphase hnew => ?_, fun m permit rs h => ?_,
    fun m permit rs h => ?_, fun m permit poll rs id mode h hmode => ?_⟩
  · have hinterval := follow_heartbeat (start_orderly settings service observer script) (ms ++ [m])
    rw [follow_append] at hinterval
    have hperiod : (((start settings service observer script).follow ms).move m).settings.period poll =
        settings.heartbeatInterval := by
      rcases hpoll with rfl | rfl <;> exact hinterval
    have hdelay : poll.delay settings.heartbeatInterval = settings.heartbeatInterval := by
      rcases hpoll with rfl | rfl <;> rfl
    have hcadence := cadence_of_begins hs hp hm hphase (new_of_root hs.orderly hphase hnew poll)
    rw [hperiod, hdelay] at hcadence
    exact hcadence.on (Nat.ne_of_gt hon)
  · obtain ⟨-, -, -, rfl, hqueue⟩ := requests_of_polled hs.orderly h
    exact ⟨hqueue, SystemTable.thermostats_pairwise hfiled, fun r => thermostats_of_calls hkept⟩
  · obtain ⟨-, -, -, rfl, hqueue⟩ := requests_of_polled hs.orderly h
    exact ⟨hqueue, SystemTable.modes_pairwise _, fun r => modes_of_calls hkept⟩
  · obtain ⟨-, -, -, rfl, -⟩ := requests_of_polled hs.orderly h
    have hlast := SystemTable.kept?_of_mem_requests hfiled hmode rfl
    rw [hkept] at hlast
    obtain ⟨c, hlast, hr⟩ := Option.bind_eq_some_iff.1 hlast
    obtain ⟨mode', -, hdefault, heq⟩ := mode_of_lastWord hlast hr
    cases heq
    exact hdefault

/-- So it is after a thermostat was set, and a mode with the listener removed since. -/
theorem heartbeats_after_removal :
    let settings := { EngineSettings.default with updateInterval := 0, softwareDays := 0 }
    let s := start settings ⟨"http://localhost", 1000⟩ none ⟨[], [], [.ok "token"], 0, 0⟩
    let ms : List Move := [.obey (.setThermostat ⟨1⟩ ⟨⟨3⟩, "hall", none, none, none⟩),
      .obey (.setMode ⟨2⟩ .vacation), .obey (.addListener ⟨2⟩ .silent),
      .obey (.addListener ⟨1⟩ .silent), .obey (.removeListener ⟨2⟩ .silent)]
    0 < settings.heartbeatInterval ∧ s.Timely ms ∧
      (s.follow ms).Heartbeats settings.heartbeatInterval (s.calls ms) := by
  intro settings s ms
  have hon : 0 < settings.heartbeatInterval := by decide
  have htimely : s.Timely ms := by decide +kernel
  exact ⟨hon, htimely, heartbeats_submit_last_word settings _ none _ hon ms htimely⟩

/-- With an interval of thirty-one years there are only thirty between the first heartbeat and the
second one. -/
theorem not_ticks_by_heartbeat :
    let interval := 977616000000
    let settings := { EngineSettings.default with
      heartbeatInterval := interval, updateInterval := 0, softwareDays := 0 }
    let e := (start settings ⟨"http://localhost", 1000⟩ none ⟨[], [], [], 0, 0⟩).move
      (.obey (.addListener ⟨1⟩ .silent))
    e.phase = .active ⟨0, 1, 2⟩ ∧ ¬ e.Ticks .thermostats 0 (e.clock + interval) interval := by
  intro interval settings e
  refine ⟨by decide +kernel, fun h => ?_⟩
  let ms : List Move := [.act 0, .act 1, .act 1, .act 2, .act 2, .elapse 977616000000, .act 1, .act 2,
    .elapse 1923696000000, .act 1]
  obtain ⟨n, htimes, -⟩ := h ms (by decide +kernel) (by decide +kernel) (by decide +kernel)
  have hmade : (e.follow ms).pollTimes .thermostats = [977616000000, 1923696000000] := by
    decide +kernel
  have hbefore : e.pollTimes .thermostats = [] := by decide +kernel
  have hclock : e.clock = 0 := by decide +kernel
  rw [hmade, hbefore, hclock] at htimes
  have hn : n = 2 := by simpa using (congrArg List.length htimes).symm
  subst hn
  exact absurd htimes (by decide)

end Engine

end HeatWatch
