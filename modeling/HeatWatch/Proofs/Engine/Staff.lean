import HeatWatch.Proofs.Engine.Moves
import HeatWatch.Proofs.Engine.Roster

/-!
# Tasks and phases

Each move changes the roster of the engine in one of the ways that keep it orderly. Main
statements:

* `act_evolves`, `obey_evolves`, `move_evolves`: what a move does to the roster;
* `follow_orderly`, `follow_manned`: what holds of the roster after every run;
* `act_of_withdrawn`: what a task does whose permit is withdrawn.
-/

namespace HeatWatch

namespace Engine

/-- What a task is there for. -/
def post? (e : Engine) (id : TaskId) : Option Post := (e.duty? id).map Duty.post

def roster (e : Engine) : Roster where
  settings := e.settings
  phase := e.phase
  permits := e.permits
  nextPermit := e.nextPermit
  nextTask := e.nextTask
  post := e.post?

theorem post?_of_duty? {e : Engine} {id : TaskId} {d : Duty} (h : e.duty? id = some d) :
    e.post? id = some d.post := congrArg (Option.map Duty.post) h

theorem post?_of_ready? {e : Engine} {id : TaskId} {d : Duty} (h : e.ready? id = some d) :
    e.post? id = some d.post := post?_of_duty? (duty?_of_ready? h)

theorem post?_of_task? {e : Engine} {id : TaskId} {t : Task} (ht : e.task? id = some t) :
    e.post? id = some t.duty.post := post?_of_duty? (duty?_of_task? ht)

theorem task?_of_post? {e : Engine} {id : TaskId} {w : Post} (hw : e.post? id = some w) :
    ∃ t, e.task? id = some t ∧ t.duty.post = w := by
  obtain ⟨d, hd, hpost⟩ := Option.map_eq_some_iff.1 hw
  obtain ⟨t, ht, rfl⟩ := Option.map_eq_some_iff.1 hd
  exact ⟨t, ht, hpost⟩

variable (e : Engine) (id : TaskId) (d : Duty)

/-! ## Operations that keep the roster -/

/-- The roster is the one of the frame, with the tasks by their posts. -/
theorem roster_of_frame {e e' : Engine} (hf : e'.frame = e.frame) (hp : e'.post? = e.post?) :
    e'.roster = e.roster := by
  show { e'.frame.roster with post := e'.post? } = { e.frame.roster with post := e.post? }
  rw [hf, hp]

theorem Nudged.post? {e e' : Engine} (h : Nudged e e') : e'.post? = e.post? := by
  funext id
  have hid := h id
  unfold Engine.post? duty?
  generalize e.task? id = o at hid ⊢
  generalize e'.task? id = o' at hid ⊢
  cases hid with
  | none => rfl
  -- a nudge leaves a task where it is, or hands a caller its result
  | some hn => cases hn <;> rfl

@[simp] theorem record_roster (h : Happening) : (e.record h).roster = e.roster := rfl

@[simp] theorem log_roster (l : LogLine) : (e.log l).roster = e.roster := rfl

@[simp] theorem logAll_roster (ls : List LogLine) : (e.logAll ls).roster = e.roster := by
  induction ls generalizing e with
  | nil => rfl
  | cons l ls ih => exact ih (e.log l)

@[simp] theorem noticeAll_roster (ns : List Notice) : (ns.foldl notice e).roster = e.roster := by
  induction ns generalizing e with
  | nil => rfl
  | cons n ns ih => cases n <;> exact ih _

@[simp] theorem wake_roster : (e.wake id).roster = e.roster := by
  refine roster_of_frame (e.wake_frame id) (funext fun id' => ?_)
  exact congrArg (Option.map Duty.post) (e.duty?_wake id id')

@[simp] theorem wakeTaker_roster : e.wakeTaker.roster = e.roster :=
  roster_of_frame e.wakeTaker_frame e.nudged_wakeTaker.post?

@[simp] theorem reply_roster (r : Except RequestError String) :
    (e.reply id r).roster = e.roster :=
  roster_of_frame (e.reply_frame id r) (e.nudged_reply id r).post?

@[simp] theorem replyAll_roster (ids : List TaskId) (r : Except RequestError String) :
    (e.replyAll ids r).roster = e.roster :=
  roster_of_frame (e.replyAll_frame ids r) (e.nudged_replyAll ids r).post?

@[simp] theorem inserted_roster (i : Queue.Insertion) : (e.inserted i).roster = e.roster := by
  have h : (logAll { e with queue := i.queue } i.logs).roster = e.roster := logAll_roster _ _
  unfold inserted
  split
  · exact (wakeTaker_roster _).trans h
  · exact h

@[simp] theorem enqueueAll_roster (rs : List Request) : (e.enqueueAll rs).roster = e.roster := by
  unfold enqueueAll
  induction rs generalizing e with
  | nil => rfl
  | cons r rs ih => exact (ih _).trans (inserted_roster e _)

@[simp] theorem deliver_roster (r : Request) (body : String) :
    (e.deliver r body).roster = e.roster := noticeAll_roster _ _

@[simp] theorem mergeListing_roster (r : Except RequestError String) :
    (e.mergeListing r).roster = e.roster := by
  unfold mergeListing
  split
  · split <;> rfl
  · rfl

/-- A task that goes to another point keeps its post. -/
theorem post?_moved {e e' : Engine} {id : TaskId} {d : Duty} (h : e.post? id = some d.post)
    (hd : ∀ id', e'.duty? id' = if id = id' then some d else e.duty? id') :
    e'.post? = e.post? := by
  funext id'
  unfold post?
  rw [hd]
  split
  case isTrue heq => exact heq ▸ h.symm
  case isFalse => rfl

theorem isSome_of_post? {e : Engine} {id : TaskId} {w : Post} (h : e.post? id = some w) :
    (e.duty? id).isSome := by
  obtain ⟨d, hd, -⟩ := Option.map_eq_some_iff.1 h
  exact Option.isSome_of_eq_some hd

variable {e id d}

theorem park_roster (h : e.post? id = some d.post) (w : Wait) :
    (e.park id d w).roster = e.roster :=
  roster_of_frame rfl (post?_moved h fun _ => duty?_park e id d w)

theorem proceed_roster (h : e.post? id = some d.post) : (e.proceed id d).roster = e.roster :=
  roster_of_frame (proceed_frame e id d)
    (post?_moved h fun _ => duty?_proceed (isSome_of_post? h) d)

theorem sleep_roster (h : e.post? id = some d.post) (due : Nat) :
    (e.sleep id d due).roster = e.roster :=
  roster_of_frame (sleep_frame e id d due)
    (post?_moved h fun _ => duty?_sleep (isSome_of_post? h) d due)

/-- After operations that keep the roster a task keeps its post. -/
theorem post?_of_roster {e' : Engine} (h : e'.roster = e.roster) {w : Post}
    (hw : e.post? id = some w) : e'.post? id = some w :=
  (congrFun (congrArg Roster.post h) id).trans hw

theorem proceed_roster_of {e' : Engine} (h : e'.roster = e.roster)
    (hw : e.post? id = some d.post) : (e'.proceed id d).roster = e.roster :=
  (proceed_roster (post?_of_roster h hw)).trans h

variable (e id d)

theorem ring_duty (now : Nat) (t : Task) : (ring now t).duty = t.duty := by
  unfold ring
  split
  · split <;> rfl
  · rfl

@[simp] theorem elapse_duty? (now : Nat) : (e.elapse now).duty? = e.duty? := by
  funext id
  unfold duty? task? elapse
  rw [SortedMap.get?_map, Option.map_map]
  exact congrFun (congrArg Option.map (funext (ring_duty now))) _

@[simp] theorem elapse_roster (now : Nat) : (e.elapse now).roster = e.roster := by
  show { e.roster with post := fun id => ((e.elapse now).duty? id).map Duty.post } = e.roster
  rw [elapse_duty?]
  rfl

/-! ## Operations that change it -/

@[simp] theorem finish_roster : (e.finish id).roster = e.roster.quit id := by
  have hp : (e.finish id).post? = (e.roster.quit id).post := by
    funext id'
    unfold post?
    rw [duty?_finish, apply_ite (Option.map Duty.post)]
    rfl
  show { e.frame.roster with post := (e.finish id).post? } = _
  rw [hp]
  rfl

@[simp] theorem spawn_roster : (e.spawn d).roster = e.roster.hire d.post := by
  have hp : (e.spawn d).post? = (e.roster.hire d.post).post := by
    funext id'
    unfold post?
    rw [duty?_spawn, apply_ite (Option.map Duty.post)]
    rfl
  show { e.frame.roster with nextTask := e.nextTask + 1, post := (e.spawn d).post? } = _
  rw [hp]
  rfl

@[simp] theorem withdraw_roster (ps : List Permit) :
    (e.withdraw ps).roster = e.roster.withdraw ps := by
  show { (e.withdraw ps).frame.roster with post := (e.withdraw ps).post? } = _
  rw [withdraw_frame, (nudged_withdraw e ps).post?]
  rfl

theorem startOutage_roster :
    Engine.roster { e.issue.2.spawn (.startProbe e.nextPermit) with phase := .outage e.nextPermit } =
      (e.roster.issue.hireAll [.prober e.roster.nextPermit]).enter (.outage e.roster.nextPermit) := by
  refine Eq.trans (b := Roster.enter (Engine.roster (Engine.spawn e.issue.2 _)) _) rfl ?_
  rw [spawn_roster]
  rfl

@[simp] theorem issue_roster : e.issue.2.roster = e.roster.issue := rfl

theorem startStandard_roster : e.startStandard.2.roster =
    e.roster.issue.hireAll (e.roster.settings.standardPosts e.roster.nextPermit) := by
  unfold startStandard EngineSettings.standardPosts
  show (if e.settings.updateInterval = 0 then _ else _ : Engine).roster =
    e.roster.issue.hireAll (if e.settings.updateInterval = 0 then _ else _)
  split
  · rfl
  · exact spawn_roster _ _

theorem startSoftware_roster : e.startSoftware.2.roster =
    e.roster.issue.hireAll (e.roster.settings.softwarePosts e.roster.nextPermit) := by
  unfold startSoftware EngineSettings.softwarePosts
  show (if e.settings.softwareDays ≤ 0 then _ else _ : Engine).roster =
    e.roster.issue.hireAll (if e.settings.softwareDays ≤ 0 then _ else _)
  split
  · rfl
  · exact spawn_roster _ _

theorem renewStandard_roster (run : Run) :
    Engine.roster { e.startStandard.2 with phase := .active { run with standard := e.nextPermit } } =
      (e.roster.issue.enter (.active { run with standard := e.roster.nextPermit })).hireAll
        (e.roster.settings.standardPosts e.roster.nextPermit) := by
  rw [← Roster.enter_hireAll, ← startStandard_roster]
  rfl

theorem renewSoftware_roster (run : Run) :
    Engine.roster { e.startSoftware.2 with phase := .active { run with software := e.nextPermit } } =
      (e.roster.issue.enter (.active { run with software := e.roster.nextPermit })).hireAll
        (e.roster.settings.softwarePosts e.roster.nextPermit) := by
  rw [← Roster.enter_hireAll, ← startSoftware_roster]
  rfl

/-- A run is started by issuing its permits and hiring its staff. -/
theorem startRun_roster : e.startRun.roster = e.roster.startRun [] := by
  let e₁ := e.issue.2.spawn (.take e.nextPermit)
  let e₂ := e₁.startStandard.2
  let e₃ := e₂.startSoftware.2
  have h₁ : e₁.roster = e.roster.issue.hireAll [.taker e.nextPermit] := spawn_roster _ _
  have h₂ : e₂.roster = e₁.roster.issue.hireAll (e.settings.standardPosts (e.nextPermit + 1)) :=
    startStandard_roster e₁
  have hs₂ : e₂.roster.settings = e.settings := by
    rw [h₂, Roster.hireAll_settings]
    rfl
  have hp₂ : e₂.roster.nextPermit = e.nextPermit + 2 := by
    rw [h₂, Roster.hireAll_nextPermit]
    rfl
  have h₃ : e₃.roster = e₂.roster.issue.hireAll (e.settings.softwarePosts (e.nextPermit + 2)) := by
    rw [← hs₂, ← hp₂]
    exact startSoftware_roster e₂
  have hs₃ : e₃.roster.settings = e.settings := by
    rw [h₃, Roster.hireAll_settings]
    exact hs₂
  have hrun : e.startRun.roster = (e₃.roster.hireAll
      [.poller e.nextPermit .thermostats e₃.roster.settings.heartbeatInterval,
        .poller e.nextPermit .modes e₃.roster.settings.heartbeatInterval]).enter
      (.active ⟨e.nextPermit, e.nextPermit + 1, e₂.roster.nextPermit⟩) := by
    refine Eq.trans (b := Roster.enter (Engine.roster (Engine.spawn (e₃.spawn _) _)) _) rfl ?_
    rw [spawn_roster, spawn_roster]
    rfl
  -- all permits can be issued first, and the phase can change before anyone is hired
  rw [hrun, hs₃, hp₂, h₃, h₂, h₁, Roster.issue_hireAll, Roster.issue_hireAll, Roster.issue_hireAll,
    Roster.enter_hireAll, Roster.enter_hireAll, Roster.enter_hireAll, Roster.enter_hireAll,
    ← Roster.hireAll_append, ← Roster.hireAll_append, ← Roster.hireAll_append]
  have hnil := congrArg Roster.permits e.roster.withdraw_nil
  unfold Roster.startRun Roster.reform
  rw [show (e.roster.permits.filter fun p => !([] : List Permit).contains p) = _ from hnil]
  rfl

@[simp] theorem stop_roster : e.stop.roster =
    e.roster.reform e.settings .dormant e.phase.permits 0 [] := by
  have hreform : e.roster.reform e.settings .dormant e.phase.permits 0 [] =
      (e.roster.withdraw e.phase.permits).enter .dormant := rfl
  rw [hreform]
  unfold stop
  dsimp only
  rw [replyAll_roster]
  show Roster.enter (Engine.roster _) .dormant = _
  congr 1
  cases e.phase with
  | dormant => exact (e.roster.withdraw_nil).symm
  | active run => exact withdraw_roster e _
  | outage p => exact withdraw_roster e _

/-! ## Calls of the host -/

variable {e id d}

theorem startRun_evolves (hr : e.roster.Orderly) :
    Roster.Evolves e.roster (e.roster.startRun e.phase.permits) :=
  .reform (Roster.Reform.whole hr rfl)

theorem stop_evolves (hr : e.roster.Orderly) : Roster.Evolves e.roster e.stop.roster := by
  rw [stop_roster]
  exact .reform (Roster.Reform.whole hr rfl)

theorem Phase.isActive_eq_false {phase : Phase} (h : ∀ run, phase ≠ .active run) :
    phase.isActive = false := by
  cases phase with
  | dormant | outage => rfl
  | active run => exact absurd rfl (h run)

theorem setUpdateInterval_evolves (hr : e.roster.Orderly) (interval : Nat) :
    Roster.Evolves e.roster (e.setUpdateInterval interval).roster := by
  unfold setUpdateInterval
  dsimp only
  split
  -- in a run the poll is replaced, otherwise only the settings change
  case h_1 run hphase =>
    refine .cast (renewStandard_roster _ run) ?_
    rw [withdraw_roster]
    exact .reform (Roster.Reform.standard hr hphase interval)
  case h_2 hphase => exact .settings hr (Phase.isActive_eq_false hphase) _ rfl rfl

theorem setSoftwareDays_evolves (hr : e.roster.Orderly) (days : Int) :
    Roster.Evolves e.roster (e.setSoftwareDays days).roster := by
  unfold setSoftwareDays
  dsimp only
  split
  case h_1 run hphase =>
    refine .cast (renewSoftware_roster _ run) ?_
    rw [withdraw_roster]
    exact .reform (Roster.Reform.software hr hphase days)
  case h_2 hphase => exact .settings hr (Phase.isActive_eq_false hphase) _ rfl rfl

theorem addListener_evolves (hr : e.roster.Orderly) (s : SystemId) (l : Listener) :
    Roster.Evolves e.roster (e.addListener s l).roster := by
  unfold addListener
  dsimp only
  split
  case h_1 hphase =>
    refine .cast (startRun_roster _) ?_
    have hstart := startRun_evolves hr
    rw [show e.phase = .dormant from hphase] at hstart
    exact hstart
  case h_2 => exact .refl _

theorem removeListener_evolves (hr : e.roster.Orderly) (s : SystemId) (l : Listener) :
    Roster.Evolves e.roster (e.removeListener s l).2.roster := by
  unfold removeListener
  dsimp only
  split
  · exact .refl _
  · dsimp only
    split
    · exact stop_evolves (e := Engine.log { e with table := _ } _) hr
    · exact .refl _

@[simp] theorem demandAll_roster (rs : List Request) : (e.demandAll rs).2.roster = e.roster := by
  unfold demandAll
  generalize true = all
  induction rs generalizing e all with
  | nil => rfl
  | cons r rs ih => exact (ih _).trans (inserted_roster e _)

/-- What a call of the host does to the roster. -/
theorem obey_evolves (hr : e.roster.Orderly) (c : Command) :
    Roster.Evolves e.roster (e.obey c).2.roster := by
  cases c with
  | addListener s l => exact addListener_evolves hr s l
  | removeListener s l => exact removeListener_evolves hr s l
  | lookup l => exact .cast (spawn_roster e _) (.call _)
  | setUpdateInterval seconds => exact setUpdateInterval_evolves hr _
  | setSoftwareDays days => exact setSoftwareDays_evolves hr days
  | shutdown => exact stop_evolves (e := Engine.log e _) hr
  | removeThermostat | removeTracked => exact .refl _
  | addTracked s p => exact .of_eq (logAll_roster _ _)
  | requestParameters s ps => exact .of_eq (demandAll_roster _)
  | requestSystem | requestStatus | requestAlarm | requestSoftware | requestMode | setParameters
  | setMode | setThermostat =>
    exact .of_eq (inserted_roster _ _)

/-! ## Tasks -/

/-- A task may end whose permit is withdrawn. -/
theorem quit_evolves {w : Post} (hw : e.post? id = some w) (hq : e.roster.MayQuit w) :
    Roster.Evolves e.roster (e.finish id).roster :=
  .cast (finish_roster e id) (.quit hw hq)

theorem not_allows_iff {p : Permit} : (!e.allows p) = true ↔ p ∉ e.permits := by
  unfold allows
  rw [Bool.not_eq_true', List.contains_eq_mem, decide_eq_false_iff_not]

theorem listen_roster {run : Permit} (hw : e.post? id = some (.taker run)) :
    (e.listen id run).roster = e.roster := by
  unfold listen
  split
  · exact proceed_roster (e := { e with signal := false }) (d := .take run) hw
  · exact park_roster (d := .take run) hw _

theorem take_evolves {run : Permit} (hw : e.post? id = some (.taker run)) :
    Roster.Evolves e.roster (e.take id run).roster := by
  unfold take
  split
  case isTrue h => exact quit_evolves hw (not_allows_iff.1 h)
  case isFalse =>
    split
    · exact .of_eq (listen_roster (e := { e with queue := _ }) hw)
    · exact .of_eq (proceed_roster (e := { e with queue := _ })
        (d := .exchange (.entry run _) .join) hw)

theorem pause_evolves {run : Permit} (hw : e.post? id = some (.taker run)) :
    Roster.Evolves e.roster (e.pause id run).roster := by
  unfold pause
  split
  case isTrue h => exact quit_evolves hw (not_allows_iff.1 h)
  case isFalse => exact .of_eq (sleep_roster (d := .take run) hw _)

theorem pause_evolves_of {e' : Engine} (h : e'.roster = e.roster) {run : Permit}
    (hw : e.post? id = some (.taker run)) : Roster.Evolves e.roster (e'.pause id run).roster :=
  h ▸ pause_evolves (post?_of_roster h hw)

theorem startPoll_evolves {permit : Permit} {poll : Poll} {period : Nat}
    (hw : e.post? id = some (.poller permit poll period)) (delay : Nat) :
    Roster.Evolves e.roster (e.startPoll id permit poll delay period).roster := by
  unfold startPoll
  split
  case isTrue h =>
    rw [Bool.or_eq_true, beq_iff_eq] at h
    exact quit_evolves hw (h.imp_left not_allows_iff.1)
  case isFalse => exact .of_eq (proceed_roster (d := .poll permit poll period _) hw)

theorem poll_evolves {permit : Permit} {poll : Poll} {period : Nat}
    (hw : e.post? id = some (.poller permit poll period)) (due : Nat) :
    Roster.Evolves e.roster (e.poll id permit poll period due).roster := by
  unfold Engine.poll
  split
  case isTrue h => exact quit_evolves hw (.inl (not_allows_iff.1 h))
  case isFalse =>
    split
    · exact .of_eq (sleep_roster (d := .poll permit poll period due) hw due)
    · dsimp only
      have hroster := enqueueAll_roster (e.record (.polled permit poll (poll.requests e.table)))
        (poll.requests e.table)
      refine .of_eq ((sleep_roster (d := .poll permit poll period _) ?_ _).trans hroster)
      exact post?_of_roster hroster hw

theorem startProbe_evolves {outage : Permit} (hw : e.post? id = some (.prober outage)) :
    Roster.Evolves e.roster (e.startProbe id outage).roster := by
  unfold startProbe
  split
  case isTrue h =>
    rw [Bool.or_eq_true, beq_iff_eq] at h
    exact quit_evolves hw (h.imp_left not_allows_iff.1)
  case isFalse => exact .of_eq (proceed_roster (d := .probe outage _) hw)

theorem probe_evolves {outage : Permit} (hw : e.post? id = some (.prober outage)) (due : Nat) :
    Roster.Evolves e.roster (e.probe id outage due).roster := by
  unfold probe
  split
  case isTrue h => exact quit_evolves hw (.inl (not_allows_iff.1 h))
  case isFalse =>
    split
    · exact .of_eq (sleep_roster (d := .probe outage due) hw due)
    · exact .of_eq (proceed_roster (d := .exchange (.probe outage _) .join) hw)

@[simp] theorem replay_roster (entry : Entry) : (e.replay entry).roster = e.roster := by
  unfold replay
  dsimp only
  split <;> exact inserted_roster e _

@[simp] theorem refuseWaiting_roster (error : RequestError) :
    (e.refuseWaiting error).roster = e.roster := replyAll_roster _ _ _

@[simp] theorem observeOutage_roster (error : RequestError) :
    (e.observeOutage error).roster = e.roster := by
  unfold observeOutage
  split <;> rfl

@[simp] theorem observeRecovery_roster : e.observeRecovery.roster = e.roster := by
  unfold observeRecovery
  split <;> rfl

/-- A run that does not go on can end in no outage. -/
theorem enterOutage_of_withdrawn {root : Permit} (h : root ∉ e.permits) (failed : Entry)
    (error : RequestError) : e.enterOutage root failed error = e := by
  unfold enterOutage
  split
  · exact if_pos (not_allows_iff.2 h)
  · rfl

/-- The run ends, and one task probes. -/
theorem enterOutage_roster {root : Permit} {run : Run} (hphase : e.phase = .active run)
    (hin : root ∈ e.permits) (failed : Entry) (error : RequestError) :
    (e.enterOutage root failed error).roster = e.roster.reform e.settings (.outage e.nextPermit)
      run.permits 1 (Phase.staff e.settings (.outage e.nextPermit)) := by
  unfold enterOutage
  rw [hphase]
  dsimp only
  rw [if_neg (fun h => not_allows_iff.1 h hin)]
  refine (observeOutage_roster _).trans ((log_roster _ _).trans ((startOutage_roster _).trans ?_))
  have hreplay : (if failed.caller.isNone then (e.withdraw run.permits).replay failed
      else e.withdraw run.permits).roster = e.roster.withdraw run.permits := by
    split
    · exact (replay_roster _).trans (withdraw_roster e _)
    · exact withdraw_roster e _
  rw [refuseWaiting_roster, hreplay, Roster.enter_hireAll]
  rfl

/-- An outage that is over cannot end again. -/
theorem resume_of_withdrawn {probe : Permit} (h : probe ∉ e.permits) : e.resume probe = e := by
  unfold resume
  split
  · exact if_pos (not_allows_iff.2 h)
  · rfl

/-- The next run starts, and no one probes any more. -/
theorem resume_roster {probe outage : Permit} (hphase : e.phase = .outage outage)
    (hin : probe ∈ e.permits) : (e.resume probe).roster = e.roster.startRun [probe] := by
  unfold resume
  rw [hphase]
  dsimp only
  rw [if_neg (fun h => not_allows_iff.1 h hin)]
  refine observeRecovery_roster.trans ((log_roster _ _).trans ((startRun_roster _).trans ?_))
  rw [withdraw_roster, Roster.startRun_withdraw]

/-- Whoever took the request that failed has no permit any more. -/
theorem enterOutage_evolves (hr : e.roster.Orderly) {root : Permit}
    (hw : e.post? id = some (.taker root)) (failed : Entry) (error : RequestError) :
    Roster.Evolves e.roster (e.enterOutage root failed error).roster ∧
      root ∉ (e.enterOutage root failed error).permits := by
  by_cases hin : root ∈ e.permits
  · obtain ⟨run, hphase, rfl⟩ := hr.taker hw hin
    have heq := enterOutage_roster hphase hin failed error
    have hwhole : e.roster.Reform e.settings (.outage e.nextPermit) e.roster.phase.permits 1
        (Phase.staff e.settings (.outage e.nextPermit)) := Roster.Reform.whole hr rfl
    rw [show e.roster.phase = .active run from hphase] at hwhole
    -- all permits of the run are withdrawn, and the new one is the permit of the outage
    refine ⟨.cast heq (.reform hwhole), fun hout => ?_⟩
    have hout' : run.root ∈ (e.enterOutage run.root failed error).roster.permits := hout
    rw [heq, Roster.mem_reform_permits] at hout'
    rcases hout' with ⟨-, hstay⟩ | ⟨hge, -⟩
    · exact hstay List.mem_cons_self
    · exact Nat.not_le.2 (hr.issued _ hin) hge
  · rw [enterOutage_of_withdrawn hin]
    exact ⟨.refl _, hin⟩

/-- Whoever probed has no permit any more. -/
theorem resume_evolves (hr : e.roster.Orderly) {probe : Permit}
    (hw : e.post? id = some (.prober probe)) :
    Roster.Evolves e.roster (e.resume probe).roster ∧ probe ∉ (e.resume probe).permits := by
  by_cases hin : probe ∈ e.permits
  · have hphase : e.phase = .outage probe := hr.prober hw hin
    have heq := resume_roster hphase hin
    have hstart := startRun_evolves hr
    rw [hphase] at hstart
    -- the permit of the outage is withdrawn, and the new ones are those of the run
    refine ⟨.cast heq hstart, fun hout => ?_⟩
    have hout' : probe ∈ (e.resume probe).roster.permits := hout
    rw [heq, Roster.startRun, Roster.mem_reform_permits] at hout'
    rcases hout' with ⟨-, hstay⟩ | ⟨hge, -⟩
    · exact hstay List.mem_cons_self
    · exact Nat.not_le.2 (hr.issued _ hin) hge
  · rw [resume_of_withdrawn hin]
    exact ⟨.refl _, hin⟩

theorem join_roster {p : Purpose} (hw : e.post? id = some p.post) :
    (e.join id p).roster = e.roster := by
  unfold join
  dsimp only
  split
  · exact proceed_roster (d := .exchange p (.send false)) hw
  · exact park_roster (d := .exchange p (.send false)) hw _

/-- Leaving the line wakes the next task, which keeps its post. -/
theorem leave_roster {p : Purpose} (hw : e.post? id = some p.post)
    (r : Except RequestError String) : (e.leave id p r).roster = e.roster := by
  unfold leave
  dsimp only
  split
  · exact proceed_roster (d := .conclude p r) hw
  · exact proceed_roster_of (e := e) (wake_roster _ _) hw

theorem send_roster {p : Purpose} (hw : e.post? id = some p.post) (again : Bool) :
    (e.send id p again).roster = e.roster := by
  unfold send
  split
  case h_1 f script _ => exact leave_roster (e := { e with script }) hw (.error f)
  case h_2 token script _ =>
    exact sleep_roster (e := Engine.record { e with script := _ } _)
      (d := .exchange p (.receive again _)) hw _

theorem receive_roster {p : Purpose} (hw : e.post? id = some p.post) (again : Bool) (a : Arrival) :
    (e.receive id p again a).roster = e.roster := by
  unfold receive
  dsimp only
  split
  · exact leave_roster (e := e.record _) hw _
  · split
    · exact proceed_roster (d := .exchange p (.send true)) hw
    · split
      · exact leave_roster (e := e.record _) hw _
      · split
        · exact leave_roster (e := (e.record _).log _) hw _
        · exact leave_roster (e := e.record _) hw _

/-- The result of a request from the queue ends the run, or a pause follows. -/
theorem concludeEntry_evolves (hr : e.roster.Orderly) {run : Permit}
    (hw : e.post? id = some (.taker run)) (entry : Entry) (r : Except RequestError String) :
    Roster.Evolves e.roster (e.concludeEntry id run entry r).roster := by
  unfold concludeEntry
  split
  · exact pause_evolves_of (deliver_roster e _ _) hw
  · exact pause_evolves_of (reply_roster e _ _) hw
  -- after an outage the task has no permit to go on, so it may end
  · split
    · obtain ⟨hevolves, hout⟩ := enterOutage_evolves hr hw entry _
      exact .cast (finish_roster _ _) (hevolves.quit_after hr hw hout)
    · exact pause_evolves_of (log_roster e _) hw
  case h_4 f caller _ =>
    have hreply := reply_roster e caller (.error f)
    split
    · obtain ⟨hevolves, hout⟩ := enterOutage_evolves (hreply ▸ hr) (post?_of_roster hreply hw)
        entry f
      rw [hreply] at hevolves
      exact .cast (finish_roster _ _) (hevolves.quit_after hr hw hout)
    · exact pause_evolves_of hreply hw

theorem concludeProbe_evolves (hr : e.roster.Orderly) {outage : Permit}
    (hw : e.post? id = some (.prober outage)) (next : Nat) (r : Except RequestError String) :
    Roster.Evolves e.roster (e.concludeProbe id outage next r).roster := by
  unfold concludeProbe
  split
  · exact .of_eq (proceed_roster (d := .probe outage next) hw)
  · have hmerge := mergeListing_roster e r
    obtain ⟨hevolves, hout⟩ := resume_evolves (hmerge ▸ hr) (post?_of_roster hmerge hw)
    rw [hmerge] at hevolves
    exact .cast (finish_roster _ _) (hevolves.quit_after hr hw (.inl hout))

theorem tell_evolves (hw : e.post? id = some .caller) (r : Except RequestError Finding) :
    Roster.Evolves e.roster (e.tell id r).roster :=
  quit_evolves (e := e.record _) hw trivial

theorem consult_evolves (hw : e.post? id = some .caller) (l : Lookup) :
    Roster.Evolves e.roster (e.consult id l).roster := by
  unfold consult
  split
  · exact tell_evolves hw _
  · exact .of_eq (proceed_roster (d := .route l) hw)

theorem route_roster (hw : e.post? id = some .caller) (l : Lookup) :
    (e.route id l).roster = e.roster := by
  unfold route
  split
  · exact proceed_roster (d := .submit l) hw
  · exact proceed_roster (d := .exchange (.lookup l) .join) hw

theorem submit_roster (hw : e.post? id = some .caller) (l : Lookup) :
    (e.submit id l).roster = e.roster := by
  unfold submit
  dsimp only
  have hroster := inserted_roster e (e.queue.push l.request (some id) .head)
  have hpost := post?_of_roster hroster hw
  split
  · exact (park_roster (d := .await l) hpost _).trans hroster
  · exact (proceed_roster (d := .conclude (.lookup l) _) hpost).trans hroster

theorem concludeLookup_evolves (hw : e.post? id = some .caller) (l : Lookup)
    (r : Except RequestError String) : Roster.Evolves e.roster (e.concludeLookup id l r).roster := by
  unfold concludeLookup
  split
  · exact tell_evolves hw _
  · split
    · exact tell_evolves hw _
    · exact quit_evolves (e := Engine.record { e with table := _ } _) hw trivial

/-- What a task does to the roster. -/
theorem perform_evolves (hr : e.roster.Orderly) (hw : e.post? id = some d.post) :
    Roster.Evolves e.roster (e.perform id d).roster := by
  unfold perform
  split
  · exact take_evolves hw
  · exact startPoll_evolves hw _
  · exact poll_evolves hw _
  · exact startProbe_evolves hw
  · exact probe_evolves hw _
  · exact consult_evolves hw _
  · exact .of_eq (route_roster hw _)
  · exact .of_eq (submit_roster hw _)
  · exact .of_eq (park_roster (d := .await _) hw _)
  · exact .of_eq (join_roster hw)
  · exact .of_eq (send_roster hw _)
  · exact .of_eq (receive_roster hw _ _)
  · exact concludeEntry_evolves hr hw _ _
  · exact concludeProbe_evolves hr hw _ _
  · exact concludeLookup_evolves hw _ _

theorem act_evolves (hr : e.roster.Orderly) (id : TaskId) :
    Roster.Evolves e.roster (e.act id).roster := by
  unfold act
  split
  case h_1 duty turn ht =>
    have htask : e.task? id = some ⟨duty, .ready turn⟩ := ht
    have hw : e.post? id = some duty.post := by
      unfold post? duty?
      rw [htask]
      rfl
    exact perform_evolves hr hw
  case h_2 => exact .refl _

/-! ## Runs -/

theorem move_evolves (hr : e.roster.Orderly) (m : Move) :
    Roster.Evolves e.roster (e.move m).roster := by
  cases m with
  | obey c => exact obey_evolves hr c
  | act id => exact act_evolves hr id
  | elapse now => exact .of_eq (elapse_roster e now)
  | pass now => exact .refl _
  | plan script => exact .refl _

theorem follow_evolves (hr : e.roster.Orderly) (ms : List Move) :
    Roster.Evolves e.roster (e.follow ms).roster := by
  induction ms generalizing e with
  | nil => exact .refl _
  | cons m ms ih =>
    have hm := move_evolves hr m
    exact hm.trans (ih (hm.orderly hr))

/-- What each move keeps of an orderly engine holds after every run. -/
theorem orderly_induction {P : Engine → Prop}
    (hm : ∀ e m, e.roster.Orderly → P e → P (e.move m)) (h : P e) (hr : e.roster.Orderly)
    (ms : List Move) : P (e.follow ms) := by
  have hboth : (e.follow ms).roster.Orderly ∧ P (e.follow ms) := by
    refine follow_induction (P := fun e => e.roster.Orderly ∧ P e) (fun e m h => ?_) ⟨hr, h⟩ ms
    exact ⟨(move_evolves h.1 m).orderly h.1, hm e m h.1 h.2⟩
  exact hboth.2

section Start

variable (settings : EngineSettings) (service : Service) (observer : Option Observer)
  (script : Script)

/-- No task is there at the start. -/
theorem duty?_start (id : TaskId) : (start settings service observer script).duty? id = none := rfl

theorem start_orderly : (start settings service observer script).roster.Orderly where
  permits _ := Iff.rfl
  distinct := List.nodup_nil
  issued _ hp := absurd hp List.not_mem_nil
  known _ _ := rfl
  sworn hw := by cases hw
  only hw := by cases hw
  once hw := by cases hw

theorem start_manned : (start settings service observer script).roster.Manned :=
  fun _ hw _ => absurd hw List.not_mem_nil

/-- After every run the tasks at work are the ones that the phase asks for, each once. -/
theorem follow_orderly (ms : List Move) :
    ((start settings service observer script).follow ms).roster.Orderly :=
  (follow_evolves (start_orderly ..) ms).orderly (start_orderly ..)

theorem follow_manned (ms : List Move) :
    ((start settings service observer script).follow ms).roster.Manned :=
  (follow_evolves (start_orderly ..) ms).manned (start_orderly ..)
    (start_manned settings service observer script)

end Start

end Engine

end HeatWatch
