import HeatWatch.Proofs.Engine.Frame
import HeatWatch.Proofs.Queue.Effect

/-!
# What happens to other tasks

While one task acts, or the host makes a call, the other tasks are nudged at most, and some may
begin. Main statements:

* `Grows`: what operations leave of the tasks that are there, and which tasks may begin;
* `Changes`: the few ways in which operations change the tasks, the permits and the queue;
* `Changes.grows`: so the tasks are nudged at most;
* `obey_changes`, `enterOutage_changes`, `resume_changes`: calls of the host and changes of the phase
  are made up of them.
-/

namespace HeatWatch

/-- The delay before the first of the polls of a task: what is submitted again was submitted just
before, anything else is asked for at once. -/
def Poll.delay (period : Nat) : Poll → Nat
  | .standard | .software => 0
  | .thermostats | .modes => period

/-- A point at which tasks begin that serve no caller. -/
def Duty.begins : Duty → Bool
  | .take _ | .startProbe _ => true
  | .startPoll _ p delay period => delay = p.delay period
  | _ => false

/-- What becomes of the duty of a task that others act upon: a caller may be told its result. -/
inductive Duty.Passes : Duty → Duty → Prop
  | refl (d : Duty) : Passes d d
  | told (l : Lookup) (r : Except RequestError String) :
      Passes (.await l) (.conclude (.lookup l) r)

/-- A task that has begun and did nothing yet. -/
def Task.Fresh (t : Task) : Prop := t.duty.begins = true ∧ ∃ n, t.wait = .ready n

theorem Task.Nudge.fresh {t t' : Task} (h : t.Nudge t') (ht : t.Fresh) : t'.Fresh := by
  cases h with
  | refl => exact ht
  | woken d w n => exact ⟨ht.1, n, rfl⟩
  | told l w n r => cases ht.1

theorem Task.Nudge.passes {t t' : Task} (h : t.Nudge t') : t.duty.Passes t'.duty := by
  cases h with
  | refl | woken => exact .refl _
  | told l w n r => exact .told l r

namespace Engine

/-- Numbers that are not given yet belong to no task. -/
def Known (e : Engine) : Prop := ∀ id, e.nextTask ≤ id → e.duty? id = none

/-- The tasks are nudged at most, and others may begin. -/
structure Grows (e e' : Engine) : Prop where
  nextTask : e.nextTask ≤ e'.nextTask
  old : ∀ {id}, id < e.nextTask → Option.Rel Task.Nudge (e.task? id) (e'.task? id)
  known : e.Known → e'.Known
  new : e.Known → ∀ {id t}, e.nextTask ≤ id → e'.task? id = some t → t.Fresh

variable {e e' e'' : Engine}

theorem Nudged.duty?_eq_none (h : Nudged e e') {id : TaskId} (hd : e.duty? id = none) :
    e'.duty? id = none := by
  have hid := h id
  unfold duty? at hd ⊢
  rw [Option.map_eq_none_iff] at hd ⊢
  rw [hd] at hid
  generalize e'.task? id = o at hid ⊢
  cases hid
  rfl

theorem Grows.of_nudged (hf : e'.nextTask = e.nextTask) (hn : Nudged e e') : Grows e e' where
  nextTask := Nat.le_of_eq hf.symm
  old _ := hn _
  known h id hid := hn.duty?_eq_none (h id (hf ▸ hid))
  new h id t hid ht := by
    cases (hn.duty?_eq_none (h id hid)).symm.trans (duty?_of_task? ht)

theorem nextTask_of_frame (hf : e'.frame = e.frame) : e'.nextTask = e.nextTask := by
  show e'.frame.nextTask = e.frame.nextTask
  rw [hf]

theorem Grows.of_frame (hf : e'.frame = e.frame) (hn : Nudged e e') : Grows e e' :=
  .of_nudged (nextTask_of_frame hf) hn

theorem Grows.refl (e : Engine) : Grows e e := .of_nudged rfl (.refl e)

theorem Grows.of_tasks (hf : e'.nextTask = e.nextTask) (h : e'.tasks = e.tasks) : Grows e e' :=
  .of_nudged hf (.of_tasks h)

theorem duty?_passes {id : TaskId} (h : Option.Rel Task.Nudge (e.task? id) (e'.task? id)) :
    Option.Rel Duty.Passes (e.duty? id) (e'.duty? id) := by
  unfold duty?
  generalize e.task? id = o at h ⊢
  generalize e'.task? id = o' at h ⊢
  cases h with
  | none => exact .none
  | some hn => exact .some hn.passes

theorem Grows.trans (h : Grows e e') (h' : Grows e' e'') : Grows e e'' where
  nextTask := Nat.le_trans h.nextTask h'.nextTask
  old {id} hid := by
    have h₁ := h.old hid
    have h₂ := h'.old (Nat.lt_of_lt_of_le hid h.nextTask)
    generalize e.task? id = o at h₁ ⊢
    generalize e'.task? id = o' at h₁ h₂
    generalize e''.task? id = o'' at h₂ ⊢
    cases h₁ with
    | none =>
      cases h₂
      exact .none
    | some hn =>
      cases h₂ with
      | some hn' => exact .some (hn.trans hn')
  known hk := h'.known (h.known hk)
  new hk id t hid ht := by
    rcases Nat.lt_or_ge id e'.nextTask with hlt | hge
    · -- the task began before the second change, which nudges it at most
      have hp := h'.old hlt
      rw [ht] at hp
      generalize ht' : e'.task? id = o' at hp
      cases hp with
      | some hn => exact hn.fresh (h.new hk hid ht')
    · exact h'.new (h.known hk) hge ht

/-- Who is ready is not woken, and is told nothing unless it waits for that. -/
theorem ready?_of_nudge {id : TaskId} {d : Duty}
    (h : Option.Rel Task.Nudge (e.task? id) (e'.task? id)) (hready : e.ready? id = some d)
    (hd : ∀ l, d ≠ .await l) : e'.ready? id = some d := by
  obtain ⟨n, ht⟩ := ready?_eq_some.1 hready
  rw [ht] at h
  generalize ht' : e'.task? id = o at h
  cases h with
  | some hn =>
    cases hn with
    | refl => exact ready?_eq_some.2 ⟨n, ht'⟩
    | woken _ _ k hw => exact absurd rfl (hw n)
    | told l => exact absurd rfl (hd l)

theorem Grows.ready? (h : Grows e e') {id : TaskId} {d : Duty} (hlt : id < e.nextTask)
    (hready : e.ready? id = some d) (hd : ∀ l, d ≠ .await l) : e'.ready? id = some d :=
  ready?_of_nudge (h.old hlt) hready hd

theorem Grows.enter (h : Grows e e') (phase : Phase) : Grows e { e' with phase } :=
  h.trans (.of_tasks rfl rfl)

theorem spawn_grows (e : Engine) {d : Duty} (hd : d.begins = true) : Grows e (e.spawn d) where
  nextTask := Nat.le_succ _
  old {id} hid := by
    rw [task?_spawn, if_neg (Nat.ne_of_gt hid)]
    exact Nudged.refl e id
  known hk id hid := by
    rw [duty?_spawn, if_neg (Nat.ne_of_lt hid)]
    exact hk id (Nat.le_of_succ_le hid)
  new hk id t hid ht := by
    rw [task?_spawn] at ht
    split at ht
    · exact Option.some.inj ht ▸ ⟨hd, e.turn, rfl⟩
    · cases (hk id hid).symm.trans (duty?_of_task? ht)

theorem logAll_nextTask (e : Engine) (ls : List LogLine) : (e.logAll ls).nextTask = e.nextTask := by
  induction ls generalizing e with
  | nil => rfl
  | cons l ls ih => exact ih (e.log l)

theorem inserted_grows (e : Engine) (i : Queue.Insertion) : Grows e (e.inserted i) := by
  have hqueue : Nudged e { e with queue := i.queue } := .of_tasks rfl
  have hlog : Grows e (logAll { e with queue := i.queue } i.logs) :=
    .of_nudged (logAll_nextTask _ _) (hqueue.trans (nudged_logAll _ _))
  unfold inserted
  split
  · exact hlog.trans (.of_frame (wakeTaker_frame _) (nudged_wakeTaker _))
  · exact hlog

/-! ## What else changes -/

/-- The tasks, the permits, the settings and the signal. -/
structure Crew where
  tasks : SortedMap TaskId Task
  nextTask : TaskId
  permits : List Permit
  nextPermit : Permit
  settings : EngineSettings
  signal : Bool

def crew (e : Engine) : Crew :=
  ⟨e.tasks, e.nextTask, e.permits, e.nextPermit, e.settings, e.signal⟩

/-- What may happen besides the step of the task that acts. The tasks that are there change in three
ways only: whoever waits under a permit goes on when it is withdrawn, whoever waits for an entry goes
on when one is put in, and a caller that waits is told its result, if anyone is told anything. -/
inductive Changes (tells : Bool) : Engine → Engine → Prop
  /-- Nothing is put into the queue, and the crew stays as it is. -/
  | same {e e' : Engine} (hcrew : e'.crew = e.crew)
      (hqueue : e.queue.entries = [] → e'.queue.entries = []) : Changes tells e e'
  | trans {e e' e'' : Engine} : Changes tells e e' → Changes tells e' e'' → Changes tells e e''
  | spawn (e : Engine) {d : Duty} (hd : d.begins = true) : Changes tells e (e.spawn d)
  | issue (e : Engine) : Changes tells e e.issue.2
  | withdraw (e : Engine) (ps : List Permit) : Changes tells e (e.withdraw ps)
  | insert (e : Engine) {i : Queue.Insertion} (h : i.accepted = false → i.queue = e.queue) :
      Changes tells e (e.inserted i)
  | reply (ht : tells = true) (e : Engine) (id : TaskId) (r : Except RequestError String) :
      Changes tells e (e.reply id r)

variable {tells : Bool}

theorem Changes.refl (e : Engine) : Changes tells e e := .same rfl id

theorem Changes.enter (h : Changes tells e e') (phase : Phase) : Changes tells e { e' with phase } :=
  h.trans (.same rfl id)

theorem withdraw_grows (e : Engine) (ps : List Permit) : Grows e (e.withdraw ps) := by
  refine .of_nudged ?_ (nudged_withdraw e ps)
  show (e.withdraw ps).frame.nextTask = e.frame.nextTask
  rw [withdraw_frame]

/-- The tasks are nudged at most, and others may begin. -/
theorem Changes.grows (h : Changes tells e e') : Grows e e' := by
  induction h with
  | same hcrew => exact .of_tasks (congrArg Crew.nextTask hcrew) (congrArg Crew.tasks hcrew)
  | trans _ _ ih ih' => exact ih.trans ih'
  | spawn e hd => exact spawn_grows e hd
  | issue => exact .of_tasks rfl rfl
  | withdraw e ps => exact withdraw_grows e ps
  | reply _ e id r => exact .of_frame (e.reply_frame id r) (e.nudged_reply id r)
  | insert e => exact inserted_grows e _

theorem settings_of_frame (hf : e'.frame = e.frame) : e'.settings = e.settings := by
  show e'.frame.settings = e.frame.settings
  rw [hf]

theorem logAll_tasks (e : Engine) (ls : List LogLine) : (e.logAll ls).tasks = e.tasks := by
  induction ls generalizing e with
  | nil => rfl
  | cons l ls ih => exact ih (e.log l)

theorem logAll_settings (e : Engine) (ls : List LogLine) : (e.logAll ls).settings = e.settings := by
  induction ls generalizing e with
  | nil => rfl
  | cons l ls ih => exact ih (e.log l)

theorem Changes.settings (h : Changes tells e e') : e'.settings = e.settings := by
  induction h with
  | same hcrew => exact congrArg Crew.settings hcrew
  | trans _ _ ih ih' => exact ih'.trans ih
  | spawn | issue => rfl
  | withdraw e ps =>
    show (e.withdraw ps).frame.settings = e.frame.settings
    rw [withdraw_frame]
  | reply _ e id r => exact settings_of_frame (e.reply_frame id r)
  | @insert e i =>
    show (e.inserted i).frame.settings = e.frame.settings
    rw [inserted_frame, logAll_settings]

/-! ## Operations -/

/-- A request that is put in leaves the queue as it is if it is refused. -/
theorem push_changes (e : Engine) (r : Request) (caller : Option Nat) (p : Position) :
    Changes tells e (e.inserted (e.queue.push r caller p)) := by
  refine .insert e fun h => Queue.push_of_full (fun hs => ?_) r caller p
  cases h.symm.trans ((Queue.push_accepted ..).2 hs)

variable (e)

theorem record_changes (h : Happening) : Changes tells e (e.record h) := .same rfl id

theorem log_changes (l : LogLine) : Changes tells e (e.log l) := .same rfl id

theorem replyAll_changes (ids : List TaskId) (r : Except RequestError String) :
    Changes true e (e.replyAll ids r) := by
  unfold replyAll
  induction ids generalizing e with
  | nil => exact .refl e
  | cons id ids ih => exact (Changes.reply rfl e id r).trans (ih _)

theorem logAll_changes (ls : List LogLine) : Changes tells e (e.logAll ls) := by
  induction ls generalizing e with
  | nil => exact .refl e
  | cons l ls ih => exact (log_changes e l).trans (ih _)

theorem enqueueAll_changes (rs : List Request) : Changes tells e (e.enqueueAll rs) := by
  unfold enqueueAll
  induction rs generalizing e with
  | nil => exact .refl e
  | cons r rs ih => exact (push_changes e r none .tail).trans (ih _)

theorem noticeAll_changes (ns : List Notice) : Changes tells e (ns.foldl notice e) := by
  induction ns generalizing e with
  | nil => exact .refl e
  | cons n ns ih => cases n <;> exact (record_changes e _).trans (ih _)

theorem deliver_changes (r : Request) (body : String) : Changes tells e (e.deliver r body) := by
  unfold deliver
  dsimp only
  refine Changes.trans ?_ (noticeAll_changes _ _)
  exact .same rfl id

theorem mergeListing_changes (r : Except RequestError String) : Changes tells e (e.mergeListing r) := by
  unfold mergeListing
  split
  · split
    · exact .same rfl id
    · exact .refl e
  · exact .refl e

/-! ## Phases -/

theorem startStandard_changes : Changes tells e e.startStandard.2 := by
  unfold startStandard
  dsimp only
  split
  · exact (Changes.issue e).trans (log_changes _ _)
  · exact (Changes.issue e).trans (.spawn _ rfl)

theorem startSoftware_changes : Changes tells e e.startSoftware.2 := by
  unfold startSoftware
  dsimp only
  split
  · exact (Changes.issue e).trans (log_changes _ _)
  · exact (Changes.issue e).trans (.spawn _ rfl)

/-- The polls that submit something again begin after a period. -/
theorem startPoll_begins {permit : Permit} {p : Poll} {delay period : Nat}
    (h : delay = p.delay period) : (Duty.startPoll permit p delay period).begins = true :=
  decide_eq_true h

theorem startRun_changes : Changes tells e e.startRun := by
  have hbeats : ∀ (x : Engine) (permit : Permit) (h : Nat),
      Changes tells x ((x.spawn (.startPoll permit .thermostats h h)).spawn (.startPoll permit .modes h h)) :=
    fun x permit h => (Changes.spawn x (startPoll_begins rfl)).trans (.spawn _ (startPoll_begins rfl))
  unfold startRun
  have hroot : Changes tells e (e.issue.2.spawn (.take e.nextPermit)) :=
    (Changes.issue e).trans (.spawn _ rfl)
  have hpolls := hroot.trans ((startStandard_changes _).trans (startSoftware_changes _))
  exact (hpolls.trans (hbeats _ _ _)).enter _

theorem stop_changes : Changes true e e.stop := by
  have hclear : ∀ x : Engine, Changes true x { x with phase := .dormant, queue := x.queue.clear } :=
    fun x => .same rfl fun _ => x.queue.clear_entries
  unfold stop
  dsimp only
  refine Changes.trans ?_ (replyAll_changes _ _ _)
  split
  · exact hclear e
  · exact (Changes.withdraw e _).trans (hclear _)
  · exact (Changes.withdraw e _).trans (hclear _)

theorem observeOutage_changes (error : RequestError) : Changes tells e (e.observeOutage error) := by
  unfold observeOutage
  split <;> exact .same rfl id

theorem observeRecovery_changes : Changes tells e e.observeRecovery := by
  unfold observeRecovery
  split <;> exact .same rfl id

theorem replay_changes (entry : Entry) : Changes tells e (e.replay entry) := by
  have hinsert : Changes tells e (e.inserted (e.queue.replay entry)) := by
    refine .insert e fun h => Queue.replay_of_full (fun hs => ?_) entry
    cases h.symm.trans ((Queue.replay_accepted ..).2 hs)
  unfold replay
  dsimp only
  split
  · exact hinsert
  · exact hinsert.trans (log_changes _ _)

theorem refuseWaiting_changes (error : RequestError) : Changes true e (e.refuseWaiting error) := by
  have hwaiting : Changes true e { e with queue := e.queue.takeWaiting.2 } := by
    refine .same rfl fun h => ?_
    show e.queue.takeWaiting.2.entries = []
    rw [Queue.takeWaiting_entries, h]
    rfl
  exact hwaiting.trans (replyAll_changes _ _ _)

theorem enterOutage_changes (root : Permit) (failed : Entry) (error : RequestError) :
    Changes true e (e.enterOutage root failed error) := by
  unfold enterOutage
  split
  case h_1 run _ =>
    split
    · exact .refl e
    · dsimp only
      have hreplay : Changes true e (if failed.caller.isNone then (e.withdraw run.permits).replay failed
          else e.withdraw run.permits) := by
        split
        · exact (Changes.withdraw e _).trans (replay_changes _ failed)
        · exact .withdraw e _
      have hrefuse := hreplay.trans (refuseWaiting_changes _ error)
      have hprobe : ∀ x : Engine, Changes true x (x.issue.2.spawn (.startProbe x.nextPermit)) :=
        fun x => (Changes.issue x).trans (.spawn _ rfl)
      refine Changes.trans ?_ (observeOutage_changes _ error)
      exact (hrefuse.trans (hprobe _)).trans (.same rfl id)
  case h_2 => exact .refl e

theorem resume_changes (probe : Permit) : Changes tells e (e.resume probe) := by
  unfold resume
  split
  · split
    · exact .refl e
    · exact ((Changes.withdraw e _).trans (startRun_changes _)).trans
        ((log_changes _ _).trans (observeRecovery_changes _))
  · exact .refl e

/-! ## Calls of the host -/

end Engine

/-- The settings after a call of the host. -/
def Command.sets (s : EngineSettings) : Command → EngineSettings
  | .setUpdateInterval seconds => { s with updateInterval := seconds * second }
  | .setSoftwareDays days => { s with softwareDays := days }
  | _ => s

/-- A call of the host may tell callers a result: it may end everything. -/
def Command.tells : Command → Bool
  | .removeListener .. | .shutdown => true
  | _ => false

namespace Engine

variable {tells : Bool} (e : Engine)

theorem setUpdateInterval_changes (interval : Nat) :
    Changes tells { e with settings := { e.settings with updateInterval := interval } }
      (e.setUpdateInterval interval) := by
  have hrenew : ∀ (x : Engine) (ps : List Permit) (phase : Phase),
      Changes tells x { (x.withdraw ps).startStandard.2 with phase } := fun x ps phase =>
    ((Changes.withdraw x ps).trans (startStandard_changes _)).trans (.same rfl id)
  unfold setUpdateInterval
  dsimp only
  split
  · exact (log_changes _ _).trans (hrenew _ _ _)
  · exact log_changes _ _

theorem setSoftwareDays_changes (days : Int) :
    Changes tells { e with settings := { e.settings with softwareDays := days } }
      (e.setSoftwareDays days) := by
  have hrenew : ∀ (x : Engine) (ps : List Permit) (phase : Phase),
      Changes tells x { (x.withdraw ps).startSoftware.2 with phase } := fun x ps phase =>
    ((Changes.withdraw x ps).trans (startSoftware_changes _)).trans (.same rfl id)
  unfold setSoftwareDays
  dsimp only
  split
  · exact (log_changes _ _).trans (hrenew _ _ _)
  · exact log_changes _ _

theorem addListener_changes (s : SystemId) (l : Listener) : Changes tells e (e.addListener s l) := by
  unfold addListener
  dsimp only
  split
  · refine Changes.trans ?_ (startRun_changes _)
    exact .same rfl id
  · exact .same rfl id

theorem removeListener_changes (s : SystemId) (l : Listener) :
    Changes true e (e.removeListener s l).2 := by
  unfold removeListener
  dsimp only
  split
  · exact .same rfl id
  · dsimp only
    split
    · refine Changes.trans (Changes.trans ?_ (stop_changes _)) (log_changes _ _)
      exact .same rfl id
    · exact .same rfl id

theorem demandAll_changes (rs : List Request) : Changes tells e (e.demandAll rs).2 := by
  unfold demandAll
  generalize true = all
  induction rs generalizing e all with
  | nil => exact .refl e
  | cons r rs ih => exact (push_changes e r none .head).trans (ih _ _)

/-- A call of the host changes the settings and then what any operation may. A lookup also starts the
task of its caller. -/
theorem obey_changes {c : Command} (hc : ∀ l, c ≠ .lookup l) :
    Changes c.tells { e with settings := c.sets e.settings } (e.obey c).2 := by
  cases c with
  | addListener s l => exact addListener_changes e s l
  | removeListener s l => exact removeListener_changes e s l
  | lookup l => exact absurd rfl (hc l)
  | setUpdateInterval seconds => exact setUpdateInterval_changes e _
  | setSoftwareDays days => exact setSoftwareDays_changes e days
  | shutdown => exact (log_changes e _).trans (stop_changes _)
  | removeThermostat | removeTracked => exact .same rfl id
  | addTracked s p =>
    refine Changes.trans ?_ (logAll_changes _ _)
    exact .same rfl id
  | requestParameters s ps => exact demandAll_changes e _
  | requestSystem | requestStatus | requestAlarm | requestSoftware | requestMode | setParameters =>
    exact push_changes e _ none .head
  | setMode | setThermostat =>
    refine Changes.trans ?_ (push_changes _ _ none .head)
    exact .same rfl id

/-- A call of the host nudges the tasks at most. A lookup also starts the task of its caller. -/
theorem obey_grows {c : Command} (hc : ∀ l, c ≠ .lookup l) : Grows e (e.obey c).2 := by
  refine Grows.trans ?_ (obey_changes e hc).grows
  exact .of_tasks rfl rfl

/-- Passing time lets tasks go on that wait for it. -/
theorem nudged_elapse (now : Nat) : Nudged e (e.elapse now) := by
  intro id
  have htask : (e.elapse now).task? id = (e.task? id).map (ring now) := SortedMap.get?_map ..
  rw [htask]
  cases e.task? id with
  | none => exact .none
  | some t =>
    refine .some ?_
    unfold ring
    split
    case h_1 due n hw =>
      split
      · obtain ⟨d, w⟩ := t
        obtain rfl : w = .alarm due n := hw
        exact .woken d _ n nofun nofun
      · exact .refl t
    case h_2 => exact .refl t

theorem elapse_grows (now : Nat) : Grows e (e.elapse now) := .of_nudged rfl (e.nudged_elapse now)

end Engine

end HeatWatch
