import HeatWatch.Proofs.Engine.Moves
import HeatWatch.Proofs.Engine.Frame
import HeatWatch.Proofs.Queue.Lanes

/-!
# What the engine asks of its queue

The queue changes by calls of its own only, and each move of the engine makes the calls that can be
read off the state before it. Main statements:

* `asked`: the cases in which a move calls the queue;
* `perform_queue`, `obey_queue`: the calls that a task or a call of the host leads to;
* `move_queue`: the calls that a move leads to.
-/

namespace HeatWatch

open Queue (Op)

/-- The calls of the queue that a task makes at a point. -/
def Duty.asks (e : Engine) (id : TaskId) : Duty → List Op
  | .take run => if e.allows run then [.pop] else []
  | .poll permit p _ due =>
    if e.allows permit ∧ due ≤ e.clock then (p.requests e.table).map (.push · none .tail) else []
  | .submit l => [.push l.request (some id) .head]
  | .conclude (.entry run entry) (.error f) =>
    if f.isServer ∧ e.phase.isActive ∧ e.allows run then
      (if entry.caller.isNone then [.replay entry] else []) ++ [.takeWaiting]
    else []
  | _ => []

/-- The call of the host ends whatever goes on. -/
def Command.stops (t : SystemTable) : Command → Bool
  | .removeListener id l =>
    (t.removeListener id l).1 && (t.removeListener id l).2.listenerCount = 0
  | .shutdown => true
  | _ => false

/-- The move stops the engine. -/
def Move.stops (t : SystemTable) : Move → Bool
  | .obey c => c.stops t
  | _ => false

/-- The requests that a call of the host puts into the queue. -/
def Command.demands : Command → List Request
  | .requestSystem id => [.getSystem id]
  | .requestStatus id => [.getStatus id]
  | .requestAlarm id => [.getAlarm id]
  | .requestSoftware id => [.getSoftware id]
  | .requestMode id => [.getMode id]
  | .requestParameters id ps => Request.readParameters id ps
  | .setParameters id values => [.setParameters id values]
  | .setMode id m => [.setMode id m]
  | .setThermostat id t => [.upsertThermostat id t]
  | _ => []

/-- The calls of the queue that a call of the host leads to. -/
def Command.asks (t : SystemTable) (c : Command) : List Op :=
  if c.stops t then [.clear] else c.demands.map (.push · none .head)

theorem Phase.isActive_iff {phase : Phase} : phase.isActive = true ↔ ∃ run, phase = .active run := by
  cases phase with
  | dormant | outage => exact ⟨nofun, nofun⟩
  | active run => exact ⟨fun _ => ⟨run, rfl⟩, fun _ => rfl⟩

namespace Engine

variable (e : Engine) (id : TaskId)

/-- The calls of the queue that a move leads to. -/
def asks : Move → List Op
  | .obey c => c.asks e.table
  | .act id => (e.ready? id).elim [] (·.asks e id)
  | _ => []

theorem asks_of_ready {e : Engine} {id : TaskId} {d : Duty} (h : e.ready? id = some d) :
    e.asks (.act id) = d.asks e id := by
  show (e.ready? id).elim [] (·.asks e id) = _
  rw [h]
  rfl

theorem asks_of_not_ready {e : Engine} {id : TaskId} (h : e.ready? id = none) :
    e.asks (.act id) = [] := by
  show (e.ready? id).elim [] (·.asks e id) = _
  rw [h]
  rfl

/-- What a move asks of the queue, by what it does. -/
inductive Asked (e : Engine) : Move → List Op → Prop
  | nothing {m : Move} : Asked e m []
  | clear {c : Command} (h : c.stops e.table = true) : Asked e (.obey c) [.clear]
  | demand {c : Command} (h : c.stops e.table = false) :
      Asked e (.obey c) (c.demands.map (.push · none .head))
  | take {id : TaskId} {run : Permit} (hready : e.ready? id = some (.take run))
      (hin : e.allows run = true) : Asked e (.act id) [.pop]
  | poll {id : TaskId} {permit : Permit} {p : Poll} {period due : Nat}
      (hready : e.ready? id = some (.poll permit p period due)) :
      Asked e (.act id) ((p.requests e.table).map (.push · none .tail))
  | submit {id : TaskId} {l : Lookup} (hready : e.ready? id = some (.submit l)) :
      Asked e (.act id) [.push l.request (some id) .head]
  | outage {id : TaskId} {run : Permit} {x : Entry} {f : RequestError}
      (hready : e.ready? id = some (.conclude (.entry run x) (.error f))) (hf : f.isServer = true)
      (hin : e.allows run = true) :
      Asked e (.act id) ((if x.caller.isNone then [.replay x] else []) ++ [.takeWaiting])

theorem asked (m : Move) : e.Asked m (e.asks m) := by
  cases m with
  | elapse | pass | plan => exact .nothing
  | obey c =>
    show e.Asked _ (c.asks e.table)
    unfold Command.asks
    split
    case isTrue h => exact .clear h
    case isFalse h => exact .demand (Bool.eq_false_iff.2 h)
  | act id =>
    cases hready : e.ready? id with
    | none =>
      rw [asks_of_not_ready hready]
      exact .nothing
    | some d =>
      rw [asks_of_ready hready]
      unfold Duty.asks
      split
      case h_1 run =>
        split
        case isTrue hin => exact .take hready hin
        case isFalse => exact .nothing
      case h_2 permit p period due =>
        split
        case isTrue => exact .poll hready
        case isFalse => exact .nothing
      case h_3 l => exact .submit hready
      case h_4 run x f =>
        split
        case isTrue h => exact .outage hready h.1 h.2.2
        case isFalse => exact .nothing
      case h_5 => exact .nothing

/-- Only a stop clears the queue. -/
theorem stops_of_clear {m : Move} (h : Op.clear ∈ e.asks m) : m.stops e.table = true := by
  have hasked := e.asked m
  generalize e.asks m = ops at h hasked
  cases hasked with
  | clear hstops => exact hstops
  | nothing => cases h
  | take | submit => cases List.mem_singleton.1 h
  | demand | poll =>
    obtain ⟨r, -, heq⟩ := List.mem_map.1 h
    cases heq
  | outage =>
    rcases List.mem_append.1 h with hreplay | hwaiting
    · split at hreplay
      · cases List.mem_singleton.1 hreplay
      · cases hreplay
    · cases List.mem_singleton.1 hwaiting

/-- Only the failure of a request of the run takes the callers out of the queue. -/
theorem fails_of_takeWaiting {m : Move} (h : Op.takeWaiting ∈ e.asks m) : ∃ id run x f, m = .act id ∧
    e.ready? id = some (.conclude (.entry run x) (.error f)) ∧ f.isServer = true ∧
      e.allows run = true := by
  have hasked := e.asked m
  generalize e.asks m = ops at h hasked
  cases hasked with
  | outage hready hf hin => exact ⟨_, _, _, _, rfl, hready, hf, hin⟩
  | nothing => cases h
  | clear | take | submit => cases List.mem_singleton.1 h
  | demand | poll =>
    obtain ⟨r, -, heq⟩ := List.mem_map.1 h
    cases heq

/-! ## Operations that leave the queue alone -/

@[simp] theorem frame_queue : e.frame.queue = e.queue := rfl

theorem queue_of_frame {e e' : Engine} (h : e'.frame = e.frame) : e'.queue = e.queue := by
  rw [← e'.frame_queue, h, e.frame_queue]

theorem phase_of_frame {e e' : Engine} (h : e'.frame = e.frame) : e'.phase = e.phase := by
  rw [show e'.phase = e'.frame.phase from rfl, h]
  rfl

theorem permits_of_frame {e e' : Engine} (h : e'.frame = e.frame) : e'.permits = e.permits := by
  rw [show e'.permits = e'.frame.permits from rfl, h]
  rfl

@[simp] theorem record_queue (h : Happening) : (e.record h).queue = e.queue := rfl

@[simp] theorem log_queue (l : LogLine) : (e.log l).queue = e.queue := rfl

@[simp] theorem logAll_queue (ls : List LogLine) : (e.logAll ls).queue = e.queue := by
  induction ls generalizing e with
  | nil => rfl
  | cons l ls ih => exact ih (e.log l)

@[simp] theorem noticeAll_queue (ns : List Notice) : (ns.foldl notice e).queue = e.queue := by
  induction ns generalizing e with
  | nil => rfl
  | cons n ns ih => cases n <;> exact ih _

@[simp] theorem spawn_queue (d : Duty) : (e.spawn d).queue = e.queue := rfl

@[simp] theorem finish_queue : (e.finish id).queue = e.queue := rfl

@[simp] theorem park_queue (d : Duty) (w : Wait) : (e.park id d w).queue = e.queue := rfl

@[simp] theorem proceed_queue (d : Duty) : (e.proceed id d).queue = e.queue :=
  queue_of_frame (e.proceed_frame id d)

@[simp] theorem sleep_queue (d : Duty) (due : Nat) : (e.sleep id d due).queue = e.queue :=
  queue_of_frame (e.sleep_frame id d due)

@[simp] theorem listen_queue (run : Permit) : (e.listen id run).queue = e.queue :=
  queue_of_frame (e.listen_frame id run)

@[simp] theorem wake_queue : (e.wake id).queue = e.queue := queue_of_frame (e.wake_frame id)

@[simp] theorem wakeTaker_queue : e.wakeTaker.queue = e.queue := queue_of_frame e.wakeTaker_frame

@[simp] theorem reply_queue (r : Except RequestError String) : (e.reply id r).queue = e.queue :=
  queue_of_frame (e.reply_frame id r)

@[simp] theorem replyAll_queue (ids : List TaskId) (r : Except RequestError String) :
    (e.replyAll ids r).queue = e.queue := queue_of_frame (e.replyAll_frame ids r)

@[simp] theorem withdraw_queue (ps : List Permit) : (e.withdraw ps).queue = e.queue := by
  rw [← frame_queue, withdraw_frame]
  rfl

@[simp] theorem startStandard_queue : e.startStandard.2.queue = e.queue := by
  unfold startStandard
  dsimp only
  split <;> rfl

@[simp] theorem startSoftware_queue : e.startSoftware.2.queue = e.queue := by
  unfold startSoftware
  dsimp only
  split <;> rfl

@[simp] theorem startRun_queue : e.startRun.queue = e.queue := by
  unfold startRun
  dsimp only
  rw [spawn_queue, spawn_queue, startSoftware_queue, startStandard_queue]
  rfl

@[simp] theorem observeOutage_queue (error : RequestError) :
    (e.observeOutage error).queue = e.queue := by
  unfold observeOutage
  split <;> rfl

@[simp] theorem observeRecovery_queue : e.observeRecovery.queue = e.queue := by
  unfold observeRecovery
  split <;> rfl

@[simp] theorem resume_queue (probe : Permit) : (e.resume probe).queue = e.queue := by
  unfold resume
  split
  · split
    · rfl
    · simp
  · rfl

@[simp] theorem setUpdateInterval_queue (interval : Nat) :
    (e.setUpdateInterval interval).queue = e.queue := by
  unfold setUpdateInterval
  dsimp only
  split <;> simp

@[simp] theorem setSoftwareDays_queue (days : Int) :
    (e.setSoftwareDays days).queue = e.queue := by
  unfold setSoftwareDays
  dsimp only
  split <;> simp

@[simp] theorem addListener_queue (s : SystemId) (l : Listener) :
    (e.addListener s l).queue = e.queue := by
  unfold addListener
  dsimp only
  split <;> simp

@[simp] theorem leave_queue (p : Purpose) (r : Except RequestError String) :
    (e.leave id p r).queue = e.queue := by
  unfold leave
  dsimp only
  split <;> simp

@[simp] theorem mergeListing_queue (r : Except RequestError String) :
    (e.mergeListing r).queue = e.queue := by
  unfold mergeListing
  split
  · split <;> rfl
  · rfl

@[simp] theorem deliver_queue (r : Request) (body : String) :
    (e.deliver r body).queue = e.queue := noticeAll_queue _ _

@[simp] theorem pause_queue (run : Permit) : (e.pause id run).queue = e.queue := by
  unfold pause
  split <;> simp

@[simp] theorem tell_queue (r : Except RequestError Finding) : (e.tell id r).queue = e.queue := rfl

/-! ## Operations that change it -/

@[simp] theorem inserted_queue (i : Queue.Insertion) : (e.inserted i).queue = i.queue := by
  unfold inserted
  split <;> simp

@[simp] theorem enqueueAll_queue (rs : List Request) :
    (e.enqueueAll rs).queue = (e.queue.run (rs.map (.push · none .tail))).2 := by
  unfold enqueueAll
  induction rs generalizing e with
  | nil => rfl
  | cons r rs ih =>
    rw [List.foldl_cons, ih]
    show ((e.inserted _).queue.run _).2 = _
    rw [inserted_queue]
    rfl

@[simp] theorem demandAll_queue (rs : List Request) :
    (e.demandAll rs).2.queue = (e.queue.run (rs.map (.push · none .head))).2 := by
  unfold demandAll
  generalize true = all
  induction rs generalizing e all with
  | nil => rfl
  | cons r rs ih =>
    rw [List.foldl_cons, ih]
    show ((e.inserted _).queue.run _).2 = _
    rw [inserted_queue]
    rfl

@[simp] theorem stop_queue : e.stop.queue = e.queue.clear := by
  unfold stop
  dsimp only
  rw [replyAll_queue]
  split <;> simp

@[simp] theorem replay_queue (entry : Entry) :
    (e.replay entry).queue = (e.queue.replay entry).queue := by
  unfold replay
  dsimp only
  split <;> simp

@[simp] theorem refuseWaiting_queue (error : RequestError) :
    (e.refuseWaiting error).queue = e.queue.takeWaiting.2 := replyAll_queue _ _ _

theorem enterOutage_queue (root : Permit) (failed : Entry) (error : RequestError) :
    (e.enterOutage root failed error).queue = (e.queue.run
      (if e.phase.isActive ∧ e.allows root then
        (if failed.caller.isNone then [.replay failed] else []) ++ [.takeWaiting] else [])).2 := by
  unfold enterOutage
  split
  case h_2 hphase =>
    rw [if_neg fun h => ?_]
    · rfl
    · obtain ⟨run, hrun⟩ := Phase.isActive_iff.1 h.1
      exact hphase run hrun
  case h_1 run hphase =>
    by_cases hallows : e.allows root
    · rw [if_neg (by simp [hallows]), if_pos ⟨Phase.isActive_iff.2 ⟨run, hphase⟩, hallows⟩]
      dsimp only
      rw [observeOutage_queue, log_queue]
      show (Engine.refuseWaiting _ error).queue = _
      rw [refuseWaiting_queue]
      -- the failed request is put back before the callers are taken out
      split
      · rw [replay_queue, withdraw_queue]
        rfl
      · rw [withdraw_queue]
        rfl
    · rw [if_pos (by simp [hallows]), if_neg fun h => hallows h.2]
      rfl

/-! ## Tasks -/

theorem take_queue (run : Permit) :
    (e.take id run).queue = (e.queue.run (if e.allows run then [.pop] else [])).2 := by
  unfold take
  by_cases h : e.allows run
  · rw [if_neg (by simp [h]), if_pos h]
    show _ = e.queue.pop.2
    split
    case h_1 queue hpop => rw [listen_queue, hpop]
    case h_2 entry queue hpop => rw [proceed_queue, hpop]
  · rw [if_pos (by simp [h]), if_neg h]
    rfl

theorem startPoll_queue (permit : Permit) (p : Poll) (delay period : Nat) :
    (e.startPoll id permit p delay period).queue = e.queue := by
  unfold startPoll
  split <;> simp

theorem poll_queue (permit : Permit) (p : Poll) (period due : Nat) :
    (e.poll id permit p period due).queue = (e.queue.run
      (if e.allows permit ∧ due ≤ e.clock then (p.requests e.table).map (.push · none .tail)
      else [])).2 := by
  unfold poll
  by_cases h : e.allows permit
  · rw [if_neg (by simp [h])]
    by_cases hdue : due ≤ e.clock
    · rw [if_neg (Nat.not_lt.2 hdue), if_pos ⟨h, hdue⟩]
      dsimp only
      rw [sleep_queue, enqueueAll_queue, record_queue]
    · rw [if_pos (Nat.not_le.1 hdue), if_neg fun h => hdue h.2, sleep_queue]
      rfl
  · rw [if_pos (by simp [h]), if_neg fun h' => h h'.1]
    rfl

theorem startProbe_queue (outage : Permit) : (e.startProbe id outage).queue = e.queue := by
  unfold startProbe
  split <;> simp

theorem probe_queue (outage : Permit) (due : Nat) : (e.probe id outage due).queue = e.queue := by
  unfold probe
  split
  · rfl
  · split <;> simp

theorem consult_queue (l : Lookup) : (e.consult id l).queue = e.queue := by
  unfold consult
  split <;> simp

theorem route_queue (l : Lookup) : (e.route id l).queue = e.queue := by
  unfold route
  split <;> simp

theorem submit_queue (l : Lookup) :
    (e.submit id l).queue = (e.queue.run [.push l.request (some id) .head]).2 := by
  unfold submit
  dsimp only
  split
  · rw [park_queue, inserted_queue]
    rfl
  · rw [proceed_queue, inserted_queue]
    rfl

theorem join_queue (p : Purpose) : (e.join id p).queue = e.queue := by
  unfold join
  dsimp only
  split <;> simp

theorem send_queue (p : Purpose) (again : Bool) : (e.send id p again).queue = e.queue := by
  unfold send
  split <;> simp

theorem receive_queue (p : Purpose) (again : Bool) (a : Arrival) :
    (e.receive id p again a).queue = e.queue := by
  unfold receive
  dsimp only
  split
  · simp
  · split
    · simp
    · split
      · simp
      · split <;> simp

theorem concludeEntry_queue (run : Permit) (entry : Entry) (r : Except RequestError String) :
    (e.concludeEntry id run entry r).queue =
      (e.queue.run ((Duty.conclude (.entry run entry) r).asks e id)).2 := by
  -- whether the caller of the failed request is told first does not matter to the queue
  have hout : ∀ e' : Engine, e'.queue = e.queue → e'.phase = e.phase → e'.permits = e.permits →
      ∀ f : RequestError, f.isServer → ((e'.enterOutage run entry f).finish id).queue =
        (e.queue.run ((Duty.conclude (.entry run entry) (.error f)).asks e id)).2 := by
    intro e' hq hphase hpermits f hf
    have hallows : e'.allows run = e.allows run := congrArg (·.contains run) hpermits
    rw [finish_queue, enterOutage_queue, hq, hphase, hallows]
    unfold Duty.asks
    simp only [hf, true_and]
  have hstay : ∀ f : RequestError, ¬ f.isServer → ((Duty.conclude (.entry run entry)
      (.error f)).asks e id) = [] := fun f hf => if_neg fun h => hf h.1
  unfold concludeEntry
  split
  · rw [pause_queue, deliver_queue]
    rfl
  · rw [pause_queue, reply_queue]
    rfl
  case h_3 f _ =>
    split
    case isTrue hf => exact hout e rfl rfl rfl f hf
    case isFalse hf =>
      rw [pause_queue, log_queue, hstay f hf]
      rfl
  case h_4 f caller _ =>
    split
    case isTrue hf =>
      have hframe := e.reply_frame caller (.error f)
      exact hout _ (reply_queue ..) (phase_of_frame hframe) (permits_of_frame hframe) f hf
    case isFalse hf =>
      rw [pause_queue, reply_queue, hstay f hf]
      rfl

theorem concludeProbe_queue (outage : Permit) (next : Nat) (r : Except RequestError String) :
    (e.concludeProbe id outage next r).queue = e.queue := by
  unfold concludeProbe
  split <;> simp

theorem concludeLookup_queue (l : Lookup) (r : Except RequestError String) :
    (e.concludeLookup id l r).queue = e.queue := by
  unfold concludeLookup
  split
  · rfl
  · split <;> rfl

/-- What a task asks of the queue. -/
theorem perform_queue (d : Duty) : (e.perform id d).queue = (e.queue.run (d.asks e id)).2 := by
  unfold perform
  split
  · exact take_queue ..
  · exact startPoll_queue ..
  · exact poll_queue ..
  · exact startProbe_queue ..
  · exact probe_queue ..
  · exact consult_queue ..
  · exact route_queue ..
  · exact submit_queue ..
  · rfl
  · exact join_queue ..
  · exact send_queue ..
  · exact receive_queue ..
  · exact concludeEntry_queue ..
  · exact concludeProbe_queue ..
  · exact concludeLookup_queue ..

/-! ## Moves -/

theorem removeListener_queue (s : SystemId) (l : Listener) :
    (e.removeListener s l).2.queue =
      (e.queue.run ((Command.removeListener s l).asks e.table)).2 := by
  have hasks : (Command.removeListener s l).asks e.table =
      if (e.table.removeListener s l).1 && (e.table.removeListener s l).2.listenerCount = 0
      then [.clear] else [] := rfl
  rw [hasks]
  unfold removeListener
  generalize e.table.removeListener s l = removal
  obtain ⟨removed, table⟩ := removal
  cases removed with
  | false => rfl
  | true =>
    dsimp only
    by_cases hcount : table.listenerCount = 0
    · rw [Bool.not_true, if_neg Bool.false_ne_true, if_pos hcount, log_queue, stop_queue,
        if_pos (by simp [hcount])]
      rfl
    · rw [Bool.not_true, if_neg Bool.false_ne_true, if_neg hcount, if_neg (by simp [hcount])]
      rfl

/-- What a call of the host asks of the queue. -/
theorem obey_queue (c : Command) : (e.obey c).2.queue = (e.queue.run (c.asks e.table)).2 := by
  cases c with
  | addListener s l => exact addListener_queue ..
  | removeListener s l => exact removeListener_queue ..
  | lookup l => rfl
  | setUpdateInterval seconds => exact setUpdateInterval_queue ..
  | setSoftwareDays days => exact setSoftwareDays_queue ..
  | shutdown => exact stop_queue _
  | removeThermostat | removeTracked => rfl
  | addTracked s p => exact logAll_queue _ _
  | requestParameters s ps => exact demandAll_queue ..
  | requestSystem | requestStatus | requestAlarm | requestSoftware | requestMode | setParameters
  | setMode | setThermostat => exact inserted_queue _ _

/-- What a move asks of the queue. -/
theorem move_queue (m : Move) : (e.move m).queue = (e.queue.run (e.asks m)).2 := by
  cases m with
  | obey c => exact obey_queue e c
  | act id =>
    show (e.act id).queue = _
    cases hready : e.ready? id with
    | none =>
      rw [act_of_not_ready hready, asks_of_not_ready hready]
      rfl
    | some d =>
      rw [act_of_ready hready, asks_of_ready hready]
      exact perform_queue e id d
  | elapse | pass | plan => rfl

end Engine

end HeatWatch
