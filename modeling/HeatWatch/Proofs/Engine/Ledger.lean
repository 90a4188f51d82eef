import HeatWatch.Proofs.Engine.Frame
import HeatWatch.Proofs.Engine.Moves
import HeatWatch.Proofs.Table.Results

/-!
# The ledger of the engine

The line of tasks that wait for the wire, what was recorded of their exchanges, and the table of
systems. Only the owner of an exchange changes the first two, and only results and calls of the host
change the table. Main statements:

* `perform_ledger`: what a task changes there;
* `obey_ledger`: what a call of the host changes there;
* `hosted_move`: what the host gave is changed by its calls only;
* `move_line`, `move_trace`, `move_table`: what any move changes there.
-/

namespace HeatWatch

/-- It is about the wire. -/
def Happening.isWire : Happening → Bool
  | .joined .. | .sent .. | .exchanged .. => true
  | _ => false

/-- The line, what happened on the wire, the latest first, and the table. -/
structure Ledger where
  line : List TaskId
  trace : List Happening
  table : SystemTable

namespace Engine

def ledger (e : Engine) : Ledger :=
  ⟨e.line, (e.history.map (·.what)).filter Happening.isWire, e.table⟩

/-- The result with which a task leaves the line at a point, if it does. -/
def result? (e : Engine) : Duty → Option (Except RequestError String)
  | .exchange _ (.send _) =>
    match e.script.fetch.1 with
    | .error f => some (.error f)
    | .ok _ => none
  | .exchange _ (.receive again a) =>
    match a with
    | .error m => some (.error (.transport m))
    | .ok response =>
      if response.status = HttpResponse.unauthorized ∧ !again then none else some response.outcome
  | _ => none

end Engine

/-- What is recorded of a task on the wire that does not leave it. -/
def Stage.shows (e : Engine) (id : TaskId) (p : Purpose) : Stage → Option Happening
  | .join => some (.joined id p)
  | .send _ => e.script.fetch.1.toOption.map (.sent id p)
  | .receive .. => none

/-- What is recorded on the wire of a task at a point. -/
def Duty.shows (e : Engine) (id : TaskId) : Duty → Option Happening
  | .exchange p s =>
    (e.result? (.exchange p s)).elim (s.shows e id p) fun r => some (.exchanged id p r)
  | _ => none

/-- The line after a task at a point went on. -/
def Duty.lined (e : Engine) (id : TaskId) : Duty → List TaskId
  | .exchange _ .join => e.line ++ [id]
  | .exchange p s => (e.result? (.exchange p s)).elim e.line fun _ => e.line.drop 1
  | _ => e.line

/-- The table after a task at a point went on. -/
def Duty.tabled (e : Engine) : Duty → SystemTable
  | .conclude (.entry _ x) (.ok body) =>
    if x.caller.isNone then (Dispatch.deliver e.table x.request body).1 else e.table
  | .conclude (.probe ..) (.ok body) =>
    (Response.systems.decode body).toOption.elim e.table e.table.mergeSystems
  | .conclude (.lookup l) (.ok body) => (l.read e.table body).toOption.elim e.table (·.2)
  | _ => e.table

/-- The ledger after a task at a point went on. -/
def Duty.entered (e : Engine) (id : TaskId) (d : Duty) : Ledger where
  line := d.lined e id
  trace := (d.shows e id).toList ++ e.ledger.trace
  table := d.tabled e

/-- The table after a call of the host. -/
def Command.tabled (t : SystemTable) : Command → SystemTable
  | .addListener id l => (t.registerListener id l).2
  | .removeListener id l => (t.removeListener id l).2
  | .setMode id m => t.setMode id m
  | .setThermostat id th => t.putThermostat id th
  | .removeThermostat id th => (t.removeThermostat id th).2
  | .addTracked id p => (t.addTracked id p).2.1
  | .removeTracked id p => (t.removeTracked id p).2
  | _ => t

namespace Engine

variable (e : Engine) (id : TaskId)

/-! ## Operations that are not seen -/

theorem ledger_of_frame {e e' : Engine} (h : e'.frame = e.frame) : e'.ledger = e.ledger := by
  show e'.frame.ledger = e.frame.ledger
  rw [h]

@[simp] theorem log_ledger (l : LogLine) : (e.log l).ledger = e.ledger := rfl

@[simp] theorem logAll_ledger (ls : List LogLine) : (e.logAll ls).ledger = e.ledger := by
  induction ls generalizing e with
  | nil => rfl
  | cons l ls ih => exact ih (e.log l)

@[simp] theorem noticeAll_ledger (ns : List Notice) : (ns.foldl notice e).ledger = e.ledger := by
  induction ns generalizing e with
  | nil => rfl
  | cons n ns ih => cases n <;> exact ih _

theorem enter_ledger (phase : Phase) : Engine.ledger { e with phase } = e.ledger := rfl

@[simp] theorem spawn_ledger (d : Duty) : (e.spawn d).ledger = e.ledger := rfl

@[simp] theorem finish_ledger : (e.finish id).ledger = e.ledger := rfl

@[simp] theorem park_ledger (d : Duty) (w : Wait) : (e.park id d w).ledger = e.ledger := rfl

@[simp] theorem proceed_ledger (d : Duty) : (e.proceed id d).ledger = e.ledger :=
  ledger_of_frame (e.proceed_frame id d)

@[simp] theorem sleep_ledger (d : Duty) (due : Nat) : (e.sleep id d due).ledger = e.ledger :=
  ledger_of_frame (e.sleep_frame id d due)

@[simp] theorem wake_ledger : (e.wake id).ledger = e.ledger := ledger_of_frame (e.wake_frame id)

@[simp] theorem wakeTaker_ledger : e.wakeTaker.ledger = e.ledger := ledger_of_frame e.wakeTaker_frame

@[simp] theorem reply_ledger (r : Except RequestError String) : (e.reply id r).ledger = e.ledger :=
  ledger_of_frame (e.reply_frame id r)

@[simp] theorem replyAll_ledger (ids : List TaskId) (r : Except RequestError String) :
    (e.replyAll ids r).ledger = e.ledger := ledger_of_frame (e.replyAll_frame ids r)

@[simp] theorem withdraw_ledger (ps : List Permit) : (e.withdraw ps).ledger = e.ledger := by
  show (e.withdraw ps).frame.ledger = e.ledger
  rw [withdraw_frame]
  rfl

@[simp] theorem inserted_ledger (i : Queue.Insertion) : (e.inserted i).ledger = e.ledger := by
  show (e.inserted i).frame.ledger = e.ledger
  rw [inserted_frame, logAll_ledger]
  rfl

@[simp] theorem enqueueAll_ledger (rs : List Request) : (e.enqueueAll rs).ledger = e.ledger := by
  unfold enqueueAll
  induction rs generalizing e with
  | nil => rfl
  | cons r rs ih => exact (ih _).trans (inserted_ledger e _)

@[simp] theorem issue_ledger : e.issue.2.ledger = e.ledger := rfl

@[simp] theorem startStandard_ledger : e.startStandard.2.ledger = e.ledger := by
  unfold startStandard
  dsimp only
  split <;> rfl

@[simp] theorem startSoftware_ledger : e.startSoftware.2.ledger = e.ledger := by
  unfold startSoftware
  dsimp only
  split <;> rfl

@[simp] theorem startRun_ledger : e.startRun.ledger = e.ledger := by
  unfold startRun
  dsimp only
  refine (enter_ledger _ _).trans ?_
  rw [spawn_ledger, spawn_ledger, startSoftware_ledger, startStandard_ledger]
  rfl

@[simp] theorem stop_ledger : e.stop.ledger = e.ledger := by
  unfold stop
  dsimp only
  rw [replyAll_ledger]
  split
  · rfl
  · exact withdraw_ledger e _
  · exact withdraw_ledger e _

@[simp] theorem observeOutage_ledger (error : RequestError) :
    (e.observeOutage error).ledger = e.ledger := by
  unfold observeOutage
  split <;> rfl

@[simp] theorem observeRecovery_ledger : e.observeRecovery.ledger = e.ledger := by
  unfold observeRecovery
  split <;> rfl

@[simp] theorem replay_ledger (entry : Entry) : (e.replay entry).ledger = e.ledger := by
  unfold replay
  dsimp only
  split <;> exact inserted_ledger e _

@[simp] theorem refuseWaiting_ledger (error : RequestError) :
    (e.refuseWaiting error).ledger = e.ledger := replyAll_ledger _ _ _

@[simp] theorem enterOutage_ledger (root : Permit) (failed : Entry) (error : RequestError) :
    (e.enterOutage root failed error).ledger = e.ledger := by
  unfold enterOutage
  split
  · split
    · rfl
    · dsimp only
      rw [observeOutage_ledger, log_ledger]
      refine (enter_ledger _ _).trans ?_
      rw [spawn_ledger, issue_ledger, refuseWaiting_ledger]
      split <;> simp
  · rfl

@[simp] theorem resume_ledger (probe : Permit) : (e.resume probe).ledger = e.ledger := by
  unfold resume
  split
  · split
    · rfl
    · simp
  · rfl

@[simp] theorem pause_ledger (run : Permit) : (e.pause id run).ledger = e.ledger := by
  unfold pause
  split <;> simp

@[simp] theorem tell_ledger (r : Except RequestError Finding) : (e.tell id r).ledger = e.ledger := rfl

/-! ## Tasks -/

@[simp] theorem deliver_ledger (r : Request) (body : String) : (e.deliver r body).ledger =
    { e.ledger with table := (Dispatch.deliver e.table r body).1 } := noticeAll_ledger _ _

theorem mergeListing_ledger (body : String) : (e.mergeListing (.ok body)).ledger =
    { e.ledger with
      table := (Response.systems.decode body).toOption.elim e.table e.table.mergeSystems } := by
  unfold mergeListing
  cases h : Response.systems.decode body <;> simp [h] <;> rfl

@[simp] theorem leave_ledger (p : Purpose) (r : Except RequestError String) : (e.leave id p r).ledger =
    { e.ledger with line := e.line.drop 1, trace := .exchanged id p r :: e.ledger.trace } := by
  unfold leave
  dsimp only
  split <;> simp <;> rfl

theorem join_ledger (p : Purpose) :
    (e.join id p).ledger = (Duty.exchange p .join).entered e id := by
  unfold join
  dsimp only
  split <;> simp <;> rfl

theorem send_ledger (p : Purpose) (again : Bool) :
    (e.send id p again).ledger = (Duty.exchange p (.send again)).entered e id := by
  unfold send Duty.entered Duty.lined Duty.shows Stage.shows result?
  cases hfetch : e.script.fetch with
  | mk fetched script =>
    cases fetched with
    | error f => exact leave_ledger _ id p _
    | ok token => exact sleep_ledger _ id _ _

theorem receive_ledger (p : Purpose) (again : Bool) (a : Arrival) :
    (e.receive id p again a).ledger = (Duty.exchange p (.receive again a)).entered e id := by
  unfold receive Duty.entered Duty.lined Duty.shows Stage.shows result?
  cases a with
  | error m => exact leave_ledger _ id p _
  | ok response =>
    dsimp only
    split
    · exact proceed_ledger _ id _
    · cases response.outcome with
      | ok body => exact leave_ledger _ id p _
      | error f =>
        dsimp only
        split <;> exact leave_ledger _ id p _

theorem listen_ledger (run : Permit) : (e.listen id run).ledger = e.ledger :=
  ledger_of_frame (e.listen_frame id run)

theorem take_ledger (run : Permit) : (e.take id run).ledger = e.ledger := by
  unfold take
  split
  · rfl
  · split
    · exact listen_ledger _ id run
    · exact proceed_ledger _ id _

theorem startPoll_ledger (permit : Permit) (p : Poll) (delay period : Nat) :
    (e.startPoll id permit p delay period).ledger = e.ledger := by
  unfold startPoll
  split <;> simp

theorem poll_ledger (permit : Permit) (p : Poll) (period due : Nat) :
    (e.poll id permit p period due).ledger = e.ledger := by
  unfold poll
  split
  · rfl
  · split
    · simp
    · exact (sleep_ledger _ id _ _).trans (enqueueAll_ledger _ _)

theorem startProbe_ledger (outage : Permit) : (e.startProbe id outage).ledger = e.ledger := by
  unfold startProbe
  split <;> simp

theorem probe_ledger (outage : Permit) (due : Nat) : (e.probe id outage due).ledger = e.ledger := by
  unfold probe
  split
  · rfl
  · split <;> simp

theorem consult_ledger (l : Lookup) : (e.consult id l).ledger = e.ledger := by
  unfold consult
  split <;> simp

theorem route_ledger (l : Lookup) : (e.route id l).ledger = e.ledger := by
  unfold route
  split <;> simp

theorem submit_ledger (l : Lookup) : (e.submit id l).ledger = e.ledger := by
  unfold submit
  dsimp only
  split <;> simp

theorem concludeEntry_ledger (run : Permit) (entry : Entry) (r : Except RequestError String) :
    (e.concludeEntry id run entry r).ledger = (Duty.conclude (.entry run entry) r).entered e id := by
  unfold concludeEntry Duty.entered Duty.lined Duty.shows Duty.tabled
  split
  case h_1 body hcaller =>
    simp only [hcaller]
    simp
    rfl
  case h_2 body caller hcaller =>
    simp only [hcaller]
    simp
    rfl
  case h_3 => split <;> simp <;> rfl
  case h_4 => split <;> simp <;> rfl

theorem concludeProbe_ledger (outage : Permit) (next : Nat) (r : Except RequestError String) :
    (e.concludeProbe id outage next r).ledger =
      (Duty.conclude (.probe outage next) r).entered e id := by
  unfold concludeProbe
  cases r with
  | ok body => exact (resume_ledger _ outage).trans (mergeListing_ledger e body)
  | error f =>
    split
    · exact proceed_ledger e id _
    · exact resume_ledger e outage

theorem concludeLookup_ledger (l : Lookup) (r : Except RequestError String) :
    (e.concludeLookup id l r).ledger = (Duty.conclude (.lookup l) r).entered e id := by
  unfold concludeLookup Duty.entered Duty.lined Duty.shows Duty.tabled
  cases r with
  | error f => rfl
  | ok body => cases h : l.read e.table body <;> simp [h] <;> rfl

/-- What a task changes in the ledger. -/
theorem perform_ledger (d : Duty) : (e.perform id d).ledger = d.entered e id := by
  unfold perform
  split
  · exact take_ledger ..
  · exact startPoll_ledger ..
  · exact poll_ledger ..
  · exact startProbe_ledger ..
  · exact probe_ledger ..
  · exact consult_ledger ..
  · exact route_ledger ..
  · exact submit_ledger ..
  · rfl
  · exact join_ledger ..
  · exact send_ledger ..
  · exact receive_ledger ..
  · exact concludeEntry_ledger ..
  · exact concludeProbe_ledger ..
  · exact concludeLookup_ledger ..

/-! ## Calls of the host -/

theorem removeListener_ledger (s : SystemId) (l : Listener) : (e.removeListener s l).2.ledger =
    { e.ledger with table := (e.table.removeListener s l).2 } := by
  unfold removeListener SystemTable.removeListener
  by_cases h : (e.table.entry s).listener = some l
  · rw [if_pos h]
    dsimp only
    rw [if_neg (by simp)]
    dsimp only
    split
    · exact stop_ledger _
    · rfl
  · rw [if_neg h]
    rfl

theorem addListener_ledger (s : SystemId) (l : Listener) : (e.addListener s l).ledger =
    { e.ledger with table := (e.table.registerListener s l).2 } := by
  unfold addListener
  dsimp only
  split
  · exact startRun_ledger _
  · rfl

theorem setUpdateInterval_ledger (interval : Nat) :
    (e.setUpdateInterval interval).ledger = e.ledger := by
  unfold setUpdateInterval
  dsimp only
  split
  · exact (startStandard_ledger _).trans (withdraw_ledger _ _)
  · rfl

theorem setSoftwareDays_ledger (days : Int) : (e.setSoftwareDays days).ledger = e.ledger := by
  unfold setSoftwareDays
  dsimp only
  split
  · exact (startSoftware_ledger _).trans (withdraw_ledger _ _)
  · rfl

theorem demandAll_ledger (rs : List Request) : (e.demandAll rs).2.ledger = e.ledger := by
  unfold demandAll
  generalize true = all
  induction rs generalizing e all with
  | nil => rfl
  | cons r rs ih => exact (ih _ _).trans (inserted_ledger e _)

/-- A call of the host changes the table only. -/
theorem obey_ledger (c : Command) :
    (e.obey c).2.ledger = { e.ledger with table := c.tabled e.table } := by
  cases c with
  | addListener s l => exact addListener_ledger e s l
  | removeListener s l => exact removeListener_ledger e s l
  | lookup l => rfl
  | setUpdateInterval seconds => exact setUpdateInterval_ledger e _
  | setSoftwareDays days => exact setSoftwareDays_ledger e days
  | shutdown => exact stop_ledger _
  | removeThermostat | removeTracked => rfl
  | addTracked s p => exact logAll_ledger _ _
  | requestParameters s ps => exact demandAll_ledger e _
  | requestSystem | requestStatus | requestAlarm | requestSoftware | requestMode | setParameters
  | setMode | setThermostat => exact inserted_ledger _ _

/-! ## Moves -/

/-- What is recorded on the wire of a move. -/
def shows (e : Engine) : Move → Option Happening
  | .act id => (e.ready? id).bind (·.shows e id)
  | _ => none

/-- The line after a move. -/
def lined (e : Engine) : Move → List TaskId
  | .act id => (e.ready? id).elim e.line (·.lined e id)
  | _ => e.line

/-- The table after a move. -/
def tabled (e : Engine) : Move → SystemTable
  | .obey c => c.tabled e.table
  | .act id => (e.ready? id).elim e.table (·.tabled e)
  | _ => e.table

section Ready

variable {e : Engine} {id : TaskId} {d : Duty}

theorem shows_of_ready (h : e.ready? id = some d) : e.shows (.act id) = d.shows e id := by
  show (e.ready? id).bind _ = _
  rw [h]
  rfl

theorem lined_of_ready (h : e.ready? id = some d) : e.lined (.act id) = d.lined e id := by
  show (e.ready? id).elim e.line _ = _
  rw [h]
  rfl

theorem tabled_of_ready (h : e.ready? id = some d) : e.tabled (.act id) = d.tabled e := by
  show (e.ready? id).elim e.table _ = _
  rw [h]
  rfl

/-- Whoever leaves the line shows the result. -/
theorem shows_of_result? (h : e.ready? id = some d) {r : Except RequestError String}
    (hr : e.result? d = some r) : ∃ p s, d = .exchange p s ∧
      e.shows (.act id) = some (.exchanged id p r) ∧ e.lined (.act id) = e.line.drop 1 := by
  cases d with
  | exchange p s =>
    rw [shows_of_ready h, lined_of_ready h]
    -- whoever only joins has no result yet
    cases s with
    | join => cases hr
    | send | receive =>
      refine ⟨p, _, rfl, ?_, ?_⟩
      · show (e.result? _).elim _ _ = _
        rw [hr]
        rfl
      · show (e.result? _).elim _ _ = _
        rw [hr]
        rfl
  | take | startPoll | poll | startProbe | probe | consult | route | submit | await | conclude =>
    cases hr

end Ready

/-- What a move changes in the ledger. -/
theorem move_ledger (m : Move) :
    (e.move m).ledger = ⟨e.lined m, (e.shows m).toList ++ e.ledger.trace, e.tabled m⟩ := by
  cases m with
  | obey c => exact obey_ledger e c
  | elapse | pass | plan => rfl
  | act id =>
    show (e.act id).ledger = _
    cases hready : e.ready? id with
    | none =>
      show _ = (⟨(e.ready? id).elim e.line _, ((e.ready? id).bind _).toList ++ e.ledger.trace,
        (e.ready? id).elim e.table _⟩ : Ledger)
      rw [act_of_not_ready hready, hready]
      rfl
    | some d =>
      rw [act_of_ready hready, shows_of_ready hready, lined_of_ready hready, tabled_of_ready hready]
      exact perform_ledger e id d

theorem move_line (m : Move) : (e.move m).line = e.lined m := congrArg Ledger.line (e.move_ledger m)

theorem move_trace (m : Move) : (e.move m).ledger.trace = (e.shows m).toList ++ e.ledger.trace :=
  congrArg Ledger.trace (e.move_ledger m)

theorem move_table (m : Move) : (e.move m).table = e.tabled m :=
  congrArg Ledger.table (e.move_ledger m)

/-- Whatever a task brings leaves alone what the host gave. -/
theorem tabled_hosted (e : Engine) (d : Duty) (s : SystemId) :
    ((d.tabled e).entry s).hosted = (e.table.entry s).hosted := by
  unfold Duty.tabled
  split
  case h_1 x body =>
    split
    · exact Dispatch.deliver_hosted ..
    · rfl
  case h_2 body =>
    cases Response.systems.decode body with
    | error => rfl
    | ok ss => exact SystemTable.hosted_mergeSystems ..
  case h_3 l body =>
    cases h : l.read e.table body with
    | error => rfl
    | ok found => exact Lookup.read_hosted h s
  case h_4 => rfl

/-- Only a call of the host changes what the host gave. -/
theorem hosted_move {e : Engine} {m : Move} (hm : ∀ c, m ≠ .obey c) (s : SystemId) :
    ((e.move m).table.entry s).hosted = (e.table.entry s).hosted := by
  rw [move_table]
  cases m with
  | obey c => exact absurd rfl (hm c)
  | elapse | pass | plan => rfl
  | act id =>
    show (((e.ready? id).elim e.table (·.tabled e)).entry s).hosted = _
    cases e.ready? id with
    | none => rfl
    | some d => exact tabled_hosted e d s

/-- The trace shows of the history what there is to see of the wire. -/
theorem filterMap_trace {α : Type} {f : Happening → Option α}
    (hf : ∀ h, h.isWire = false → f h = none) (e : Engine) :
    e.ledger.trace.filterMap f = (e.history.map (·.what)).filterMap f := by
  unfold ledger
  rw [List.filterMap_filter]
  refine congrArg (List.filterMap · _) (funext fun h => ?_)
  by_cases hh : h.isWire
  · rw [if_pos hh]
  · rw [if_neg hh, hf h (Bool.eq_false_iff.2 hh)]

/-- Whoever is recorded to join the line was about to. -/
theorem shows_joined {e : Engine} {m : Move} {id : TaskId} {p : Purpose} :
    e.shows m = some (.joined id p) ↔ m = .act id ∧ e.ready? id = some (.exchange p .join) := by
  constructor
  · intro h
    cases m with
    | act id' =>
      obtain ⟨d, hready, hd⟩ := Option.bind_eq_some_iff.1 h
      cases d with
      | exchange q s =>
        have hshows : (e.result? (.exchange q s)).elim (s.shows e id' q)
            (fun r => some (.exchanged id' q r)) = some (.joined id p) := hd
        cases s with
        | join =>
          cases hshows
          exact ⟨rfl, hready⟩
        | send again =>
          cases hr : e.result? (.exchange q (.send again)) with
          | some r =>
            rw [hr] at hshows
            cases hshows
          | none =>
            rw [hr] at hshows
            obtain ⟨token, -, htoken⟩ := Option.map_eq_some_iff.1 hshows
            cases htoken
        | receive again a =>
          cases hr : e.result? (.exchange q (.receive again a)) <;> rw [hr] at hshows <;>
            cases hshows
      | take | startPoll | poll | startProbe | probe | consult | route | submit | await
      | conclude => cases hd
    | obey | elapse | pass | plan => cases h
  · rintro ⟨rfl, hready⟩
    exact shows_of_ready hready

end Engine

end HeatWatch
