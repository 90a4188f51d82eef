import HeatWatch.Proofs.Engine.Phases
import HeatWatch.Proofs.Engine.Turns

/-!
# What is recorded

All that happened but for the log, the earliest first. What a move adds to it can be read off the
state before the move. Main statements:

* `notes_of_move`: who can record what;
* `perform_annals`: what is recorded of a task at a point;
* `move_annals`, `move_chronicle`: what is recorded of a move.
-/

namespace HeatWatch

/-- It is only written to the log. -/
def Happening.isLog : Happening → Bool
  | .log _ => true
  | _ => false

/-- What a listener is told by a notice. -/
def Notice.callback? : Notice → Option Happening
  | .log _ => none
  | .callback l id u => some (.callback l id u)

def Phase.isOutage : Phase → Bool
  | .outage _ => true
  | _ => false

/-- What a caller is told of the result of the request that its lookup made. -/
def Lookup.answer (t : SystemTable) (l : Lookup) :
    Except RequestError String → Except RequestError Finding
  | .error f => .error f
  | .ok text => ((l.read t text).map (·.1)).mapError .parse

/-- The time, who observes the service, and what was recorded but for the log, the earliest first. -/
structure Annals where
  clock : Nat
  observer : Option Observer
  events : List Event

namespace Annals

/-- Records what happens now. -/
def add (a : Annals) (hs : List Happening) : Annals :=
  { a with events := a.events ++ hs.map (⟨a.clock, ·⟩) }

@[simp] theorem add_nil (a : Annals) : a.add [] = a := by
  show { a with events := a.events ++ [] } = a
  rw [List.append_nil]

@[simp] theorem add_add (a : Annals) (hs hs' : List Happening) :
    (a.add hs).add hs' = a.add (hs ++ hs') := by
  show { a with events := (a.events ++ _) ++ _ } = { a with events := a.events ++ _ }
  rw [List.append_assoc, List.map_append]
  rfl

@[simp] theorem add_clock (a : Annals) (hs : List Happening) : (a.add hs).clock = a.clock := rfl

@[simp] theorem add_observer (a : Annals) (hs : List Happening) :
    (a.add hs).observer = a.observer := rfl

end Annals

namespace Engine

def annals (e : Engine) : Annals :=
  ⟨e.clock, e.observer, e.history.reverse.filter fun x => !x.what.isLog⟩

/-- What was recorded but for the log, the earliest first. -/
def chronicle (e : Engine) : List Event := e.annals.events

end Engine

/-- What is recorded of a task on its way to a result. -/
def Stage.records (e : Engine) (id : TaskId) (p : Purpose) : Stage → List Happening
  | .join => [.joined id p]
  | .send _ => (e.script.fetch.1.toOption.map (.sent id p)).toList
  | .receive _ a => [.received id p a]

/-- What is recorded of a task at a point. -/
def Duty.records (e : Engine) (id : TaskId) : Duty → List Happening
  | .poll permit p _ due =>
    if e.allows permit ∧ due ≤ e.clock then [.polled permit p (p.requests e.table)] else []
  | .consult l => ((l.cached? e.table).map fun f => .found id (.ok f)).toList
  | .exchange p s => s.records e id p ++ ((e.result? (.exchange p s)).map (.exchanged id p)).toList
  | .conclude (.entry _ x) (.ok body) =>
    if x.caller.isNone then (Dispatch.deliver e.table x.request body).2.filterMap Notice.callback?
    else []
  | .conclude (.entry run _) (.error f) =>
    if f.isServer ∧ e.phase.isActive ∧ e.allows run then
      (e.observer.map fun _ => .outage f).toList
    else []
  | .conclude (.probe outage _) r =>
    if ¬ Engine.stillFails r ∧ e.phase.isOutage ∧ e.allows outage then
      (e.observer.map fun _ => .recovered).toList
    else []
  | .conclude (.lookup l) r => [.found id (l.answer e.table r)]
  | _ => []

namespace Engine

variable (e : Engine) (id : TaskId)

/-- What is recorded of a move. -/
def records : Move → List Happening
  | .act id => (e.ready? id).elim [] (·.records e id)
  | _ => []

theorem records_of_ready {e : Engine} {id : TaskId} {d : Duty} (h : e.ready? id = some d) :
    e.records (.act id) = d.records e id := by
  show (e.ready? id).elim [] _ = _
  rw [h]
  rfl

theorem records_of_not_ready {e : Engine} {id : TaskId} (h : e.ready? id = none) :
    e.records (.act id) = [] := by
  show (e.ready? id).elim [] _ = _
  rw [h]
  rfl

/-- What can be recorded of a task at a point. -/
inductive Notes (e : Engine) (id : TaskId) : Duty → Happening → Prop
  | polled {permit : Permit} {p : Poll} {period due : Nat} (hdue : due ≤ e.clock) :
      Notes e id (.poll permit p period due) (.polled permit p (p.requests e.table))
  | cached {l : Lookup} {f : Finding} (hf : l.cached? e.table = some f) :
      Notes e id (.consult l) (.found id (.ok f))
  | joined {p : Purpose} : Notes e id (.exchange p .join) (.joined id p)
  | sent {p : Purpose} {again : Bool} {token : String} (htoken : e.script.fetch.1 = .ok token) :
      Notes e id (.exchange p (.send again)) (.sent id p token)
  | received {p : Purpose} {again : Bool} {a : Arrival} :
      Notes e id (.exchange p (.receive again a)) (.received id p a)
  | exchanged {p : Purpose} {s : Stage} {r : Except RequestError String}
      (hr : e.result? (.exchange p s) = some r) : Notes e id (.exchange p s) (.exchanged id p r)
  | callback {run : Permit} {x : Entry} {body : String} {l : Listener} {s : SystemId} {u : Update}
      (hcaller : x.caller = none) : Notes e id (.conclude (.entry run x) (.ok body)) (.callback l s u)
  | outage {run : Permit} {x : Entry} {f : RequestError} (hf : f.isServer = true) :
      Notes e id (.conclude (.entry run x) (.error f)) (.outage f)
  | recovered {outage : Permit} {next : Nat} {r : Except RequestError String} :
      Notes e id (.conclude (.probe outage next) r) .recovered
  | answered {l : Lookup} {r : Except RequestError String} :
      Notes e id (.conclude (.lookup l) r) (.found id (l.answer e.table r))

theorem notes_of_mem_records {e : Engine} {id : TaskId} {d : Duty} {h : Happening}
    (hmem : h ∈ d.records e id) : e.Notes id d h := by
  have houtage : ∀ {c : Prop} [Decidable c] {h' : Happening},
      h ∈ (if c then (e.observer.map fun _ => h').toList else []) → c ∧ h = h' := by
    intro c hc h' hin
    split at hin
    case isTrue htrue =>
      obtain ⟨o, -, rfl⟩ := Option.map_eq_some_iff.1 (Option.mem_toList.1 hin)
      exact ⟨htrue, rfl⟩
    case isFalse => cases hin
  cases d with
  | poll permit p period due =>
    have hin : h ∈ if e.allows permit ∧ due ≤ e.clock then
        [Happening.polled permit p (p.requests e.table)] else [] := hmem
    split at hin
    case isTrue hdue =>
      cases List.mem_singleton.1 hin
      exact .polled hdue.2
    case isFalse => cases hin
  | consult l =>
    obtain ⟨f, hf, rfl⟩ := Option.map_eq_some_iff.1 (Option.mem_toList.1 hmem)
    exact .cached hf
  | exchange p s =>
    rcases List.mem_append.1 hmem with hstage | hout
    · cases s with
      | join =>
        cases List.mem_singleton.1 hstage
        exact .joined
      | send again =>
        obtain ⟨token, htoken, rfl⟩ := Option.map_eq_some_iff.1 (Option.mem_toList.1 hstage)
        refine .sent ?_
        cases hfetch : e.script.fetch.1 with
        | ok token' =>
          rw [hfetch] at htoken
          cases htoken
          rfl
        | error f =>
          rw [hfetch] at htoken
          cases htoken
      | receive again a =>
        cases List.mem_singleton.1 hstage
        exact .received
    · obtain ⟨r, hr, rfl⟩ := Option.map_eq_some_iff.1 (Option.mem_toList.1 hout)
      exact .exchanged hr
  | conclude p r =>
    cases p with
    | entry run x =>
      cases r with
      | ok body =>
        have hin : h ∈ if x.caller.isNone then
            (Dispatch.deliver e.table x.request body).2.filterMap Notice.callback? else [] := hmem
        split at hin
        case isTrue hcaller =>
          obtain ⟨n, -, hn⟩ := List.mem_filterMap.1 hin
          cases n with
          | log line => cases hn
          | callback l s u =>
            cases hn
            exact .callback (Option.isNone_iff_eq_none.1 hcaller)
        case isFalse => cases hin
      | error f =>
        obtain ⟨hf, rfl⟩ := houtage hmem
        exact .outage hf.1
    | probe outage next =>
      obtain ⟨-, rfl⟩ := houtage hmem
      exact .recovered
    | lookup l =>
      cases List.mem_singleton.1 hmem
      exact .answered
  | take | startPoll | startProbe | probe | route | submit | await => cases hmem

/-- What is recorded of a move is recorded of the task that acts. -/
theorem notes_of_move {e : Engine} {m : Move} {h : Happening} (hmem : h ∈ e.records m) :
    ∃ id d, m = .act id ∧ e.ready? id = some d ∧ e.Notes id d h := by
  cases m with
  | obey | elapse | pass | plan => cases hmem
  | act id =>
    cases hready : e.ready? id with
    | none =>
      rw [records_of_not_ready hready] at hmem
      cases hmem
    | some d =>
      rw [records_of_ready hready] at hmem
      exact ⟨id, d, rfl, hready, notes_of_mem_records hmem⟩

/-! ## Operations that record nothing -/

theorem annals_of_frame {e e' : Engine} (h : e'.frame = e.frame) : e'.annals = e.annals := by
  show e'.frame.annals = e.frame.annals
  rw [h]

theorem record_annals {h : Happening} (hh : h.isLog = false) :
    (e.record h).annals = e.annals.add [h] := by
  unfold annals record Annals.add
  rw [List.reverse_cons, List.filter_append]
  simp [hh]

@[simp] theorem log_annals (l : LogLine) : (e.log l).annals = e.annals := by
  unfold annals log record
  rw [List.reverse_cons, List.filter_append]
  simp [Happening.isLog]

@[simp] theorem logAll_annals (ls : List LogLine) : (e.logAll ls).annals = e.annals := by
  induction ls generalizing e with
  | nil => rfl
  | cons l ls ih => exact (ih (e.log l)).trans (log_annals e l)

theorem enter_annals (phase : Phase) : Engine.annals { e with phase } = e.annals := rfl

@[simp] theorem spawn_annals (d : Duty) : (e.spawn d).annals = e.annals := rfl

@[simp] theorem finish_annals : (e.finish id).annals = e.annals := rfl

@[simp] theorem park_annals (d : Duty) (w : Wait) : (e.park id d w).annals = e.annals := rfl

@[simp] theorem proceed_annals (d : Duty) : (e.proceed id d).annals = e.annals :=
  annals_of_frame (e.proceed_frame id d)

@[simp] theorem sleep_annals (d : Duty) (due : Nat) : (e.sleep id d due).annals = e.annals :=
  annals_of_frame (e.sleep_frame id d due)

@[simp] theorem wake_annals : (e.wake id).annals = e.annals := annals_of_frame (e.wake_frame id)

@[simp] theorem wakeTaker_annals : e.wakeTaker.annals = e.annals := annals_of_frame e.wakeTaker_frame

@[simp] theorem reply_annals (r : Except RequestError String) : (e.reply id r).annals = e.annals :=
  annals_of_frame (e.reply_frame id r)

@[simp] theorem replyAll_annals (ids : List TaskId) (r : Except RequestError String) :
    (e.replyAll ids r).annals = e.annals := annals_of_frame (e.replyAll_frame ids r)

@[simp] theorem withdraw_annals (ps : List Permit) : (e.withdraw ps).annals = e.annals := by
  show (e.withdraw ps).frame.annals = e.annals
  rw [withdraw_frame]
  rfl

@[simp] theorem inserted_annals (i : Queue.Insertion) : (e.inserted i).annals = e.annals := by
  show (e.inserted i).frame.annals = e.annals
  rw [inserted_frame, logAll_annals]
  rfl

@[simp] theorem enqueueAll_annals (rs : List Request) : (e.enqueueAll rs).annals = e.annals := by
  unfold enqueueAll
  induction rs generalizing e with
  | nil => rfl
  | cons r rs ih => exact (ih _).trans (inserted_annals e _)

@[simp] theorem issue_annals : e.issue.2.annals = e.annals := rfl

@[simp] theorem startStandard_annals : e.startStandard.2.annals = e.annals := by
  unfold startStandard
  dsimp only
  split <;> simp

@[simp] theorem startSoftware_annals : e.startSoftware.2.annals = e.annals := by
  unfold startSoftware
  dsimp only
  split <;> simp

@[simp] theorem startRun_annals : e.startRun.annals = e.annals := by
  unfold startRun
  dsimp only
  refine (enter_annals _ _).trans ?_
  rw [spawn_annals, spawn_annals, startSoftware_annals, startStandard_annals]
  rfl

@[simp] theorem stop_annals : e.stop.annals = e.annals := by
  unfold stop
  dsimp only
  rw [replyAll_annals]
  split
  · rfl
  · exact withdraw_annals e _
  · exact withdraw_annals e _

@[simp] theorem replay_annals (entry : Entry) : (e.replay entry).annals = e.annals := by
  unfold replay
  dsimp only
  split <;> simp

@[simp] theorem refuseWaiting_annals (error : RequestError) :
    (e.refuseWaiting error).annals = e.annals := replyAll_annals _ _ _

@[simp] theorem pause_annals (run : Permit) : (e.pause id run).annals = e.annals := by
  unfold pause
  split <;> simp

@[simp] theorem mergeListing_annals (r : Except RequestError String) :
    (e.mergeListing r).annals = e.annals := by
  unfold mergeListing
  split
  · split <;> rfl
  · rfl

/-! ## Operations that record something -/

@[simp] theorem noticeAll_annals (ns : List Notice) :
    (ns.foldl notice e).annals = e.annals.add (ns.filterMap Notice.callback?) := by
  induction ns generalizing e with
  | nil => exact e.annals.add_nil.symm
  | cons n ns ih =>
    rw [List.foldl_cons, ih]
    cases n with
    | log l =>
      show (e.log l).annals.add _ = _
      rw [log_annals]
      rfl
    | callback l id u =>
      show (e.record (.callback l id u)).annals.add _ = _
      rw [record_annals e rfl, Annals.add_add]
      rfl

@[simp] theorem deliver_annals (r : Request) (body : String) : (e.deliver r body).annals =
    e.annals.add ((Dispatch.deliver e.table r body).2.filterMap Notice.callback?) :=
  noticeAll_annals _ _

theorem observeOutage_annals (error : RequestError) : (e.observeOutage error).annals =
    e.annals.add (e.annals.observer.map fun _ => Happening.outage error).toList := by
  have hobserver : e.annals.observer = e.observer := rfl
  rw [hobserver]
  unfold observeOutage
  cases e.observer with
  | none => exact e.annals.add_nil.symm
  | some observer =>
    cases observer with
    | recording => exact record_annals e rfl
    | logging => exact (log_annals _ _).trans (record_annals e rfl)

theorem observeRecovery_annals : e.observeRecovery.annals =
    e.annals.add (e.annals.observer.map fun _ => Happening.recovered).toList := by
  have hobserver : e.annals.observer = e.observer := rfl
  rw [hobserver]
  unfold observeRecovery
  cases e.observer with
  | none => exact e.annals.add_nil.symm
  | some observer =>
    cases observer with
    | recording => exact record_annals e rfl
    | logging => exact (log_annals _ _).trans (record_annals e rfl)

/-- The observer is told of an outage if the run was still the one that goes on. -/
theorem enterOutage_annals (root : Permit) (failed : Entry) (error : RequestError) :
    (e.enterOutage root failed error).annals = e.annals.add
      (if e.phase.isActive ∧ e.allows root then
        (e.observer.map fun _ => Happening.outage error).toList else []) := by
  unfold enterOutage
  split
  case h_1 run hphase =>
    by_cases hallows : e.allows root
    · rw [if_neg (by simp [hallows]), if_pos ⟨Phase.isActive_iff.2 ⟨run, hphase⟩, hallows⟩]
      dsimp only
      have hsame : ∀ x : Engine, x.annals = e.annals → ((Engine.refuseWaiting x error).issue.2.spawn
          (.startProbe (x.refuseWaiting error).issue.1)).annals = e.annals := by
        intro x hx
        rw [spawn_annals, issue_annals, refuseWaiting_annals, hx]
      have hreplay : (if failed.caller.isNone then (e.withdraw run.permits).replay failed
          else e.withdraw run.permits).annals = e.annals := by
        split <;> simp
      rw [observeOutage_annals, log_annals]
      refine congrArg (fun a : Annals => a.add (a.observer.map fun _ => .outage error).toList) ?_
      exact hsame _ hreplay
    · rw [if_pos (by simp [hallows]), if_neg fun h => hallows h.2]
      exact e.annals.add_nil.symm
  case h_2 hphase =>
    rw [if_neg fun h => ?_]
    · exact e.annals.add_nil.symm
    · obtain ⟨run, hrun⟩ := Phase.isActive_iff.1 h.1
      exact hphase run hrun

/-- The observer is told of the end of an outage if it was still the one that goes on. -/
theorem resume_annals (probe : Permit) : (e.resume probe).annals = e.annals.add
    (if e.phase.isOutage ∧ e.allows probe then
      (e.observer.map fun _ => Happening.recovered).toList else []) := by
  unfold resume
  split
  case h_1 outage hphase =>
    have hout : e.phase.isOutage = true := by
      rw [hphase]
      rfl
    by_cases hallows : e.allows probe
    · rw [if_neg (by simp [hallows]), if_pos ⟨hout, hallows⟩]
      dsimp only
      rw [observeRecovery_annals, log_annals, startRun_annals, withdraw_annals]
      rfl
    · rw [if_pos (by simp [hallows]), if_neg fun h => hallows h.2]
      exact e.annals.add_nil.symm
  case h_2 hphase =>
    rw [if_neg fun h => ?_]
    · exact e.annals.add_nil.symm
    · cases hp : e.phase with
      | outage probe => exact hphase probe hp
      | dormant | active =>
        rw [hp] at h
        cases h.1

@[simp] theorem leave_annals (p : Purpose) (r : Except RequestError String) :
    (e.leave id p r).annals = e.annals.add [.exchanged id p r] := by
  have hrecord : ∀ x : Engine, x.annals = e.annals →
      (x.record (.exchanged id p r)).annals = e.annals.add [.exchanged id p r] :=
    fun x hx => hx ▸ record_annals x rfl
  unfold leave
  dsimp only
  rw [proceed_annals]
  split
  · exact hrecord _ rfl
  · rw [wake_annals]
    exact hrecord _ rfl

@[simp] theorem tell_annals (r : Except RequestError Finding) :
    (e.tell id r).annals = e.annals.add [.found id r] := record_annals e rfl

/-! ## Tasks -/

theorem join_annals (p : Purpose) :
    (e.join id p).annals = e.annals.add ((Duty.exchange p .join).records e id) := by
  have hrecord : Engine.annals (Engine.record { e with line := e.line ++ [id] } (.joined id p)) =
      e.annals.add [.joined id p] := record_annals { e with line := e.line ++ [id] } rfl
  unfold join
  dsimp only
  split
  · exact (proceed_annals _ id _).trans hrecord
  · exact hrecord

theorem send_annals (p : Purpose) (again : Bool) :
    (e.send id p again).annals = e.annals.add ((Duty.exchange p (.send again)).records e id) := by
  unfold send Duty.records Stage.records result?
  cases e.script.fetch with
  | mk fetched script =>
    cases fetched with
    | error f => exact leave_annals _ id p _
    | ok token =>
      refine (sleep_annals _ id _ _).trans ?_
      exact record_annals { e with script := _ } rfl

theorem receive_annals (p : Purpose) (again : Bool) (a : Arrival) : (e.receive id p again a).annals =
    e.annals.add ((Duty.exchange p (.receive again a)).records e id) := by
  have hrecord : (e.record (.received id p a)).annals = e.annals.add [.received id p a] :=
    record_annals e rfl
  have hleave : ∀ (x : Engine) (r : Except RequestError String),
      x.annals = e.annals.add [.received id p a] →
      (x.leave id p r).annals = e.annals.add ([.received id p a] ++ [.exchanged id p r]) := by
    intro x r hx
    rw [leave_annals, hx, Annals.add_add]
  unfold receive Duty.records Stage.records result?
  cases a with
  | error m => exact hleave _ _ hrecord
  | ok response =>
    dsimp only
    split
    · exact (proceed_annals _ id _).trans hrecord
    · cases response.outcome with
      | ok body => exact hleave _ _ hrecord
      | error f =>
        dsimp only
        split
        · exact hleave _ _ ((log_annals _ _).trans hrecord)
        · exact hleave _ _ hrecord

theorem listen_annals (run : Permit) : (e.listen id run).annals = e.annals :=
  annals_of_frame (e.listen_frame id run)

theorem take_annals (run : Permit) : (e.take id run).annals = e.annals := by
  unfold take
  split
  · rfl
  · split
    · exact listen_annals _ id run
    · exact proceed_annals _ id _

theorem startPoll_annals (permit : Permit) (p : Poll) (delay period : Nat) :
    (e.startPoll id permit p delay period).annals = e.annals := by
  unfold startPoll
  split <;> simp

theorem poll_annals (permit : Permit) (p : Poll) (period due : Nat) :
    (e.poll id permit p period due).annals =
      e.annals.add ((Duty.poll permit p period due).records e id) := by
  have hrecords : (Duty.poll permit p period due).records e id =
      if e.allows permit ∧ due ≤ e.clock then [.polled permit p (p.requests e.table)] else [] := rfl
  rw [hrecords]
  unfold poll
  by_cases hallows : e.allows permit
  · rw [if_neg (by simp [hallows])]
    by_cases hdue : due ≤ e.clock
    · rw [if_neg (Nat.not_lt.2 hdue), if_pos ⟨hallows, hdue⟩]
      dsimp only
      rw [sleep_annals, enqueueAll_annals]
      exact record_annals e rfl
    · rw [if_pos (Nat.not_le.1 hdue), if_neg fun h => hdue h.2, sleep_annals, Annals.add_nil]
  · rw [if_pos (by simp [hallows]), if_neg fun h => hallows h.1, finish_annals, Annals.add_nil]

theorem startProbe_annals (outage : Permit) : (e.startProbe id outage).annals = e.annals := by
  unfold startProbe
  split <;> simp

theorem probe_annals (outage : Permit) (due : Nat) : (e.probe id outage due).annals = e.annals := by
  unfold probe
  split
  · rfl
  · split <;> simp

theorem consult_annals (l : Lookup) :
    (e.consult id l).annals = e.annals.add ((Duty.consult l).records e id) := by
  have hrecords : (Duty.consult l).records e id =
      ((l.cached? e.table).map fun f => .found id (.ok f)).toList := rfl
  rw [hrecords]
  unfold consult
  cases l.cached? e.table with
  | some f => exact tell_annals e id _
  | none => exact (proceed_annals e id _).trans e.annals.add_nil.symm

theorem route_annals (l : Lookup) : (e.route id l).annals = e.annals := by
  unfold route
  split <;> simp

theorem submit_annals (l : Lookup) : (e.submit id l).annals = e.annals := by
  unfold submit
  dsimp only
  split <;> simp

theorem concludeEntry_annals (run : Permit) (x : Entry) (r : Except RequestError String) :
    (e.concludeEntry id run x r).annals =
      e.annals.add ((Duty.conclude (.entry run x) r).records e id) := by
  -- whether the caller of the failed request is told first is not recorded
  have hout : ∀ e' : Engine, e'.annals = e.annals → e'.phase = e.phase → e'.permits = e.permits →
      ∀ f : RequestError, f.isServer → ((e'.enterOutage run x f).finish id).annals =
        e.annals.add ((Duty.conclude (.entry run x) (.error f)).records e id) := by
    intro e' hannals hphase hpermits f hf
    have hallows : e'.allows run = e.allows run := congrArg (·.contains run) hpermits
    have hobserver : e'.observer = e.observer := congrArg Annals.observer hannals
    rw [finish_annals, enterOutage_annals, hannals, hphase, hallows, hobserver]
    unfold Duty.records
    simp only [hf, true_and]
  have hstay : ∀ f : RequestError, ¬ f.isServer →
      (Duty.conclude (.entry run x) (.error f)).records e id = [] := fun f hf =>
    if_neg fun h => hf h.1
  unfold concludeEntry
  split
  case h_1 body hcaller =>
    have hrecords : (Duty.conclude (.entry run x) (.ok body)).records e id =
        (Dispatch.deliver e.table x.request body).2.filterMap Notice.callback? :=
      if_pos (by rw [hcaller]; rfl)
    rw [pause_annals, deliver_annals, hrecords]
  case h_2 body caller hcaller =>
    have hrecords : (Duty.conclude (.entry run x) (.ok body)).records e id = [] :=
      if_neg (by rw [hcaller]; exact Bool.false_ne_true)
    rw [pause_annals, reply_annals, hrecords, Annals.add_nil]
  case h_3 f _ =>
    split
    case isTrue hf => exact hout e rfl rfl rfl f hf
    case isFalse hf => rw [pause_annals, log_annals, hstay f hf, Annals.add_nil]
  case h_4 f caller _ =>
    split
    case isTrue hf =>
      have hframe := e.reply_frame caller (.error f)
      exact hout _ (reply_annals e caller _) (phase_of_frame hframe) (permits_of_frame hframe) f hf
    case isFalse hf => rw [pause_annals, reply_annals, hstay f hf, Annals.add_nil]

theorem concludeProbe_annals (outage : Permit) (next : Nat) (r : Except RequestError String) :
    (e.concludeProbe id outage next r).annals =
      e.annals.add ((Duty.conclude (.probe outage next) r).records e id) := by
  have hmerge := mergeListing_roster e r
  have hphase : (e.mergeListing r).phase = e.phase := phase_of_roster hmerge
  have hallows : (e.mergeListing r).allows outage = e.allows outage :=
    congrArg (·.contains outage) (permits_of_roster hmerge)
  have hobserver : (e.mergeListing r).observer = e.observer :=
    congrArg Annals.observer (e.mergeListing_annals r)
  have hrecords : (Duty.conclude (.probe outage next) r).records e id =
      if ¬ stillFails r ∧ e.phase.isOutage ∧ e.allows outage then
        (e.observer.map fun _ => Happening.recovered).toList else [] := by
    cases r <;> rfl
  rw [hrecords]
  unfold concludeProbe
  by_cases hr : stillFails r
  · rw [if_pos hr, if_neg fun h => h.1 hr, proceed_annals, Annals.add_nil]
  · rw [if_neg hr, finish_annals, resume_annals, mergeListing_annals, hphase, hallows, hobserver]
    simp only [hr, Bool.false_eq_true, not_false_eq_true, true_and]

theorem concludeLookup_annals (l : Lookup) (r : Except RequestError String) :
    (e.concludeLookup id l r).annals =
      e.annals.add ((Duty.conclude (.lookup l) r).records e id) := by
  unfold concludeLookup Duty.records Lookup.answer
  cases r with
  | error f => exact tell_annals e id _
  | ok body =>
    dsimp only
    cases l.read e.table body with
    | error f => exact tell_annals e id _
    | ok found => exact tell_annals { e with table := _ } id _

/-- What is recorded of a task. -/
theorem perform_annals (d : Duty) : (e.perform id d).annals = e.annals.add (d.records e id) := by
  unfold perform
  split
  case h_1 => exact (take_annals ..).trans (Annals.add_nil _).symm
  case h_2 => exact (startPoll_annals ..).trans (Annals.add_nil _).symm
  case h_3 => exact poll_annals ..
  case h_4 => exact (startProbe_annals ..).trans (Annals.add_nil _).symm
  case h_5 => exact (probe_annals ..).trans (Annals.add_nil _).symm
  case h_6 => exact consult_annals ..
  case h_7 => exact (route_annals ..).trans (Annals.add_nil _).symm
  case h_8 => exact (submit_annals ..).trans (Annals.add_nil _).symm
  case h_9 => exact (park_annals ..).trans (Annals.add_nil _).symm
  case h_10 => exact join_annals ..
  case h_11 => exact send_annals ..
  case h_12 => exact receive_annals ..
  case h_13 => exact concludeEntry_annals ..
  case h_14 => exact concludeProbe_annals ..
  case h_15 => exact concludeLookup_annals ..

/-! ## Moves -/

theorem demandAll_annals (rs : List Request) : (e.demandAll rs).2.annals = e.annals := by
  unfold demandAll
  generalize true = all
  induction rs generalizing e all with
  | nil => rfl
  | cons r rs ih => exact (ih _ _).trans (inserted_annals e _)

theorem addListener_annals (s : SystemId) (l : Listener) : (e.addListener s l).annals = e.annals := by
  have hlog : ∀ (x : Engine) (line : LogLine), x.annals = e.annals → (x.log line).annals = e.annals :=
    fun x line hx => (log_annals x line).trans hx
  unfold addListener
  dsimp only
  split
  · rw [startRun_annals]
    exact hlog _ _ (hlog _ _ rfl)
  · exact hlog _ _ rfl

theorem removeListener_annals (s : SystemId) (l : Listener) :
    (e.removeListener s l).2.annals = e.annals := by
  unfold removeListener
  dsimp only
  split
  · exact log_annals e _
  · dsimp only
    split
    · rw [log_annals, stop_annals]
      exact log_annals _ _
    · exact log_annals _ _

theorem setUpdateInterval_annals (interval : Nat) :
    (e.setUpdateInterval interval).annals = e.annals := by
  unfold setUpdateInterval
  dsimp only
  split
  · refine (startStandard_annals _).trans ((withdraw_annals _ _).trans ?_)
    exact log_annals _ _
  · exact log_annals _ _

theorem setSoftwareDays_annals (days : Int) : (e.setSoftwareDays days).annals = e.annals := by
  unfold setSoftwareDays
  dsimp only
  split
  · refine (startSoftware_annals _).trans ((withdraw_annals _ _).trans ?_)
    exact log_annals _ _
  · exact log_annals _ _

/-- A call of the host is not recorded. -/
theorem obey_annals (c : Command) : (e.obey c).2.annals = e.annals := by
  cases c with
  | addListener s l => exact addListener_annals e s l
  | removeListener s l => exact removeListener_annals e s l
  | lookup l => rfl
  | setUpdateInterval seconds => exact setUpdateInterval_annals e _
  | setSoftwareDays days => exact setSoftwareDays_annals e days
  | shutdown => exact (stop_annals _).trans (log_annals _ _)
  | removeThermostat | removeTracked => rfl
  | addTracked s p => exact logAll_annals _ _
  | requestParameters s ps => exact demandAll_annals e _
  | requestSystem | requestStatus | requestAlarm | requestSoftware | requestMode | setParameters
  | setMode | setThermostat => exact inserted_annals _ _

/-- A move that takes no time records something, and leaves the time and the observer as they are. -/
theorem move_annals {m : Move} (hm : m.passes = false) :
    (e.move m).annals = e.annals.add (e.records m) := by
  cases m with
  | obey c => exact (obey_annals e c).trans (Annals.add_nil _).symm
  | plan => exact (Annals.add_nil _).symm
  | elapse | pass => cases hm
  | act id =>
    show (e.act id).annals = _
    cases hready : e.ready? id with
    | none =>
      rw [act_of_not_ready hready, records_of_not_ready hready]
      exact (Annals.add_nil _).symm
    | some d =>
      rw [act_of_ready hready, records_of_ready hready]
      exact perform_annals e id d

theorem move_clock {m : Move} (hm : m.passes = false) : (e.move m).clock = e.clock :=
  congrArg Annals.clock (move_annals e hm)

theorem move_observer (m : Move) : (e.move m).observer = e.observer := by
  cases hm : m.passes with
  | false => exact congrArg Annals.observer (move_annals e hm)
  | true => cases m <;> first | rfl | cases hm

/-- What a move adds to the chronicle. -/
theorem move_chronicle (m : Move) :
    (e.move m).chronicle = e.chronicle ++ (e.records m).map (⟨e.clock, ·⟩) := by
  cases hm : m.passes with
  | false => exact congrArg Annals.events (move_annals e hm)
  | true => cases m <;> first | exact (List.append_nil _).symm | cases hm

/-- What was recorded, whenever it happened. -/
def happenings (e : Engine) : List Happening := e.chronicle.map (·.what)

theorem move_happenings (m : Move) : (e.move m).happenings = e.happenings ++ e.records m := by
  unfold happenings
  rw [move_chronicle, List.map_append, List.map_map]
  exact congrArg (e.chronicle.map _ ++ ·) (List.map_id _)

end Engine

end HeatWatch
