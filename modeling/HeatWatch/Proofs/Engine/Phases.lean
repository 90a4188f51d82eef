import HeatWatch.Proofs.Engine.Staff
import HeatWatch.Proofs.Engine.Supply

/-!
# Phases and their tasks

In each phase exactly the tasks are at work that it asks for, and whoever loses its permit does no
more harm. Main statements:

* `act_of_withdrawn`: a task whose permit is withdrawn leaves the queue and the phase alone;
* `phases_and_tasks`: the permits and the tasks of each phase, after every run.
-/

namespace HeatWatch

namespace Engine

variable {e : Engine} {id : TaskId} {d : Duty}

/-! ## Without a permit -/

theorem allows_iff {p : Permit} : e.allows p = true ↔ p ∈ e.permits := by
  unfold allows
  rw [List.contains_eq_mem, decide_eq_true_iff]

/-- Without a permit a task asks nothing of the queue. -/
theorem asks_of_withdrawn {p : Permit} (hd : d.post.permit? = some p) (hp : p ∉ e.permits) :
    d.asks e id = [] := by
  have hallows : ¬ e.allows p := fun h => hp (allows_iff.1 h)
  unfold Duty.asks
  split
  case h_1 run =>
    obtain rfl : run = p := Option.some.inj hd
    exact if_neg hallows
  case h_2 permit poll period due =>
    obtain rfl : permit = p := Option.some.inj hd
    exact if_neg fun h => hallows h.1
  case h_3 => cases hd
  case h_4 run entry f =>
    obtain rfl : run = p := Option.some.inj hd
    exact if_neg fun h => hallows h.2.2
  case h_5 => rfl

theorem phase_of_roster {e' : Engine} (h : e'.roster = e.roster) : e'.phase = e.phase :=
  congrArg Roster.phase h

theorem permits_of_roster {e' : Engine} (h : e'.roster = e.roster) : e'.permits = e.permits :=
  congrArg Roster.permits h

/-- A permit in force after a run was in force before if it was issued then. -/
theorem mem_permits_of_follow {ms : List Move} (hr : e.roster.Orderly) {p : Permit}
    (hp : p < e.nextPermit) (hin : p ∈ (e.follow ms).permits) : p ∈ e.permits :=
  Decidable.not_not.1 fun hout => (follow_evolves hr ms).later.withdrawn hp hout hin

/-- So it is with the permit of a task after a move. -/
theorem mem_permits_of_move {m : Move} (hr : e.roster.Orderly) {w : Post} {p : Permit}
    (hw : e.post? id = some w) (hp : w.permit? = some p) (hin : p ∈ (e.move m).permits) :
    p ∈ e.permits := by
  have hlast : p ∈ (e.follow [m]).permits := hin
  exact mem_permits_of_follow hr (hr.sworn hw hp) hlast

/-! ## Operations that keep the phase -/

section

variable (e : Engine) (id : TaskId)

theorem sleep_phase (d : Duty) (due : Nat) : (e.sleep id d due).phase = e.phase :=
  phase_of_frame (e.sleep_frame id d due)

theorem proceed_phase (d : Duty) : (e.proceed id d).phase = e.phase :=
  phase_of_frame (e.proceed_frame id d)

theorem pause_phase (run : Permit) : (e.pause id run).phase = e.phase := by
  unfold pause
  split
  · rfl
  · exact e.sleep_phase id _ _

theorem listen_phase (run : Permit) : (e.listen id run).phase = e.phase :=
  phase_of_frame (e.listen_frame id run)

theorem take_phase (run : Permit) : (e.take id run).phase = e.phase := by
  unfold take
  split
  · rfl
  · split
    · exact listen_phase _ id run
    · exact proceed_phase _ id _

theorem startPoll_phase (permit : Permit) (p : Poll) (delay period : Nat) :
    (e.startPoll id permit p delay period).phase = e.phase := by
  unfold startPoll
  split
  · rfl
  · exact e.proceed_phase id _

theorem poll_phase (permit : Permit) (p : Poll) (period due : Nat) :
    (e.poll id permit p period due).phase = e.phase := by
  unfold poll
  split
  · rfl
  · split
    · exact e.sleep_phase id _ _
    · exact (sleep_phase _ id _ _).trans (phase_of_roster (enqueueAll_roster _ _))

theorem startProbe_phase (outage : Permit) : (e.startProbe id outage).phase = e.phase := by
  unfold startProbe
  split
  · rfl
  · exact e.proceed_phase id _

theorem probe_phase (outage : Permit) (due : Nat) :
    (e.probe id outage due).phase = e.phase := by
  unfold probe
  split
  · rfl
  · split
    · exact e.sleep_phase id _ _
    · exact e.proceed_phase id _

theorem consult_phase (l : Lookup) : (e.consult id l).phase = e.phase := by
  unfold consult
  split
  · rfl
  · exact e.proceed_phase id _

theorem concludeLookup_phase (l : Lookup) (r : Except RequestError String) :
    (e.concludeLookup id l r).phase = e.phase := by
  unfold concludeLookup
  split
  · rfl
  · split <;> rfl

end

/-- A probe ends no outage that is over. -/
theorem concludeProbe_phase {outage : Permit} (hout : outage ∉ e.permits) (next : Nat)
    (r : Except RequestError String) : (e.concludeProbe id outage next r).phase = e.phase := by
  have hmerge := mergeListing_roster e r
  unfold concludeProbe
  split
  · exact e.proceed_phase id _
  · rw [resume_of_withdrawn (permits_of_roster hmerge ▸ hout)]
    show (e.mergeListing r).phase = e.phase
    exact phase_of_roster hmerge

/-- A request ends no run unless it fails, and none that is over. -/
theorem concludeEntry_phase {run : Permit} {x : Entry} {r : Except RequestError String}
    (hout : ∀ f, r = .error f → f.isServer = true → run ∉ e.permits) :
    (e.concludeEntry id run x r).phase = e.phase := by
  unfold concludeEntry
  split
  case h_1 body _ => exact (pause_phase _ id run).trans (phase_of_roster (deliver_roster e _ _))
  case h_2 body caller _ =>
    exact (pause_phase _ id run).trans (phase_of_roster (reply_roster e caller _))
  case h_3 f _ =>
    split
    -- the run is over, so its failure leads to no outage
    case isTrue hf =>
      rw [enterOutage_of_withdrawn (hout f rfl hf)]
      rfl
    case isFalse => exact pause_phase _ id run
  case h_4 f caller _ =>
    have hroster := reply_roster e caller (.error f)
    split
    case isTrue hf =>
      rw [enterOutage_of_withdrawn (permits_of_roster hroster ▸ hout f rfl hf)]
      show (e.reply caller (.error f)).phase = e.phase
      exact phase_of_roster hroster
    case isFalse => exact (pause_phase _ id run).trans (phase_of_roster hroster)

/-- Only the failure of a request ends a run, and only a probe ends an outage. -/
theorem perform_phase (hw : e.post? id = some d.post)
    (hentry : ∀ run x f, d = .conclude (.entry run x) (.error f) → f.isServer = true →
      run ∉ e.permits)
    (hprobe : ∀ outage next r, d = .conclude (.probe outage next) r → outage ∉ e.permits) :
    (e.perform id d).phase = e.phase := by
  unfold perform
  split
  case h_1 run => exact e.take_phase id run
  case h_2 permit p delay period => exact e.startPoll_phase id permit p delay period
  case h_3 permit p period due => exact e.poll_phase id permit p period due
  case h_4 outage => exact e.startProbe_phase id outage
  case h_5 outage due => exact e.probe_phase id outage due
  case h_6 l => exact e.consult_phase id l
  case h_7 l => exact phase_of_roster (route_roster hw l)
  case h_8 l => exact phase_of_roster (submit_roster hw l)
  case h_9 => rfl
  case h_10 => exact phase_of_roster (join_roster hw)
  case h_11 again => exact phase_of_roster (send_roster hw again)
  case h_12 again a => exact phase_of_roster (receive_roster hw again a)
  case h_13 run x r => exact concludeEntry_phase fun f hf => hentry run x f (hf ▸ rfl)
  case h_14 outage next r => exact concludeProbe_phase (hprobe outage next r rfl) next r
  case h_15 l r => exact e.concludeLookup_phase id l r

/-! ## Calls of the host during a run -/

end Engine

/-- The permits of a run after a call of the host that goes on with it: two calls renew one. -/
def Command.renews (fresh : Permit) (run : Run) : Command → Run
  | .setUpdateInterval _ => { run with standard := fresh }
  | .setSoftwareDays _ => { run with software := fresh }
  | _ => run

def Move.renews (fresh : Permit) (run : Run) : Move → Run
  | .obey c => c.renews fresh run
  | _ => run

theorem Command.renews_root (c : Command) (fresh : Permit) (run : Run) :
    (c.renews fresh run).root = run.root := by
  cases c <;> rfl

theorem Move.renews_root (m : Move) (fresh : Permit) (run : Run) :
    (m.renews fresh run).root = run.root := by
  cases m with
  | obey c => exact c.renews_root fresh run
  | act | elapse | pass | plan => rfl

namespace Engine

variable {e : Engine} {id : TaskId} {d : Duty}

theorem withdraw_nextPermit (e : Engine) (ps : List Permit) :
    (e.withdraw ps).nextPermit = e.nextPermit :=
  congrArg Roster.nextPermit (e.withdraw_roster ps)

section

variable {run : Run} (hphase : e.phase = .active run)
include hphase

theorem addListener_phase (s : SystemId) (l : Listener) : (e.addListener s l).phase = e.phase := by
  unfold addListener
  dsimp only
  split
  case h_1 h => cases hphase.symm.trans h
  case h_2 => rfl

omit hphase in
/-- A run goes on after a listener is removed that is not the last one. -/
theorem removeListener_phase {s : SystemId} {l : Listener}
    (hstop : (Command.removeListener s l).stops e.table = false) :
    (e.removeListener s l).2.phase = e.phase := by
  have hnot : ¬ ((e.table.removeListener s l).1 = true ∧
      (e.table.removeListener s l).2.listenerCount = 0) := by
    have h : ((e.table.removeListener s l).1 &&
      (e.table.removeListener s l).2.listenerCount = 0) = false := hstop
    simpa using h
  unfold removeListener
  generalize e.table.removeListener s l = removal at hnot
  obtain ⟨removed, table⟩ := removal
  dsimp only
  split
  case isTrue => rfl
  case isFalse hremoved =>
    dsimp only
    rw [if_neg fun hnone => hnot ⟨by simpa using hremoved, hnone⟩]
    rfl

theorem setUpdateInterval_phase (interval : Nat) :
    (e.setUpdateInterval interval).phase = .active { run with standard := e.nextPermit } := by
  unfold setUpdateInterval
  dsimp only
  split
  case h_1 run' h =>
    have hsame : e.phase = .active run' := h
    cases hsame.symm.trans hphase
    exact congrArg (fun p => Phase.active { run with standard := p }) (withdraw_nextPermit _ _)
  case h_2 h => exact absurd hphase (h run)

theorem setSoftwareDays_phase (days : Int) :
    (e.setSoftwareDays days).phase = .active { run with software := e.nextPermit } := by
  unfold setSoftwareDays
  dsimp only
  split
  case h_1 run' h =>
    have hsame : e.phase = .active run' := h
    cases hsame.symm.trans hphase
    exact congrArg (fun p => Phase.active { run with software := p }) (withdraw_nextPermit _ _)
  case h_2 h => exact absurd hphase (h run)

/-- A call of the host ends no run, unless it ends everything. -/
theorem obey_run {c : Command} (hstop : c.stops e.table = false) :
    (e.obey c).2.phase = .active (c.renews e.nextPermit run) := by
  cases c with
  | addListener s l => exact (addListener_phase hphase s l).trans hphase
  | removeListener s l => exact (removeListener_phase hstop).trans hphase
  | setUpdateInterval seconds => exact setUpdateInterval_phase hphase _
  | setSoftwareDays days => exact setSoftwareDays_phase hphase days
  | shutdown => cases hstop
  | lookup | removeThermostat | removeTracked => exact hphase
  | addTracked s p => exact (phase_of_roster (logAll_roster _ _)).trans hphase
  | requestParameters s ps => exact (phase_of_roster (demandAll_roster _)).trans hphase
  | requestSystem | requestStatus | requestAlarm | requestSoftware | requestMode | setParameters
  | setMode | setThermostat => exact (phase_of_roster (inserted_roster _ _)).trans hphase

end

/-- A run goes on as long as its queue is not cleared and no callers are taken out of it. -/
theorem active_of_kept (hr : e.roster.Orderly) {run : Run} (hphase : e.phase = .active run)
    {m : Move} (hclear : Queue.Op.clear ∉ e.asks m) (hwaiting : Queue.Op.takeWaiting ∉ e.asks m) :
    (e.move m).phase = .active (m.renews e.nextPermit run) := by
  cases m with
  | elapse | pass | plan => exact hphase
  | obey c =>
    refine obey_run hphase (Bool.eq_false_iff.2 fun h => hclear ?_)
    show _ ∈ c.asks e.table
    unfold Command.asks
    rw [if_pos h]
    exact List.mem_singleton_self _
  | act id =>
    show (e.act id).phase = .active run
    cases hready : e.ready? id with
    | none =>
      rw [act_of_not_ready hready]
      exact hphase
    | some d =>
      have hd : e.post? id = some d.post := post?_of_ready? hready
      rw [act_of_ready hready]
      refine (perform_phase hd (fun root x f heq hf hin => hwaiting ?_) ?_).trans hphase
      · -- a run that fails takes the callers out
        rw [asks_of_ready hready, heq]
        show _ ∈ if _ then _ else _
        rw [if_pos ⟨hf, Phase.isActive_iff.2 ⟨run, hphase⟩, allows_iff.2 hin⟩]
        exact List.mem_append_right _ (List.mem_singleton_self _)
      · -- a probe may only go on in an outage
        intro outage next r heq hin
        subst heq
        cases hphase.symm.trans (hr.prober hd hin)

theorem root_of_kept (hr : e.roster.Orderly) {run : Run} (hphase : e.phase = .active run) {m : Move}
    (hclear : Queue.Op.clear ∉ e.asks m) (hwaiting : Queue.Op.takeWaiting ∉ e.asks m) :
    run.root ∈ (e.move m).permits := by
  have hr' : (e.move m).roster.Orderly := (move_evolves hr m).orderly hr
  refine (hr'.permits run.root).2 ?_
  show run.root ∈ (e.move m).phase.permits
  rw [active_of_kept hr hphase hclear hwaiting, ← m.renews_root e.nextPermit run]
  exact List.mem_cons_self

/-- A task whose permit is withdrawn takes nothing from the queue, puts nothing into it, and changes
no phase. -/
theorem act_of_withdrawn {w : Post} {p : Permit} (hw : e.post? id = some w)
    (hp : w.permit? = some p) (hout : p ∉ e.permits) :
    (e.act id).queue = e.queue ∧ (e.act id).phase = e.phase := by
  cases hready : e.ready? id with
  | none =>
    rw [act_of_not_ready hready]
    exact ⟨rfl, rfl⟩
  | some d =>
    have hd : e.post? id = some d.post := post?_of_ready? hready
    obtain rfl := Option.some.inj (hw.symm.trans hd)
    rw [act_of_ready hready]
    refine ⟨?_, perform_phase hd (fun run x f heq _ hin => ?_) fun outage next r heq hin => ?_⟩
    · rw [perform_queue, asks_of_withdrawn hp hout]
      rfl
    · subst heq
      obtain rfl := Option.some.inj hp
      exact hout hin
    · subst heq
      obtain rfl := Option.some.inj hp
      exact hout hin

/-- What is withdrawn stays withdrawn, and the task keeps its post until it ends. -/
theorem follow_of_withdrawn (hr : e.roster.Orderly) {w : Post} {p : Permit}
    (hw : e.post? id = some w) (hp : w.permit? = some p) (hout : p ∉ e.permits) (ms : List Move) :
    p ∉ (e.follow ms).permits ∧
      ((e.follow ms).post? id = some w ∨ (e.follow ms).post? id = none) := by
  have hlater := (follow_evolves hr ms).later
  have hlt : id < e.nextTask := by
    refine Nat.lt_of_not_le fun hge => ?_
    cases (hr.known id hge).symm.trans hw
  -- permits that were issued and withdrawn never come back
  refine ⟨hlater.withdrawn (hr.sworn hw hp) hout, ?_⟩
  rcases hlater.post hlt with hsame | hnone
  · exact .inl (hsame.trans hw)
  · exact .inr hnone

/-- A task that has ended does nothing. -/
theorem act_of_ended (h : e.post? id = none) : e.act id = e := by
  cases hready : e.ready? id with
  | none => exact act_of_not_ready hready
  | some d => cases h.symm.trans (post?_of_ready? hready)

/-! ## Phases -/

/-- Exactly these permits are in force; each of these posts has exactly one task, and any other task
has no permit to go on. -/
structure Staffed (e : Engine) (ps : List Permit) (ws : List Post) : Prop where
  permits : ∀ p, e.allows p = true ↔ p ∈ ps
  distinct : ps.Nodup
  filled : ∀ w ∈ ws, ∃ id, e.post? id = some w ∧ ∀ id', e.post? id' = some w → id' = id
  only : ∀ {id w p}, e.post? id = some w → w.permit? = some p → e.allows p = true → w ∈ ws

theorem staffed_of_roster (hr : e.roster.Orderly) (hm : e.roster.Manned)
    (hb : 0 < e.settings.heartbeatInterval) (ha : 0 < e.settings.aliveInterval) :
    e.Staffed e.phase.permits (e.phase.staff e.settings) where
  permits p := allows_iff.trans (hr.permits p)
  distinct := hr.distinct
  filled w hw := by
    obtain ⟨id, hid⟩ := hm w hw (Roster.not_mayQuit_of_mem_staff hr hb ha hw)
    obtain ⟨p, hin, hp⟩ := Roster.permit_of_mem_staff hw
    exact ⟨id, hid, fun id' hid' => hr.once hid' hid hp ((hr.permits p).2 hin)⟩
  only hw hp hin := hr.only hw hp (allows_iff.1 hin)

/-- After every run the permits and the tasks are the ones of the phase. In a run these are three
permits, the task that takes from the queue, and one task for each poll that is switched on; in an
outage one permit and the task that probes; nothing at all while the engine is dormant. A task
whose permit is withdrawn never again takes from the queue, puts into it or changes the phase. -/
theorem phases_and_tasks (settings : EngineSettings) (service : Service)
    (observer : Option Observer) (script : Script) (hb : 0 < settings.heartbeatInterval)
    (ha : 0 < settings.aliveInterval) (ms : List Move) :
    let e := (start settings service observer script).follow ms
    e.Staffed e.phase.permits (e.phase.staff e.settings) ∧
      ∀ id w p, e.post? id = some w → w.permit? = some p → ¬ e.allows p = true →
        ∀ ms', let e' := e.follow ms'
          ¬ e'.allows p = true ∧ (e'.post? id = some w ∨ e'.post? id = none) ∧
            (e'.act id).queue = e'.queue ∧ (e'.act id).phase = e'.phase := by
  intro e
  have hr : e.roster.Orderly := follow_orderly settings service observer script ms
  have hm : e.roster.Manned := follow_manned settings service observer script ms
  have hevolves := follow_evolves (start_orderly settings service observer script) ms
  have hb' : 0 < e.settings.heartbeatInterval := Nat.lt_of_lt_of_eq hb hevolves.heartbeat.symm
  have ha' : 0 < e.settings.aliveInterval := Nat.lt_of_lt_of_eq ha hevolves.alive.symm
  refine ⟨staffed_of_roster hr hm hb' ha', fun id w p hw hp hout ms' => ?_⟩
  obtain ⟨hout', hpost⟩ := follow_of_withdrawn hr hw hp (mt allows_iff.2 hout) ms'
  refine ⟨mt allows_iff.1 hout', hpost, ?_⟩
  -- the task still has its post and no permit, or it has ended
  rcases hpost with hsame | hnone
  · exact act_of_withdrawn hsame hp hout'
  · rw [act_of_ended hnone]
    exact ⟨rfl, rfl⟩

/-- So it is after a run has begun and was given up while the default settings were in force. -/
theorem phases_and_tasks_default :
    let service : Service := ⟨"http://localhost", 1000⟩
    let e := (start .default service none ⟨[], [], [], 0, 0⟩).follow
      [.obey (.addListener ⟨1⟩ .silent), .act 0, .obey .shutdown]
    e.Staffed e.phase.permits (e.phase.staff e.settings) ∧
      ∀ id w p, e.post? id = some w → w.permit? = some p → ¬ e.allows p = true →
        ∀ ms', let e' := e.follow ms'
          ¬ e'.allows p = true ∧ (e'.post? id = some w ∨ e'.post? id = none) ∧
            (e'.act id).queue = e'.queue ∧ (e'.act id).phase = e'.phase :=
  phases_and_tasks .default ⟨"http://localhost", 1000⟩ none ⟨[], [], [], 0, 0⟩ (by decide)
    (by decide) [.obey (.addListener ⟨1⟩ .silent), .act 0, .obey .shutdown]

end Engine

end HeatWatch
