import HeatWatch.Proofs.Engine.Others
import HeatWatch.Proofs.Engine.Staff
import HeatWatch.Proofs.Engine.Supply
import HeatWatch.Proofs.Engine.Ledger

/-!
# What a task does next

The point that a task goes to is a function of the point where it is and of the state. The others
are nudged at most, but for the one that gets the wire. Main statements:

* `perform_turn`: where a task goes, and what becomes of the others;
* `move_own`, `move_others`, `move_new`: what a move changes of any task;
* `move_duty`, `move_duty_of`: where a task is that does not act.
-/

namespace HeatWatch

namespace Engine

/-- What will come back for a call that is sent now. -/
def arrival (e : Engine) (p : Purpose) : Arrival :=
  (e.service.await (e.script.fetch.2.reply (e.service.url p.request.path)).1).arrival

/-- The task that gets the wire from one that leaves the line at a point. -/
def heir? (e : Engine) (d : Duty) : Option TaskId :=
  if (e.result? d).isSome then (e.line.drop 1).head? else none

end Engine

/-- How far an exchange comes that a task does not leave the line with. -/
def Stage.next (e : Engine) (p : Purpose) : Stage → Stage
  | .join => .send false
  | .send again => .receive again (e.arrival p)
  | .receive .. => .send true

/-- Where a task goes from a point; nowhere if it ends. -/
def Duty.next (e : Engine) : Duty → Option Duty
  | .take run =>
    if e.allows run then
      some (e.queue.entries.head?.elim (.take run) fun x => .exchange (.entry run x) .join)
    else none
  | .startPoll permit p delay period =>
    if e.allows permit ∧ period ≠ 0 then some (.poll permit p period (e.clock + delay)) else none
  | .poll permit p period due =>
    if e.allows permit then
      some (.poll permit p period (if due ≤ e.clock then Engine.nextTick due e.clock period else due))
    else none
  | .startProbe outage =>
    if e.allows outage ∧ e.settings.aliveInterval ≠ 0 then
      some (.probe outage (e.clock + e.settings.aliveInterval))
    else none
  | .probe outage due =>
    if e.allows outage then
      some (if due ≤ e.clock then
          .exchange (.probe outage (Engine.nextTick due e.clock e.settings.aliveInterval)) .join
        else .probe outage due)
    else none
  | .consult l => if (l.cached? e.table).isSome then none else some (.route l)
  | .route l => some (if e.phase.isActive then .submit l else .exchange (.lookup l) .join)
  | .submit l =>
    some (if e.queue.size < e.queue.capacity then .await l
      else .conclude (.lookup l) (.error (.queueFull e.queue.capacity)))
  | .await l => some (.await l)
  | .exchange p s =>
    some ((e.result? (.exchange p s)).elim (.exchange p (s.next e p)) (.conclude p))
  | .conclude (.entry run _) (.ok _) => if e.allows run then some (.take run) else none
  | .conclude (.entry run _) (.error f) =>
    if e.allows run ∧ ¬ f.isServer then some (.take run) else none
  | .conclude (.probe outage next) r =>
    if Engine.stillFails r then some (.probe outage next) else none
  | .conclude (.lookup _) _ => none

/-- A task at this point may tell others a result: it handles a request from the queue. -/
def Duty.tells : Duty → Bool
  | .conclude (.entry ..) _ => true
  | _ => false

/-- The wire was given to a task, which goes on where it waited. -/
def Task.Handed (t t' : Task) : Prop := t'.duty = t.duty ∧ ∃ n, t'.wait = .ready n

theorem Duty.next_take (e : Engine) (run : Permit) : (Duty.take run).next e =
    if e.allows run then
      some (e.queue.entries.head?.elim (.take run) fun x => .exchange (.entry run x) .join)
    else none := rfl

theorem Duty.next_of_result {e : Engine} {p : Purpose} {s : Stage} {r : Except RequestError String}
    (h : e.result? (.exchange p s) = some r) :
    (Duty.exchange p s).next e = some (.conclude p r) := by
  show some (Option.elim (e.result? _) _ _) = _
  rw [h]
  rfl

theorem Duty.next_of_none {e : Engine} {p : Purpose} {s : Stage}
    (h : e.result? (.exchange p s) = none) :
    (Duty.exchange p s).next e = some (.exchange p (s.next e p)) := by
  show some (Option.elim (e.result? _) _ _) = _
  rw [h]
  rfl

namespace Engine

theorem heir?_of_result {e : Engine} {d : Duty} {r : Except RequestError String}
    (h : e.result? d = some r) : e.heir? d = (e.line.drop 1).head? := by
  unfold heir?
  rw [h]
  rfl

theorem heir?_of_none {e : Engine} {d : Duty} (h : e.result? d = none) : e.heir? d = none := by
  unfold heir?
  rw [h]
  rfl

/-- How a task ends its turn, and where it goes. -/
inductive Yields (e : Engine) (id : TaskId) : Option Duty → Engine → Prop
  | finish : Yields e id none (e.finish id)
  | park (d : Duty) {w : Wait} (hw : w = .line ∨ w = .result) : Yields e id (some d) (e.park id d w)
  | proceed (d : Duty) : Yields e id (some d) (e.proceed id d)
  | sleep (d : Duty) (due : Nat) : Yields e id (some d) (e.sleep id d due)
  /-- It found the queue empty. -/
  | listen {run : Permit} (hin : e.allows run = true) (hempty : e.queue.entries = []) :
      Yields e id (some (.take run)) (e.listen id run)

/-- A task acted and went to a point: what else had to change changed first. Or it left the line, and
the heir got the wire. -/
inductive Turn (tells : Bool) (e : Engine) (id : TaskId) :
    Option Duty → Option TaskId → Engine → Prop
  | yields {e₁ e' : Engine} {o : Option Duty} (h : Changes tells e e₁) (hyields : Yields e₁ id o e') :
      Turn tells e id o none e'
  | hands {e₁ : Engine} (hcrew : e₁.crew = e.crew)
      (hqueue : e.queue.entries = [] → e₁.queue.entries = []) (next : TaskId) (d : Duty) :
      Turn tells e id (some d) (some next) ((e₁.wake next).proceed id d)

variable {tells : Bool} {e e₁ e' : Engine} {id : TaskId} {d : Duty} {o : Option Duty}
  {heir : Option TaskId}

theorem known_of_orderly (hr : e.roster.Orderly) : e.Known := fun id hid =>
  Option.map_eq_none_iff.1 (hr.known id hid)

theorem Known.lt (hk : e.Known) (hid : e.duty? id = some d) : id < e.nextTask := by
  refine Nat.lt_of_not_le fun hge => ?_
  cases (hk id hge).symm.trans hid

theorem Grows.isSome (h : Grows e e₁) (hk : e.Known) (hid : e.duty? id = some d) :
    (e₁.duty? id).isSome := by
  have hp := duty?_passes (h.old (hk.lt hid))
  rw [hid] at hp
  generalize e₁.duty? id = o at hp
  cases hp
  rfl

theorem Yields.nextTask (h : Yields e id o e') : e'.nextTask = e.nextTask := by
  cases h with
  | finish | park => rfl
  | proceed d => exact nextTask_of_frame (e.proceed_frame id d)
  | sleep d due => exact nextTask_of_frame (e.sleep_frame id d due)
  | listen => exact nextTask_of_frame (e.listen_frame id _)

/-- A task that ends its turn changes no other task. -/
theorem Yields.other (h : Yields e id o e') {id' : TaskId} (hne : id' ≠ id) :
    e'.task? id' = e.task? id' := by
  cases h with
  | finish => rw [task?_finish, if_neg hne.symm]
  | park => rw [task?_park, if_neg hne.symm]
  | proceed => rw [task?_proceed, if_neg hne.symm]
  | sleep d due => exact task?_sleep_of_ne e id d hne.symm due
  | listen =>
    unfold Engine.listen
    split
    · refine (task?_proceed ..).trans ?_
      rw [if_neg hne.symm]
      rfl
    · rw [task?_park, if_neg hne.symm]

theorem Yields.own (h : Yields e id o e') (hsome : (e.duty? id).isSome) : e'.duty? id = o := by
  cases h with
  | finish => rw [duty?_finish, if_pos rfl]
  | park => rw [duty?_park, if_pos rfl]
  | proceed => rw [duty?_proceed hsome, if_pos rfl]
  | sleep => rw [duty?_sleep hsome, if_pos rfl]
  | listen =>
    unfold Engine.listen
    split
    · exact (duty?_proceed (e := { e with signal := false }) hsome _).trans (if_pos rfl)
    · rw [duty?_park, if_pos rfl]

/-- What else changes before does not matter to the tasks. -/
theorem Turn.after (h : Turn tells e₁ id o heir e') (hcrew : e₁.crew = e.crew)
    (hqueue : e.queue.entries = [] → e₁.queue.entries = []) : Turn tells e id o heir e' := by
  cases h with
  | yields h hyields => exact .yields (Changes.trans (.same hcrew hqueue) h) hyields
  | hands hcrew' hqueue' next d =>
    exact .hands (hcrew'.trans hcrew) (fun h => hqueue' (hqueue h)) next d

/-- A task that is woken goes on where it waited. -/
theorem wake_handed (e : Engine) (id : TaskId) :
    Option.Rel Task.Handed (e.task? id) ((e.wake id).task? id) := by
  unfold wake
  split
  case h_1 d n ht =>
    have htask : e.task? id = some ⟨d, .ready n⟩ := ht
    rw [htask]
    exact .some ⟨rfl, n, rfl⟩
  case h_2 ht =>
    have htask : e.task? id = none := ht
    rw [htask]
    exact .none
  case h_3 t _ ht =>
    have htask : e.task? id = some t := ht
    rw [task?_wakeAt, if_pos rfl, htask]
    exact .some ⟨rfl, e.turn, rfl⟩

theorem nextTask_of_hand (e : Engine) (id next : TaskId) (d : Duty) :
    ((e.wake next).proceed id d).nextTask = e.nextTask :=
  (nextTask_of_frame (proceed_frame _ id d)).trans (nextTask_of_frame (e.wake_frame next))

theorem Turn.nextTask (h : Turn tells e id o heir e') : e.nextTask ≤ e'.nextTask := by
  cases h with
  | yields h hyields => exact hyields.nextTask ▸ h.grows.nextTask
  | hands hcrew _ next d =>
    rw [nextTask_of_hand]
    exact Nat.le_of_eq (congrArg Crew.nextTask hcrew).symm

theorem Turn.old (h : Turn tells e id o heir e') {id' : TaskId} (hne : id' ≠ id)
    (hlt : id' < e.nextTask) : Option.Rel Task.Nudge (e.task? id') (e'.task? id') ∨
      (heir = some id' ∧ Option.Rel Task.Handed (e.task? id') (e'.task? id')) := by
  cases h with
  | yields h hyields =>
    left
    rw [hyields.other hne]
    exact h.grows.old hlt
  | @hands e₁ hcrew hqueue next d' =>
    -- the heir goes on where it waited, and the others are as before
    have ht := congrArg Crew.tasks hcrew
    rw [task?_proceed, if_neg hne.symm]
    by_cases hheir : next = id'
    · refine .inr ⟨congrArg some hheir, ?_⟩
      rw [hheir, ← task?_eq_of_tasks ht]
      exact wake_handed e₁ id'
    · left
      rw [task?_wake_of_ne _ _ hheir, task?_eq_of_tasks ht]
      exact Nudged.refl e id'

section

variable (hk : e.Known) (hid : e.duty? id = some d)
include hk hid

theorem Turn.own (h : Turn tells e id o heir e') : e'.duty? id = o := by
  cases h with
  | yields h hyields => exact hyields.own (h.grows.isSome hk hid)
  | hands hcrew hqueue next d' =>
    have h : Changes tells e _ := .same hcrew hqueue
    rw [duty?_proceed, if_pos rfl]
    rw [duty?_wake]
    exact h.grows.isSome hk hid

theorem Turn.new (h : Turn tells e id o heir e') {id' : TaskId} {t : Task} (hge : e.nextTask ≤ id')
    (ht : e'.task? id' = some t) : t.Fresh := by
  have hne : id' ≠ id := fun heq => Nat.not_lt.2 hge (heq ▸ hk.lt hid)
  cases h with
  | yields h hyields => exact h.grows.new hk hge ((hyields.other hne).symm.trans ht)
  | @hands e₁ hcrew hqueue next d' =>
    -- no task begins
    have hnone : e₁.task? id' = none := by
      rw [task?_eq_of_tasks (congrArg Crew.tasks hcrew)]
      exact Option.map_eq_none_iff.1 (hk id' hge)
    rw [task?_proceed, if_neg hne.symm] at ht
    have hwoken := wake_handed e₁ id'
    by_cases hheir : next = id'
    · rw [hheir] at ht
      rw [hnone, ht] at hwoken
      cases hwoken
    · rw [task?_wake_of_ne _ _ hheir, hnone] at ht
      cases ht

end

variable (e id)

/-- A task leaves the line, and the next one in it gets the wire. -/
theorem leave_turn (p : Purpose) (r : Except RequestError String) :
    Turn tells e id (some (.conclude p r)) (e.line.drop 1).head? (e.leave id p r) := by
  unfold leave
  dsimp only
  split
  case h_1 hline =>
    rw [congrArg List.head? (show e.line.drop 1 = [] from hline)]
    refine .yields ?_ (.proceed _)
    exact .same rfl fun h => h
  case h_2 next rest hline =>
    rw [congrArg List.head? (show e.line.drop 1 = next :: rest from hline)]
    refine .hands ?_ ?_ next _
    · rfl
    · exact fun h => h

/-! ## One task -/

theorem take_turn (run : Permit) :
    Turn tells e id ((Duty.take run).next e) none (e.take id run) := by
  have hpop : Changes tells e { e with queue := e.queue.pop.2 } := by
    refine .same rfl fun h => ?_
    show e.queue.pop.2.entries = []
    rw [Queue.pop_entries, h]
    rfl
  rw [Duty.next_take]
  unfold take
  by_cases h : e.allows run
  · rw [if_pos h, if_neg (by simp [h])]
    split
    case h_1 queue hqueue =>
      have hempty : e.queue.entries = [] := List.head?_eq_none_iff.1 (congrArg Prod.fst hqueue)
      obtain rfl : e.queue.pop.2 = queue := congrArg Prod.snd hqueue
      rw [hempty]
      refine .yields hpop (.listen h ?_)
      rw [Queue.pop_entries, hempty]
      rfl
    case h_2 entry queue hqueue =>
      rw [show e.queue.entries.head? = some entry from congrArg Prod.fst hqueue]
      obtain rfl : e.queue.pop.2 = queue := congrArg Prod.snd hqueue
      exact .yields hpop (.proceed _)
  · rw [if_neg h, if_pos (by simp [h])]
    exact .yields (.refl e) .finish

theorem startPoll_turn (permit : Permit) (p : Poll) (delay period : Nat) :
    Turn tells e id ((Duty.startPoll permit p delay period).next e) none
      (e.startPoll id permit p delay period) := by
  have hnext : (Duty.startPoll permit p delay period).next e =
      if e.allows permit ∧ period ≠ 0 then some (.poll permit p period (e.clock + delay))
      else none := rfl
  rw [hnext]
  unfold startPoll
  by_cases h : e.allows permit ∧ period ≠ 0
  · rw [if_pos h, if_neg (by simp [h.1, h.2])]
    exact .yields (.refl e) (.proceed _)
  · have hout : (!e.allows permit || period == 0) = true := by
      by_cases hallows : e.allows permit
      · have hzero : period = 0 := Decidable.not_not.1 fun hne => h ⟨hallows, hne⟩
        simp [hzero]
      · simp [hallows]
    rw [if_neg h, if_pos hout]
    exact .yields (.refl e) .finish

theorem poll_turn (permit : Permit) (p : Poll) (period due : Nat) :
    Turn tells e id ((Duty.poll permit p period due).next e) none (e.poll id permit p period due) := by
  have hnext : (Duty.poll permit p period due).next e = if e.allows permit then
      some (.poll permit p period (if due ≤ e.clock then nextTick due e.clock period else due))
    else none := rfl
  rw [hnext]
  unfold poll
  by_cases h : e.allows permit
  · have hin : ¬ (!e.allows permit) = true := by simp [h]
    rw [if_pos h, if_neg hin]
    by_cases hdue : due ≤ e.clock
    · rw [if_pos hdue, if_neg (Nat.not_lt.2 hdue)]
      exact .yields ((record_changes e _).trans (enqueueAll_changes _ _)) (.sleep _ _)
    · rw [if_neg hdue, if_pos (Nat.not_le.1 hdue)]
      exact .yields (.refl e) (.sleep _ _)
  · rw [if_neg h, if_pos (by simp [h])]
    exact .yields (.refl e) .finish

theorem startProbe_turn (outage : Permit) :
    Turn tells e id ((Duty.startProbe outage).next e) none (e.startProbe id outage) := by
  have hnext : (Duty.startProbe outage).next e =
      if e.allows outage ∧ e.settings.aliveInterval ≠ 0 then
        some (.probe outage (e.clock + e.settings.aliveInterval))
      else none := rfl
  rw [hnext]
  unfold startProbe
  by_cases h : e.allows outage ∧ e.settings.aliveInterval ≠ 0
  · rw [if_pos h, if_neg (by simp [h.1, h.2])]
    exact .yields (.refl e) (.proceed _)
  · have hout : (!e.allows outage || e.settings.aliveInterval == 0) = true := by
      by_cases hallows : e.allows outage
      · have hzero : e.settings.aliveInterval = 0 :=
          Decidable.not_not.1 fun hne => h ⟨hallows, hne⟩
        simp [hzero]
      · simp [hallows]
    rw [if_neg h, if_pos hout]
    exact .yields (.refl e) .finish

theorem probe_turn (outage : Permit) (due : Nat) :
    Turn tells e id ((Duty.probe outage due).next e) none (e.probe id outage due) := by
  have hnext : (Duty.probe outage due).next e = if e.allows outage then
      some (if due ≤ e.clock then
          .exchange (.probe outage (nextTick due e.clock e.settings.aliveInterval)) .join
        else .probe outage due)
    else none := rfl
  rw [hnext]
  unfold probe
  by_cases h : e.allows outage
  · have hin : ¬ (!e.allows outage) = true := by simp [h]
    rw [if_pos h, if_neg hin]
    by_cases hdue : due ≤ e.clock
    · rw [if_pos hdue, if_neg (Nat.not_lt.2 hdue)]
      exact .yields (.refl e) (.proceed _)
    · rw [if_neg hdue, if_pos (Nat.not_le.1 hdue)]
      exact .yields (.refl e) (.sleep _ _)
  · rw [if_neg h, if_pos (by simp [h])]
    exact .yields (.refl e) .finish

theorem tell_turn (r : Except RequestError Finding) : Turn tells e id none none (e.tell id r) :=
  .yields (record_changes e _) .finish

theorem consult_turn (l : Lookup) :
    Turn tells e id ((Duty.consult l).next e) none (e.consult id l) := by
  have hnext : (Duty.consult l).next e =
      if (l.cached? e.table).isSome then none else some (.route l) := rfl
  rw [hnext]
  unfold consult
  cases l.cached? e.table with
  | some f => exact tell_turn e id _
  | none => exact .yields (.refl e) (.proceed _)

theorem route_turn (l : Lookup) : Turn tells e id ((Duty.route l).next e) none (e.route id l) := by
  have hnext : (Duty.route l).next e =
      some (if e.phase.isActive then .submit l else .exchange (.lookup l) .join) := rfl
  rw [hnext]
  unfold route
  split <;> exact .yields (.refl e) (.proceed _)

theorem submit_turn (l : Lookup) : Turn tells e id ((Duty.submit l).next e) none (e.submit id l) := by
  have hnext : (Duty.submit l).next e = some (if e.queue.size < e.queue.capacity then .await l
      else .conclude (.lookup l) (.error (.queueFull e.queue.capacity))) := rfl
  rw [hnext]
  unfold submit
  dsimp only
  have hpush : Changes tells e (e.inserted (e.queue.push l.request (some id) .head)) :=
    push_changes e ..
  by_cases hroom : e.queue.size < e.queue.capacity
  · rw [if_pos hroom, if_pos ((Queue.push_accepted ..).2 hroom)]
    exact .yields hpush (.park _ (.inr rfl))
  · rw [if_neg hroom, if_neg (mt (Queue.push_accepted ..).1 hroom), inserted_queue,
      Queue.push_capacity]
    exact .yields hpush (.proceed _)

theorem join_turn (p : Purpose) :
    Turn tells e id ((Duty.exchange p .join).next e) none (e.join id p) := by
  unfold join
  dsimp only
  split
  · refine .yields ?_ (.proceed _)
    exact .same rfl fun h => h
  · refine .yields ?_ (.park _ (.inl rfl))
    exact .same rfl fun h => h

theorem send_turn (p : Purpose) (again : Bool) :
    Turn tells e id ((Duty.exchange p (.send again)).next e)
      (e.heir? (.exchange p (.send again))) (e.send id p again) := by
  unfold send Duty.next heir? result? Stage.next arrival
  cases e.script.fetch with
  | mk fetched script =>
    cases fetched with
    | error f => exact (leave_turn { e with script } id p (.error f)).after rfl (fun h => h)
    | ok token =>
      refine .yields ?_ (.sleep _ _)
      exact .same rfl fun h => h

theorem receive_turn (p : Purpose) (again : Bool) (a : Arrival) :
    Turn tells e id ((Duty.exchange p (.receive again a)).next e)
      (e.heir? (.exchange p (.receive again a))) (e.receive id p again a) := by
  have hleave : ∀ (e₁ : Engine) (r : Except RequestError String), e₁.crew = e.crew →
      e₁.queue = e.queue → e₁.line = e.line →
      e.result? (.exchange p (.receive again a)) = some r →
      Turn tells e id ((Duty.exchange p (.receive again a)).next e)
        (e.heir? (.exchange p (.receive again a))) (e₁.leave id p r) := by
    intro e₁ r hcrew hqueue hline hr
    rw [Duty.next_of_result hr, heir?_of_result hr, ← hline]
    exact (leave_turn e₁ id p r).after hcrew fun h => hqueue ▸ h
  unfold receive
  cases a with
  | error m => exact hleave (e.record _) _ rfl rfl rfl rfl
  | ok response =>
    have hresult : e.result? (.exchange p (.receive again (.ok response))) =
        if response.status = HttpResponse.unauthorized ∧ !again then none
        else some response.outcome := rfl
    dsimp only
    by_cases hagain : response.status = HttpResponse.unauthorized ∧ !again
    · rw [if_pos hagain] at hresult ⊢
      rw [Duty.next_of_none hresult, heir?_of_none hresult]
      refine .yields ?_ (.proceed _)
      exact .same rfl fun h => h
    · rw [if_neg hagain] at hresult ⊢
      cases hout : response.outcome with
      | ok body =>
        exact hleave (e.record _) _ rfl rfl rfl (hout ▸ hresult)
      | error f =>
        dsimp only
        split
        · exact hleave ((e.record _).log _) _ rfl rfl rfl (hout ▸ hresult)
        · exact hleave (e.record _) _ rfl rfl rfl (hout ▸ hresult)

theorem pause_turn {e₁ : Engine} (h : Changes tells e e₁) (hallows : e₁.permits = e.permits) (run : Permit) :
    Turn tells e id (if e.allows run then some (.take run) else none) none (e₁.pause id run) := by
  have hsame : e₁.allows run = e.allows run := congrArg (·.contains run) hallows
  unfold pause
  rw [hsame]
  by_cases hin : e.allows run
  · rw [if_pos hin, if_neg (by simp [hin])]
    exact .yields h (.sleep _ _)
  · rw [if_neg hin, if_pos (by simp [hin])]
    exact .yields h .finish

theorem concludeEntry_turn (run : Permit) (entry : Entry) (r : Except RequestError String) :
    Turn true e id ((Duty.conclude (.entry run entry) r).next e) none
      (e.concludeEntry id run entry r) := by
  have hreply : ∀ caller, (e.reply caller r).permits = e.permits := fun caller =>
    permits_of_frame (e.reply_frame caller r)
  have hdeliver : ∀ body, (e.deliver entry.request body).permits = e.permits := fun body =>
    congrArg Roster.permits (e.deliver_roster entry.request body)
  have hstay : ∀ f : RequestError, ¬ f.isServer →
      (Duty.conclude (.entry run entry) (.error f)).next e =
        if e.allows run then some (.take run) else none := fun f hf => by
    show (if e.allows run ∧ ¬ f.isServer then _ else _) = _
    simp [hf]
  -- a failure of the service ends the task with its run
  have hend : ∀ f : RequestError, f.isServer →
      (Duty.conclude (.entry run entry) (.error f)).next e = none := fun f hf =>
    if_neg fun h => h.2 hf
  unfold concludeEntry
  split
  case h_1 => exact pause_turn e id (deliver_changes e _ _) (hdeliver _) run
  case h_2 caller _ => exact pause_turn e id (.reply rfl e _ _) (hreply caller) run
  case h_3 f _ =>
    split
    case isTrue hf =>
      rw [hend f hf]
      exact .yields (enterOutage_changes e _ _ _) .finish
    case isFalse hf =>
      rw [hstay f hf]
      exact pause_turn e id (log_changes e _) rfl run
  case h_4 f caller _ =>
    split
    case isTrue hf =>
      rw [hend f hf]
      exact .yields ((Changes.reply rfl e _ _).trans (enterOutage_changes _ _ _ _)) .finish
    case isFalse hf =>
      rw [hstay f hf]
      exact pause_turn e id (.reply rfl e _ _) (hreply caller) run

theorem concludeProbe_turn (outage : Permit) (next : Nat) (r : Except RequestError String) :
    Turn tells e id ((Duty.conclude (.probe outage next) r).next e) none
      (e.concludeProbe id outage next r) := by
  have hnext : (Duty.conclude (.probe outage next) r).next e =
      if stillFails r then some (.probe outage next) else none := by
    cases r <;> rfl
  rw [hnext]
  unfold concludeProbe
  split
  · exact .yields (.refl e) (.proceed _)
  · exact .yields ((mergeListing_changes e r).trans (resume_changes _ _)) .finish

theorem concludeLookup_turn (l : Lookup) (r : Except RequestError String) :
    Turn tells e id ((Duty.conclude (.lookup l) r).next e) none (e.concludeLookup id l r) := by
  unfold concludeLookup
  cases r with
  | error f => exact tell_turn e id _
  | ok body =>
    dsimp only
    split
    · exact tell_turn e id _
    · refine .yields ?_ .finish
      exact .same rfl fun h => h

/-- A task goes to its next point, and no other task goes elsewhere than a nudge brings it. The wire
goes to the heir if the task leaves the line. -/
theorem perform_turn (d : Duty) :
    Turn d.tells e id (d.next e) (e.heir? d) (e.perform id d) := by
  unfold perform
  split
  · exact take_turn e id _
  · exact startPoll_turn e id _ _ _ _
  · exact poll_turn e id _ _ _ _
  · exact startProbe_turn e id _
  · exact probe_turn e id _ _
  · exact consult_turn e id _
  · exact route_turn e id _
  · exact submit_turn e id _
  · exact .yields (.refl e) (.park _ (.inr rfl))
  · exact join_turn e id _
  · exact send_turn e id _ _
  · exact receive_turn e id _ _ _
  · exact concludeEntry_turn e id _ _ _
  · exact concludeProbe_turn e id _ _ _
  · exact concludeLookup_turn e id _ _

/-! ## Moves -/

end Engine

/-- A move starts tasks at a point: a lookup starts the task of its caller, and whatever else begins
is started by the engine. -/
def Move.Begins : Move → Duty → Prop
  | .obey (.lookup l), d => d = .consult l
  | _, d => d.begins = true

theorem Move.begins_of_engine {m : Move} (hm : ∀ l, m ≠ .obey (.lookup l)) {d : Duty}
    (hd : d.begins = true) : m.Begins d := by
  unfold Begins
  split
  case h_1 l => exact absurd rfl (hm l)
  case h_2 => exact hd

/-- The points at which tasks are started. -/
theorem Move.Begins.cases {m : Move} {d : Duty} (h : m.Begins d) :
    (∃ l, m = .obey (.lookup l) ∧ d = .consult l) ∨ (∃ run, d = .take run) ∨
      (∃ permit p delay period, d = .startPoll permit p delay period) ∨
      ∃ outage, d = .startProbe outage := by
  unfold Begins at h
  split at h
  case h_1 l => exact .inl ⟨l, rfl, h⟩
  case h_2 =>
    cases d with
    | take run => exact .inr (.inl ⟨run, rfl⟩)
    | startPoll permit p delay period => exact .inr (.inr (.inl ⟨permit, p, delay, period, rfl⟩))
    | startProbe outage => exact .inr (.inr (.inr ⟨outage, rfl⟩))
    | poll | probe | consult | route | submit | await | exchange | conclude => cases h

theorem Move.not_begins_exchange {m : Move} {p : Purpose} {s : Stage} :
    ¬ m.Begins (.exchange p s) := by
  intro h
  rcases h.cases with ⟨l, -, heq⟩ | ⟨run, heq⟩ | ⟨permit, poll, delay, period, heq⟩ | ⟨outage, heq⟩ <;>
    cases heq

namespace Engine

variable {e : Engine} {id : TaskId} {d : Duty} (hk : e.Known)
include hk

omit hk in
theorem move_of_ready (h : e.ready? id = some d) : e.move (.act id) = e.perform id d :=
  act_of_ready h

omit hk in
theorem move_of_not_ready (h : e.ready? id = none) : e.move (.act id) = e := act_of_not_ready h

/-- The task that gets the wire by a move. -/
def handsTo (e : Engine) : Move → Option TaskId
  | .act id => (e.ready? id).bind e.heir?
  | _ => none

omit hk in
theorem handsTo_of_ready (h : e.ready? id = some d) : e.handsTo (.act id) = e.heir? d := by
  show (e.ready? id).bind e.heir? = _
  rw [h]
  rfl

omit hk in
/-- What a move changes of a task that does not act. -/
theorem move_others (m : Move) {id' : TaskId} (hlt : id' < e.nextTask) (hne : m ≠ .act id') :
    Option.Rel Task.Nudge (e.task? id') ((e.move m).task? id') ∨
      (e.handsTo m = some id' ∧ Option.Rel Task.Handed (e.task? id') ((e.move m).task? id')) := by
  cases m with
  | obey c =>
    -- a lookup starts the task of its caller, and other calls nudge the tasks at most
    by_cases hc : ∃ l, c = .lookup l
    · obtain ⟨l, rfl⟩ := hc
      left
      show Option.Rel Task.Nudge _ ((e.spawn (.consult l)).task? id')
      rw [task?_spawn, if_neg (Nat.ne_of_gt hlt)]
      exact Nudged.refl e id'
    · exact .inl ((obey_grows e (not_exists.1 hc)).old hlt)
  | elapse now => exact .inl ((elapse_grows e now).old hlt)
  | pass | plan => exact .inl (Nudged.refl e id')
  | act id =>
    have hid : id' ≠ id := fun heq => hne (heq ▸ rfl)
    cases hready : e.ready? id with
    | none =>
      rw [move_of_not_ready hready]
      exact .inl (Nudged.refl e id')
    | some d =>
      rw [move_of_ready hready, handsTo_of_ready hready]
      exact (perform_turn e id d).old hid hlt

/-- Others leave a task alone that is ready. -/
theorem ready?_move_of_other {m : Move} (hne : m ≠ .act id) (hready : e.ready? id = some d)
    (hd : ∀ l, d ≠ .await l) : (e.move m).ready? id = some d := by
  rcases move_others m (hk.lt (duty?_of_ready? hready)) hne with hnudged | ⟨-, hhanded⟩
  · exact ready?_of_nudge hnudged hready hd
  · obtain ⟨n, ht⟩ := ready?_eq_some.1 hready
    rw [ht] at hhanded
    generalize ht' : (e.move m).task? id = o at hhanded
    cases hhanded with
    | @some _ t' hh =>
      obtain ⟨d', w⟩ := t'
      obtain ⟨rfl, k, rfl⟩ := hh
      exact ready?_eq_some.2 ⟨k, ht'⟩

/-- A task that a move starts did nothing yet. -/
theorem move_new (m : Move) {id' : TaskId} (hge : e.nextTask ≤ id') {t : Task}
    (ht : (e.move m).task? id' = some t) : m.Begins t.duty ∧ ∃ n, t.wait = .ready n := by
  cases m with
  | obey c =>
    by_cases hc : ∃ l, c = .lookup l
    · obtain ⟨l, rfl⟩ := hc
      have ht' : (e.spawn (.consult l)).task? id' = some t := ht
      rw [task?_spawn] at ht'
      split at ht'
      · exact Option.some.inj ht' ▸ ⟨rfl, e.turn, rfl⟩
      · cases (hk id' hge).symm.trans (duty?_of_task? ht')
    · obtain ⟨hbegins, hready⟩ := (obey_grows e (not_exists.1 hc)).new hk hge ht
      exact ⟨Move.begins_of_engine (fun l heq => hc ⟨l, Move.obey.inj heq⟩) hbegins, hready⟩
  | elapse now => exact (elapse_grows e now).new hk hge ht
  | pass | plan => cases (hk id' hge).symm.trans (duty?_of_task? ht)
  | act id =>
    cases hready : e.ready? id with
    | none =>
      rw [move_of_not_ready hready] at ht
      cases (hk id' hge).symm.trans (duty?_of_task? ht)
    | some d =>
      rw [move_of_ready hready] at ht
      exact (perform_turn e id d).new hk (duty?_of_ready? hready) hge ht

/-- A task that acts goes to its next point. -/
theorem move_own (hready : e.ready? id = some d) :
    (e.move (.act id)).duty? id = d.next e := by
  rw [move_of_ready hready]
  exact (perform_turn e id d).own hk (duty?_of_ready? hready)

/-- Where a task is that does not act: where it was, or told its result, or at its beginning. -/
theorem move_duty {m : Move} {id' : TaskId} (hne : m ≠ .act id') {d' : Duty}
    (hd' : (e.move m).duty? id' = some d') :
    (∃ d, e.duty? id' = some d ∧ d.Passes d') ∨ (e.duty? id' = none ∧ m.Begins d') := by
  obtain ⟨t', ht', rfl⟩ := Option.map_eq_some_iff.1 hd'
  rcases Nat.lt_or_ge id' e.nextTask with hlt | hge
  · have hothers := move_others m hlt hne
    rw [ht'] at hothers
    unfold duty?
    rcases hothers with hnudged | ⟨-, hhanded⟩
    · generalize e.task? id' = o at hnudged ⊢
      cases hnudged with
      | some hn => exact .inl ⟨_, rfl, hn.passes⟩
    · generalize e.task? id' = o at hhanded ⊢
      cases hhanded with
      | some hh => exact .inl ⟨_, rfl, hh.1 ▸ .refl _⟩
  · exact .inr ⟨hk id' hge, (move_new hk m hge ht').1⟩

/-- A task that does not act stays where it is, or is told its result. -/
theorem move_duty_of {m : Move} {id' : TaskId} (hne : m ≠ .act id') {d : Duty}
    (hd : e.duty? id' = some d) : ∃ d', (e.move m).duty? id' = some d' ∧ d.Passes d' := by
  have hothers := move_others m (hk.lt hd) hne
  obtain ⟨t, ht, rfl⟩ := Option.map_eq_some_iff.1 hd
  rw [ht] at hothers
  unfold duty?
  rcases hothers with hnudged | ⟨-, hhanded⟩
  · generalize (e.move m).task? id' = o at hnudged ⊢
    cases hnudged with
    | some hn => exact ⟨_, rfl, hn.passes⟩
  · generalize (e.move m).task? id' = o at hhanded ⊢
    cases hhanded with
    | some hh => exact ⟨_, rfl, hh.1 ▸ .refl _⟩

/-- How a task came to the point where it is after a move: it went there itself, or was there but for
what others tell it, or began there. -/
theorem move_duty_cases {m : Move} {id' : TaskId} {d' : Duty}
    (hd' : (e.move m).duty? id' = some d') :
    (∃ d, m = .act id' ∧ e.ready? id' = some d ∧ d.next e = some d') ∨
      (∃ d, e.duty? id' = some d ∧ d.Passes d') ∨ m.Begins d' := by
  by_cases hm : m = .act id'
  · subst hm
    cases hready : e.ready? id' with
    | none =>
      rw [move_of_not_ready hready] at hd'
      exact .inr (.inl ⟨d', hd', .refl d'⟩)
    | some d =>
      rw [move_own hk hready] at hd'
      exact .inl ⟨d, rfl, rfl, hd'⟩
  · rcases move_duty hk hm hd' with hpass | ⟨-, hbegins⟩
    · exact .inr (.inl hpass)
    · exact .inr (.inr hbegins)

end Engine

end HeatWatch
