import HeatWatch.Proofs.Engine.Outage

/-!
# Who is told what

A caller that waits for the result of a request in the queue is told by whoever handles the request,
by an outage, or by a call of the host that ends everything. No one else moves a task that is not its
own. Main statements:

* `Hears`: callers in a list that wait are told a result, and all other tasks stay where they are;
* `concludeEntry_hears`, `obey_hears`: whom a result and a call of the host tell;
* `move_hears`: where a task is after a move that is not its own.
-/

namespace HeatWatch

/-- The callers of the waiting requests. -/
def Queue.callers (q : Queue) : List TaskId := q.entries.filterMap (·.caller)

/-- What becomes of a task that is told a result: it uses it if it waits for one. -/
def Duty.hear (r : Except RequestError String) : Duty → Duty
  | .await l => .conclude (.lookup l) r
  | d => d

/-- The callers that a task tells a result at a point. -/
def Duty.callers (e : Engine) : Duty → List TaskId
  | .conclude (.entry _ x) (.ok _) => x.caller.toList
  | .conclude (.entry run x) (.error f) =>
    x.caller.toList ++
      if f.isServer ∧ e.phase.isActive ∧ e.allows run then e.queue.callers else []
  | _ => []

/-- The result that a task tells them. -/
def Duty.word : Duty → Except RequestError String
  | .conclude _ r => r
  | _ => .error .cancelled

theorem Duty.hear_hear (d : Duty) (r : Except RequestError String) : (d.hear r).hear r = d.hear r := by
  cases d <;> rfl

@[simp] theorem Queue.takeWaiting_callers (q : Queue) :
    q.takeWaiting.1.filterMap (·.caller) = q.callers := by
  rw [takeWaiting_taken, List.filterMap_filter]
  unfold callers
  refine congrArg (List.filterMap · _) (funext fun x => ?_)
  cases x.caller <;> rfl

@[simp] theorem Queue.replay_callers (q : Queue) (x : Entry) :
    (q.replay x).queue.callers = q.callers := by
  unfold callers
  by_cases hs : q.size < q.capacity
  · rw [replay_of_room hs]
    rfl
  · rw [replay_of_full hs]

namespace Engine

/-- No task that is there moves. -/
structure Stays (e e' : Engine) : Prop where
  nextTask : e.nextTask ≤ e'.nextTask
  duty : ∀ {id}, id < e.nextTask → e'.duty? id = e.duty? id

/-- The callers in a list are told a result, and no other task that is there moves. -/
structure Hears (cs : List TaskId) (r : Except RequestError String) (e e' : Engine) : Prop where
  nextTask : e.nextTask ≤ e'.nextTask
  duty : ∀ {id}, id < e.nextTask →
    e'.duty? id = if id ∈ cs then (e.duty? id).map (Duty.hear r) else e.duty? id

/-- What a task tells others while it moves itself. -/
def Speaks (id : TaskId) (cs : List TaskId) (r : Except RequestError String) (e e' : Engine) : Prop :=
  ∀ id', id' ≠ id → id' < e.nextTask →
    e'.duty? id' = if id' ∈ cs then (e.duty? id').map (Duty.hear r) else e.duty? id'

variable {e e' e'' : Engine} {cs cs' : List TaskId} {r : Except RequestError String}

theorem Stays.of_tasks (hn : e'.nextTask = e.nextTask) (h : e'.tasks = e.tasks) : Stays e e' where
  nextTask := Nat.le_of_eq hn.symm
  duty {id} _ := congrArg (Option.map Task.duty) (task?_eq_of_tasks h id)

theorem Stays.refl (e : Engine) : Stays e e := .of_tasks rfl rfl

theorem Stays.trans (h : Stays e e') (h' : Stays e' e'') : Stays e e'' where
  nextTask := Nat.le_trans h.nextTask h'.nextTask
  duty hid := (h'.duty (Nat.lt_of_lt_of_le hid h.nextTask)).trans (h.duty hid)

/-- What else changes before does not matter to the tasks. -/
theorem Stays.after (h : Stays e' e'') (hn : e'.nextTask = e.nextTask) (ht : e'.tasks = e.tasks) :
    Stays e e'' :=
  Stays.trans (.of_tasks hn ht) h

theorem Stays.enter (h : Stays e e') (phase : Phase) : Stays e { e' with phase } :=
  h.trans (.of_tasks rfl rfl)

theorem Stays.hears (h : Stays e e') (r : Except RequestError String) : Hears [] r e e' where
  nextTask := h.nextTask
  duty hid := (h.duty hid).trans (if_neg List.not_mem_nil).symm

/-- Whoever is told the same result by two steps is told it once. -/
theorem Hears.trans (h : Hears cs r e e') (h' : Hears cs' r e' e'') : Hears (cs ++ cs') r e e'' where
  nextTask := Nat.le_trans h.nextTask h'.nextTask
  duty {id} hid := by
    rw [h'.duty (Nat.lt_of_lt_of_le hid h.nextTask), h.duty hid]
    by_cases hin : id ∈ cs <;> by_cases hin' : id ∈ cs'
    · rw [if_pos hin', if_pos hin, if_pos (List.mem_append_left _ hin), Option.map_map]
      exact congrArg (Option.map · _) (funext fun d => d.hear_hear r)
    · rw [if_neg hin', if_pos hin, if_pos (List.mem_append_left _ hin)]
    · rw [if_pos hin', if_neg hin, if_pos (List.mem_append_right _ hin')]
    · rw [if_neg hin', if_neg hin, if_neg fun h => (List.mem_append.1 h).elim hin hin']

theorem Hears.stays (h : Hears cs r e e') (h' : Stays e' e'') : Hears cs r e e'' := by
  have htrans := h.trans (h'.hears r)
  rw [List.append_nil] at htrans
  exact htrans

theorem Stays.before (h : Stays e e') (h' : Hears cs r e' e'') : Hears cs r e e'' :=
  (h.hears r).trans h'

/-- A task tells others first and moves itself then. -/
theorem Hears.speaks (h : Hears cs r e e') {id : TaskId}
    (hother : ∀ id', id' ≠ id → e''.duty? id' = e'.duty? id') : Speaks id cs r e e'' :=
  fun id' hne hlt => (hother id' hne).trans (h.duty hlt)

/-! ## Operations that tell no one -/

theorem spawn_stays (e : Engine) (d : Duty) : Stays e (e.spawn d) where
  nextTask := Nat.le_succ _
  duty hid := by rw [duty?_spawn, if_neg (Nat.ne_of_gt hid)]

theorem wake_stays (e : Engine) (id : TaskId) : Stays e (e.wake id) where
  nextTask := Nat.le_of_eq (nextTask_of_frame (e.wake_frame id)).symm
  duty _ := duty?_wake e id _

theorem withdraw_stays (e : Engine) (ps : List Permit) : Stays e (e.withdraw ps) := by
  have hwakes : ∀ (ids : List TaskId) (e : Engine), Stays e (ids.foldl wake e) := by
    intro ids
    induction ids with
    | nil => exact Stays.refl
    | cons id ids ih => exact fun e => (wake_stays e id).trans (ih _)
  unfold withdraw
  dsimp only
  refine Stays.trans ?_ (hwakes _ _)
  exact .of_tasks rfl rfl

theorem wakeTaker_stays (e : Engine) : Stays e e.wakeTaker := by
  unfold wakeTaker
  split
  · exact wake_stays e _
  · exact .of_tasks rfl rfl

theorem inserted_stays (e : Engine) (i : Queue.Insertion) : Stays e (e.inserted i) := by
  have h : Stays e (logAll { e with queue := i.queue } i.logs) :=
    .of_tasks (logAll_nextTask _ _) (logAll_tasks _ _)
  unfold inserted
  split
  · exact h.trans (wakeTaker_stays _)
  · exact h

/-- Unless someone is told a result, no task that is there moves. -/
theorem Changes.stays (h : Changes false e e') : Stays e e' := by
  induction h with
  | same hcrew => exact .of_tasks (congrArg Crew.nextTask hcrew) (congrArg Crew.tasks hcrew)
  | trans _ _ ih ih' => exact ih.trans ih'
  | spawn e => exact spawn_stays e _
  | issue => exact .of_tasks rfl rfl
  | withdraw e ps => exact withdraw_stays e ps
  | insert e => exact inserted_stays e _
  | reply ht => cases ht

variable (e)

/-! ## Operations that tell a result -/

/-- A caller that waits for a result goes on with it. -/
theorem reply_hears (caller : TaskId) (r : Except RequestError String) :
    Hears [caller] r e (e.reply caller r) where
  nextTask := Nat.le_of_eq (nextTask_of_frame (e.reply_frame caller r)).symm
  duty {id} _ := by
    by_cases hid : caller = id
    · subst hid
      rw [if_pos List.mem_cons_self]
      unfold reply
      split
      case h_1 l w ht =>
        have htask : e.task? caller = some ⟨.await l, w⟩ := ht
        unfold duty?
        rw [task?_wakeAt, if_pos rfl, htask]
        rfl
      case h_2 hnot =>
        -- only whoever waits for a result hears it
        unfold duty?
        cases ht : e.task? caller with
        | none => rfl
        | some t =>
          obtain ⟨d, w⟩ := t
          have hd : d.hear r = d := by
            cases d with
            | await l => exact absurd ht (hnot l w)
            | take | startPoll | poll | startProbe | probe | consult | route | submit | exchange
            | conclude => rfl
          exact congrArg some hd.symm
    · rw [if_neg fun h => hid (List.mem_singleton.1 h).symm]
      unfold reply
      split
      · unfold duty?
        rw [task?_wakeAt, if_neg hid]
      · rfl

theorem replyAll_hears (cs : List TaskId) (r : Except RequestError String) :
    Hears cs r e (e.replyAll cs r) := by
  unfold replyAll
  induction cs generalizing e with
  | nil => exact (Stays.refl e).hears r
  | cons c cs ih => exact (reply_hears e c r).trans (ih (e.reply c r))

theorem stop_hears : Hears e.queue.callers (.error .cancelled) e e.stop := by
  unfold stop
  dsimp only
  have hwithdrawn : ∀ x : Engine, Stays e x → x.queue = e.queue →
      Hears e.queue.callers (.error .cancelled) e
        (replyAll { x with phase := .dormant, queue := x.queue.clear }
          (x.queue.entries.filterMap (·.caller)) (.error .cancelled)) := by
    intro x hx hqueue
    have hreplies := replyAll_hears { x with phase := .dormant, queue := x.queue.clear }
      x.queue.callers (.error .cancelled)
    have hcleared : Stays x { x with phase := .dormant, queue := x.queue.clear } :=
      .of_tasks rfl rfl
    rw [← hqueue]
    exact (hx.trans hcleared).before hreplies
  split
  · exact hwithdrawn e (.refl e) rfl
  · exact hwithdrawn _ (withdraw_stays e _) (withdraw_queue e _)
  · exact hwithdrawn _ (withdraw_stays e _) (withdraw_queue e _)

theorem refuseWaiting_hears (error : RequestError) :
    Hears e.queue.callers (.error error) e (e.refuseWaiting error) := by
  unfold refuseWaiting
  dsimp only
  rw [Queue.takeWaiting_callers]
  refine Stays.before ?_ (replyAll_hears _ _ _)
  exact .of_tasks rfl rfl

/-- An outage tells all callers in the queue. -/
theorem enterOutage_hears (root : Permit) (failed : Entry) (error : RequestError) :
    Hears (if e.phase.isActive ∧ e.allows root then e.queue.callers else []) (.error error) e
      (e.enterOutage root failed error) := by
  by_cases h : e.phase.isActive ∧ e.allows root
  · obtain ⟨run, hphase⟩ := Phase.isActive_iff.1 h.1
    rw [if_pos h]
    have hreplay : ∀ x : Engine, (if failed.caller.isNone then (e.withdraw run.permits).replay failed
        else e.withdraw run.permits) = x → Stays e x ∧ x.queue.callers = e.queue.callers := by
      rintro x rfl
      split
      · refine ⟨(withdraw_stays e _).trans (replay_changes _ failed).stays, ?_⟩
        rw [replay_queue, Queue.replay_callers, withdraw_queue]
      · exact ⟨withdraw_stays e _, congrArg _ (withdraw_queue e _)⟩
    unfold enterOutage
    rw [hphase]
    dsimp only
    rw [if_neg (by simp [h.2])]
    generalize hx : (if failed.caller.isNone then (e.withdraw run.permits).replay failed
      else e.withdraw run.permits) = x
    obtain ⟨hstays, hcallers⟩ := hreplay x hx
    -- the probe that begins and what is logged move no one
    have hrefuse := hstays.before (hcallers ▸ refuseWaiting_hears x error)
    have hprobe := hrefuse.stays (Changes.stays ((Changes.issue _).trans
      (.spawn _ (d := .startProbe (x.refuseWaiting error).issue.1) rfl)))
    refine Hears.stays (hprobe.stays ?_) (observeOutage_changes _ error).stays
    exact .of_tasks rfl rfl
  · rw [if_neg h]
    have hsame : e.enterOutage root failed error = e := by
      unfold enterOutage
      split
      case h_1 run hphase =>
        exact if_pos (by simpa using fun hin => h ⟨Phase.isActive_iff.2 ⟨run, hphase⟩, hin⟩)
      case h_2 => rfl
    rw [hsame]
    exact (Stays.refl e).hears _

/-! ## Calls of the host -/

/-- The last listener to go tells all callers in the queue. -/
theorem removeListener_hears (s : SystemId) (l : Listener) :
    Hears (if (Command.removeListener s l).stops e.table then e.queue.callers else [])
      (.error .cancelled) e (e.removeListener s l).2 := by
  have hstops : (Command.removeListener s l).stops e.table =
    ((e.table.removeListener s l).1 && (e.table.removeListener s l).2.listenerCount = 0) := rfl
  rw [hstops]
  unfold removeListener
  generalize e.table.removeListener s l = removal
  obtain ⟨removed, table⟩ := removal
  cases removed with
  | false =>
    refine Stays.hears ?_ _
    exact .of_tasks rfl rfl
  | true =>
    dsimp only
    rw [Bool.not_true, if_neg Bool.false_ne_true, Bool.true_and]
    dsimp only
    by_cases hcount : table.listenerCount = 0
    · rw [if_pos hcount, if_pos (decide_eq_true hcount)]
      have hstop := stop_hears (Engine.log { e with table }
        (.info ("Removed listener for system " ++ s.text)))
      refine Hears.stays (Stays.before ?_ hstop) ?_ <;> exact .of_tasks rfl rfl
    · rw [if_neg hcount, if_neg (by simpa using hcount)]
      refine Stays.hears ?_ _
      exact .of_tasks rfl rfl

theorem obey_stays {c : Command} (ht : c.tells = false) : Stays e (e.obey c).2 := by
  by_cases hc : ∃ l, c = .lookup l
  · obtain ⟨l, rfl⟩ := hc
    exact spawn_stays e _
  · -- the settings may change first, which no task notices
    have h := obey_changes e (not_exists.1 hc)
    rw [ht] at h
    refine Stays.trans ?_ h.stays
    exact .of_tasks rfl rfl

/-- A call of the host that ends everything tells all callers in the queue, and other calls tell no
one. -/
theorem obey_hears (c : Command) :
    Hears (if c.stops e.table then e.queue.callers else []) (.error .cancelled) e (e.obey c).2 := by
  cases c with
  | removeListener s l => exact removeListener_hears e s l
  | shutdown =>
    refine Stays.before ?_ (stop_hears (e.log (.info "Shutting down uplink connector")))
    exact .of_tasks rfl rfl
  | addListener | lookup | setUpdateInterval | setSoftwareDays | removeThermostat | removeTracked
  | addTracked | requestParameters | requestSystem | requestStatus | requestAlarm | requestSoftware
  | requestMode | setParameters | setMode | setThermostat => exact (obey_stays e rfl).hears _

/-! ## Tasks -/

section Tasks

variable {e} {id : TaskId} {d : Duty}

theorem duty?_finish_of_ne (e : Engine) {id' : TaskId} (hne : id' ≠ id) :
    (e.finish id).duty? id' = e.duty? id' := by
  rw [duty?_finish, if_neg hne.symm]

theorem duty?_proceed_of_ne (e : Engine) (d : Duty) {id' : TaskId} (hne : id' ≠ id) :
    (e.proceed id d).duty? id' = e.duty? id' := by
  unfold duty?
  rw [task?_proceed, if_neg hne.symm]

theorem duty?_sleep_of_ne (e : Engine) (d : Duty) (due : Nat) {id' : TaskId} (hne : id' ≠ id) :
    (e.sleep id d due).duty? id' = e.duty? id' := by
  unfold duty?
  rw [task?_sleep_of_ne _ _ _ hne.symm]

variable (e id)

theorem pause_speaks {e₁ : Engine} (h : Hears cs r e e₁) (run : Permit) :
    Speaks id cs r e (e₁.pause id run) := by
  unfold pause
  split
  · exact h.speaks fun _ hne => duty?_finish_of_ne e₁ hne
  · exact h.speaks fun _ hne => duty?_sleep_of_ne e₁ _ _ hne

/-- The result of a request is told to its caller, and to all callers in the queue if it starts an
outage. -/
theorem concludeEntry_speaks (run : Permit) (x : Entry) (r : Except RequestError String) :
    Speaks id ((Duty.conclude (.entry run x) r).callers e) r e (e.concludeEntry id run x r) := by
  have hstay : ∀ f : RequestError, ¬ f.isServer →
      (Duty.conclude (.entry run x) (.error f)).callers e = x.caller.toList := by
    intro f hf
    show x.caller.toList ++ (if _ then _ else _) = _
    rw [if_neg fun h => hf h.1, List.append_nil]
  have hout : ∀ f : RequestError, f.isServer → (Duty.conclude (.entry run x) (.error f)).callers e =
      x.caller.toList ++ if e.phase.isActive ∧ e.allows run then e.queue.callers else [] := by
    intro f hf
    show x.caller.toList ++ (if _ then _ else _) = _
    simp only [hf, true_and]
  unfold concludeEntry
  split
  case h_1 body hcaller =>
    have hnone : (Duty.conclude (.entry run x) (.ok body)).callers e = [] :=
      congrArg Option.toList hcaller
    rw [hnone]
    exact pause_speaks e id ((deliver_changes e _ _).stays.hears _) run
  case h_2 body caller hcaller =>
    have hone : (Duty.conclude (.entry run x) (.ok body)).callers e = [caller] :=
      congrArg Option.toList hcaller
    rw [hone]
    exact pause_speaks e id (reply_hears e caller _) run
  case h_3 f hcaller =>
    split
    case isTrue hf =>
      rw [hout f hf, hcaller]
      exact (enterOutage_hears e run x f).speaks fun _ hne => duty?_finish_of_ne _ hne
    case isFalse hf =>
      rw [hstay f hf, hcaller]
      refine pause_speaks e id (Stays.hears ?_ _) run
      exact .of_tasks rfl rfl
  case h_4 f caller hcaller =>
    split
    case isTrue hf =>
      have hframe := e.reply_frame caller (.error f)
      have hallows : (e.reply caller (.error f)).allows run = e.allows run :=
        congrArg (·.contains run) (permits_of_frame hframe)
      have houtage := enterOutage_hears (e.reply caller (.error f)) run x f
      rw [phase_of_frame hframe, hallows, reply_queue] at houtage
      rw [hout f hf, hcaller]
      exact ((reply_hears e caller _).trans houtage).speaks fun _ hne => duty?_finish_of_ne _ hne
    case isFalse hf =>
      rw [hstay f hf, hcaller]
      exact pause_speaks e id (reply_hears e caller _) run

/-- A task that has no result of a request from the queue tells no one. -/
theorem Turn.quiet {id : TaskId} {o : Option Duty} {heir : Option TaskId}
    (h : Turn false e id o heir e') {id' : TaskId} (hne : id' ≠ id) (hlt : id' < e.nextTask) :
    e'.duty? id' = e.duty? id' := by
  cases h with
  | yields h hyields =>
    exact (congrArg (Option.map Task.duty) (hyields.other hne)).trans (h.stays.duty hlt)
  | @hands e₁ hcrew _ next d =>
    rw [duty?_proceed_of_ne _ _ hne, duty?_wake]
    exact congrArg (Option.map Task.duty) (task?_eq_of_tasks (congrArg Crew.tasks hcrew) id')

theorem perform_speaks (d : Duty) : Speaks id (d.callers e) d.word e (e.perform id d) := by
  by_cases hd : ∃ run x r, d = .conclude (.entry run x) r
  · obtain ⟨run, x, r, rfl⟩ := hd
    exact concludeEntry_speaks e id run x r
  · intro id' hne hlt
    have hnone : d.callers e = [] := by
      unfold Duty.callers
      split
      · exact absurd ⟨_, _, _, rfl⟩ hd
      · exact absurd ⟨_, _, _, rfl⟩ hd
      · rfl
    have hquiet : d.tells = false := by
      unfold Duty.tells
      split
      · exact absurd ⟨_, _, _, rfl⟩ hd
      · rfl
    have hturn := perform_turn e id d
    rw [hquiet] at hturn
    rw [hturn.quiet e hne hlt, hnone, if_neg List.not_mem_nil]

end Tasks

/-! ## Moves -/

/-- The callers that a move tells a result. -/
def callers (e : Engine) : Move → List TaskId
  | .obey c => if c.stops e.table then e.queue.callers else []
  | .act id => (e.ready? id).elim [] (·.callers e)
  | _ => []

/-- The result that a move tells them. -/
def word (e : Engine) : Move → Except RequestError String
  | .act id => (e.ready? id).elim (.error .cancelled) Duty.word
  | _ => .error .cancelled

/-- Where a task is after a move that is not its own: it was told a result, or is where it was. -/
theorem move_hears (m : Move) {id : TaskId} (hlt : id < e.nextTask) (hne : m ≠ .act id) :
    (e.move m).duty? id =
      if id ∈ e.callers m then (e.duty? id).map (Duty.hear (e.word m)) else e.duty? id := by
  cases m with
  | obey c => exact (obey_hears e c).duty hlt
  | elapse now =>
    rw [if_neg (show id ∉ e.callers (.elapse now) from List.not_mem_nil)]
    exact congrFun (elapse_duty? e now) id
  | pass | plan => exact (if_neg List.not_mem_nil).symm
  | act id' =>
    have hid : id ≠ id' := fun heq => hne (heq ▸ rfl)
    show (e.act id').duty? id = if id ∈ (e.ready? id').elim [] _ then
      (e.duty? id).map (Duty.hear ((e.ready? id').elim _ _)) else _
    cases hready : e.ready? id' with
    | none =>
      rw [act_of_not_ready hready]
      exact (if_neg List.not_mem_nil).symm
    | some d =>
      rw [act_of_ready hready]
      exact perform_speaks e id' d id hid hlt

end Engine

end HeatWatch
