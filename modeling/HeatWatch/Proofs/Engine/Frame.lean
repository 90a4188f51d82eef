import HeatWatch.Engine.Command

/-!
# What the steps of the engine leave alone

The engine without its tasks is its frame. Most operations on tasks keep the frame, and change a
task of someone else only by a nudge: it goes on from where it waits, or it is handed the result
that it waits for. Main statements:

* `wake_frame`, `reply_frame` and so on: one equation for the frame after each operation;
* `duty?_spawn`, `duty?_proceed` and so on: the point of every task after each operation;
* `ready?_spawn`, `ready?_proceed` and so on: who is ready after it;
* `Nudged`: what other tasks may find changed, with one lemma for each operation.
-/

namespace HeatWatch

namespace Engine

/-- The engine without its tasks, and without the signal for the one that takes from the queue. -/
def frame (e : Engine) : Engine := { e with tasks := ∅, turn := 0, signal := false }

/-- The task of a number. -/
def task? (e : Engine) (id : TaskId) : Option Task := e.tasks.get? id

/-- The point that a task has reached. -/
def duty? (e : Engine) (id : TaskId) : Option Duty := (e.task? id).map (·.duty)

/-- The point that a task has reached that is ready. -/
def ready? (e : Engine) (id : TaskId) : Option Duty :=
  match e.task? id with
  | some ⟨d, .ready _⟩ => some d
  | _ => none

variable (e : Engine) (id : TaskId) (d : Duty)

theorem ready?_eq_some {e : Engine} {id : TaskId} {d : Duty} :
    e.ready? id = some d ↔ ∃ n, e.task? id = some ⟨d, .ready n⟩ := by
  unfold ready?
  constructor
  · intro h
    split at h
    case h_1 d' n ht => exact ⟨n, Option.some.inj h ▸ ht⟩
    case h_2 => cases h
  · rintro ⟨n, ht⟩
    rw [ht]

/-- A task that waits for something is not ready. -/
theorem not_ready_of_task? {e : Engine} {id : TaskId} {d : Duty} {w : Wait}
    (ht : e.task? id = some ⟨d, w⟩) (hw : ∀ n, w ≠ .ready n) : e.ready? id = none := by
  refine Option.eq_none_iff_forall_ne_some.2 fun d' hready => ?_
  obtain ⟨n, ht'⟩ := ready?_eq_some.1 hready
  cases ht.symm.trans ht'
  exact hw n rfl

theorem duty?_of_task? {e : Engine} {id : TaskId} {t : Task} (h : e.task? id = some t) :
    e.duty? id = some t.duty := congrArg (Option.map Task.duty) h

theorem duty?_of_ready? {e : Engine} {id : TaskId} {d : Duty} (h : e.ready? id = some d) :
    e.duty? id = some d := by
  obtain ⟨n, ht⟩ := ready?_eq_some.1 h
  exact duty?_of_task? ht

/-- A task that is ready does what is next, and no other task does. -/
theorem act_eq : e.act id = ((e.ready? id).map (e.perform id)).getD e := by
  unfold act ready?
  show (match e.task? id with | some ⟨d, .ready _⟩ => e.perform id d | _ => e) = _
  split <;> rfl

theorem act_of_ready {e : Engine} {id : TaskId} {d : Duty} (h : e.ready? id = some d) :
    e.act id = e.perform id d := by
  rw [act_eq, h]
  rfl

theorem act_of_not_ready {e : Engine} {id : TaskId} (h : e.ready? id = none) : e.act id = e := by
  rw [act_eq, h]
  rfl

/-! ## Frames -/

@[simp] theorem record_frame (h : Happening) : (e.record h).frame = e.frame.record h := rfl

@[simp] theorem log_frame (l : LogLine) : (e.log l).frame = e.frame.log l := rfl

@[simp] theorem logAll_frame (ls : List LogLine) : (e.logAll ls).frame = e.frame.logAll ls := by
  induction ls generalizing e with
  | nil => rfl
  | cons l ls ih => exact ih (e.log l)

@[simp] theorem spawn_frame : (e.spawn d).frame = { e.frame with nextTask := e.nextTask + 1 } := rfl

@[simp] theorem finish_frame : (e.finish id).frame = e.frame := rfl

@[simp] theorem park_frame (w : Wait) : (e.park id d w).frame = e.frame := rfl

@[simp] theorem proceed_frame : (e.proceed id d).frame = e.frame := by
  unfold proceed
  split <;> rfl

@[simp] theorem sleep_frame (due : Nat) : (e.sleep id d due).frame = e.frame := by
  unfold sleep
  split
  · exact e.proceed_frame id d
  · rfl

@[simp] theorem wake_frame : (e.wake id).frame = e.frame := by
  unfold wake
  split <;> rfl

@[simp] theorem wakeTaker_frame : e.wakeTaker.frame = e.frame := by
  unfold wakeTaker
  split
  · exact e.wake_frame _
  · rfl

@[simp] theorem listen_frame (run : Permit) : (e.listen id run).frame = e.frame := by
  unfold listen
  split
  · exact proceed_frame _ id _
  · rfl

@[simp] theorem reply_frame (r : Except RequestError String) : (e.reply id r).frame = e.frame := by
  unfold reply
  split <;> rfl

@[simp] theorem replyAll_frame (ids : List TaskId) (r : Except RequestError String) :
    (e.replyAll ids r).frame = e.frame := by
  unfold replyAll
  induction ids generalizing e with
  | nil => rfl
  | cons id ids ih => exact (ih (e.reply id r)).trans (e.reply_frame id r)

/-- Tasks that are woken one after the other leave the frame as it is. -/
@[simp] theorem wakeAll_frame (ids : List TaskId) : (ids.foldl wake e).frame = e.frame := by
  induction ids generalizing e with
  | nil => rfl
  | cons id ids ih => exact (ih (e.wake id)).trans (e.wake_frame id)

@[simp] theorem withdraw_frame (ps : List Permit) :
    (e.withdraw ps).frame = { e.frame with permits := e.permits.filter fun p => !ps.contains p } :=
  wakeAll_frame _ _

@[simp] theorem inserted_frame (i : Queue.Insertion) :
    (e.inserted i).frame = logAll { e.frame with queue := i.queue } i.logs := by
  have h : (logAll { e with queue := i.queue } i.logs).frame =
      logAll { e.frame with queue := i.queue } i.logs := logAll_frame _ _
  unfold inserted
  split
  · exact (wakeTaker_frame _).trans h
  · exact h

/-! ## Points -/

variable {id' : TaskId}

theorem task?_eq_of_tasks {e e' : Engine} (h : e'.tasks = e.tasks) (id : TaskId) :
    e'.task? id = e.task? id := by
  rw [task?, task?, h]

@[simp] theorem task?_spawn :
    (e.spawn d).task? id' = if e.nextTask = id' then some ⟨d, .ready e.turn⟩ else e.task? id' := by
  simp only [task?, spawn, SortedMap.get?_insert, SortedMap.rank_eq_rank_iff]

@[simp] theorem task?_finish :
    (e.finish id).task? id' = if id = id' then none else e.task? id' := by
  simp only [task?, finish, SortedMap.get?_erase, SortedMap.rank_eq_rank_iff]

@[simp] theorem task?_park (w : Wait) :
    (e.park id d w).task? id' = if id = id' then some ⟨d, w⟩ else e.task? id' := by
  simp only [task?, park, SortedMap.get?_insert, SortedMap.rank_eq_rank_iff]

@[simp] theorem task?_proceed :
    (e.proceed id d).task? id' =
      if id = id' then (e.task? id).map fun t => ⟨d, t.wait⟩ else e.task? id' := by
  unfold proceed
  cases h : e.tasks.get? id with
  | none =>
    by_cases hid : id = id'
    · rw [if_pos hid, ← hid, task?, h]
      rfl
    · rw [if_neg hid]
  | some t =>
    have ht : e.task? id = some t := h
    rw [task?_park, ht]
    rfl

@[simp] theorem task?_wakeAt :
    (e.wakeAt id d).task? id' = if id = id' then some ⟨d, .ready e.turn⟩ else e.task? id' :=
  task?_park e id d (.ready e.turn)

theorem task?_sleep_of_ne (h : id ≠ id') (due : Nat) :
    (e.sleep id d due).task? id' = e.task? id' := by
  unfold sleep
  split
  · rw [task?_proceed, if_neg h]
  · exact (task?_park e id d _).trans (if_neg h)

@[simp] theorem duty?_spawn :
    (e.spawn d).duty? id' = if e.nextTask = id' then some d else e.duty? id' := by
  unfold duty?
  rw [task?_spawn, apply_ite (Option.map Task.duty)]
  rfl

@[simp] theorem duty?_finish :
    (e.finish id).duty? id' = if id = id' then none else e.duty? id' := by
  unfold duty?
  rw [task?_finish, apply_ite (Option.map Task.duty)]
  rfl

@[simp] theorem duty?_park (w : Wait) :
    (e.park id d w).duty? id' = if id = id' then some d else e.duty? id' := by
  unfold duty?
  rw [task?_park, apply_ite (Option.map Task.duty)]
  rfl

theorem duty?_proceed {e : Engine} {id : TaskId} (h : (e.duty? id).isSome) (d : Duty) :
    (e.proceed id d).duty? id' = if id = id' then some d else e.duty? id' := by
  unfold duty? at h ⊢
  rw [task?_proceed, apply_ite (Option.map Task.duty)]
  obtain ⟨t, ht⟩ := Option.isSome_iff_exists.1 (Option.isSome_map ▸ h)
  rw [ht]
  rfl

theorem duty?_sleep {e : Engine} {id : TaskId} (h : (e.duty? id).isSome) (d : Duty) (due : Nat) :
    (e.sleep id d due).duty? id' = if id = id' then some d else e.duty? id' := by
  unfold sleep
  split
  · exact duty?_proceed h d
  · exact duty?_park e id d (.alarm due e.turn)

theorem ready?_of_tasks {e e' : Engine} (h : e'.tasks = e.tasks) (id : TaskId) :
    e'.ready? id = e.ready? id := by
  unfold ready?
  rw [task?_eq_of_tasks h]

theorem ready?_spawn : (e.spawn d).ready? e.nextTask = some d := by
  refine ready?_eq_some.2 ⟨e.turn, ?_⟩
  rw [task?_spawn, if_pos rfl]

/-- A task that is ready stays ready at its next point. -/
theorem ready?_proceed {e : Engine} {id : TaskId} {d : Duty} (hready : e.ready? id = some d)
    (d' : Duty) : (e.proceed id d').ready? id = some d' := by
  obtain ⟨n, ht⟩ := ready?_eq_some.1 hready
  refine ready?_eq_some.2 ⟨n, ?_⟩
  rw [task?_proceed, if_pos rfl, ht]
  rfl

/-! ## Nudges -/

end Engine

/-- What others can do to a task: nothing, or let it go on where it waits, if it does not wait for
the wire; a caller in the queue is also handed its result. -/
inductive Task.Nudge : Task → Task → Prop
  | refl (t : Task) : Nudge t t
  | woken (d : Duty) (w : Wait) (n : Nat) (hw : ∀ m, w ≠ .ready m)
      (hl : w = .line → d.permit?.isSome) : Nudge ⟨d, w⟩ ⟨d, .ready n⟩
  | told (l : Lookup) (w : Wait) (n : Nat) (r : Except RequestError String) :
      Nudge ⟨.await l, w⟩ ⟨.conclude (.lookup l) r, .ready n⟩

theorem Task.Nudge.trans {t t' t'' : Task} (h : t.Nudge t') (h' : t'.Nudge t'') : t.Nudge t'' := by
  cases h with
  | refl => exact h'
  | woken d w n hw hl =>
    cases h' with
    | refl => exact .woken d w n hw hl
    -- whoever was woken is ready, and is not woken again
    | woken _ _ m hw' => exact absurd rfl (hw' n)
    | told l _ m r => exact .told l w m r
  | told l w n r =>
    cases h' with
    | refl => exact .told l w n r
    | woken _ _ m hw' => exact absurd rfl (hw' n)

namespace Engine

variable (e : Engine) (id : TaskId)

/-- No task begins or ends, and each is nudged at most. -/
def Nudged (e e' : Engine) : Prop := ∀ id, Option.Rel Task.Nudge (e.task? id) (e'.task? id)

theorem Nudged.of_tasks {e e' : Engine} (h : e'.tasks = e.tasks) : Nudged e e' := by
  intro id
  rw [task?_eq_of_tasks h]
  cases e.task? id with
  | none => exact .none
  | some t => exact .some (.refl t)

theorem Nudged.refl (e : Engine) : Nudged e e := .of_tasks rfl

theorem Nudged.trans {e e' e'' : Engine} (h : Nudged e e') (h' : Nudged e' e'') : Nudged e e'' := by
  intro id
  have h1 := h id
  have h2 := h' id
  generalize e.task? id = o at h1 ⊢
  generalize e'.task? id = o' at h1 h2
  generalize e''.task? id = o'' at h2 ⊢
  cases h1 with
  | none =>
    cases h2
    exact .none
  | some hn =>
    cases h2 with
    | some hn' => exact .some (hn.trans hn')

theorem nudged_logAll (e : Engine) (ls : List LogLine) : Nudged e (e.logAll ls) := by
  induction ls generalizing e with
  | nil => exact .refl e
  | cons l ls ih => exact Nudged.trans (.of_tasks rfl) (ih (e.log l))

/-- A task that does not wait for the wire can be woken. -/
theorem nudged_wake {e : Engine} {id : TaskId}
    (h : ∀ t, e.task? id = some t → t.wait = .line → t.duty.permit?.isSome) :
    Nudged e (e.wake id) := by
  unfold wake
  split
  case h_1 | h_2 => exact .refl e
  case h_3 t hready ht =>
    have htask : e.task? id = some t := ht
    intro id'
    rw [task?_wakeAt]
    by_cases hid : id = id'
    · rw [if_pos hid, ← hid, htask]
      obtain ⟨d, w⟩ := t
      -- it is woken where it waits, so it was not ready
      refine .some (.woken d w _ (fun m hm => ?_) (h _ htask))
      exact hready d m (by rw [hm])
    · rw [if_neg hid]
      exact Nudged.refl e id'

theorem nudged_wakeTaker : Nudged e e.wakeTaker := by
  unfold wakeTaker
  split
  case h_1 id t hfound =>
    refine nudged_wake fun t' ht' hline => ?_
    -- whoever waits for an entry does not wait for the wire
    have hw : t.wait = .entry := by simpa using List.find?_some hfound
    have ht : e.task? id = some t := by
      rw [task?, ← SortedMap.mem_entries_iff]
      exact List.mem_of_find?_eq_some hfound
    rw [ht, Option.some.injEq] at ht'
    rw [← ht', hw] at hline
    exact Wait.noConfusion hline
  case h_2 => exact .of_tasks rfl

theorem task?_wake_of_ne {id' : TaskId} (h : id ≠ id') : (e.wake id).task? id' = e.task? id' := by
  unfold wake
  split
  case h_1 | h_2 => rfl
  case h_3 => rw [task?_wakeAt, if_neg h]

/-- A task that is woken stays where it is. -/
@[simp] theorem duty?_wake (id' : TaskId) : (e.wake id).duty? id' = e.duty? id' := by
  unfold wake
  split
  case h_1 | h_2 => rfl
  case h_3 t _ ht =>
    have htask : e.task? id = some t := ht
    unfold duty?
    rw [task?_wakeAt]
    by_cases hid : id = id'
    · rw [if_pos hid, ← hid, htask]
      rfl
    · rw [if_neg hid]

/-- Tasks that wait under permits can be woken one after the other. -/
theorem nudged_wakeAll {e : Engine} {ids : List TaskId}
    (h : ∀ id ∈ ids, ∀ d, e.duty? id = some d → d.permit?.isSome) :
    Nudged e (ids.foldl wake e) := by
  induction ids generalizing e with
  | nil => exact .refl e
  | cons id ids ih =>
    refine Nudged.trans (nudged_wake fun t ht _ => ?_) (ih fun id' hid' d hd => ?_)
    · exact h id List.mem_cons_self t.duty (duty?_of_task? ht)
    · rw [duty?_wake] at hd
      exact h id' (List.mem_cons_of_mem id hid') d hd

theorem nudged_withdraw (ps : List Permit) : Nudged e (e.withdraw ps) := by
  have hkept : Nudged e { e with permits := e.permits.filter fun p => !ps.contains p } :=
    .of_tasks rfl
  -- only tasks that hold one of the permits are woken
  refine hkept.trans (nudged_wakeAll fun id hid d hd => ?_)
  obtain ⟨⟨id', t⟩, hmem, rfl⟩ := List.mem_map.1 hid
  obtain ⟨hin, hheld⟩ := List.mem_filter.1 hmem
  have ht : e.task? id' = some t := (SortedMap.mem_entries_iff _ _ _).1 hin
  have hd' : (e.task? id').map Task.duty = some d := hd
  rw [ht] at hd'
  obtain rfl := Option.some.inj hd'
  obtain ⟨p, hp, -⟩ := (Option.any_eq_true _ _).1 hheld
  exact Option.isSome_of_eq_some hp

theorem nudged_reply (r : Except RequestError String) : Nudged e (e.reply id r) := by
  unfold reply
  split
  case h_1 l w ht =>
    have htask : e.task? id = some ⟨.await l, w⟩ := ht
    intro id'
    rw [task?_wakeAt]
    by_cases hid : id = id'
    · rw [if_pos hid, ← hid, htask]
      exact .some (.told l w _ r)
    · rw [if_neg hid]
      exact Nudged.refl e id'
  case h_2 => exact .refl e

theorem nudged_replyAll (e : Engine) (ids : List TaskId) (r : Except RequestError String) :
    Nudged e (e.replyAll ids r) := by
  unfold replyAll
  induction ids generalizing e with
  | nil => exact .refl e
  | cons id ids ih => exact (nudged_reply e id r).trans (ih (e.reply id r))

end Engine

end HeatWatch
