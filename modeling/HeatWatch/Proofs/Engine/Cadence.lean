import HeatWatch.Proofs.Engine.Clock
import HeatWatch.Proofs.Engine.Prompt
import HeatWatch.Proofs.Engine.Shifts

/-!
# When a run polls

A run makes each poll at a first time and then after every period, as long as it goes on and no call of
the host begins the poll anew. Main statements:

* `Beats.move`: what becomes of the task of a poll;
* `Beats.follow`: so it polls at multiples of the period;
* `cadence_of_begins`: the schedule of a poll that begins under a new permit;
* `scheduled_polls`: the schedule of every run, whatever the host calls.
-/

namespace HeatWatch

/-- The permit under which a run makes a poll. -/
def Run.permit (run : Run) : Poll → Permit
  | .standard => run.standard
  | .software => run.software
  | .thermostats | .modes => run.root

/-- The time between two polls of a kind; none are made if it is zero. -/
def EngineSettings.period (s : EngineSettings) : Poll → Nat
  | .standard => s.updateInterval
  | .software => s.softwareDays.toNat * day
  | .thermostats | .modes => s.heartbeatInterval

/-- A call of the host that begins a kind of poll anew. -/
def Command.resets (poll : Poll) : Command → Bool
  | .setUpdateInterval _ => poll = .standard
  | .setSoftwareDays _ => poll = .software
  | _ => false

def Move.resets (poll : Poll) : Move → Bool
  | .obey c => c.resets poll
  | _ => false

/-- The kind of a poll that was made. -/
def Happening.poll? : Happening → Option Poll
  | .polled _ p _ => some p
  | _ => none

theorem Command.resets_iff {c : Command} {poll : Poll} : c.resets poll = true ↔
    (∃ seconds, c = .setUpdateInterval seconds ∧ poll = .standard) ∨
      ∃ days, c = .setSoftwareDays days ∧ poll = .software := by
  cases c <;> simp [resets]

theorem Move.renews_permit {m : Move} {poll : Poll} (hm : m.resets poll = false) (fresh : Permit)
    (run : Run) : (m.renews fresh run).permit poll = run.permit poll := by
  cases m with
  | obey c =>
    cases c with
    | setUpdateInterval =>
      cases poll with
      | standard => cases hm
      | software | thermostats | modes => rfl
    | setSoftwareDays =>
      cases poll with
      | software => cases hm
      | standard | thermostats | modes => rfl
    | _ => rfl
  | act | elapse | pass | plan => rfl

theorem Move.sets_period {m : Move} {poll : Poll} (hm : m.resets poll = false) (s : EngineSettings) :
    (m.sets s).period poll = s.period poll := by
  cases m with
  | obey c =>
    cases c with
    | setUpdateInterval =>
      cases poll with
      | standard => cases hm
      | software | thermostats | modes => rfl
    | setSoftwareDays =>
      cases poll with
      | software => cases hm
      | standard | thermostats | modes => rfl
    | _ => rfl
  | act | elapse | pass | plan => rfl

/-- A task that polls begins after the delay of its poll. -/
theorem Move.Begins.poller {m : Move} {d : Duty} {permit : Permit} {poll : Poll} {period : Nat}
    (h : m.Begins d) (hpost : d.post = .poller permit poll period) :
    d = .startPoll permit poll (poll.delay period) period := by
  obtain ⟨l, -, rfl⟩ | ⟨run, rfl⟩ | ⟨p, q, delay, n, rfl⟩ | ⟨outage, rfl⟩ := h.cases
  · cases hpost
  · cases hpost
  · cases hpost
    unfold Move.Begins at h
    split at h
    case h_1 => cases h
    case h_2 => rw [of_decide_eq_true h]
  · cases hpost

/-- The posts of a run that poll. -/
theorem Roster.mem_staff_poller {s : EngineSettings} {run : Run} {p : Permit} {poll : Poll} {n : Nat}
    (h : .poller p poll n ∈ Phase.staff s (.active run)) : p = run.permit poll ∧ n = s.period poll := by
  rw [mem_staff_active, mem_standardPosts, mem_softwarePosts] at h
  rcases h with h | ⟨-, h⟩ | ⟨-, h⟩ | h | h <;> cases h <;> exact ⟨rfl, rfl⟩

theorem Roster.poller_mem_staff {s : EngineSettings} {poll : Poll} (h : s.period poll ≠ 0)
    (run : Run) : .poller (run.permit poll) poll (s.period poll) ∈ Phase.staff s (.active run) := by
  rw [mem_staff_active, mem_standardPosts, mem_softwarePosts]
  cases poll with
  | standard => exact .inr (.inl ⟨h, rfl⟩)
  | software =>
    refine .inr (.inr (.inl ⟨?_, rfl⟩))
    exact Int.pos_iff_toNat_pos.2 (Nat.pos_of_ne_zero fun hzero => h (by simp [EngineSettings.period, hzero]))
  | thermostats => exact .inr (.inr (.inr (.inl rfl)))
  | modes => exact .inr (.inr (.inr (.inr rfl)))

theorem Queue.run_tail_requests (q : Queue) (rs : List Request) :
    (q.run (rs.map (.push · none .tail))).2.requests = q.requests ++ rs.take q.free := by
  induction rs generalizing q with
  | nil => simp [Queue.run]
  | cons r rs ih =>
    show ((q.push r none .tail).queue.run _).2.requests = _
    rw [ih]
    by_cases hroom : q.size < q.capacity
    · have hfree : q.free = (q.push r none .tail).queue.free + 1 := by
        unfold Queue.free
        rw [Queue.push_size_of_room hroom, Queue.push_capacity]
        omega
      rw [hfree, List.take_succ_cons]
      unfold Queue.requests
      rw [Queue.push_tail_of_room hroom, List.map_append, List.append_assoc]
      rfl
    · have hfree : q.free = 0 := Nat.sub_eq_zero_of_le (Nat.not_lt.1 hroom)
      rw [Queue.push_of_full hroom, hfree]
      simp

namespace Engine

/-- When polls of a kind were made. -/
def pollTimes (e : Engine) (poll : Poll) : List Nat :=
  (e.chronicle.filter fun x => x.what.poll? = some poll).map (·.time)

/-- As long as the run goes on and no call begins the poll anew, polls of this kind are made at the
first time, then after every period, and at no other time. -/
def Ticks (e : Engine) (poll : Poll) (root : Permit) (first period : Nat) : Prop :=
  ∀ ms, e.Timely ms → root ∈ (e.follow ms).permits → (∀ m ∈ ms, m.resets poll = false) →
    ∃ n, (e.follow ms).pollTimes poll =
        e.pollTimes poll ++ (List.range n).map (fun k => first + k * period) ∧
      -- none was left out, and the one that is due is about to be made
      (e.follow ms).clock ≤ first + n * period ∧
      ((e.follow ms).clock = first + n * period → ∃ id run, (e.follow ms).phase = .active run ∧
        (e.follow ms).PollsNow id (run.permit poll) poll)

/-- Meanwhile no polls of this kind are made. -/
def Unticked (e : Engine) (poll : Poll) (root : Permit) : Prop :=
  ∀ ms, e.Timely ms → root ∈ (e.follow ms).permits → (∀ m ∈ ms, m.resets poll = false) →
    (e.follow ms).pollTimes poll = e.pollTimes poll

/-- When a run makes polls of a kind from now on. -/
structure Cadence (e : Engine) (poll : Poll) (root : Permit) (first period : Nat) : Prop where
  on : period ≠ 0 → e.Ticks poll root first (min period longestWait)
  off : period = 0 → e.Unticked poll root

/-- The task of a poll that is to be made next when it is due. -/
inductive Beats (e : Engine) (permit : Permit) (poll : Poll) (period due : Nat) (id : TaskId) : Prop
  | begins {delay : Nat} (hready : e.ready? id = some (.startPoll permit poll delay period))
      (hdue : due = e.clock + delay)
  | looks (hready : e.ready? id = some (.poll permit poll period due)) (hle : e.clock ≤ due)
  | sleeps {n : Nat} (ht : e.task? id = some ⟨.poll permit poll period due, .alarm due n⟩)

/-- Who polls does so with a period. -/
def Periodic (e : Engine) : Prop := ∀ ⦃id permit poll period due⦄,
  e.duty? id = some (.poll permit poll period due) → period ≠ 0

variable {e : Engine} {id : TaskId} {d : Duty} {m : Move} {ms : List Move} {root permit : Permit}
  {poll : Poll} {run : Run} {period due : Nat} {rs : List Request}

/-! ## Runs that go on -/

theorem permit_of_active (hr : e.roster.Orderly) (hphase : e.phase = .active run) (poll : Poll) :
    run.permit poll ∈ e.permits := by
  refine (hr.permits _).2 ?_
  show _ ∈ e.phase.permits
  rw [hphase]
  unfold Phase.permits Run.permits
  cases poll <;> simp [Run.permit]

/-- A run goes on, with the same permits but for the one that a call renews. -/
theorem active_of_root (hr : e.roster.Orderly) (hphase : e.phase = .active run)
    (hin : run.root ∈ (e.move m).permits) :
    (e.move m).phase = .active (m.renews e.nextPermit run) := by
  have hroot : run.root ∈ e.permits := root_of_active hr hphase
  have hr' : (e.move m).roster.Orderly := (move_evolves hr m).orderly hr
  have hnow : run.root ∈ (e.move m).phase.permits := (hr'.permits _).1 hin
  refine active_of_kept hr hphase (fun hclear => ?_) fun hwaiting => ?_
  · -- after a stop no permits are in force
    have hshift := shift hr m
    generalize (e.move m).phase = phase at hnow hshift
    generalize (e.records m).filter Happening.isSignal = hs at hshift
    cases hshift with
    | lasts _ hstop => exact absurd (stops_of_clear e hclear) (by simp [hstop])
    | stops => cases hnow
    | starts hphase' | resumes hphase' => cases hphase.symm.trans hphase'
    | fails => exact absurd (stops_of_clear e hclear) Bool.false_ne_true
  · -- after a failure only a new one is
    obtain ⟨id, root, x, f, rfl, hready, hf, hallows⟩ := fails_of_takeWaiting e hwaiting
    obtain ⟨run', hphase', rfl⟩ := hr.taker (post?_of_ready? hready) (allows_iff.1 hallows)
    have hphase' : e.phase = .active run' := hphase'
    rw [move_of_ready hready] at hnow
    rw [show (e.perform id (.conclude (.entry run'.root x) (.error f))).phase = .outage e.nextPermit from
      concludeEntry_fails hphase' (allows_iff.1 hallows) x hf] at hnow
    exact Nat.lt_irrefl _ (List.mem_singleton.1 hnow ▸ hr.issued _ hroot)

/-- As long as the run goes on and no call begins a poll anew, the poll is made under the same permit
and after the same period. -/
theorem active_of_follow (hr : e.roster.Orderly) (hphase : e.phase = .active run)
    (hin : run.root ∈ (e.follow ms).permits) (hms : ∀ m ∈ ms, m.resets poll = false) :
    ∃ run', (e.follow ms).phase = .active run' ∧ run'.root = run.root ∧
      run'.permit poll = run.permit poll ∧
      (e.follow ms).settings.period poll = e.settings.period poll := by
  induction ms generalizing e run with
  | nil => exact ⟨run, hphase, rfl, rfl, rfl⟩
  | cons m ms ih =>
    have hr' : (e.move m).roster.Orderly := (move_evolves hr m).orderly hr
    have hm : m.resets poll = false := hms m List.mem_cons_self
    have hissued : run.root < (e.move m).nextPermit :=
      Nat.lt_of_lt_of_le (hr.issued _ (root_of_active hr hphase)) (move_evolves hr m).later.nextPermit
    have hphase' := active_of_root hr hphase (mem_permits_of_follow hr' hissued hin)
    have hroot := m.renews_root e.nextPermit run
    obtain ⟨run', hend, hsame, hpermit, hperiod⟩ := ih hr' hphase' (hroot ▸ hin)
      fun m' hm' => hms m' (List.mem_cons_of_mem m hm')
    rw [move_settings, Move.sets_period hm] at hperiod
    exact ⟨run', hend, hsame.trans hroot, hpermit.trans (Move.renews_permit hm _ run), hperiod⟩

/-! ## Polls that are made -/

/-- Who makes a poll, and what it asks for. -/
theorem polled_of_mem (h : .polled permit poll rs ∈ e.records m) : ∃ id period due, m = .act id ∧
    e.ready? id = some (.poll permit poll period due) ∧ permit ∈ e.permits ∧ due ≤ e.clock ∧
      rs = poll.requests e.table := by
  obtain ⟨id, d, rfl, hready, hnotes⟩ := notes_of_move h
  cases hnotes with
  | @polled _ _ period due hdue =>
    rw [records_of_ready hready] at h
    have hmem : _ ∈ if e.allows permit ∧ due ≤ e.clock then
      [Happening.polled permit poll (poll.requests e.table)] else [] := h
    split at hmem
    case isTrue hallows => exact ⟨id, period, due, rfl, hready, allows_iff.1 hallows.1, hdue, rfl⟩
    case isFalse => cases hmem

theorem Happening.poll?_eq_some {h : Happening} (hp : h.poll? = some poll) :
    ∃ permit rs, h = .polled permit poll rs := by
  unfold Happening.poll? at hp
  split at hp
  case h_1 permit p rs =>
    cases hp
    exact ⟨permit, rs, rfl⟩
  case h_2 => cases hp

/-- Whoever may poll does so for the run that goes on. -/
theorem run_of_poller (hr : e.roster.Orderly) (hw : e.post? id = some (.poller permit poll period))
    (hin : permit ∈ e.permits) : ∃ run, e.phase = .active run ∧ permit = run.permit poll ∧
      period = e.settings.period poll := by
  have hstaff : .poller permit poll period ∈ e.phase.staff e.settings := hr.only hw rfl hin
  cases hphase : e.phase with
  | dormant =>
    rw [hphase] at hstaff
    cases hstaff
  | outage p =>
    rw [hphase] at hstaff
    cases List.mem_singleton.1 hstaff
  | active run =>
    rw [hphase] at hstaff
    obtain ⟨hpermit, hperiod⟩ := Roster.mem_staff_poller hstaff
    exact ⟨run, rfl, hpermit, hperiod⟩

theorem pollTimes_move (e : Engine) (m : Move) (poll : Poll) : (e.move m).pollTimes poll =
    e.pollTimes poll ++ ((e.records m).filter fun h => h.poll? = some poll).map fun _ => e.clock := by
  unfold pollTimes
  rw [move_chronicle, List.filter_append, List.map_append, List.filter_map, List.map_map]
  rfl

theorem pollTimes_of_none (h : ∀ h ∈ e.records m, h.poll? ≠ some poll) :
    (e.move m).pollTimes poll = e.pollTimes poll := by
  rw [pollTimes_move, List.filter_eq_nil_iff.2 fun x hx => by simpa using h x hx]
  exact List.append_nil _

/-! ## The task of a poll -/

theorem Beats.post (h : e.Beats permit poll period due id) :
    e.post? id = some (.poller permit poll period) := by
  cases h with
  | begins hready | looks hready => exact post?_of_ready? hready
  | sleeps ht => exact post?_of_task? ht

theorem Beats.clock_le (h : e.Beats permit poll period due id) (hs : e.Sound) : e.clock ≤ due := by
  cases h with
  | begins _ hdue => exact hdue ▸ Nat.le_add_right _ _
  | looks _ hle => exact hle
  | sleeps ht => exact Nat.le_of_lt (hs.punctual due ⟨id, _, _, ht⟩)

theorem Beats.pollsNow (h : e.Beats permit poll period due id) (hs : e.Sound) (hperiod : period ≠ 0)
    (hdue : e.clock = due) : e.PollsNow id permit poll := by
  subst hdue
  cases h with
  | begins hready hdue =>
    obtain rfl : _ = 0 := Nat.add_eq_left.1 hdue.symm
    exact .begins hperiod hready
  | looks hready => exact .due hready
  | sleeps ht => exact absurd (hs.punctual _ ⟨id, _, _, ht⟩) (Nat.lt_irrefl _)

/-- While others act, no poll of the kind is made. -/
theorem not_polled_by_other (hs : e.Sound) (hw : e.post? id = some (.poller permit poll period))
    (hin : permit ∈ e.permits) (hne : m ≠ .act id) : ∀ h ∈ e.records m, h.poll? ≠ some poll := by
  intro h hmem hp
  obtain ⟨permit', rs, rfl⟩ := Happening.poll?_eq_some hp
  obtain ⟨id', period', due', rfl, hready, hin', -⟩ := polled_of_mem hmem
  have hw' : e.post? id' = some (.poller permit' poll period') := post?_of_ready? hready
  obtain ⟨run, hphase, rfl, rfl⟩ := run_of_poller hs.orderly hw hin
  obtain ⟨run', hphase', rfl, rfl⟩ := run_of_poller hs.orderly hw' hin'
  cases hphase.symm.trans hphase'
  exact hne (congrArg Move.act (hs.single hw' hw rfl))

theorem Beats.move_other (h : e.Beats permit poll period due id) (hs : e.Sound) (hm : e.InTime m)
    (hin : permit ∈ (e.move m).permits) (hne : m ≠ .act id) :
    (e.move m).Beats permit poll period due id := by
  cases h with
  | begins hready hdue =>
    obtain ⟨hready', hclock⟩ := hs.ready_of_other hm hready nofun hne
    exact .begins hready' (by rw [hclock, hdue])
  | looks hready hle =>
    obtain ⟨hready', hclock⟩ := hs.ready_of_other hm hready nofun hne
    exact .looks hready' (hclock ▸ hle)
  | sleeps ht =>
    rcases hs.alarm_move hm rfl ht hin with ht' | ⟨hready, hclock⟩
    · exact .sleeps ht'
    · exact .looks hready (Nat.le_of_eq hclock)

theorem poll_of_due (hready : e.ready? id = some (.poll permit poll period e.clock))
    (hnow : permit ∈ e.permits) (hperiod : period ≠ 0) :
    e.records (.act id) = [.polled permit poll (poll.requests e.table)] ∧
      (e.move (.act id)).Beats permit poll period (e.clock + min period longestWait) id := by
  have hallows : e.allows permit = true := allows_iff.2 hnow
  refine ⟨(records_of_ready hready).trans (if_pos ⟨hallows, Nat.le_refl _⟩), ?_⟩
  have hnext : nextTick e.clock e.clock period = e.clock + min period longestWait := by
    unfold nextTick
    rw [if_neg (Nat.not_lt.2 (Nat.le_add_right _ _))]
  have hlater : ¬ e.clock + min period longestWait ≤ e.clock := by
    have hpos : 0 < min period longestWait := Nat.lt_min.2 ⟨Nat.pos_of_ne_zero hperiod, by decide⟩
    omega
  let e₁ := (e.record (.polled permit poll (poll.requests e.table))).enqueueAll (poll.requests e.table)
  have hmove : e.move (.act id) = e₁.sleep id
      (.poll permit poll period (e.clock + min period longestWait)) (e.clock + min period longestWait) := by
    rw [move_of_ready hready]
    show e.poll id permit poll period e.clock = _
    unfold Engine.poll
    rw [if_neg (by simp [hallows]), if_neg (Nat.lt_irrefl _)]
    dsimp only
    rw [hnext]
  have hclock : e₁.clock = e.clock := congrArg Annals.clock (enqueueAll_annals _ _)
  rw [hmove]
  unfold Engine.sleep
  rw [if_neg (hclock ▸ hlater)]
  exact .sleeps (n := e₁.turn) ((task?_park ..).trans (if_pos rfl))

/-- A task that looks before its poll is due makes none, and sleeps until then. -/
theorem sleeps_of_early (hready : e.ready? id = some (.poll permit poll period due))
    (hnow : permit ∈ e.permits) (hlt : e.clock < due) :
    (∀ h ∈ e.records (.act id), h.poll? ≠ some poll) ∧
      (e.move (.act id)).Beats permit poll period due id := by
  have hallows : e.allows permit = true := allows_iff.2 hnow
  refine ⟨fun h hmem => ?_, ?_⟩
  · rw [records_of_ready hready] at hmem
    have hmem : h ∈ if e.allows permit ∧ due ≤ e.clock then
      [Happening.polled permit poll (poll.requests e.table)] else [] := hmem
    rw [if_neg fun hdue => Nat.not_le.2 hlt hdue.2] at hmem
    cases hmem
  · have hmove : e.move (.act id) = e.sleep id (.poll permit poll period due) due := by
      rw [move_of_ready hready]
      show e.poll id permit poll period due = _
      unfold Engine.poll
      rw [if_neg (by simp [hallows]), if_pos hlt]
    rw [hmove]
    unfold Engine.sleep
    rw [if_neg (Nat.not_le.2 hlt)]
    exact .sleeps (n := e.turn) ((task?_park ..).trans (if_pos rfl))

/-- When the task acts, it makes the poll that is due, or comes nearer to it. -/
theorem Beats.move_own (h : e.Beats permit poll period due id) (hnow : permit ∈ e.permits)
    (hperiod : period ≠ 0) :
    ((∀ h ∈ e.records (.act id), h.poll? ≠ some poll) ∧
      (e.move (.act id)).Beats permit poll period due id) ∨
    ((∃ rs, e.records (.act id) = [.polled permit poll rs]) ∧ e.clock = due ∧
      (e.move (.act id)).Beats permit poll period (due + min period longestWait) id) := by
  have hallows : e.allows permit = true := allows_iff.2 hnow
  cases h with
  | @begins delay hready hdue =>
    left
    refine ⟨fun h hmem => ?_, ?_⟩
    · rw [records_of_ready hready] at hmem
      cases hmem
    · have hmove : e.move (.act id) = e.proceed id (.poll permit poll period due) := by
        rw [move_of_ready hready, hdue]
        exact if_neg (by simp [hallows, hperiod])
      have hclock : (e.proceed id (.poll permit poll period due)).clock = e.clock :=
        clock_of_frame (e.proceed_frame id _)
      rw [hmove]
      exact .looks (ready?_proceed hready _) (by rw [hclock, hdue]; exact Nat.le_add_right _ _)
  | looks hready hle =>
    rcases Nat.eq_or_lt_of_le hle with rfl | hlt
    · obtain ⟨hrecords, hbeats⟩ := poll_of_due hready hnow hperiod
      exact .inr ⟨⟨_, hrecords⟩, rfl, hbeats⟩
    · exact .inl (sleeps_of_early hready hnow hlt)
  | sleeps ht =>
    have hasleep : e.ready? id = none := not_ready_of_task? ht nofun
    left
    refine ⟨fun h hmem => ?_, ?_⟩
    · rw [records_of_not_ready hasleep] at hmem
      cases hmem
    · rw [move_of_not_ready hasleep]
      exact .sleeps ht

/-- A move makes the poll that is due, and the next one is due a period later; or it makes no poll of
the kind. -/
theorem Beats.move (h : e.Beats permit poll period due id) (hs : e.Sound) (hm : e.InTime m)
    (hperiod : period ≠ 0) (hnow : permit ∈ e.permits) (hin : permit ∈ (e.move m).permits) :
    ((∀ h ∈ e.records m, h.poll? ≠ some poll) ∧ (e.move m).Beats permit poll period due id) ∨
    ((∃ rs, e.records m = [.polled permit poll rs]) ∧ e.clock = due ∧
      (e.move m).Beats permit poll period (due + min period longestWait) id) := by
  by_cases hne : m = .act id
  · subst hne
    exact h.move_own hnow hperiod
  · exact .inl ⟨not_polled_by_other hs h.post hnow hne, h.move_other hs hm hin hne⟩

/-- As long as its permit is in force, a task polls when it is due and then after every period. -/
theorem Beats.follow (h : e.Beats permit poll period due id) (hs : e.Sound) (hms : e.Timely ms)
    (hperiod : period ≠ 0) (hin : permit ∈ (e.follow ms).permits) :
    ∃ n, (e.follow ms).pollTimes poll = e.pollTimes poll ++
        (List.range n).map (fun k => due + k * min period longestWait) ∧
      (e.follow ms).Beats permit poll period (due + n * min period longestWait) id := by
  induction ms generalizing e due with
  | nil => exact ⟨0, (List.append_nil _).symm, by rwa [Nat.zero_mul]⟩
  | cons m ms ih =>
    have hs' : (e.move m).Sound := hs.move hms.1
    have hissued : permit < e.nextPermit := hs.orderly.sworn h.post rfl
    have hlast : permit ∈ (e.follow (m :: ms)).permits := hin
    have hnow : permit ∈ e.permits := mem_permits_of_follow hs.orderly hissued hlast
    have hnext : permit ∈ (e.move m).permits := by
      refine mem_permits_of_follow hs'.orderly ?_ hin
      exact Nat.lt_of_lt_of_le hissued (move_evolves hs.orderly m).later.nextPermit
    rcases h.move hs hms.1 hperiod hnow hnext with ⟨hnone, hbeats⟩ | ⟨⟨rs, hpolled⟩, hclock, hbeats⟩
    · obtain ⟨n, htimes, hend⟩ := ih hbeats hs' hms.2 hin
      exact ⟨n, htimes.trans (congrArg (· ++ _) (pollTimes_of_none hnone)), hend⟩
    · obtain ⟨n, htimes, hend⟩ := ih hbeats hs' hms.2 hin
      have hfirst : (e.move m).pollTimes poll = e.pollTimes poll ++ [due] := by
        rw [pollTimes_move, hpolled, hclock]
        simp [Happening.poll?]
      refine ⟨n + 1, ?_, ?_⟩
      · rw [follow_cons, htimes, hfirst, List.append_assoc, List.range_succ_eq_map]
        simp [Function.comp_def, Nat.succ_mul, Nat.add_assoc, Nat.add_comm]
      · rw [Nat.succ_mul, Nat.add_comm (n * _), ← Nat.add_assoc]
        exact hend

theorem Beats.ticks (h : e.Beats (run.permit poll) poll period due id) (hs : e.Sound)
    (hphase : e.phase = .active run) (hperiod : period ≠ 0) :
    e.Ticks poll run.root due (min period longestWait) := by
  intro ms hms hin hresets
  have hs' : (e.follow ms).Sound := hs.follow hms
  obtain ⟨run', hphase', -, hpermit, -⟩ := active_of_follow hs.orderly hphase hin hresets
  have hnow : run.permit poll ∈ (e.follow ms).permits := by
    rw [← hpermit]
    exact permit_of_active hs'.orderly hphase' poll
  obtain ⟨n, htimes, hbeats⟩ := h.follow hs hms hperiod hnow
  refine ⟨n, htimes, hbeats.clock_le hs', fun hclock => ⟨id, run', hphase', ?_⟩⟩
  rw [hpermit]
  exact hbeats.pollsNow hs' hperiod hclock

/-! ## Polls that are switched off -/

/-- Who polls after it acted did so before, or began to and had a period. -/
theorem period_of_next (h : d.next e = some (.poll permit poll period due))
    (hd : ∀ due, d = .poll permit poll period due → period ≠ 0) : period ≠ 0 := by
  cases d with
  | startPoll permit' p delay period' =>
    have hnext : (if e.allows permit' ∧ period' ≠ 0 then
      some (Duty.poll permit' p period' (e.clock + delay)) else none) = _ := h
    split at hnext
    case isTrue hon =>
      cases hnext
      exact hon.2
    case isFalse => cases hnext
  | poll permit' p period' due' =>
    have hnext : (if e.allows permit' then some (Duty.poll permit' p period'
      (if due' ≤ e.clock then nextTick due' e.clock period' else due')) else none) = _ := h
    split at hnext
    case isTrue =>
      cases hnext
      exact hd due' rfl
    case isFalse => cases hnext
  | exchange p s =>
    cases hres : e.result? (.exchange p s) with
    | some r =>
      rw [Duty.next_of_result hres] at h
      cases h
    | none =>
      rw [Duty.next_of_none hres] at h
      cases h
  | take run =>
    rw [Duty.next_take] at h
    split at h
    · cases hx : e.queue.entries.head? <;> rw [hx] at h <;> cases h
    · cases h
  | startProbe | probe | consult | route | submit | await | conclude =>
    unfold Duty.next at h
    grind

theorem Periodic.move (h : e.Periodic) (hk : e.Known) (m : Move) : (e.move m).Periodic := by
  intro id permit poll period due hd
  rcases move_duty_cases hk hd with ⟨d, -, hready, hnext⟩ | ⟨d, hd₀, hpass⟩ | hbegins
  · exact period_of_next hnext fun due heq => h (heq ▸ duty?_of_ready? hready)
  · cases hpass with
    | refl => exact h hd₀
  · rcases hbegins.cases with ⟨l, -, heq⟩ | ⟨run, heq⟩ | ⟨p, q, delay, n, heq⟩ | ⟨outage, heq⟩ <;>
      cases heq

theorem follow_periodic (settings : EngineSettings) (service : Service) (observer : Option Observer)
    (script : Script) (ms : List Move) :
    ((start settings service observer script).follow ms).Periodic :=
  orderly_induction (P := Periodic) (fun _ m hr h => h.move (known_of_orderly hr) m)
    (fun _ _ _ _ _ hd => by cases hd) (start_orderly ..) ms

/-- While the period is zero, no poll is made. -/
theorem unticked_of_period (hr : e.roster.Orderly) (hp : e.Periodic) (hphase : e.phase = .active run)
    (hzero : e.settings.period poll = 0) : e.Unticked poll run.root := by
  intro ms hms hin hresets
  induction ms generalizing e run with
  | nil => rfl
  | cons m ms ih =>
    have hm : m.resets poll = false := hresets m List.mem_cons_self
    have hnone : ∀ h ∈ e.records m, h.poll? ≠ some poll := by
      intro h hmem hpoll
      obtain ⟨permit, rs, rfl⟩ := Happening.poll?_eq_some hpoll
      obtain ⟨id, period, due, -, hready, hallows, -⟩ := polled_of_mem hmem
      obtain ⟨-, -, -, rfl⟩ := run_of_poller hr (post?_of_ready? hready) hallows
      exact hp (duty?_of_ready? hready) hzero
    have hr' : (e.move m).roster.Orderly := (move_evolves hr m).orderly hr
    have hissued : run.root < (e.move m).nextPermit :=
      Nat.lt_of_lt_of_le (hr.issued _ (root_of_active hr hphase)) (move_evolves hr m).later.nextPermit
    have hphase' := active_of_root hr hphase (mem_permits_of_follow hr' hissued hin)
    have hzero' : (e.move m).settings.period poll = 0 := by
      rw [move_settings, Move.sets_period hm, hzero]
    have hroot := m.renews_root e.nextPermit run
    rw [follow_cons, ih hr' (hp.move (known_of_orderly hr) m) hphase' hzero' hms.2 (hroot ▸ hin)
      fun m' hm' => hresets m' (List.mem_cons_of_mem m hm'), pollTimes_of_none hnone]

/-! ## When a schedule begins -/

/-- The task of a poll that begins under a new permit. -/
theorem beats_of_begins (hs : e.Sound) (hm : e.InTime m) (hphase : (e.move m).phase = .active run)
    (hnew : run.permit poll ∉ e.permits) (hon : (e.move m).settings.period poll ≠ 0) :
    ∃ id, (e.move m).Beats (run.permit poll) poll ((e.move m).settings.period poll)
      ((e.move m).clock + poll.delay ((e.move m).settings.period poll)) id := by
  have hin : run.permit poll ∈ (e.move m).permits :=
    permit_of_active (hs.move hm).orderly hphase poll
  have hstaff : .poller (run.permit poll) poll ((e.move m).settings.period poll) ∈
      (e.move m).roster.staff := by
    show _ ∈ (e.move m).phase.staff (e.move m).settings
    rw [hphase]
    exact Roster.poller_mem_staff hon run
  obtain ⟨id, d, n, ht, hpost, hbegins⟩ :=
    hs.newcomer hm hstaff rfl (not_or.2 ⟨not_not_intro hin, hon⟩) hnew
  refine ⟨id, .begins (ready?_eq_some.2 ⟨n, ?_⟩) rfl⟩
  rwa [hbegins.poller hpost] at ht

/-- When a run makes a poll that begins under a new permit. -/
theorem cadence_of_begins (hs : e.Sound) (hp : e.Periodic) (hm : e.InTime m)
    (hphase : (e.move m).phase = .active run) (hnew : run.permit poll ∉ e.permits) :
    (e.move m).Cadence poll run.root
      ((e.move m).clock + poll.delay ((e.move m).settings.period poll))
      ((e.move m).settings.period poll) where
  on hon := by
    obtain ⟨id, hbeats⟩ := beats_of_begins hs hm hphase hnew hon
    exact hbeats.ticks (hs.move hm) hphase hon
  off hoff := unticked_of_period (hs.move hm).orderly (hp.move hs.known m) hphase hoff

/-- All permits of a run that begins are new. -/
theorem new_of_root (hr : e.roster.Orderly) (hphase : (e.move m).phase = .active run)
    (hnew : run.root ∉ e.permits) (poll : Poll) : run.permit poll ∉ e.permits := by
  have hfresh : ∀ p, e.nextPermit ≤ p → p ∉ e.permits := fun p hge hin =>
    Nat.not_lt.2 hge (hr.issued p hin)
  have hshift := shift hr m
  rw [hphase] at hshift
  generalize (e.records m).filter Happening.isSignal = hs at hshift
  have hnext : run = e.roster.nextRun → run.permit poll ∉ e.permits := by
    rintro rfl
    cases poll with
    | standard => exact hfresh _ (Nat.le_add_right _ 1)
    | software => exact hfresh _ (Nat.le_add_right _ 2)
    | thermostats | modes => exact hfresh _ (Nat.le_refl _)
  generalize hphase' : Phase.active run = phase at hshift
  cases hshift with
  | lasts hlasts =>
    subst hphase'
    cases hphase : e.phase with
    | dormant | outage =>
      rw [hphase] at hlasts
      cases hlasts
    | active run' =>
      rw [hphase] at hlasts
      exact absurd (hlasts ▸ root_of_active hr hphase) hnew
  | starts | resumes => exact hnext (Phase.active.inj hphase')
  | stops | fails => cases hphase'

/-! ## Calls that begin a poll anew -/

/-- Nothing changes but what goes on under a permit, and what is new. -/
structure Confined (e e' : Engine) (old : Permit) : Prop where
  permits : ∀ p ∈ e.permits, p ≠ old → p ∈ e'.permits
  tasks : ∀ {id t}, e.task? id = some t → t.duty.permit? ≠ some old → e'.task? id = some t
  queue : e'.queue = e.queue
  signal : e'.signal = e.signal
  /-- The line, what happened on the wire and the table. -/
  ledger : e'.ledger = e.ledger
  /-- The time, and what happened. -/
  annals : e'.annals = e.annals

variable {e' : Engine} {old : Permit} {c : Command}

theorem confined_issue (e : Engine) (old : Permit) : e.Confined (e.withdraw [old]).issue.2 old where
  permits p hp hne := by
    have hpermits : (e.withdraw [old]).permits = e.permits.filter fun p => !([old].contains p) :=
      congrArg Roster.permits (e.withdraw_roster [old])
    refine List.mem_cons_of_mem _ ?_
    show p ∈ (e.withdraw [old]).permits
    rw [hpermits]
    exact List.mem_filter.2 ⟨hp, by simpa using hne⟩
  tasks {id t} ht hne := by
    refine withdraw_spared (d := t.duty) (w := t.wait) ht fun p hp hmem => hne ?_
    rw [hp, List.mem_singleton.1 hmem]
  queue := e.withdraw_queue [old]
  signal := e.withdraw_signal [old]
  ledger := e.withdraw_ledger [old]
  annals := e.withdraw_annals [old]

theorem Confined.spawn (h : e.Confined e' old) (hk : e.Known) (hlater : e.nextTask ≤ e'.nextTask)
    (d : Duty) : e.Confined (e'.spawn d) old where
  permits := h.permits
  tasks ht hne := by
    have hlt := Nat.lt_of_lt_of_le (hk.lt (duty?_of_task? ht)) hlater
    rw [task?_spawn, if_neg (Nat.ne_of_gt hlt), h.tasks ht hne]
  queue := h.queue
  signal := h.signal
  ledger := h.ledger
  annals := h.annals

theorem Confined.log (h : e.Confined e' old) (l : LogLine) : e.Confined (e'.log l) old :=
  { h with annals := (log_annals e' l).trans h.annals }

theorem Confined.enter (h : e.Confined e' old) (phase : Phase) :
    e.Confined { e' with phase } old := { h with }

/-- New settings, and what is logged about them, change nothing else. -/
theorem Confined.of_set {s : EngineSettings} {l : LogLine}
    (h : ({ e with settings := s }.log l).Confined e' old) : e.Confined e' old where
  permits := h.permits
  tasks := h.tasks
  queue := h.queue
  signal := h.signal
  ledger := h.ledger
  annals := h.annals.trans (log_annals _ l)

theorem startStandard_confined (hk : e.Known) (old : Permit) :
    e.Confined (e.withdraw [old]).startStandard.2 old := by
  unfold startStandard
  dsimp only
  split
  · exact (confined_issue e old).log _
  · exact (confined_issue e old).spawn hk (withdraw_grows e [old]).nextTask _

theorem startSoftware_confined (hk : e.Known) (old : Permit) :
    e.Confined (e.withdraw [old]).startSoftware.2 old := by
  unfold startSoftware
  dsimp only
  split
  · exact (confined_issue e old).log _
  · exact (confined_issue e old).spawn hk (withdraw_grows e [old]).nextTask _

/-- A call that begins a poll anew during a run changes what goes on under the permit of the poll. -/
theorem obey_confined (hk : e.Known) (hphase : e.phase = .active run) (hc : c.resets poll = true) :
    e.Confined (e.obey c).2 (run.permit poll) := by
  obtain ⟨seconds, rfl, rfl⟩ | ⟨days, rfl, rfl⟩ := Command.resets_iff.1 hc
  · show e.Confined (e.setUpdateInterval _) run.standard
    unfold setUpdateInterval
    dsimp only
    split
    case h_1 run' h =>
      cases hphase.symm.trans h
      refine .of_set (Confined.enter (startStandard_confined ?_ run.standard) _)
      exact hk
    case h_2 h => exact absurd hphase (h run)
  · show e.Confined (e.setSoftwareDays _) run.software
    unfold setSoftwareDays
    dsimp only
    split
    case h_1 run' h =>
      cases hphase.symm.trans h
      refine .of_set (Confined.enter (startSoftware_confined ?_ run.software) _)
      exact hk
    case h_2 h => exact absurd hphase (h run)

/-- The poll begins anew at once, with the period of the call. -/
theorem cadence_of_resets (hs : e.Sound) (hp : e.Periodic) (hphase : e.phase = .active run)
    (hc : c.resets poll = true) : (e.move (.obey c)).Cadence poll run.root e.clock
      ((c.sets e.settings).period poll) := by
  -- the poll gets a new permit and has no delay
  have hpermit : (c.renews e.nextPermit run).permit poll = e.nextPermit := by
    obtain ⟨seconds, rfl, rfl⟩ | ⟨days, rfl, rfl⟩ := Command.resets_iff.1 hc <;> rfl
  have hdelay : poll.delay ((c.sets e.settings).period poll) = 0 := by
    obtain ⟨seconds, rfl, rfl⟩ | ⟨days, rfl, rfl⟩ := Command.resets_iff.1 hc <;> rfl
  have hstop : c.stops e.table = false := by
    obtain ⟨seconds, rfl, rfl⟩ | ⟨days, rfl, rfl⟩ := Command.resets_iff.1 hc <;> rfl
  have hroot := c.renews_root e.nextPermit run
  have hnew : (c.renews e.nextPermit run).permit poll ∉ e.permits := fun hin =>
    Nat.lt_irrefl _ (hs.orderly.issued e.nextPermit (by rwa [hpermit] at hin))
  have hcadence := cadence_of_begins (m := .obey c) hs hp trivial (obey_run hphase hstop) hnew
  rw [move_settings, move_clock e (m := .obey c) rfl] at hcadence
  rwa [show (Move.obey c).sets e.settings = c.sets e.settings from rfl, hdelay, hroot] at hcadence

/-- Outside a run such a call changes the settings only. -/
theorem resets_at_rest (hrest : e.phase.isActive = false) (hc : c.resets poll = true) :
    ∃ line, (e.obey c).2 = { e with settings := c.sets e.settings }.log line := by
  have hnone : ∀ run, e.phase ≠ .active run := fun run hphase => by
    rw [hphase] at hrest
    cases hrest
  obtain ⟨seconds, rfl, rfl⟩ | ⟨days, rfl, rfl⟩ := Command.resets_iff.1 hc
  · show ∃ line, e.setUpdateInterval _ = _
    unfold setUpdateInterval
    dsimp only
    split
    case h_1 run h => exact absurd h (hnone run)
    case h_2 => exact ⟨_, rfl⟩
  · show ∃ line, e.setSoftwareDays _ = _
    unfold setSoftwareDays
    dsimp only
    split
    case h_1 run h => exact absurd h (hnone run)
    case h_2 => exact ⟨_, rfl⟩

/-! ## The schedule -/

/-- When polls are made, whatever the host calls. -/
structure Scheduled (e : Engine) : Prop where
  /-- A run that begins makes each poll after its delay, which the standard poll and the software check
  do not have, and then after every period of the settings at that time. -/
  begins : ∀ m run poll, e.InTime m → (e.move m).phase = .active run → run.root ∉ e.permits →
    (e.move m).Cadence poll run.root
      ((e.move m).clock + poll.delay ((e.move m).settings.period poll))
      ((e.move m).settings.period poll)
  /-- During a run a new interval makes the standard poll begin anew, at once, and disturbs nothing
  else. -/
  interval : ∀ seconds run, e.phase = .active run →
    (e.move (.obey (.setUpdateInterval seconds))).Cadence .standard run.root e.clock
        (seconds * second) ∧
      e.Confined (e.move (.obey (.setUpdateInterval seconds))) run.standard
  /-- So it is with the days between two software checks. -/
  days : ∀ days run, e.phase = .active run →
    (e.move (.obey (.setSoftwareDays days))).Cadence .software run.root e.clock (days.toNat * day) ∧
      e.Confined (e.move (.obey (.setSoftwareDays days))) run.software
  /-- Outside a run both calls change the settings only. -/
  rests : ∀ poll c, e.phase.isActive = false → c.resets poll = true →
    ∃ line, e.move (.obey c) = { e with settings := c.sets e.settings }.log line
  /-- Nothing else changes the settings. -/
  keeps : ∀ m poll, m.resets poll = false →
    (e.move m).settings.period poll = e.settings.period poll
  /-- A poll is made for the run that goes on. It puts the requests of its kind behind all others in
  their order, as far as there is room. -/
  polls : ∀ m permit poll rs, .polled permit poll rs ∈ e.records m →
    ∃ run, e.phase = .active run ∧ permit = run.permit poll ∧ rs = poll.requests e.table ∧
      (e.move m).queue.requests = e.queue.requests ++ rs.take e.queue.free

theorem requests_of_polled (hr : e.roster.Orderly) (h : .polled permit poll rs ∈ e.records m) :
    ∃ run, e.phase = .active run ∧ permit = run.permit poll ∧ rs = poll.requests e.table ∧
      (e.move m).queue.requests = e.queue.requests ++ rs.take e.queue.free := by
  obtain ⟨id, period, due, rfl, hready, hin, hdue, rfl⟩ := polled_of_mem h
  obtain ⟨run, hphase, hpermit, -⟩ := run_of_poller hr (post?_of_ready? hready) hin
  have hasks : (Duty.poll permit poll period due).asks e id =
      (poll.requests e.table).map (.push · none .tail) := if_pos ⟨allows_iff.2 hin, hdue⟩
  refine ⟨run, hphase, hpermit, rfl, ?_⟩
  rw [move_queue, asks_of_ready hready, hasks, Queue.run_tail_requests]

/-- Every poll has its schedule in every run, with periods of thirty years at most. -/
theorem scheduled_polls (settings : EngineSettings) (service : Service) (observer : Option Observer)
    (script : Script) (ms : List Move)
    (htimely : (start settings service observer script).Timely ms) :
    ((start settings service observer script).follow ms).Scheduled := by
  have hs := (sound_start settings service observer script).follow htimely
  have hp := follow_periodic settings service observer script ms
  generalize (start settings service observer script).follow ms = e at hs hp
  have hinterval : ∀ seconds, (Command.setUpdateInterval seconds).resets .standard = true :=
    fun _ => rfl
  have hdays : ∀ days, (Command.setSoftwareDays days).resets .software = true := fun _ => rfl
  refine ⟨fun m run poll hm hphase hnew => ?_, fun seconds run hphase => ⟨?_, ?_⟩,
    fun days run hphase => ⟨?_, ?_⟩, fun poll c hrest hc => resets_at_rest hrest hc,
    fun m poll hm => ?_, fun m permit poll rs h => requests_of_polled hs.orderly h⟩
  · exact cadence_of_begins hs hp hm hphase (new_of_root hs.orderly hphase hnew poll)
  · exact cadence_of_resets hs hp hphase (hinterval seconds)
  · exact obey_confined hs.known hphase (hinterval seconds)
  · exact cadence_of_resets hs hp hphase (hdays days)
  · exact obey_confined hs.known hphase (hdays days)
  · rw [move_settings, Move.sets_period hm]

/-- So it is after the interval was changed in the middle of a run with the default settings. -/
theorem scheduled_after_change :
    let s := start .default ⟨"http://localhost", 1000⟩ none ⟨[], [], [.ok "token"], 0, 0⟩
    let ms : List Move := [.obey (.addListener ⟨1⟩ .silent), .act 0, .act 1, .act 1,
      .obey (.setUpdateInterval 30)]
    s.Timely ms ∧ (s.follow ms).Scheduled := by
  intro s ms
  have htimely : s.Timely ms := by decide +kernel
  exact ⟨htimely, scheduled_polls _ _ none _ ms htimely⟩

/-- With a period of thirty-one years the second poll is made after thirty. -/
theorem not_ticks_by_interval :
    let period := 977616000000
    let settings := { EngineSettings.default with
      queueCapacity := 0, heartbeatInterval := period, updateInterval := period, softwareDays := 0 }
    let e := (start settings ⟨"http://localhost", 1000⟩ none ⟨[], [], [], 0, 0⟩).move
      (.obey (.addListener ⟨1⟩ .silent))
    e.phase = .active ⟨0, 1, 2⟩ ∧ ¬ e.Ticks .standard 0 e.clock period := by
  intro period settings e
  refine ⟨by decide +kernel, fun h => ?_⟩
  let ms : List Move := [.act 0, .act 1, .act 1, .act 2, .act 2, .act 3, .act 3,
    .elapse 946080000000, .act 1]
  obtain ⟨n, htimes, -⟩ := h ms (by decide +kernel) (by decide +kernel) (by decide +kernel)
  have hmade : (e.follow ms).pollTimes .standard = [0, 946080000000] := by decide +kernel
  have hbefore : e.pollTimes .standard = [] := by decide +kernel
  have hclock : e.clock = 0 := by decide +kernel
  rw [hmade, hbefore, hclock] at htimes
  have hn : n = 2 := by simpa using (congrArg List.length htimes).symm
  subst hn
  exact absurd htimes (by decide)

end Engine

end HeatWatch
