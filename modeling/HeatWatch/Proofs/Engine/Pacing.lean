import HeatWatch.Proofs.Engine.Callers
import HeatWatch.Proofs.Engine.Clock

/-!
# The pace of a run

The task of a run takes one request after the other from the queue, and pauses between the end of one
and the next. Main statements:

* `Nearing.move`: what becomes of a task on its way to the next request;
* `Nearing.pullsFrom`: it takes the request at the first time from the end of its pause on at which
  there is one;
* `Rested.move`: what the pause keeps apart;
* `paced_requests`: the pace of every run.
-/

namespace HeatWatch

/-- The time between two requests of a run. -/
def EngineSettings.gap (s : EngineSettings) : Nat := min s.requestInterval longestWait

/-- The run that took the request which something is about. -/
def Happening.run? : Happening → Option Permit
  | .joined _ (.entry run _) | .sent _ (.entry run _) _ | .received _ (.entry run _) _
  | .exchanged _ (.entry run _) _ => some run
  | _ => none

/-- The run that begins to exchange a request. -/
def Happening.begins? : Happening → Option Permit
  | .joined _ (.entry run _) => some run
  | _ => none

theorem Happening.begins?_eq_some {h : Happening} {run : Permit} (hb : h.begins? = some run) :
    ∃ id x, h = .joined id (.entry run x) := by
  unfold begins? at hb
  split at hb
  case h_1 id run x =>
    cases hb
    exact ⟨id, x, rfl⟩
  case h_2 => cases hb

namespace Engine

/-- A move takes the first request off the queue for a run, to exchange it. -/
structure Pulls (e : Engine) (m : Move) (root : Permit) (x : Entry) : Prop where
  acts : ∃ id, m = .act id ∧ e.ready? id = some (.take root) ∧
    (e.move m).duty? id = some (.exchange (.entry root x) .join)
  queue : e.queue.entries = x :: (e.move m).queue.entries

/-- Time goes on as it should, and the run takes nothing from the queue. -/
def Unpulled (root : Permit) : Engine → List Move → Prop
  | _, [] => True
  | e, m :: ms => e.InTime m ∧ (∀ x, ¬ e.Pulls m root x) ∧ (e.move m).Unpulled root ms

/-- The next request that a run takes, it takes at the first time from `t` on at which there is one in
the queue. -/
structure PullsFrom (e : Engine) (root : Permit) (t : Nat) : Prop where
  /-- It takes none before. -/
  notBefore : ∀ {ms m x}, e.Unpulled root ms → (e.follow ms).Pulls m root x →
    t ≤ (e.follow ms).clock
  /-- Once there is one, there is one and time stands still until the run takes it or ends. -/
  notAfter : ∀ {ms m}, e.Unpulled root (ms ++ [m]) → root ∈ (e.follow (ms ++ [m])).permits →
    t ≤ (e.follow ms).clock → (e.follow ms).queue.entries ≠ [] →
      (e.follow (ms ++ [m])).clock = (e.follow ms).clock ∧
      (e.follow (ms ++ [m])).queue.entries ≠ []
  /-- And the run can take it, after it has used the result of the last one. -/
  able : ∀ {ms}, e.Unpulled root ms → root ∈ (e.follow ms).permits → t ≤ (e.follow ms).clock →
    (e.follow ms).queue.entries ≠ [] → ∃ id, (∃ x, (e.follow ms).Pulls (.act id) root x) ∨
      (root ∈ ((e.follow ms).move (.act id)).permits →
        ∃ x, ((e.follow ms).move (.act id)).Pulls (.act id) root x)

/-- The task of a run is on its way to the next request, which it takes from `t` on. -/
inductive Nearing (e : Engine) (root : Permit) (t : Nat) (id : TaskId) : Prop
  | looks (hready : e.ready? id = some (.take root)) (hle : t ≤ e.clock)
  | listens (ht : e.task? id = some ⟨.take root, .entry⟩) (hle : t ≤ e.clock)
  | pauses {n : Nat} (ht : e.task? id = some ⟨.take root, .alarm t n⟩)
  | concludes {x : Entry} {r : Except RequestError String}
      (hready : e.ready? id = some (.conclude (.entry root x) r))
      (ht : t = e.clock + e.settings.gap)

variable {e e' : Engine} {id : TaskId} {d : Duty} {m : Move} {ms : List Move} {root : Permit}
  {t : Nat} {x : Entry}

theorem Unpulled.timely (h : e.Unpulled root ms) : e.Timely ms := by
  induction ms generalizing e with
  | nil => trivial
  | cons m ms ih => exact ⟨h.1, ih h.2.2⟩

theorem unpulled_append {ms' : List Move} :
    e.Unpulled root (ms ++ ms') ↔ e.Unpulled root ms ∧ (e.follow ms).Unpulled root ms' := by
  induction ms generalizing e with
  | nil => exact ⟨fun h => ⟨trivial, h⟩, And.right⟩
  | cons m ms ih =>
    show e.InTime m ∧ _ ∧ (e.move m).Unpulled root (ms ++ ms') ↔ _
    rw [ih, ← and_assoc, ← and_assoc, and_assoc (a := e.InTime m)]
    exact Iff.rfl

/-! ## The gap -/

/-- The gap stays as it is. -/
theorem move_gap (e : Engine) (m : Move) : (e.move m).settings.gap = e.settings.gap := by
  rw [move_settings]
  cases m with
  | obey c => cases c <;> rfl
  | elapse | pass | act | plan => rfl

/-! ## On the way to the next request -/

theorem Nearing.post (h : e.Nearing root t id) : e.post? id = some (.taker root) := by
  cases h with
  | looks hready | concludes hready => exact post?_of_ready? hready
  | listens ht | pauses ht => exact post?_of_task? ht

/-- A run that goes on pauses after every result. -/
theorem concludeEntry_pause (hr : e.roster.Orderly) (hw : e.post? id = some (.taker root))
    {r : Except RequestError String} (hin : root ∈ (e.concludeEntry id root x r).permits) :
    ∃ e₁, Changes true e e₁ ∧ e₁.permits = e.permits ∧
      e.concludeEntry id root x r = e₁.pause id root := by
  have hserver : ∀ f, r = .error f → ¬ f.isServer := by
    rintro f rfl hf
    exact concludeEntry_withdrawn hr hw hf hin
  unfold concludeEntry
  split
  case h_1 body _ =>
    exact ⟨_, deliver_changes e _ _, congrArg Roster.permits (e.deliver_roster _ _), rfl⟩
  case h_2 caller _ =>
    exact ⟨_, .reply rfl e _ _, permits_of_frame (e.reply_frame caller _), rfl⟩
  case h_3 f _ =>
    rw [if_neg (hserver f rfl)]
    exact ⟨_, log_changes e _, rfl, rfl⟩
  case h_4 f caller _ =>
    rw [if_neg (hserver f rfl)]
    exact ⟨_, .reply rfl e _ _, permits_of_frame (e.reply_frame caller _), rfl⟩

/-- A task that pauses is ready again when the pause is over. -/
theorem Nearing.of_pause (hready : e.ready? id = some d) (hin : e.allows root = true) :
    (e.pause id root).Nearing root (e.clock + e.settings.gap) id := by
  unfold pause Engine.sleep
  rw [if_neg (by simp [hin])]
  split
  case isTrue hnow =>
    refine .looks (ready?_proceed hready _) ?_
    rw [clock_of_frame (e.proceed_frame id (.take root))]
    exact hnow
  case isFalse =>
    have ht : (e.park id (.take root) (.alarm (e.after e.settings.requestInterval) e.turn)).task? id =
        some ⟨.take root, .alarm (e.after e.settings.requestInterval) e.turn⟩ := by
      rw [task?_park, if_pos rfl]
    exact .pauses ht

theorem take_of_empty (hin : e.allows root = true) (hempty : e.queue.entries = []) :
    e.take id root = { e with queue := e.queue.pop.2 }.listen id root := by
  unfold take
  rw [if_neg (by simp [hin])]
  split
  case h_1 queue hpop => rw [hpop]
  case h_2 y queue hpop =>
    cases (congrArg List.head? hempty).symm.trans (congrArg Prod.fst hpop)

/-- A task that finds the queue empty waits for a request, or looks again at once. -/
theorem Nearing.of_listen (hready : e.ready? id = some (.take root)) (hle : t ≤ e.clock) :
    (e.listen id root).Nearing root t id := by
  have hle' : t ≤ (e.listen id root).clock := clock_of_frame (e.listen_frame id root) ▸ hle
  unfold listen at hle' ⊢
  split
  case isTrue hsignal =>
    rw [if_pos hsignal] at hle'
    exact .looks (ready?_proceed (e := { e with signal := false }) hready _) hle'
  case isFalse => exact .listens ((task?_park ..).trans (if_pos rfl)) hle

theorem Nearing.of_empty (hready : e.ready? id = some (.take root)) (hin : root ∈ e.permits)
    (hle : t ≤ e.clock) (hqueue : e.queue.entries = []) : (e.move (.act id)).Nearing root t id := by
  rw [move_of_ready hready]
  show (e.take id root).Nearing root t id
  rw [take_of_empty (allows_iff.2 hin) hqueue]
  exact .of_listen (e := { e with queue := e.queue.pop.2 }) hready hle

/-- A task that finds a request takes it. -/
theorem pulls_of_looks (hready : e.ready? id = some (.take root)) (hin : root ∈ e.permits)
    {rest : List Entry} (hqueue : e.queue.entries = x :: rest) : e.Pulls (.act id) root x := by
  have hallows : e.allows root = true := allows_iff.2 hin
  have hmove : e.move (.act id) = e.take id root := move_of_ready hready
  obtain ⟨n, ht⟩ := ready?_eq_some.1 hready
  have htaken : (e.take id root).task? id = some ⟨.exchange (.entry root x) .join, .ready n⟩ :=
    take_of_head? ht hallows (congrArg List.head? hqueue)
  refine ⟨⟨id, rfl, hready, hmove ▸ duty?_of_task? htaken⟩, ?_⟩
  have hpop : (e.move (.act id)).queue = e.queue.pop.2 := by
    rw [hmove, take_queue, if_pos hallows]
    rfl
  rw [hpop, Queue.pop_entries, hqueue]
  rfl

/-- A task that waits for a request waits on, or is woken. -/
theorem Nearing.of_waiting (hs : e.Sound) (hm : e.InTime m)
    (ht : e.task? id = some ⟨.take root, .entry⟩) (hle : t ≤ e.clock) :
    (e.move m).Nearing root t id := by
  have hle' : t ≤ (e.move m).clock := Nat.le_trans hle hm.clock_le
  by_cases hne : m = .act id
  · subst hne
    rw [move_of_not_ready (not_ready_of_task? ht nofun)] at hle' ⊢
    exact .listens ht hle'
  · have hothers := move_others m (hs.known.lt (duty?_of_task? ht)) hne
    rw [ht] at hothers
    generalize ht' : (e.move m).task? id = o at hothers
    rcases hothers with hnudged | ⟨-, hhanded⟩
    · cases hnudged with
      | some hn =>
        cases hn with
        | refl => exact .listens ht' hle'
        | woken _ _ n => exact .looks (ready?_eq_some.2 ⟨n, ht'⟩) hle'
    · cases hhanded with
      | @some _ t' hh =>
        obtain ⟨d', w⟩ := t'
        obtain ⟨rfl, n, rfl⟩ := hh
        exact .looks (ready?_eq_some.2 ⟨n, ht'⟩) hle'

/-- A task that uses a result pauses then, as long as the run goes on. -/
theorem Nearing.of_result (hs : e.Sound) {r : Except RequestError String}
    (hready : e.ready? id = some (.conclude (.entry root x) r))
    (hin : root ∈ (e.move (.act id)).permits) :
    (e.move (.act id)).Nearing root (e.clock + e.settings.gap) id := by
  have hnow : root ∈ e.permits :=
    mem_permits_of_move hs.orderly (post?_of_ready? hready) rfl hin
  have hmove : e.move (.act id) = e.concludeEntry id root x r := move_of_ready hready
  rw [hmove] at hin
  obtain ⟨e₁, hchanges, hpermits, heq⟩ :=
    concludeEntry_pause hs.orderly (post?_of_ready? hready) hin
  have hready₁ := hchanges.grows.ready? (hs.known.lt (duty?_of_ready? hready)) hready nofun
  have hallows : e₁.allows root = true := allows_iff.2 (hpermits ▸ hnow)
  have hclock : e₁.clock = e.clock := by
    rw [← move_clock e (m := .act id) rfl, hmove, heq]
    unfold pause
    rw [if_neg (by simp [hallows])]
    exact (clock_of_frame (e₁.sleep_frame id (.take root) _)).symm
  have hnearing := Nearing.of_pause hready₁ hallows
  rw [hclock, hchanges.settings] at hnearing
  rw [hmove, heq]
  exact hnearing

/-- On its way to the next request a task takes it, or stays on its way, as long as the run goes on. -/
theorem Nearing.move (h : e.Nearing root t id) (hs : e.Sound) (hm : e.InTime m)
    (hin : root ∈ (e.move m).permits) :
    (e.move m).Nearing root t id ∨ ∃ x, e.Pulls m root x := by
  have hnow : root ∈ e.permits := mem_permits_of_move hs.orderly h.post rfl hin
  cases h with
  | looks hready hle =>
    by_cases hne : m = .act id
    · subst hne
      cases hqueue : e.queue.entries with
      | nil => exact .inl (.of_empty hready hnow hle hqueue)
      | cons x rest => exact .inr ⟨x, pulls_of_looks hready hnow hqueue⟩
    · obtain ⟨hready', hclock⟩ := hs.ready_of_other hm hready nofun hne
      exact .inl (.looks hready' (hclock ▸ hle))
  | listens ht hle => exact .inl (.of_waiting hs hm ht hle)
  | pauses ht =>
    left
    rcases hs.alarm_move hm rfl ht hin with ht' | ⟨hready, hclock⟩
    · exact .pauses ht'
    · exact .looks hready (Nat.le_of_eq hclock.symm)
  | @concludes x r hready ht =>
    left
    by_cases hne : m = .act id
    · subst hne
      rw [ht]
      exact .of_result hs hready hin
    · obtain ⟨hready', hclock⟩ := hs.ready_of_other hm hready nofun hne
      exact .concludes hready' (by rw [hclock, move_gap, ht])

/-- So it is as long as the run goes on and takes nothing. -/
theorem Nearing.follow (h : e.Nearing root t id) (hs : e.Sound) (hms : e.Unpulled root ms)
    (hin : root ∈ (e.follow ms).permits) : (e.follow ms).Nearing root t id := by
  induction ms generalizing e with
  | nil => exact h
  | cons m ms ih =>
    obtain ⟨hm, hnone, hms⟩ := hms
    have hs' : (e.move m).Sound := hs.move hm
    have hissued : root < e.nextPermit := hs.orderly.sworn h.post rfl
    have hnext : root ∈ (e.move m).permits := by
      refine mem_permits_of_follow hs'.orderly ?_ hin
      exact Nat.lt_of_lt_of_le hissued (move_evolves hs.orderly m).later.nextPermit
    rcases h.move hs hm hnext with hnearing | ⟨x, hpulls⟩
    · exact ih hnearing hs' hms hin
    · exact absurd hpulls (hnone x)

theorem Pulls.allows (h : e.Pulls m root x) (hk : e.Known) : root ∈ e.permits := by
  obtain ⟨id, rfl, hready, hduty⟩ := h.acts
  rw [move_own hk hready, Duty.next_take] at hduty
  split at hduty
  case isTrue hin => exact allows_iff.1 hin
  case isFalse => cases hduty

/-- When the time has come and there is a request, the task is ready. -/
theorem Nearing.ready (h : e.Nearing root t id) (hs : e.Sound) (hle : t ≤ e.clock)
    (hqueue : e.queue.entries ≠ []) : e.ready? id = some (.take root) ∨
      ∃ x r, e.ready? id = some (.conclude (.entry root x) r) := by
  cases h with
  | looks hready => exact .inl hready
  | concludes hready => exact .inr ⟨_, _, hready⟩
  -- whoever waits for a request has not missed one
  | listens ht => exact absurd (hs.alert.waits ht).2.1 hqueue
  | pauses ht => exact absurd hle (Nat.not_le.2 (hs.punctual t ⟨id, _, _, ht⟩))

/-- While a run goes on no one else takes requests out of the queue. -/
theorem queue_ne_nil_of_move (hr : e.roster.Orderly) (hw : e.post? id = some (.taker root))
    (hin : root ∈ (e.move m).permits) (hqueue : e.queue.entries ≠ [])
    (hnone : m = .act id → e.ready? id ≠ some (.take root)) :
    (e.move m).queue.entries ≠ [] := by
  obtain ⟨run, hphase, rfl⟩ := hr.taker hw (mem_permits_of_move hr hw rfl hin)
  have hphase : e.phase = .active run := hphase
  have hgoes : (e.move m).phase ≠ .dormant := fun hdormant => by
    have hr' := (move_evolves hr m).orderly hr
    have hnone := (hr'.permits run.root).1 hin
    rw [show (e.move m).roster.phase = .dormant from hdormant] at hnone
    cases hnone
  have hkept : ∀ run', e.phase = .active run' → run'.root ∈ (e.move m).permits := fun run' h => by
    cases hphase.symm.trans h
    exact hin
  rcases asks_of_kept hr m hgoes hkept with hpush | ⟨id', run', hm, hphase', hready⟩
  · obtain ⟨x, hx⟩ := List.exists_mem_of_ne_nil _ hqueue
    rw [move_queue]
    exact List.ne_nil_of_mem (Queue.mem_run_of_pushes hpush hx)
  · cases hphase.symm.trans hphase'
    have hid : id' = id := taker_unique hr (post?_of_ready? hready) (root_of_active hr hphase) hw
      (root_of_active hr hphase)
    subst hid
    exact absurd hready (hnone hm)

/-- A task that uses the last result when it is to take the next request takes that one then. -/
theorem Nearing.pulls_after (h : e.Nearing root t id) (hs : e.Sound) (hle : t ≤ e.clock)
    (hqueue : e.queue.entries ≠ []) {r : Except RequestError String}
    (hready : e.ready? id = some (.conclude (.entry root x) r))
    (hin : root ∈ (e.move (.act id)).permits) : ∃ y, (e.move (.act id)).Pulls (.act id) root y := by
  have hother : e.ready? id ≠ some (.take root) := fun h => by
    cases h.symm.trans hready
  have hqueue' := queue_ne_nil_of_move hs.orderly h.post hin hqueue fun _ => hother
  have hnext : (e.move (.act id)).Nearing root t id := by
    refine (h.move hs (m := .act id) trivial hin).resolve_right ?_
    rintro ⟨y, ⟨id', hid, hready', -⟩, -⟩
    cases hid
    exact hother hready'
  have hle' : t ≤ (e.move (.act id)).clock := by
    rw [move_clock _ rfl]
    exact hle
  rcases hnext.ready (hs.move (m := .act id) trivial) hle' hqueue' with hready' | ⟨y, r', hready'⟩
  · obtain ⟨x, rest, hqueue'⟩ := List.exists_cons_of_ne_nil hqueue'
    exact ⟨x, pulls_of_looks hready' hin hqueue'⟩
  · -- it has left the point where it used the result
    have hown := move_own hs.known hready
    rw [duty?_of_ready? hready'] at hown
    cases r <;> unfold Duty.next at hown <;> grind

/-- A task on its way to the next request takes it when it is to. -/
theorem Nearing.pullsFrom (h : e.Nearing root t id) (hs : e.Sound) : e.PullsFrom root t where
  notBefore {ms m x} hms hpulls := by
    have hs' : (e.follow ms).Sound := hs.follow hms.timely
    have hnearing := h.follow hs hms (hpulls.allows hs'.known)
    obtain ⟨id', -, hready, -⟩ := hpulls.acts
    obtain rfl := hs'.single (post?_of_ready? hready) hnearing.post rfl
    obtain ⟨n, ht⟩ := ready?_eq_some.1 hready
    cases hnearing with
    | looks _ hle => exact hle
    | listens ht' | pauses ht' => cases ht.symm.trans ht'
    | concludes hready' => cases hready.symm.trans hready'
  notAfter {ms m} hms hin hle hqueue := by
    obtain ⟨hms, hm, hnone, -⟩ := unpulled_append.1 hms
    have hs' : (e.follow ms).Sound := hs.follow hms.timely
    rw [follow_append] at hin ⊢
    have hissued : root < e.nextPermit := hs.orderly.sworn h.post rfl
    have hnow : root ∈ (e.follow ms).permits := by
      refine mem_permits_of_follow hs'.orderly ?_ hin
      exact Nat.lt_of_lt_of_le hissued (follow_evolves hs.orderly ms).later.nextPermit
    have hnearing := h.follow hs hms hnow
    have hready := hnearing.ready hs' hle hqueue
    have hm' : m.passes = false := by
      rcases hready with hready | ⟨x, r, hready⟩ <;> exact hm.clock_of_ready hready
    refine ⟨move_clock _ hm', queue_ne_nil_of_move hs'.orderly hnearing.post hin hqueue ?_⟩
    rintro rfl hlooks
    obtain ⟨x, rest, hqueue⟩ := List.exists_cons_of_ne_nil hqueue
    exact hnone x (pulls_of_looks hlooks hnow hqueue)
  able {ms} hms hin hle hqueue := by
    have hs' : (e.follow ms).Sound := hs.follow hms.timely
    have hnearing := h.follow hs hms hin
    refine ⟨id, ?_⟩
    rcases hnearing.ready hs' hle hqueue with hready | ⟨x, r, hready⟩
    · obtain ⟨x, rest, hqueue⟩ := List.exists_cons_of_ne_nil hqueue
      exact .inl ⟨x, pulls_of_looks hready hin hqueue⟩
    · exact .inr fun hin' => hnearing.pulls_after hs' hle hqueue hready hin'

/-! ## When the way begins -/

/-- A run that begins is on its way to its first request. -/
theorem nearing_of_begins (hs : e.Sound) (hm : e.InTime m) {run : Run}
    (hphase : (e.move m).phase = .active run) (hnew : run.root ∉ e.permits) :
    ∃ id, (e.move m).Nearing run.root (e.move m).clock id := by
  have hin : run.root ∈ (e.move m).permits := root_of_active (hs.move hm).orderly hphase
  have hstaff : .taker run.root ∈ (e.move m).roster.staff := by
    show .taker run.root ∈ (e.move m).phase.staff (e.move m).settings
    rw [hphase]
    exact List.mem_cons_self
  obtain ⟨id, d, n, ht, hpost, hbegins⟩ := hs.newcomer hm hstaff rfl (not_not_intro hin) hnew
  refine ⟨id, .looks (ready?_eq_some.2 ⟨n, ?_⟩) (Nat.le_refl _)⟩
  rcases hbegins.cases with ⟨l, -, rfl⟩ | ⟨root, rfl⟩ | ⟨permit, p, delay, period, rfl⟩ | ⟨outage, rfl⟩
  · cases hpost
  · obtain rfl := Post.taker.inj hpost
    exact ht
  · cases hpost
  · cases hpost

/-- A run whose request is done is on its way to the next one. -/
theorem nearing_of_exchanged {r : Except RequestError String}
    (hdone : .exchanged id (.entry root x) r ∈ e.records m) :
    (e.move m).Nearing root (e.clock + e.settings.gap) id := by
  obtain ⟨id', d, rfl, hready, hnotes⟩ := notes_of_move hdone
  cases hnotes with
  | exchanged hr =>
    refine .concludes (ready?_of_result? hready hr) ?_
    rw [move_clock e rfl, move_gap]

/-! ## The time between two requests -/

/-- Whatever happens to a request of a run, its task made it happen. -/
theorem task_of_run? {h : Happening} (hmem : h ∈ e.records m) (hrun : h.run? = some root) :
    ∃ id x s, m = .act id ∧ e.ready? id = some (.exchange (.entry root x) s) := by
  obtain ⟨id, d, rfl, hready, hnotes⟩ := notes_of_move hmem
  cases hnotes with
  | @joined p | @sent p | @received p | @exchanged p =>
    cases p with
    | entry run x =>
      obtain rfl := Option.some.inj hrun
      exact ⟨id, x, _, rfl, hready⟩
    | probe | lookup => cases hrun
  | polled | cached | callback | outage | recovered | answered => cases hrun

/-- A run rests between two requests: nothing that happened to an earlier one is less than the gap
before its task joins the line for the next one. -/
structure Rested (e : Engine) (root : Permit) (gap : Nat) : Prop where
  past : ∀ a ∈ e.chronicle, a.time ≤ e.clock
  issued : ∀ a ∈ e.chronicle, a.what.run? = some root → root < e.nextPermit
  apart : e.chronicle.Pairwise fun a b => a.what.run? = some root → b.what.begins? = some root →
    a.time + gap ≤ b.time
  rests : ∀ {id w}, e.task? id = some ⟨.take root, w⟩ → root ∈ e.permits →
    ∀ a ∈ e.chronicle, a.what.run? = some root →
      a.time + gap ≤ e.clock ∨ ∃ due n, w = .alarm due n ∧ a.time + gap ≤ due
  joins : ∀ {id x}, e.duty? id = some (.exchange (.entry root x) .join) →
    ∀ a ∈ e.chronicle, a.what.run? = some root → a.time + gap ≤ e.clock

theorem mem_chronicle_move {a : Event} (ha : a ∈ (e.move m).chronicle) :
    a ∈ e.chronicle ∨ (a.what ∈ e.records m ∧ a.time = e.clock) := by
  rw [move_chronicle, List.mem_append, List.mem_map] at ha
  rcases ha with hold | ⟨h, hmem, rfl⟩
  · exact .inl hold
  · exact .inr ⟨hmem, rfl⟩

/-- While another task acts, nothing happens to the requests of a run. -/
theorem run?_of_other (hs : e.Sound) (hw : e.post? id = some (.taker root)) (hne : m ≠ .act id)
    {h : Happening} (hmem : h ∈ e.records m) : h.run? ≠ some root := by
  intro hrun
  obtain ⟨id', x, s, rfl, hready⟩ := task_of_run? hmem hrun
  exact hne (congrArg Move.act (hs.single (post?_of_ready? hready) hw rfl))

variable {gap : Nat}

theorem Rested.apart_move (h : e.Rested root gap) (m : Move) :
    (e.move m).chronicle.Pairwise fun a b => a.what.run? = some root →
      b.what.begins? = some root → a.time + gap ≤ b.time := by
  -- who joins the line does nothing else
  have halone : ∀ {id p}, .joined id p ∈ e.records m → e.records m = [.joined id p] := by
    intro id p hmem
    obtain ⟨id', d, rfl, hready, hnotes⟩ := notes_of_move hmem
    cases hnotes with
    | joined => rw [records_of_ready hready]; rfl
  rw [move_chronicle, List.pairwise_append]
  refine ⟨h.apart, ?_, fun a ha b hb hrun hbegins => ?_⟩
  · by_cases hjoins : ∃ id p, .joined id p ∈ e.records m
    · obtain ⟨id, p, hmem⟩ := hjoins
      rw [halone hmem]
      exact List.pairwise_singleton _ _
    · refine List.pairwise_of_forall_mem_list fun a _ b hb _ hbegins => ?_
      obtain ⟨h', hmem, rfl⟩ := List.mem_map.1 hb
      obtain ⟨id, x, rfl⟩ := Happening.begins?_eq_some hbegins
      exact absurd ⟨id, _, hmem⟩ hjoins
  · obtain ⟨h', hmem, rfl⟩ := List.mem_map.1 hb
    obtain ⟨id, x, rfl⟩ := Happening.begins?_eq_some hbegins
    obtain ⟨id', d, rfl, hready, hnotes⟩ := notes_of_move hmem
    cases hnotes with
    | joined => exact h.joins (duty?_of_ready? hready) a ha hrun

theorem Rested.past_move (h : e.Rested root gap) {a : Event} (ha : a ∈ (e.move m).chronicle) :
    a.time ≤ e.clock := by
  rcases mem_chronicle_move ha with hold | ⟨-, hnow⟩
  · exact h.past a hold
  · exact Nat.le_of_eq hnow

theorem Rested.issued_move (h : e.Rested root gap) (hr : e.roster.Orderly) {a : Event}
    (ha : a ∈ (e.move m).chronicle) (hrun : a.what.run? = some root) : root < e.nextPermit := by
  rcases mem_chronicle_move ha with hold | ⟨hmem, -⟩
  · exact h.issued a hold hrun
  · obtain ⟨id, x, s, -, hready⟩ := task_of_run? hmem hrun
    exact hr.sworn (post?_of_ready? hready) rfl

/-- Who looks for the next request did so before, or had the result of the last one. -/
theorem looks_of_next (h : d.next e = some (.take root)) :
    d = .take root ∨ ∃ x r, d = .conclude (.entry root x) r := by
  cases d with
  | take run =>
    rw [Duty.next_take] at h
    split at h
    · left
      cases hx : e.queue.entries.head? <;> rw [hx] at h <;> cases h
      rfl
    · cases h
  | exchange p s =>
    cases hres : e.result? (.exchange p s) with
    | some r =>
      rw [Duty.next_of_result hres] at h
      cases h
    | none =>
      rw [Duty.next_of_none hres] at h
      cases h
  | startPoll | poll | startProbe | probe | consult | route | submit | await =>
    unfold Duty.next at h
    grind
  | conclude p r =>
    unfold Duty.next at h
    grind

/-- A task that looks for the next request after it acted has rested, or goes on to rest. -/
theorem Rested.rests_own (h : e.Rested root e.settings.gap) (hs : e.Sound)
    (hready : e.ready? id = some d) {w : Wait}
    (ht : (e.move (.act id)).task? id = some ⟨.take root, w⟩)
    (hin : root ∈ (e.move (.act id)).permits) {a : Event} (ha : a ∈ (e.move (.act id)).chronicle)
    (hrun : a.what.run? = some root) :
    a.time + e.settings.gap ≤ (e.move (.act id)).clock ∨
      ∃ due n, w = .alarm due n ∧ a.time + e.settings.gap ≤ due := by
  have hpast : a.time ≤ e.clock := h.past_move ha
  have hnext : d.next e = some (.take root) := (move_own hs.known hready).symm.trans (duty?_of_task? ht)
  rcases looks_of_next hnext with rfl | ⟨x, r, rfl⟩
  · -- it looked before, and nothing is recorded of that
    left
    rw [move_clock e rfl]
    obtain ⟨n, ht₀⟩ := ready?_eq_some.1 hready
    have hnow : root ∈ e.permits :=
      mem_permits_of_move hs.orderly (post?_of_ready? hready) rfl hin
    rcases mem_chronicle_move ha with hold | ⟨hmem, -⟩
    · rcases h.rests ht₀ hnow a hold hrun with hle | ⟨due, k, heq, -⟩
      · exact hle
      · cases heq
    · rw [records_of_ready hready] at hmem
      cases hmem
  · -- it has used a result, and rests
    have hnearing : e.Nearing root (e.clock + e.settings.gap) id := .concludes hready rfl
    rcases hnearing.move hs (m := .act id) trivial hin with hrests | ⟨y, ⟨id', hid, hready', -⟩, -⟩
    · cases hrests with
      | looks _ hle | listens _ hle =>
        exact .inl (Nat.le_trans (Nat.add_le_add_right hpast _) hle)
      | @pauses n ht' =>
        cases ht.symm.trans ht'
        exact .inr ⟨_, n, rfl, Nat.add_le_add_right hpast _⟩
      | concludes hready' =>
        obtain ⟨k, ht'⟩ := ready?_eq_some.1 hready'
        cases ht.symm.trans ht'
    · cases hid
      cases hready.symm.trans hready'

theorem Rested.rests_move (h : e.Rested root e.settings.gap) (hs : e.Sound) (hm : e.InTime m)
    {w : Wait} (ht : (e.move m).task? id = some ⟨.take root, w⟩) (hin : root ∈ (e.move m).permits)
    {a : Event} (ha : a ∈ (e.move m).chronicle) (hrun : a.what.run? = some root) :
    a.time + e.settings.gap ≤ (e.move m).clock ∨
      ∃ due n, w = .alarm due n ∧ a.time + e.settings.gap ≤ due := by
  have hissued : root < e.nextPermit := h.issued_move hs.orderly ha hrun
  have hlt : id < e.nextTask := by
    refine Nat.lt_of_not_le fun hge => Nat.not_lt.2 ?_ hissued
    exact (move_evolves hs.orderly m).newcomer hs.orderly hge (post?_of_task? ht) rfl
  by_cases hne : m = .act id
  · subst hne
    cases hready : e.ready? id with
    | none =>
      rw [move_of_not_ready hready] at ht hin ha ⊢
      exact h.rests ht hin a ha hrun
    | some d => exact h.rests_own hs hready ht hin ha hrun
  · -- it looked before, and others change at most how it waits
    have hbefore : ∃ w₀, e.task? id = some ⟨.take root, w₀⟩ := by
      have hothers := move_others m hlt hne
      rw [ht] at hothers
      rcases hothers with hnudged | ⟨-, hhanded⟩
      · generalize e.task? id = o at hnudged ⊢
        cases hnudged with
        | some hn => cases hn <;> exact ⟨_, rfl⟩
      · generalize e.task? id = o at hhanded ⊢
        cases hhanded with
        | @some t₀ _ hh =>
          obtain ⟨d₀, w₀⟩ := t₀
          obtain rfl : .take root = d₀ := hh.1
          exact ⟨w₀, rfl⟩
    obtain ⟨w₀, ht₀⟩ := hbefore
    have hold : a ∈ e.chronicle := by
      refine (mem_chronicle_move ha).resolve_right fun hnew => ?_
      exact run?_of_other hs (post?_of_task? ht₀) hne hnew.1 hrun
    have hnow : root ∈ e.permits := mem_permits_of_move hs.orderly (post?_of_task? ht₀) rfl hin
    rcases h.rests ht₀ hnow a hold hrun with hle | ⟨due, n, rfl, hle⟩
    · exact .inl (Nat.le_trans hle hm.clock_le)
    · rcases hs.alarm_move hm rfl ht₀ hin with ht' | ⟨-, hclock⟩
      · cases ht.symm.trans ht'
        exact .inr ⟨due, n, rfl, hle⟩
      · exact .inl (hclock ▸ hle)

theorem Rested.joins_move (h : e.Rested root gap) (hs : e.Sound) (hm : e.InTime m)
    (hd : (e.move m).duty? id = some (.exchange (.entry root x) .join)) {a : Event}
    (ha : a ∈ (e.move m).chronicle) (hrun : a.what.run? = some root) :
    a.time + gap ≤ (e.move m).clock := by
  have hold : e.duty? id = some (.exchange (.entry root x) .join) → a ∈ e.chronicle →
      a.time + gap ≤ (e.move m).clock := fun hd ha =>
    Nat.le_trans (h.joins hd a ha hrun) hm.clock_le
  by_cases hne : m = .act id
  · subst hne
    cases hready : e.ready? id with
    | none =>
      rw [move_of_not_ready hready] at hd ha ⊢
      exact h.joins hd a ha hrun
    | some d =>
      -- it has rested when it takes the request
      obtain ⟨rfl, hin, -⟩ := take_of_next ((move_own hs.known hready).symm.trans hd)
      obtain ⟨n, ht⟩ := ready?_eq_some.1 hready
      rw [move_clock e rfl]
      rcases mem_chronicle_move ha with hold | ⟨hmem, -⟩
      · rcases h.rests ht hin a hold hrun with hle | ⟨due, k, heq, -⟩
        · exact hle
        · cases heq
      · rw [records_of_ready hready] at hmem
        cases hmem
  · rcases move_duty hs.known hne hd with ⟨d, hd₀, hpass⟩ | ⟨-, hbegins⟩
    · cases hpass with
      | refl =>
        refine hold hd₀ ((mem_chronicle_move ha).resolve_right fun hnew => ?_)
        exact run?_of_other hs (post?_of_duty? hd₀) hne hnew.1 hrun
    · exact absurd hbegins Move.not_begins_exchange

theorem Rested.move (h : e.Rested root e.settings.gap) (hs : e.Sound) (hm : e.InTime m) :
    (e.move m).Rested root e.settings.gap where
  past _ ha := Nat.le_trans (h.past_move ha) hm.clock_le
  issued _ ha hrun :=
    Nat.lt_of_lt_of_le (h.issued_move hs.orderly ha hrun) (move_evolves hs.orderly m).later.nextPermit
  apart := h.apart_move m
  rests ht hin _ ha hrun := h.rests_move hs hm ht hin ha hrun
  joins hd _ ha hrun := h.joins_move hs hm hd ha hrun

theorem Rested.follow (h : e.Rested root e.settings.gap) (hs : e.Sound) (hms : e.Timely ms) :
    (e.follow ms).Rested root e.settings.gap := by
  induction ms generalizing e with
  | nil => exact h
  | cons m ms ih =>
    have hm := h.move hs hms.1
    rw [← move_gap e m] at hm ⊢
    exact ih hm (hs.move hms.1) hms.2

theorem rested_start (settings : EngineSettings) (service : Service) (observer : Option Observer)
    (script : Script) (root : Permit) (gap : Nat) :
    (start settings service observer script).Rested root gap where
  past _ ha := by cases ha
  issued _ ha := by cases ha
  apart := List.Pairwise.nil
  rests ht := by cases ht
  joins hd := by cases hd

/-! ## The pace -/

/-- How a run goes from one request to the next, whatever the order in which requests are put into the
queue. -/
structure Paced (e : Engine) (gap : Nat) : Prop where
  /-- A run that begins takes its first request at the first time from then on at which there is one. -/
  first : ∀ m run, e.InTime m → (e.move m).phase = .active run → run.root ∉ e.permits →
    (e.move m).PullsFrom run.root (e.move m).clock
  /-- A run whose request is done, with whatever result, takes the next one at the first time from the
  gap after that on at which there is one. -/
  next : ∀ m id root x r, .exchanged id (.entry root x) r ∈ e.records m →
    (e.move m).PullsFrom root (e.clock + gap)
  /-- So whatever happens to a request of a run is over the gap before the next one joins the line. -/
  apart : ∀ root, e.chronicle.Pairwise fun a b => a.what.run? = some root →
    b.what.begins? = some root → a.time + gap ≤ b.time
  /-- No task waits for a request while there is one. -/
  alert : ∀ id d, e.task? id = some ⟨d, .entry⟩ → e.queue.entries = []

/-- A run rests between its requests for the interval of the settings, but for thirty years at most. -/
theorem paced_requests (settings : EngineSettings) (service : Service) (observer : Option Observer)
    (script : Script) (ms : List Move)
    (htimely : (start settings service observer script).Timely ms) :
    ((start settings service observer script).follow ms).Paced
      (min settings.requestInterval longestWait) := by
  have hs := (sound_start settings service observer script).follow htimely
  have hgap : ((start settings service observer script).follow ms).settings.gap =
      min settings.requestInterval longestWait :=
    congrArg (min · longestWait) (follow_requestInterval _ ms)
  refine ⟨fun m run hm hphase hnew => ?_, fun m id root x r hdone => ?_, fun root => ?_,
    fun id d ht => (hs.alert.waits ht).2.1⟩
  · obtain ⟨id, hnearing⟩ := nearing_of_begins hs hm hphase hnew
    exact hnearing.pullsFrom (hs.move hm)
  · have hnearing := nearing_of_exchanged hdone
    obtain ⟨id', -, -, rfl, -⟩ := task_of_run? hdone rfl
    rw [hgap] at hnearing
    exact hnearing.pullsFrom (hs.move trivial)
  · have hrested := (rested_start settings service observer script root _).follow
      (sound_start settings service observer script) htimely
    exact hrested.apart

/-- So it is after a request was refused, with the default settings but for the polls. -/
theorem paced_after_refusal :
    let settings := { EngineSettings.default with updateInterval := 0, softwareDays := 0 }
    let s := start settings ⟨"http://localhost", 1000⟩ none
      ⟨[some ⟨5, .ok ⟨404, ""⟩⟩], [], [.ok "token"], 0, 0⟩
    let ms : List Move := [.obey (.requestSystem ⟨1⟩), .obey (.addListener ⟨1⟩ .silent), .act 0, .act 0,
      .act 0, .act 1, .act 1, .act 2, .act 2, .elapse 5, .act 0]
    s.Timely ms ∧ (s.follow ms).Paced (min settings.requestInterval longestWait) := by
  intro settings s ms
  have htimely : s.Timely ms := by decide +kernel
  exact ⟨htimely, paced_requests settings _ none _ ms htimely⟩

/-- An interval of thirty-one years does not keep requests so long apart: the run takes the next one
after thirty. -/
theorem not_paced_by_interval :
    let settings := { EngineSettings.default with
      requestInterval := 977616000000, heartbeatInterval := 977616000000, updateInterval := 0,
      softwareDays := 0 }
    let s := start settings ⟨"http://localhost", 1000⟩ none
      ⟨[some ⟨5, .ok ⟨404, ""⟩⟩], [], [.ok "token"], 0, 0⟩
    let ms : List Move := [.obey (.requestSystem ⟨1⟩), .obey (.requestSystem ⟨2⟩),
      .obey (.addListener ⟨1⟩ .silent), .act 0, .act 0, .act 0, .act 1, .act 1, .act 2, .act 2,
      .elapse 5, .act 0, .act 0, .elapse 946080000005, .act 0, .act 0]
    s.Timely ms ∧ ¬ (s.follow ms).Paced settings.requestInterval := by
  intro settings s ms
  refine ⟨by decide +kernel, fun h => ?_⟩
  exact absurd (h.apart 0) (by decide +kernel)

end Engine

end HeatWatch
