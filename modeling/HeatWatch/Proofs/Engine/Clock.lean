import HeatWatch.Proofs.Engine.Chronicle
import HeatWatch.Proofs.Engine.Wakes

/-!
# The clock

Time goes on only when no task is ready, and not past a time that a task waits for. So no task sleeps
longer than it has to. Main statements:

* `Timely`: runs in which time goes on so;
* `Sound.follow`: what holds in all of them, above all that no task waits for a time that has come;
* `Sound.alarm_move`: who waits for a time waits on, or goes on at that time;
* `Sound.newcomer`: a task under a new permit has just begun;
* `timely_steps`: the steps that are taken when time passes are such a run;
* `move_settings`: only two calls of the host change the settings.
-/

namespace HeatWatch

/-- The settings after a move. -/
def Move.sets (s : EngineSettings) : Move → EngineSettings
  | .obey c => c.sets s
  | _ => s

namespace Engine

/-- A task waits for this time. -/
def Due (e : Engine) (due : Nat) : Prop := ∃ id d n, e.task? id = some ⟨d, .alarm due n⟩

/-- A move takes no time, or no task is ready and time goes on: at most to the next time that a task
waits for, which wakes the task. -/
def InTime (e : Engine) : Move → Prop
  | .elapse now => e.clock ≤ now ∧ (∀ id, e.ready? id = none) ∧ ∀ due, e.Due due → now ≤ due
  | .pass now => e.clock ≤ now ∧ (∀ id, e.ready? id = none) ∧ ∀ due, e.Due due → now < due
  | .obey _ | .act _ | .plan _ => True

/-- Time goes on only so. -/
def Timely : Engine → List Move → Prop
  | _, [] => True
  | e, m :: ms => e.InTime m ∧ (e.move m).Timely ms

/-- No task waits for a time that has come. -/
def Punctual (e : Engine) : Prop := ∀ due, e.Due due → e.clock < due

variable {tells : Bool} {e e' : Engine} {id : TaskId} {d : Duty} {m : Move} {ms ms' : List Move}
  {due n : Nat}

theorem timely_append : e.Timely (ms ++ ms') ↔ e.Timely ms ∧ (e.follow ms).Timely ms' := by
  induction ms generalizing e with
  | nil => exact ⟨fun h => ⟨trivial, h⟩, And.right⟩
  | cons m ms ih =>
    show e.InTime m ∧ (e.move m).Timely (ms ++ ms') ↔ _
    rw [ih, ← and_assoc]
    exact Iff.rfl

/-- Time does not go back. -/
theorem InTime.clock_le (h : e.InTime m) : e.clock ≤ (e.move m).clock := by
  cases m with
  | elapse | pass => exact h.1
  | obey | act | plan => exact Nat.le_of_eq (move_clock e rfl).symm

theorem Timely.clock_le (h : e.Timely ms) : e.clock ≤ (e.follow ms).clock := by
  induction ms generalizing e with
  | nil => exact Nat.le_refl _
  | cons m ms ih => exact Nat.le_trans h.1.clock_le (ih h.2)

/-- Time does not go on while a task is ready. -/
theorem InTime.clock_of_ready (h : e.InTime m) (hready : e.ready? id = some d) :
    m.passes = false := by
  cases m with
  | elapse | pass => cases (h.2.1 id).symm.trans hready
  | obey | act | plan => rfl

theorem clock_of_frame (hf : e'.frame = e.frame) : e'.clock = e.clock := by
  show e'.frame.clock = e.frame.clock
  rw [hf]

/-! ## Sleeping -/

theorem task?_elapse (e : Engine) (now : Nat) (id : TaskId) :
    (e.elapse now).task? id = (e.task? id).map (ring now) := SortedMap.get?_map ..

/-- A task that goes to sleep does so until later. -/
theorem Yields.later {o : Option Duty} (hy : Yields e id o e')
    (hne : ∀ {d'}, e.task? id ≠ some ⟨d', .alarm due n⟩)
    (ht : e'.task? id = some ⟨d, .alarm due n⟩) : e'.clock < due := by
  have hproceed : ∀ (x : Engine) (d' : Duty), x.tasks = e.tasks →
      (x.proceed id d').task? id ≠ some ⟨d, .alarm due n⟩ := by
    intro x d' hx ht
    rw [task?_proceed, if_pos rfl, task?_eq_of_tasks hx] at ht
    obtain ⟨⟨d₁, w⟩, ht₁, heq⟩ := Option.map_eq_some_iff.1 ht
    cases heq
    exact hne ht₁
  cases hy with
  | finish =>
    rw [task?_finish, if_pos rfl] at ht
    cases ht
  | park d' hw =>
    rw [task?_park, if_pos rfl] at ht
    cases ht
    cases hw <;> contradiction
  | proceed d' => exact absurd ht (hproceed e d' rfl)
  | sleep d' due' =>
    unfold Engine.sleep at ht ⊢
    split at ht
    case isTrue => exact absurd ht (hproceed e d' rfl)
    case isFalse hlater =>
      have ht' : (e.park id d' (.alarm due' e.turn)).task? id = some ⟨d, .alarm due n⟩ := ht
      rw [task?_park, if_pos rfl] at ht'
      cases ht'
      rw [if_neg hlater]
      exact Nat.not_le.1 hlater
  | listen =>
    unfold Engine.listen at ht
    split at ht
    · exact absurd ht (hproceed _ _ rfl)
    · rw [task?_park, if_pos rfl] at ht
      cases ht

theorem Turn.later {o : Option Duty} {heir : Option TaskId} {d₀ : Duty}
    (h : Turn tells e id o heir e') (hk : e.Known) (hready : e.ready? id = some d₀)
    (ht : e'.task? id = some ⟨d, .alarm due n⟩) : e'.clock < due := by
  cases h with
  | yields hc hy => exact hy.later (hc.grows.not_waits hk hready nofun) ht
  | @hands e₁ hcrew hqueue next d' =>
    have hc : Changes tells e e₁ := .same hcrew hqueue
    rw [task?_proceed, if_pos rfl] at ht
    obtain ⟨⟨d₁, w⟩, ht₁, heq⟩ := Option.map_eq_some_iff.1 ht
    cases heq
    -- it was ready, and whoever is woken is ready too
    have hawake : e₁.task? id ≠ some ⟨d₁, .alarm due n⟩ := hc.grows.not_waits hk hready nofun
    refine absurd ?_ hawake
    by_cases hid : next = id
    · subst hid
      obtain ⟨k, hk⟩ := awake_of_wake ht₁
      cases hk
    · rwa [task?_wake_of_ne _ _ hid] at ht₁

/-- A task that waits for a time did so before, or went to sleep just now. -/
theorem alarm_of_move (hk : e.Known) (hm : m.passes = false)
    (ht : (e.move m).task? id = some ⟨d, .alarm due n⟩) :
    e.task? id = some ⟨d, .alarm due n⟩ ∨ e.clock < due := by
  rcases Nat.lt_or_ge id e.nextTask with hlt | hge
  · by_cases hne : m = .act id
    · subst hne
      cases hready : e.ready? id with
      | none =>
        rw [move_of_not_ready hready] at ht
        exact .inl ht
      | some d₀ =>
        right
        rw [← move_clock e hm]
        rw [move_of_ready hready] at ht ⊢
        exact (perform_turn e id d₀).later hk hready ht
    · left
      rcases move_others m hlt hne with hnudged | ⟨-, hhanded⟩
      · exact waits_of_nudged hnudged nofun ht
      · rw [ht] at hhanded
        generalize e.task? id = o at hhanded
        cases hhanded with
        | some hh =>
          obtain ⟨-, k, hk⟩ := hh
          cases hk
  · obtain ⟨-, k, hk⟩ := move_new hk m hge ht
    cases hk

theorem Punctual.move (h : e.Punctual) (hk : e.Known) (hm : e.InTime m) : (e.move m).Punctual := by
  rintro due ⟨id, d, n, ht⟩
  have hstill : m.passes = false → (e.move m).clock < due := fun hstill => by
    rw [move_clock e hstill]
    rcases alarm_of_move hk hstill ht with hold | hlater
    · exact h due ⟨id, d, n, hold⟩
    · exact hlater
  cases m with
  | obey | act | plan => exact hstill rfl
  | pass now => exact hm.2.2 due ⟨id, d, n, ht⟩
  | elapse now =>
    have ht' : (e.elapse now).task? id = some ⟨d, .alarm due n⟩ := ht
    rw [task?_elapse] at ht'
    obtain ⟨⟨d₁, w⟩, -, hring⟩ := Option.map_eq_some_iff.1 ht'
    -- what has come rings
    show now < due
    unfold ring at hring
    grind

/-- What holds in every run in which time goes on as it should: the tasks at work are the ones that
the phase asks for, the line is in order, no wake-up is lost, and no one oversleeps. -/
structure Sound (e : Engine) : Prop where
  orderly : e.roster.Orderly
  manned : e.roster.Manned
  single : e.roster.Single
  lined : e.Lined
  alert : e.Alert
  punctual : e.Punctual

theorem Sound.known (h : e.Sound) : e.Known := known_of_orderly h.orderly

theorem Sound.move (h : e.Sound) (hm : e.InTime m) : (e.move m).Sound where
  orderly := (move_evolves h.orderly m).orderly h.orderly
  manned := (move_evolves h.orderly m).manned h.orderly h.manned
  single := (move_evolves h.orderly m).single h.orderly h.single
  lined := h.lined.move h.known m
  alert := h.alert.move h.orderly m
  punctual := h.punctual.move h.known hm

theorem Sound.follow (h : e.Sound) (hms : e.Timely ms) : (e.follow ms).Sound := by
  induction ms generalizing e with
  | nil => exact h
  | cons m ms ih => exact ih (h.move hms.1) hms.2

theorem sound_start (settings : EngineSettings) (service : Service) (observer : Option Observer)
    (script : Script) : (start settings service observer script).Sound where
  orderly := start_orderly ..
  manned := start_manned settings service observer script
  single _ _ _ _ hw := by cases hw
  lined := lined_start ..
  alert := .of_none nofun
  punctual := by
    rintro due ⟨id, d, n, ht⟩
    cases ht

/-- A task that is ready is so at the same time after a move of others. -/
theorem Sound.ready_of_other (hs : e.Sound) (hm : e.InTime m) (hready : e.ready? id = some d)
    (hd : ∀ l, d ≠ .await l) (hne : m ≠ .act id) :
    (e.move m).ready? id = some d ∧ (e.move m).clock = e.clock :=
  ⟨ready?_move_of_other hs.known hne hready hd, move_clock e (hm.clock_of_ready hready)⟩

/-- A task that waits for a time under a permit in force waits on, or the time has come and it is
ready. -/
theorem Sound.alarm_move (hs : e.Sound) (hm : e.InTime m) {p : Permit} (hp : d.permit? = some p)
    (ht : e.task? id = some ⟨d, .alarm due n⟩) (hin : p ∈ (e.move m).permits) :
    (e.move m).task? id = some ⟨d, .alarm due n⟩ ∨
      (e.move m).ready? id = some d ∧ (e.move m).clock = due := by
  by_cases hring : m = .elapse due
  · subst hring
    exact .inr ⟨ready?_eq_some.2 ⟨n, elapse_rings ht (Nat.le_refl due)⟩, rfl⟩
  · refine .inl (move_spared hs.orderly hs.lined hp ht hin fun now heq => ?_)
    subst heq
    exact Nat.lt_of_le_of_ne (hm.2.2 due ⟨id, _, _, ht⟩) fun h => hring (h ▸ rfl)

/-- A post that is to be filled under a new permit is held by a task that has just begun. -/
theorem Sound.newcomer (hs : e.Sound) (hm : e.InTime m) {w : Post} {p : Permit}
    (hw : w ∈ (e.move m).roster.staff) (hp : w.permit? = some p)
    (hkeep : ¬ (e.move m).roster.MayQuit w) (hnew : p ∉ e.permits) :
    ∃ id d n, (e.move m).task? id = some ⟨d, .ready n⟩ ∧ d.post = w ∧ m.Begins d := by
  have hs' : (e.move m).Sound := hs.move hm
  have hin : p ∈ (e.move m).permits := by
    obtain ⟨q, hq, hpermit⟩ := Roster.permit_of_mem_staff hw
    obtain rfl := Option.some.inj (hp.symm.trans hpermit)
    exact (hs'.orderly.permits p).2 hq
  obtain ⟨id, hid⟩ := hs'.manned w hw hkeep
  have hlater := (move_evolves hs.orderly m).later
  -- a task that was there before had another post
  have hge : e.nextTask ≤ id := by
    refine Nat.le_of_not_lt fun hlt => ?_
    rcases hlater.post hlt with hsame | hgone
    · exact hlater.withdrawn (hs.orderly.sworn (hsame.symm.trans hid) hp) hnew hin
    · cases hgone.symm.trans hid
  obtain ⟨⟨d, wait⟩, ht, hpost⟩ := task?_of_post? hid
  obtain ⟨hbegins, n, rfl⟩ := move_new hs.known m hge ht
  exact ⟨id, d, n, ht, hpost, hbegins⟩

/-! ## The driver -/

theorem next?_eq_none_iff : e.next? = none ↔ ∀ id, e.ready? id = none := by
  have hnone : e.next? = none ↔ e.tasks.entries.filterMap turn? = [] := by
    unfold next?
    rw [Option.map_eq_none_iff]
    -- the fold finds something in every list that is not empty
    have hsome : ∀ {f : Option (Nat × TaskId) → Nat × TaskId → Option (Nat × TaskId)},
        (∀ b t, f b t ≠ none) → ∀ ts b, ts.foldl f b = none ↔ b = none ∧ ts = [] := by
      intro f hf ts
      induction ts with
      | nil => simp
      | cons t ts ih => intro b; simp [List.foldl_cons, ih, hf]
    refine (hsome (fun b t => ?_) _ none).trans (and_iff_right rfl)
    cases b with
    | none => nofun
    | some b =>
      dsimp only
      split <;> nofun
  rw [hnone, List.filterMap_eq_nil_iff]
  constructor
  · intro h id
    refine Option.eq_none_iff_forall_ne_some.2 fun d hready => ?_
    obtain ⟨n, ht⟩ := ready?_eq_some.1 hready
    cases h (id, ⟨d, .ready n⟩) ((SortedMap.mem_entries_iff _ _ _).2 ht)
  · rintro h ⟨id, d, w⟩ hmem
    cases w with
    | ready n =>
      have ht : e.task? id = some ⟨d, .ready n⟩ := (SortedMap.mem_entries_iff _ _ _).1 hmem
      cases (h id).symm.trans (ready?_eq_some.2 ⟨n, ht⟩)
    | alarm | entry | line | result => rfl

/-- A fold that keeps what it has or takes the next one finds one of them. -/
theorem mem_of_foldl {α : Type} {f : Option α → α → Option α} (hf : ∀ b t, f b t = b ∨ f b t = some t)
    {ts : List α} {b : Option α} {x : α} (h : ts.foldl f b = some x) : b = some x ∨ x ∈ ts := by
  induction ts generalizing b with
  | nil => exact .inl h
  | cons t ts ih =>
    rcases ih h with hx | hx
    · rcases hf b t with heq | heq
      · exact .inl (heq ▸ hx)
      · exact .inr (Option.some.inj (heq.symm.trans hx) ▸ List.mem_cons_self)
    · exact .inr (List.mem_cons_of_mem t hx)

/-- The task whose turn it is is ready. -/
theorem ready_of_next? (h : e.next? = some id) : ∃ d, e.ready? id = some d := by
  unfold next? at h
  obtain ⟨t, hfold, rfl⟩ := Option.map_eq_some_iff.1 h
  have hmem : t ∈ e.tasks.entries.filterMap turn? := by
    refine (mem_of_foldl (fun b t => ?_) hfold).resolve_left nofun
    cases b with
    | none => exact .inr rfl
    | some b =>
      dsimp only
      split
      · exact .inr rfl
      · exact .inl rfl
  obtain ⟨⟨id, d, w⟩, hin, hturn⟩ := List.mem_filterMap.1 hmem
  unfold turn? at hturn
  split at hturn
  case h_1 n hw =>
    cases hturn
    obtain rfl : w = .ready n := hw
    exact ⟨d, ready?_eq_some.2 ⟨n, (SortedMap.mem_entries_iff _ _ _).1 hin⟩⟩
  case h_2 => cases hturn

theorem mem_dues : due ∈ e.tasks.entries.filterMap due? ↔ e.Due due := by
  rw [List.mem_filterMap]
  constructor
  · rintro ⟨⟨id, d, w⟩, hmem, hdue⟩
    unfold due? at hdue
    split at hdue
    case h_1 k n hw =>
      cases hdue
      obtain rfl : w = .alarm due n := hw
      exact ⟨id, d, n, (SortedMap.mem_entries_iff _ _ _).1 hmem⟩
    case h_2 => cases hdue
  · rintro ⟨id, d, n, ht⟩
    exact ⟨(id, ⟨d, .alarm due n⟩), (SortedMap.mem_entries_iff _ _ _).2 ht, rfl⟩

/-- Whether time can go on is seen from the tasks that there are. -/
instance (e : Engine) (m : Move) : Decidable (e.InTime m) :=
  match m with
  | .elapse now =>
    decidable_of_iff (e.clock ≤ now ∧ e.next? = none ∧
        ∀ due ∈ e.tasks.entries.filterMap due?, now ≤ due)
      (and_congr_right' (and_congr next?_eq_none_iff (forall_congr' fun _ => imp_congr_left mem_dues)))
  | .pass now =>
    decidable_of_iff (e.clock ≤ now ∧ e.next? = none ∧
        ∀ due ∈ e.tasks.entries.filterMap due?, now < due)
      (and_congr_right' (and_congr next?_eq_none_iff (forall_congr' fun _ => imp_congr_left mem_dues)))
  | .obey _ | .act _ | .plan _ => isTrue trivial

instance timelyDecidable : (e : Engine) → (ms : List Move) → Decidable (e.Timely ms)
  | _, [] => isTrue trivial
  | e, m :: ms =>
    have := timelyDecidable (e.move m) ms
    inferInstanceAs (Decidable (e.InTime m ∧ (e.move m).Timely ms))

/-- What happens next takes no time, or it is the next time that a task waits for. -/
theorem inTime_step (hp : e.Punctual) {limit : Nat} (h : e.step? limit = some e') :
    ∃ m, e.InTime m ∧ e' = e.move m ∧ (e.clock ≤ limit → e'.clock ≤ limit) := by
  unfold step? at h
  split at h
  case h_1 id hnext =>
    obtain rfl := Option.some.inj h
    exact ⟨.act id, trivial, rfl, fun hle => (move_clock e (m := .act id) rfl).symm ▸ hle⟩
  case h_2 hnone =>
    split at h
    case h_1 due hdue =>
      obtain ⟨hmem, hmin⟩ := List.min?_eq_some_iff.1 hdue
      split at h
      case isTrue hle =>
        obtain rfl := Option.some.inj h
        have hlater : e.clock ≤ due := Nat.le_of_lt (hp due (mem_dues.1 hmem))
        refine ⟨.elapse due, ⟨hlater, next?_eq_none_iff.1 hnone, fun due' h => ?_⟩, rfl, fun _ => hle⟩
        exact hmin due' (mem_dues.2 h)
      case isFalse => cases h
    case h_2 => cases h

/-- Nothing happens any more until a time: no task is ready, and all others wait for later. -/
theorem idle_of_step? {limit : Nat} (h : e.step? limit = none) :
    (∀ id, e.ready? id = none) ∧ ∀ due, e.Due due → limit < due := by
  unfold step? at h
  split at h
  case h_1 => cases h
  case h_2 hnone =>
    refine ⟨next?_eq_none_iff.1 hnone, fun due hdue => ?_⟩
    split at h
    case h_1 first hfirst =>
      obtain ⟨-, hmin⟩ := List.min?_eq_some_iff.1 hfirst
      split at h
      case isTrue => cases h
      case isFalse hlt => exact Nat.lt_of_lt_of_le (Nat.not_le.1 hlt) (hmin due (mem_dues.2 hdue))
    case h_2 hnone =>
      have hnil := List.min?_eq_none_iff.1 hnone
      rw [← mem_dues, hnil] at hdue
      cases hdue

theorem timely_steps (hr : e.roster.Orderly) (hp : e.Punctual) {limit : Nat} (hle : e.clock ≤ limit)
    (fuel : Nat) : ∃ ms, e.Timely ms ∧ steps limit fuel e = e.follow ms ∧
      (e.follow ms).clock ≤ limit := by
  induction fuel generalizing e with
  | zero => exact ⟨[], trivial, rfl, hle⟩
  | succ fuel ih =>
    unfold steps
    split
    case h_1 e' he =>
      obtain ⟨m, hm, rfl, hclock⟩ := inTime_step hp he
      obtain ⟨ms, hms, heq, hend⟩ := ih ((move_evolves hr m).orderly hr)
        (hp.move (known_of_orderly hr) hm) (hclock hle)
      exact ⟨m :: ms, ⟨hm, hms⟩, heq, hend⟩
    case h_2 => exact ⟨[], trivial, rfl, hle⟩

/-! ## Settings -/

/-- Only two calls of the host change the settings. -/
theorem move_settings (e : Engine) (m : Move) : (e.move m).settings = m.sets e.settings := by
  cases m with
  | elapse | pass | plan => rfl
  | obey c =>
    by_cases hc : ∃ l, c = .lookup l
    · obtain ⟨l, rfl⟩ := hc
      rfl
    · exact (obey_changes e (not_exists.1 hc)).settings
  | act id =>
    cases hready : e.ready? id with
    | none =>
      rw [move_of_not_ready hready]
      rfl
    | some d =>
      rw [move_of_ready hready]
      have hturn := perform_turn e id d
      generalize d.next e = o at hturn
      generalize e.heir? d = heir at hturn
      generalize e.perform id d = e' at hturn ⊢
      cases hturn with
      | yields h hy =>
        refine Eq.trans ?_ h.settings
        cases hy with
        | finish | park => rfl
        | proceed d => exact settings_of_frame (proceed_frame _ id d)
        | sleep d due => exact settings_of_frame (sleep_frame _ id d due)
        | listen => exact settings_of_frame (listen_frame _ id _)
      | hands hcrew _ next d =>
        refine (settings_of_frame (proceed_frame _ id d)).trans ?_
        exact (settings_of_frame (wake_frame _ next)).trans (congrArg Crew.settings hcrew)

/-- What no call changes stays. -/
theorem follow_requestInterval (e : Engine) (ms : List Move) :
    (e.follow ms).settings.requestInterval = e.settings.requestInterval := by
  refine follow_induction (P := fun x => x.settings.requestInterval = e.settings.requestInterval)
    (fun x m h => ?_) rfl ms
  rw [move_settings, ← h]
  cases m with
  | obey c => cases c <;> rfl
  | elapse | pass | act | plan => rfl

end Engine

end HeatWatch
