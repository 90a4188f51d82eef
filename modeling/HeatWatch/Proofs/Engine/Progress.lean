import HeatWatch.Proofs.Engine.Cadence
import HeatWatch.Proofs.Engine.Effort

/-!
# Time passes to its end

Each step until a time lowers what is still to be done until then. So the steps that are taken when time
passes are enough, and nothing that was to happen is left out. Main statements:

* `effort_perform`, `effort_elapse`: whatever a task does lowers it, and so does the clock;
* `work_done`: after the work until a time nothing happens until then;
* `timely_advance`: letting time pass is a run in which time goes on as it should;
* `timely_of_driven`: so is whatever a host does with an engine from its start.
-/

namespace HeatWatch

open Engine (Horizon)

variable {h : Horizon} {clock : Nat} {permits : List Permit} {t : Task} {d d' : Duty} {w w' : Wait}
  {n : Nat}

/-! ## Costs along a task -/

theorem Duty.leftover_pos (d : Duty) : 0 < d.leftover := by
  cases d with
  | exchange | conclude => exact Nat.succ_pos _
  | take | startPoll | poll | startProbe | probe | consult | route | submit | await => exact Nat.one_pos

theorem Duty.cost_pos (h : Horizon) (clock : Nat) (d : Duty) : 0 < d.cost h clock := by
  cases hp : d.post.permit? with
  | some p => exact Nat.lt_of_lt_of_le d.leftover_pos (Duty.leftover_le h clock hp)
  | none =>
    have hlookup : ∀ q : Purpose, q.post.permit? = none → 0 < q.cost h clock := by
      intro q hq
      cases q with
      | entry | probe => cases hq
      | lookup => exact Nat.one_pos
    cases d with
    | take | startPoll | poll | startProbe | probe => cases hp
    | consult | route | submit | await => exact Nat.succ_pos _
    | exchange q s => exact Nat.add_pos_left (hlookup q hp) _
    | conclude q r => exact hlookup q hp

theorem Task.cost_pos (h : Horizon) (clock : Nat) (permits : List Permit) (t : Task) :
    0 < t.cost h clock permits := by
  unfold cost
  split
  · exact Nat.add_pos_left (t.duty.cost_pos h clock) _
  · exact t.duty.leftover_pos

/-- A task that goes on under the same permit has less to do, if it has so with this permit and without
it. -/
theorem Task.cost_lt (hpost : d'.post = d.post)
    (hcost : d'.cost h clock + unrest clock ⟨d', w'⟩ + n < d.cost h clock + unrest clock ⟨d, w⟩)
    (hleft : d'.leftover + n < d.leftover) :
    cost h clock permits ⟨d', w'⟩ + n < cost h clock permits ⟨d, w⟩ := by
  unfold cost
  rw [show (⟨d', w'⟩ : Task).duty.post = (⟨d, w⟩ : Task).duty.post from hpost]
  split
  · exact hcost
  · exact hleft

theorem Task.cost_exchange_lt (h : Horizon) (clock : Nat) (permits : List Permit) (p : Purpose)
    {s s' : Stage} (hs : s'.cost < s.cost) (w w' : Wait) :
    cost h clock permits ⟨.exchange p s', w'⟩ + 0 < cost h clock permits ⟨.exchange p s, w⟩ := by
  refine cost_lt rfl ?_ (Nat.add_lt_add_right hs 2)
  show p.cost h clock + s'.cost + 0 + 0 < p.cost h clock + s.cost + 0
  omega

/-- Whoever leaves the line pays for the next one there. -/
theorem Task.cost_conclude_lt (h : Horizon) (clock : Nat) (permits : List Permit) (p : Purpose)
    (s : Stage) (r : Except RequestError String) (w w' : Wait) :
    cost h clock permits ⟨.conclude p r, w'⟩ + 1 < cost h clock permits ⟨.exchange p s, w⟩ := by
  have hs : 2 ≤ s.cost := by
    cases s with
    | join => decide
    | send again | receive again => cases again <;> simp [Stage.cost]
  refine cost_lt rfl ?_ ?_
  · show p.cost h clock + 0 + 1 < p.cost h clock + s.cost + 0
    omega
  · show 2 + 1 < s.cost + 2
    omega

theorem Task.cost_of_permitted (hp : d.post.permit?.all permits.contains = true) :
    cost h clock permits ⟨d, w⟩ = d.cost h clock + unrest clock ⟨d, w⟩ := if_pos hp

/-- The task probes, or makes the exchange of a probe. -/
def Duty.probes : Duty → Bool
  | .probe .. | .exchange (.probe ..) _ | .conclude (.probe ..) _ => true
  | _ => false

theorem nextTick_gt {due now period : Nat} (hperiod : period ≠ 0) :
    due < Engine.nextTick due now period := by
  have hpos : 0 < min period longestWait := Nat.lt_min.2 ⟨Nat.pos_of_ne_zero hperiod, by decide⟩
  unfold Engine.nextTick
  split <;> omega

namespace Engine

variable {e x e' : Engine} {id : TaskId} {run : Permit} {k : Nat} {ms ms' : List Move}

/-! ## What one task does -/

/-- This engine comes of the other one by changes that the acting task pays for: so much comes of them
for the other tasks at most. -/
structure Charged (e x : Engine) (h : Horizon) (id : TaskId) (n : Nat) : Prop where
  clock : x.clock = e.clock
  permits : x.permits = e.permits
  effort : x.effort h (some id) ≤ e.effort h (some id) + n

theorem Charged.refl (e : Engine) (h : Horizon) (id : TaskId) : Charged e e h id 0 :=
  ⟨rfl, rfl, Nat.le_refl _⟩

theorem Charged.of_roster (hroster : x.roster = e.roster) (hclock : x.clock = e.clock)
    (heffort : x.effort h (some id) ≤ e.effort h (some id) + n) : Charged e x h id n :=
  ⟨hclock, congrArg Roster.permits hroster, heffort⟩

/-- A task that ends has something left to pay with. -/
theorem effort_quit (ht : e.task? id = some t) (hx : x.effort h (some id) ≤ e.effort h (some id) + n)
    (hn : n < t.cost h e.clock e.permits) : (x.finish id).effort h none < e.effort h none := by
  rw [effort_finish, effort_split e h id, ht]
  exact Nat.lt_of_le_of_lt hx (Nat.add_lt_add_left hn _)

theorem Charged.park (hx : Charged e x h id n) (ht : e.task? id = some t)
    (hn : Task.cost h e.clock e.permits ⟨d, w⟩ + n < t.cost h e.clock e.permits) :
    (x.park id d w).effort h none < e.effort h none := by
  have heffort := hx.effort
  rw [effort_park, hx.clock, hx.permits, effort_split e h id, ht, Option.elim_some]
  omega

theorem Charged.proceed (hx : Charged e x h id n) (ht : e.task? id = some t)
    (hn : ∀ w, Task.cost h e.clock e.permits ⟨d, w⟩ + n < t.cost h e.clock e.permits) :
    (x.proceed id d).effort h none < e.effort h none := by
  have heffort := hx.effort
  have hproceed : (x.proceed id d).effort h none ≤
      x.effort h (some id) + (t.cost h e.clock e.permits - n - 1) := by
    refine effort_proceed fun w => ?_
    have hw := hn w
    rw [hx.clock, hx.permits]
    omega
  have hw := hn .line
  rw [effort_split e h id, ht, Option.elim_some]
  omega

theorem Charged.sleep (hx : Charged e x h id n) (ht : e.task? id = some t) {due : Nat}
    (hn : ∀ w, due ≤ e.clock ∨ w = .alarm due x.turn →
      Task.cost h e.clock e.permits ⟨d, w⟩ + n < t.cost h e.clock e.permits) :
    (x.sleep id d due).effort h none < e.effort h none := by
  unfold Engine.sleep
  split
  case isTrue hdue => exact hx.proceed ht fun w => hn w (.inl (hx.clock ▸ hdue))
  case isFalse => exact hx.park ht (hn _ (.inr rfl))

/-! ### Exchanges -/

theorem effort_join {p : Purpose} (ht : e.task? id = some ⟨.exchange p .join, w⟩) :
    (e.join id p).effort h none < e.effort h none := by
  have hx : Charged e (Engine.record { e with line := e.line ++ [id] } (.joined id p)) h id 0 :=
    ⟨rfl, rfl, Nat.le_refl _⟩
  have hcost : ∀ w', Task.cost h e.clock e.permits ⟨.exchange p (.send false), w'⟩ + 0 <
      Task.cost h e.clock e.permits ⟨.exchange p .join, w⟩ :=
    fun w' => Task.cost_exchange_lt h e.clock e.permits p (by decide) w w'
  unfold join
  dsimp only
  split
  · exact hx.proceed ht hcost
  · exact hx.park ht (hcost _)

theorem Charged.leave (hx : Charged e x h id 0) {p : Purpose} {s : Stage}
    (ht : e.task? id = some ⟨.exchange p s, w⟩) (r : Except RequestError String) :
    (x.leave id p r).effort h none < e.effort h none := by
  have hcost := Task.cost_conclude_lt h e.clock e.permits p s r w
  unfold Engine.leave
  dsimp only
  split
  case h_1 =>
    have hx₁ : Charged e (Engine.record { x with line := x.line.drop 1 } (.exchanged id p r)) h id 0 :=
      ⟨hx.clock, hx.permits, hx.effort⟩
    exact hx₁.proceed ht fun w' => Nat.lt_of_succ_lt (hcost w')
  case h_2 next _ _ =>
    let x₁ := Engine.record { x with line := x.line.drop 1 } (.exchanged id p r)
    have hwake : (x₁.wake next).effort h (some id) ≤ x.effort h (some id) + 1 := effort_wake x₁ h _ next
    have hframe : (x₁.wake next).frame = x₁.frame := x₁.wake_frame next
    have hx₁ : Charged e (x₁.wake next) h id 1 :=
      ⟨(clock_of_frame hframe).trans hx.clock, (permits_of_frame hframe).trans hx.permits,
        Nat.le_trans hwake (Nat.add_le_add_right hx.effort 1)⟩
    exact hx₁.proceed ht hcost

theorem effort_send {p : Purpose} {again : Bool}
    (ht : e.task? id = some ⟨.exchange p (.send again), w⟩) :
    (e.send id p again).effort h none < e.effort h none := by
  unfold send
  split
  case h_1 f script _ =>
    have hx : Charged e { e with script } h id 0 := ⟨rfl, rfl, Nat.le_refl _⟩
    exact hx.leave ht _
  case h_2 token script _ =>
    have hstage : ∀ a, (Stage.receive again a).cost < (Stage.send again).cost := fun a => by
      cases again <;> simp [Stage.cost]
    have hx : ∀ script', Charged e (Engine.record { e with script := script' } (.sent id p token)) h id 0 :=
      fun _ => ⟨rfl, rfl, Nat.le_refl _⟩
    exact (hx _).sleep ht fun w' _ => Task.cost_exchange_lt h e.clock e.permits p (hstage _) w w'

theorem effort_receive {p : Purpose} {again : Bool} {a : Arrival}
    (ht : e.task? id = some ⟨.exchange p (.receive again a), w⟩) :
    (e.receive id p again a).effort h none < e.effort h none := by
  have hx : Charged e (e.record (.received id p a)) h id 0 := ⟨rfl, rfl, Nat.le_refl _⟩
  unfold receive
  dsimp only
  split
  case h_1 => exact hx.leave ht _
  case h_2 response =>
    split
    case isTrue hretry =>
      have hstage : (Stage.send true).cost < (Stage.receive again (.ok response)).cost := by
        have hfirst : again = false := by simpa using hretry.2
        rw [hfirst]
        simp [Stage.cost]
      have hx₁ : Charged e { e.record (.received id p (.ok response)) with
          script := e.script.reject } h id 0 := ⟨rfl, rfl, Nat.le_refl _⟩
      exact hx₁.proceed ht fun w' => Task.cost_exchange_lt h e.clock e.permits p hstage w w'
    case isFalse =>
      split
      · exact hx.leave ht _
      · split
        · have hx₁ : ∀ l, Charged e ((e.record (.received id p (.ok response))).log l) h id 0 :=
            fun _ => ⟨rfl, rfl, Nat.le_refl _⟩
          exact (hx₁ _).leave ht _
        · exact hx.leave ht _

/-! ### Requests from the queue -/

/-- A task that finds the queue empty waits, or uses up the wake-up that is stored. -/
theorem effort_listen (hx : Charged e x h id 0) (hallows : e.allows run = true)
    (ht : e.task? id = some ⟨.take run, .ready k⟩) : (x.listen id run).effort h none < e.effort h none := by
  have hcost : ∀ w, Task.cost h e.clock e.permits ⟨.take run, w⟩ =
      (h.limit - e.clock) * h.round + 11 + Task.unrest e.clock ⟨.take run, w⟩ :=
    fun w => Task.cost_of_permitted hallows
  have hwakes : Task.cost h e.clock e.permits ⟨.take run, .ready k⟩ = (h.limit - e.clock) * h.round + 12 :=
    hcost _
  have heffort := hx.effort
  unfold listen
  split
  case isTrue hsignal =>
    have hused := effort_signal hsignal h (some id)
    have hnext : (({ x with signal := false } : Engine).proceed id (.take run)).effort h none ≤
        ({ x with signal := false } : Engine).effort h (some id) + ((h.limit - e.clock) * h.round + 12) := by
      refine effort_proceed fun w => ?_
      have hunrest := Task.unrest_le e.clock ⟨.take run, w⟩
      show Task.cost h x.clock x.permits ⟨.take run, w⟩ ≤ _
      rw [hx.clock, hx.permits, hcost]
      omega
    rw [effort_split e h id, ht, Option.elim_some, hwakes]
    omega
  case isFalse =>
    refine hx.park ht ?_
    rw [hwakes, hcost]
    exact Nat.lt_succ_self _

theorem effort_take (ht : e.task? id = some ⟨.take run, .ready k⟩) :
    (e.take id run).effort h none < e.effort h none := by
  unfold take
  split
  case isTrue => exact effort_quit ht (Nat.le_refl _) (Task.cost_pos ..)
  case isFalse hin =>
    have hallows : e.allows run = true := by simpa using hin
    split
    case h_1 queue hpop =>
      have heffort := effort_pop e h (some id)
      rw [hpop] at heffort
      have hx : Charged e { e with queue } h id 0 := ⟨rfl, rfl, heffort⟩
      exact effort_listen hx hallows ht
    case h_2 entry queue hpop =>
      -- the entry pays for its exchange, as far as the taking does not
      have hpaid := effort_pop_some hpop h (some id)
      have hcost : Task.cost h e.clock e.permits ⟨.take run, .ready k⟩ =
          (h.limit - e.clock) * h.round + 12 := Task.cost_of_permitted (d := .take run) hallows
      have hnext : (({ e with queue } : Engine).proceed id (.exchange (.entry run entry) .join)).effort h none ≤
          ({ e with queue } : Engine).effort h (some id) + ((h.limit - e.clock) * h.round + 19) :=
        effort_proceed fun w => Task.cost_le ..
      rw [effort_split e h id, ht, Option.elim_some, hcost]
      refine Nat.lt_of_le_of_lt hnext ?_
      omega

/-- What is paid for the next taking is left after a request from the queue. -/
theorem Charged.pause (hx : Charged e x h id 0) {entry : Entry} {r : Except RequestError String}
    (ht : e.task? id = some ⟨.conclude (.entry run entry) r, .ready k⟩) :
    (x.pause id run).effort h none < e.effort h none := by
  unfold Engine.pause
  split
  case isTrue => exact effort_quit ht hx.effort (Task.cost_pos ..)
  case isFalse =>
    refine hx.sleep ht fun w' _ => Task.cost_lt rfl ?_ Nat.one_lt_two
    have hunrest := Task.unrest_le e.clock ⟨.take run, w'⟩
    show (h.limit - e.clock) * h.round + 11 + _ + 0 < (h.limit - e.clock) * h.round + 13 + 0
    omega

/-- An outage is paid for by the request that failed. -/
theorem Charged.enterOutage (hx : Charged e x h id 0) (hs : x.Sworn) {entry : Entry}
    {r : Except RequestError String} (f : RequestError)
    (ht : e.task? id = some ⟨.conclude (.entry run entry) r, .ready k⟩) :
    ((x.enterOutage run entry f).finish id).effort h none < e.effort h none := by
  by_cases hin : run ∈ x.permits
  · have hallows : (Duty.conclude (.entry run entry) r).post.permit?.all e.permits.contains = true :=
      List.contains_iff_mem.2 (hx.permits ▸ hin)
    have hcost : Task.cost h e.clock e.permits ⟨.conclude (.entry run entry) r, .ready k⟩ =
        (h.limit - e.clock) * h.round + 13 := Task.cost_of_permitted hallows
    have hout := hs.effort_enterOutage h (some id) run entry f
    have heffort := hx.effort
    rw [hx.clock] at hout
    exact effort_quit ht (n := (h.limit - e.clock) * h.round + 12) (by omega) (hcost ▸ Nat.lt_succ_self _)
  · rw [enterOutage_of_withdrawn hin]
    exact effort_quit ht hx.effort (Task.cost_pos ..)

theorem charged_deliver (e : Engine) (h : Horizon) (id : TaskId) (r : Request) (body : String) :
    Charged e (e.deliver r body) h id 0 := by
  have hnotices : ∀ (ns : List Notice) (x : Engine), (ns.foldl notice x).effort h (some id) =
      x.effort h (some id) := by
    intro ns
    induction ns with
    | nil => exact fun _ => rfl
    | cons n ns ih =>
      intro x
      refine (ih (x.notice n)).trans ?_
      cases n <;> rfl
  refine .of_roster (deliver_roster e r body) ?_ (Nat.le_of_eq (hnotices _ _))
  exact congrArg Annals.clock (deliver_annals e r body)

theorem charged_reply (e : Engine) (h : Horizon) (id caller : TaskId) (r : Except RequestError String) :
    Charged e (e.reply caller r) h id 0 :=
  .of_roster (reply_roster e caller r) (clock_of_frame (e.reply_frame caller r))
    (effort_reply e h (some id) caller r)

theorem effort_concludeEntry (hs : e.Sworn) {entry : Entry} {r : Except RequestError String}
    (ht : e.task? id = some ⟨.conclude (.entry run entry) r, .ready k⟩) :
    (e.concludeEntry id run entry r).effort h none < e.effort h none := by
  unfold concludeEntry
  split
  case h_1 => exact (charged_deliver e h id _ _).pause ht
  case h_2 => exact (charged_reply e h id _ _).pause ht
  case h_3 f _ =>
    split
    · exact (Charged.refl e h id).enterOutage hs f ht
    · have hx : ∀ l, Charged e (e.log l) h id 0 := fun _ => ⟨rfl, rfl, Nat.le_refl _⟩
      exact (hx _).pause ht
  case h_4 f caller _ =>
    have hx := charged_reply e h id caller (.error f)
    split
    · exact hx.enterOutage (hs.of_roster (reply_roster e caller _)) f ht
    · exact hx.pause ht

/-! ### Polls and probes -/

theorem effort_startPoll {permit : Permit} {p : Poll} {delay period : Nat}
    (ht : e.task? id = some ⟨.startPoll permit p delay period, w⟩) :
    (e.startPoll id permit p delay period).effort h none < e.effort h none := by
  unfold startPoll
  split
  case isTrue => exact effort_quit ht (Nat.le_refl _) (Task.cost_pos ..)
  case isFalse hin =>
    obtain ⟨hallows, -⟩ : e.allows permit = true ∧ period ≠ 0 := by simpa using hin
    refine (Charged.refl e h id).proceed ht fun w' => ?_
    rw [Task.cost_of_permitted (d := .poll ..) hallows, Task.cost_of_permitted (d := .startPoll ..) hallows]
    have hunrest := Task.unrest_le e.clock ⟨.poll permit p period (e.clock + delay), w'⟩
    have hleft : (h.limit + 1 - (e.clock + delay)) * h.tick ≤ (h.limit + 1) * h.tick :=
      Nat.mul_le_mul_right _ (Nat.sub_le _ _)
    show (h.limit + 1 - (e.clock + delay)) * h.tick + 1 + _ + 0 < (h.limit + 1) * h.tick + 3 + 0
    omega

/-- Whoever looks before its time goes on sleeping, and does not look again before. -/
theorem effort_sleep_on {due : Nat} (hallows : d.post.permit?.all e.permits.contains = true)
    (hdue : d.due? = some due) (hlater : e.clock < due) (ht : e.task? id = some ⟨d, .ready k⟩) :
    (e.sleep id d due).effort h none < e.effort h none := by
  refine (Charged.refl e h id).sleep ht fun w' hw => ?_
  rw [Task.cost_of_permitted hallows, Task.cost_of_permitted hallows, Task.unrest_of_sleep hdue hw,
    Task.unrest_of_early hdue hlater]
  exact Nat.lt_succ_self _

/-- What is paid for one tick is left when the next one is later. -/
theorem tick_le {limit due next cost : Nat} (hdue : due ≤ limit) (hnext : due < next) :
    (limit + 1 - next) * cost + cost ≤ (limit + 1 - due) * cost := by
  rw [← Nat.succ_mul]
  exact Nat.mul_le_mul_right _ (by omega)

theorem effort_poll {permit : Permit} {p : Poll} {period due : Nat} (hcapacity : h.slots = e.queue.capacity)
    (hclock : e.clock ≤ h.limit) (hperiod : period ≠ 0)
    (ht : e.task? id = some ⟨.poll permit p period due, .ready k⟩) :
    (e.poll id permit p period due).effort h none < e.effort h none := by
  unfold poll
  split
  case isTrue => exact effort_quit ht (Nat.le_refl _) (Task.cost_pos ..)
  case isFalse hin =>
    have hallows : e.allows permit = true := by simpa using hin
    have hcost : ∀ due w, Task.cost h e.clock e.permits ⟨.poll permit p period due, w⟩ =
        (h.limit + 1 - due) * h.tick + 1 + Task.unrest e.clock ⟨.poll permit p period due, w⟩ :=
      fun due w => Task.cost_of_permitted hallows
    split
    case isTrue hlater => exact effort_sleep_on hallows rfl hlater ht
    case isFalse hcome =>
      dsimp only
      have hdue : due ≤ e.clock := Nat.not_lt.1 hcome
      let next := nextTick due e.clock period
      let polled := (e.record (.polled permit p (p.requests e.table))).enqueueAll (p.requests e.table)
      have hx : Charged e polled h id (9 * h.slots) := by
        refine .of_roster (enqueueAll_roster _ _) ?_ ?_
        · exact congrArg Annals.clock (enqueueAll_annals (e.record _) _)
        · refine Nat.le_trans (effort_enqueueAll _ h _ _) (Nat.add_le_add_left ?_ _)
          rw [hcapacity]
          exact Nat.mul_le_mul_left 9 (Nat.sub_le _ _)
      refine hx.sleep (d := .poll permit p period next) ht fun w' hw => ?_
      rw [hcost, hcost, Task.unrest_of_sleep (d := .poll ..) rfl hw]
      have htick : (h.limit + 1 - next) * h.tick + h.tick ≤ (h.limit + 1 - due) * h.tick :=
        tick_le (Nat.le_trans hdue hclock) (nextTick_gt hperiod)
      have hslots : h.tick = 9 * h.slots + 1 := rfl
      omega

theorem effort_startProbe {outage : Permit} (hclock : e.clock ≤ h.limit)
    (ht : e.task? id = some ⟨.startProbe outage, w⟩) :
    (e.startProbe id outage).effort h none < e.effort h none := by
  unfold startProbe
  split
  case isTrue => exact effort_quit ht (Nat.le_refl _) (Task.cost_pos ..)
  case isFalse hin =>
    obtain ⟨hallows, halive⟩ : e.allows outage = true ∧ e.settings.aliveInterval ≠ 0 := by simpa using hin
    refine (Charged.refl e h id).proceed ht fun w' => ?_
    rw [Task.cost_of_permitted (d := .probe ..) hallows, Task.cost_of_permitted (d := .startProbe _) hallows]
    have hunrest := Task.unrest_le e.clock ⟨.probe outage (e.clock + e.settings.aliveInterval), w'⟩
    have hleft : (h.limit + 1 - (e.clock + e.settings.aliveInterval)) * h.round ≤
        (h.limit - e.clock) * h.round := Nat.mul_le_mul_right _ (by omega)
    show (h.limit + 1 - (e.clock + e.settings.aliveInterval)) * h.round + 1 + _ + 0 <
      (h.limit - e.clock) * h.round + 3 + 0
    omega

theorem effort_probe {outage : Permit} {due : Nat} (hclock : e.clock ≤ h.limit)
    (halive : e.settings.aliveInterval ≠ 0) (ht : e.task? id = some ⟨.probe outage due, .ready k⟩) :
    (e.probe id outage due).effort h none < e.effort h none := by
  unfold probe
  split
  case isTrue => exact effort_quit ht (Nat.le_refl _) (Task.cost_pos ..)
  case isFalse hin =>
    have hallows : e.allows outage = true := by simpa using hin
    split
    case isTrue hlater => exact effort_sleep_on hallows rfl hlater ht
    case isFalse hcome =>
      have hdue : due ≤ e.clock := Nat.not_lt.1 hcome
      let next := nextTick due e.clock e.settings.aliveInterval
      refine (Charged.refl e h id).proceed (d := .exchange (.probe outage next) .join) ht fun w' => ?_
      rw [Task.cost_of_permitted (d := .exchange (.probe outage next) .join) hallows,
        Task.cost_of_permitted (d := .probe outage due) hallows]
      -- a round is for the run that may begin with this probe
      have hround : (h.limit + 1 - next) * h.round + h.round ≤ (h.limit + 1 - due) * h.round :=
        tick_le (Nat.le_trans hdue hclock) (nextTick_gt halive)
      have hrun : (h.limit - e.clock) * h.round + h.round ≤ (h.limit + 1 - due) * h.round := by
        rw [← Nat.succ_mul]
        exact Nat.mul_le_mul_right _ (by omega)
      have hpolls : h.round = 4 * h.polling + 20 := rfl
      show max ((h.limit + 1 - next) * h.round + 2) ((h.limit - e.clock) * h.round + 4 * h.polling + 12) + 1
        + 6 + 0 + 0 < (h.limit + 1 - due) * h.round + 1 + _
      omega

theorem effort_concludeProbe (hs : e.Sworn) {outage : Permit} {next : Nat} {r : Except RequestError String}
    (ht : e.task? id = some ⟨.conclude (.probe outage next) r, .ready k⟩) :
    (e.concludeProbe id outage next r).effort h none < e.effort h none := by
  unfold concludeProbe
  split
  case isTrue =>
    refine (Charged.refl e h id).proceed ht fun w' => Task.cost_lt rfl ?_ Nat.one_lt_two
    have hunrest := Task.unrest_le e.clock ⟨.probe outage next, w'⟩
    show (h.limit + 1 - next) * h.round + 1 + _ + 0 <
      max ((h.limit + 1 - next) * h.round + 2) ((h.limit - e.clock) * h.round + 4 * h.polling + 12) + 1 + 0
    omega
  case isFalse =>
    have hmerge : (e.mergeListing r).effort h (some id) = e.effort h (some id) := by
      unfold mergeListing
      split
      · split <;> rfl
      · rfl
    have hroster := mergeListing_roster e r
    have hclock : (e.mergeListing r).clock = e.clock := congrArg Annals.clock (mergeListing_annals e r)
    by_cases hin : outage ∈ e.permits
    · have hallows : e.allows outage = true := List.contains_iff_mem.2 hin
      have hcost : Task.cost h e.clock e.permits ⟨.conclude (.probe outage next) r, .ready k⟩ =
          max ((h.limit + 1 - next) * h.round + 2)
            ((h.limit - e.clock) * h.round + 4 * h.polling + 12) + 1 :=
        Task.cost_of_permitted (d := .conclude ..) hallows
      have hrun := (hs.of_roster hroster).effort_resume h (some id) outage
      rw [hclock, hmerge] at hrun
      exact effort_quit ht hrun (by omega)
    · have hpermits : (e.mergeListing r).permits = e.permits := congrArg Roster.permits hroster
      rw [resume_of_withdrawn (hpermits ▸ hin)]
      exact effort_quit ht (Nat.le_of_eq hmerge) (Task.cost_pos ..)

/-! ### Lookups -/

theorem effort_tell (hx : Charged e x h id 0) (ht : e.task? id = some t)
    (r : Except RequestError Finding) : (x.tell id r).effort h none < e.effort h none :=
  effort_quit ht (x := x.record (.found id r)) hx.effort (Task.cost_pos ..)

theorem effort_consult {l : Lookup} (ht : e.task? id = some ⟨.consult l, w⟩) :
    (e.consult id l).effort h none < e.effort h none := by
  unfold consult
  split
  · exact effort_tell (.refl e h id) ht _
  · exact (Charged.refl e h id).proceed ht fun _ => Nat.lt_succ_self 12

theorem effort_route {l : Lookup} (ht : e.task? id = some ⟨.route l, w⟩) :
    (e.route id l).effort h none < e.effort h none := by
  unfold route
  split
  · exact (Charged.refl e h id).proceed ht fun _ => Nat.lt_succ_self 11
  · exact (Charged.refl e h id).proceed ht fun _ => (by decide : 7 < 12)

theorem effort_submit {l : Lookup} (ht : e.task? id = some ⟨.submit l, w⟩) :
    (e.submit id l).effort h none < e.effort h none := by
  have hx : Charged e (e.inserted (e.queue.push l.request (some id) .head)) h id
      (if (e.queue.push l.request (some id) .head).accepted then 9 else 0) :=
    .of_roster (inserted_roster e _) (congrArg Annals.clock (inserted_annals e _)) (effort_push e h _ ..)
  unfold submit
  dsimp only
  split
  case isTrue hin =>
    rw [if_pos hin] at hx
    exact hx.park ht (by decide : 1 + 9 < 11)
  case isFalse hfull =>
    rw [if_neg hfull] at hx
    exact hx.proceed ht fun _ => (by decide : 1 + 0 < 11)

theorem effort_concludeLookup {l : Lookup} {r : Except RequestError String}
    (ht : e.task? id = some ⟨.conclude (.lookup l) r, w⟩) :
    (e.concludeLookup id l r).effort h none < e.effort h none := by
  unfold concludeLookup
  split
  · exact effort_tell (.refl e h id) ht _
  · split
    · exact effort_tell (.refl e h id) ht _
    case h_2 table _ =>
      have hx : Charged e { e with table } h id 0 := ⟨rfl, rfl, Nat.le_refl _⟩
      exact effort_tell hx ht _

/-! ### Elapsing -/

/-- Whoever waits for its time does not look again before. -/
theorem rests_ring {clock now : Nat} (hle : clock ≤ now) (hr : d.rests clock w = true) :
    d.rests now (ring now ⟨d, w⟩).wait = true := by
  cases w with
  | ready | entry | line | result =>
    show d.rests now _ = true
    cases d with
    | poll permit p period due | probe outage due =>
      have hdue : due ≤ clock := of_decide_eq_true hr
      exact decide_eq_true (Nat.le_trans hdue hle)
    | take | await | startPoll | startProbe | consult | route | submit | exchange | conclude => exact hr
  | alarm later turn =>
    have hwait : (ring now ⟨d, .alarm later turn⟩).wait = .alarm later turn ∨
        later ≤ now ∧ (ring now ⟨d, .alarm later turn⟩).wait = .ready turn := by
      unfold ring
      dsimp only
      split
      case isTrue hcome => exact .inr ⟨hcome, rfl⟩
      case isFalse => exact .inl rfl
    cases d with
    | take | await => cases hr
    | startPoll | startProbe | consult | route | submit | exchange | conclude => rfl
    | poll permit p period due | probe outage due =>
      have hdue : due ≤ clock ∨ due ≤ later := by simpa [Duty.rests] using hr
      rcases hwait with hwait | ⟨hcome, hwait⟩
      · rw [hwait]
        simp only [Duty.rests, Bool.or_eq_true, decide_eq_true_eq]
        omega
      · rw [hwait]
        simp only [Duty.rests, decide_eq_true_eq]
        omega

/-- When time goes on, the milliseconds that are over are not to be done any more, and whoever wakes for
its time had paid for it. -/
theorem effort_elapse {now : Nat} (hlater : e.clock < now) (hlimit : now ≤ h.limit) :
    (e.elapse now).effort h none < e.effort h none := by
  have hring : ∀ t : Task, (ring now t).cost h now e.permits ≤ t.cost h e.clock e.permits := by
    rintro ⟨d, w⟩
    have hduty : (ring now ⟨d, w⟩).duty = d := by
      unfold ring
      split
      · split <;> rfl
      · rfl
    have hunrest : (ring now ⟨d, w⟩).unrest now ≤ Task.unrest e.clock ⟨d, w⟩ := by
      by_cases hr : d.rests e.clock w = true
      · have hnow : (ring now ⟨d, w⟩).unrest now = 0 := by
          unfold Task.unrest
          rw [hduty]
          exact if_pos (rests_ring (Nat.le_of_lt hlater) hr)
        omega
      · rw [show Task.unrest e.clock ⟨d, w⟩ = 1 from if_neg hr]
        exact Task.unrest_le ..
    unfold Task.cost
    rw [hduty]
    split
    · exact Nat.add_le_add (d.cost_le (Nat.le_of_lt hlater)) hunrest
    · exact Nat.le_refl _
  have htotal : (e.tasks.map (ring now)).total
      (fun id t => if none = some id then 0 else t.cost h now e.permits) ≤
        e.tasks.total (fun id t => if none = some id then 0 else t.cost h e.clock e.permits) := by
    rw [SortedMap.total_map]
    exact SortedMap.total_mono fun id t _ => hring t
  unfold effort elapse
  dsimp only
  omega

/-! ## Who probes -/

/-- Who probes does so with a period. -/
def Probing (e : Engine) : Prop :=
  ∀ ⦃id d⦄, e.duty? id = some d → d.probes = true → e.settings.aliveInterval ≠ 0

/-- Who probes after it acted did so before, or began to and had a period. -/
theorem alive_of_next (hnext : d.next e = some d') (hd' : d'.probes = true)
    (hd : d.probes = true → e.settings.aliveInterval ≠ 0) : e.settings.aliveInterval ≠ 0 := by
  cases d with
  | probe => exact hd rfl
  | startProbe outage =>
    have hnext' : (if e.allows outage ∧ e.settings.aliveInterval ≠ 0 then
      some (Duty.probe outage (e.clock + e.settings.aliveInterval)) else none) = some d' := hnext
    split at hnext'
    case isTrue hon => exact hon.2
    case isFalse => cases hnext'
  | exchange p s =>
    refine hd ?_
    cases hres : e.result? (.exchange p s) with
    | some r =>
      rw [Duty.next_of_result hres] at hnext
      cases hnext
      cases p <;> first | rfl | cases hd'
    | none =>
      rw [Duty.next_of_none hres] at hnext
      cases hnext
      cases p <;> first | rfl | cases hd'
  | take run =>
    rw [Duty.next_take] at hnext
    split at hnext
    · cases hx : e.queue.entries.head? <;> rw [hx] at hnext <;> cases hnext <;> cases hd'
    · cases hnext
  | startPoll | poll | consult | route | submit | await | conclude =>
    unfold Duty.next at hnext
    grind [Duty.probes]

theorem Probing.move (h : e.Probing) (hr : e.roster.Orderly) (m : Move) : (e.move m).Probing := by
  intro id d hd hprobes
  have hsame : (e.move m).settings.aliveInterval = e.settings.aliveInterval := (move_evolves hr m).alive
  rw [hsame]
  rcases move_duty_cases (known_of_orderly hr) hd with ⟨d₀, -, hready, hnext⟩ | ⟨d₀, hd₀, hpass⟩ | hbegins
  · exact alive_of_next hnext hprobes fun hp => h (duty?_of_ready? hready) hp
  · cases hpass with
    | refl => exact h hd₀ hprobes
    | told => cases hprobes
  · rcases hbegins.cases with ⟨l, -, rfl⟩ | ⟨run, rfl⟩ | ⟨p, q, delay, n, rfl⟩ | ⟨outage, rfl⟩ <;>
      cases hprobes

/-! ## The work until a time -/

/-- Whatever a task does that is ready, less is to be done afterwards. -/
theorem effort_perform (hr : e.roster.Orderly) (hperiodic : e.Periodic) (hprobing : e.Probing)
    (hcapacity : h.slots = e.queue.capacity) (hclock : e.clock ≤ h.limit) (hready : e.ready? id = some d) :
    (e.perform id d).effort h none < e.effort h none := by
  obtain ⟨k, ht⟩ := ready?_eq_some.1 hready
  have hd : e.duty? id = some d := duty?_of_ready? hready
  have hs : e.Sworn := fun id w p hw hp => hr.sworn hw hp
  cases d with
  | take => exact effort_take ht
  | startPoll => exact effort_startPoll ht
  | poll => exact effort_poll hcapacity hclock (hperiodic hd) ht
  | startProbe => exact effort_startProbe hclock ht
  | probe => exact effort_probe hclock (hprobing hd rfl) ht
  | consult => exact effort_consult ht
  | route => exact effort_route ht
  | submit => exact effort_submit ht
  | await => exact (Charged.refl e h id).park ht Nat.one_lt_two
  | exchange p s =>
    cases s with
    | join => exact effort_join ht
    | send => exact effort_send ht
    | receive => exact effort_receive ht
  | conclude p r =>
    cases p with
    | entry => exact effort_concludeEntry hs ht
    | probe => exact effort_concludeProbe hs ht
    | lookup => exact effort_concludeLookup ht

/-- What the driver relies on: the tasks at work are the ones that the phase asks for, no one oversleeps,
and whoever polls or probes does so with a period. -/
structure Drivable (e : Engine) : Prop where
  orderly : e.roster.Orderly
  punctual : e.Punctual
  periodic : e.Periodic
  probing : e.Probing

theorem Drivable.move (hd : e.Drivable) {m : Move} (hm : e.InTime m) : (e.move m).Drivable where
  orderly := (move_evolves hd.orderly m).orderly hd.orderly
  punctual := hd.punctual.move (known_of_orderly hd.orderly) hm
  periodic := hd.periodic.move (known_of_orderly hd.orderly) m
  probing := hd.probing.move hd.orderly m

theorem Drivable.follow (hd : e.Drivable) {ms : List Move} (hms : e.Timely ms) : (e.follow ms).Drivable := by
  induction ms generalizing e with
  | nil => exact hd
  | cons m ms ih => exact ih (hd.move hms.1) hms.2

theorem drivable_start (settings : EngineSettings) (service : Service) (observer : Option Observer)
    (script : Script) : (start settings service observer script).Drivable where
  orderly := start_orderly ..
  punctual := (sound_start ..).punctual
  periodic := fun _ _ _ _ _ hd => by cases hd
  probing := fun _ _ hd => by cases hd

/-- Every step lowers what is still to be done. -/
theorem effort_step? (hd : e.Drivable) (hcapacity : h.slots = e.queue.capacity)
    (hclock : e.clock ≤ h.limit) (hstep : e.step? h.limit = some e') :
    e'.effort h none < e.effort h none := by
  unfold step? at hstep
  split at hstep
  case h_1 id hnext =>
    obtain ⟨d, hready⟩ := ready_of_next? hnext
    obtain rfl := Option.some.inj hstep
    rw [act_of_ready hready]
    exact effort_perform hd.orderly hd.periodic hd.probing hcapacity hclock hready
  case h_2 =>
    split at hstep
    case h_1 due hdue =>
      have hmem : due ∈ e.tasks.entries.filterMap due? := (List.min?_eq_some_iff.1 hdue).1
      split at hstep
      case isTrue hle =>
        obtain rfl := Option.some.inj hstep
        exact effort_elapse (hd.punctual due (mem_dues.1 hmem)) hle
      case isFalse => cases hstep
    case h_2 => cases hstep

/-- No task costs more than the bound has for it. -/
theorem effort_le (e : Engine) (h : Horizon) : e.effort h none ≤
    e.tasks.size * ((h.limit + 1) * h.round + 20) + 8 * e.queue.size + h.limit + 1 := by
  have htasks : e.tasks.total (fun id t => if none = some id then 0 else t.cost h e.clock e.permits) ≤
      e.tasks.size * ((h.limit + 1) * h.round + 20) := by
    refine SortedMap.total_le fun id t => ?_
    rw [if_neg nofun]
    calc t.cost h e.clock e.permits
      _ ≤ t.duty.cost h e.clock + t.unrest e.clock := t.cost_le h e.clock e.permits
      _ ≤ t.duty.cost h e.clock + 1 := Nat.add_le_add_left (t.unrest_le e.clock) _
      _ ≤ (h.limit + 1) * h.round + 20 := t.duty.cost_le_rounds h e.clock
  have hsignal : (if e.signal then 1 else 0) ≤ 1 := by split <;> decide
  unfold effort
  omega

theorem effort_le_stepBound (e : Engine) (limit : Nat) :
    e.effort ⟨limit, e.queue.capacity⟩ none ≤ e.stepBound limit := effort_le e ⟨limit, e.queue.capacity⟩

theorem step?_steps (hd : e.Drivable) {limit fuel : Nat} (hclock : e.clock ≤ limit)
    (hfuel : e.effort ⟨limit, e.queue.capacity⟩ none ≤ fuel) : (steps limit fuel e).step? limit = none := by
  induction fuel generalizing e with
  | zero =>
    refine Option.eq_none_iff_forall_ne_some.2 fun e' hstep => ?_
    have hstep' : e.step? limit = some e' := hstep
    exact Nat.not_lt_zero _ (Nat.lt_of_lt_of_le (effort_step? hd rfl hclock hstep') hfuel)
  | succ fuel ih =>
    unfold steps
    split
    case h_1 e' hstep =>
      obtain ⟨m, hm, rfl, hle⟩ := inTime_step hd.punctual hstep
      have hless := effort_step? (h := ⟨limit, e.queue.capacity⟩) hd rfl hclock hstep
      have hcapacity : (e.move m).queue.capacity = e.queue.capacity := by
        rw [move_queue, Queue.run_capacity]
      refine ih (hd.move hm) (hle hclock) ?_
      rw [hcapacity]
      omega
    case h_2 hidle => exact hidle

/-- Everything happens that is to happen until a time. -/
theorem work_done (hd : e.Drivable) {limit : Nat} (hclock : e.clock ≤ limit) :
    (e.work limit).step? limit = none := step?_steps hd hclock (effort_le_stepBound e limit)

/-- Letting time pass is a run in which time goes on only when no task is ready, and not past a time that
a task waits for. -/
theorem timely_advance (hd : e.Drivable) (time : Nat) : ∃ ms, e.Timely ms ∧ e.advance time = e.follow ms := by
  have hle : e.clock ≤ e.after time := Nat.le_add_right ..
  obtain ⟨ms, hms, heq, hclock⟩ := timely_steps hd.orderly hd.punctual hle (e.stepBound (e.after time))
  have hwork : e.work (e.after time) = e.follow ms := heq
  have hdone := work_done hd hle
  rw [hwork] at hdone
  obtain ⟨hidle, hlater⟩ := idle_of_step? hdone
  have hpass : (e.follow ms).InTime (.pass (e.after time)) := ⟨hclock, hidle, hlater⟩
  refine ⟨ms ++ [.pass (e.after time)], timely_append.2 ⟨hms, hpass, trivial⟩, ?_⟩
  rw [follow_append, ← hwork]
  rfl

/-! ## Hosts -/

/-- What a host does with an engine: it calls, sees to what the service will answer, waits for some time, or
until everything is done that is to happen by then. -/
inductive Driven (e : Engine) : Engine → Prop
  | here : Driven e e
  | calls {x : Engine} (c : Command) : Driven e x → Driven e (x.obey c).2
  | plans {x : Engine} (script : Script) : Driven e x → Driven e { x with script }
  | waits {x : Engine} (time : Nat) : Driven e x → Driven e (x.advance time)
  | works {x : Engine} {limit : Nat} (hle : x.clock ≤ limit) : Driven e x → Driven e (x.work limit)

theorem timely_then (hms : e.Timely ms) (hms' : (e.follow ms).Timely ms')
    (heq : x = (e.follow ms).follow ms') : ∃ ms, e.Timely ms ∧ x = e.follow ms :=
  ⟨ms ++ ms', timely_append.2 ⟨hms, hms'⟩, heq.trans (follow_append ..).symm⟩

/-- Whatever a host does, time goes on as it should. -/
theorem Driven.timely (hd : e.Drivable) (h : e.Driven x) : ∃ ms, e.Timely ms ∧ x = e.follow ms := by
  induction h with
  | here => exact ⟨[], trivial, rfl⟩
  | calls c _ ih =>
    obtain ⟨ms, hms, rfl⟩ := ih
    have hcall : (e.follow ms).Timely [.obey c] := ⟨trivial, trivial⟩
    exact timely_then hms hcall rfl
  | plans script _ ih =>
    obtain ⟨ms, hms, rfl⟩ := ih
    have hplan : (e.follow ms).Timely [.plan script] := ⟨trivial, trivial⟩
    exact timely_then hms hplan rfl
  | waits time _ ih =>
    obtain ⟨ms, hms, rfl⟩ := ih
    obtain ⟨ms', hms', heq⟩ := timely_advance (hd.follow hms) time
    exact timely_then hms hms' heq
  | works hle _ ih =>
    obtain ⟨ms, hms, rfl⟩ := ih
    have hd' := hd.follow hms
    obtain ⟨ms', hms', heq, -⟩ := timely_steps hd'.orderly hd'.punctual hle (stepBound _ _)
    exact timely_then hms hms' heq

/-- What a host does with an engine from its start is a run in which time goes on as it should. -/
theorem timely_of_driven {settings : EngineSettings} {service : Service} {observer : Option Observer}
    {script : Script} (h : (start settings service observer script).Driven x) :
    ∃ ms, (start settings service observer script).Timely ms ∧
      x = (start settings service observer script).follow ms :=
  h.timely (drivable_start settings service observer script)

/-- A host that makes exchanges alone does no more. -/
theorem driven_exchangeEach (e : Engine) (rs : List Request) : e.Driven (e.exchangeEach rs) := by
  have hall : ∀ (rs : List Request) (x : Engine), e.Driven x → e.Driven (x.exchangeEach rs) := by
    intro rs
    induction rs with
    | nil => exact fun _ hx => hx
    | cons r rs ih => exact fun x hx => ih _ (.works (Nat.le_add_right ..) (.calls (.lookup (.body r)) hx))
  exact hall rs e .here

theorem driven_exchangeAll (e : Engine) (rs : List Request) : e.Driven (e.exchangeAll rs) := by
  have hall : ∀ (rs : List Request) (x : Engine), e.Driven x →
      e.Driven (rs.foldl (fun e r => (e.call (.body r)).2) x) := by
    intro rs
    induction rs with
    | nil => exact fun _ hx => hx
    | cons r rs ih => exact fun x hx => ih _ (.calls (.lookup (.body r)) hx)
  exact .works (Nat.le_add_right ..) (hall rs e .here)

end Engine

end HeatWatch
