import HeatWatch.Proofs.Engine.Clock
import Mathlib.Algebra.Order.BigOperators.Group.List
import Mathlib.Algebra.Order.Ring.Nat

/-!
# What is still to be done until a time

A number for an engine that bounds the steps it can still take until a time: what each task costs at its
point, what each request in the queue costs, a wake-up that is stored, and the milliseconds that are left.
A task that polls or probes pays for all of its ticks until then, and a task that takes requests for an
outage in each millisecond. Main statements:

* `effort_split`: what one task costs, and the others;
* `effort_spawn`, `effort_wake`, `effort_inserted`, `effort_enqueueAll`: by how much the number rises when a
  task begins or is woken, and when requests are put into the queue;
* `effort_withdraw`: it does not rise when permits are withdrawn;
* `Sworn.effort_enterOutage`, `Sworn.effort_resume`: by how much it rises with the phases.
-/

namespace HeatWatch

/-! ## Sums over a map -/

namespace SortedMap

variable {κ α : Type} [Ranked κ]

/-- The sum of a number for each entry. -/
def total (m : SortedMap κ α) (f : κ → α → Nat) : Nat := (m.entries.map fun t => f t.1 t.2).sum

variable {m : SortedMap κ α} {f g : κ → α → Nat} {k : κ} {v : α}

/-- What one key adds to a sum, and the others. -/
theorem total_split (hk : ∀ v, g k v = 0) (hne : ∀ k' v, k' ≠ k → g k' v = f k' v) :
    m.total f = m.total g + (m.get? k).elim 0 (f k) := by
  have hall : ∀ es : List (κ × α), Ascending es → (es.map fun t => f t.1 t.2).sum =
      (es.map fun t => g t.1 t.2).sum + ((es.find? fun e => rank e.1 = rank k).map (·.2)).elim 0 (f k) := by
    intro es h
    induction es with
    | nil => rfl
    | cons a es ih =>
      obtain ⟨ha, hes⟩ := List.pairwise_cons.1 h
      rw [List.map_cons, List.map_cons, List.sum_cons, List.sum_cons]
      by_cases heq : rank a.1 = rank k
      · -- no other entry has this key
        have hrest : (es.map fun t => f t.1 t.2) = es.map fun t => g t.1 t.2 := by
          refine List.map_congr_left fun t ht => (hne t.1 t.2 fun hkey => ?_).symm
          have hlt := ha t ht
          rw [hkey, heq] at hlt
          exact Int.lt_irrefl _ hlt
        rw [List.find?_cons_of_pos (by simpa using heq), hrest, rank_inj heq, hk, Nat.zero_add,
          Nat.add_comm]
        rfl
      · rw [List.find?_cons_of_neg (by simpa using heq), ih hes,
          hne _ _ fun hkey => heq (congrArg rank hkey), Nat.add_assoc]
  exact hall m.entries m.ascending

/-- What a key that counts for nothing adds is the same when its value changes. -/
theorem total_insert_self (h : ∀ v, f k v = 0) (v : α) : (m.insert k v).total f = m.total f := by
  have hall : ∀ es : List (κ × α), ((insertEntry k v es).map fun t => f t.1 t.2).sum =
      (es.map fun t => f t.1 t.2).sum := by
    intro es
    induction es with
    | nil => simp [insertEntry, h]
    | cons a es ih =>
      rw [insertEntry]
      split
      · simp [h]
      · split
        · simp [ih]
        · have heq : rank a.1 = rank k := by omega
          simp [h, rank_inj heq]
  exact hall m.entries

/-- What a new entry adds, or one that changes. -/
theorem total_insert_le {n : Nat} (hn : f k v ≤ (m.get? k).elim 0 (f k) + n) :
    (m.insert k v).total f ≤ m.total f + n := by
  let g : κ → α → Nat := fun k' v => if rank k' = rank k then 0 else f k' v
  have hzero : ∀ v, g k v = 0 := fun _ => if_pos rfl
  have hsplit : ∀ m' : SortedMap κ α, m'.total f = m'.total g + (m'.get? k).elim 0 (f k) := fun m' =>
    total_split hzero fun _ _ hne => if_neg fun heq => hne (rank_inj heq)
  rw [hsplit m, hsplit (m.insert k v), total_insert_self hzero, get?_insert, if_pos rfl, Nat.add_assoc]
  exact Nat.add_le_add_left hn _

theorem total_map (h : α → α) : (m.map h).total f = m.total fun k v => f k (h v) := by
  unfold total map
  rw [List.map_map]
  rfl

theorem total_mono (h : ∀ k v, m.get? k = some v → f k v ≤ g k v) : m.total f ≤ m.total g :=
  List.sum_le_sum fun t ht => h t.1 t.2 ((mem_entries_iff m t.1 t.2).1 ht)

theorem total_congr (h : ∀ k v, m.get? k = some v → f k v = g k v) : m.total f = m.total g :=
  congrArg List.sum (List.map_congr_left fun t ht => h t.1 t.2 ((mem_entries_iff m t.1 t.2).1 ht))

/-- No more than so much for each entry. -/
theorem total_le {n : Nat} (h : ∀ k v, f k v ≤ n) : m.total f ≤ m.size * n := by
  have hsum : m.total f ≤ (m.entries.map fun t => f t.1 t.2).length • n := by
    refine List.sum_le_card_nsmul _ n fun x hx => ?_
    obtain ⟨t, -, rfl⟩ := List.mem_map.1 hx
    exact h t.1 t.2
  rwa [List.length_map, Nat.nsmul_eq_mul] at hsum

/-- It is not missed when it is erased. -/
theorem total_erase_self (h : ∀ v, f k v = 0) : (m.erase k).total f = m.total f := by
  unfold total erase
  have hall : ∀ es : List (κ × α), ((es.filter fun e => rank e.1 ≠ rank k).map fun t => f t.1 t.2).sum =
      (es.map fun t => f t.1 t.2).sum := by
    intro es
    induction es with
    | nil => rfl
    | cons a es ih =>
      by_cases ha : rank a.1 = rank k
      · rw [List.filter_cons_of_neg (by simp [ha]), ih, List.map_cons, List.sum_cons, rank_inj ha, h,
          Nat.zero_add]
      · rw [List.filter_cons_of_pos (by simp [ha]), List.map_cons, List.map_cons, List.sum_cons,
          List.sum_cons, ih]
  exact hall m.entries

end SortedMap

/-! ## Costs -/

open Engine (Horizon)

/-- The steps of an exchange from a stage on to its result, and the one of the task that has the wire
next. -/
def Stage.cost : Stage → Nat
  | .join => 6
  | .send false => 5
  | .receive false _ => 4
  | .send true => 3
  | .receive true _ => 2

/-- The steps that may come of the result of an exchange, if the permit for it is in force. -/
def Purpose.cost (h : Horizon) (clock : Nat) : Purpose → Nat
  | .entry .. => (h.limit - clock) * h.round + 13
  | .probe _ next =>
    max ((h.limit + 1 - next) * h.round + 2) ((h.limit - clock) * h.round + 4 * h.polling + 12) + 1
  | .lookup _ => 1

/-- The steps that may come of a task at a point, if its permit is in force. -/
def Duty.cost (h : Horizon) (clock : Nat) : Duty → Nat
  | .take _ => (h.limit - clock) * h.round + 11
  | .startPoll .. => h.polling
  | .poll _ _ _ due => (h.limit + 1 - due) * h.tick + 1
  | .startProbe _ => (h.limit - clock) * h.round + 3
  | .probe _ due => (h.limit + 1 - due) * h.round + 1
  | .consult _ => 13
  | .route _ => 12
  | .submit _ => 11
  | .await _ => 1
  | .exchange p s => p.cost h clock + s.cost
  | .conclude p _ => p.cost h clock

/-- The steps that a task still takes whose permit is withdrawn. -/
def Duty.leftover : Duty → Nat
  | .exchange _ s => s.cost + 2
  | .conclude .. => 2
  | _ => 1

/-- The time for which a task at a point waits. -/
def Duty.due? : Duty → Option Nat
  | .poll _ _ _ due | .probe _ due => some due
  | _ => none

/-- The task may wait so for what it does next. -/
def Duty.rests (clock : Nat) : Duty → Wait → Bool
  | .take _, w => w = .entry
  | .await _, w => w = .result
  | .poll _ _ _ due, .alarm later _ | .probe _ due, .alarm later _ => due ≤ clock || due ≤ later
  | .poll _ _ _ due, _ | .probe _ due, _ => due ≤ clock
  | _, _ => true

/-- One more step for a task that looks again and waits on. -/
def Task.unrest (clock : Nat) (t : Task) : Nat := if t.duty.rests clock t.wait then 0 else 1

/-- The steps that may come of a task. -/
def Task.cost (h : Horizon) (clock : Nat) (permits : List Permit) (t : Task) : Nat :=
  if t.duty.post.permit?.all permits.contains then t.duty.cost h clock + t.unrest clock
  else t.duty.leftover

variable {h : Horizon} {clock later : Nat} {permits permits' : List Permit} {t : Task} {d : Duty}
  {w : Wait}

theorem Task.unrest_le (clock : Nat) (t : Task) : t.unrest clock ≤ 1 := by
  unfold unrest
  split <;> decide

/-- Whoever sleeps until its time does not look again before. -/
theorem Task.unrest_of_sleep {due n : Nat} (hd : d.due? = some due)
    (hw : due ≤ clock ∨ w = .alarm due n) : unrest clock ⟨d, w⟩ = 0 := by
  refine if_pos ?_
  cases d with
  | poll | probe =>
    cases hd
    rcases hw with hcome | rfl
    · cases w <;> simp [Duty.rests, hcome]
    · simp [Duty.rests]
  | take | startPoll | startProbe | consult | route | submit | await | exchange | conclude => cases hd

theorem Task.unrest_of_early {due n : Nat} (hd : d.due? = some due) (hlt : clock < due) :
    unrest clock ⟨d, .ready n⟩ = 1 := by
  refine if_neg ?_
  cases d with
  | poll | probe =>
    cases hd
    simpa [Duty.rests] using hlt
  | take | startPoll | startProbe | consult | route | submit | await | exchange | conclude => cases hd

/-- A task whose permit is withdrawn does no more than it would have done. -/
theorem Duty.leftover_le (h : Horizon) (clock : Nat) {d : Duty} {p : Permit}
    (hp : d.post.permit? = some p) : d.leftover ≤ d.cost h clock := by
  have hpurpose : ∀ q : Purpose, q.post.permit? = some p → 2 ≤ q.cost h clock := by
    intro q hq
    cases q with
    | entry | probe =>
      simp only [Purpose.cost]
      omega
    | lookup => cases hq
  cases d with
  | take | startPoll | poll | startProbe | probe =>
    simp only [leftover, cost, Horizon.polling]
    omega
  | consult | route | submit | await => cases hp
  | exchange q s => exact (Nat.add_comm _ _).trans_le (Nat.add_le_add_right (hpurpose q hp) _)
  | conclude q r => exact hpurpose q hp

theorem Task.cost_le (h : Horizon) (clock : Nat) (permits : List Permit) (t : Task) :
    t.cost h clock permits ≤ t.duty.cost h clock + t.unrest clock := by
  unfold cost
  split
  case isTrue => exact Nat.le_refl _
  case isFalse hout =>
    cases hp : t.duty.post.permit? with
    | none =>
      rw [hp] at hout
      exact absurd rfl hout
    | some p => exact Nat.le_add_right_of_le (Duty.leftover_le h clock hp)

/-- A task has no more to do than would come of an outage in each millisecond. -/
theorem Duty.cost_le_rounds (h : Horizon) (clock : Nat) (d : Duty) :
    d.cost h clock + 1 ≤ (h.limit + 1) * h.round + 20 := by
  have hround : h.round = 4 * h.polling + 20 := rfl
  have hpolling : h.polling = (h.limit + 1) * h.tick + 3 := rfl
  have hall : (h.limit + 1) * h.round = h.limit * h.round + h.round := Nat.succ_mul ..
  have hleft : (h.limit - clock) * h.round ≤ h.limit * h.round :=
    Nat.mul_le_mul_right _ (Nat.sub_le ..)
  have hdue : ∀ due n, (h.limit + 1 - due) * n ≤ (h.limit + 1) * n :=
    fun due n => Nat.mul_le_mul_right n (Nat.sub_le ..)
  have hpurpose : ∀ p : Purpose, p.cost h clock + 7 ≤ (h.limit + 1) * h.round + 20 := by
    intro p
    cases p with
    | entry => simp only [Purpose.cost]; omega
    | probe outage next =>
      have hnext := hdue next h.round
      simp only [Purpose.cost]
      omega
    | lookup => exact Nat.le_add_left 8 _
  cases d with
  | take | startPoll | startProbe | consult | route | submit | await =>
    simp only [cost]
    omega
  | poll permit p period due =>
    have hticks := hdue due h.tick
    simp only [cost]
    omega
  | probe outage due =>
    have hrounds := hdue due h.round
    simp only [cost]
    omega
  | exchange p s =>
    have hstage : s.cost ≤ 6 := by
      cases s with
      | join => exact Nat.le_refl 6
      | send again | receive again => cases again <;> simp [Stage.cost]
    have hp := hpurpose p
    simp only [cost]
    omega
  | conclude p r =>
    have hp := hpurpose p
    simp only [cost]
    omega

/-- No task has more to do when permits are withdrawn. -/
theorem Task.cost_withdraw (hsub : ∀ p ∈ permits', p ∈ permits) (t : Task) :
    t.cost h clock permits' ≤ t.cost h clock permits := by
  unfold cost
  cases hp : t.duty.post.permit? with
  | none => exact Nat.le_refl _
  | some p =>
    by_cases hin : p ∈ permits'
    · simp [hin, hsub p hin]
    · have hleft := Duty.leftover_le h clock hp
      simp only [Option.all_some, List.contains_eq_mem, hin, decide_false, Bool.false_eq_true, if_false]
      split <;> omega

/-- No task has more to do when time goes on. -/
theorem Purpose.cost_le (hle : clock ≤ later) (p : Purpose) : p.cost h later ≤ p.cost h clock := by
  have hleft : (h.limit - later) * h.round ≤ (h.limit - clock) * h.round :=
    Nat.mul_le_mul_right _ (Nat.sub_le_sub_left hle _)
  cases p with
  | entry => exact Nat.add_le_add_right hleft _
  | probe =>
    simp only [cost]
    omega
  | lookup => exact Nat.le_refl _

theorem Duty.cost_le (hle : clock ≤ later) (d : Duty) : d.cost h later ≤ d.cost h clock := by
  have hleft : (h.limit - later) * h.round ≤ (h.limit - clock) * h.round :=
    Nat.mul_le_mul_right _ (Nat.sub_le_sub_left hle _)
  cases d with
  | take | startProbe => exact Nat.add_le_add_right hleft _
  | startPoll | poll | probe | consult | route | submit | await => exact Nat.le_refl _
  | exchange p s => exact Nat.add_le_add_right (p.cost_le hle) _
  | conclude p r => exact p.cost_le hle

namespace Engine

/-- What is still to be done until a time, but for what comes of one task. -/
def effort (e : Engine) (h : Horizon) (but : Option TaskId) : Nat :=
  e.tasks.total (fun id t => if but = some id then 0 else t.cost h e.clock e.permits) +
    8 * e.queue.size + (if e.signal then 1 else 0) + (h.limit - e.clock)

variable {e e' : Engine} {but : Option TaskId} {id : TaskId} {n : Nat}

/-- It is known from the crew, the queue and the clock. -/
theorem effort_of_crew (hcrew : e'.crew = e.crew) (hclock : e'.clock = e.clock)
    (hqueue : e'.queue.size ≤ e.queue.size) : e'.effort h but ≤ e.effort h but := by
  unfold effort
  rw [show e'.tasks = e.tasks from congrArg Crew.tasks hcrew,
    show e'.permits = e.permits from congrArg Crew.permits hcrew,
    show e'.signal = e.signal from congrArg Crew.signal hcrew, hclock]
  omega

/-- One task and the others. -/
theorem effort_split (e : Engine) (h : Horizon) (id : TaskId) : e.effort h none =
    e.effort h (some id) + (e.task? id).elim 0 (Task.cost h e.clock e.permits) := by
  have hsplit := SortedMap.total_split (m := e.tasks) (k := id)
    (f := fun id' t => if none = some id' then 0 else t.cost h e.clock e.permits)
    (g := fun id' t => if some id = some id' then 0 else t.cost h e.clock e.permits)
    (fun t => if_pos rfl) fun id' t hne => by
      rw [if_neg fun heq => hne (Option.some.inj heq).symm, if_neg nofun]
  have hcost : (fun t : Task => if none = some id then 0 else t.cost h e.clock e.permits) =
      Task.cost h e.clock e.permits := funext fun t => if_neg nofun
  unfold effort
  rw [hsplit, hcost]
  show _ = _ + (e.tasks.get? id).elim 0 _
  omega

theorem effort_park_self (w : Wait) : (e.park id d w).effort h (some id) = e.effort h (some id) := by
  have hsame := SortedMap.total_insert_self (m := e.tasks) (k := id)
    (f := fun id' t => if some id = some id' then 0 else t.cost h e.clock e.permits)
    (fun t => if_pos rfl) ⟨d, w⟩
  unfold effort park
  rw [hsame]

theorem effort_finish (e : Engine) (h : Horizon) (id : TaskId) :
    (e.finish id).effort h none = e.effort h (some id) := by
  have hsame := SortedMap.total_erase_self (m := e.tasks) (k := id)
    (f := fun id' t => if some id = some id' then 0 else t.cost h e.clock e.permits)
    (fun t => if_pos rfl)
  rw [effort_split _ h id, task?_finish, if_pos rfl]
  unfold effort finish
  rw [hsame]
  rfl

theorem effort_park (w : Wait) : (e.park id d w).effort h none =
    e.effort h (some id) + Task.cost h e.clock e.permits ⟨d, w⟩ := by
  rw [effort_split _ h id, effort_park_self, task?_park, if_pos rfl]
  rfl

theorem effort_proceed (hn : ∀ w, Task.cost h e.clock e.permits ⟨d, w⟩ ≤ n) :
    (e.proceed id d).effort h none ≤ e.effort h (some id) + n := by
  unfold proceed
  split
  · rw [effort_park]
    exact Nat.add_le_add_left (hn _) _
  · rename_i hnone
    have htask : e.task? id = none := hnone
    rw [effort_split e h id, htask]
    exact Nat.le_add_right _ _

/-! ## What operations add -/

/-- A task that is moved adds what it costs more. -/
theorem effort_park_le (ht : e.task? id = some t)
    (hn : Task.cost h e.clock e.permits ⟨d, w⟩ ≤ t.cost h e.clock e.permits + n) :
    (e.park id d w).effort h but ≤ e.effort h but + n := by
  have htask : e.tasks.get? id = some t := ht
  have htotal : (e.tasks.insert id ⟨d, w⟩).total
      (fun id t => if but = some id then 0 else t.cost h e.clock e.permits) ≤
        e.tasks.total (fun id t => if but = some id then 0 else t.cost h e.clock e.permits) + n := by
    refine SortedMap.total_insert_le ?_
    rw [htask, Option.elim_some]
    split
    · exact Nat.zero_le _
    · exact hn
  unfold effort park
  dsimp only
  omega

/-- A task that begins adds what it costs. -/
theorem effort_spawn (e : Engine) (h : Horizon) (but : Option TaskId) (d : Duty) :
    (e.spawn d).effort h but ≤
      e.effort h but + (d.cost h e.clock + Task.unrest e.clock ⟨d, .ready e.turn⟩) := by
  have htotal : (e.tasks.insert e.nextTask ⟨d, .ready e.turn⟩).total
      (fun id t => if but = some id then 0 else t.cost h e.clock e.permits) ≤
        e.tasks.total (fun id t => if but = some id then 0 else t.cost h e.clock e.permits) +
          (d.cost h e.clock + Task.unrest e.clock ⟨d, .ready e.turn⟩) := by
    refine SortedMap.total_insert_le (Nat.le_trans ?_ (Nat.le_add_left _ _))
    split
    · exact Nat.zero_le _
    · exact Task.cost_le ..
  unfold effort spawn
  dsimp only
  omega

/-- A task that is woken looks once more. -/
theorem effort_wake (e : Engine) (h : Horizon) (but : Option TaskId) (id : TaskId) :
    (e.wake id).effort h but ≤ e.effort h but + 1 := by
  unfold wake
  split
  case h_1 | h_2 => exact Nat.le_add_right _ _
  case h_3 t _ ht =>
    refine effort_park_le (e := e) (t := t) ht ?_
    unfold Task.cost
    dsimp only
    split
    · have hone := Task.unrest_le e.clock ⟨t.duty, .ready e.turn⟩
      omega
    · exact Nat.le_add_right _ _

/-- A task whose permit is withdrawn does no more when it is woken. -/
theorem effort_wake_withdrawn
    (hout : ∀ d, e.duty? id = some d → ∃ p, d.post.permit? = some p ∧ p ∉ e.permits) :
    (e.wake id).effort h but ≤ e.effort h but := by
  unfold wake
  split
  case h_1 | h_2 => exact Nat.le_refl _
  case h_3 t _ ht =>
    refine effort_park_le (e := e) (t := t) (n := 0) ht ?_
    obtain ⟨p, hp, hnot⟩ := hout t.duty (duty?_of_task? ht)
    unfold Task.cost
    dsimp only
    rw [hp]
    simp [hnot]

theorem effort_wakeTaker (e : Engine) (h : Horizon) (but : Option TaskId) :
    e.wakeTaker.effort h but ≤ e.effort h but + 1 := by
  unfold wakeTaker
  split
  · exact effort_wake e h but _
  · unfold effort
    dsimp only
    split <;> omega

/-- A caller that is told its result has only to use it. -/
theorem effort_reply (e : Engine) (h : Horizon) (but : Option TaskId) (id : TaskId)
    (r : Except RequestError String) : (e.reply id r).effort h but ≤ e.effort h but := by
  unfold reply
  split
  case h_1 l w ht =>
    refine effort_park_le (e := e) (n := 0) ht ?_
    exact Nat.le_add_right _ _
  case h_2 => exact Nat.le_refl _

theorem effort_replyAll (e : Engine) (h : Horizon) (but : Option TaskId) (ids : List TaskId)
    (r : Except RequestError String) : (e.replyAll ids r).effort h but ≤ e.effort h but := by
  unfold replyAll
  induction ids generalizing e with
  | nil => exact Nat.le_refl _
  | cons id ids ih => exact Nat.le_trans (ih _) (effort_reply e h but id r)

/-- No one has more to do when permits are withdrawn. -/
theorem effort_withdraw (e : Engine) (h : Horizon) (but : Option TaskId) (ps : List Permit) :
    (e.withdraw ps).effort h but ≤ e.effort h but := by
  have hkept : ({ e with permits := e.permits.filter fun p => !ps.contains p } : Engine).effort h but ≤
      e.effort h but := by
    have htotal : e.tasks.total (fun id t => if but = some id then 0 else
        t.cost h e.clock (e.permits.filter fun p => !ps.contains p)) ≤
          e.tasks.total (fun id t => if but = some id then 0 else t.cost h e.clock e.permits) := by
      refine SortedMap.total_mono fun id t _ => ?_
      split
      · exact Nat.le_refl _
      · exact t.cost_withdraw fun p hp => (List.mem_filter.1 hp).1
    unfold effort
    dsimp only
    omega
  -- who is woken holds one of these permits
  have hwake : ∀ (ids : List TaskId) (x : Engine), (∀ id ∈ ids, ∀ d, x.duty? id = some d →
      ∃ p, d.post.permit? = some p ∧ p ∉ x.permits) → (ids.foldl wake x).effort h but ≤ x.effort h but := by
    intro ids
    induction ids with
    | nil => exact fun x _ => Nat.le_refl _
    | cons id ids ih =>
      intro x hout
      refine Nat.le_trans (ih (x.wake id) fun id' hid' d hd => ?_)
        (effort_wake_withdrawn (hout id List.mem_cons_self))
      rw [duty?_wake] at hd
      obtain ⟨p, hp, hnot⟩ := hout id' (List.mem_cons_of_mem _ hid') d hd
      refine ⟨p, hp, ?_⟩
      have hframe : (x.wake id).frame.permits = x.frame.permits := congrArg Engine.permits (x.wake_frame id)
      rwa [show (x.wake id).permits = x.permits from hframe]
  refine Nat.le_trans (hwake _ _ fun id hid d hd => ?_) hkept
  obtain ⟨⟨id', t⟩, hmem, rfl⟩ := List.mem_map.1 hid
  obtain ⟨hin, hheld⟩ := List.mem_filter.1 hmem
  have ht : e.task? id' = some t := (SortedMap.mem_entries_iff _ _ _).1 hin
  obtain rfl : t.duty = d := Option.some.inj ((duty?_of_task? ht).symm.trans hd)
  obtain ⟨p, hp, hgone⟩ := (Option.any_eq_true _ _).1 hheld
  refine ⟨p, permit?_post hp, fun hkept => ?_⟩
  simp [List.mem_filter, List.contains_iff_mem.1 hgone] at hkept

/-- A permit that no task holds changes nothing. -/
theorem effort_issue (h : Horizon) (but : Option TaskId)
    (hr : ∀ id w, e.post? id = some w → w.permit? ≠ some e.nextPermit) :
    e.issue.2.effort h but = e.effort h but := by
  have htotal : e.tasks.total (fun id t => if but = some id then 0 else
      t.cost h e.clock (e.nextPermit :: e.permits)) =
        e.tasks.total (fun id t => if but = some id then 0 else t.cost h e.clock e.permits) := by
    refine SortedMap.total_congr fun id t ht => ?_
    have hne := hr id t.duty.post (post?_of_task? ht)
    have hsame : t.duty.post.permit?.all (e.nextPermit :: e.permits).contains =
        t.duty.post.permit?.all e.permits.contains := by
      cases hp : t.duty.post.permit? with
      | none => rfl
      | some p =>
        have hp' : p ≠ e.nextPermit := fun heq => hne (heq ▸ hp)
        simp [hp']
    unfold Task.cost
    rw [hsame]
  unfold effort issue
  dsimp only
  rw [htotal]

theorem effort_logAll (e : Engine) (h : Horizon) (but : Option TaskId) (ls : List LogLine) :
    (e.logAll ls).effort h but = e.effort h but := by
  induction ls generalizing e with
  | nil => rfl
  | cons l ls ih => exact ih (e.log l)

/-- A request that is put in costs eight steps, and one for the task that it wakes. -/
theorem effort_inserted (e : Engine) (h : Horizon) (but : Option TaskId) {i : Queue.Insertion}
    (hi : i.queue.size ≤ e.queue.size + if i.accepted then 1 else 0) :
    (e.inserted i).effort h but ≤ e.effort h but + if i.accepted then 9 else 0 := by
  have hlog : (logAll { e with queue := i.queue } i.logs).effort h but ≤
      e.effort h but + 8 * if i.accepted then 1 else 0 := by
    rw [effort_logAll]
    unfold effort
    dsimp only
    omega
  unfold inserted
  dsimp only
  split
  case isTrue hin =>
    rw [if_pos hin] at hlog
    have hwake := effort_wakeTaker (logAll { e with queue := i.queue } i.logs) h but
    omega
  case isFalse hfull =>
    rw [if_neg hfull] at hlog
    exact hlog

/-! ### The queue -/

theorem push_size_le (q : Queue) (r : Request) (c : Option Nat) (p : Position) :
    (q.push r c p).queue.size ≤ q.size + if (q.push r c p).accepted then 1 else 0 := by
  by_cases hroom : q.size < q.capacity
  · rw [if_pos ((Queue.push_accepted ..).2 hroom), Queue.push_size_of_room hroom]
  · rw [Queue.push_of_full hroom]
    exact Nat.le_add_right _ _

theorem effort_push (e : Engine) (h : Horizon) (but : Option TaskId) (r : Request) (c : Option Nat)
    (p : Position) : (e.inserted (e.queue.push r c p)).effort h but ≤
      e.effort h but + if (e.queue.push r c p).accepted then 9 else 0 :=
  effort_inserted e h but (push_size_le ..)

/-- A poll puts in no more than there are free slots. -/
theorem effort_enqueueAll (e : Engine) (h : Horizon) (but : Option TaskId) (rs : List Request) :
    (e.enqueueAll rs).effort h but ≤ e.effort h but + 9 * (e.queue.capacity - e.queue.size) := by
  unfold enqueueAll
  induction rs generalizing e with
  | nil => exact Nat.le_add_right _ _
  | cons r rs ih =>
    have hfirst := effort_push e h but r none .tail
    have hrest := ih (e.enqueue r .tail).2
    rw [List.foldl_cons]
    rw [show (e.enqueue r .tail).2.queue = (e.queue.push r none .tail).queue from inserted_queue e _,
      Queue.push_capacity] at hrest
    by_cases hroom : e.queue.size < e.queue.capacity
    · rw [if_pos ((Queue.push_accepted ..).2 hroom)] at hfirst
      rw [Queue.push_size_of_room hroom] at hrest
      have hsame : (e.enqueue r .tail).2.effort h but =
          (e.inserted (e.queue.push r none .tail)).effort h but := rfl
      omega
    · have hfull : ¬ (e.queue.push r none .tail).accepted = true :=
        fun hin => hroom ((Queue.push_accepted ..).1 hin)
      rw [if_neg hfull] at hfirst
      rw [Queue.push_of_full hroom] at hrest
      have hsame : (e.enqueue r .tail).2.effort h but =
          (e.inserted (e.queue.push r none .tail)).effort h but := rfl
      omega

theorem effort_replay (e : Engine) (h : Horizon) (but : Option TaskId) (x : Entry) :
    (e.replay x).effort h but ≤ e.effort h but + 9 := by
  have hsize : (e.queue.replay x).queue.size ≤
      e.queue.size + if (e.queue.replay x).accepted then 1 else 0 := by
    by_cases hroom : e.queue.size < e.queue.capacity
    · rw [if_pos ((Queue.replay_accepted ..).2 hroom)]
      show (e.queue.replay x).queue.entries.length ≤ _
      rw [Queue.replay_of_room hroom]
      exact Nat.le_refl _
    · rw [Queue.replay_of_full hroom]
      exact Nat.le_add_right _ _
  have hinserted := effort_inserted e h but hsize
  have hle : (e.inserted (e.queue.replay x)).effort h but ≤ e.effort h but + 9 := by
    refine Nat.le_trans hinserted (Nat.add_le_add_left ?_ _)
    split <;> decide
  unfold replay
  dsimp only
  split
  · exact hle
  · exact hle

/-- A request that is taken out is paid for. -/
theorem effort_pop_some {queue : Queue} {x : Entry} (hpop : e.queue.pop = (some x, queue)) (h : Horizon)
    (but : Option TaskId) : ({ e with queue } : Engine).effort h but + 8 ≤ e.effort h but := by
  have hhead := Queue.pop_head e.queue
  have hentries := Queue.pop_entries e.queue
  rw [hpop] at hhead hentries
  have hsize : queue.size + 1 = e.queue.size := by
    show queue.entries.length + 1 = e.queue.entries.length
    rw [hentries, List.length_tail]
    exact Nat.sub_add_cancel (List.length_pos_of_mem (List.mem_of_mem_head? hhead.symm))
  unfold effort
  dsimp only
  omega

theorem effort_pop (e : Engine) (h : Horizon) (but : Option TaskId) :
    ({ e with queue := e.queue.pop.2 } : Engine).effort h but ≤ e.effort h but := by
  refine effort_of_crew rfl rfl ?_
  show e.queue.pop.2.entries.length ≤ e.queue.entries.length
  rw [Queue.pop_entries, List.length_tail]
  exact Nat.sub_le _ _

/-- The wake-up that is stored is used up. -/
theorem effort_signal (hsignal : e.signal = true) (h : Horizon) (but : Option TaskId) :
    ({ e with signal := false } : Engine).effort h but + 1 = e.effort h but := by
  unfold effort
  rw [if_pos hsignal]
  dsimp only
  rw [if_neg Bool.false_ne_true]
  omega

theorem effort_refuseWaiting (e : Engine) (h : Horizon) (but : Option TaskId) (f : RequestError) :
    (e.refuseWaiting f).effort h but ≤ e.effort h but := by
  have hrest : ({ e with queue := e.queue.takeWaiting.2 } : Engine).effort h but ≤ e.effort h but := by
    refine effort_of_crew rfl rfl ?_
    show e.queue.takeWaiting.2.entries.length ≤ e.queue.entries.length
    rw [Queue.takeWaiting_entries]
    exact List.length_filter_le _ _
  exact Nat.le_trans (effort_replyAll _ h but _ _) hrest

/-! ### Phases -/

/-- No task holds a permit that is still to be issued. -/
def Sworn (e : Engine) : Prop :=
  ∀ id w p, e.post? id = some w → w.permit? = some p → p < e.nextPermit

theorem Sworn.of_roster (hs : e.Sworn) (hr : e'.roster = e.roster) : e'.Sworn := by
  intro id w p hw hp
  have hw' : e.post? id = some w := (congrFun (congrArg Roster.post hr) id).symm.trans hw
  rw [show e'.nextPermit = e.nextPermit from congrArg Roster.nextPermit hr]
  exact hs id w p hw' hp

theorem Sworn.withdraw (hs : e.Sworn) (ps : List Permit) : (e.withdraw ps).Sworn := by
  intro id w p hw hp
  have hr := e.withdraw_roster ps
  have hw' : e.post? id = some w := (congrFun (congrArg Roster.post hr) id).symm.trans hw
  rw [show (e.withdraw ps).nextPermit = e.nextPermit from congrArg Roster.nextPermit hr]
  exact hs id w p hw' hp

theorem Sworn.issue (hs : e.Sworn) : e.issue.2.Sworn := fun id w p hw hp =>
  Nat.lt_succ_of_lt (hs id w p hw hp)

theorem Sworn.spawn (hs : e.Sworn) {p : Permit} (hd : d.post.permit? = some p) (hp : p < e.nextPermit) :
    (e.spawn d).Sworn := by
  intro id w p' hw hp'
  have hr := e.spawn_roster d
  have hpost : (if e.nextTask = id then some d.post else e.post? id) = some w :=
    (congrFun (congrArg Roster.post hr) id).symm.trans hw
  split at hpost
  · cases hpost
    cases hd.symm.trans hp'
    exact hp
  · exact hs id w p' hpost hp'

theorem Sworn.effort_issue (hs : e.Sworn) (h : Horizon) (but : Option TaskId) :
    e.issue.2.effort h but = e.effort h but :=
  Engine.effort_issue h but fun id w hw hp => Nat.lt_irrefl _ (hs id w _ hw hp)

theorem Sworn.startStandard (hs : e.Sworn) (h : Horizon) (but : Option TaskId) :
    e.startStandard.2.Sworn ∧ e.startStandard.2.effort h but ≤ e.effort h but + h.polling := by
  have hissue := hs.effort_issue h but
  unfold Engine.startStandard
  dsimp only
  split
  · exact ⟨hs.issue, Nat.le_add_right_of_le (Nat.le_of_eq hissue)⟩
  · refine ⟨hs.issue.spawn rfl (Nat.lt_succ_self _), ?_⟩
    rw [← hissue]
    exact effort_spawn _ h but _

theorem Sworn.startSoftware (hs : e.Sworn) (h : Horizon) (but : Option TaskId) :
    e.startSoftware.2.Sworn ∧ e.startSoftware.2.effort h but ≤ e.effort h but + h.polling := by
  have hissue := hs.effort_issue h but
  unfold Engine.startSoftware
  dsimp only
  split
  · exact ⟨hs.issue, Nat.le_add_right_of_le (Nat.le_of_eq hissue)⟩
  · refine ⟨hs.issue.spawn rfl (Nat.lt_succ_self _), ?_⟩
    rw [← hissue]
    exact effort_spawn _ h but _

/-- What begins with a run: the taking of requests, and four polls. -/
theorem Sworn.effort_startRun (hs : e.Sworn) (h : Horizon) (but : Option TaskId) :
    e.startRun.effort h but ≤
      e.effort h but + ((h.limit - e.clock) * h.round + 4 * h.polling + 12) := by
  let e₁ := e.issue.2.spawn (.take e.nextPermit)
  let e₂ := e₁.startStandard.2
  let e₃ := e₂.startSoftware.2
  let beat (p : Poll) : Duty :=
    .startPoll e.nextPermit p e₃.settings.heartbeatInterval e₃.settings.heartbeatInterval
  have hs₁ : e₁.Sworn := hs.issue.spawn rfl (Nat.lt_succ_self _)
  have h₁ : e₁.effort h but ≤ e.effort h but + ((h.limit - e.clock) * h.round + 12) := by
    rw [← hs.effort_issue h but]
    exact effort_spawn _ h but _
  have hs₂ : e₂.Sworn := (hs₁.startStandard h but).1
  have h₂ : e₂.effort h but ≤ e₁.effort h but + h.polling := (hs₁.startStandard h but).2
  have h₃ : e₃.effort h but ≤ e₂.effort h but + h.polling := (hs₂.startSoftware h but).2
  have h₄ : (e₃.spawn (beat .thermostats)).effort h but ≤ e₃.effort h but + h.polling :=
    effort_spawn _ h but _
  have h₅ : ((e₃.spawn (beat .thermostats)).spawn (beat .modes)).effort h but ≤
      (e₃.spawn (beat .thermostats)).effort h but + h.polling := effort_spawn _ h but _
  have hrun : e.startRun.effort h but =
      ((e₃.spawn (beat .thermostats)).spawn (beat .modes)).effort h but := rfl
  omega

/-- What an outage begins with. -/
theorem Sworn.effort_startProbe (hs : e.Sworn) (h : Horizon) (but : Option TaskId) :
    (e.issue.2.spawn (.startProbe e.nextPermit)).effort h but ≤
      e.effort h but + ((h.limit - e.clock) * h.round + 3) := by
  rw [← hs.effort_issue h but]
  exact effort_spawn _ h but _

theorem effort_observeOutage (e : Engine) (h : Horizon) (but : Option TaskId) (f : RequestError) :
    (e.observeOutage f).effort h but = e.effort h but := by
  unfold observeOutage
  split <;> rfl

theorem effort_observeRecovery (e : Engine) (h : Horizon) (but : Option TaskId) :
    e.observeRecovery.effort h but = e.effort h but := by
  unfold observeRecovery
  split <;> rfl

/-- The request that failed is put in again, and the others of callers are taken out. -/
theorem Sworn.effort_replayed (hs : e.Sworn) (h : Horizon) (but : Option TaskId) (ps : List Permit)
    (x : Entry) (f : RequestError) :
    let e₁ := (if x.caller.isNone then (e.withdraw ps).replay x else e.withdraw ps).refuseWaiting f
    e₁.Sworn ∧ e₁.clock = e.clock ∧ e₁.effort h but ≤ e.effort h but + 9 := by
  have hkept : ∀ y : Engine, y.roster = (e.withdraw ps).roster → y.annals = e.annals →
      y.effort h but ≤ e.effort h but + 9 → (y.refuseWaiting f).Sworn ∧
        (y.refuseWaiting f).clock = e.clock ∧ (y.refuseWaiting f).effort h but ≤ e.effort h but + 9 := by
    intro y hroster hannals heffort
    refine ⟨(hs.withdraw ps).of_roster ((refuseWaiting_roster f).trans hroster), ?_, ?_⟩
    · exact congrArg Annals.clock ((refuseWaiting_annals _ f).trans hannals)
    · exact Nat.le_trans (effort_refuseWaiting y h but f) heffort
  have hwithdraw := effort_withdraw e h but ps
  have hannals := withdraw_annals e ps
  dsimp only
  split
  · exact hkept _ (replay_roster _) ((replay_annals _ _).trans hannals)
      (Nat.le_trans (effort_replay _ h but x) (Nat.add_le_add_right hwithdraw 9))
  · exact hkept _ rfl hannals (Nat.le_add_right_of_le hwithdraw)

/-- What an outage adds: the request that failed, and the probes with what comes of them. -/
theorem Sworn.effort_enterOutage (hs : e.Sworn) (h : Horizon) (but : Option TaskId) (root : Permit)
    (x : Entry) (f : RequestError) : (e.enterOutage root x f).effort h but ≤
      e.effort h but + ((h.limit - e.clock) * h.round + 12) := by
  unfold enterOutage
  split
  case h_2 => exact Nat.le_add_right _ _
  case h_1 run _ =>
    split
    case isTrue => exact Nat.le_add_right _ _
    case isFalse =>
      dsimp only
      rw [effort_observeOutage]
      obtain ⟨hs', hclock, heffort⟩ := hs.effort_replayed h but run.permits x f
      generalize Engine.refuseWaiting _ f = e₁ at hs' hclock heffort ⊢
      have hprobe := hs'.effort_startProbe h but
      rw [hclock] at hprobe
      refine Nat.le_trans (hprobe : Engine.effort _ h but ≤ _) ?_
      omega

/-- What the end of an outage adds. -/
theorem Sworn.effort_resume (hs : e.Sworn) (h : Horizon) (but : Option TaskId) (probe : Permit) :
    (e.resume probe).effort h but ≤
      e.effort h but + ((h.limit - e.clock) * h.round + 4 * h.polling + 12) := by
  unfold resume
  split
  case h_2 => exact Nat.le_add_right _ _
  case h_1 =>
    split
    case isTrue => exact Nat.le_add_right _ _
    case isFalse =>
      dsimp only
      rw [effort_observeRecovery]
      have hwithdraw := effort_withdraw e h but [probe]
      have hclock : (e.withdraw [probe]).clock = e.clock :=
        congrArg Annals.clock (withdraw_annals e [probe])
      have hrun := (hs.withdraw [probe]).effort_startRun h but
      rw [hclock] at hrun
      refine Nat.le_trans (hrun : Engine.effort _ h but ≤ _) ?_
      omega

end Engine

end HeatWatch
