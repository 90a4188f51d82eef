import HeatWatch.Proofs.Engine.Kinds
import HeatWatch.Proofs.Engine.Phases

/-!
# Who wakes whom

A task that waits for a time under a permit goes on when the time comes, or when the permit is
withdrawn. The task that takes from the queue waits only while the queue is empty, and no request
escapes it: whoever puts one in wakes it, or leaves a signal that it finds before it waits. Main
statements:

* `ready?_of_result?`: who leaves the line goes on with its result at once;
* `Changes.spared`, `move_spared`: who waits for a time is left alone;
* `Alert.move`: no wake-up is lost by a move;
* `follow_alert`: none is lost in any run.
-/

namespace HeatWatch

namespace Engine

variable {tells : Bool} {e e' : Engine} {id : TaskId} {d : Duty} {w : Wait}

/-! ## Waking -/

theorem task?_wake_of_ready {n : Nat} (ht : e.task? id = some ⟨d, .ready n⟩) (id' : TaskId) :
    (e.wake id').task? id = some ⟨d, .ready n⟩ := by
  by_cases hid : id' = id
  · subst hid
    unfold wake
    rw [show e.tasks.get? id' = some ⟨d, .ready n⟩ from ht]
    exact ht
  · rw [task?_wake_of_ne _ _ hid, ht]

theorem task?_wakeAll_of_not_mem {ids : List TaskId} (h : id ∉ ids) (e : Engine) :
    (ids.foldl wake e).task? id = e.task? id := by
  induction ids generalizing e with
  | nil => rfl
  | cons id' ids ih =>
    have hne : id' ≠ id := fun heq => h (heq ▸ List.mem_cons_self)
    exact (ih (fun hmem => h (List.mem_cons_of_mem id' hmem)) _).trans (task?_wake_of_ne e id' hne)

/-- Whoever is woken is ready. -/
theorem awake_of_wake {t : Task} (ht : (e.wake id).task? id = some t) : ∃ n, t.wait = .ready n := by
  have hhanded := wake_handed e id
  rw [ht] at hhanded
  generalize e.task? id = o at hhanded
  cases hhanded with
  | some h => exact h.2

theorem awake_of_wakeAll {ids : List TaskId} (h : id ∈ ids) {t : Task}
    (ht : (ids.foldl wake e).task? id = some t) : ∃ n, t.wait = .ready n := by
  induction ids generalizing e with
  | nil => cases h
  | cons id' ids ih =>
    by_cases hmem : id ∈ ids
    · exact ih hmem ht
    · -- it is woken first, and not again
      obtain rfl : id = id' := (List.mem_cons.1 h).resolve_right hmem
      rw [List.foldl_cons, task?_wakeAll_of_not_mem hmem] at ht
      exact awake_of_wake ht

/-- The tasks that wait under withdrawn permits. -/
theorem mem_holders {ps : List Permit} : id ∈ ((e.tasks.entries.filter fun t =>
    t.2.duty.permit?.any ps.contains).map (·.1)) ↔
      ∃ t p, e.task? id = some t ∧ t.duty.permit? = some p ∧ p ∈ ps := by
  constructor
  · intro h
    obtain ⟨⟨id', t⟩, hmem, rfl⟩ := List.mem_map.1 h
    obtain ⟨hin, hheld⟩ := List.mem_filter.1 hmem
    obtain ⟨p, hp, hps⟩ := (Option.any_eq_true _ _).1 hheld
    exact ⟨t, p, (SortedMap.mem_entries_iff _ _ _).1 hin, hp, List.contains_iff_mem.1 hps⟩
  · rintro ⟨t, p, ht, hp, hps⟩
    refine List.mem_map.2 ⟨(id, t), List.mem_filter.2 ⟨?_, ?_⟩, rfl⟩
    · exact (SortedMap.mem_entries_iff _ _ _).2 ht
    · exact (Option.any_eq_true _ _).2 ⟨p, hp, List.contains_iff_mem.2 hps⟩

theorem withdraw_spared {ps : List Permit} (ht : e.task? id = some ⟨d, w⟩)
    (hp : ∀ p, d.permit? = some p → p ∉ ps) : (e.withdraw ps).task? id = some ⟨d, w⟩ := by
  refine (task?_wakeAll_of_not_mem (fun hmem => ?_) _).trans ht
  obtain ⟨t, p, ht', hp', hps⟩ := mem_holders.1 hmem
  cases ht.symm.trans ht'
  exact hp p hp' hps

theorem withdraw_wakes {ps : List Permit} {p : Permit} (ht : e.task? id = some ⟨d, w⟩)
    (hp : d.permit? = some p) (hps : p ∈ ps) {t : Task}
    (ht' : (e.withdraw ps).task? id = some t) : ∃ n, t.wait = .ready n :=
  awake_of_wakeAll (mem_holders.2 ⟨_, p, ht, hp, hps⟩) ht'

theorem reply_spared {r : Except RequestError String} (ht : e.task? id = some ⟨d, w⟩)
    (hd : ∀ l, d ≠ .await l) (caller : TaskId) : (e.reply caller r).task? id = some ⟨d, w⟩ := by
  unfold reply
  split
  case h_1 l w' ht' =>
    have hne : caller ≠ id := by
      rintro rfl
      cases ht.symm.trans ht'
      exact hd l rfl
    rw [task?_wakeAt, if_neg hne, ht]
  case h_2 => exact ht

theorem logAll_task? (e : Engine) (ls : List LogLine) (id : TaskId) :
    (e.logAll ls).task? id = e.task? id := task?_eq_of_tasks (e.logAll_tasks ls) id

theorem wakeTaker_spared (ht : e.task? id = some ⟨d, w⟩) (hw : w ≠ .entry) :
    e.wakeTaker.task? id = some ⟨d, w⟩ := by
  unfold wakeTaker
  split
  case h_1 id' t hfound =>
    have hentry : t.wait = .entry := by simpa using List.find?_some hfound
    have ht' : e.task? id' = some t := by
      rw [task?, ← SortedMap.mem_entries_iff]
      exact List.mem_of_find?_eq_some hfound
    have hne : id' ≠ id := by
      rintro rfl
      cases ht.symm.trans ht'
      exact hw hentry
    rw [task?_wake_of_ne _ _ hne, ht]
  case h_2 => exact ht

theorem inserted_spared (ht : e.task? id = some ⟨d, w⟩) (hw : w ≠ .entry) (i : Queue.Insertion) :
    (e.inserted i).task? id = some ⟨d, w⟩ := by
  have hlog : (logAll { e with queue := i.queue } i.logs).task? id = some ⟨d, w⟩ :=
    (logAll_task? _ _ id).trans ht
  unfold inserted
  split
  · exact wakeTaker_spared hlog hw
  · exact hlog

/-! ## Results -/

/-- A task that leaves the line goes on with its result at once. -/
theorem ready?_leave (hready : e.ready? id = some d) (p : Purpose) (r : Except RequestError String) :
    (e.leave id p r).ready? id = some (.conclude p r) := by
  obtain ⟨n, ht⟩ := ready?_eq_some.1 hready
  unfold leave
  dsimp only
  split
  · exact ready?_proceed (e := Engine.record { e with line := e.line.drop 1 } _) hready _
  · refine ready?_proceed (d := d) (ready?_eq_some.2 ⟨n, ?_⟩) _
    exact task?_wake_of_ready (e := Engine.record { e with line := e.line.drop 1 } _) ht _

theorem ready?_of_result? {p : Purpose} {s : Stage} {r : Except RequestError String}
    (hready : e.ready? id = some (.exchange p s)) (hr : e.result? (.exchange p s) = some r) :
    (e.move (.act id)).ready? id = some (.conclude p r) := by
  rw [move_of_ready hready]
  have hleave : ∀ (e₁ : Engine) (r : Except RequestError String), e₁.tasks = e.tasks →
      (e₁.leave id p r).ready? id = some (.conclude p r) := fun e₁ r htasks =>
    ready?_leave ((ready?_of_tasks htasks id).trans hready) p r
  cases s with
  | join => cases hr
  | send again =>
    show (e.send id p again).ready? id = _
    unfold result? at hr
    dsimp only at hr
    unfold send
    split
    case h_1 f script hfetch =>
      rw [hfetch] at hr
      cases hr
      exact hleave _ _ rfl
    case h_2 token script hfetch =>
      rw [hfetch] at hr
      cases hr
  | receive again a =>
    show (e.receive id p again a).ready? id = _
    unfold result? at hr
    unfold receive
    cases a with
    | error m =>
      cases hr
      exact hleave _ _ rfl
    | ok response =>
      dsimp only at hr ⊢
      split at hr
      case isTrue => cases hr
      case isFalse hlast =>
        rw [if_neg hlast]
        obtain rfl := Option.some.inj hr
        cases response.outcome with
        | ok body => exact hleave _ _ rfl
        | error f =>
          dsimp only
          split <;> exact hleave _ _ rfl

/-! ## Permits -/

/-- No permit comes back. -/
theorem Changes.permits (h : Changes tells e e') :
    e.nextPermit ≤ e'.nextPermit ∧ ∀ p, p < e.nextPermit → p ∈ e'.permits → p ∈ e.permits := by
  have hsame : ∀ {e e' : Engine}, e'.roster = e.roster →
      e.nextPermit ≤ e'.nextPermit ∧ ∀ p, p < e.nextPermit → p ∈ e'.permits → p ∈ e.permits :=
    fun h => ⟨Nat.le_of_eq (congrArg Roster.nextPermit h).symm, fun p _ hp => permits_of_roster h ▸ hp⟩
  induction h with
  | same hcrew =>
    exact ⟨Nat.le_of_eq (congrArg Crew.nextPermit hcrew).symm,
      fun p _ hp => show p ∈ Crew.permits (crew _) from hcrew ▸ hp⟩
  | trans _ _ ih ih' =>
    exact ⟨Nat.le_trans ih.1 ih'.1,
      fun p hlt hp => ih.2 p hlt (ih'.2 p (Nat.lt_of_lt_of_le hlt ih.1) hp)⟩
  | spawn => exact ⟨Nat.le_refl _, fun _ _ hp => hp⟩
  | issue => exact ⟨Nat.le_succ _, fun p hlt hp => (List.mem_cons.1 hp).resolve_left (Nat.ne_of_lt hlt)⟩
  | withdraw e ps =>
    have hroster := e.withdraw_roster ps
    refine ⟨Nat.le_of_eq (congrArg Roster.nextPermit hroster).symm, fun p _ hp => ?_⟩
    rw [show (e.withdraw ps).permits = _ from congrArg Roster.permits hroster] at hp
    exact (List.mem_filter.1 hp).1
  | insert e => exact hsame (inserted_roster e _)
  | reply _ e id r => exact hsame (e.reply_roster id r)

/-! ## Tasks that wait for a time -/

/-- Who waits under a permit in force, and not for an entry, is left alone. -/
theorem Changes.spared (h : Changes tells e e') (hlt : id < e.nextTask)
    (ht : e.task? id = some ⟨d, w⟩) (hw : w ≠ .entry) {p : Permit} (hp : d.permit? = some p)
    (hissued : p < e.nextPermit) (hin : p ∈ e'.permits) : e'.task? id = some ⟨d, w⟩ := by
  induction h with
  | same hcrew => rw [task?_eq_of_tasks (congrArg Crew.tasks hcrew), ht]
  | trans h h' ih ih' =>
    have hissued' := Nat.lt_of_lt_of_le hissued h.permits.1
    have hmid := ih hlt ht hissued (h'.permits.2 p hissued' hin)
    exact ih' (Nat.lt_of_lt_of_le hlt h.grows.nextTask) hmid hissued' hin
  | spawn => rw [task?_spawn, if_neg (Nat.ne_of_gt hlt), ht]
  | issue => exact ht
  | withdraw e ps =>
    refine withdraw_spared ht fun q hq hps => ?_
    obtain rfl := Option.some.inj (hp.symm.trans hq)
    rw [show (e.withdraw ps).permits = _ from congrArg Roster.permits (e.withdraw_roster ps)] at hin
    have hout := (List.mem_filter.1 hin).2
    simp [hps] at hout
  | insert e => exact inserted_spared ht hw _
  | reply _ e caller =>
    refine reply_spared ht (fun l heq => ?_) caller
    rw [heq] at hp
    cases hp

theorem permits_of_yields {o : Option Duty} (h : Yields e id o e') : e'.permits = e.permits := by
  cases h with
  | finish | park => rfl
  | proceed d => exact permits_of_frame (e.proceed_frame id d)
  | sleep d due => exact permits_of_frame (e.sleep_frame id d due)
  | listen => exact permits_of_frame (e.listen_frame id _)

/-- Who gets the wire was waiting for it. -/
theorem Lined.heir (hl : e.Lined) {d' : Duty} (h : e.heir? d' = some id) :
    ∃ p, e.task? id = some ⟨.exchange p (.send false), .line⟩ := by
  unfold heir? at h
  split at h
  · exact hl.waits (List.mem_of_mem_head? h)
  · cases h

theorem permit?_post {p : Permit} (hp : d.permit? = some p) : d.post.permit? = some p := by
  cases d <;> first | exact hp | cases hp

section

variable (hr : e.roster.Orderly) (hl : e.Lined) {p : Permit} (hp : d.permit? = some p) {due n : Nat}
  (ht : e.task? id = some ⟨d, .alarm due n⟩)
include hr hl hp ht

/-- Other tasks do not wake a task that waits for a time under a permit in force. -/
theorem perform_spared {id' : TaskId} {d' : Duty} (hready : e.ready? id' = some d')
    (hin : p ∈ (e.perform id' d').permits) :
    (e.perform id' d').task? id = some ⟨d, .alarm due n⟩ := by
  have hissued : p < e.nextPermit :=
    hr.sworn (post?_of_duty? (duty?_of_task? ht)) (permit?_post hp)
  have hlt := (known_of_orderly hr).lt (duty?_of_task? ht)
  have hne : id ≠ id' := by
    rintro rfl
    obtain ⟨k, hk⟩ := ready?_eq_some.1 hready
    cases ht.symm.trans hk
  have hturn := perform_turn e id' d'
  have hheir : e.heir? d' ≠ some id := fun h => by
    obtain ⟨q, hq⟩ := hl.heir h
    cases ht.symm.trans hq
  generalize d'.next e = o at hturn
  generalize e.heir? d' = heir at hturn hheir
  generalize e.perform id' d' = e' at hin hturn ⊢
  cases hturn with
  | yields h hyields =>
    rw [permits_of_yields hyields] at hin
    rw [hyields.other hne]
    exact h.spared hlt ht nofun hp hissued hin
  | hands hcrew _ next d' =>
    have hne' : next ≠ id := fun heq => hheir (congrArg some heq)
    rw [task?_proceed, if_neg hne.symm, task?_wake_of_ne _ _ hne',
      task?_eq_of_tasks (congrArg Crew.tasks hcrew), ht]

/-- A task that waits for a time under a permit in force waits on until then. -/
theorem move_spared {m : Move} (hin : p ∈ (e.move m).permits)
    (hearly : ∀ now, m = .elapse now → now < due) :
    (e.move m).task? id = some ⟨d, .alarm due n⟩ := by
  cases m with
  | pass | plan => exact ht
  | elapse now =>
    have htask : (e.elapse now).task? id = (e.task? id).map (ring now) := SortedMap.get?_map ..
    show (e.elapse now).task? id = _
    rw [htask, ht]
    show some (if due ≤ now then _ else _) = _
    rw [if_neg (Nat.not_le.2 (hearly now rfl))]
  | obey c =>
    have hlt := (known_of_orderly hr).lt (duty?_of_task? ht)
    by_cases hc : ∃ l, c = .lookup l
    · obtain ⟨l, rfl⟩ := hc
      exact (task?_spawn e _).trans ((if_neg (Nat.ne_of_gt hlt)).trans ht)
    · have hissued : p < e.nextPermit :=
        hr.sworn (post?_of_duty? (duty?_of_task? ht)) (permit?_post hp)
      exact (obey_changes e (not_exists.1 hc)).spared hlt ht nofun hp hissued hin
  | act id' =>
    cases hready : e.ready? id' with
    | none =>
      rw [move_of_not_ready hready]
      exact ht
    | some d' =>
      rw [move_of_ready hready] at hin ⊢
      exact perform_spared hr hl hp ht hready hin

omit hr hl hp in
/-- When the time comes, it is ready. -/
theorem elapse_rings {now : Nat} (hdue : due ≤ now) :
    (e.elapse now).task? id = some ⟨d, .ready n⟩ := by
  have htask : (e.elapse now).task? id = (e.task? id).map (ring now) := SortedMap.get?_map ..
  rw [htask, ht]
  show some (if due ≤ now then _ else _) = _
  rw [if_pos hdue]

end

/-! ## The task that waits for an entry -/

/-- No wake-up is lost: a task that waits for an entry takes from the queue for a run that goes on, it
is the only one, the queue is empty, and no signal was left for it. -/
structure Alert (e : Engine) : Prop where
  only : ∀ {id id' d d'}, e.task? id = some ⟨d, .entry⟩ → e.task? id' = some ⟨d', .entry⟩ → id = id'
  waits : ∀ {id d}, e.task? id = some ⟨d, .entry⟩ → (∃ run ∈ e.permits, d = .take run) ∧
    e.queue.entries = [] ∧ e.signal = false

/-- Nothing that a task missed happens by a change after which fewer wait. -/
theorem Alert.of_less (h : e.Alert)
    (hwaits : ∀ {id d}, e'.task? id = some ⟨d, .entry⟩ → e.task? id = some ⟨d, .entry⟩)
    (hpermits : ∀ {id d p}, e'.task? id = some ⟨d, .entry⟩ → d.permit? = some p → p ∈ e.permits →
      p ∈ e'.permits)
    (hqueue : e.queue.entries = [] → e'.queue.entries = []) (hsignal : e'.signal = e.signal) :
    e'.Alert where
  only ht ht' := h.only (hwaits ht) (hwaits ht')
  waits ht := by
    obtain ⟨⟨run, hin, rfl⟩, hempty, hquiet⟩ := h.waits (hwaits ht)
    exact ⟨⟨run, hpermits ht rfl hin, rfl⟩, hqueue hempty, hsignal.trans hquiet⟩

/-- So it is as long as no one waits. -/
theorem Alert.of_none (h : ∀ {id d}, e.task? id ≠ some ⟨d, .entry⟩) : e.Alert where
  only ht := absurd ht h
  waits ht := absurd ht h

/-- Who waits after others acted on it did so before. -/
theorem waits_of_nudged (h : Option.Rel Task.Nudge (e.task? id) (e'.task? id))
    (hw : ∀ n, w ≠ .ready n) (ht : e'.task? id = some ⟨d, w⟩) : e.task? id = some ⟨d, w⟩ := by
  rw [ht] at h
  generalize e.task? id = o at h ⊢
  cases h with
  | some hn =>
    cases hn with
    | refl => rfl
    | woken _ _ n => exact absurd rfl (hw n)
    | told _ _ n => exact absurd rfl (hw n)

@[simp] theorem wake_signal (e : Engine) (id : TaskId) : (e.wake id).signal = e.signal := by
  unfold wake
  split <;> rfl

theorem wakeAll_signal (ids : List TaskId) (e : Engine) :
    (ids.foldl wake e).signal = e.signal := by
  induction ids generalizing e with
  | nil => rfl
  | cons id ids ih => exact (ih _).trans (wake_signal e id)

theorem logAll_signal (e : Engine) (ls : List LogLine) : (e.logAll ls).signal = e.signal := by
  induction ls generalizing e with
  | nil => rfl
  | cons l ls ih => exact ih (e.log l)

theorem withdraw_signal (e : Engine) (ps : List Permit) : (e.withdraw ps).signal = e.signal :=
  wakeAll_signal _ _

theorem reply_signal (e : Engine) (id : TaskId) (r : Except RequestError String) :
    (e.reply id r).signal = e.signal := by
  unfold reply
  split <;> rfl

/-- After a request is put in no one waits for it. -/
theorem not_entry_of_wakeTaker
    (honly : ∀ {id id' d d'}, e.task? id = some ⟨d, .entry⟩ → e.task? id' = some ⟨d', .entry⟩ →
      id = id') : e.wakeTaker.task? id ≠ some ⟨d, .entry⟩ := by
  intro ht
  unfold wakeTaker at ht
  split at ht
  case h_1 id' t hfound =>
    by_cases hid : id' = id
    · subst hid
      obtain ⟨n, hn⟩ := awake_of_wake ht
      cases hn
    · -- the one that was found is the only one that waited
      have hentry : t.wait = .entry := by simpa using List.find?_some hfound
      have ht' : e.task? id' = some t := by
        rw [task?, ← SortedMap.mem_entries_iff]
        exact List.mem_of_find?_eq_some hfound
      obtain ⟨d', w⟩ := t
      obtain rfl : w = .entry := hentry
      rw [task?_wake_of_ne _ _ hid] at ht
      exact hid (honly ht' ht)
  case h_2 hnone =>
    have hmem : (id, ⟨d, .entry⟩) ∈ e.tasks.entries := (SortedMap.mem_entries_iff _ _ _).2 ht
    simpa using List.find?_eq_none.1 hnone _ hmem

theorem Alert.inserted (h : e.Alert) {i : Queue.Insertion}
    (hi : i.accepted = false → i.queue = e.queue) : (e.inserted i).Alert := by
  have htask := logAll_task? { e with queue := i.queue } i.logs
  unfold Engine.inserted
  dsimp only
  split
  case isTrue =>
    refine .of_none (not_entry_of_wakeTaker fun {id id' d d'} ht ht' => ?_)
    exact h.only ((htask id).symm.trans ht) ((htask id').symm.trans ht')
  case isFalse hnot =>
    have hqueue : i.queue = e.queue := hi (Bool.eq_false_iff.2 hnot)
    refine h.of_less (fun {id d} ht => (htask id).symm.trans ht) (fun _ _ hp => ?_)
      (fun hempty => ?_) (logAll_signal _ _)
    · rw [permits_of_roster (logAll_roster _ i.logs)]
      exact hp
    · rw [logAll_queue]
      show i.queue.entries = []
      rw [hqueue, hempty]

/-- What happens to other tasks takes no wake-up from a task that waits for an entry. -/
theorem Changes.alert (h : Changes tells e e') (ha : e.Alert) : e'.Alert := by
  induction h with
  | same hcrew hqueue =>
    refine ha.of_less (fun {id d} ht => ?_) (fun {_ _ p} _ _ hp => ?_) hqueue
      (congrArg Crew.signal hcrew)
    · exact (task?_eq_of_tasks (congrArg Crew.tasks hcrew) id).symm.trans ht
    · show p ∈ Crew.permits (crew _)
      rw [hcrew]
      exact hp
  | trans _ _ ih ih' => exact ih' (ih ha)
  | spawn e =>
    refine ha.of_less (fun {id d} ht => ?_) (fun _ _ hp => hp) (fun h => h) rfl
    rw [task?_spawn] at ht
    split at ht
    · cases ht
    · exact ht
  | issue => exact ha.of_less (fun ht => ht) (fun _ _ hp => List.mem_cons_of_mem _ hp) (fun h => h) rfl
  | withdraw e ps =>
    have hentry : ∀ {id d}, (e.withdraw ps).task? id = some ⟨d, .entry⟩ →
        e.task? id = some ⟨d, .entry⟩ := fun ht => waits_of_nudged (e.nudged_withdraw ps _) nofun ht
    refine ha.of_less hentry (fun {id d p} ht hp hin => ?_) (fun h => ?_) (e.withdraw_signal ps)
    · -- whoever still waits holds none of the permits
      rw [show (e.withdraw ps).permits = _ from congrArg Roster.permits (e.withdraw_roster ps)]
      refine List.mem_filter.2 ⟨hin, Bool.not_eq_true' .. ▸ Bool.eq_false_iff.2 fun hps => ?_⟩
      obtain ⟨n, hn⟩ := withdraw_wakes (hentry ht) hp (List.contains_iff_mem.1 hps) ht
      cases hn
    · rw [withdraw_queue, h]
  | insert e hi => exact ha.inserted hi
  | reply _ e id r =>
    refine ha.of_less (fun ht => waits_of_nudged (e.nudged_reply id r _) nofun ht) (fun _ _ hp => ?_)
      (fun h => ?_) (e.reply_signal id r)
    · rw [permits_of_frame (e.reply_frame id r)]
      exact hp
    · rw [reply_queue, h]

/-! ## The task that acts -/

/-- A task that was ready does not wait after what happens to others. -/
theorem Grows.not_waits (h : Grows e e') (hk : e.Known) (hready : e.ready? id = some d) {d' : Duty}
    (hw : ∀ n, w ≠ .ready n) : e'.task? id ≠ some ⟨d', w⟩ := by
  intro ht
  obtain ⟨n, hready'⟩ := ready?_eq_some.1 hready
  cases (waits_of_nudged (h.old (hk.lt (duty?_of_ready? hready))) hw ht).symm.trans hready'
  exact hw n rfl

/-- A task that goes to a point where it does not wait for an entry changes nothing for the others. -/
theorem Alert.proceed (h : e.Alert) (hne : ∀ {d'}, e.task? id ≠ some ⟨d', .entry⟩) (d : Duty) :
    (e.proceed id d).Alert := by
  refine h.of_less (fun {id' d'} ht => ?_) (fun _ _ hp => ?_) (fun hempty => ?_) ?_
  · rw [task?_proceed] at ht
    split at ht
    · obtain ⟨⟨d₁, w⟩, ht₁, heq⟩ := Option.map_eq_some_iff.1 ht
      cases heq
      exact absurd ht₁ hne
    · exact ht
  · rw [permits_of_frame (e.proceed_frame id d)]
    exact hp
  · rw [proceed_queue, hempty]
  · unfold Engine.proceed
    split <;> rfl

theorem Alert.park (h : e.Alert) (d : Duty) (hw : w ≠ .entry) : (e.park id d w).Alert := by
  refine h.of_less (fun {id' d'} ht => ?_) (fun _ _ hp => hp) (fun h => h) rfl
  rw [task?_park] at ht
  split at ht
  · cases ht
    exact absurd rfl hw
  · exact ht

/-- Who finds the queue empty waits if no signal was left, and looks again if there was one. -/
theorem Alert.listen (h : e.Alert) (hne : ∀ {d'}, e.task? id ≠ some ⟨d', .entry⟩) {run : Permit}
    (hin : e.allows run = true) (hempty : e.queue.entries = [])
    (hr : (e.listen id run).roster.Orderly) : (e.listen id run).Alert := by
  unfold Engine.listen at hr ⊢
  split
  case isTrue =>
    refine Alert.proceed (e := { e with signal := false }) ⟨h.only, fun ht => ?_⟩ hne _
    obtain ⟨hrun, hqueue, -⟩ := h.waits ht
    exact ⟨hrun, hqueue, rfl⟩
  case isFalse hquiet =>
    rw [if_neg hquiet] at hr
    -- at most one task takes from the queue for a run that goes on
    have hpost : (e.park id (.take run) .entry).post? id = some (.taker run) :=
      post?_of_task? ((task?_park ..).trans (if_pos rfl))
    have hmine : ∀ {id' d'}, e.task? id' = some ⟨d', .entry⟩ → id' = id := by
      intro id' d' ht
      obtain ⟨⟨run', hin', rfl⟩, -, -⟩ := h.waits ht
      have hpost' : (e.park id (.take run) .entry).post? id' = some (.taker run') := by
        refine post?_of_task? ((task?_park ..).trans ((if_neg ?_).trans ht))
        rintro rfl
        exact hne ht
      exact taker_unique hr hpost' hin' hpost (allows_iff.1 hin)
    have hcases : ∀ {id' d'}, (e.park id (.take run) .entry).task? id' = some ⟨d', .entry⟩ →
        id' = id ∧ d' = .take run := by
      intro id' d' ht
      rw [task?_park] at ht
      split at ht
      case isTrue hid =>
        cases ht
        exact ⟨hid.symm, rfl⟩
      case isFalse hid => exact absurd (hmine ht).symm hid
    refine ⟨fun ht ht' => (hcases ht).1.trans (hcases ht').1.symm, fun ht => ?_⟩
    exact ⟨⟨run, allows_iff.1 hin, (hcases ht).2⟩, hempty, Bool.eq_false_iff.2 hquiet⟩

theorem Yields.alert {o : Option Duty} (hy : Yields e id o e') (h : e.Alert)
    (hne : ∀ {d'}, e.task? id ≠ some ⟨d', .entry⟩) (hr : e'.roster.Orderly) : e'.Alert := by
  cases hy with
  | finish =>
    refine h.of_less (fun {id' d'} ht => ?_) (fun _ _ hp => hp) (fun h => h) rfl
    rw [task?_finish] at ht
    split at ht
    · cases ht
    · exact ht
  | park d hw => exact h.park d (by rintro rfl; cases hw <;> contradiction)
  | proceed d => exact h.proceed hne d
  | sleep d due =>
    unfold Engine.sleep
    split
    · exact h.proceed hne d
    · have hpark : (e.park id d (.alarm due e.turn)).Alert := h.park d nofun
      exact ⟨hpark.only, hpark.waits⟩
  | listen hin hempty => exact h.listen hne hin hempty hr

theorem Turn.alert {o : Option Duty} {heir : Option TaskId} (ht : Turn tells e id o heir e')
    (h : e.Alert) (hk : e.Known) (hready : e.ready? id = some d) (hr : e'.roster.Orderly) :
    e'.Alert := by
  cases ht with
  | yields hc hy => exact hy.alert (hc.alert h) (hc.grows.not_waits hk hready nofun) hr
  | @hands e₁ hcrew hqueue next d' =>
    have hc : Changes tells e e₁ := .same hcrew hqueue
    have hwoken : ∀ {id d}, (e₁.wake next).task? id = some ⟨d, .entry⟩ →
        e₁.task? id = some ⟨d, .entry⟩ := by
      intro id' d₁ ht
      by_cases hid : next = id'
      · subst hid
        obtain ⟨n, hn⟩ := awake_of_wake ht
        cases hn
      · rwa [task?_wake_of_ne _ _ hid] at ht
    refine Alert.proceed ?_ (fun ht =>
      hc.grows.not_waits hk hready (w := .entry) nofun (hwoken ht)) d'
    refine (hc.alert h).of_less hwoken (fun _ _ hp => ?_) (fun hempty => ?_) (wake_signal _ _)
    · rw [permits_of_frame (e₁.wake_frame next)]
      exact hp
    · rw [wake_queue, hempty]

/-! ## Runs -/

theorem Alert.elapse (h : e.Alert) (now : Nat) : (e.elapse now).Alert :=
  h.of_less (fun ht => waits_of_nudged (e.nudged_elapse now _) nofun ht) (fun _ _ hp => hp) (fun h => h) rfl

/-- A move loses no wake-up. -/
theorem Alert.move (h : e.Alert) (hr : e.roster.Orderly) (m : Move) : (e.move m).Alert := by
  cases m with
  | pass | plan => exact ⟨h.only, h.waits⟩
  | elapse now => exact h.elapse now
  | obey c =>
    by_cases hc : ∃ l, c = .lookup l
    · obtain ⟨l, rfl⟩ := hc
      show (e.spawn (.consult l)).Alert
      refine h.of_less (fun {id d} ht => ?_) (fun _ _ hp => hp) (fun h => h) rfl
      rw [task?_spawn] at ht
      split at ht
      · cases ht
      · exact ht
    · refine (obey_changes e (not_exists.1 hc)).alert ?_
      exact ⟨h.only, h.waits⟩
  | act id =>
    cases hready : e.ready? id with
    | none =>
      rw [move_of_not_ready hready]
      exact h
    | some d =>
      have hr' := (move_evolves hr (.act id)).orderly hr
      rw [move_of_ready hready] at hr' ⊢
      exact (perform_turn e id d).alert h (known_of_orderly hr) hready hr'

/-- No wake-up is lost in any run. -/
theorem follow_alert (settings : EngineSettings) (service : Service) (observer : Option Observer)
    (script : Script) (ms : List Move) :
    ((start settings service observer script).follow ms).Alert :=
  orderly_induction (fun _ m hr h => h.move hr m) (.of_none nofun) (start_orderly ..) ms

end Engine

end HeatWatch
