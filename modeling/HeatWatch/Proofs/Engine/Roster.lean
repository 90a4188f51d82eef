import HeatWatch.Proofs.Engine.Frame

/-!
# Who is to be at work

What each task is there for, and which permits are not withdrawn: the roster of an engine. A phase
says which posts are to be filled. Main statements:

* `Reform.orderly`: a change of the phase that withdraws permits, issues new ones and hires for them
  leaves each post with at most one task, and no task that may go on without a post;
* `Reform.manned`, `Manned.quit`: no post that is to be filled becomes vacant;
* `Evolves.orderly`, `Evolves.manned`, `Evolves.later`: what holds after any such changes;
* `Evolves.staff`, `Evolves.newcomer`: posts and permits stay together.
-/

namespace HeatWatch

/-- What a task is there for. -/
inductive Post where
  /-- To take requests from the queue, one after the other. -/
  | taker (run : Permit)
  /-- To put periodic requests into the queue. -/
  | poller (permit : Permit) (poll : Poll) (period : Nat)
  /-- To probe the service during an outage. -/
  | prober (outage : Permit)
  /-- To serve a caller. -/
  | caller
  deriving DecidableEq

/-- The permit under which a post is held. -/
def Post.permit? : Post → Option Permit
  | .taker p | .poller p _ _ | .prober p => some p
  | .caller => none

/-- What an exchange is for is known from whoever makes it. -/
def Purpose.post : Purpose → Post
  | .entry run _ => .taker run
  | .probe outage _ => .prober outage
  | .lookup _ => .caller

/-- What a task at a point is there for. -/
def Duty.post : Duty → Post
  | .take run => .taker run
  | .startPoll permit p _ period => .poller permit p period
  | .poll permit p period _ => .poller permit p period
  | .startProbe outage | .probe outage _ => .prober outage
  | .consult _ | .route _ | .submit _ | .await _ => .caller
  | .exchange p _ | .conclude p _ => p.post

/-- The permits that are in force in a phase. -/
def Phase.permits : Phase → List Permit
  | .dormant => []
  | .active run => run.permits
  | .outage probe => [probe]

/-- The standard poll, unless it is switched off. -/
def EngineSettings.standardPosts (s : EngineSettings) (p : Permit) : List Post :=
  if s.updateInterval = 0 then [] else [.poller p .standard s.updateInterval]

/-- The software check, unless it is switched off. -/
def EngineSettings.softwarePosts (s : EngineSettings) (p : Permit) : List Post :=
  if s.softwareDays ≤ 0 then [] else [.poller p .software (s.softwareDays.toNat * day)]

/-- The posts that are to be filled in a phase. -/
def Phase.staff (s : EngineSettings) : Phase → List Post
  | .dormant => []
  | .active run =>
    .taker run.root :: (s.standardPosts run.standard ++ (s.softwarePosts run.software ++
      [.poller run.root .thermostats s.heartbeatInterval,
        .poller run.root .modes s.heartbeatInterval]))
  | .outage probe => [.prober probe]

/-- The tasks by their posts, and the permits that are not withdrawn. -/
structure Roster where
  settings : EngineSettings
  phase : Phase
  permits : List Permit
  nextPermit : Permit
  nextTask : TaskId
  post : TaskId → Option Post

namespace Roster

/-- The posts that are to be filled. -/
def staff (r : Roster) : List Post := r.phase.staff r.settings

/-- Starts a task. -/
def hire (r : Roster) (w : Post) : Roster :=
  { r with
    nextTask := r.nextTask + 1
    post := fun id => if r.nextTask = id then some w else r.post id }

/-- Starts tasks one after the other. -/
def hireAll (r : Roster) (ws : List Post) : Roster := ws.foldl hire r

/-- Ends a task. -/
def quit (r : Roster) (id : TaskId) : Roster :=
  { r with post := fun id' => if id = id' then none else r.post id' }

/-- Issues a permit. -/
def issue (r : Roster) : Roster :=
  { r with permits := r.nextPermit :: r.permits, nextPermit := r.nextPermit + 1 }

/-- Goes over to a phase. -/
def enter (r : Roster) (phase : Phase) : Roster := { r with phase }

/-- Withdraws permits. -/
def withdraw (r : Roster) (ps : List Permit) : Roster :=
  { r with permits := r.permits.filter fun p => !ps.contains p }

/-- The permits issued after the ones so far, the latest first. -/
def issues (r : Roster) (fresh : Nat) : List Permit := (List.range' r.nextPermit fresh).reverse

/-- Changes the settings and the phase: withdraws permits, issues new ones, and starts tasks. -/
def reform (r : Roster) (s : EngineSettings) (phase : Phase) (gone : List Permit) (fresh : Nat)
    (ws : List Post) : Roster :=
  hireAll
    { r with
      settings := s
      phase := phase
      permits := r.issues fresh ++ r.permits.filter fun p => !gone.contains p
      nextPermit := r.nextPermit + fresh } ws

/-- The run that is started next. -/
def nextRun (r : Roster) : Run := ⟨r.nextPermit, r.nextPermit + 1, r.nextPermit + 2⟩

/-- Starts a run after permits are withdrawn. -/
def startRun (r : Roster) (gone : List Permit) : Roster :=
  r.reform r.settings (.active r.nextRun) gone 3 (Phase.staff r.settings (.active r.nextRun))

/-- The tasks at work are the ones that the phase asks for, each once. -/
structure Orderly (r : Roster) : Prop where
  /-- The permits in force are the ones of the phase. -/
  permits : ∀ p, p ∈ r.permits ↔ p ∈ r.phase.permits
  distinct : r.phase.permits.Nodup
  issued : ∀ p ∈ r.permits, p < r.nextPermit
  known : ∀ id, r.nextTask ≤ id → r.post id = none
  sworn : ∀ {id w p}, r.post id = some w → w.permit? = some p → p < r.nextPermit
  /-- Whoever may go on has a post that is to be filled. -/
  only : ∀ {id w p}, r.post id = some w → w.permit? = some p → p ∈ r.permits → w ∈ r.staff
  /-- No post is filled twice. -/
  once : ∀ {id id' w p}, r.post id = some w → r.post id' = some w → w.permit? = some p →
    p ∈ r.permits → id = id'

/-- The task of a post may end: no permit keeps it there, or it has nothing to do. -/
def MayQuit (r : Roster) : Post → Prop
  | .caller => True
  | .taker p => p ∉ r.permits
  | .poller p _ period => p ∉ r.permits ∨ period = 0
  | .prober p => p ∉ r.permits ∨ r.settings.aliveInterval = 0

/-- Each post that is to be filled is filled, unless its task had nothing to do. -/
def Manned (r : Roster) : Prop := ∀ w ∈ r.staff, ¬ r.MayQuit w → ∃ id, r.post id = some w

/-! ## Hiring -/

variable (r : Roster) (ws : List Post)

@[simp] theorem hireAll_settings : (r.hireAll ws).settings = r.settings := by
  induction ws generalizing r with
  | nil => rfl
  | cons w ws ih => exact ih (r.hire w)

@[simp] theorem hireAll_phase : (r.hireAll ws).phase = r.phase := by
  induction ws generalizing r with
  | nil => rfl
  | cons w ws ih => exact ih (r.hire w)

@[simp] theorem hireAll_permits : (r.hireAll ws).permits = r.permits := by
  induction ws generalizing r with
  | nil => rfl
  | cons w ws ih => exact ih (r.hire w)

@[simp] theorem hireAll_nextPermit : (r.hireAll ws).nextPermit = r.nextPermit := by
  induction ws generalizing r with
  | nil => rfl
  | cons w ws ih => exact ih (r.hire w)

@[simp] theorem hireAll_nextTask : (r.hireAll ws).nextTask = r.nextTask + ws.length := by
  induction ws generalizing r with
  | nil => rfl
  | cons w ws ih =>
    rw [List.length_cons, Nat.add_comm ws.length 1, ← Nat.add_assoc]
    exact ih (r.hire w)

theorem hireAll_post_of_lt {id : TaskId} (h : id < r.nextTask) :
    (r.hireAll ws).post id = r.post id := by
  induction ws generalizing r with
  | nil => rfl
  | cons w ws ih =>
    refine (ih (r.hire w) (Nat.lt_succ_of_lt h)).trans ?_
    exact if_neg (Nat.ne_of_gt h)

/-- The tasks that are new hold the new posts in order. -/
theorem hireAll_post_of_le (hr : ∀ id, r.nextTask ≤ id → r.post id = none) {id : TaskId}
    (h : r.nextTask ≤ id) : (r.hireAll ws).post id = ws[id - r.nextTask]? := by
  induction ws generalizing r with
  | nil => exact hr id h
  | cons w ws ih =>
    -- the first of the new tasks holds the first of the new posts
    rcases Nat.eq_or_lt_of_le h with rfl | hlt
    · refine ((r.hire w).hireAll_post_of_lt ws (Nat.lt_succ_self _)).trans ?_
      rw [Nat.sub_self]
      exact if_pos rfl
    · have hnone : ∀ id, (r.hire w).nextTask ≤ id → (r.hire w).post id = none := by
        intro id hid
        refine (if_neg ?_).trans (hr id (Nat.le_of_succ_le hid))
        exact Nat.ne_of_lt hid
      refine (ih (r.hire w) hnone hlt).trans ?_
      rw [← Nat.succ_pred_eq_of_pos (Nat.sub_pos_of_lt hlt)]
      rfl

theorem hireAll_append (ws' : List Post) :
    r.hireAll (ws ++ ws') = (r.hireAll ws).hireAll ws' := List.foldl_append

/-- It does not matter whether permits are issued before others are hired or afterwards. -/
theorem issue_hireAll : (r.hireAll ws).issue = r.issue.hireAll ws := by
  induction ws generalizing r with
  | nil => rfl
  | cons w ws ih => exact ih (r.hire w)

theorem enter_hireAll (phase : Phase) :
    (r.hireAll ws).enter phase = (r.enter phase).hireAll ws := by
  induction ws generalizing r with
  | nil => rfl
  | cons w ws ih => exact ih (r.hire w)

/-! ## Changes of the phase -/

/-- What a change has to respect: the permits of the new phase are the ones that stay and the new
ones, and its posts are the ones that stay and the ones that are hired for, under new permits. -/
structure Reform (r : Roster) (s : EngineSettings) (phase : Phase) (gone : List Permit)
    (fresh : Nat) (ws : List Post) : Prop where
  heartbeat : s.heartbeatInterval = r.settings.heartbeatInterval
  alive : s.aliveInterval = r.settings.aliveInterval
  permits : ∀ p, p ∈ phase.permits ↔
    (p ∈ r.permits ∧ p ∉ gone) ∨ (r.nextPermit ≤ p ∧ p < r.nextPermit + fresh)
  distinct : phase.permits.Nodup
  staff : ∀ w, w ∈ phase.staff s ↔ w ∈ ws ∨ (w ∈ r.staff ∧ ∀ p, w.permit? = some p → p ∉ gone)
  nodup : ws.Nodup
  fresh : ∀ w ∈ ws, ∃ p, w.permit? = some p ∧ r.nextPermit ≤ p ∧ p < r.nextPermit + fresh

variable {r ws} {s : EngineSettings} {phase : Phase} {gone : List Permit} {fresh : Nat}

theorem mem_reform_permits {p : Permit} : p ∈ (r.reform s phase gone fresh ws).permits ↔
    (p ∈ r.permits ∧ p ∉ gone) ∨ (r.nextPermit ≤ p ∧ p < r.nextPermit + fresh) := by
  unfold reform issues
  rw [hireAll_permits, List.mem_append, List.mem_reverse, List.mem_range'_1, List.mem_filter,
    Bool.not_eq_true', List.contains_eq_mem, decide_eq_false_iff_not, Or.comm]

theorem reform_post_of_lt {id : TaskId} (h : id < r.nextTask) :
    (r.reform s phase gone fresh ws).post id = r.post id := hireAll_post_of_lt _ ws h

theorem reform_post_of_le (hr : r.Orderly) {id : TaskId} (h : r.nextTask ≤ id) :
    (r.reform s phase gone fresh ws).post id = ws[id - r.nextTask]? := by
  refine hireAll_post_of_le _ ws ?_ h
  exact hr.known

@[simp] theorem reform_staff : (r.reform s phase gone fresh ws).staff = phase.staff s := by
  unfold reform Roster.staff
  rw [hireAll_phase, hireAll_settings]

/-- A task of the new roster was there before, or holds one of the new posts. -/
theorem reform_post (hr : r.Orderly) {id : TaskId} {w : Post}
    (h : (r.reform s phase gone fresh ws).post id = some w) :
    (id < r.nextTask ∧ r.post id = some w) ∨
      (r.nextTask ≤ id ∧ ws[id - r.nextTask]? = some w) := by
  rcases Nat.lt_or_ge id r.nextTask with hlt | hge
  · exact .inl ⟨hlt, (reform_post_of_lt hlt).symm.trans h⟩
  · exact .inr ⟨hge, (reform_post_of_le hr hge).symm.trans h⟩

/-- No post under a permit that only one task held is held by two. -/
theorem Reform.single (h : Reform r s phase gone fresh ws) (hr : r.Orderly) {id id' : TaskId}
    {w : Post} {p : Permit} (hold : r.post id = some w → r.post id' = some w → id = id')
    (hw : (r.reform s phase gone fresh ws).post id = some w)
    (hw' : (r.reform s phase gone fresh ws).post id' = some w) (hp : w.permit? = some p) :
    id = id' := by
  rcases reform_post hr hw with ⟨-, hpost⟩ | ⟨hge, hnew⟩ <;>
    rcases reform_post hr hw' with ⟨-, hpost'⟩ | ⟨hge', hnew'⟩
  · exact hold hpost hpost'
  -- an old task and a new one hold posts under different permits
  · obtain ⟨p', hp', hge, -⟩ := h.fresh w (List.mem_of_getElem? hnew')
    obtain rfl := Option.some.inj (hp.symm.trans hp')
    exact absurd (hr.sworn hpost hp) (Nat.not_lt.2 hge)
  · obtain ⟨p', hp', hge, -⟩ := h.fresh w (List.mem_of_getElem? hnew)
    obtain rfl := Option.some.inj (hp.symm.trans hp')
    exact absurd (hr.sworn hpost' hp) (Nat.not_lt.2 hge)
  -- no new post is given twice
  · obtain ⟨hlt, hget⟩ := List.getElem?_eq_some_iff.1 hnew
    have hsub := (List.getElem?_inj hlt h.nodup).1 (hnew.trans hnew'.symm)
    rw [← Nat.sub_add_cancel hge, ← Nat.sub_add_cancel hge', hsub]

theorem Reform.orderly (h : Reform r s phase gone fresh ws) (hr : r.Orderly) :
    (r.reform s phase gone fresh ws).Orderly where
  permits p := by
    rw [mem_reform_permits, ← h.permits p]
    unfold reform
    rw [hireAll_phase]
  distinct := by
    unfold reform
    rw [hireAll_phase]
    exact h.distinct
  issued p hp := by
    unfold reform
    rw [hireAll_nextPermit]
    rcases mem_reform_permits.1 hp with ⟨hold, -⟩ | ⟨-, hnew⟩
    · exact Nat.lt_add_right fresh (hr.issued p hold)
    · exact hnew
  known id hid := by
    unfold reform at hid
    rw [hireAll_nextTask] at hid
    rw [reform_post_of_le hr (Nat.le_of_add_right_le hid)]
    exact List.getElem?_eq_none (Nat.le_sub_of_add_le' hid)
  sworn {id w p} hw hp := by
    unfold reform
    rw [hireAll_nextPermit]
    rcases reform_post hr hw with ⟨-, hold⟩ | ⟨-, hnew⟩
    · exact Nat.lt_add_right fresh (hr.sworn hold hp)
    · obtain ⟨p', hp', -, hlt⟩ := h.fresh w (List.mem_of_getElem? hnew)
      obtain rfl := Option.some.inj (hp.symm.trans hp')
      exact hlt
  only {id w p} hw hp hin := by
    rw [reform_staff, h.staff]
    rcases reform_post hr hw with ⟨-, hold⟩ | ⟨-, hnew⟩
    · -- an old task has an old permit, so it is one that stays
      have hlt := hr.sworn hold hp
      rcases mem_reform_permits.1 hin with ⟨hin, hstay⟩ | ⟨hge, -⟩
      · refine .inr ⟨hr.only hold hp hin, fun p' hp' => ?_⟩
        obtain rfl := Option.some.inj (hp.symm.trans hp')
        exact hstay
      · exact absurd hlt (Nat.not_lt.2 hge)
    · exact .inl (List.mem_of_getElem? hnew)
  once {id id' w p} hw hw' hp hin := by
    refine h.single hr (fun hold hold' => ?_) hw hw' hp
    rcases mem_reform_permits.1 hin with ⟨hin, -⟩ | ⟨hge, -⟩
    · exact hr.once hold hold' hp hin
    · exact absurd (hr.sworn hold hp) (Nat.not_lt.2 hge)

theorem withdraw_nil (r : Roster) : r.withdraw [] = r := by
  have hfilter : (r.permits.filter fun p => !([] : List Permit).contains p) = r.permits :=
    List.filter_eq_self.2 fun _ _ => rfl
  unfold withdraw
  rw [hfilter]

/-- Permits can be withdrawn before the change. -/
theorem reform_withdraw : (r.withdraw gone).reform s phase [] fresh ws =
    r.reform s phase gone fresh ws := by
  have hperm := congrArg Roster.permits (r.withdraw gone).withdraw_nil
  unfold Roster.reform
  rw [show ((r.withdraw gone).permits.filter fun p => !([] : List Permit).contains p) = _ from hperm]
  rfl

theorem startRun_withdraw : (r.withdraw gone).startRun [] = r.startRun gone := reform_withdraw

theorem standardPosts_nodup (s : EngineSettings) (p : Permit) : (s.standardPosts p).Nodup := by
  unfold EngineSettings.standardPosts
  split
  · exact List.nodup_nil
  · simp

theorem softwarePosts_nodup (s : EngineSettings) (p : Permit) : (s.softwarePosts p).Nodup := by
  unfold EngineSettings.softwarePosts
  split
  · exact List.nodup_nil
  · simp

theorem mem_standardPosts {s : EngineSettings} {p : Permit} {w : Post} :
    w ∈ s.standardPosts p ↔ s.updateInterval ≠ 0 ∧ w = .poller p .standard s.updateInterval := by
  unfold EngineSettings.standardPosts
  split <;> simp_all

theorem mem_softwarePosts {s : EngineSettings} {p : Permit} {w : Post} :
    w ∈ s.softwarePosts p ↔
      0 < s.softwareDays ∧ w = .poller p .software (s.softwareDays.toNat * day) := by
  unfold EngineSettings.softwarePosts
  split
  case isTrue h => simp [Int.not_lt.2 h]
  case isFalse h => simp [Int.not_le.1 h]

theorem mem_staff_active {s : EngineSettings} {run : Run} {w : Post} :
    w ∈ Phase.staff s (.active run) ↔ w = .taker run.root ∨ w ∈ s.standardPosts run.standard ∨
      w ∈ s.softwarePosts run.software ∨ w = .poller run.root .thermostats s.heartbeatInterval ∨
      w = .poller run.root .modes s.heartbeatInterval := by
  unfold Phase.staff
  simp only [List.mem_cons, List.mem_append, List.not_mem_nil, or_false]

theorem staff_nodup (s : EngineSettings) (phase : Phase) : (phase.staff s).Nodup := by
  cases phase with
  | dormant => exact List.nodup_nil
  | outage p => exact List.nodup_cons.2 ⟨List.not_mem_nil, List.nodup_nil⟩
  | active run =>
    unfold Phase.staff
    -- the posts differ in what is polled, but for the one that polls nothing
    rw [List.nodup_cons, List.nodup_append, List.nodup_append]
    simp only [List.mem_append, mem_standardPosts, mem_softwarePosts, List.mem_cons,
      List.not_mem_nil, or_false]
    refine ⟨?_, standardPosts_nodup s _, ⟨softwarePosts_nodup s _, by simp, ?_⟩, ?_⟩
    · rintro (⟨-, h⟩ | ⟨-, h⟩ | h | h) <;> cases h
    · rintro _ ⟨-, rfl⟩ _ (rfl | rfl) <;> simp
    · rintro _ ⟨-, rfl⟩ _ (⟨-, rfl⟩ | rfl | rfl) <;> simp

/-- A post that is to be filled is under a permit of its phase. -/
theorem permit_of_mem_staff {s : EngineSettings} {phase : Phase} {w : Post}
    (h : w ∈ phase.staff s) : ∃ p ∈ phase.permits, w.permit? = some p := by
  cases phase with
  | dormant => cases h
  | outage p => exact ⟨p, List.mem_singleton_self p, List.mem_singleton.1 h ▸ rfl⟩
  | active run =>
    unfold Phase.permits Run.permits
    rcases mem_staff_active.1 h with rfl | h | h | rfl | rfl
    · exact ⟨run.root, by simp, rfl⟩
    · exact ⟨run.standard, by simp, (mem_standardPosts.1 h).2 ▸ rfl⟩
    · exact ⟨run.software, by simp, (mem_softwarePosts.1 h).2 ▸ rfl⟩
    · exact ⟨run.root, by simp, rfl⟩
    · exact ⟨run.root, by simp, rfl⟩

/-- A poll that is to be made has a period. -/
theorem period_pos_of_mem_staff {s : EngineSettings} {phase : Phase}
    (hs : 0 < s.heartbeatInterval) {p : Permit} {poll : Poll} {period : Nat}
    (h : .poller p poll period ∈ phase.staff s) : 0 < period := by
  cases phase with
  | dormant => cases h
  | outage p => cases List.mem_singleton.1 h
  | active run =>
    rcases mem_staff_active.1 h with h | h | h | h | h
    · cases h
    · obtain ⟨hne, heq⟩ := mem_standardPosts.1 h
      cases heq
      exact Nat.pos_of_ne_zero hne
    · obtain ⟨hpos, heq⟩ := mem_softwarePosts.1 h
      cases heq
      exact Nat.mul_pos (Int.pos_iff_toNat_pos.1 hpos) (by decide)
    · cases h
      exact hs
    · cases h
      exact hs

/-- A post of the phase has a permit, so its task ends only if it has nothing to do. -/
theorem Orderly.mayQuit (hr : r.Orderly) {w : Post} (hw : w ∈ r.staff) (hq : r.MayQuit w) :
    (∃ p poll, w = .poller p poll 0) ∨ r.settings.aliveInterval = 0 ∧ ∃ p, w = .prober p := by
  obtain ⟨p, hp, hpermit⟩ := permit_of_mem_staff hw
  have hin : p ∈ r.permits := (hr.permits p).2 hp
  cases w with
  | caller => cases hpermit
  | taker run =>
    obtain rfl := Option.some.inj hpermit
    exact absurd hin hq
  | poller permit poll period =>
    obtain rfl := Option.some.inj hpermit
    obtain rfl := hq.resolve_left (not_not_intro hin)
    exact .inl ⟨permit, poll, rfl⟩
  | prober outage =>
    obtain rfl := Option.some.inj hpermit
    exact .inr ⟨hq.resolve_left (not_not_intro hin), outage, rfl⟩

/-- Who stays keeps its post, and each of the new posts has a new task. -/
theorem Reform.manned (h : Reform r s phase gone fresh ws) (hr : r.Orderly) (hm : r.Manned) :
    (r.reform s phase gone fresh ws).Manned := by
  intro w hw hkeep
  rw [reform_staff] at hw
  rcases (h.staff w).1 hw with hnew | ⟨hold, -⟩
  · obtain ⟨i, hi⟩ := List.mem_iff_getElem?.1 hnew
    refine ⟨r.nextTask + i, ?_⟩
    rw [reform_post_of_le hr (Nat.le_add_right _ i), Nat.add_sub_cancel_left]
    exact hi
  · -- a task with nothing to do before has nothing to do afterwards
    have hkeep' : ¬ r.MayQuit w := by
      intro hquit
      rcases hr.mayQuit hold hquit with ⟨p, poll, rfl⟩ | ⟨hzero, p, rfl⟩
      · exact hkeep (.inr rfl)
      · refine hkeep (.inr (Eq.trans ?_ hzero))
        unfold reform
        rw [hireAll_settings]
        exact h.alive
    -- its task was there before, so it keeps the post
    obtain ⟨id, hid⟩ := hm w hold hkeep'
    refine ⟨id, (reform_post_of_lt (Nat.lt_of_not_le fun hge => ?_)).trans hid⟩
    rw [hr.known id hge] at hid
    cases hid

/-- Everything that goes on is ended, and a phase begins with permits of its own. -/
theorem Reform.whole (hr : r.Orderly) (hp : phase.permits = List.range' r.nextPermit fresh) :
    Reform r r.settings phase r.phase.permits fresh (phase.staff r.settings) where
  heartbeat := rfl
  alive := rfl
  permits p := by
    rw [hp, hr.permits, List.mem_range'_1]
    exact ⟨.inr, fun h => h.resolve_left fun h => h.2 h.1⟩
  distinct := hp ▸ List.nodup_range' 1
  staff w := by
    -- every old post is under a permit that is withdrawn
    refine ⟨.inl, fun h => h.resolve_right fun ⟨hold, hstay⟩ => ?_⟩
    obtain ⟨p, hin, hw⟩ := permit_of_mem_staff hold
    exact hstay p hw hin
  nodup := staff_nodup _ _
  fresh w hw := by
    obtain ⟨p, hin, hw⟩ := permit_of_mem_staff hw
    rw [hp, List.mem_range'_1] at hin
    exact ⟨p, hw, hin⟩

/-- The permits of the run that goes on are three. -/
theorem Orderly.run (hr : r.Orderly) {run : Run} (hphase : r.phase = .active run) :
    (run.root ≠ run.standard ∧ run.root ≠ run.software ∧ run.standard ≠ run.software) ∧
      run.root < r.nextPermit ∧ run.standard < r.nextPermit ∧ run.software < r.nextPermit := by
  have hdist := hr.distinct
  have hlt : ∀ p ∈ run.permits, p < r.nextPermit := fun p hp =>
    hr.issued p ((hr.permits p).2 (hphase ▸ hp))
  rw [hphase] at hdist
  simp only [Phase.permits, Run.permits, List.nodup_cons, List.mem_cons, List.not_mem_nil,
    or_false, not_or] at hdist
  refine ⟨⟨hdist.1.1, hdist.1.2, hdist.2.1⟩, hlt _ ?_, hlt _ ?_, hlt _ ?_⟩ <;> simp [Run.permits]

/-- Posts under other permits stay. -/
theorem stays {w : Post} {p q : Permit} (hw : w.permit? = some p) (h : p ≠ q) :
    ∀ p', w.permit? = some p' → p' ∉ [q] := by
  intro p' hp
  rw [← Option.some.inj (hw.symm.trans hp), List.mem_singleton]
  exact h

/-- The standard poll is replaced. -/
theorem Reform.standard (hr : r.Orderly) {run : Run} (hphase : r.phase = .active run)
    (interval : Nat) : Reform r { r.settings with updateInterval := interval }
      (.active { run with standard := r.nextPermit }) [run.standard] 1
      (EngineSettings.standardPosts { r.settings with updateInterval := interval } r.nextPermit) := by
  obtain ⟨⟨hne₁, hne₂, hne₃⟩, hlt₁, hlt₂, hlt₃⟩ := hr.run hphase
  refine ⟨rfl, rfl, fun p => ?_, ?_, fun w => ?_, standardPosts_nodup _ _, fun w hw => ?_⟩
  · rw [hr.permits, hphase]
    simp only [Phase.permits, Run.permits, List.mem_cons, List.not_mem_nil, or_false]
    grind
  · simp only [Phase.permits, Run.permits, List.nodup_cons, List.mem_cons, List.not_mem_nil,
      or_false, List.nodup_nil]
    grind
  · unfold Roster.staff
    rw [hphase, mem_staff_active, mem_staff_active]
    simp only [mem_standardPosts, mem_softwarePosts]
    -- the permits of the other posts are not the one that is withdrawn
    constructor
    · rintro (rfl | h | ⟨h, rfl⟩ | rfl | rfl)
      · exact .inr ⟨.inl rfl, stays rfl hne₁⟩
      · exact .inl h
      · exact .inr ⟨.inr (.inr (.inl ⟨h, rfl⟩)), stays rfl hne₃.symm⟩
      · exact .inr ⟨.inr (.inr (.inr (.inl rfl))), stays rfl hne₁⟩
      · exact .inr ⟨.inr (.inr (.inr (.inr rfl))), stays rfl hne₁⟩
    · rintro (h | ⟨rfl | ⟨-, rfl⟩ | h | h | h, hstay⟩)
      · exact .inr (.inl h)
      · exact .inl rfl
      · exact absurd (List.mem_singleton_self _) (hstay _ rfl)
      · exact .inr (.inr (.inl h))
      · exact .inr (.inr (.inr (.inl h)))
      · exact .inr (.inr (.inr (.inr h)))
  · obtain ⟨-, rfl⟩ := mem_standardPosts.1 hw
    exact ⟨_, rfl, Nat.le_refl _, Nat.lt_succ_self _⟩

/-- The software check is replaced. -/
theorem Reform.software (hr : r.Orderly) {run : Run} (hphase : r.phase = .active run)
    (days : Int) : Reform r { r.settings with softwareDays := days }
      (.active { run with software := r.nextPermit }) [run.software] 1
      (EngineSettings.softwarePosts { r.settings with softwareDays := days } r.nextPermit) := by
  obtain ⟨⟨hne₁, hne₂, hne₃⟩, hlt₁, hlt₂, hlt₃⟩ := hr.run hphase
  refine ⟨rfl, rfl, fun p => ?_, ?_, fun w => ?_, softwarePosts_nodup _ _, fun w hw => ?_⟩
  · rw [hr.permits, hphase]
    simp only [Phase.permits, Run.permits, List.mem_cons, List.not_mem_nil, or_false]
    grind
  · simp only [Phase.permits, Run.permits, List.nodup_cons, List.mem_cons, List.not_mem_nil,
      or_false, List.nodup_nil]
    grind
  · unfold Roster.staff
    rw [hphase, mem_staff_active, mem_staff_active]
    simp only [mem_standardPosts, mem_softwarePosts]
    -- the permits of the other posts are not the one that is withdrawn
    constructor
    · rintro (rfl | ⟨h, rfl⟩ | h | rfl | rfl)
      · exact .inr ⟨.inl rfl, stays rfl hne₂⟩
      · exact .inr ⟨.inr (.inl ⟨h, rfl⟩), stays rfl hne₃⟩
      · exact .inl h
      · exact .inr ⟨.inr (.inr (.inr (.inl rfl))), stays rfl hne₂⟩
      · exact .inr ⟨.inr (.inr (.inr (.inr rfl))), stays rfl hne₂⟩
    · rintro (h | ⟨rfl | h | ⟨-, rfl⟩ | h | h, hstay⟩)
      · exact .inr (.inr (.inl h))
      · exact .inl rfl
      · exact .inr (.inl h)
      · exact absurd (List.mem_singleton_self _) (hstay _ rfl)
      · exact .inr (.inr (.inr (.inl h)))
      · exact .inr (.inr (.inr (.inr h)))
  · obtain ⟨-, rfl⟩ := mem_softwarePosts.1 hw
    exact ⟨_, rfl, Nat.le_refl _, Nat.lt_succ_self _⟩

/-- Outside a run new settings change no poll. -/
theorem Reform.settings (hr : r.Orderly) (hb : s.heartbeatInterval = r.settings.heartbeatInterval)
    (ha : s.aliveInterval = r.settings.aliveInterval) (hphase : r.phase.isActive = false) :
    Reform r s r.phase [] 0 [] := by
  refine ⟨hb, ha, fun p => ?_, hr.distinct, fun w => ?_, List.nodup_nil, fun w hw => ?_⟩
  · rw [hr.permits]
    refine ⟨fun h => .inl ⟨h, List.not_mem_nil⟩, fun h => ?_⟩
    exact (h.resolve_right fun h => Nat.not_lt.2 h.1 h.2).1
  · have hstaff : r.phase.staff s = r.staff := by
      unfold Roster.staff
      cases hp : r.phase with
      | dormant | outage => rfl
      | active run =>
        rw [hp] at hphase
        cases hphase
    rw [hstaff]
    refine ⟨fun h => .inr ⟨h, fun _ _ => List.not_mem_nil⟩, fun h => ?_⟩
    exact (h.resolve_left List.not_mem_nil).1
  · cases hw

/-! ## Other changes -/

/-- Whoever is left was there before. -/
theorem post_of_quit {id id' : TaskId} {w : Post} (hw : (r.quit id).post id' = some w) :
    r.post id' = some w := by
  unfold Roster.quit at hw
  dsimp only at hw
  split at hw
  · cases hw
  · exact hw

/-- A task that is new and holds no permit is none of those that hold one. -/
theorem post_of_hire {id : TaskId} {w w' : Post} {p : Permit} (hw : w.permit? = none)
    (hw' : (r.hire w).post id = some w') (hp : w'.permit? = some p) : r.post id = some w' := by
  unfold Roster.hire at hw'
  dsimp only at hw'
  split at hw'
  · obtain rfl := Option.some.inj hw'
    cases hw.symm.trans hp
  · exact hw'

theorem Orderly.quit (h : r.Orderly) (id : TaskId) : (r.quit id).Orderly := by
  refine ⟨h.permits, h.distinct, h.issued, fun id' hid => ?_, fun hw => h.sworn (post_of_quit hw),
    fun hw => h.only (post_of_quit hw), fun hw hw' => h.once (post_of_quit hw) (post_of_quit hw')⟩
  refine Option.eq_none_iff_forall_ne_some.2 fun w hw => ?_
  cases (h.known id' hid).symm.trans (post_of_quit hw)

theorem Orderly.hire (h : r.Orderly) {w : Post} (hw : w.permit? = none) : (r.hire w).Orderly := by
  refine ⟨h.permits, h.distinct, h.issued, fun id hid => ?_,
    fun hw' hp => h.sworn (post_of_hire hw hw' hp) hp,
    fun hw' hp => h.only (post_of_hire hw hw' hp) hp,
    fun hw' hw'' hp => h.once (post_of_hire hw hw' hp) (post_of_hire hw hw'' hp) hp⟩
  have hne : r.nextTask ≠ id := Nat.ne_of_lt hid
  exact (if_neg hne).trans (h.known id (Nat.le_of_succ_le hid))

theorem Manned.hire (hr : r.Orderly) (hm : r.Manned) (w : Post) : (r.hire w).Manned := by
  intro w' hw' hkeep
  have hsame : (r.hire w).MayQuit w' ↔ r.MayQuit w' := by cases w' <;> rfl
  obtain ⟨id, hid⟩ := hm w' hw' (mt hsame.2 hkeep)
  refine ⟨id, (if_neg fun heq => ?_).trans hid⟩
  rw [hr.known id (Nat.le_of_eq heq)] at hid
  cases hid

/-- Requests are taken from the queue in a run only. -/
theorem phase_of_taker {root : Permit} (h : .taker root ∈ phase.staff s) :
    ∃ run, phase = .active run ∧ run.root = root := by
  cases phase with
  | dormant => cases h
  | outage p => cases List.mem_singleton.1 h
  | active run =>
    refine ⟨run, rfl, ?_⟩
    rw [mem_staff_active, mem_standardPosts, mem_softwarePosts] at h
    rcases h with h | ⟨-, h⟩ | ⟨-, h⟩ | h | h <;> cases h
    rfl

/-- The service is probed in an outage only. -/
theorem phase_of_prober {probe : Permit} (h : .prober probe ∈ phase.staff s) :
    phase = .outage probe := by
  cases phase with
  | dormant => cases h
  | outage p =>
    cases List.mem_singleton.1 h
    rfl
  | active run =>
    rw [mem_staff_active, mem_standardPosts, mem_softwarePosts] at h
    rcases h with h | ⟨-, h⟩ | ⟨-, h⟩ | h | h <;> cases h

/-- A run goes on if the task may that takes from the queue. -/
theorem Orderly.taker (hr : r.Orderly) {id : TaskId} {root : Permit}
    (hw : r.post id = some (.taker root)) (hin : root ∈ r.permits) :
    ∃ run, r.phase = .active run ∧ run.root = root := phase_of_taker (hr.only hw rfl hin)

/-- An outage lasts if the task may go on that probes. -/
theorem Orderly.prober (hr : r.Orderly) {id : TaskId} {probe : Permit}
    (hw : r.post id = some (.prober probe)) (hin : probe ∈ r.permits) :
    r.phase = .outage probe := phase_of_prober (hr.only hw rfl hin)

/-- No task of a post that is to be filled may end while no period is zero. -/
theorem not_mayQuit_of_mem_staff (hr : r.Orderly) (hb : 0 < r.settings.heartbeatInterval)
    (ha : 0 < r.settings.aliveInterval) {w : Post} (h : w ∈ r.staff) : ¬ r.MayQuit w := by
  intro hquit
  rcases hr.mayQuit h hquit with ⟨p, poll, rfl⟩ | ⟨hzero, -⟩
  · exact Nat.lt_irrefl 0 (period_pos_of_mem_staff hb h)
  · exact Nat.ne_of_gt ha hzero

theorem Manned.quit (hm : r.Manned) {id : TaskId} {w : Post} (hw : r.post id = some w)
    (hq : r.MayQuit w) : (r.quit id).Manned := by
  intro w' hw' hkeep
  have hsame : (r.quit id).MayQuit w' ↔ r.MayQuit w' := by cases w' <;> rfl
  -- a post whose task has something to do is not the one that becomes vacant
  have hkeep' : ¬ r.MayQuit w' := mt hsame.2 hkeep
  obtain ⟨id', hid'⟩ := hm w' hw' hkeep'
  refine ⟨id', (if_neg fun heq => ?_).trans hid'⟩
  rw [← heq, hw, Option.some.injEq] at hid'
  exact hkeep' (hid' ▸ hq)

/-! ## All changes -/

/-- What can become of a roster. -/
inductive Evolves : Roster → Roster → Prop
  | refl (r : Roster) : Evolves r r
  | trans {r r' r'' : Roster} : Evolves r r' → Evolves r' r'' → Evolves r r''
  | quit {r : Roster} {id : TaskId} {w : Post} :
      r.post id = some w → r.MayQuit w → Evolves r (r.quit id)
  | call (r : Roster) : Evolves r (r.hire .caller)
  | reform {r : Roster} {s : EngineSettings} {phase : Phase} {gone : List Permit} {fresh : Nat}
      {ws : List Post} : Reform r s phase gone fresh ws → Evolves r (r.reform s phase gone fresh ws)

theorem Evolves.of_eq {r r' : Roster} (h : r' = r) : Evolves r r' := h ▸ .refl r

theorem Evolves.cast {r r' r'' : Roster} (h : r'' = r') (hr : Evolves r r') : Evolves r r'' :=
  h ▸ hr

/-- What is over stays over: no permit comes back, and no task ends more than once or changes its
post. -/
structure Later (r r' : Roster) : Prop where
  nextPermit : r.nextPermit ≤ r'.nextPermit
  nextTask : r.nextTask ≤ r'.nextTask
  withdrawn : ∀ {p}, p < r.nextPermit → p ∉ r.permits → p ∉ r'.permits
  post : ∀ {id}, id < r.nextTask → r'.post id = r.post id ∨ r'.post id = none

theorem Later.refl (r : Roster) : Later r r :=
  ⟨Nat.le_refl _, Nat.le_refl _, fun _ h => h, fun _ => .inl rfl⟩

theorem Later.trans {r r' r'' : Roster} (h : Later r r') (h' : Later r' r'') : Later r r'' where
  nextPermit := Nat.le_trans h.nextPermit h'.nextPermit
  nextTask := Nat.le_trans h.nextTask h'.nextTask
  withdrawn hlt hp := h'.withdrawn (Nat.lt_of_lt_of_le hlt h.nextPermit) (h.withdrawn hlt hp)
  post hlt := by
    rcases h'.post (Nat.lt_of_lt_of_le hlt h.nextTask) with heq | hnone
    · rw [heq]
      exact h.post hlt
    · exact .inr hnone

theorem Evolves.later {r r' : Roster} (h : Evolves r r') : Later r r' := by
  induction h with
  | refl r => exact .refl r
  | trans _ _ ih ih' => exact ih.trans ih'
  | quit =>
    refine ⟨Nat.le_refl _, Nat.le_refl _, fun _ h => h, fun _ => ?_⟩
    unfold Roster.quit
    dsimp only
    split
    · exact .inr rfl
    · exact .inl rfl
  | call r =>
    exact ⟨Nat.le_refl _, Nat.le_succ _, fun _ h => h, fun hlt => .inl (if_neg (Nat.ne_of_gt hlt))⟩
  | reform hf =>
    refine ⟨?_, ?_, fun hlt hp hin => ?_, fun hlt => .inl (reform_post_of_lt hlt)⟩
    · unfold Roster.reform
      rw [hireAll_nextPermit]
      exact Nat.le_add_right _ _
    · unfold Roster.reform
      rw [hireAll_nextTask]
      exact Nat.le_add_right _ _
    · rcases mem_reform_permits.1 hin with ⟨hold, -⟩ | ⟨hge, -⟩
      · exact hp hold
      · exact absurd hlt (Nat.not_lt.2 hge)

/-- A task may end after a change that leaves it nothing to do. -/
theorem Evolves.quit_after {r r' : Roster} (h : Evolves r r') (hr : r.Orderly) {id : TaskId}
    {w : Post} (hw : r.post id = some w) (hq : r'.MayQuit w) : Evolves r (r'.quit id) := by
  have hlt : id < r.nextTask := by
    refine Nat.lt_of_not_le fun hge => ?_
    cases (hr.known id hge).symm.trans hw
  rcases h.later.post hlt with hsame | hnone
  · exact h.trans (.quit (hsame.trans hw) hq)
  -- the change has ended the task already
  · have hgone : r'.quit id = r' := by
      unfold Roster.quit
      congr 1
      funext id'
      split
      case isTrue heq => exact (heq ▸ hnone).symm
      case isFalse => rfl
    exact .cast hgone h

theorem Evolves.settings {r : Roster} (hr : r.Orderly) (hphase : r.phase.isActive = false)
    (s : EngineSettings) (hb : s.heartbeatInterval = r.settings.heartbeatInterval)
    (ha : s.aliveInterval = r.settings.aliveInterval) : Evolves r { r with settings := s } :=
  .cast (withdraw_nil _).symm (.reform (Reform.settings hr hb ha hphase))

theorem Evolves.orderly {r r' : Roster} (h : Evolves r r') (hr : r.Orderly) : r'.Orderly := by
  induction h with
  | refl => exact hr
  | trans _ _ ih ih' => exact ih' (ih hr)
  | quit => exact hr.quit _
  | call => exact hr.hire rfl
  | reform hf => exact hf.orderly hr

theorem Evolves.heartbeat {r r' : Roster} (h : Evolves r r') :
    r'.settings.heartbeatInterval = r.settings.heartbeatInterval := by
  induction h with
  | refl | quit | call => rfl
  | trans _ _ ih ih' => exact ih'.trans ih
  | reform hf =>
    unfold Roster.reform
    rw [hireAll_settings]
    exact hf.heartbeat

theorem Evolves.alive {r r' : Roster} (h : Evolves r r') :
    r'.settings.aliveInterval = r.settings.aliveInterval := by
  induction h with
  | refl | quit | call => rfl
  | trans _ _ ih ih' => exact ih'.trans ih
  | reform hf =>
    unfold Roster.reform
    rw [hireAll_settings]
    exact hf.alive

/-- Every post stays filled whose task has something to do. -/
theorem Evolves.manned {r r' : Roster} (h : Evolves r r') (hr : r.Orderly) (hm : r.Manned) :
    r'.Manned := by
  induction h with
  | refl => exact hm
  | trans h _ ih ih' => exact ih' (h.orderly hr) (ih hr hm)
  | quit hw hq => exact hm.quit hw hq
  | call => exact hm.hire hr .caller
  | reform hf => exact hf.manned hr hm

/-- A post that is to be filled stays one as long as its permit is in force. -/
theorem Evolves.staff {r r' : Roster} (h : Evolves r r') (hr : r.Orderly) {w : Post} {p : Permit}
    (hw : w ∈ r.staff) (hp : w.permit? = some p) (hin : p ∈ r'.permits) : w ∈ r'.staff := by
  have hissued : ∀ {r : Roster}, r.Orderly → w ∈ r.staff → p < r.nextPermit := by
    intro r hr hw
    obtain ⟨p', hp', hpermit⟩ := permit_of_mem_staff hw
    obtain rfl := Option.some.inj (hp.symm.trans hpermit)
    exact hr.issued p ((hr.permits p).2 hp')
  induction h with
  | refl | quit | call => exact hw
  | trans h h' ih ih' =>
    -- a permit that is in force at the end was in force in between
    refine ih' (h.orderly hr) (ih hr hw (Decidable.not_not.1 fun hout => ?_)) hin
    exact h'.later.withdrawn (Nat.lt_of_lt_of_le (hissued hr hw) h.later.nextPermit) hout hin
  | reform hf =>
    rw [reform_staff]
    refine (hf.staff w).2 (.inr ⟨hw, fun p' hp' => ?_⟩)
    obtain rfl := Option.some.inj (hp.symm.trans hp')
    rcases mem_reform_permits.1 hin with ⟨-, hstay⟩ | ⟨hge, -⟩
    · exact hstay
    · exact absurd (hissued hr hw) (Nat.not_lt.2 hge)

/-- A task that is new works under a permit that is new. -/
theorem Evolves.newcomer {r r' : Roster} (h : Evolves r r') (hr : r.Orderly) {id : TaskId} {w : Post}
    {p : Permit} (hid : r.nextTask ≤ id) (hw : r'.post id = some w) (hp : w.permit? = some p) :
    r.nextPermit ≤ p := by
  induction h with
  | refl => cases (hr.known id hid).symm.trans hw
  | @trans r r' r'' h h' ih ih' =>
    -- the task came in the first change or in the second one
    rcases Nat.lt_or_ge id r'.nextTask with hlt | hge
    · rcases h'.later.post hlt with hsame | hnone
      · exact ih hr hid (hsame.symm.trans hw)
      · cases hnone.symm.trans hw
    · exact Nat.le_trans h.later.nextPermit (ih' (h.orderly hr) hge hw)
  | quit =>
    cases ((hr.quit _).known id hid).symm.trans hw
  | call r =>
    have hpost : (if r.nextTask = id then some .caller else r.post id) = some w := hw
    rw [hr.known id hid] at hpost
    split at hpost
    · cases Option.some.inj hpost
      cases hp
    · cases hpost
  | reform hf =>
    rw [reform_post_of_le hr hid] at hw
    obtain ⟨p', hp', hge, -⟩ := hf.fresh w (List.mem_of_getElem? hw)
    obtain rfl := Option.some.inj (hp.symm.trans hp')
    exact hge

/-- No post under a permit is held by two tasks, whether or not the permit is in force. -/
def Single (r : Roster) : Prop := ∀ ⦃id id' w p⦄, r.post id = some w → r.post id' = some w →
  w.permit? = some p → id = id'

theorem Evolves.single {r r' : Roster} (h : Evolves r r') (hr : r.Orderly) (hs : r.Single) :
    r'.Single := by
  induction h with
  | refl => exact hs
  | trans h _ ih ih' => exact ih' (h.orderly hr) (ih hr hs)
  | reform hf =>
    exact fun _ _ _ _ hw hw' hp => hf.single hr (fun hold hold' => hs hold hold' hp) hw hw' hp
  | quit => exact fun _ _ _ _ hw hw' => hs (post_of_quit hw) (post_of_quit hw')
  | call => exact fun _ _ _ _ hw hw' hp => hs (post_of_hire rfl hw hp) (post_of_hire rfl hw' hp) hp

end Roster

end HeatWatch
