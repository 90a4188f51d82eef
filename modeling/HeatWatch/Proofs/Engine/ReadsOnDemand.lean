import HeatWatch.Proofs.Engine.Supply
import HeatWatch.Proofs.Queue.Demands
import HeatWatch.Proofs.Request.Reads

/-!
# Reads on demand

The host asks for parameters of a system. They are read in groups, one request each, and the requests
take the slots of the queue that are free. Main statements:

* `demandAll_eq`: the requests are offered to the queue one after the other;
* `reads_take_free_slots`: which of them the queue takes, where they stand, and what the host is told.
-/

namespace HeatWatch.Engine

/-- Requests on demand are offered to the queue one after the other; the host is told whether it took
all of them. -/
theorem demandAll_eq (e : Engine) (rs : List Request) :
    (e.demandAll rs).1 = (e.queue.run (Queue.demanding rs)).1.all (·.entered.isSome) ∧
      (e.demandAll rs).2.queue = (e.queue.run (Queue.demanding rs)).2 := by
  refine ⟨?_, e.demandAll_queue rs⟩
  have hfold : ∀ (rs : List Request) (all : Bool) (e : Engine),
      (rs.foldl (fun told r => (told.1 && (told.2.demand r).1, (told.2.demand r).2)) (all, e)).1 =
      (all && (e.queue.run (Queue.demanding rs)).1.all (·.entered.isSome)) := by
    intro rs
    induction rs with
    | nil => exact fun all e => (Bool.and_true all).symm
    | cons r rs ih =>
      intro all e
      have hentered : ((e.queue.push r none .head).answer
          (e.queue.entryFor r none .head)).entered.isSome =
          (e.queue.push r none .head).accepted := by
        unfold Queue.Insertion.answer
        cases (e.queue.push r none .head).accepted <;> rfl
      show (rs.foldl _ (all && (e.queue.push r none .head).accepted,
        e.inserted (e.queue.push r none .head))).1 =
        (all && (((e.queue.push r none .head).answer
          (e.queue.entryFor r none .head)).entered.isSome &&
            ((e.queue.push r none .head).queue.run (Queue.demanding rs)).1.all
              (·.entered.isSome)))
      rw [ih, inserted_queue, hentered, Bool.and_assoc]
  exact hfold rs true e

/-- Parameters are read in consecutive groups of 15, one request for each, which names just the
parameters of its group. Whatever the queue holds, the requests are offered to it in order. It takes
the first ones, as many as it has free slots, and puts them between its urgent entries and its
periodic ones. The host is told whether it took all of them; if it did not, there is no free slot
left. -/
theorem reads_take_free_slots (e : Engine) (capacity margin : Nat) (ops : List Queue.Op)
    (id : SystemId) (ps : List ParameterId) :
    let queue := ((Queue.empty capacity margin).run ops).2
    let reads := Request.readParameters id ps
    (reads.length = (ps.length + 14) / 15 ∧
      ∀ k < reads.length, ∃ r, reads[k]? = some r ∧
        r = .getParameters id ((ps.drop (15 * k)).take 15) ∧
        ∀ p, p ∈ r.parameterIds ↔ p ∈ (ps.drop (15 * k)).take 15) ∧
      ∃ all e', { e with queue }.obey (.requestParameters id ps) = (some all, e') ∧
        queue.Admits reads e'.queue all := by
  intro queue reads
  have hlength : reads.length = (ps.length + 14) / 15 :=
    (List.length_map _).trans (Request.length_chunks ps)
  refine ⟨⟨hlength, fun k hk => ?_⟩, _, _, rfl, ?_⟩
  · have hgroup : (Request.chunks ps)[k]? = some ((ps.drop (15 * k)).take 15) := by
      rw [Request.getElem?_chunks, if_pos (by omega)]
    refine ⟨_, ?_, rfl, fun p => Request.mem_parameterIds⟩
    exact List.getElem?_map.trans (congrArg (Option.map (Request.getParameters id)) hgroup)
  · obtain ⟨hall, hqueue⟩ := demandAll_eq { e with queue } reads
    have hlanes : Queue.Refines queue ((Queue.Lanes.empty capacity).run ops).2 :=
      (Queue.run_refines (Queue.refines_empty capacity margin) ops).2
    rw [hqueue, hall]
    exact hlanes.admits reads

end HeatWatch.Engine
