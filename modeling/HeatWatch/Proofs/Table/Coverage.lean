import HeatWatch.Proofs.Request.Reads
import HeatWatch.Proofs.Table.Queries

/-!
# What the standard poll asks for

The table is read twice for a poll: for the systems that have a listener, and for the parameters of
each of them. Main statement: `standard_poll_covers`, the requests of the poll.
-/

namespace HeatWatch

namespace Polling

theorem target?_of_mem_standard {t : SystemTable} {r : Request} (h : r ∈ standard t) :
    ∃ id ∈ t.listened, r.target? = some id := by
  obtain ⟨id, hid, hr⟩ := List.mem_flatMap.1 h
  refine ⟨id, hid, ?_⟩
  rcases List.mem_cons.1 hr with rfl | hr
  · rfl
  rcases List.mem_cons.1 hr with rfl | hr
  · rfl
  obtain ⟨group, -, rfl⟩ := List.mem_map.1 hr
  rfl

/-- The standard poll asks for the record and the status of each system that has a listener, in the
order of the systems, and reads its parameters in as few requests as there can be, none of which
names more than fifteen of them or none, and no two of which the same. It asks for nothing of a
system that has no listener. -/
theorem standard_poll_covers (t : SystemTable) :
    (∃ reads : SystemId → List Request,
      standard t = t.listened.flatMap (fun id => .getSystem id :: .getStatus id :: reads id) ∧
        ∀ id, Request.Divided id (t.tracked id) (reads id)) ∧
      t.listened.Pairwise (fun a b => rank a < rank b) ∧
      (∀ id, id ∈ t.listened ↔ (t.listener? id).isSome = true) ∧
      (∀ id, (t.tracked id).Pairwise fun p q => rank p < rank q) ∧
      ∀ r ∈ standard t, ∃ id, r.target? = some id ∧ (t.listener? id).isSome = true := by
  refine ⟨⟨fun id => Request.readParameters id (t.tracked id), rfl, fun id => ?_⟩,
    t.listened_ascending, fun id => SystemTable.mem_listened, t.tracked_ascending, fun r hr => ?_⟩
  · exact Request.divided_readParameters id (t.tracked_nodup id)
  · obtain ⟨id, hid, htarget⟩ := target?_of_mem_standard hr
    exact ⟨id, htarget, SystemTable.mem_listened.1 hid⟩

end Polling

end HeatWatch
