import HeatWatch.Proofs.Queue.Kinds
import HeatWatch.Proofs.Queue.Lanes

/-!
# Requests on demand in the queue

Requests on demand for which no caller waits keep the order in which they were put in, but for one that
is put in again: that one is the first. Main statements:

* `push_demands`, `replay_demands`: where such a request is put;
* `run_demands_of_pushes`: while requests are put in, the new ones stand behind the old ones;
* `entered_of_demands`: no two requests of one call have the same number;
* `Refines.admits`: requests that come together take the free slots, and stand together.
-/

namespace HeatWatch

/-- A request on demand for which no caller waits. -/
def Entry.onDemand (x : Entry) : Bool := x.caller.isNone && x.position == .head

theorem Entry.urgent_of_onDemand {x : Entry} (h : x.onDemand = true) : x.urgent = true := by
  unfold onDemand at h
  unfold urgent
  rw [Bool.and_eq_true] at h
  rw [h.2, Bool.or_true]

theorem Entry.caller_of_onDemand {x : Entry} (h : x.onDemand = true) : x.caller = none := by
  unfold onDemand at h
  rw [Bool.and_eq_true] at h
  exact Option.isNone_iff_eq_none.1 h.1

/-- What is put in again is on demand if it was so before. -/
theorem Entry.again_onDemand {x : Entry} (h : x.caller = none) : x.again.onDemand = x.onDemand := by
  unfold onDemand again
  rw [h]

namespace Queue

variable {q : Queue} {l : Lanes} {ops : List Op}

/-- The requests on demand for which no caller waits, in order. -/
def demands (q : Queue) : List Entry := q.entries.filter Entry.onDemand

theorem apply_accepted_le (q : Queue) (op : Op) : q.accepted ≤ (q.apply op).2.accepted := by
  cases op with
  | push r caller p =>
    by_cases hs : q.size < q.capacity
    · exact Nat.le_of_lt ((push_count_of_room hs r caller p).symm ▸ Nat.lt_succ_self _)
    · exact Nat.le_of_eq (congrArg accepted (push_of_full hs r caller p)).symm
  | replay y => exact Nat.le_of_eq (q.replay_count y).symm
  | pop => exact Nat.le_of_eq q.pop_count.symm
  | takeWaiting => exact Nat.le_of_eq q.takeWaiting_count.symm
  | clear => exact Nat.le_of_eq q.clear_count.symm

theorem run_accepted_le (q : Queue) (ops : List Op) : q.accepted ≤ (q.run ops).2.accepted := by
  induction ops generalizing q with
  | nil => exact Nat.le_refl _
  | cons op ops ih => exact Nat.le_trans (q.apply_accepted_le op) (ih _)

/-! ## Calls -/

/-- A new request on demand stands behind all others. -/
theorem push_demands (h : Refines q l) (r : Request) (c : Option Nat) (p : Position) :
    (q.push r c p).queue.demands = q.demands ++
      if q.size < q.capacity ∧ (q.entryFor r c p).onDemand = true then [q.entryFor r c p] else [] := by
  unfold demands
  by_cases hroom : q.size < q.capacity
  · cases p with
    | head =>
      -- nothing on demand stands behind the urgent ones at the front
      have hback : (q.entries.dropWhile (·.urgent)).filter Entry.onDemand = [] := by
        rw [h.dropWhile_urgent, List.filter_eq_nil_iff]
        intro x hx hdemand
        exact Bool.false_ne_true ((h.calm_back x hx).symm.trans (Entry.urgent_of_onDemand hdemand))
      have hsplit : q.entries.filter Entry.onDemand =
          (q.entries.takeWhile (·.urgent)).filter Entry.onDemand := by
        have hparts : q.entries.takeWhile (·.urgent) ++ q.entries.dropWhile (·.urgent) = q.entries :=
          List.takeWhile_append_dropWhile
        rw [← hparts, List.filter_append, hparts, hback, List.append_nil]
      rw [push_head_of_room hroom, List.filter_append, hsplit]
      refine congrArg _ ?_
      by_cases hnew : (q.entryFor r c .head).onDemand = true
      · rw [List.filter_cons_of_pos hnew, hback, if_pos ⟨hroom, hnew⟩]
      · rw [List.filter_cons_of_neg hnew, hback, if_neg fun hin => hnew hin.2]
    | tail =>
      have hnew : ¬ (q.entryFor r c .tail).onDemand = true := by
        unfold entryFor Entry.onDemand
        simp
      rw [push_tail_of_room hroom, List.filter_append, if_neg fun hin => hnew hin.2,
        List.filter_cons_of_neg hnew]
      rfl
  · rw [push_of_full hroom, if_neg fun hin => hroom hin.1, List.append_nil]

/-- What is put in again stands before all others. -/
theorem replay_demands {x : Entry} (hx : x.caller = none) : (q.replay x).queue.demands =
    (if q.size < q.capacity ∧ x.onDemand = true then [x.again] else []) ++ q.demands := by
  unfold demands
  have hagain : x.again.onDemand = x.onDemand := Entry.again_onDemand hx
  by_cases hroom : q.size < q.capacity
  · rw [replay_of_room hroom]
    by_cases hdemand : x.onDemand = true
    · rw [List.filter_cons_of_pos (hagain.trans hdemand), if_pos ⟨hroom, hdemand⟩]
      rfl
    · rw [List.filter_cons_of_neg (hagain ▸ hdemand), if_neg fun hin => hdemand hin.2]
      rfl
  · rw [replay_of_full hroom, if_neg fun hin => hroom hin.1]
    rfl

theorem takeWaiting_demands : q.takeWaiting.2.demands = q.demands := by
  unfold demands
  rw [takeWaiting_entries, List.filter_filter]
  refine List.filter_congr fun x _ => ?_
  -- no caller waits for any of them
  by_cases hdemand : x.onDemand = true
  · rw [hdemand, Entry.caller_of_onDemand hdemand]
    rfl
  · rw [Bool.eq_false_iff.2 hdemand, Bool.false_and]

theorem clear_demands : q.clear.demands = [] := by
  unfold demands
  rw [clear_entries]
  rfl

/-- The first entry of the queue is the first one on demand, if it is one. -/
theorem demands_of_head? {x : Entry} (hx : q.entries.head? = some x) : q.demands =
    (if x.onDemand = true then [x] else []) ++ q.pop.2.demands := by
  obtain ⟨rest, hrest⟩ := List.head?_eq_some_iff.1 hx
  unfold demands
  rw [pop_entries, hrest, List.tail_cons]
  by_cases hdemand : x.onDemand = true
  · rw [List.filter_cons_of_pos hdemand, if_pos hdemand]
    rfl
  · rw [List.filter_cons_of_neg hdemand, if_neg hdemand]
    rfl

theorem pop_demands_sublist : q.pop.2.demands.Sublist q.demands := by
  unfold demands
  rw [pop_entries]
  exact (List.tail_sublist _).filter _

/-! ## While requests are put in -/

/-- The call puts in a new request. -/
def Op.isPush : Op → Bool
  | .push .. => true
  | _ => false

/-- Nothing leaves the queue while requests are put into it. -/
theorem mem_run_of_pushes (hops : ∀ op ∈ ops, op.isPush = true) (hx : x ∈ q.entries) :
    x ∈ (q.run ops).2.entries := by
  induction ops generalizing q with
  | nil => exact hx
  | cons op ops ih =>
    obtain ⟨hop, htail⟩ := List.forall_mem_cons.1 hops
    refine ih htail ?_
    cases op with
    | push r caller p =>
      show x ∈ (q.push r caller p).queue.entries
      by_cases hroom : q.size < q.capacity
      · cases p with
        | head =>
          have hsplit : x ∈ q.entries.takeWhile (·.urgent) ++ q.entries.dropWhile (·.urgent) := by
            rw [List.takeWhile_append_dropWhile]
            exact hx
          rw [push_head_of_room hroom]
          rcases List.mem_append.1 hsplit with hfront | hback
          · exact List.mem_append_left _ hfront
          · exact List.mem_append_right _ (List.mem_cons_of_mem _ hback)
        | tail =>
          rw [push_tail_of_room hroom]
          exact List.mem_append_left _ hx
      · rw [push_of_full hroom]
        exact hx
    | replay | pop | takeWaiting | clear => cases hop

/-- New requests on demand stand behind the old ones, in the order in which they were put in. -/
theorem run_demands_of_pushes (h : Refines q l) (hops : ∀ op ∈ ops, op.isPush = true) :
    ∃ new, (q.run ops).2.demands = q.demands ++ new ∧ new.Pairwise (·.serial ≤ ·.serial) ∧
      ∀ x ∈ new, q.accepted ≤ x.serial := by
  induction ops generalizing q l with
  | nil => exact ⟨[], (List.append_nil _).symm, .nil, nofun⟩
  | cons op ops ih =>
    obtain ⟨hop, htail⟩ := List.forall_mem_cons.1 hops
    cases op with
    | push r c p =>
      have hfirst := push_demands h r c p
      have hle : q.accepted ≤ (q.push r c p).queue.accepted := q.apply_accepted_le (.push r c p)
      obtain ⟨new, hnew, hsorted, hserial⟩ := ih (apply_refines h (.push r c p)).2 htail
      have hnew : ((q.push r c p).queue.run ops).2.demands =
        (q.push r c p).queue.demands ++ new := hnew
      have hserial : ∀ x ∈ new, (q.push r c p).queue.accepted ≤ x.serial := hserial
      show ∃ new, ((q.push r c p).queue.run ops).2.demands = _ ∧ _
      rw [hnew, hfirst, List.append_assoc]
      refine ⟨_, rfl, ?_, ?_⟩
      · split
        case isTrue hin =>
          refine List.pairwise_cons.2 ⟨fun x hx => ?_, hsorted⟩
          exact Nat.le_trans hle (hserial x hx)
        case isFalse => exact hsorted
      · intro x hx
        rcases List.mem_append.1 hx with hown | hlater
        · split at hown
          · cases List.mem_singleton.1 hown
            exact Nat.le_refl _
          · cases hown
        · exact Nat.le_trans hle (hserial x hlater)
    | replay | pop | takeWaiting | clear => cases hop

/-- The calls that put requests in on demand, for no caller. -/
def demanding (rs : List Request) : List Op := rs.map (.push · none .head)

/-- The entries that requests on demand are put in as, one after the other. -/
def entriesFor (q : Queue) (rs : List Request) : List Entry :=
  rs.mapIdx fun k r => ⟨r, none, .head, false, q.accepted + k⟩

theorem free_of_full (hs : ¬ q.size < q.capacity) : q.free = 0 :=
  Nat.sub_eq_zero_of_le (Nat.not_lt.1 hs)

theorem push_free_of_room (hs : q.size < q.capacity) (r : Request) (c : Option Nat) (p : Position) :
    (q.push r c p).queue.free + 1 = q.free := by
  unfold free
  rw [push_capacity, push_size_of_room hs]
  omega

theorem entriesFor_nil (q : Queue) : q.entriesFor [] = [] := rfl

/-- The first of them takes the next number, and leaves the ones after it to the others. -/
theorem entriesFor_cons (hs : q.size < q.capacity) (r : Request) (rs : List Request) :
    q.entriesFor (r :: rs) =
      q.entryFor r none .head :: (q.push r none .head).queue.entriesFor rs := by
  unfold entriesFor
  rw [List.mapIdx_cons, push_count_of_room hs]
  simp only [Nat.add_assoc, Nat.add_comm 1]
  rfl

/-- Requests on demand that come together stand together at the end of their lane: as many of the first
ones as there are free slots, in order. -/
theorem Refines.run_demanding (h : Refines q l) (rs : List Request) :
    ∃ n, Refines (q.run (demanding rs)).2
      { l with demanded := l.demanded ++ q.entriesFor (rs.take q.free), accepted := n } := by
  induction rs generalizing q l with
  | nil =>
    refine ⟨l.accepted, ?_⟩
    rw [List.take_nil, entriesFor_nil, List.append_nil]
    exact h
  | cons r rs ih =>
    show ∃ n, Refines ((q.push r none .head).queue.run (demanding rs)).2 _
    by_cases hs : q.size < q.capacity
    · obtain ⟨n, hn⟩ := ih (h.push_of_room hs r none .head)
      refine ⟨n, ?_⟩
      rw [← push_free_of_room hs r none .head, List.take_succ_cons, entriesFor_cons hs,
        List.append_cons]
      exact hn
    · rw [push_of_full hs]
      obtain ⟨n, hn⟩ := ih h
      rw [free_of_full hs] at hn ⊢
      exact ⟨n, hn⟩

/-- As many of the first ones are accepted as there are free slots, and no others. -/
theorem run_demanding_entered (q : Queue) (rs : List Request) :
    (q.run (demanding rs)).1.map (·.entered) =
      (q.entriesFor (rs.take q.free)).map some ++ List.replicate (rs.length - q.free) none := by
  induction rs generalizing q with
  | nil =>
    rw [List.take_nil, entriesFor_nil, List.length_nil, Nat.zero_sub]
    rfl
  | cons r rs ih =>
    show ((q.push r none .head).answer (q.entryFor r none .head)).entered ::
      ((q.push r none .head).queue.run (demanding rs)).1.map (·.entered) = _
    have hentered : ((q.push r none .head).answer (q.entryFor r none .head)).entered =
        if q.size < q.capacity then some (q.entryFor r none .head) else none := by
      unfold Insertion.answer
      simp only [push_accepted]
    by_cases hs : q.size < q.capacity
    · rw [hentered, if_pos hs, ih, ← push_free_of_room hs r none .head, List.take_succ_cons,
        entriesFor_cons hs, List.length_cons, Nat.add_sub_add_right]
      rfl
    · rw [hentered, if_neg hs, push_of_full hs, ih, free_of_full hs]
      rfl

/-- Requests were offered on demand one after the other, and this is the queue afterwards. The first
ones were accepted, as many as there were free slots; they stand in order between the urgent entries
and the periodic ones that were there before. -/
structure Admits (q : Queue) (rs : List Request) (q' : Queue) (all : Bool) : Prop where
  offered : q' = (q.run (demanding rs)).2
  first : (q.run (demanding rs)).1.map (·.entered) =
    (q.entriesFor (rs.take q.free)).map some ++ List.replicate (rs.length - q.free) none
  placed : ∃ urgent periodic, q.entries = urgent ++ periodic ∧
    (∀ x ∈ urgent, x.urgent = true) ∧ (∀ x ∈ periodic, x.urgent = false) ∧
    q'.entries = urgent ++ q.entriesFor (rs.take q.free) ++ periodic
  /-- Whether all of them were accepted. -/
  answer : all = true ↔ ∀ a ∈ (q.run (demanding rs)).1, a.entered.isSome = true
  /-- If not, the free slots are used up. -/
  used : all = false → (q.entriesFor (rs.take q.free)).length = q.free ∧ q'.free = 0

/-- The answers tell whether there were slots for all. -/
theorem all_run_demanding (q : Queue) (rs : List Request) :
    (q.run (demanding rs)).1.all (·.entered.isSome) = decide (rs.length ≤ q.free) := by
  have hentered : (q.run (demanding rs)).1.all (·.entered.isSome) =
      ((q.run (demanding rs)).1.map (·.entered)).all Option.isSome := by
    rw [List.all_map]
    rfl
  have hsome : ((q.entriesFor (rs.take q.free)).map some).all Option.isSome = true := by
    simp
  rw [hentered, run_demanding_entered, List.all_append, hsome, Bool.true_and, List.all_replicate]
  by_cases hall : rs.length ≤ q.free
  · simp [hall]
  · have hrest : rs.length - q.free ≠ 0 := by omega
    simp [hall, hrest]

theorem Refines.admits (h : Refines q l) (rs : List Request) :
    q.Admits rs (q.run (demanding rs)).2 ((q.run (demanding rs)).1.all (·.entered.isSome)) := by
  obtain ⟨n, hafter⟩ := h.run_demanding rs
  have hentries : (q.run (demanding rs)).2.entries =
      l.replays ++ l.demanded ++ q.entriesFor (rs.take q.free) ++ l.periodic := by
    rw [hafter.entries]
    unfold Lanes.entries
    rw [← List.append_assoc]
  refine ⟨rfl, run_demanding_entered q rs, ?_, List.all_eq_true, fun hfull => ?_⟩
  · exact ⟨l.replays ++ l.demanded, l.periodic, h.entries, h.urgent_front, h.calm_back, hentries⟩
  · rw [all_run_demanding, decide_eq_false_iff_not] at hfull
    have hlength : (q.entriesFor (rs.take q.free)).length = q.free := by
      unfold entriesFor
      rw [List.length_mapIdx, List.length_take]
      omega
    have hbefore : q.size = (l.replays ++ l.demanded).length + l.periodic.length := by
      rw [size, h.entries, Lanes.entries, List.length_append]
    have hsize : (q.run (demanding rs)).2.size = q.size + q.free := by
      rw [hbefore, size, hentries, List.length_append, List.length_append, hlength]
      omega
    refine ⟨hlength, ?_⟩
    rw [free, run_capacity, hsize]
    unfold free
    omega

end Queue

end HeatWatch
