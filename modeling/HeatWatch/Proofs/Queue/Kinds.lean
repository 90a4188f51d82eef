import HeatWatch.Proofs.Queue.Lanes

/-!
# Requests of one kind

Calls of the queue that concern other requests leave those of a kind as they are, in number and in
order. Main statements:

* `run_kind_of_spares`: so it is as long as none is put in or taken out;
* `run_kind_of_periodic`: periodic ones that find room come last.
-/

namespace HeatWatch.Queue

variable {c : Request → Bool} {q : Queue}

/-- The waiting requests of a kind in order. -/
def kind (q : Queue) (c : Request → Bool) : List Request := q.requests.filter c

/-- No caller waits for a request of the kind. -/
def Unclaimed (q : Queue) (c : Request → Bool) : Prop :=
  ∀ x ∈ q.entries, c x.request = true → x.caller = none

/-- The call neither puts in a request of the kind nor takes one out for which no caller waits. -/
def Op.spares (c : Request → Bool) : Op → Bool
  | .push r .. => !c r
  | .replay x => !c x.request
  | .takeWaiting => true
  | .pop | .clear => false

/-- The call puts in no request of the kind for a caller. -/
def Op.claims (c : Request → Bool) : Op → Bool
  | .push r caller _ => c r && caller.isSome
  | _ => false

/-- A request of the kind was handed back. -/
def Answer.sheds (c : Request → Bool) (a : Answer) : Bool := a.refused.any fun x => c x.request

/-! ## Putting in -/

theorem mem_push {r : Request} {caller : Option Nat} {p : Position} {x : Entry}
    (h : x ∈ (q.push r caller p).queue.entries) : x ∈ q.entries ∨ x = q.entryFor r caller p := by
  by_cases hs : q.size < q.capacity
  · cases p with
    | head =>
      rw [push_head_of_room hs, List.mem_append, List.mem_cons] at h
      rcases h with hin | heq | hin
      · exact .inl (List.takeWhile_subset _ hin)
      · exact .inr heq
      · exact .inl (List.dropWhile_subset _ hin)
    | tail =>
      rw [push_tail_of_room hs, List.mem_append, List.mem_singleton] at h
      exact h
  · rw [push_of_full hs] at h
    exact .inl h

theorem mem_replay {x y : Entry} (h : x ∈ (q.replay y).queue.entries) :
    x ∈ q.entries ∨ x = y.again := by
  by_cases hs : q.size < q.capacity
  · rw [replay_of_room hs, List.mem_cons] at h
    exact h.symm
  · rw [replay_of_full hs] at h
    exact .inl h

theorem kind_push_of_other {r : Request} (hr : c r = false) (caller : Option Nat) (p : Position) :
    (q.push r caller p).queue.kind c = q.kind c := by
  have hout : ¬ c (q.entryFor r caller p).request = true := by
    show ¬ c r = true
    rw [hr]
    exact Bool.false_ne_true
  unfold kind requests
  by_cases hs : q.size < q.capacity
  · cases p with
    -- wherever the new entry stands, it is of another kind
    | head =>
      rw [push_head_of_room hs, List.map_append, List.map_cons, List.filter_append,
        List.filter_cons_of_neg hout, ← List.filter_append, ← List.map_append,
        List.takeWhile_append_dropWhile]
    | tail =>
      rw [push_tail_of_room hs, List.map_append, List.filter_append, List.map_cons,
        List.filter_cons_of_neg hout]
      exact List.append_nil _
  · rw [push_of_full hs]

theorem kind_replay_of_other {x : Entry} (hx : c x.request = false) :
    (q.replay x).queue.kind c = q.kind c := by
  have hout : ¬ c x.again.request = true := by
    show ¬ c x.request = true
    rw [hx]
    exact Bool.false_ne_true
  unfold kind requests
  by_cases hs : q.size < q.capacity
  · rw [replay_of_room hs, List.map_cons, List.filter_cons_of_neg hout]
  · rw [replay_of_full hs]

/-- A periodic request that finds room comes last. -/
theorem kind_push_tail {r : Request} (hs : q.size < q.capacity) (caller : Option Nat) :
    (q.push r caller .tail).queue.kind c = q.kind c ++ [r].filter c := by
  unfold kind requests
  rw [push_tail_of_room hs, List.map_append, List.filter_append]
  rfl

/-- A request on demand that finds room is in the queue. -/
theorem mem_kind_push_head {r : Request} (hs : q.size < q.capacity) (hr : c r = true)
    (caller : Option Nat) : r ∈ (q.push r caller .head).queue.kind c := by
  unfold kind requests
  rw [push_head_of_room hs, List.map_append, List.map_cons]
  exact List.mem_filter.2 ⟨List.mem_append_right _ List.mem_cons_self, hr⟩

/-! ## Taking out -/

theorem kind_takeWaiting (h : q.Unclaimed c) : q.takeWaiting.2.kind c = q.kind c := by
  unfold kind requests
  rw [takeWaiting_entries, List.filter_map, List.filter_map, List.filter_filter]
  congr 1
  refine List.filter_congr fun x hx => ?_
  show (c x.request && x.caller.isNone) = c x.request
  -- no caller waits for an entry of the kind, so none of them is taken out
  by_cases hc : c x.request = true
  · rw [hc, h x hx hc]
    rfl
  · have hc' : c x.request = false := Bool.eq_false_iff.2 hc
    rw [hc', Bool.false_and]

@[simp] theorem kind_clear : q.clear.kind c = [] := by
  unfold kind requests
  rw [clear_entries]
  rfl

/-- The first request may be one of the kind. -/
theorem kind_of_head? {x : Entry} (hx : q.entries.head? = some x) :
    q.kind c = [x.request].filter c ++ q.pop.2.kind c := by
  obtain ⟨rest, hrest⟩ := List.head?_eq_some_iff.1 hx
  unfold kind requests
  rw [pop_entries, hrest, List.tail_cons, List.map_cons]
  exact List.filter_append [x.request] (rest.map (·.request))

theorem kind_pop_of_empty (hx : q.entries.head? = none) : q.pop.2.kind c = q.kind c := by
  unfold kind requests
  rw [pop_entries, List.head?_eq_none_iff.1 hx]
  rfl

/-! ## Sequences of calls -/

theorem Unclaimed.apply (h : q.Unclaimed c) {op : Op} (hop : op.claims c = false) :
    (q.apply op).2.Unclaimed c := by
  intro x hx hc
  cases op with
  | push r caller p =>
    rcases mem_push hx with hin | rfl
    · exact h x hin hc
    · have hclaims : (c r && caller.isSome) = false := hop
      have hr : c r = true := hc
      rw [hr, Bool.true_and] at hclaims
      exact Option.isSome_eq_false_iff.1 hclaims |> Option.isNone_iff_eq_none.1
  | replay y =>
    rcases mem_replay hx with hin | rfl
    · exact h x hin hc
    · rfl
  | pop =>
    have hx' : x ∈ q.pop.2.entries := hx
    rw [pop_entries] at hx'
    exact h x (List.mem_of_mem_tail hx') hc
  | takeWaiting =>
    have hx' : x ∈ q.takeWaiting.2.entries := hx
    rw [takeWaiting_entries] at hx'
    exact h x (List.mem_filter.1 hx').1 hc
  | clear =>
    have hx' : x ∈ q.clear.entries := hx
    rw [clear_entries] at hx'
    cases hx'

theorem Unclaimed.run (h : q.Unclaimed c) {ops : List Op} (hops : ∀ op ∈ ops, op.claims c = false) :
    (q.run ops).2.Unclaimed c := by
  induction ops generalizing q with
  | nil => exact h
  | cons op ops ih =>
    obtain ⟨hop, htail⟩ := List.forall_mem_cons.1 hops
    exact ih (h.apply hop) htail

theorem Op.claims_of_spares {op : Op} (h : op.spares c = true) : op.claims c = false := by
  cases op with
  | push r caller p =>
    have hr : c r = false := Bool.not_eq_eq_eq_not.1 h
    show (c r && caller.isSome) = false
    rw [hr, Bool.false_and]
  | replay | pop | takeWaiting | clear => rfl

theorem apply_kind_of_spares (h : q.Unclaimed c) {op : Op} (hop : op.spares c = true) :
    (q.apply op).2.kind c = q.kind c := by
  cases op with
  | push r caller p => exact kind_push_of_other (Bool.not_eq_eq_eq_not.1 hop) caller p
  | replay x => exact kind_replay_of_other (Bool.not_eq_eq_eq_not.1 hop)
  | takeWaiting => exact kind_takeWaiting h
  | pop | clear => cases hop

/-- Calls that concern other requests leave the ones of a kind as they are. -/
theorem run_kind_of_spares (h : q.Unclaimed c) {ops : List Op}
    (hops : ∀ op ∈ ops, op.spares c = true) : (q.run ops).2.kind c = q.kind c := by
  induction ops generalizing q with
  | nil => rfl
  | cons op ops ih =>
    obtain ⟨hop, htail⟩ := List.forall_mem_cons.1 hops
    exact (ih (h.apply (Op.claims_of_spares hop)) htail).trans (apply_kind_of_spares h hop)

/-- Periodic requests come last, if none of the kind is handed back. -/
theorem run_kind_of_periodic {rs : List Request}
    (hshed : ∀ a ∈ (q.run (rs.map (.push · none .tail))).1, a.sheds c = false) :
    (q.run (rs.map (.push · none .tail))).2.kind c = q.kind c ++ rs.filter c := by
  induction rs generalizing q with
  | nil => exact (List.append_nil _).symm
  | cons r rs ih =>
    obtain ⟨hfirst, htail⟩ := List.forall_mem_cons.1 hshed
    have hrest := ih htail
    have hkind : (q.push r none .tail).queue.kind c = q.kind c ++ [r].filter c := by
      by_cases hs : q.size < q.capacity
      · exact kind_push_tail hs none
      · -- what is handed back is of another kind
        have hr : c r = false := by
          have hsheds : (q.push r none .tail).refused.any (fun x => c x.request) = false := hfirst
          rw [push_refused, if_neg hs] at hsheds
          exact hsheds
        rw [kind_push_of_other hr, List.filter_cons_of_neg (by rw [hr]; exact Bool.false_ne_true)]
        exact (List.append_nil _).symm
    have hsplit : (r :: rs).filter c = [r].filter c ++ rs.filter c := List.filter_append [r] rs
    rw [hsplit, ← List.append_assoc, ← hkind]
    exact hrest

end HeatWatch.Queue
