import HeatWatch.Proofs.Queue.Effect

/-!
# The queue as three lanes

The queue keeps one list and finds the place of an urgent request by counting. It behaves as three
lanes that are kept apart: failed requests to be sent again, a stack; requests on demand, first
come first served; periodic requests, first come first served. Main statements:

* `apply_refines`: a call of the queue answers as the lanes do, and leaves the queue as they show;
* `run_shows_lanes`: so does every sequence of calls, from the empty queue on.

The queue is a list of entries with flags, the lanes know their entries by where they are. What
ties the two is `Refines`: the list is the three lanes one after the other, and the flags of an
entry say its lane.
-/

namespace HeatWatch.Queue

/-! ## Calls -/

/-- A call of the queue. -/
inductive Op where
  | push (r : Request) (caller : Option Nat) (p : Position)
  | replay (e : Entry)
  | pop
  | takeWaiting
  | clear

/-- What a call leads to, besides the queue that it leaves. -/
structure Answer where
  /-- The entry that was put in. -/
  entered : Option Entry
  /-- The entry that is handed back because it was not put in. -/
  refused : Option Entry
  /-- The entries that were taken out or thrown away, in order. -/
  left : List Entry
  deriving DecidableEq

/-- What putting in an entry answers. -/
def Insertion.answer (i : Insertion) (e : Entry) : Answer :=
  ⟨if i.accepted then some e else none, i.refused, []⟩

/-- Makes a call. -/
def apply (q : Queue) : Op → Answer × Queue
  | .push r caller p =>
    let i := q.push r caller p
    (i.answer (q.entryFor r caller p), i.queue)
  | .replay e =>
    let i := q.replay e
    (i.answer e.again, i.queue)
  | .pop => (⟨none, none, q.pop.1.toList⟩, q.pop.2)
  | .takeWaiting => (⟨none, none, q.takeWaiting.1⟩, q.takeWaiting.2)
  | .clear => (⟨none, none, q.entries⟩, q.clear)

/-- Makes calls one after the other. -/
def run (q : Queue) : List Op → List Answer × Queue
  | [] => ([], q)
  | op :: ops =>
    let (a, q) := q.apply op
    let (as, q) := q.run ops
    (a :: as, q)

/-! ## Lanes -/

/-- Waiting requests in three lanes. -/
structure Lanes where
  capacity : Nat
  /-- To be sent again, the latest first. -/
  replays : List Entry
  /-- On demand, the earliest first. -/
  demanded : List Entry
  /-- Periodic, the earliest first. -/
  periodic : List Entry
  /-- The number of requests accepted so far. -/
  accepted : Nat

namespace Lanes

def empty (capacity : Nat) : Lanes := ⟨capacity, [], [], [], 0⟩

/-- The lanes one after the other. -/
def entries (l : Lanes) : List Entry := l.replays ++ l.demanded ++ l.periodic

/-- There is a free slot. -/
def HasRoom (l : Lanes) : Prop := l.entries.length < l.capacity

instance (l : Lanes) : Decidable l.HasRoom := inferInstanceAs (Decidable (_ < _))

/-- Puts a new request at the end of its lane. -/
def push (l : Lanes) (e : Entry) : Position → Lanes
  | .head => { l with demanded := l.demanded ++ [e], accepted := l.accepted + 1 }
  | .tail => { l with periodic := l.periodic ++ [e], accepted := l.accepted + 1 }

/-- Takes the first entry of the first lane that has one. -/
def pop (l : Lanes) : Option Entry × Lanes :=
  match l.replays, l.demanded, l.periodic with
  | e :: es, _, _ => (some e, { l with replays := es })
  | [], e :: es, _ => (some e, { l with demanded := es })
  | [], [], e :: es => (some e, { l with periodic := es })
  | [], [], [] => (none, l)

/-- Keeps the entries of each lane that pass a test. -/
def filter (l : Lanes) (keep : Entry → Bool) : Lanes :=
  { l with
    replays := l.replays.filter keep
    demanded := l.demanded.filter keep
    periodic := l.periodic.filter keep }

/-- Makes a call. An entry that finds no free slot is handed back, and nothing changes. -/
def apply (l : Lanes) : Op → Answer × Lanes
  | .push r caller p =>
    let e : Entry := ⟨r, caller, p, false, l.accepted⟩
    if l.HasRoom then (⟨some e, none, []⟩, l.push e p) else (⟨none, some e, []⟩, l)
  | .replay e =>
    if l.HasRoom then
      (⟨some e.again, none, []⟩, { l with replays := e.again :: l.replays })
    else (⟨none, some e.again, []⟩, l)
  | .pop => (⟨none, none, l.pop.1.toList⟩, l.pop.2)
  | .takeWaiting =>
    (⟨none, none, l.entries.filter (·.caller.isSome)⟩, l.filter (·.caller.isNone))
  | .clear => (⟨none, none, l.entries⟩, { l with replays := [], demanded := [], periodic := [] })

/-- Makes calls one after the other. -/
def run (l : Lanes) : List Op → List Answer × Lanes
  | [] => ([], l)
  | op :: ops =>
    let (a, l) := l.apply op
    let (as, l) := l.run ops
    (a :: as, l)

end Lanes

/-- The queue shows the lanes, and the flags of each entry say its lane. -/
structure Refines (q : Queue) (l : Lanes) : Prop where
  capacity : q.capacity = l.capacity
  accepted : q.accepted = l.accepted
  entries : q.entries = l.entries
  replays : ∀ e ∈ l.replays, e.replayed = true
  demanded : ∀ e ∈ l.demanded, e.replayed = false ∧ e.position = .head
  periodic : ∀ e ∈ l.periodic, e.replayed = false ∧ e.position = .tail
  fits : q.size ≤ q.capacity

/-- No urgent entry stands behind a periodic one. -/
def Ordered (q : Queue) : Prop := q.entries.Pairwise fun a b => b.urgent = true → a.urgent = true

/-! ## One call -/

section

variable {q : Queue} {l : Lanes}

theorem refines_empty (capacity margin : Nat) : Refines (empty capacity margin) (.empty capacity) :=
  ⟨rfl, rfl, rfl, by simp [Lanes.empty], by simp [Lanes.empty], by simp [Lanes.empty],
    Nat.zero_le _⟩

theorem Refines.room (h : Refines q l) : l.HasRoom ↔ q.size < q.capacity := by
  rw [Lanes.HasRoom, ← h.entries, ← h.capacity, size]

/-- The urgent entries are those of the first two lanes. -/
theorem Refines.urgent_front (h : Refines q l) :
    ∀ e ∈ l.replays ++ l.demanded, e.urgent = true := by
  intro e he
  rcases List.mem_append.1 he with he | he
  · simp [Entry.urgent, h.replays e he]
  · simp [Entry.urgent, (h.demanded e he).2]

theorem Refines.calm_back (h : Refines q l) : ∀ e ∈ l.periodic, e.urgent = false := by
  intro e he
  obtain ⟨hr, hp⟩ := h.periodic e he
  simp [Entry.urgent, hr, hp]

theorem Refines.takeWhile_urgent (h : Refines q l) :
    q.entries.takeWhile (·.urgent) = l.replays ++ l.demanded := by
  -- the first entry that is not urgent is the first periodic one
  rw [h.entries, Lanes.entries, List.takeWhile_append_of_pos h.urgent_front]
  cases hp : l.periodic with
  | nil => simp
  | cons e es =>
    have he : e.urgent = false := h.calm_back e (by simp [hp])
    simp [he]

theorem Refines.dropWhile_urgent (h : Refines q l) :
    q.entries.dropWhile (·.urgent) = l.periodic := by
  rw [h.entries, Lanes.entries, List.dropWhile_append_of_pos h.urgent_front]
  cases hp : l.periodic with
  | nil => rfl
  | cons e es =>
    have he : e.urgent = false := h.calm_back e (by simp [hp])
    simp [he]

theorem Refines.ordered (h : Refines q l) : q.Ordered := by
  rw [Ordered, h.entries, Lanes.entries, List.pairwise_append]
  refine ⟨?_, ?_, ?_⟩
  · exact List.pairwise_of_forall_mem_list fun a ha b _ _ => h.urgent_front a ha
  · exact List.pairwise_of_forall_mem_list fun a _ b hb hu => by simp [h.calm_back b hb] at hu
  · exact fun a ha b _ _ => h.urgent_front a ha

/-- A new request goes to the end of its lane. -/
theorem Refines.push_of_room (h : Refines q l) (hs : q.size < q.capacity) (r : Request)
    (c : Option Nat) (p : Position) :
    Refines (q.push r c p).queue (l.push (q.entryFor r c p) p) := by
  have hn : (q.push r c p).queue.accepted = l.accepted + 1 := by
    rw [push_count_of_room hs, h.accepted]
  have hfit : (q.push r c p).queue.size ≤ (q.push r c p).queue.capacity := by
    rw [push_size_of_room hs, push_capacity]
    exact hs
  have hc : (q.push r c p).queue.capacity = l.capacity := by rw [push_capacity, h.capacity]
  cases p with
  | head =>
    refine ⟨hc, hn, ?_, h.replays, ?_, h.periodic, hfit⟩
    · rw [push_head_of_room hs, h.takeWhile_urgent, h.dropWhile_urgent]
      simp [Lanes.push, Lanes.entries]
    · intro e hmem
      rcases List.mem_append.1 hmem with hmem | hmem
      · exact h.demanded e hmem
      · rw [List.mem_singleton.1 hmem]
        exact ⟨rfl, rfl⟩
  | tail =>
    refine ⟨hc, hn, ?_, h.replays, h.demanded, ?_, hfit⟩
    · rw [push_tail_of_room hs, h.entries]
      simp [Lanes.push, Lanes.entries]
    · intro e hmem
      rcases List.mem_append.1 hmem with hmem | hmem
      · exact h.periodic e hmem
      · rw [List.mem_singleton.1 hmem]
        exact ⟨rfl, rfl⟩

/-- A failed request goes on top of those to be sent again. -/
theorem Refines.replay_of_room (h : Refines q l) (hs : q.size < q.capacity) (e : Entry) :
    Refines (q.replay e).queue { l with replays := e.again :: l.replays } := by
  refine ⟨by simpa using h.capacity, by simpa using h.accepted, ?_, ?_, h.demanded, h.periodic, ?_⟩
  · rw [Queue.replay_of_room hs, h.entries]
    simp [Lanes.entries]
  · intro x hx
    rcases List.mem_cons.1 hx with rfl | hx
    · rfl
    · exact h.replays x hx
  · rw [size, Queue.replay_of_room hs, replay_capacity, List.length_cons]
    exact hs

/-- The first entry of the queue is the first one of the first lane that has any. -/
theorem Refines.pop (h : Refines q l) :
    q.pop.1 = l.pop.1 ∧ Refines q.pop.2 l.pop.2 := by
  have hfit : q.pop.2.size ≤ q.pop.2.capacity := by
    have := h.fits
    rw [size] at this ⊢
    rw [pop_entries, List.length_tail, pop_capacity]
    omega
  have hmem : ∀ {es : List Entry} {e : Entry} {es' : List Entry}, es = e :: es' →
      ∀ x ∈ es', x ∈ es := fun heq x hx => heq ▸ List.mem_cons_of_mem _ hx
  have hc : q.pop.2.capacity = l.capacity := by rw [pop_capacity, h.capacity]
  have hn : q.pop.2.accepted = l.accepted := by rw [pop_count, h.accepted]
  rw [pop_head, h.entries, Lanes.entries, Lanes.pop]
  split
  -- whichever lane gives the entry, the flags of the others still say their lanes
  case h_1 e es hr =>
    refine ⟨by simp [hr], hc, hn, by simp [h.entries, Lanes.entries, hr], ?_, h.demanded,
      h.periodic, hfit⟩
    exact fun x hx => h.replays x (hmem hr x hx)
  case h_2 e es hr hd =>
    refine ⟨by simp [hr, hd], hc, hn, by simp [h.entries, Lanes.entries, hr, hd], h.replays, ?_,
      h.periodic, hfit⟩
    exact fun x hx => h.demanded x (hmem hd x hx)
  case h_3 e es hr hd hp =>
    refine ⟨by simp [hr, hd, hp], hc, hn, by simp [h.entries, Lanes.entries, hr, hd, hp],
      h.replays, h.demanded, ?_, hfit⟩
    exact fun x hx => h.periodic x (hmem hp x hx)
  case h_4 hr hd hp =>
    exact ⟨by simp [hr, hd, hp], hc, hn, by simp [h.entries, Lanes.entries, hr, hd, hp],
      h.replays, h.demanded, h.periodic, hfit⟩

/-- Taking out the entries of callers keeps the order of the others in each lane. -/
theorem Refines.takeWaiting (h : Refines q l) :
    Refines q.takeWaiting.2 (l.filter (·.caller.isNone)) := by
  have hc : q.takeWaiting.2.capacity = l.capacity := by rw [takeWaiting_capacity, h.capacity]
  have hn : q.takeWaiting.2.accepted = l.accepted := by rw [takeWaiting_count, h.accepted]
  refine ⟨hc, hn, ?_, ?_, ?_, ?_, ?_⟩
  · rw [takeWaiting_entries, h.entries]
    simp [Lanes.entries, Lanes.filter]
  · exact fun e he => h.replays e (List.mem_filter.1 he).1
  · exact fun e he => h.demanded e (List.mem_filter.1 he).1
  · exact fun e he => h.periodic e (List.mem_filter.1 he).1
  · have := h.fits
    rw [size, takeWaiting_entries, takeWaiting_capacity]
    exact Nat.le_trans (List.length_filter_le _ _) this

theorem Refines.clear (h : Refines q l) :
    Refines q.clear { l with replays := [], demanded := [], periodic := [] } := by
  refine ⟨by simpa using h.capacity, by simpa using h.accepted, ?_, ?_, ?_, ?_, ?_⟩ <;>
    simp [Lanes.entries, size]

/-- A call answers as the lanes do, and leaves the queue as they show. -/
theorem apply_refines (h : Refines q l) (op : Op) :
    (q.apply op).1 = (l.apply op).1 ∧ Refines (q.apply op).2 (l.apply op).2 := by
  cases op with
  | push r c p =>
    have he : (⟨r, c, p, false, l.accepted⟩ : Entry) = q.entryFor r c p := by
      rw [entryFor, h.accepted]
    have hacc := q.push_accepted r c p
    simp only [apply, Lanes.apply, Insertion.answer, push_refused, he]
    by_cases hs : q.size < q.capacity
    · rw [if_pos (h.room.2 hs), if_pos hs, if_pos (hacc.2 hs)]
      exact ⟨rfl, h.push_of_room hs r c p⟩
    · rw [if_neg fun hl => hs (h.room.1 hl), if_neg hs, if_neg fun ha => hs (hacc.1 ha),
        push_of_full hs]
      exact ⟨rfl, h⟩
  | replay e =>
    have hacc := q.replay_accepted e
    simp only [apply, Lanes.apply, Insertion.answer, replay_refused]
    by_cases hs : q.size < q.capacity
    · rw [if_pos (h.room.2 hs), if_pos hs, if_pos (hacc.2 hs)]
      exact ⟨rfl, h.replay_of_room hs e⟩
    · rw [if_neg fun hl => hs (h.room.1 hl), if_neg hs, if_neg fun ha => hs (hacc.1 ha),
        replay_of_full hs]
      exact ⟨rfl, h⟩
  | pop =>
    simp only [apply, Lanes.apply]
    rw [h.pop.1]
    exact ⟨rfl, h.pop.2⟩
  | takeWaiting =>
    simp only [apply, Lanes.apply]
    rw [takeWaiting_taken, h.entries]
    exact ⟨rfl, h.takeWaiting⟩
  | clear =>
    simp only [apply, Lanes.apply]
    rw [h.entries]
    exact ⟨rfl, h.clear⟩

end

/-! ## No entry is lost, none is made up -/

/-- What was there and what is put in is what leaves and what stays. -/
theorem apply_perm (q : Queue) (op : Op) :
    (q.entries ++ (q.apply op).1.entered.toList).Perm
      ((q.apply op).1.left ++ (q.apply op).2.entries) := by
  cases op with
  | push r c p =>
    have hacc := q.push_accepted r c p
    simp only [apply, Insertion.answer]
    by_cases hs : q.size < q.capacity
    · rw [if_pos (hacc.2 hs)]
      cases p with
      | head =>
        rw [push_head_of_room hs]
        have hsplit : q.entries.takeWhile (·.urgent) ++ q.entries.dropWhile (·.urgent) = q.entries :=
          List.takeWhile_append_dropWhile
        -- the new entry stands somewhere in between
        refine (List.perm_append_singleton _ _).trans ?_
        refine .trans ?_ List.perm_middle.symm
        rw [hsplit]
      | tail =>
        rw [push_tail_of_room hs]
        exact .refl _
    · rw [if_neg fun ha => hs (hacc.1 ha), push_of_full hs]
      simp
  | replay e =>
    have hacc := q.replay_accepted e
    simp only [apply, Insertion.answer]
    by_cases hs : q.size < q.capacity
    · rw [if_pos (hacc.2 hs), replay_of_room hs]
      exact List.perm_append_singleton _ _
    · rw [if_neg fun ha => hs (hacc.1 ha), replay_of_full hs]
      simp
  | pop =>
    simp only [apply, pop_head, pop_entries]
    cases q.entries <;> simp
  | takeWaiting =>
    simp only [apply, takeWaiting_taken, takeWaiting_entries]
    have h := List.filter_append_perm (fun e : Entry => e.caller.isSome) q.entries
    simpa using h.symm
  | clear => simp [apply]

/-! ## Sequences of calls -/

theorem run_refines {q : Queue} {l : Lanes} (h : Refines q l) (ops : List Op) :
    (q.run ops).1 = (l.run ops).1 ∧ Refines (q.run ops).2 (l.run ops).2 := by
  induction ops generalizing q l with
  | nil => exact ⟨rfl, h⟩
  | cons op ops ih =>
    obtain ⟨ha, hq⟩ := apply_refines h op
    obtain ⟨has, hend⟩ := ih hq
    simp only [run, Lanes.run]
    exact ⟨by rw [ha, has], hend⟩

@[simp] theorem run_capacity (q : Queue) (ops : List Op) : (q.run ops).2.capacity = q.capacity := by
  induction ops generalizing q with
  | nil => rfl
  | cons op ops ih =>
    have h : (q.apply op).2.capacity = q.capacity := by cases op <;> simp [apply]
    simp only [run]
    rw [ih, h]

theorem run_perm (q : Queue) (ops : List Op) :
    (q.entries ++ (q.run ops).1.flatMap (·.entered.toList)).Perm
      ((q.run ops).1.flatMap (·.left) ++ (q.run ops).2.entries) := by
  induction ops generalizing q with
  | nil => simp [run]
  | cons op ops ih =>
    -- what the first call does to the entries, and what the others do to what it leaves
    have h1 := (q.apply_perm op).append_right (((q.apply op).2.run ops).1.flatMap (·.entered.toList))
    have h2 := (ih (q.apply op).2).append_left (q.apply op).1.left
    simp only [run, List.flatMap_cons, List.append_assoc] at h1 h2 ⊢
    exact h1.trans h2

/-- From the empty queue on, every sequence of calls is answered as the three lanes answer it, and
the queue shows the lanes. So it never holds more than its capacity and the count of free slots
is exact, no urgent entry is behind a periodic one, and the entries put in are those that left
and those that are still there, each as often as it was put in. -/
theorem run_shows_lanes (capacity margin : Nat) (ops : List Op) :
    let start := empty capacity margin
    let queue := (start.run ops).2
    let answers := (start.run ops).1
    answers = ((Lanes.empty capacity).run ops).1 ∧
      Refines queue ((Lanes.empty capacity).run ops).2 ∧
      queue.entries = ((Lanes.empty capacity).run ops).2.entries ∧
      queue.size ≤ capacity ∧ queue.free + queue.size = capacity ∧
      queue.Ordered ∧
      (answers.flatMap (·.entered.toList)).Perm (answers.flatMap (·.left) ++ queue.entries) := by
  intro start queue answers
  obtain ⟨ha, href⟩ := run_refines (refines_empty capacity margin) ops
  have hcap : queue.capacity = capacity := run_capacity start ops
  have hfits : queue.size ≤ capacity := hcap ▸ href.fits
  have hfree : queue.free + queue.size = capacity := by
    rw [free, hcap]
    omega
  exact ⟨ha, href, href.entries, hfits, hfree, href.ordered, run_perm start ops⟩

end HeatWatch.Queue
