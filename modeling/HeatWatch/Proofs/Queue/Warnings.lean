import HeatWatch.Proofs.Queue.Lanes
import Mathlib.Data.List.Basic
import Mathlib.Data.List.Induction

/-!
# Warnings of the queue

A queue that refuses a request says that it is full. One that accepts a request and has few slots left
says that it is nearly full, but says so again only after a removal has left more slots than the margin.
Main statements:

* `Call.warns_iff`, `Call.reported_next`: when a call warns, and what it does to the flag of the queue;
* `reported_eq_false_iff`: what the flag says about all calls so far;
* `reported_iff_free_le`: what it says about the slots, where the capacity is above the margin;
* `nearly_full_warnings`: when a call warns, after any calls.
-/

namespace HeatWatch.Queue

/-! ## Calls with their queues -/

/-- The request that a call puts in; none if the call takes out. -/
def Op.request? : Op → Option Request
  | .push r _ _ => some r
  | .replay e => some e.request
  | .pop | .takeWaiting | .clear => none

/-- A call, and the queue on which it is made. -/
structure Call where
  queue : Queue
  op : Op

namespace Call

/-- The queue that the call leaves. -/
def next (c : Call) : Queue := (c.queue.apply c.op).2

/-- What the call logs. -/
def logs (c : Call) : List LogLine :=
  match c.op with
  | .push r caller p => (c.queue.push r caller p).logs
  | .replay e => (c.queue.replay e).logs
  | .pop | .takeWaiting | .clear => []

/-- The call puts its request in. -/
def Enters (c : Call) : Prop := (c.queue.apply c.op).1.entered.isSome = true

/-- The call hands its request back. -/
def IsRefused (c : Call) : Prop := (c.queue.apply c.op).1.refused.isSome = true

/-- The call says that the queue is nearly full. -/
def Warns (c : Call) : Prop := c.next.nearlyFullLine ∈ c.logs

/-- The call takes out, and leaves more slots than the margin. -/
def Relieves (c : Call) : Prop := c.op.request? = none ∧ c.queue.margin < c.next.free

end Call

/-- The calls one after the other, each with the queue on which it is made. -/
def calls (q : Queue) : List Op → List Call
  | [] => []
  | op :: ops => ⟨q, op⟩ :: calls (q.apply op).2 ops

/-- Since the last warning, if there was one, a removal has left more slots than the margin. -/
def Relieved (cs : List Call) : Prop :=
  ∀ before c after, cs = before ++ c :: after → c.Warns → (∀ d ∈ after, ¬ d.Warns) →
    ∃ d ∈ after, d.Relieves

theorem run_concat (q : Queue) (ops : List Op) (op : Op) :
    (q.run (ops ++ [op])).2 = (Call.mk (q.run ops).2 op).next := by
  induction ops generalizing q with
  | nil => rfl
  | cons first ops ih => exact ih (q.apply first).2

theorem calls_concat (q : Queue) (ops : List Op) (op : Op) :
    q.calls (ops ++ [op]) = q.calls ops ++ [⟨(q.run ops).2, op⟩] := by
  induction ops generalizing q with
  | nil => rfl
  | cons first ops ih => exact congrArg (⟨q, first⟩ :: ·) (ih (q.apply first).2)

/-! ## Putting in -/

/-- A request was put in: the queue has a slot less, and says that few are left unless it did before. -/
structure Filled (q : Queue) (logs : List LogLine) (q' : Queue) : Prop where
  free : q'.free + 1 = q.free
  margin : q'.margin = q.margin
  reported : q'.reported = true ↔ q.reported = true ∨ q'.free ≤ q.margin
  warned : q'.free ≤ q.margin ∧ q.reported = false → logs = [q'.nearlyFullLine]
  silent : ¬ (q'.free ≤ q.margin ∧ q.reported = false) → logs = []

section

variable {q : Queue}

/-- The two warnings are not the same. -/
theorem fullLine_ne_nearlyFullLine (q q' : Queue) (r : Request) : q.fullLine r ≠ q'.nearlyFullLine := by
  intro h
  -- the fifteenth character is the first letter of "full", or of "nearly"
  have htext := congrArg (fun l : LogLine => l.text.toList[14]?) h
  simp [fullLine, nearlyFullLine, LogLine.warn] at htext

theorem insertAt_logs_of_full (hs : ¬ q.size < q.capacity) (i : Nat) (e : Entry) :
    (q.insertAt i e).logs = [q.fullLine e.request] := by
  rw [insertAt, if_pos (by omega)]

theorem insertAt_free (hs : q.size < q.capacity) (i : Nat) (e : Entry) :
    (q.insertAt i e).queue.free + 1 = q.free := by
  have hsize : (q.insertAt i e).queue.size = q.size + 1 := by
    rw [size, insertAt_of_room hs, List.length_append, List.length_cons, List.length_take,
      List.length_drop, size]
    omega
  rw [free, free, insertAt_capacity, hsize]
  omega

theorem insertAt_margin (q : Queue) (i : Nat) (e : Entry) :
    (q.insertAt i e).queue.margin = q.margin := by
  rw [insertAt]
  split
  · rfl
  · dsimp only
    split <;> rfl

theorem insertAt_reported (hs : q.size < q.capacity) (i : Nat) (e : Entry) :
    (q.insertAt i e).queue.reported = true ↔
      q.reported = true ∨ (q.insertAt i e).queue.free ≤ q.margin := by
  have hroom : ¬ q.size ≥ q.capacity := by omega
  unfold insertAt
  rw [if_neg hroom]
  dsimp only
  split
  case isTrue h =>
    constructor
    · intro _
      exact .inr h.1
    · intro _
      rfl
  case isFalse h =>
    constructor
    · intro hflag
      exact .inl hflag
    · rintro (hflag | hfree)
      · exact hflag
      · rcases Bool.eq_false_or_eq_true q.reported with hflag | hflag
        · exact hflag
        · -- few slots are left and nothing was said before: this is the case above
          exact absurd ⟨hfree, by simpa using hflag⟩ h

theorem insertAt_logs_of_room (hs : q.size < q.capacity) (i : Nat) (e : Entry) :
    (q.insertAt i e).logs =
      if (q.insertAt i e).queue.free ≤ q.margin ∧ q.reported = false then
        [(q.insertAt i e).queue.nearlyFullLine]
      else [] := by
  have hroom : ¬ q.size ≥ q.capacity := by omega
  unfold insertAt
  rw [if_neg hroom]
  dsimp only
  split
  case isTrue h =>
    rw [if_pos ⟨h.1, by simpa using h.2⟩]
    rfl
  case isFalse h =>
    rw [if_neg]
    rintro ⟨hfree, hflag⟩
    exact h ⟨hfree, by simpa using hflag⟩

theorem insertAt_filled (hs : q.size < q.capacity) (i : Nat) (e : Entry) :
    Filled q (q.insertAt i e).logs (q.insertAt i e).queue where
  free := insertAt_free hs i e
  margin := insertAt_margin q i e
  reported := insertAt_reported hs i e
  warned h := by rw [insertAt_logs_of_room hs, if_pos h]
  silent h := by rw [insertAt_logs_of_room hs, if_neg h]

/-- Counting a request does not bear on the slots. -/
theorem Filled.count {i : Insertion} (h : Filled q i.logs i.queue) :
    Filled q i.count.logs i.count.queue := by
  unfold Insertion.count
  split
  · exact ⟨h.free, h.margin, h.reported, h.warned, h.silent⟩
  · exact h

theorem Insertion.count_logs (i : Insertion) : i.count.logs = i.logs := by
  rw [count]
  split <;> rfl

theorem Insertion.answer_entered (i : Insertion) (e : Entry) :
    (i.answer e).entered.isSome = true ↔ i.accepted = true := by
  unfold answer
  dsimp only
  split <;> simp_all

theorem Insertion.answer_refused (i : Insertion) (e : Entry) :
    (i.answer e).refused.isSome = true ↔ ¬ i.accepted = true := by
  unfold answer accepted
  cases i.refused <;> simp

end

/-! ## Taking out -/

/-- Entries were taken out: no slot is lost, and more slots than the margin put the flag down. -/
structure Drained (q q' : Queue) : Prop where
  free : q.free ≤ q'.free
  margin : q'.margin = q.margin
  reported : q'.reported = true ↔ q.reported = true ∧ ¬ q.margin < q'.free

theorem settle_drained {q : Queue} {rest : List Entry} (h : rest.length ≤ q.size) :
    Drained q (settle { q with entries := rest }) := by
  have hfree : q.free ≤ ({ q with entries := rest } : Queue).free := by
    show q.capacity - q.size ≤ q.capacity - rest.length
    omega
  unfold settle
  split
  case isTrue hmore =>
    refine ⟨hfree, rfl, ?_⟩
    constructor
    · intro hflag
      cases hflag
    · rintro ⟨-, hfew⟩
      exact absurd hmore hfew
  case isFalse hfew =>
    refine ⟨hfree, rfl, ?_⟩
    constructor
    · intro hflag
      exact ⟨hflag, hfew⟩
    · rintro ⟨hflag, -⟩
      exact hflag

/-! ## One call -/

namespace Call

variable {c : Call}

/-- A call that puts its request in. -/
theorem filled (h : c.Enters) : Filled c.queue c.logs c.next := by
  rcases c with ⟨q, op⟩
  cases op with
  | push r caller p =>
    have hroom : q.size < q.capacity :=
      (q.push_accepted r caller p).1 ((Insertion.answer_entered ..).1 h)
    cases p with
    | head => exact (insertAt_filled hroom q.urgentCount (q.entryFor r caller .head)).count
    | tail => exact (insertAt_filled hroom q.size (q.entryFor r caller .tail)).count
  | replay e =>
    have hroom : q.size < q.capacity := (q.replay_accepted e).1 ((Insertion.answer_entered ..).1 h)
    exact insertAt_filled hroom 0 e.again
  | pop | takeWaiting | clear => cases h

/-- A call that hands its request back says so, and does nothing else. -/
theorem refused (h : c.IsRefused) :
    c.next = c.queue ∧ ∃ r, c.op.request? = some r ∧ c.logs = [c.queue.fullLine r] := by
  rcases c with ⟨q, op⟩
  cases op with
  | push r caller p =>
    have hfull : ¬ q.size < q.capacity := by
      intro hroom
      exact (Insertion.answer_refused ..).1 h ((q.push_accepted r caller p).2 hroom)
    refine ⟨push_of_full hfull r caller p, r, rfl, ?_⟩
    cases p with
    | head => exact (Insertion.count_logs _).trans (insertAt_logs_of_full hfull _ _)
    | tail => exact (Insertion.count_logs _).trans (insertAt_logs_of_full hfull _ _)
  | replay e =>
    have hfull : ¬ q.size < q.capacity := by
      intro hroom
      exact (Insertion.answer_refused ..).1 h ((q.replay_accepted e).2 hroom)
    exact ⟨replay_of_full hfull e, e.request, rfl, insertAt_logs_of_full hfull 0 e.again⟩
  | pop | takeWaiting | clear => cases h

/-- A call that takes out says nothing. -/
theorem drained (h : c.op.request? = none) : c.logs = [] ∧ Drained c.queue c.next := by
  rcases c with ⟨q, op⟩
  cases op with
  | push | replay => cases h
  | pop =>
    refine ⟨rfl, settle_drained ?_⟩
    rw [List.length_drop]
    exact Nat.sub_le _ _
  | takeWaiting =>
    have hrest : (q.entries.partition (·.caller.isSome)).2.length ≤ q.size := by
      rw [List.partition_eq_filter_filter]
      exact List.length_filter_le _ _
    exact ⟨rfl, settle_drained hrest⟩
  | clear => exact ⟨rfl, settle_drained (Nat.zero_le _)⟩

/-- A call puts its request in, hands it back, or takes out. -/
theorem cases (c : Call) : c.Enters ∨ c.IsRefused ∨ c.op.request? = none := by
  rcases c with ⟨q, op⟩
  cases op with
  | push r caller p =>
    by_cases haccepted : (q.push r caller p).accepted = true
    · exact .inl ((Insertion.answer_entered ..).2 haccepted)
    · exact .inr (.inl ((Insertion.answer_refused ..).2 haccepted))
  | replay e =>
    by_cases haccepted : (q.replay e).accepted = true
    · exact .inl ((Insertion.answer_entered ..).2 haccepted)
    · exact .inr (.inl ((Insertion.answer_refused ..).2 haccepted))
  | pop | takeWaiting | clear => exact .inr (.inr rfl)

theorem request_of_enters (h : c.Enters) : c.op.request? ≠ none := by
  rcases c with ⟨q, op⟩
  cases op with
  | push | replay => exact nofun
  | pop | takeWaiting | clear => cases h

theorem not_warns_of_refused (h : c.IsRefused) : ¬ c.Warns := by
  obtain ⟨-, r, -, hlogs⟩ := refused h
  unfold Warns
  rw [hlogs, List.mem_singleton]
  intro hsame
  exact fullLine_ne_nearlyFullLine _ _ _ hsame.symm

theorem not_warns_of_removal (h : c.op.request? = none) : ¬ c.Warns := by
  unfold Warns
  rw [(drained h).1]
  exact List.not_mem_nil

/-- A call that puts its request in warns if few slots are left, and nothing was said before. -/
theorem warns_iff (h : c.Enters) :
    c.Warns ↔ c.next.free ≤ c.queue.margin ∧ c.queue.reported = false := by
  unfold Warns
  by_cases hsays : c.next.free ≤ c.queue.margin ∧ c.queue.reported = false
  · rw [(filled h).warned hsays]
    exact ⟨fun _ => hsays, fun _ => List.mem_singleton.2 rfl⟩
  · rw [(filled h).silent hsays]
    exact ⟨fun hmem => absurd hmem List.not_mem_nil, fun h => absurd h hsays⟩

theorem margin_next (c : Call) : c.next.margin = c.queue.margin := by
  rcases c.cases with henters | hrefused | hremoval
  · exact (filled henters).margin
  · rw [(refused hrefused).1]
  · exact (drained hremoval).2.margin

/-- A warning puts the flag up; a removal that leaves more slots than the margin puts it down. -/
theorem reported_next (c : Call) :
    c.next.reported = true ↔ c.Warns ∨ c.queue.reported = true ∧ ¬ c.Relieves := by
  rcases c.cases with henters | hrefused | hremoval
  · have hkept : ¬ c.Relieves := fun hrelieves => request_of_enters henters hrelieves.1
    rw [(filled henters).reported, warns_iff henters]
    rcases Bool.eq_false_or_eq_true c.queue.reported with hflag | hflag <;> simp [hflag, hkept]
  · obtain ⟨hnext, r, hr, -⟩ := refused hrefused
    have hkept : ¬ c.Relieves := by
      rintro ⟨hnone, -⟩
      rw [hr] at hnone
      cases hnone
    rw [hnext]
    simp [not_warns_of_refused hrefused, hkept]
  · rw [(drained hremoval).2.reported]
    simp [not_warns_of_removal hremoval, Relieves, hremoval]

end Call

/-! ## Sequences of calls -/

theorem relieved_nil : Relieved [] := by
  intro before c after hsplit
  cases before <;> cases hsplit

/-- A call among calls is the last one, or the last one comes after it. -/
theorem split_concat {cs before after : List Call} {c w : Call}
    (h : cs ++ [c] = before ++ w :: after) :
    w = c ∧ after = [] ∨ ∃ after', after = after' ++ [c] ∧ cs = before ++ w :: after' := by
  rcases List.eq_nil_or_concat' after with rfl | ⟨after', d, rfl⟩
  · obtain ⟨-, hlast⟩ := List.append_inj' h rfl
    exact .inl ⟨(List.singleton_inj.1 hlast).symm, rfl⟩
  · rw [← List.cons_append, ← List.append_assoc] at h
    obtain ⟨hrest, hlast⟩ := List.append_inj' h rfl
    rw [List.singleton_inj.1 hlast]
    exact .inr ⟨after', rfl, hrest⟩

/-- One more call relieves, or leaves it at what the others did unless it warns. -/
theorem relieved_concat (cs : List Call) (c : Call) :
    Relieved (cs ++ [c]) ↔ c.Relieves ∨ ¬ c.Warns ∧ Relieved cs := by
  constructor
  · intro h
    by_cases hrelieves : c.Relieves
    · exact .inl hrelieves
    · have hsilent : ¬ c.Warns := by
        intro hwarns
        obtain ⟨d, hd, -⟩ := h cs c [] rfl hwarns nofun
        cases hd
      refine .inr ⟨hsilent, ?_⟩
      intro before w after hsplit hwarns hlast
      have hsplit' : cs ++ [c] = before ++ w :: (after ++ [c]) := by
        rw [hsplit, List.append_assoc, List.cons_append]
      have hlast' : ∀ d ∈ after ++ [c], ¬ d.Warns := List.forall_mem_append.2
        ⟨hlast, List.forall_mem_singleton.2 hsilent⟩
      obtain ⟨d, hd, hfrees⟩ := h before w (after ++ [c]) hsplit' hwarns hlast'
      rcases List.mem_append.1 hd with hold | hnew
      · exact ⟨d, hold, hfrees⟩
      · rw [List.mem_singleton.1 hnew] at hfrees
        exact absurd hfrees hrelieves
  · intro h before w after hsplit hwarns hlast
    rcases split_concat hsplit with ⟨rfl, -⟩ | ⟨after', rfl, hcs⟩
    · -- the new call warns, so it neither relieves nor is silent
      rcases h with hrelieves | ⟨hsilent, -⟩
      · exact absurd hwarns (Call.not_warns_of_removal hrelieves.1)
      · exact absurd hwarns hsilent
    · rcases h with hrelieves | ⟨-, hold⟩
      · exact ⟨c, List.mem_concat_self, hrelieves⟩
      · obtain ⟨d, hd, hfrees⟩ := hold before w after' hcs hwarns
          fun d hd => hlast d (List.mem_append_left _ hd)
        exact ⟨d, List.mem_append_left _ hd, hfrees⟩

theorem run_margin (q : Queue) (ops : List Op) : (q.run ops).2.margin = q.margin := by
  induction ops generalizing q with
  | nil => rfl
  | cons op ops ih => exact (ih (q.apply op).2).trans (Call.margin_next ⟨q, op⟩)

/-- The flag of the queue is down if a removal has left more slots than the margin since the last warning. -/
theorem reported_eq_false_iff (capacity margin : Nat) (ops : List Op) :
    ((empty capacity margin).run ops).2.reported = false ↔
      Relieved ((empty capacity margin).calls ops) := by
  induction ops using List.reverseRecOn with
  | nil => exact ⟨fun _ => relieved_nil, fun _ => rfl⟩
  | append_singleton ops op ih =>
    -- the flag follows one call as the history does
    rw [run_concat, calls_concat, relieved_concat, ← ih, ← Bool.not_eq_true, Call.reported_next,
      not_or, not_and_not_right, ← Bool.not_eq_true]
    constructor
    · rintro ⟨hsilent, hflag⟩
      by_cases hrelieves : (Call.mk ((empty capacity margin).run ops).2 op).Relieves
      · exact .inl hrelieves
      · exact .inr ⟨hsilent, fun hup => hrelieves (hflag hup)⟩
    · rintro (hrelieves | ⟨hsilent, hdown⟩)
      · exact ⟨Call.not_warns_of_removal hrelieves.1, fun _ => hrelieves⟩
      · exact ⟨hsilent, fun hup => absurd hup hdown⟩

/-- Where the capacity is above the margin, the flag says whether few slots are left. -/
theorem reported_iff_free_le {capacity margin : Nat} (h : margin < capacity) (ops : List Op) :
    ((empty capacity margin).run ops).2.reported = true ↔
      ((empty capacity margin).run ops).2.free ≤ margin := by
  induction ops using List.reverseRecOn with
  | nil =>
    have hfree : ((empty capacity margin).run []).2.free = capacity := rfl
    rw [hfree]
    constructor
    · intro hflag
      cases hflag
    · intro hfew
      omega
  | append_singleton ops op ih =>
    rw [run_concat]
    have hmargin : ((empty capacity margin).run ops).2.margin = margin := run_margin ..
    -- putting in crosses the margin downwards by one slot, taking out by any number upwards
    generalize ((empty capacity margin).run ops).2 = q at ih hmargin ⊢
    rcases (Call.mk q op).cases with henters | hrefused | hremoval
    · have hfree : (Call.mk q op).next.free + 1 = q.free := (Call.filled henters).free
      have hflag : (Call.mk q op).next.reported = true ↔
          q.reported = true ∨ (Call.mk q op).next.free ≤ q.margin := (Call.filled henters).reported
      rw [hflag, ih, hmargin]
      omega
    · rw [(Call.refused hrefused).1]
      exact ih
    · have hfree : q.free ≤ (Call.mk q op).next.free := (Call.drained hremoval).2.free
      have hflag : (Call.mk q op).next.reported = true ↔
          q.reported = true ∧ ¬ q.margin < (Call.mk q op).next.free := (Call.drained hremoval).2.reported
      rw [hflag, ih, hmargin]
      omega

/-- After any calls, a request that finds a slot leads to the warning exactly if few slots are left then and
a removal has left more slots than the margin since the last warning. A request that finds none leads to
the other warning and changes nothing. Where the capacity is above the margin, the flag says
whether few slots are left, so the warning is given each time that their number falls to the margin. -/
theorem nearly_full_warnings (capacity margin : Nat) (ops : List Op) (op : Op) :
    let start := empty capacity margin
    let c : Call := ⟨(start.run ops).2, op⟩
    (c.Enters → (c.Warns ↔ c.next.free ≤ margin ∧ Relieved (start.calls ops)) ∧
      (c.Warns → c.logs = [c.next.nearlyFullLine]) ∧ (¬ c.Warns → c.logs = [])) ∧
    (c.IsRefused → ¬ c.Warns ∧ c.next = c.queue ∧
      ∃ r, op.request? = some r ∧ c.logs = [c.queue.fullLine r]) ∧
    (op.request? = none → c.logs = []) ∧
    (margin < capacity → (c.queue.reported = true ↔ c.queue.free ≤ margin) ∧
      (c.Warns ↔ margin < c.queue.free ∧ c.next.free ≤ margin)) := by
  intro start c
  have hmargin : c.queue.margin = margin := run_margin start ops
  have hwarns : c.Enters → (c.Warns ↔ c.next.free ≤ margin ∧ c.queue.reported = false) := by
    intro henters
    rw [Call.warns_iff henters, hmargin]
  refine ⟨?_, ?_, ?_, ?_⟩
  · intro henters
    refine ⟨?_, ?_, ?_⟩
    · -- the flag stands for the history
      rw [hwarns henters, reported_eq_false_iff]
    · intro hwarns
      exact (Call.filled henters).warned ((Call.warns_iff henters).1 hwarns)
    · intro hsilent
      exact (Call.filled henters).silent fun h => hsilent ((Call.warns_iff henters).2 h)
  · intro hrefused
    exact ⟨Call.not_warns_of_refused hrefused, Call.refused hrefused⟩
  · intro hremoval
    exact (Call.drained hremoval).1
  · intro habove
    -- the flag stands for the slots, so only a call that puts in can cross the margin
    have hflag := reported_iff_free_le habove ops
    refine ⟨hflag, ?_⟩
    have hdown : c.queue.reported = false ↔ margin < c.queue.free := by
      rw [← Bool.not_eq_true, hflag, Nat.not_le]
    rcases c.cases with henters | hrefused | hremoval
    · rw [hwarns henters, hdown]
      exact and_comm
    · rw [(Call.refused hrefused).1]
      constructor
      · intro hw
        exact absurd hw (Call.not_warns_of_refused hrefused)
      · rintro ⟨hmore, hfew⟩
        omega
    · have hfree := (Call.drained hremoval).2.free
      constructor
      · intro hw
        exact absurd hw (Call.not_warns_of_removal hremoval)
      · rintro ⟨hmore, hfew⟩
        omega

end HeatWatch.Queue
