import HeatWatch.Proofs.Engine.Kinds
import HeatWatch.Proofs.Queue.Demands

/-!
# Entries on their way

Where an entry can be: it waits in the queue, or a task has taken it and did not finish with it. The
number that it got when it was put in stays with it, also when it is put in again. Main statements:

* `Enters`: the ways in which an entry gets into the queue;
* `queued_move`, `taken_move`, `held_move`: where an entry was before a move;
* `Numbered.move`: no number is given twice;
* `Alone.follow`: an entry of a caller stays the only one with its number.
-/

namespace HeatWatch

/-- The entry of the queue that a task has taken. -/
def Duty.entry? : Duty → Option Entry
  | .exchange (.entry _ x) _ | .conclude (.entry _ x) _ => some x
  | _ => none

namespace Queue

variable {q : Queue} {ops : List Op} {x : Entry}

/-- An entry of the queue was there before, is new, or was put in again. -/
theorem mem_run (h : x ∈ (q.run ops).2.entries) : x ∈ q.entries ∨
    (∃ r caller p n, .push r caller p ∈ ops ∧ q.accepted ≤ n ∧ n < (q.run ops).2.accepted ∧
      x = ⟨r, caller, p, false, n⟩) ∨
    ∃ y, .replay y ∈ ops ∧ x = y.again := by
  induction ops generalizing q with
  | nil => exact .inl h
  | cons op ops ih =>
    have hlast : (q.run (op :: ops)).2 = ((q.apply op).2.run ops).2 := rfl
    rw [hlast] at h ⊢
    rcases ih h with hold | ⟨r, caller, p, n, hop, hge, hlt, rfl⟩ | ⟨y, hop, rfl⟩
    · -- the entry was there after the first call
      cases op with
      | push r caller p =>
        have hpushed : x ∈ (q.push r caller p).queue.entries := hold
        by_cases hs : q.size < q.capacity
        · rcases mem_push hpushed with hin | rfl
          · exact .inl hin
          · have hcount : (q.push r caller p).queue.accepted = q.accepted + 1 :=
              push_count_of_room hs r caller p
            have hle := (q.push r caller p).queue.run_accepted_le ops
            rw [hcount] at hle
            exact .inr (.inl ⟨r, caller, p, q.accepted, List.mem_cons_self, Nat.le_refl _, hle, rfl⟩)
        · rw [push_of_full hs] at hpushed
          exact .inl hpushed
      | replay y =>
        have hput : x ∈ (q.replay y).queue.entries := hold
        rcases mem_replay hput with hin | rfl
        · exact .inl hin
        · exact .inr (.inr ⟨y, List.mem_cons_self, rfl⟩)
      | pop =>
        have hleft : x ∈ q.pop.2.entries := hold
        rw [pop_entries] at hleft
        exact .inl (List.mem_of_mem_tail hleft)
      | takeWaiting =>
        have hleft : x ∈ q.takeWaiting.2.entries := hold
        rw [takeWaiting_entries] at hleft
        exact .inl (List.mem_filter.1 hleft).1
      | clear =>
        have hleft : x ∈ q.clear.entries := hold
        rw [clear_entries] at hleft
        cases hleft
    · exact .inr (.inl ⟨r, caller, p, n, List.mem_cons_of_mem _ hop,
        Nat.le_trans (q.apply_accepted_le op) hge, hlt, rfl⟩)
    · exact .inr (.inr ⟨y, List.mem_cons_of_mem _ hop, rfl⟩)

end Queue

namespace Engine

/-- The ways in which an entry gets into the queue: the host asks for a request, a poll is due, a caller
submits its lookup, or a request for which no caller waits fails and the run ends. -/
inductive Enters (e : Engine) : Move → Entry → Prop
  | demand {c : Command} {r : Request} {n : Nat} (hr : r ∈ c.demands) (hge : e.queue.accepted ≤ n)
      (hlt : n < (e.move (.obey c)).queue.accepted) :
      Enters e (.obey c) ⟨r, none, .head, false, n⟩
  | poll {id : TaskId} {permit : Permit} {p : Poll} {period due : Nat} {r : Request} {n : Nat}
      (hready : e.ready? id = some (.poll permit p period due)) (hr : r ∈ p.requests e.table)
      (hge : e.queue.accepted ≤ n) (hlt : n < (e.move (.act id)).queue.accepted) :
      Enters e (.act id) ⟨r, none, .tail, false, n⟩
  | submit {id : TaskId} {l : Lookup} (hready : e.ready? id = some (.submit l))
      (hroom : e.queue.size < e.queue.capacity) :
      Enters e (.act id) (e.queue.entryFor l.request (some id) .head)
  | again {id : TaskId} {run : Permit} {x : Entry} {f : RequestError}
      (hready : e.ready? id = some (.conclude (.entry run x) (.error f))) (hf : f.isServer = true)
      (hin : e.allows run = true) (hcaller : x.caller = none) : Enters e (.act id) x.again

/-- The entry waits in the queue, or a task has taken it. -/
def Holds (e : Engine) (x : Entry) : Prop :=
  x ∈ e.queue.entries ∨ ∃ id d, e.duty? id = some d ∧ d.entry? = some x

/-- No entry has a number that is still to be given. -/
def Numbered (e : Engine) : Prop := ∀ {x}, e.Holds x → x.serial < e.queue.accepted

/-- An entry is the only one with its number, which was given. -/
structure Alone (e : Engine) (x : Entry) : Prop where
  given : x.serial < e.queue.accepted
  only : ∀ {y}, e.Holds y → y.serial = x.serial → y = x

variable {e : Engine} {id : TaskId} {d : Duty} {m : Move} {x : Entry}

theorem accepted_le_move (e : Engine) (m : Move) :
    e.queue.accepted ≤ (e.move m).queue.accepted := by
  rw [move_queue]
  exact e.queue.run_accepted_le _

/-- An entry that is put in by a caller finds room. -/
theorem mem_submit {l : Lookup} (hready : e.ready? id = some (.submit l)) :
    x ∈ (e.move (.act id)).queue.entries ↔ x ∈ e.queue.entries ∨
      (e.queue.size < e.queue.capacity ∧ x = e.queue.entryFor l.request (some id) .head) := by
  have hqueue : (e.move (.act id)).queue = (e.queue.push l.request (some id) .head).queue := by
    rw [move_queue, asks_of_ready hready]
    rfl
  rw [hqueue]
  by_cases hroom : e.queue.size < e.queue.capacity
  · rw [Queue.push_head_of_room hroom, List.mem_append, List.mem_cons]
    have hsplit : x ∈ e.queue.entries ↔ x ∈ e.queue.entries.takeWhile (·.urgent) ∨
        x ∈ e.queue.entries.dropWhile (·.urgent) := by
      rw [← List.mem_append, List.takeWhile_append_dropWhile]
    rw [hsplit]
    constructor
    · rintro (hfront | hnew | hback)
      · exact .inl (.inl hfront)
      · exact .inr ⟨hroom, hnew⟩
      · exact .inl (.inr hback)
    · rintro ((hfront | hback) | ⟨-, hnew⟩)
      · exact .inl hfront
      · exact .inr (.inr hback)
      · exact .inr (.inl hnew)
  · rw [Queue.push_of_full hroom]
    exact ⟨.inl, fun h => h.elim (fun hin => hin) fun hnew => absurd hnew.1 hroom⟩

/-- An entry in the queue was there before the move, or got in by it. -/
theorem queued_move (h : x ∈ (e.move m).queue.entries) : x ∈ e.queue.entries ∨ e.Enters m x := by
  have hqueue : (e.move m).queue = (e.queue.run (e.asks m)).2 := move_queue e m
  have hmem : x ∈ (e.queue.run (e.asks m)).2.entries := hqueue ▸ h
  have haccepted : (e.move m).queue.accepted = (e.queue.run (e.asks m)).2.accepted :=
    congrArg Queue.accepted hqueue
  have hasked := e.asked m
  generalize e.asks m = ops at hmem hasked haccepted
  cases hasked with
  | nothing => exact .inl hmem
  | clear =>
    have hnone : x ∈ e.queue.clear.entries := hmem
    rw [Queue.clear_entries] at hnone
    cases hnone
  | take =>
    have hleft : x ∈ e.queue.pop.2.entries := hmem
    rw [Queue.pop_entries] at hleft
    exact .inl (List.mem_of_mem_tail hleft)
  | submit hready =>
    rcases (mem_submit hready).1 h with hold | ⟨hroom, rfl⟩
    · exact .inl hold
    · exact .inr (.submit hready hroom)
  | demand | poll =>
    rcases Queue.mem_run hmem with hold | ⟨r, caller, p, n, hop, hge, hlt, rfl⟩ | ⟨y, hop, rfl⟩
    · exact .inl hold
    · obtain ⟨r', hr, heq⟩ := List.mem_map.1 hop
      cases heq
      first
        | exact .inr (.demand hr hge (haccepted ▸ hlt))
        | exact .inr (.poll ‹_› hr hge (haccepted ▸ hlt))
    · obtain ⟨r', -, heq⟩ := List.mem_map.1 hop
      cases heq
  | outage hready hf hin =>
    rcases Queue.mem_run hmem with hold | ⟨r, caller, p, n, hop, -⟩ | ⟨y, hop, rfl⟩
    · exact .inl hold
    · rcases List.mem_append.1 hop with hreplay | hwaiting
      · split at hreplay
        · cases List.mem_singleton.1 hreplay
        · cases hreplay
      · cases List.mem_singleton.1 hwaiting
    · rcases List.mem_append.1 hop with hreplay | hwaiting
      · split at hreplay
        case isTrue hcaller =>
          cases List.mem_singleton.1 hreplay
          exact .inr (.again hready hf hin (Option.isNone_iff_eq_none.1 hcaller))
        case isFalse => cases hreplay
      · cases List.mem_singleton.1 hwaiting

/-- A task goes on with the entry that it has, or takes the first one of the queue. -/
theorem entry?_of_next {d' : Duty} (h : d.next e = some d') (hx : d'.entry? = some x) :
    d.entry? = some x ∨
      ∃ run, d = .take run ∧ run ∈ e.permits ∧ e.queue.entries.head? = some x := by
  cases d with
  | exchange p s =>
    left
    cases hr : e.result? (.exchange p s) with
    | some r =>
      rw [Duty.next_of_result hr] at h
      cases h
      cases p <;> exact hx
    | none =>
      rw [Duty.next_of_none hr] at h
      cases h
      cases p <;> exact hx
  | take run =>
    right
    rw [Duty.next_take] at h
    split at h
    case isTrue hin =>
      cases hhead : e.queue.entries.head? with
      | none =>
        rw [hhead] at h
        cases h
        cases hx
      | some y =>
        rw [hhead] at h
        cases h
        cases hx
        exact ⟨run, rfl, allows_iff.1 hin, rfl⟩
    case isFalse => cases h
  | startPoll | poll | startProbe | probe | consult | route | submit | await =>
    unfold Duty.next at h
    grind [Duty.entry?]
  | conclude p r =>
    unfold Duty.next at h
    grind [Duty.entry?]

/-- A task that has an entry after a move had it before, or has just taken it. -/
theorem taken_move (hk : e.Known) {d' : Duty} (hd' : (e.move m).duty? id = some d')
    (hx : d'.entry? = some x) : (∃ d, e.duty? id = some d ∧ d.entry? = some x) ∨
      ∃ run, m = .act id ∧ e.ready? id = some (.take run) ∧ run ∈ e.permits ∧
        e.queue.entries.head? = some x := by
  rcases move_duty_cases hk hd' with ⟨d, rfl, hready, hnext⟩ | ⟨d, hd, hpass⟩ | hbegins
  · rcases entry?_of_next hnext hx with hhad | ⟨run, rfl, hin, hhead⟩
    · exact .inl ⟨d, duty?_of_ready? hready, hhad⟩
    · exact .inr ⟨run, rfl, hready, hin, hhead⟩
  · cases hpass with
    | refl => exact .inl ⟨d', hd, hx⟩
    | told => cases hx
  · rcases hbegins.cases with ⟨l, -, rfl⟩ | ⟨run, rfl⟩ | ⟨permit, p, delay, period, rfl⟩ |
      ⟨outage, rfl⟩ <;> cases hx

/-- An entry that is under way after a move was so before, or got into the queue by it. -/
theorem held_move (hk : e.Known) (h : (e.move m).Holds x) : e.Holds x ∨ e.Enters m x := by
  rcases h with hqueued | ⟨id, d, hd, hx⟩
  · exact (queued_move hqueued).imp_left .inl
  · rcases taken_move hk hd hx with hhad | ⟨run, -, -, -, hhead⟩
    · exact .inl (.inr ⟨id, hhad⟩)
    · exact .inl (.inl (List.mem_of_mem_head? hhead))

/-- Whoever lets an entry get into the queue again has it. -/
theorem holds_of_conclude {run : Permit} {r : Except RequestError String}
    (hready : e.ready? id = some (.conclude (.entry run x) r)) : e.Holds x :=
  .inr ⟨id, _, duty?_of_ready? hready, rfl⟩

/-! ## Numbers -/

/-- An entry that gets into the queue is new, or another one with its number was there. -/
theorem Enters.serial (h : e.Enters m x) :
    (e.queue.accepted ≤ x.serial ∧ x.serial < (e.move m).queue.accepted) ∨
      ∃ y, e.Holds y ∧ y.caller = none ∧ x = y.again := by
  cases h with
  | demand hr hge hlt => exact .inl ⟨hge, hlt⟩
  | poll hready hr hge hlt => exact .inl ⟨hge, hlt⟩
  | again hready hf hin hcaller => exact .inr ⟨_, holds_of_conclude hready, hcaller, rfl⟩
  | submit hready hroom =>
    refine .inl ⟨Nat.le_refl _, ?_⟩
    rw [move_queue, asks_of_ready hready]
    show e.queue.accepted < (e.queue.push _ _ _).queue.accepted
    rw [Queue.push_count_of_room hroom]
    exact Nat.lt_succ_self _

theorem Numbered.move (h : e.Numbered) (hk : e.Known) (m : Move) : (e.move m).Numbered := by
  intro x hx
  rcases held_move hk hx with hheld | henters
  · exact Nat.lt_of_lt_of_le (h hheld) (e.accepted_le_move m)
  · rcases henters.serial with ⟨-, hlt⟩ | ⟨y, hy, -, rfl⟩
    · exact hlt
    · have hlt : y.serial < e.queue.accepted := h hy
      exact Nat.lt_of_lt_of_le hlt (e.accepted_le_move m)

/-- The entry of a caller is not put in again, so it stays the only one with its number. -/
theorem Alone.move (h : e.Alone x) (hk : e.Known) (hcaller : x.caller ≠ none) (m : Move) :
    (e.move m).Alone x where
  given := Nat.lt_of_lt_of_le h.given (e.accepted_le_move m)
  only {y} hy hserial := by
    rcases held_move hk hy with hheld | henters
    · exact h.only hheld hserial
    · rcases henters.serial with ⟨hge, -⟩ | ⟨z, hz, hnone, rfl⟩
      · exact absurd h.given (Nat.not_lt.2 (hserial ▸ hge))
      · obtain rfl := h.only hz hserial
        exact absurd hnone hcaller

theorem Alone.follow (h : e.Alone x) (hr : e.roster.Orderly) (hcaller : x.caller ≠ none)
    (ms : List Move) : (e.follow ms).Alone x :=
  orderly_induction (P := (·.Alone x)) (fun _ m hr h => h.move (known_of_orderly hr) hcaller m) h hr
    ms

/-- An entry that a caller puts into the queue is the only one with its number. -/
theorem alone_of_submit (h : e.Numbered) (hk : e.Known) {l : Lookup}
    (hready : e.ready? id = some (.submit l)) (hroom : e.queue.size < e.queue.capacity) :
    (e.move (.act id)).Alone (e.queue.entryFor l.request (some id) .head) where
  given := by
    have henters : e.Enters (.act id) (e.queue.entryFor l.request (some id) .head) :=
      .submit hready hroom
    rcases henters.serial with ⟨-, hlt⟩ | ⟨y, -, hnone, heq⟩
    · exact hlt
    · cases congrArg Entry.caller heq
  only {y} hy hserial := by
    have hnew : e.Enters (.act id) y := by
      rcases held_move hk hy with hheld | henters
      · exact absurd (h hheld) (Nat.not_lt.2 (Nat.le_of_eq hserial.symm))
      · exact henters
    cases hnew with
    | poll hready' => cases hready.symm.trans hready'
    | again hready' => cases hready.symm.trans hready'
    | submit hready' =>
      cases hready.symm.trans hready'
      rfl

theorem numbered_start (settings : EngineSettings) (service : Service) (observer : Option Observer)
    (script : Script) : (start settings service observer script).Numbered := by
  rintro x (hqueued | ⟨id, d, hd, -⟩)
  · cases hqueued
  · have hnone : none = some d := hd
    cases hnone

theorem Numbered.follow (h : e.Numbered) (hr : e.roster.Orderly) (ms : List Move) :
    (e.follow ms).Numbered :=
  orderly_induction (P := Numbered) (fun _ m hr h => h.move (known_of_orderly hr) m) h hr ms

end Engine

end HeatWatch
