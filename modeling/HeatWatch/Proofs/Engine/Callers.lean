import HeatWatch.Proofs.Engine.Custody
import HeatWatch.Proofs.Engine.Hearing
import HeatWatch.Proofs.Engine.Wire

/-!
# What becomes of callers

A caller chooses once between the queue and an exchange of its own. In the queue it waits for its
entry, which it has to itself, and is told by whoever handles the entry. Main statements:

* `Attended.move`: each entry of a caller has a caller that waits for it, and for no other one;
* `answered_iff`: the ways in which a caller is told the result of its request;
* `Answered.once`: it is told once.
-/

namespace HeatWatch

/-- The failure is one that an exchange can have. -/
def RequestError.isOfExchange : RequestError → Bool
  | .auth _ | .client .. | .server _ | .transport _ | .protocol _ => true
  | .parse _ | .queueFull _ | .cancelled => false

namespace Queue

variable {q : Queue} {ops : List Op}

/-- Only calls for a caller put in an entry of one. -/
theorem entered_callers (hops : ∀ op ∈ ops, op.claims (fun _ => true) = false) :
    ((q.run ops).1.flatMap (·.entered.toList)).filterMap (·.caller) = [] := by
  induction ops generalizing q with
  | nil => rfl
  | cons op ops ih =>
    obtain ⟨hop, htail⟩ := List.forall_mem_cons.1 hops
    show (((q.apply op).1 :: ((q.apply op).2.run ops).1).flatMap _).filterMap _ = []
    rw [List.flatMap_cons, List.filterMap_append, ih htail, List.append_nil]
    cases op with
    | push r caller p =>
      have hcaller : caller = none := by
        cases caller with
        | none => rfl
        | some c => cases hop
      subst hcaller
      unfold apply Insertion.answer
      dsimp only
      split <;> rfl
    | replay x =>
      unfold apply Insertion.answer
      dsimp only
      split <;> rfl
    | pop | takeWaiting | clear => rfl

/-- The callers in the queue are different if those before and those that come in are. -/
theorem run_callers_nodup (h : (q.callers ++
      ((q.run ops).1.flatMap (·.entered.toList)).filterMap (·.caller)).Nodup) :
    (q.run ops).2.callers.Nodup := by
  have hperm := (q.run_perm ops).filterMap (·.caller)
  rw [List.filterMap_append, List.filterMap_append] at hperm
  exact (List.nodup_append.1 (hperm.nodup_iff.1 h)).2.1

end Queue

namespace Engine

variable {e : Engine} {id taker c : TaskId} {d : Duty} {m : Move} {x y : Entry} {l : Lookup}
  {r : Except RequestError String}

/-! ## Results -/

theorem isOfExchange_of_outcome {response : HttpResponse} {f : RequestError}
    (h : response.outcome = .error f) : f.isOfExchange = true := by
  unfold HttpResponse.outcome at h
  split at h
  · cases h
  · split at h
    · cases h
    · split at h
      · cases h
        rfl
      · split at h <;> cases h <;> rfl

/-- An exchange fails for reasons of its own only. -/
theorem isOfExchange_of_result? {f : RequestError} (h : e.result? d = some (.error f)) :
    f.isOfExchange = true := by
  cases d with
  | exchange p s =>
    cases s with
    | join => cases h
    | send again =>
      unfold result? at h
      cases hfetch : e.script.fetch.1 with
      | ok token =>
        rw [hfetch] at h
        cases h
      | error f' =>
        rw [hfetch] at h
        cases h
        obtain ⟨message, rfl⟩ := Script.auth_of_fetch hfetch
        rfl
    | receive again a =>
      unfold result? at h
      cases a with
      | error message =>
        cases h
        rfl
      | ok response =>
        dsimp only at h
        split at h
        · cases h
        · exact isOfExchange_of_outcome (Option.some.inj h)
  | take | startPoll | poll | startProbe | probe | consult | route | submit | await | conclude =>
    cases h

/-- A task has a result when its exchange comes to an end, or when a caller finds the queue full. -/
theorem result_of_next {p : Purpose} (h : d.next e = some (.conclude p r)) :
    (∃ s, d = .exchange p s ∧ e.result? d = some r) ∨
      ∃ l, d = .submit l ∧ p = .lookup l ∧ ¬ e.queue.size < e.queue.capacity ∧
        r = .error (.queueFull e.queue.capacity) := by
  cases d with
  | exchange q s =>
    left
    cases hr : e.result? (.exchange q s) with
    | some r' =>
      rw [Duty.next_of_result hr] at h
      cases h
      exact ⟨s, rfl, rfl⟩
    | none =>
      rw [Duty.next_of_none hr] at h
      cases h
  | submit l =>
    right
    have hnext : some (if e.queue.size < e.queue.capacity then Duty.await l
        else .conclude (.lookup l) (.error (.queueFull e.queue.capacity))) =
        some (.conclude p r) := h
    split at hnext
    · cases hnext
    case isFalse hfull =>
      cases hnext
      exact ⟨l, rfl, rfl, hfull, rfl⟩
  | take run =>
    rw [Duty.next_take] at h
    split at h
    · cases hhead : e.queue.entries.head? <;> rw [hhead] at h <;> cases h
    · cases h
  | startPoll | poll | startProbe | probe | consult | route | await =>
    unfold Duty.next at h
    grind
  | conclude q r' =>
    unfold Duty.next at h
    grind

/-- The result of a request from the queue is the one with which it left the line. -/
def Truthful (e : Engine) : Prop := ∀ {id run x r}, e.duty? id = some (.conclude (.entry run x) r) →
  .exchanged id (.entry run x) r ∈ e.happenings ∧ ∀ f, r = .error f → f.isOfExchange = true

theorem mem_records_of_result? {p : Purpose} {s : Stage} (hready : e.ready? id = some (.exchange p s))
    (hr : e.result? (.exchange p s) = some r) : .exchanged id p r ∈ e.records (.act id) := by
  have hrecords : (Duty.exchange p s).records e id =
      s.records e id p ++ ((e.result? (.exchange p s)).map (.exchanged id p)).toList := rfl
  rw [records_of_ready hready, hrecords, hr]
  exact List.mem_append_right _ (List.mem_singleton_self _)

theorem Truthful.move (h : e.Truthful) (hk : e.Known) (m : Move) : (e.move m).Truthful := by
  intro id run x r hd
  rw [move_happenings, List.mem_append]
  rcases move_duty_cases hk hd with ⟨d, rfl, hready, hnext⟩ | ⟨d, hd, hpass⟩ | hbegins
  · rcases result_of_next hnext with ⟨s, rfl, hr⟩ | ⟨l, -, heq, -⟩
    · refine ⟨.inr (mem_records_of_result? hready hr), ?_⟩
      rintro f rfl
      exact isOfExchange_of_result? hr
    · cases heq
  · cases hpass with
    | refl => exact (h hd).imp_left .inl
  · rcases hbegins.cases with ⟨l, -, heq⟩ | ⟨run, heq⟩ | ⟨permit, p, delay, period, heq⟩ |
      ⟨outage, heq⟩ <;> cases heq

/-! ## Who tells whom -/

/-- A result is told to the caller of an entry: by the task that has taken it, by an outage, or because
everything ends. -/
inductive Tells (e : Engine) : Move → Entry → Except RequestError String → Prop
  | executed {taker : TaskId} {run : Permit} {x : Entry} {r : Except RequestError String}
      (hready : e.ready? taker = some (.conclude (.entry run x) r)) : Tells e (.act taker) x r
  | outage {taker : TaskId} {run : Permit} {x y : Entry} {f : RequestError}
      (hready : e.ready? taker = some (.conclude (.entry run x) (.error f)))
      (hf : f.isServer = true) (hin : e.allows run = true) (hy : y ∈ e.queue.entries) :
      Tells e (.act taker) y (.error f)
  | stopped {cmd : Command} {y : Entry} (hstops : cmd.stops e.table = true)
      (hy : y ∈ e.queue.entries) : Tells e (.obey cmd) y (.error .cancelled)

theorem mem_queue_callers {q : Queue} : c ∈ q.callers ↔ ∃ x ∈ q.entries, x.caller = some c :=
  List.mem_filterMap

theorem callers_of_ready (hready : e.ready? id = some d) : e.callers (.act id) = d.callers e := by
  show (e.ready? id).elim [] _ = _
  rw [hready]
  rfl

theorem word_of_ready (hready : e.ready? id = some d) : e.word (.act id) = d.word := by
  show (e.ready? id).elim _ Duty.word = _
  rw [hready]
  rfl

theorem Tells.word (h : e.Tells m x r) : e.word m = r := by
  cases h with
  | executed hready | outage hready => exact word_of_ready hready
  | stopped => rfl

/-- The callers that a move tells something are the ones of the entries that it handles. -/
theorem mem_callers (hr : e.roster.Orderly) :
    c ∈ e.callers m ↔ ∃ x r, e.Tells m x r ∧ x.caller = some c := by
  constructor
  · intro h
    cases m with
    | elapse | pass | plan => cases h
    | obey cmd =>
      have hmem : c ∈ if cmd.stops e.table then e.queue.callers else [] := h
      split at hmem
      case isTrue hstops =>
        obtain ⟨x, hx, hcaller⟩ := mem_queue_callers.1 hmem
        exact ⟨x, _, .stopped hstops hx, hcaller⟩
      case isFalse => cases hmem
    | act id =>
      cases hready : e.ready? id with
      | none =>
        have hmem : c ∈ (e.ready? id).elim [] (·.callers e) := h
        rw [hready] at hmem
        cases hmem
      | some d =>
        rw [callers_of_ready hready] at h
        unfold Duty.callers at h
        split at h
        case h_1 run x body => exact ⟨x, _, .executed hready, Option.mem_toList.1 h⟩
        case h_2 run x f =>
          rcases List.mem_append.1 h with hown | hqueue
          · exact ⟨x, _, .executed hready, Option.mem_toList.1 hown⟩
          · split at hqueue
            case isTrue hout =>
              obtain ⟨y, hy, hcaller⟩ := mem_queue_callers.1 hqueue
              exact ⟨y, _, .outage hready hout.1 hout.2.2 hy, hcaller⟩
            case isFalse => cases hqueue
        case h_3 => cases h
  · rintro ⟨x, r, htells, hcaller⟩
    cases htells with
    | @executed taker run _ _ hready =>
      rw [callers_of_ready hready]
      cases r with
      | ok body => exact Option.mem_toList.2 hcaller
      | error f => exact List.mem_append_left _ (Option.mem_toList.2 hcaller)
    | @outage taker run z _ f hready hf hin hy =>
      -- the run goes on, so the phase is an active one
      obtain ⟨run', hphase, -⟩ := hr.taker (post?_of_ready? hready) (allows_iff.1 hin)
      have hactive : e.phase.isActive = true := Phase.isActive_iff.2 ⟨run', hphase⟩
      rw [callers_of_ready hready]
      show c ∈ z.caller.toList ++ if _ then e.queue.callers else []
      rw [if_pos ⟨hf, hactive, hin⟩]
      exact List.mem_append_right _ (mem_queue_callers.2 ⟨x, hy, hcaller⟩)
    | @stopped cmd _ hstops hy =>
      show c ∈ if cmd.stops e.table then e.queue.callers else []
      rw [if_pos hstops]
      exact mem_queue_callers.2 ⟨x, hy, hcaller⟩

/-! ## Callers and their entries -/

/-- The entries of callers: for each of them its caller waits, and for no other one. -/
structure Attended (e : Engine) : Prop where
  queued : ∀ {x c}, x ∈ e.queue.entries → x.caller = some c →
    ∃ l, e.duty? c = some (.await l) ∧ l.request = x.request
  taken : ∀ {id d x c}, e.duty? id = some d → d.entry? = some x → x.caller = some c →
    ∃ l, e.duty? c = some (.await l) ∧ l.request = x.request
  once : e.queue.callers.Nodup
  apart : ∀ {id d x c}, e.duty? id = some d → d.entry? = some x → x.caller = some c →
    c ∉ e.queue.callers
  single : ∀ {id id' d d' x x' c}, e.duty? id = some d → d.entry? = some x → x.caller = some c →
    e.duty? id' = some d' → d'.entry? = some x' → x'.caller = some c → id = id'

/-- A caller that waits goes on waiting as long as it is not told anything. -/
theorem await_move (hk : e.Known) (hd : e.duty? c = some (.await l)) (hnot : c ∉ e.callers m) :
    (e.move m).duty? c = some (.await l) := by
  by_cases hm : m = .act c
  · subst hm
    cases hready : e.ready? c with
    | none =>
      rw [move_of_not_ready hready]
      exact hd
    | some d =>
      cases hd.symm.trans (duty?_of_ready? hready)
      exact move_own hk hready
  · rw [move_hears e m (hk.lt hd) hm, if_neg hnot]
    exact hd

/-- A task whose move takes an entry tells no one. -/
theorem callers_of_take {run : Permit} (hready : e.ready? id = some (.take run)) :
    e.callers (.act id) = [] := callers_of_ready hready

/-- The task that has taken an entry of a caller tells it nothing before it finishes with the entry. -/
theorem Attended.not_told (h : e.Attended) (hr : e.roster.Orderly) {d' : Duty}
    (hd : e.duty? id = some d) (hx : d.entry? = some x) (hcaller : x.caller = some c)
    (hd' : (e.move m).duty? id = some d') (hx' : d'.entry? = some x) : c ∉ e.callers m := by
  intro hmem
  obtain ⟨y, r, htells, hy⟩ := (mem_callers hr).1 hmem
  cases htells with
  | @executed taker run _ _ hready =>
    obtain rfl := h.single hd hx hcaller (duty?_of_ready? hready) rfl hy
    -- whoever has a result is done with its entry after its move
    rw [move_own (known_of_orderly hr) hready] at hd'
    unfold Duty.next at hd'
    grind [Duty.entry?]
  | outage hready hf hin hin' => exact h.apart hd hx hcaller (mem_queue_callers.2 ⟨y, hin', hy⟩)
  | stopped hstops hin' => exact h.apart hd hx hcaller (mem_queue_callers.2 ⟨y, hin', hy⟩)

/-- The first entry of the queue, and nothing else, leaves the callers in it. -/
theorem callers_of_head? {q : Queue} (hx : q.entries.head? = some x) (hcaller : x.caller = some c) :
    q.callers = c :: q.pop.2.callers := by
  obtain ⟨rest, hrest⟩ := List.head?_eq_some_iff.1 hx
  unfold Queue.callers
  rw [Queue.pop_entries, hrest, List.filterMap_cons_some hcaller, List.tail_cons]

/-- A caller whose entry is still in the queue was told nothing. -/
theorem Attended.not_told_queued (h : e.Attended) (hr : e.roster.Orderly)
    (hx : x ∈ e.queue.entries) (hx' : x ∈ (e.move m).queue.entries) (hcaller : x.caller = some c) :
    c ∉ e.callers m := by
  intro hmem
  have hmem' : c ∈ e.queue.callers := mem_queue_callers.2 ⟨x, hx, hcaller⟩
  obtain ⟨y, r, htells, hy⟩ := (mem_callers hr).1 hmem
  have hqueue := move_queue e m
  cases htells with
  | executed hready => exact h.apart (duty?_of_ready? hready) rfl hy hmem'
  | @outage taker run z _ f hready hf hin hin' =>
    -- an outage leaves no entry of a caller in the queue
    obtain ⟨run', hphase, -⟩ := hr.taker (post?_of_ready? hready) (allows_iff.1 hin)
    have hactive : e.phase.isActive = true := Phase.isActive_iff.2 ⟨run', hphase⟩
    have hasks : e.asks (.act taker) =
        (if z.caller.isNone then [.replay z] else []) ++ [.takeWaiting] := by
      rw [asks_of_ready hready]
      exact if_pos ⟨hf, hactive, hin⟩
    rw [hqueue, hasks] at hx'
    have hwaits : ∀ q : Queue, x ∉ q.takeWaiting.2.entries := by
      intro q hin
      rw [Queue.takeWaiting_entries, List.mem_filter, hcaller] at hin
      exact Bool.false_ne_true hin.2
    split at hx'
    · exact hwaits _ hx'
    · exact hwaits _ hx'
  | @stopped cmd _ hstops hin' =>
    have hasks : e.asks (.obey cmd) = [.clear] := if_pos hstops
    rw [hqueue, hasks] at hx'
    have hcleared : x ∈ e.queue.clear.entries := hx'
    rw [Queue.clear_entries] at hcleared
    cases hcleared

/-- A caller with an entry in the queue waits for it. -/
theorem Attended.queued_move (h : e.Attended) (hr : e.roster.Orderly)
    (hx : x ∈ (e.move m).queue.entries) (hcaller : x.caller = some c) :
    ∃ l, (e.move m).duty? c = some (.await l) ∧ l.request = x.request := by
  have hk : e.Known := known_of_orderly hr
  rcases Engine.queued_move hx with hold | henters
  · obtain ⟨l, hd, hrequest⟩ := h.queued hold hcaller
    exact ⟨l, await_move hk hd (h.not_told_queued hr hold hx hcaller), hrequest⟩
  · cases henters with
    | demand => cases hcaller
    | poll => cases hcaller
    | again => cases hcaller
    | @submit id l hready hroom =>
      cases hcaller
      refine ⟨l, ?_, rfl⟩
      rw [move_own hk hready]
      exact congrArg some (if_pos hroom)

/-- A caller whose entry was taken waits for it. -/
theorem Attended.taken_move (h : e.Attended) (hr : e.roster.Orderly) {d' : Duty}
    (hd' : (e.move m).duty? id = some d') (hx : d'.entry? = some x) (hcaller : x.caller = some c) :
    ∃ l, (e.move m).duty? c = some (.await l) ∧ l.request = x.request := by
  have hk : e.Known := known_of_orderly hr
  rcases Engine.taken_move hk hd' hx with ⟨d, hd, hhad⟩ | ⟨run, rfl, hready, -, hhead⟩
  · obtain ⟨l, hawait, hrequest⟩ := h.taken hd hhad hcaller
    exact ⟨l, await_move hk hawait (h.not_told hr hd hhad hcaller hd' hx), hrequest⟩
  · obtain ⟨l, hawait, hrequest⟩ := h.queued (List.mem_of_mem_head? hhead) hcaller
    refine ⟨l, await_move hk hawait ?_, hrequest⟩
    rw [callers_of_take hready]
    exact List.not_mem_nil

/-- Who waits for an entry has submitted its lookup before. -/
theorem not_await_of_submit (hready : e.ready? id = some (.submit l)) {l' : Lookup} :
    e.duty? id ≠ some (.await l') := by
  intro hd
  cases hd.symm.trans (duty?_of_ready? hready)

/-- A caller has at most one entry in the queue. -/
theorem Attended.once_move (h : e.Attended) (m : Move) : (e.move m).queue.callers.Nodup := by
  rw [move_queue]
  have hasked := e.asked m
  generalize e.asks m = ops at hasked
  have hunclaimed : (∀ op ∈ ops, op.claims (fun _ => true) = false) →
      (e.queue.run ops).2.callers.Nodup := by
    intro hops
    refine Queue.run_callers_nodup ?_
    rw [Queue.entered_callers hops, List.append_nil]
    exact h.once
  cases hasked with
  | nothing => exact h.once
  | clear | take => exact hunclaimed fun op hop => List.mem_singleton.1 hop ▸ rfl
  | demand | poll =>
    refine hunclaimed fun op hop => ?_
    obtain ⟨r, -, rfl⟩ := List.mem_map.1 hop
    rfl
  | outage =>
    refine hunclaimed fun op hop => ?_
    rcases List.mem_append.1 hop with hreplay | hwaiting
    · split at hreplay
      · exact List.mem_singleton.1 hreplay ▸ rfl
      · cases hreplay
    · exact List.mem_singleton.1 hwaiting ▸ rfl
  | @submit id l hready =>
    -- the callers in the queue wait, and this one does not
    refine Queue.run_callers_nodup ?_
    have hout : id ∉ e.queue.callers := by
      intro hmem
      obtain ⟨x, hx, hcaller⟩ := mem_queue_callers.1 hmem
      obtain ⟨l', hawait, -⟩ := h.queued hx hcaller
      exact not_await_of_submit hready hawait
    show (e.queue.callers ++ List.filterMap _ (List.flatMap _ [_])).Nodup
    unfold Queue.Insertion.answer
    split
    · have hnodup := h.once.concat hout
      rw [List.concat_eq_append] at hnodup
      exact hnodup
    · show (e.queue.callers ++ []).Nodup
      rw [List.append_nil]
      exact h.once

/-- A caller whose entry was taken has no other one in the queue. -/
theorem Attended.apart_move (h : e.Attended) (hr : e.roster.Orderly) {d' : Duty}
    (hd' : (e.move m).duty? id = some d') (hx : d'.entry? = some x) (hcaller : x.caller = some c) :
    c ∉ (e.move m).queue.callers := by
  intro hmem
  obtain ⟨y, hy, hy'⟩ := mem_queue_callers.1 hmem
  rcases Engine.taken_move (known_of_orderly hr) hd' hx with
    ⟨d, hd, hhad⟩ | ⟨run, rfl, hready, hin, hhead⟩
  · rcases Engine.queued_move hy with hold | henters
    · exact h.apart hd hhad hcaller (mem_queue_callers.2 ⟨y, hold, hy'⟩)
    · cases henters with
      | demand => cases hy'
      | poll => cases hy'
      | again => cases hy'
      | submit hready hroom =>
        cases hy'
        obtain ⟨l, hawait, -⟩ := h.taken hd hhad hcaller
        exact not_await_of_submit hready hawait
  · -- the entry was the only one of its caller in the queue
    have honce := h.once
    rw [callers_of_head? hhead hcaller, List.nodup_cons] at honce
    rw [move_queue, asks_of_take hready hin] at hmem
    exact honce.1 hmem

/-- Two tasks have no entries of one caller. -/
theorem Attended.single_move (h : e.Attended) (hk : e.Known) {id' : TaskId} {d d' : Duty}
    {x' : Entry} (hd : (e.move m).duty? id = some d) (hx : d.entry? = some x)
    (hcaller : x.caller = some c) (hd' : (e.move m).duty? id' = some d') (hx' : d'.entry? = some x')
    (hcaller' : x'.caller = some c) : id = id' := by
  rcases Engine.taken_move hk hd hx with ⟨d₀, hd₀, hhad⟩ | ⟨run, hm, -, -, hhead⟩ <;>
    rcases Engine.taken_move hk hd' hx' with ⟨d₀', hd₀', hhad'⟩ | ⟨run', hm', -, -, hhead'⟩
  · exact h.single hd₀ hhad hcaller hd₀' hhad' hcaller'
  -- who has an entry of the caller leaves none to take from the queue
  · have hmem : c ∈ e.queue.callers :=
      mem_queue_callers.2 ⟨x', List.mem_of_mem_head? hhead', hcaller'⟩
    exact absurd hmem (h.apart hd₀ hhad hcaller)
  · have hmem : c ∈ e.queue.callers :=
      mem_queue_callers.2 ⟨x, List.mem_of_mem_head? hhead, hcaller⟩
    exact absurd hmem (h.apart hd₀' hhad' hcaller')
  · exact Move.act.inj (hm.symm.trans hm')

/-- Each entry of a caller keeps its caller waiting. -/
theorem Attended.move (h : e.Attended) (hr : e.roster.Orderly) (m : Move) :
    (e.move m).Attended where
  queued hx hcaller := h.queued_move hr hx hcaller
  taken hd hx hcaller := h.taken_move hr hd hx hcaller
  once := h.once_move m
  apart hd hx hcaller := h.apart_move hr hd hx hcaller
  single hd hx hcaller hd' hx' hcaller' :=
    h.single_move (known_of_orderly hr) hd hx hcaller hd' hx' hcaller'

/-! ## Answers -/

/-- A caller is told the result of the request of its lookup by a move. -/
def Answered (e : Engine) (m : Move) (id : TaskId) (l : Lookup) (r : Except RequestError String) :
    Prop :=
  (∀ l' r', e.duty? id ≠ some (.conclude (.lookup l') r')) ∧
    (e.move m).duty? id = some (.conclude (.lookup l) r)

/-- The ways in which a caller is told a result: the queue is full, its own exchange ends, or it waits
for an entry and is told what became of that. -/
inductive Answers (e : Engine) : Move → TaskId → Lookup → Except RequestError String → Prop
  | full {id : TaskId} {l : Lookup} (hready : e.ready? id = some (.submit l))
      (hfull : ¬ e.queue.size < e.queue.capacity) :
      Answers e (.act id) id l (.error (.queueFull e.queue.capacity))
  | direct {id : TaskId} {l : Lookup} {s : Stage} {r : Except RequestError String}
      (hready : e.ready? id = some (.exchange (.lookup l) s))
      (hr : e.result? (.exchange (.lookup l) s) = some r) : Answers e (.act id) id l r
  | told {m : Move} {x : Entry} {id : TaskId} {l : Lookup} {r : Except RequestError String}
      (h : e.Tells m x r) (hcaller : x.caller = some id) (hd : e.duty? id = some (.await l))
      (hrequest : l.request = x.request) : Answers e m id l r

/-- Whoever is told something waits for that entry. -/
theorem Attended.awaits (h : e.Attended) (htells : e.Tells m x r) (hcaller : x.caller = some c) :
    ∃ l, e.duty? c = some (.await l) ∧ l.request = x.request := by
  cases htells with
  | executed hready => exact h.taken (duty?_of_ready? hready) rfl hcaller
  | outage hready hf hin hy => exact h.queued hy hcaller
  | stopped hstops hy => exact h.queued hy hcaller

/-- A caller is told the result of its request in one of these ways, and in each of them it is told. -/
theorem answered_iff (h : e.Attended) (hr : e.roster.Orderly) :
    e.Answered m id l r ↔ e.Answers m id l r := by
  have hk : e.Known := known_of_orderly hr
  constructor
  · rintro ⟨hnot, hd'⟩
    by_cases hm : m = .act id
    · subst hm
      cases hready : e.ready? id with
      | none =>
        rw [move_of_not_ready hready] at hd'
        exact absurd hd' (hnot l r)
      | some d =>
        rw [move_own hk hready] at hd'
        rcases result_of_next hd' with ⟨s, rfl, hres⟩ | ⟨l', rfl, heq, hfull, rfl⟩
        · exact .direct hready hres
        · cases heq
          exact .full hready hfull
    · rcases move_duty hk hm hd' with ⟨d, hd, hpass⟩ | ⟨-, hbegins⟩
      · cases hpass with
        | refl => exact absurd hd (hnot l r)
        | told =>
          have hhears := move_hears e m (hk.lt hd) hm
          rw [hd', hd] at hhears
          split at hhears
          case isTrue hmem =>
            obtain ⟨x, r', htells, hcaller⟩ := (mem_callers hr).1 hmem
            obtain ⟨l', hawait, hrequest⟩ := h.awaits htells hcaller
            have hword := htells.word
            cases hd.symm.trans hawait
            cases hhears
            exact .told (hword ▸ htells) hcaller hd hrequest
          case isFalse => cases hhears
      · rcases hbegins.cases with ⟨l, -, heq⟩ | ⟨run, heq⟩ | ⟨permit, p, delay, period, heq⟩ |
          ⟨outage, heq⟩ <;> cases heq
  · intro hanswers
    cases hanswers with
    | full hready hfull =>
      refine ⟨fun l' r' hd => ?_, ?_⟩
      · cases hd.symm.trans (duty?_of_ready? hready)
      · rw [move_own hk hready]
        exact congrArg some (if_neg hfull)
    | direct hready hres =>
      refine ⟨fun l' r' hd => ?_, ?_⟩
      · cases hd.symm.trans (duty?_of_ready? hready)
      · rw [move_own hk hready, Duty.next_of_result hres]
    | told htells hcaller hd hrequest =>
      have hm : m ≠ .act id := by
        rintro rfl
        cases htells with
        | executed hready => cases hd.symm.trans (duty?_of_ready? hready)
        | outage hready => cases hd.symm.trans (duty?_of_ready? hready)
      refine ⟨fun l' r' hd' => ?_, ?_⟩
      · cases hd.symm.trans hd'
      · rw [move_hears e m (hk.lt hd) hm, if_pos ((mem_callers hr).2 ⟨_, _, htells, hcaller⟩), hd,
          htells.word]
        rfl

/-- A task that has ended does not come back. -/
theorem gone_move (hr : e.roster.Orderly) (hlt : id < e.nextTask) (hnone : e.duty? id = none)
    (m : Move) : (e.move m).duty? id = none := by
  have hpost : e.post? id = none := by
    unfold post?
    rw [hnone]
    rfl
  have hgone : (e.move m).post? id = none := by
    rcases (move_evolves hr m).later.post hlt with hsame | hended
    · exact hsame.trans hpost
    · exact hended
  exact Option.map_eq_none_iff.1 hgone

/-- A caller that was told its result, or has ended. -/
def Settled (e : Engine) (id : TaskId) : Prop := id < e.nextTask ∧
  ∀ d, e.duty? id = some d → ∃ l r, d = .conclude (.lookup l) r

theorem Settled.move (h : e.Settled id) (hr : e.roster.Orderly) (m : Move) :
    (e.move m).Settled id := by
  have hk : e.Known := known_of_orderly hr
  refine ⟨Nat.lt_of_lt_of_le h.1 (move_evolves hr m).later.nextTask, fun d' hd' => ?_⟩
  cases hd : e.duty? id with
  | none => cases (gone_move hr h.1 hd m).symm.trans hd'
  | some d =>
    obtain ⟨l, r, rfl⟩ := h.2 d hd
    by_cases hm : m = .act id
    · subst hm
      cases hready : e.ready? id with
      | none =>
        rw [move_of_not_ready hready, hd] at hd'
        cases hd'
        exact ⟨l, r, rfl⟩
      | some d =>
        cases hd.symm.trans (duty?_of_ready? hready)
        rw [move_own hk hready] at hd'
        cases hd'
    · obtain ⟨d, hd₁, hpass⟩ := move_duty_of hk hm hd
      cases hd₁.symm.trans hd'
      cases hpass
      exact ⟨l, r, rfl⟩

theorem Settled.follow (h : e.Settled id) (hr : e.roster.Orderly) (ms : List Move) :
    (e.follow ms).Settled id :=
  orderly_induction (P := (·.Settled id)) (fun _ m hr h => h.move hr m) h hr ms

/-- A caller that was told its result is not told one again. -/
theorem Answered.once (h : e.Answered m id l r) (hr : e.roster.Orderly) (ms : List Move) {m' : Move}
    {l' : Lookup} {r' : Except RequestError String} :
    ¬ ((e.move m).follow ms).Answered m' id l' r' := by
  have hr' : (e.move m).roster.Orderly := (move_evolves hr m).orderly hr
  have hlt : id < (e.move m).nextTask := (known_of_orderly hr').lt h.2
  have hsettled : (e.move m).Settled id :=
    ⟨hlt, fun d hd => ⟨l, r, Option.some.inj (hd.symm.trans h.2)⟩⟩
  have hlast := hsettled.follow hr' ms
  have hr'' : ((e.move m).follow ms).roster.Orderly := (follow_evolves hr' ms).orderly hr'
  rintro ⟨hnot, hd'⟩
  generalize (e.move m).follow ms = e' at hlast hr'' hnot hd'
  have hnone : e'.duty? id = none := by
    refine Option.eq_none_iff_forall_ne_some.2 fun d hd => ?_
    obtain ⟨l, r, rfl⟩ := hlast.2 d hd
    exact hnot l r hd
  cases (gone_move hr'' hlast.1 hnone m').symm.trans hd'

end Engine

end HeatWatch
