import HeatWatch.Proofs.Engine.RoundTrips

/-!
# Callers that no one serves

A caller looks at the phase and puts its request into the queue later. If the run ends in between, the
request gets into a queue from which nothing is taken. Main statements:

* `waiting_at_rest`: how a request of a caller can be in the queue while there is no run;
* `Rests.waits`: its caller waits as long as no run starts and nothing stops;
* `stranded_iff`: exactly which runs of the engine leave a caller behind like this.
-/

namespace HeatWatch

namespace Engine

variable {e s : Engine} {id : TaskId} {m : Move} {x : Entry} {l : Lookup}

/-- There is no run, a run starts at none of the moves, and none of them stops the engine. -/
def Rests (e : Engine) : List Move → Prop
  | [] => e.phase.isActive = false
  | m :: ms => e.phase.isActive = false ∧ m.stops e.table = false ∧ (e.move m).Rests ms

theorem Rests.first {ms : List Move} (h : e.Rests ms) : e.phase.isActive = false := by
  cases ms with
  | nil => exact h
  | cons m ms => exact h.1

theorem rests_concat {ms : List Move} : e.Rests (ms ++ [m]) ↔
    e.Rests ms ∧ m.stops (e.follow ms).table = false ∧
      ((e.follow ms).move m).phase.isActive = false := by
  induction ms generalizing e with
  | nil => exact Iff.rfl
  | cons m' ms ih =>
    show (_ ∧ _ ∧ (e.move m').Rests (ms ++ [m])) ↔ (_ ∧ _ ∧ (e.move m').Rests ms) ∧ _
    rw [ih]
    simp only [follow_cons, and_assoc]

/-! ## Steps -/

/-- A request of a caller is in the queue, so the queue was not cleared and callers were not taken out
of it by the last move. -/
theorem not_cleared (hx : x ∈ (e.move m).queue.entries) (hcaller : x.caller = some id) :
    Queue.Op.clear ∉ e.asks m ∧ Queue.Op.takeWaiting ∉ e.asks m := by
  have hqueue := move_queue e m
  have hasked := e.asked m
  generalize e.asks m = ops at hqueue hasked
  have hmem : x ∈ (e.queue.run ops).2.entries := hqueue ▸ hx
  cases hasked with
  | nothing => exact ⟨List.not_mem_nil, List.not_mem_nil⟩
  | clear =>
    have hnone : x ∈ e.queue.clear.entries := hmem
    rw [Queue.clear_entries] at hnone
    cases hnone
  | take | submit => constructor <;> exact fun hin => by cases List.mem_singleton.1 hin
  | demand | poll =>
    constructor <;>
    · intro hin
      obtain ⟨r, -, heq⟩ := List.mem_map.1 hin
      cases heq
  | outage =>
    have hwaits : ∀ q : Queue, x ∉ q.takeWaiting.2.entries := by
      intro q hin
      rw [Queue.takeWaiting_entries, List.mem_filter, hcaller] at hin
      exact Bool.false_ne_true hin.2
    split at hmem <;> exact absurd hmem (hwaits _)

/-- A request of a caller that is in the queue while there is no run was there before the last move
without a run too, or the caller has just put it in. -/
theorem waiting_at_rest (hr : e.roster.Orderly) (hrest : (e.move m).phase.isActive = false)
    (hx : x ∈ (e.move m).queue.entries) (hcaller : x.caller = some id) :
    e.phase.isActive = false ∧ m.stops e.table = false ∧
      (x ∈ e.queue.entries ∨ ∃ l, m = .act id ∧ e.ready? id = some (.submit l) ∧
        e.queue.size < e.queue.capacity) := by
  obtain ⟨hclear, hwaiting⟩ := not_cleared hx hcaller
  refine ⟨?_, ?_, ?_⟩
  · -- a run would go on
    refine Bool.eq_false_iff.2 fun hactive => ?_
    obtain ⟨run, hphase⟩ := Phase.isActive_iff.1 hactive
    have hphase' := active_of_kept hr hphase hclear hwaiting
    exact Bool.false_ne_true (hrest.symm.trans (Phase.isActive_iff.2 ⟨_, hphase'⟩))
  · cases m with
    | obey c =>
      refine Bool.eq_false_iff.2 fun hstops => hclear ?_
      have hasks : e.asks (.obey c) = [.clear] := if_pos hstops
      rw [hasks]
      exact List.mem_singleton_self _
    | act | elapse | pass | plan => rfl
  · rcases queued_move hx with hold | henters
    · exact .inl hold
    · cases henters with
      | demand => cases hcaller
      | poll => cases hcaller
      | again => cases hcaller
      | submit hready hroom =>
        cases hcaller
        exact .inr ⟨_, rfl, hready, hroom⟩

/-- While there is no run, nothing but a stop takes a request out of the queue. -/
theorem queued_at_rest (hr : e.roster.Orderly) (hrest : e.phase.isActive = false)
    (hstops : m.stops e.table = false) (hx : x ∈ e.queue.entries) :
    x ∈ (e.move m).queue.entries := by
  have hno : ∀ {taker run : Nat}, e.post? taker = some (.taker run) → ¬ e.allows run = true := by
    intro taker run hpost hin
    obtain ⟨run', hphase, -⟩ := hr.taker hpost (allows_iff.1 hin)
    exact Bool.false_ne_true (hrest.symm.trans (Phase.isActive_iff.2 ⟨run', hphase⟩))
  rw [move_queue]
  have hasked := e.asked m
  generalize e.asks m = ops at hasked
  cases hasked with
  | nothing => exact hx
  | clear hclears => cases hstops.symm.trans hclears
  | take hready hin => exact absurd hin (hno (post?_of_ready? hready))
  | outage hready hf hin => exact absurd hin (hno (post?_of_ready? hready))
  | submit => exact Queue.mem_run_of_pushes (fun op hop => List.mem_singleton.1 hop ▸ rfl) hx
  | demand | poll =>
    refine Queue.mem_run_of_pushes (fun op hop => ?_) hx
    obtain ⟨r, -, rfl⟩ := List.mem_map.1 hop
    rfl

/-! ## Runs -/

theorem Rests.queued {ms : List Move} (h : e.Rests ms) (hr : e.roster.Orderly)
    (hx : x ∈ e.queue.entries) : x ∈ (e.follow ms).queue.entries := by
  induction ms generalizing e with
  | nil => exact hx
  | cons m ms ih =>
    obtain ⟨hrest, hstops, hlater⟩ := h
    exact ih hlater ((move_evolves hr m).orderly hr) (queued_at_rest hr hrest hstops hx)

/-- A caller put its request into the queue while there was no run, and waits for it since. -/
def Strands (s : Engine) (ms : List Move) (id : TaskId) : Prop :=
  ∃ before l rest, ms = before ++ .act id :: rest ∧ (s.follow before).ready? id = some (.submit l) ∧
    (s.follow before).queue.size < (s.follow before).queue.capacity ∧
    (s.follow before).Rests (.act id :: rest)

theorem strands_iff (hr : s.roster.Orderly) (hempty : s.queue.entries = []) {ms : List Move}
    (hrest : (s.follow ms).phase.isActive = false) :
    (∃ x ∈ (s.follow ms).queue.entries, x.caller = some id) ↔ s.Strands ms id := by
  constructor
  · rintro ⟨x, hx, hcaller⟩
    induction ms using List.reverseRecOn with
    | nil =>
      rw [follow_nil, hempty] at hx
      cases hx
    | append_singleton ms m ih =>
      have hr' : (s.follow ms).roster.Orderly := (follow_evolves hr ms).orderly hr
      rw [follow_append] at hrest hx
      obtain ⟨hbefore, hstops, hold | ⟨l, rfl, hready, hroom⟩⟩ :=
        waiting_at_rest hr' hrest hx hcaller
      · obtain ⟨before, l, rest, rfl, hready, hroom, hrests⟩ := ih hbefore hold
        refine ⟨before, l, rest ++ [m], by simp, hready, hroom, ?_⟩
        rw [← List.cons_append, rests_concat]
        rw [follow_append] at hstops hrest
        exact ⟨hrests, hstops, hrest⟩
      · exact ⟨ms, l, [], rfl, hready, hroom, hbefore, hstops, hrest⟩
  · rintro ⟨before, l, rest, rfl, hready, hroom, hbefore, hstops, hrests⟩
    have hr' : (s.follow before).roster.Orderly := (follow_evolves hr before).orderly hr
    refine ⟨(s.follow before).queue.entryFor l.request (some id) .head, ?_, rfl⟩
    rw [follow_append, follow_cons]
    refine hrests.queued ((move_evolves hr' _).orderly hr') ?_
    exact (mem_submit hready).2 (.inr ⟨hroom, rfl⟩)

/-- The caller of a request in the queue waits as long as no run starts and nothing stops. -/
theorem Rests.waits {ms : List Move} (h : e.Rests ms) (hr : e.roster.Orderly) (ha : e.Attended)
    (hx : x ∈ e.queue.entries) (hcaller : x.caller = some id) (hd : e.duty? id = some (.await l)) :
    (e.follow ms).duty? id = some (.await l) := by
  induction ms generalizing e with
  | nil => exact hd
  | cons m ms ih =>
    obtain ⟨hrest, hstops, hlater⟩ := h
    have hx' : x ∈ (e.move m).queue.entries := queued_at_rest hr hrest hstops hx
    have hquiet : id ∉ e.callers m := ha.not_told_queued hr hx hx' hcaller
    exact ih hlater ((move_evolves hr m).orderly hr) (ha.move hr m) hx'
      (await_move (known_of_orderly hr) hd hquiet)

/-- While there is no run, a caller has a request in the queue exactly if it chose the queue in a run
and put the request into it when there was a free slot but no run any more, and since then no run
started and nothing stopped. Then it waits, and goes on waiting as long as that is so. -/
theorem stranded_iff (settings : EngineSettings) (service : Service) (observer : Option Observer)
    (script : Script) (ms : List Move) (id : TaskId)
    (hrest : ((start settings service observer script).follow ms).phase.isActive = false) :
    let s := start settings service observer script
    let e := s.follow ms
    ((∃ x ∈ e.queue.entries, x.caller = some id) ↔ ∃ first l second rest,
      ms = first ++ .act id :: (second ++ .act id :: rest) ∧
        (s.follow first).ready? id = some (.route l) ∧ (s.follow first).phase.isActive = true ∧
        let e' := s.follow (first ++ .act id :: second)
        e'.ready? id = some (.submit l) ∧ e'.queue.size < e'.queue.capacity ∧
          e'.Rests (.act id :: rest)) ∧
    ((∃ x ∈ e.queue.entries, x.caller = some id) → ∃ l, e.duty? id = some (.await l) ∧
      ∀ ms', e.Rests ms' → (e.follow ms').duty? id = some (.await l)) := by
  intro s e
  have hr : s.roster.Orderly := start_orderly settings service observer script
  have hr' : e.roster.Orderly := follow_orderly settings service observer script ms
  have ha : e.Attended := (attended_start settings service observer script).follow hr ms
  refine ⟨⟨fun hqueued => ?_, ?_⟩, ?_⟩
  · obtain ⟨before, l, rest, hms, hready, hroom, hrests⟩ := (strands_iff hr rfl hrest).1 hqueued
    -- whoever puts a request into the queue has chosen it before
    have hnone : ∀ id d, s.duty? id = some d → d.routed? = none := fun id d hd => by cases hd
    have hrouted : (Duty.submit l).routed? = some (l, true) := rfl
    obtain ⟨first, second, rfl, hroute, hactive⟩ :=
      routed_follow hr hnone before (duty?_of_ready? hready) hrouted
    refine ⟨first, l, second, rest, ?_, hroute, hactive, hready, hroom, hrests⟩
    rw [hms, List.append_assoc, List.cons_append]
  · rintro ⟨first, l, second, rest, hms, -, -, hready, hroom, hrests⟩
    refine (strands_iff hr rfl hrest).2 ⟨first ++ .act id :: second, l, rest, ?_, hready, hroom, hrests⟩
    rw [hms, List.append_assoc, List.cons_append]
  · rintro ⟨x, hx, hcaller⟩
    obtain ⟨l, hd, -⟩ := ha.queued hx hcaller
    exact ⟨l, hd, fun ms' hrests => hrests.waits hr' ha hx hcaller hd⟩

/-- A caller looks at the phase, the host shuts the engine down, and the caller puts its request into
the queue: it waits until someone starts another run or stops the engine again. -/
theorem stranded_by_shutdown :
    let e := (start .default ⟨"http://localhost", 1000⟩ none ⟨[], [], [], 0, 0⟩).follow
      [.obey (.addListener ⟨1⟩ .silent), .obey (.lookup .systems), .act 5, .act 5, .obey .shutdown,
        .act 5]
    e.phase = .dormant ∧ (∃ x ∈ e.queue.entries, x.caller = some 5) ∧
      ∃ l, e.duty? 5 = some (.await l) ∧
        ∀ ms', e.Rests ms' → (e.follow ms').duty? 5 = some (.await l) := by
  intro e
  have hqueued : ∃ x ∈ e.queue.entries, x.caller = some 5 :=
    ⟨⟨.listSystems, some 5, .head, false, 0⟩, List.mem_cons_self, rfl⟩
  exact ⟨rfl, hqueued, (stranded_iff .default ⟨"http://localhost", 1000⟩ none ⟨[], [], [], 0, 0⟩
    [.obey (.addListener ⟨1⟩ .silent), .obey (.lookup .systems), .act 5, .act 5, .obey .shutdown,
      .act 5] 5 rfl).2 hqueued⟩

end Engine

end HeatWatch
