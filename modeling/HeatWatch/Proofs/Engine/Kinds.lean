import HeatWatch.Proofs.Queue.Kinds
import HeatWatch.Proofs.Engine.Phases
import HeatWatch.Proofs.Engine.Line

/-!
# Requests of one kind on their way

A request of a kind waits in the queue, is taken by the task of the run, joins the line and is sent.
In runs in which none is shed, fails or is cleared, this way is a single lane: whoever holds a request
that it took is the task of the run, so there is at most one. Main statements:

* `taker_unique`: only one task takes requests for a run that goes on;
* `Steady.move`: what the single lane rests on is kept by every move.
-/

namespace HeatWatch

/-- The request that a task has taken from the queue, as long as it did not join the line. -/
def Duty.held? : Duty → Option Request
  | .exchange (.entry _ x) .join => some x.request
  | _ => none

/-- The request that a task exchanges. -/
def Duty.exchanged? : Duty → Option Request
  | .exchange p _ => some p.request
  | _ => none

/-- The lookup that a task makes for its caller. -/
def Duty.lookup? : Duty → Option Lookup
  | .consult l | .route l | .submit l | .await l => some l
  | .exchange (.lookup l) _ | .conclude (.lookup l) _ => some l
  | _ => none

/-- The request from the queue that failed. -/
def Duty.failed? : Duty → Option Request
  | .conclude (.entry _ x) (.error _) => some x.request
  | _ => none

/-- An exchange of the kind failed. -/
def Happening.fails (c : Request → Bool) : Happening → Bool
  | .exchanged _ p (.error _) => c p.request
  | _ => false

/-- The call throws the queue away. -/
def Queue.Op.isClear : Op → Bool
  | .clear => true
  | _ => false

/-- The host looks up a request of the kind. -/
def Move.looksUp (c : Request → Bool) : Move → Bool
  | .obey (.lookup l) => c l.request
  | _ => false

namespace Engine

/-- The requests of a kind that tasks have at their points. -/
def among (e : Engine) (f : Duty → Option Request) (c : Request → Bool) : List Request :=
  (e.tasks.values.filterMap fun t => f t.duty).filter c

/-- The requests of a kind between the queue and the line. -/
def held (e : Engine) (c : Request → Bool) : List Request := e.among Duty.held? c

/-- No request of a kind is queued or in flight. -/
def Idle (e : Engine) (c : Request → Bool) : Prop :=
  e.queue.kind c = [] ∧ e.among Duty.exchanged? c = []

instance (e : Engine) (c : Request → Bool) : Decidable (e.Idle c) :=
  inferInstanceAs (Decidable (_ ∧ _))

/-- No request of a kind is shed by a move, fails or is cleared, and none is a lookup. One that was
taken from the queue and did not join the line is cleared too if the engine stops. -/
structure Spares (e : Engine) (c : Request → Bool) (m : Move) : Prop where
  shed : ∀ a ∈ (e.queue.run (e.asks m)).1, a.sheds c = false
  failed : (e.shows m).any (·.fails c) = false
  cleared : (e.asks m).any (·.isClear) = true → e.queue.kind c = [] ∧ e.held c = []
  asked : m.looksUp c = false

instance (e : Engine) (c : Request → Bool) (m : Move) : Decidable (e.Spares c m) :=
  decidable_of_iff (_ ∧ _ ∧ _ ∧ _) ⟨fun h => ⟨h.1, h.2.1, h.2.2.1, h.2.2.2⟩,
    fun h => ⟨h.shed, h.failed, h.cleared, h.asked⟩⟩

/-- No move of a run sheds a request of a kind, lets one fail, or clears one. -/
def Undisturbed (c : Request → Bool) : Engine → List Move → Prop
  | _, [] => True
  | e, m :: ms => e.Spares c m ∧ (e.move m).Undisturbed c ms

instance Undisturbed.decidable (c : Request → Bool) :
    (e : Engine) → (ms : List Move) → Decidable (e.Undisturbed c ms)
  | _, [] => isTrue trivial
  | e, m :: ms =>
    have := decidable c (e.move m) ms
    inferInstanceAs (Decidable (e.Spares c m ∧ (e.move m).Undisturbed c ms))

variable {e : Engine} {id : TaskId} {d : Duty} {c : Request → Bool} {m : Move}

theorem mem_among {f : Duty → Option Request} {r : Request} :
    r ∈ e.among f c ↔ c r = true ∧ ∃ id d, e.duty? id = some d ∧ f d = some r := by
  unfold among
  rw [List.mem_filter, List.mem_filterMap]
  constructor
  · rintro ⟨⟨t, ht, hf⟩, hc⟩
    obtain ⟨⟨id, t'⟩, hmem, rfl⟩ := List.mem_map.1 ht
    have htask : e.task? id = some t' := (SortedMap.mem_entries_iff ..).1 hmem
    exact ⟨hc, id, t'.duty, duty?_of_task? htask, hf⟩
  · rintro ⟨hc, id, d, hd, hf⟩
    obtain ⟨t, ht, rfl⟩ := Option.map_eq_some_iff.1 hd
    exact ⟨⟨t, List.mem_map.2 ⟨(id, t), (SortedMap.mem_entries_iff ..).2 ht, rfl⟩, hf⟩, hc⟩

theorem held?_eq_some {r : Request} : d.held? = some r ↔
    ∃ root x, d = .exchange (.entry root x) .join ∧ x.request = r := by
  constructor
  · intro h
    unfold Duty.held? at h
    split at h
    case h_1 root x => exact ⟨root, x, rfl, Option.some.inj h⟩
    case h_2 => cases h
  · rintro ⟨root, x, rfl, rfl⟩
    rfl

theorem mem_held {r : Request} : r ∈ e.held c ↔ c r = true ∧
    ∃ id root x, e.duty? id = some (.exchange (.entry root x) .join) ∧ x.request = r := by
  unfold held
  rw [mem_among]
  constructor
  · rintro ⟨hc, id, d, hd, hheld⟩
    obtain ⟨root, x, rfl, hx⟩ := held?_eq_some.1 hheld
    exact ⟨hc, id, root, x, hd, hx⟩
  · rintro ⟨hc, id, root, x, hd, hx⟩
    exact ⟨hc, id, _, hd, held?_eq_some.2 ⟨root, x, rfl, hx⟩⟩

/-! ## The single lane -/

/-- What the way of a kind rests on: the line, a queue in which no caller waits for such a request, and
tasks that look up no such request, see none fail, and hold one only while the run goes on that they
take requests for. -/
structure Steady (e : Engine) (c : Request → Bool) : Prop where
  lined : e.Lined
  order : e.InOrder c
  unclaimed : e.queue.Unclaimed c
  asked : ∀ {id d l}, e.duty? id = some d → d.lookup? = some l → c l.request = false
  failed : ∀ {id d r}, e.duty? id = some d → d.failed? = some r → c r = false
  holders : ∀ {id root x}, e.duty? id = some (.exchange (.entry root x) .join) →
    c x.request = true → root ∈ e.permits

theorem steady_start (settings : EngineSettings) (service : Service) (observer : Option Observer)
    (script : Script) (c : Request → Bool) : (start settings service observer script).Steady c := by
  have hnone : ∀ {id d}, (start settings service observer script).duty? id ≠ some d := by
    intro id d h
    have hd : none = some d := h
    cases hd
  refine ⟨⟨List.nodup_nil, fun id => ⟨?_, ?_⟩, ?_⟩, ⟨rfl, ?_⟩, ?_, ?_, ?_, ?_⟩
  · exact fun h => absurd h List.not_mem_nil
  · rintro ⟨d, hd, -⟩
    exact absurd hd hnone
  · exact fun h => absurd h List.not_mem_nil
  · exact fun h => absurd h hnone
  · exact fun x h => absurd h List.not_mem_nil
  · exact fun h => absurd h hnone
  · exact fun h => absurd h hnone
  · exact fun h => absurd h hnone

/-- No move puts in a request of the kind for a caller. -/
theorem claims_of_asks (hasked : ∀ {id d l}, e.duty? id = some d → d.lookup? = some l →
    c l.request = false) {op : Queue.Op} (hop : op ∈ e.asks m) : op.claims c = false := by
  have hmove := e.asked m
  generalize e.asks m = ops at hmove hop
  cases hmove with
  | nothing => cases hop
  | clear | take =>
    rw [List.mem_singleton.1 hop]
    rfl
  | demand | poll =>
    obtain ⟨r, -, rfl⟩ := List.mem_map.1 hop
    exact Bool.and_false (c r)
  | @submit id l hready =>
    rw [List.mem_singleton.1 hop]
    show (c l.request && _) = false
    rw [hasked (duty?_of_ready? hready) rfl, Bool.false_and]
  | outage =>
    rcases List.mem_append.1 hop with hreplay | hwaiting
    · split at hreplay
      · rw [List.mem_singleton.1 hreplay]
        rfl
      · cases hreplay
    · rw [List.mem_singleton.1 hwaiting]
      rfl

/-- Callers are only taken out of the queue when a request fails while the run goes on. -/
theorem takeWaiting_mem_asks (h : Queue.Op.takeWaiting ∈ e.asks m) : ∃ id root x f,
    m = .act id ∧ e.ready? id = some (.conclude (.entry root x) (.error f)) ∧ root ∈ e.permits := by
  have hmove := e.asked m
  generalize e.asks m = ops at hmove h
  cases hmove with
  | nothing => cases h
  | clear | take | submit => cases List.mem_singleton.1 h
  | demand | poll =>
    obtain ⟨r, -, heq⟩ := List.mem_map.1 h
    cases heq
  | outage hready hf hin => exact ⟨_, _, _, _, rfl, hready, allows_iff.1 hin⟩

/-- A lookup begins when the host asks for it. -/
theorem lookup_of_begins (h : m.Begins d) {l : Lookup} (hl : d.lookup? = some l) :
    m = .obey (.lookup l) := by
  rcases h.cases with ⟨l', rfl, rfl⟩ | ⟨run, rfl⟩ | ⟨permit, p, delay, period, rfl⟩ | ⟨outage, rfl⟩
  · cases hl
    rfl
  · cases hl
  · cases hl
  · cases hl

/-- Nothing begins with a failure. -/
theorem failed?_of_begins (h : m.Begins d) : d.failed? = none := by
  rcases h.cases with ⟨l, -, rfl⟩ | ⟨run, rfl⟩ | ⟨permit, p, delay, period, rfl⟩ | ⟨outage, rfl⟩ <;>
    rfl

/-- A task goes on with the same lookup. -/
theorem lookup?_of_next {d' : Duty} {l : Lookup} (h : d.next e = some d')
    (hl : d'.lookup? = some l) : d.lookup? = some l := by
  cases d with
  | exchange p s =>
    cases hr : e.result? (.exchange p s) with
    | some r =>
      rw [Duty.next_of_result hr] at h
      cases h
      cases p <;> exact hl
    | none =>
      rw [Duty.next_of_none hr] at h
      cases h
      cases p <;> exact hl
  | take run =>
    unfold Duty.next at h
    cases hx : e.queue.entries.head? <;> grind [Duty.lookup?]
  | startPoll | poll | startProbe | probe | consult | route | submit | await =>
    unfold Duty.next at h
    grind [Duty.lookup?]
  | conclude p r =>
    unfold Duty.next at h
    grind [Duty.lookup?]

/-- A request fails when its task leaves the line without a body. -/
theorem failed?_of_next {d' : Duty} {r : Request} (h : d.next e = some d')
    (hr : d'.failed? = some r) :
    ∃ p s f, d = .exchange p s ∧ e.result? d = some (.error f) ∧ p.request = r := by
  cases d with
  | exchange p s =>
    cases hres : e.result? (.exchange p s) with
    | some result =>
      rw [Duty.next_of_result hres] at h
      cases h
      cases p with
      | entry root x =>
        cases result with
        | ok body => cases hr
        | error f => exact ⟨_, s, f, rfl, rfl, Option.some.inj hr⟩
      | probe | lookup => cases hr
    | none =>
      rw [Duty.next_of_none hres] at h
      cases h
      cases hr
  | take run =>
    unfold Duty.next at h
    cases hx : e.queue.entries.head? <;> grind [Duty.failed?]
  | startPoll | poll | startProbe | probe | consult | route | submit | await =>
    unfold Duty.next at h
    grind [Duty.failed?]
  | conclude p result =>
    unfold Duty.next at h
    grind [Duty.failed?]

/-- A task holds an entry when it has taken it. -/
theorem take_of_next {root : Permit} {x : Entry}
    (h : d.next e = some (.exchange (.entry root x) .join)) :
    d = .take root ∧ root ∈ e.permits ∧ e.queue.entries.head? = some x := by
  cases d with
  | exchange p s =>
    cases hres : e.result? (.exchange p s) with
    | some result =>
      rw [Duty.next_of_result hres] at h
      cases h
    | none =>
      rw [Duty.next_of_none hres] at h
      cases s <;> cases h
  | take run =>
    rw [Duty.next_take] at h
    split at h
    case isTrue hin =>
      cases hx : e.queue.entries.head? with
      | none =>
        rw [hx] at h
        cases h
      | some y =>
        rw [hx] at h
        cases h
        exact ⟨rfl, allows_iff.1 hin, rfl⟩
    case isFalse => cases h
  | startPoll | poll | startProbe | probe | consult | route | submit | await =>
    unfold Duty.next at h
    grind
  | conclude p result =>
    unfold Duty.next at h
    grind

theorem asks_of_take {root : Permit} (hready : e.ready? id = some (.take root))
    (hin : root ∈ e.permits) : e.asks (.act id) = [.pop] := by
  rw [asks_of_ready hready]
  exact if_pos (allows_iff.2 hin)

/-- Only one task takes requests for a run that goes on. -/
theorem taker_unique (hr : e.roster.Orderly) {id' : TaskId} {root root' : Permit}
    (hw : e.post? id = some (.taker root)) (hin : root ∈ e.permits)
    (hw' : e.post? id' = some (.taker root')) (hin' : root' ∈ e.permits) : id = id' := by
  -- both take for the run of the phase
  obtain ⟨run, hphase, rfl⟩ := hr.taker hw hin
  obtain ⟨run', hphase', rfl⟩ := hr.taker hw' hin'
  cases hphase.symm.trans hphase'
  exact hr.once hw hw' rfl hin

/-- A task that holds an entry of the run that goes on keeps the run going. -/
theorem root_of_held (hr : e.roster.Orderly) {root : Permit} {x : Entry}
    (hd : e.duty? id = some (.exchange (.entry root x) .join)) (hin : root ∈ e.permits)
    (hclear : Queue.Op.clear ∉ e.asks m) : root ∈ (e.move m).permits := by
  have hpost : e.post? id = some (.taker root) := post?_of_duty? hd
  obtain ⟨run, hphase, rfl⟩ := hr.taker hpost hin
  refine root_of_kept hr hphase hclear fun hwaiting => ?_
  -- the one whose request fails would be the same task
  obtain ⟨id', root', x', f, -, hready, hin'⟩ := takeWaiting_mem_asks hwaiting
  have hpost' : e.post? id' = some (.taker root') := post?_of_ready? hready
  obtain rfl := taker_unique hr hpost hin hpost' hin'
  cases hd.symm.trans (duty?_of_ready? hready)

/-- Lookups of the kind are only made by calls of the host. -/
theorem Steady.asked_move (h : e.Steady c) (hk : e.Known) (hs : e.Spares c m) {l : Lookup}
    (hd : (e.move m).duty? id = some d) (hl : d.lookup? = some l) : c l.request = false := by
  rcases move_duty_cases hk hd with ⟨d₀, rfl, hready, hnext⟩ | ⟨d₀, hd₀, hpass⟩ | hbegins
  · exact h.asked (duty?_of_ready? hready) (lookup?_of_next hnext hl)
  · cases hpass with
    | refl => exact h.asked hd₀ hl
    | told l' r => exact h.asked hd₀ hl
  · obtain rfl := lookup_of_begins hbegins hl
    exact hs.asked

/-- A task sees a request fail when it leaves the line. -/
theorem Steady.failed_move (h : e.Steady c) (hk : e.Known) (hs : e.Spares c m) {r : Request}
    (hd : (e.move m).duty? id = some d) (hr : d.failed? = some r) : c r = false := by
  rcases move_duty_cases hk hd with ⟨d₀, rfl, hready, hnext⟩ | ⟨d₀, hd₀, hpass⟩ | hbegins
  · obtain ⟨p, s, f, rfl, hresult, rfl⟩ := failed?_of_next hnext hr
    obtain ⟨p', s', heq, hshows, -⟩ := shows_of_result? hready hresult
    cases heq
    have hfails := hs.failed
    rw [hshows] at hfails
    exact hfails
  · cases hpass with
    | refl => exact h.failed hd₀ hr
    | told l' r' => cases hr
  · rw [failed?_of_begins hbegins] at hr
    cases hr

/-- Whoever holds a request holds it for the run that goes on. -/
theorem Steady.holders_move (h : e.Steady c) (hr : e.roster.Orderly) (hs : e.Spares c m)
    {root : Permit} {x : Entry}
    (hd : (e.move m).duty? id = some (.exchange (.entry root x) .join)) (hc : c x.request = true) :
    root ∈ (e.move m).permits := by
  rcases move_duty_cases (known_of_orderly hr) hd with
    ⟨d₀, rfl, hready, hnext⟩ | ⟨d₀, hd₀, hpass⟩ | hbegins
  · -- it has just taken the request, so nothing else was asked of the queue
    obtain ⟨rfl, hin, -⟩ := take_of_next hnext
    obtain ⟨run, hphase, rfl⟩ := hr.taker (post?_of_ready? hready) hin
    have hasks := asks_of_take hready hin
    refine root_of_kept hr hphase (fun hmem => ?_) fun hmem => ?_
    · rw [hasks] at hmem
      cases List.mem_singleton.1 hmem
    · rw [hasks] at hmem
      cases List.mem_singleton.1 hmem
  · cases hpass
    refine root_of_held hr hd₀ (h.holders hd₀ hc) fun hclear => ?_
    have hnone := (hs.cleared (List.any_eq_true.2 ⟨_, hclear, rfl⟩)).2
    have hmem : x.request ∈ e.held c := mem_held.2 ⟨hc, id, root, x, hd₀, rfl⟩
    rw [hnone] at hmem
    cases hmem
  · exact absurd hbegins Move.not_begins_exchange

/-- What the single lane rests on is kept by every move. -/
theorem Steady.move (h : e.Steady c) (hr : e.roster.Orderly) (hs : e.Spares c m) :
    (e.move m).Steady c where
  lined := h.lined.move (known_of_orderly hr) m
  order := by
    refine h.order.move h.lined (known_of_orderly hr) fun id p f hshows => ?_
    have hfails := hs.failed
    rw [hshows] at hfails
    exact hfails
  unclaimed := by
    rw [move_queue]
    exact h.unclaimed.run fun op hop => claims_of_asks h.asked hop
  asked hd hl := h.asked_move (known_of_orderly hr) hs hd hl
  failed hd hfailed := h.failed_move (known_of_orderly hr) hs hd hfailed
  holders hd hc := h.holders_move hr hs hd hc

end Engine

end HeatWatch
