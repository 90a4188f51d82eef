import HeatWatch.Proofs.Table.Kept
import HeatWatch.Proofs.Engine.Kinds

/-!
# The last word about a topic

What the host submits is sent before all periodic requests, so a periodic request with an older value
that waits in the queue is sent after it. Which value is sent last depends on the request that stands
hindmost in the queue. Main statements:

* `kept?_move_of_other`: only the host changes what is submitted again;
* `Steady.hindmost`: the hindmost request about a topic stays the one that is sent last;
* `latest_sent_last_iff`: the latest value is sent last exactly if it stood hindmost at some moment;
* `older_sent_last`: so it is not always.
-/

namespace HeatWatch

/-! ## What the host asked for -/

/-- A call that submits something makes one request, and stops nothing. -/
theorem Command.demands_of_topic {cmd : Command} {r : Request} {topic : Topic}
    (hr : r ∈ cmd.demands) (ht : r.topic? = some topic) (t : SystemTable) :
    cmd.demands = [r] ∧ cmd.stops t = false := by
  cases cmd with
  | setMode | setThermostat =>
    obtain rfl := List.mem_singleton.1 hr
    exact ⟨rfl, rfl⟩
  | requestParameters =>
    rw [Request.topic?_of_mem_readParameters hr] at ht
    cases ht
  | requestSystem | requestStatus | requestAlarm | requestSoftware | requestMode | setParameters =>
    obtain rfl := List.mem_singleton.1 hr
    cases ht
  | addListener | removeListener | lookup | removeThermostat | addTracked | removeTracked
  | setUpdateInterval | setSoftwareDays | shutdown => cases hr

/-- What the host submits is what is submitted again, unless it is the default. -/
theorem Command.kept?_tabled_of_demand {cmd : Command} {r : Request} {topic : Topic}
    (hr : r ∈ cmd.demands) (ht : r.topic? = some topic) (t : SystemTable) {q : Request}
    (hq : (cmd.tabled t).kept? topic = some q) : q = r := by
  cases cmd with
  | setMode id mode =>
    obtain rfl := List.mem_singleton.1 hr
    cases ht
    have hkept : (t.setMode id mode).kept? (.mode id) = some q := hq
    rw [SystemTable.kept?_setMode, if_pos rfl] at hkept
    split at hkept
    · cases hkept
    · exact (Option.some.inj hkept).symm
  | setThermostat id th =>
    obtain rfl := List.mem_singleton.1 hr
    cases ht
    have hkept : (t.putThermostat id th).kept? (.thermostat id th.id) = some q := hq
    rw [SystemTable.kept?_putThermostat, if_pos rfl] at hkept
    exact (Option.some.inj hkept).symm
  | requestParameters =>
    rw [Request.topic?_of_mem_readParameters hr] at ht
    cases ht
  | requestSystem | requestStatus | requestAlarm | requestSoftware | requestMode | setParameters =>
    obtain rfl := List.mem_singleton.1 hr
    cases ht
  | addListener | removeListener | lookup | removeThermostat | addTracked | removeTracked
  | setUpdateInterval | setSoftwareDays | shutdown => cases hr

/-- Other calls change nothing about a topic, but may end its submission. -/
theorem Command.kept?_tabled_of_other {cmd : Command} {topic : Topic}
    (hother : ∀ r ∈ cmd.demands, r.topic? ≠ some topic) (t : SystemTable) :
    (cmd.tabled t).kept? topic = t.kept? topic ∨ (cmd.tabled t).kept? topic = none := by
  cases cmd with
  | addListener id l => exact .inl (t.kept?_registerListener id topic l)
  | removeListener id l =>
    have hkept := t.kept?_removeListener id topic l
    split at hkept
    · exact .inr hkept
    · exact .inl hkept
  | removeThermostat id th =>
    have hkept := t.kept?_removeThermostat id topic th
    split at hkept
    · exact .inr hkept
    · exact .inl hkept
  | addTracked id p => exact .inl (t.kept?_addTracked id topic p)
  | removeTracked id p => exact .inl (t.kept?_removeTracked id topic p)
  | setMode id mode =>
    refine .inl ((t.kept?_setMode id topic mode).trans (if_neg fun heq => ?_))
    exact hother _ (List.mem_singleton_self _) (congrArg some heq.symm)
  | setThermostat id th =>
    refine .inl ((t.kept?_putThermostat id topic th).trans (if_neg fun heq => ?_))
    exact hother _ (List.mem_singleton_self _) (congrArg some heq.symm)
  | lookup | requestSystem | requestStatus | requestAlarm | requestSoftware | requestMode
  | requestParameters | setParameters | setUpdateInterval | setSoftwareDays | shutdown =>
    exact .inl rfl

/-- The host asks for nothing about a topic. -/
def Move.Silent (topic : Topic) : Move → Prop
  | .obey cmd => ∀ r ∈ cmd.demands, r.topic? ≠ some topic
  | _ => True

instance Move.Silent.decidable (topic : Topic) : (m : Move) → Decidable (m.Silent topic)
  | .obey cmd => inferInstanceAs (Decidable (∀ r ∈ cmd.demands, r.topic? ≠ some topic))
  | .act _ | .elapse _ | .pass _ | .plan _ => isTrue trivial

namespace Engine

variable {e : Engine} {id : TaskId} {d : Duty} {c : Request → Bool} {m : Move} {topic : Topic}
  {q r : Request}

/-- Only the host changes what is submitted again. -/
theorem kept?_move_of_other (hm : m.Silent topic) :
    (e.move m).table.kept? topic = e.table.kept? topic ∨ (e.move m).table.kept? topic = none := by
  cases m with
  | obey cmd =>
    rw [move_table]
    exact Command.kept?_tabled_of_other hm e.table
  | act | elapse | pass | plan =>
    refine .inl (SystemTable.kept?_of_hosted (hosted_move (fun cmd h => ?_) _))
    cases h

/-- What is kept about a topic stays about that topic. -/
theorem filed_move (hf : e.table.Filed) (m : Move) : (e.move m).table.Filed := by
  intro topic r hr
  by_cases hm : ∃ cmd r', m = .obey cmd ∧ r' ∈ cmd.demands ∧ r'.topic? = some topic
  · obtain ⟨cmd, r', rfl, hdemand, htopic⟩ := hm
    rw [move_table] at hr
    exact Command.kept?_tabled_of_demand hdemand htopic e.table hr ▸ htopic
  · have hsilent : m.Silent topic := by
      cases m with
      | obey cmd => exact fun r' hdemand htopic => hm ⟨cmd, r', rfl, hdemand, htopic⟩
      | act | elapse | pass | plan => trivial
    rcases kept?_move_of_other (e := e) hsilent with hsame | hnone
    · exact hf (hsame.symm.trans hr)
    · cases hnone.symm.trans hr

/-! ## The hindmost request -/

/-- The request of a kind that is sent last if no other one is made: the last one in the queue, else
the one between the queue and the line, else the last one for which a task joined the line. -/
def Hindmost (e : Engine) (c : Request → Bool) (q : Request) : Prop :=
  (e.queue.kind c).getLast? = some q ∨
    e.queue.kind c = [] ∧ (q ∈ e.held c ∨ e.held c = [] ∧ e.lastJoined? c = some q)

/-- A task takes a request of the kind from the queue. -/
def Takes (e : Engine) (c : Request → Bool) (m : Move) : Prop :=
  ∃ id root x, m = .act id ∧ e.ready? id = some (.take root) ∧ root ∈ e.permits ∧
    e.queue.entries.head? = some x ∧ c x.request = true

/-- A task joins the line for a request of the kind from the queue. -/
def Joins (e : Engine) (c : Request → Bool) (m : Move) : Prop :=
  ∃ id root x, m = .act id ∧ e.ready? id = some (.exchange (.entry root x) .join) ∧
    c x.request = true

/-- What a move asks of the queue, as far as a kind is concerned that the host does not ask for. -/
theorem asks_cases (h : e.Steady c) (hm : ∀ cmd, m = .obey cmd → ∀ r ∈ cmd.demands, c r = false) :
    (∀ op ∈ e.asks m, op.spares c = true) ∨
      (∃ p : Poll, e.asks m = (p.requests e.table).map (.push · none .tail)) ∨
      (∃ id root, m = .act id ∧ e.ready? id = some (.take root) ∧ root ∈ e.permits) ∨
      e.asks m = [.clear] := by
  have hasked := e.asked m
  generalize e.asks m = ops at hasked ⊢
  cases hasked with
  | nothing => exact .inl nofun
  | clear => exact .inr (.inr (.inr rfl))
  | @demand cmd =>
    refine .inl fun op hop => ?_
    obtain ⟨r, hr, rfl⟩ := List.mem_map.1 hop
    show (!c r) = true
    rw [hm cmd rfl r hr]
    rfl
  | take hready hin => exact .inr (.inr (.inl ⟨_, _, rfl, hready, allows_iff.1 hin⟩))
  | @poll id permit p => exact .inr (.inl ⟨p, rfl⟩)
  | @submit id l hready =>
    refine .inl fun op hop => ?_
    obtain rfl := List.mem_singleton.1 hop
    show (!c l.request) = true
    rw [h.asked (duty?_of_ready? hready) rfl]
    rfl
  | @outage id root x f hready =>
    refine .inl fun op hop => ?_
    rcases List.mem_append.1 hop with hreplay | hwaiting
    · split at hreplay
      · obtain rfl := List.mem_singleton.1 hreplay
        show (!c x.request) = true
        rw [h.failed (duty?_of_ready? hready) rfl]
        rfl
      · cases hreplay
    · obtain rfl := List.mem_singleton.1 hwaiting
      rfl

/-- As long as none is taken, requests of a kind stay in the queue, or periodic ones come last. -/
theorem Steady.kind_move (h : e.Steady c) (hs : e.Spares c m)
    (hm : ∀ cmd, m = .obey cmd → ∀ r ∈ cmd.demands, c r = false)
    (hpolls : ∀ {p : Poll} {q}, q ∈ p.requests e.table → c q = true → q = r)
    (htakes : ¬ e.Takes c m) :
    (e.move m).queue.kind c = e.queue.kind c ∨ ((e.move m).queue.kind c).getLast? = some r := by
  have hshed := hs.shed
  rw [move_queue]
  rcases asks_cases h hm with hspares | ⟨p, hasks⟩ | ⟨id, root, rfl, hready, hin⟩ | hasks
  · exact .inl (Queue.run_kind_of_spares h.unclaimed hspares)
  -- the periodic requests of the kind come last, if the poll asks for any
  · rw [hasks] at hshed ⊢
    rw [Queue.run_kind_of_periodic hshed]
    cases hlast : ((p.requests e.table).filter c).getLast? with
    | none =>
      left
      rw [List.getLast?_eq_none_iff.1 hlast, List.append_nil]
    | some q =>
      right
      obtain ⟨hmem, hc⟩ := List.mem_filter.1 (List.mem_of_getLast? hlast)
      rw [List.getLast?_append, hlast, hpolls hmem hc]
      rfl
  · left
    rw [asks_of_take hready hin]
    show e.queue.pop.2.kind c = _
    cases hx : e.queue.entries.head? with
    | none => exact Queue.kind_pop_of_empty hx
    | some x =>
      -- what is taken is of another kind
      have hother : ¬ c x.request = true := fun hc => htakes ⟨id, root, x, rfl, hready, hin, hx, hc⟩
      rw [Queue.kind_of_head? hx, List.filter_cons_of_neg hother]
      rfl
  · left
    have hnone := (hs.cleared (by rw [hasks]; rfl)).1
    rw [hasks, hnone]
    exact Queue.kind_clear

/-- As long as none is taken and none joins the line, the same requests are in between. -/
theorem mem_held_move (hk : e.Known) (htakes : ¬ e.Takes c m) (hjoins : ¬ e.Joins c m) :
    q ∈ (e.move m).held c ↔ q ∈ e.held c := by
  rw [mem_held, mem_held]
  constructor
  · rintro ⟨hc, id, root, x, hd, rfl⟩
    rcases move_duty_cases hk hd with ⟨d, rfl, hready, hnext⟩ | ⟨d, hd₀, hpass⟩ | hbegins
    · obtain ⟨rfl, hin, hx⟩ := take_of_next hnext
      exact absurd ⟨id, root, x, rfl, hready, hin, hx, hc⟩ htakes
    · cases hpass
      exact ⟨hc, id, root, x, hd₀, rfl⟩
    · exact absurd hbegins Move.not_begins_exchange
  · rintro ⟨hc, id, root, x, hd, rfl⟩
    refine ⟨hc, id, root, x, ?_, rfl⟩
    by_cases hm : m = .act id
    · subst hm
      cases hready : e.ready? id with
      | none =>
        rw [move_of_not_ready hready]
        exact hd
      | some d =>
        obtain rfl := Option.some.inj (hd.symm.trans (duty?_of_ready? hready))
        exact absurd ⟨id, root, x, rfl, hready, hc⟩ hjoins
    · obtain ⟨d, hd', hpass⟩ := move_duty_of hk hm hd
      cases hpass
      exact hd'

/-- As long as none joins the line, the last one to join stays the same. -/
theorem Steady.lastJoined?_move (h : e.Steady c) (hprobe : c .listSystems = false)
    (hjoins : ¬ e.Joins c m) : (e.move m).lastJoined? c = e.lastJoined? c := by
  have hnone : (e.shows m).bind (Happening.joined? c) = none := by
    refine Option.eq_none_iff_forall_ne_some.2 fun q hq => ?_
    obtain ⟨happening, hshows, hjoined⟩ := Option.bind_eq_some_iff.1 hq
    unfold Happening.joined? at hjoined
    split at hjoined
    case h_1 id p =>
      obtain ⟨rfl, hready⟩ := shows_joined.1 hshows
      have hother : c p.request = false := by
        cases p with
        | entry root x => exact Bool.eq_false_iff.2 fun hc => hjoins ⟨id, root, x, rfl, hready, hc⟩
        | probe => exact hprobe
        | lookup l => exact h.asked (duty?_of_ready? hready) rfl
      unfold Purpose.asked? at hjoined
      rw [hother] at hjoined
      cases hjoined
    case h_2 => cases hjoined
  rw [Engine.lastJoined?_move, hnone]
  rfl

/-- The hindmost request may be the one that is taken. -/
theorem Hindmost.take (hq : e.Hindmost c q) (hr : e.roster.Orderly) (htakes : e.Takes c m) :
    (e.move m).Hindmost c q := by
  obtain ⟨id, root, x, rfl, hready, hin, hx, hc⟩ := htakes
  have hkind : e.queue.kind c = x.request :: (e.move (.act id)).queue.kind c := by
    rw [move_queue, asks_of_take hready hin, Queue.kind_of_head? hx, List.filter_cons_of_pos hc]
    rfl
  have hlast : (x.request :: (e.move (.act id)).queue.kind c).getLast? = some q := by
    rcases hq with hlast | ⟨hnone, -⟩
    · exact hkind ▸ hlast
    · cases hkind.symm.trans hnone
  cases hrest : (e.move (.act id)).queue.kind c with
  | cons y ys =>
    left
    rw [hrest, List.getLast?_cons_cons] at hlast
    rw [hrest]
    exact hlast
  | nil =>
    right
    refine ⟨hrest, .inl (mem_held.2 ?_)⟩
    rw [hrest] at hlast
    obtain rfl := Option.some.inj hlast
    have hnext : (Duty.take root).next e = some (.exchange (.entry root x) .join) := by
      rw [Duty.next_take, if_pos (allows_iff.2 hin), hx]
      rfl
    exact ⟨hc, id, root, x, (move_own (known_of_orderly hr) hready).trans hnext, rfl⟩

/-- It may be the one for which a task joins the line. -/
theorem Hindmost.join (hq : e.Hindmost c q) (h : e.Steady c) (hr : e.roster.Orderly)
    (hjoins : e.Joins c m) : (e.move m).Hindmost c q := by
  have hk : e.Known := known_of_orderly hr
  obtain ⟨id, root, x, rfl, hready, hc⟩ := hjoins
  have hd : e.duty? id = some (.exchange (.entry root x) .join) := duty?_of_ready? hready
  have honly : ∀ {id' root' x'}, e.duty? id' = some (.exchange (.entry root' x') .join) →
      c x'.request = true → id = id' := fun hd' hc' =>
    taker_unique hr (post?_of_duty? hd) (h.holders hd hc)
      (post?_of_duty? hd') (h.holders hd' hc')
  have hkind : (e.move (.act id)).queue.kind c = e.queue.kind c := by
    rw [move_queue, asks_of_ready hready]
    rfl
  rcases hq with hlast | ⟨hnone, hq⟩
  · exact .inl (hkind ▸ hlast)
  · refine .inr ⟨hkind.trans hnone, .inr ⟨?_, ?_⟩⟩
    · refine List.eq_nil_iff_forall_not_mem.2 fun q' hq' => ?_
      obtain ⟨hc', id', root', x', hd', rfl⟩ := mem_held.1 hq'
      rcases move_duty_cases hk hd' with ⟨d, heq, hready', hnext⟩ | ⟨d, hd₀, hpass⟩ | hbegins
      · cases heq
        obtain ⟨rfl, -⟩ := take_of_next hnext
        cases hready.symm.trans hready'
      · -- the one that held it joined the line
        cases hpass
        obtain rfl := honly hd₀ hc'
        have hown : (e.move (.act id)).duty? id = some (.exchange (.entry root x) (.send false)) :=
          move_own hk hready
        cases hd'.symm.trans hown
      · exact absurd hbegins Move.not_begins_exchange
    · have hx : x.request = q := by
        rcases hq with hmem | ⟨hnone', -⟩
        · obtain ⟨hc', id', root', x', hd', rfl⟩ := mem_held.1 hmem
          obtain rfl := honly hd' hc'
          cases hd.symm.trans hd'
          rfl
        · have hmem : x.request ∈ e.held c := mem_held.2 ⟨hc, id, root, x, hd, rfl⟩
          rw [hnone'] at hmem
          cases hmem
      rw [lastJoined?_move, shows_joined.2 ⟨rfl, hready⟩]
      show ((Purpose.entry root x).asked? c).or _ = _
      unfold Purpose.asked?
      rw [if_pos (show c (Purpose.entry root x).request = true from hc)]
      exact congrArg some hx

/-- The hindmost request of a kind stays the hindmost, unless a periodic one comes last. -/
theorem Steady.hindmost (h : e.Steady c) (hr : e.roster.Orderly) (hs : e.Spares c m)
    (hprobe : c .listSystems = false)
    (hm : ∀ cmd, m = .obey cmd → ∀ r ∈ cmd.demands, c r = false)
    (hpolls : ∀ {p : Poll} {q}, q ∈ p.requests e.table → c q = true → q = r)
    (hq : e.Hindmost c q) :
    (e.move m).Hindmost c q ∨ ((e.move m).queue.kind c).getLast? = some r := by
  by_cases htakes : e.Takes c m
  · exact .inl (hq.take hr htakes)
  by_cases hjoins : e.Joins c m
  · exact .inl (hq.join h hr hjoins)
  have hheld : ∀ q, q ∈ (e.move m).held c ↔ q ∈ e.held c := fun q =>
    mem_held_move (known_of_orderly hr) htakes hjoins
  rcases h.kind_move hs hm hpolls htakes with hsame | hlast
  · left
    rcases hq with hlast | ⟨hnone, hq⟩
    · exact .inl (hsame ▸ hlast)
    · refine .inr ⟨hsame.trans hnone, ?_⟩
      rcases hq with hmem | ⟨hfree, hjoined⟩
      · exact .inl ((hheld q).2 hmem)
      · refine .inr ⟨List.eq_nil_iff_forall_not_mem.2 fun q' hq' => ?_, ?_⟩
        · rw [hheld, hfree] at hq'
          cases hq'
        · exact (h.lastJoined?_move hprobe hjoins).trans hjoined
  · exact .inr hlast

/-! ## Runs -/

/-- Once nothing of a kind is queued or in flight, the hindmost request was sent last. -/
theorem Hindmost.sent (hq : e.Hindmost c q) (h : e.Steady c) (hidle : e.Idle c) :
    e.lastSent? c = some q := by
  obtain ⟨hqueue, hflight⟩ := hidle
  have hin : ∀ {id p s}, e.duty? id = some (.exchange p s) → c p.request = false := by
    intro id p s hd
    refine Bool.eq_false_iff.2 fun hc => ?_
    have hmem : p.request ∈ e.among Duty.exchanged? c := mem_among.2 ⟨hc, id, _, hd, rfl⟩
    rw [hflight] at hmem
    cases hmem
  have hjoined : e.lastJoined? c = some q := by
    rcases hq with hlast | ⟨-, hmem | ⟨-, hjoined⟩⟩
    · rw [hqueue] at hlast
      cases hlast
    · obtain ⟨hc, id, root, x, hd, rfl⟩ := mem_held.1 hmem
      have hother : c x.request = false := hin hd
      cases hother.symm.trans hc
    · exact hjoined
  have hunsent : e.unsent c = [] := by
    unfold unsent
    refine List.filterMap_eq_nil_iff.2 fun id _ => ?_
    refine Option.eq_none_iff_forall_ne_some.2 fun r hr => ?_
    obtain ⟨d, hd, hr⟩ := Option.bind_eq_some_iff.1 hr
    unfold Duty.unsent? at hr
    split at hr
    case h_1 p =>
      unfold Purpose.asked? at hr
      rw [hin hd] at hr
      cases hr
    case h_2 => cases hr
  have hlast := h.order.last
  rw [hunsent] at hlast
  exact hlast.trans hjoined

theorem undisturbed_append (e : Engine) (ms ms' : List Move) :
    e.Undisturbed c (ms ++ ms') ↔ e.Undisturbed c ms ∧ (e.follow ms).Undisturbed c ms' := by
  induction ms generalizing e with
  | nil => exact ⟨fun h => ⟨trivial, h⟩, fun h => h.2⟩
  | cons m ms ih =>
    show e.Spares c m ∧ (e.move m).Undisturbed c (ms ++ ms') ↔
      (e.Spares c m ∧ (e.move m).Undisturbed c ms) ∧ _
    rw [ih, and_assoc]
    rfl

/-- What holds of an engine in which requests about a topic keep their order. -/
structure Even (e : Engine) (topic : Topic) : Prop where
  orderly : e.roster.Orderly
  steady : e.Steady (Request.isAbout topic)
  filed : e.table.Filed

theorem Even.move (h : e.Even topic) (hs : e.Spares (Request.isAbout topic) m) :
    (e.move m).Even topic where
  orderly := (move_evolves h.orderly m).orderly h.orderly
  steady := h.steady.move h.orderly hs
  filed := filed_move h.filed m

theorem Even.follow (h : e.Even topic) {ms : List Move}
    (hs : e.Undisturbed (Request.isAbout topic) ms) : (e.follow ms).Even topic := by
  induction ms generalizing e with
  | nil => exact h
  | cons m ms ih => exact ih (h.move hs.1) hs.2

/-- Nothing else is submitted again about a topic. -/
def Echoes (e : Engine) (topic : Topic) (r : Request) : Prop :=
  ∀ {q}, e.table.kept? topic = some q → q = r

theorem Echoes.move (h : e.Echoes topic r) (hm : m.Silent topic) : (e.move m).Echoes topic r := by
  intro q hq
  rcases kept?_move_of_other (e := e) hm with hsame | hnone
  · exact h (hsame.symm.trans hq)
  · cases hnone.symm.trans hq

theorem Echoes.follow (h : e.Echoes topic r) {ms : List Move} (hms : ∀ m ∈ ms, m.Silent topic) :
    (e.follow ms).Echoes topic r := by
  induction ms generalizing e with
  | nil => exact h
  | cons m ms ih =>
    obtain ⟨hm, htail⟩ := List.forall_mem_cons.1 hms
    exact ih (h.move hm) htail

/-- The hindmost request about a topic at the end is the one at the beginning, or the one that is
submitted again and was the last one in the queue at some moment. -/
theorem Hindmost.follow (hq : e.Hindmost (Request.isAbout topic) q) (h : e.Even topic)
    (hr : e.Echoes topic r) {ms : List Move} (hms : ∀ m ∈ ms, m.Silent topic)
    (hs : e.Undisturbed (Request.isAbout topic) ms) :
    (e.follow ms).Hindmost (Request.isAbout topic) q ∨
      (e.follow ms).Hindmost (Request.isAbout topic) r ∧ ∃ mid rest, ms = mid ++ rest ∧
        ((e.follow mid).queue.kind (Request.isAbout topic)).getLast? = some r := by
  induction ms generalizing e q with
  | nil => exact .inl hq
  | cons m ms ih =>
    obtain ⟨hm, htail⟩ := List.forall_mem_cons.1 hms
    have hsilent : ∀ cmd, m = .obey cmd → ∀ r ∈ cmd.demands, r.isAbout topic = false := by
      rintro cmd rfl r hr
      exact Bool.eq_false_iff.2 fun hc => hm r hr (Request.isAbout_iff.1 hc)
    have hpolls : ∀ {p : Poll} {q}, q ∈ p.requests e.table → q.isAbout topic = true → q = r :=
      fun hmem hc => hr (SystemTable.kept?_of_mem_requests h.filed hmem (Request.isAbout_iff.1 hc))
    rcases h.steady.hindmost h.orderly hs.1 rfl hsilent hpolls hq with hq' | hlast
    · rcases ih hq' (h.move hs.1) (hr.move hm) htail hs.2 with hend | ⟨hend, mid, rest, rfl, hmid⟩
      · exact .inl hend
      · exact .inr ⟨hend, m :: mid, rest, rfl, hmid⟩
    -- a periodic request that comes last is the hindmost one from then on
    · have hmid : ∃ mid rest, m :: ms = mid ++ rest ∧
          ((e.follow mid).queue.kind (Request.isAbout topic)).getLast? = some r :=
        ⟨[m], ms, rfl, hlast⟩
      rcases ih (.inl hlast) (h.move hs.1) (hr.move hm) htail hs.2 with hend | ⟨hend, -⟩
      · exact .inr ⟨hend, hmid⟩
      · exact .inr ⟨hend, hmid⟩

/-- A request on demand is in the queue, if it is not shed. -/
theorem mem_kind_of_demand {cmd : Command} (hr : r ∈ cmd.demands) (ht : r.topic? = some topic)
    (hs : e.Spares (Request.isAbout topic) (.obey cmd)) :
    r ∈ (e.move (.obey cmd)).queue.kind (Request.isAbout topic) := by
  obtain ⟨hdemands, hstops⟩ := Command.demands_of_topic hr ht e.table
  have hasks : e.asks (.obey cmd) = [.push r none .head] := by
    show cmd.asks e.table = _
    unfold Command.asks
    rw [hstops, if_neg Bool.false_ne_true, hdemands]
    rfl
  have hshed := hs.shed
  rw [hasks] at hshed
  have hsheds := hshed _ List.mem_cons_self
  have hroom : e.queue.size < e.queue.capacity := by
    refine Decidable.not_not.1 fun hfull => ?_
    have hrefused : (e.queue.push r none .head).refused.any (fun x => x.request.isAbout topic) =
        false := hsheds
    rw [Queue.push_refused, if_neg hfull] at hrefused
    cases hrefused.symm.trans (Request.isAbout_iff.2 ht)
  rw [move_queue, hasks]
  exact Queue.mem_kind_push_head hroom (Request.isAbout_iff.2 ht) none

/-- In a run in which no request about a topic is shed, fails or is cleared, let a call of the host be
the latest one about it, and let no request about it be queued or in flight. What was sent last is
what the call gave exactly if, at some moment since the call, the last request about the topic in the
queue was that: at once, if the queue held no older one, or else when a periodic one joined it. -/
theorem latest_sent_last_iff (settings : EngineSettings) (service : Service) (observer : Option Observer)
    (script : Script) (topic : Topic) (before later : List Move) (cmd : Command) (r : Request)
    (hr : r ∈ cmd.demands) (ht : r.topic? = some topic) (hlater : ∀ m ∈ later, m.Silent topic)
    (hs : (start settings service observer script).Undisturbed (Request.isAbout topic)
      (before ++ .obey cmd :: later)) :
    let run := fun ms => (start settings service observer script).follow (before ++ .obey cmd :: ms)
    (run later).Idle (Request.isAbout topic) →
      ((run later).lastSent? (Request.isAbout topic) = some r ↔
        ∃ mid rest, later = mid ++ rest ∧
          ((run mid).queue.kind (Request.isAbout topic)).getLast? = some r) := by
  intro run hidle
  have hrun : ∀ ms, run ms = (((start settings service observer script).follow before).move
      (.obey cmd)).follow ms := fun ms => follow_append _ before (.obey cmd :: ms)
  have hstart : (start settings service observer script).Even topic :=
    ⟨start_orderly settings service observer script, steady_start settings service observer script _,
      SystemTable.filed_empty⟩
  obtain ⟨hbefore, hcall, hafter⟩ := (undisturbed_append _ before (.obey cmd :: later)).1 hs
  have heven := hstart.follow hbefore
  have hqueued := mem_kind_of_demand hr ht hcall
  have hechoes : ((((start settings service observer script).follow before).move
      (.obey cmd))).Echoes topic r := by
    intro q hq
    rw [move_table] at hq
    exact Command.kept?_tabled_of_demand hr ht _ hq
  have heven' := heven.move hcall
  rw [hrun] at hidle ⊢
  simp only [hrun]
  generalize (((start settings service observer script).follow before).move (.obey cmd)) = e at *
  have hsent : ∀ {q}, (e.follow later).Hindmost (Request.isAbout topic) q →
      (e.follow later).lastSent? (Request.isAbout topic) = some q := fun hq =>
    hq.sent (heven'.follow hafter).steady hidle
  constructor
  · intro hlast
    -- the call has put its request into the queue, so there is a last one
    cases hfirst : (e.queue.kind (Request.isAbout topic)).getLast? with
    | none =>
      rw [List.getLast?_eq_none_iff.1 hfirst] at hqueued
      cases hqueued
    | some q =>
      rcases Hindmost.follow (.inl hfirst) heven' hechoes hlater hafter with hq | ⟨-, hmid⟩
      · obtain rfl := Option.some.inj ((hsent hq).symm.trans hlast)
        exact ⟨[], later, rfl, hfirst⟩
      · exact hmid
  · rintro ⟨mid, rest, rfl, hmid⟩
    -- from that moment on the request is the hindmost one
    obtain ⟨hsmid, hsrest⟩ := (undisturbed_append e mid rest).1 hafter
    have hechoes' : (e.follow mid).Echoes topic r :=
      hechoes.follow fun m hm => hlater m (List.mem_append_left rest hm)
    rw [follow_append] at hsent ⊢
    rcases Hindmost.follow (.inl hmid) (heven'.follow hsmid) hechoes'
      (fun m hm => hlater m (List.mem_append_right mid hm)) hsrest with hq | ⟨hq, -⟩
    · exact hsent hq
    · exact hsent hq

/-- A mode that is set while none is queued is sent last. -/
theorem latest_sent_last_at_once :
    let e := (start .default ⟨"http://localhost", 1000⟩ none ⟨[], [], [], 0, 0⟩).follow
      [.obey (.addListener ⟨1⟩ .silent), .obey (.setMode ⟨1⟩ .vacation), .act 0, .act 0, .act 0, .act 0]
    e.Idle (Request.isAbout (.mode ⟨1⟩)) ∧
      e.lastSent? (Request.isAbout (.mode ⟨1⟩)) = some (.setMode ⟨1⟩ .vacation) := by
  have hidle : ((start .default ⟨"http://localhost", 1000⟩ none ⟨[], [], [], 0, 0⟩).follow
      [.obey (.addListener ⟨1⟩ .silent), .obey (.setMode ⟨1⟩ .vacation), .act 0, .act 0, .act 0,
        .act 0]).Idle (Request.isAbout (.mode ⟨1⟩)) := by
    decide +kernel
  refine ⟨hidle, ?_⟩
  exact (latest_sent_last_iff .default ⟨"http://localhost", 1000⟩ none ⟨[], [], [], 0, 0⟩ (.mode ⟨1⟩)
    [.obey (.addListener ⟨1⟩ .silent)] [.act 0, .act 0, .act 0, .act 0] (.setMode ⟨1⟩ .vacation)
    (.setMode ⟨1⟩ .vacation) (List.mem_singleton_self _) rfl (by decide) (by decide +kernel)
    hidle).2 ⟨[], _, rfl, rfl⟩

/-- The latest value is not always sent last: a mode is put into the queue again while it is on the
wire for the first time, the host goes back to the default mode, and the older mode is sent last. -/
theorem older_sent_last : ¬ ∀ (settings : EngineSettings) (service : Service)
    (observer : Option Observer) (script : Script) (topic : Topic) (before later : List Move)
    (cmd : Command) (r : Request), r ∈ cmd.demands → r.topic? = some topic →
    (∀ m ∈ later, m.Silent topic) →
    (start settings service observer script).Undisturbed (Request.isAbout topic)
      (before ++ .obey cmd :: later) →
    let e := (start settings service observer script).follow (before ++ .obey cmd :: later)
    e.Idle (Request.isAbout topic) → e.lastSent? (Request.isAbout topic) = some r := by
  intro hall
  have hlast := hall
    { EngineSettings.default with
      requestInterval := 50, heartbeatInterval := 100, updateInterval := 0, softwareDays := 0 }
    ⟨"http://localhost", 1000⟩ none
    ⟨[some ⟨150, .ok ⟨200, ""⟩⟩, some ⟨0, .ok ⟨200, ""⟩⟩, some ⟨0, .ok ⟨200, ""⟩⟩], [], [], 0, 0⟩
    (.mode ⟨1⟩)
    [.obey (.addListener ⟨1⟩ .silent), .obey (.setMode ⟨1⟩ .vacation), .act 0, .act 0, .act 0,
      .act 2, .act 2, .elapse 100, .act 2]
    [.elapse 150, .act 0, .act 0, .elapse 200, .act 0, .act 0, .act 0, .act 0, .act 0, .elapse 250,
      .act 0, .act 0, .act 0, .act 0]
    (.setMode ⟨1⟩ .defaultOperation) (.setMode ⟨1⟩ .defaultOperation) (List.mem_singleton_self _) rfl
    (by decide) (by decide +kernel) (by decide +kernel)
  exact absurd hlast (by decide +kernel)

end Engine

end HeatWatch
