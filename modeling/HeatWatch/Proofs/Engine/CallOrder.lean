import HeatWatch.Proofs.Engine.Latecomers
import HeatWatch.Proofs.Engine.Wire

/-!
# Requests on demand keep their order

Requests on demand for which no caller waits are numbered as they get into the queue. They leave it,
join the line and are sent by their numbers; one that fails and is put in again is the first of those
that are left. Only a task that comes late to the line may find requests there that came after its
own. Main statements:

* `track_move`, `demands_move`: what a move changes in the line and in the queue;
* `WireStep.inLine`: those in the line are sent in the order in which they joined it;
* `Sequenced.move`: each move keeps the order, but for those who come late.
-/

namespace HeatWatch

/-- The request on demand, without a caller, that an exchange is made for. -/
def Purpose.demand? : Purpose → Option Entry
  | .entry _ x => if x.onDemand = true then some x else none
  | _ => none

/-- The entry of the queue that is put on the wire. -/
def Happening.attempt? : Happening → Option Entry
  | .sent _ (.entry _ x) _ => some x
  | _ => none

/-- The request on demand that is put on the wire. -/
def Happening.demand? : Happening → Option Entry
  | .sent _ p _ => p.demand?
  | _ => none

/-- The entries stand in the order of their numbers. -/
def InSequence (xs : List Entry) : Prop := xs.Pairwise (·.serial ≤ ·.serial)

/-- The requests on demand that were put on the wire. -/
def attempted (hs : List Happening) : List Entry := hs.filterMap Happening.demand?

/-- The requests on demand for which tasks stand in the line. -/
def lineup (ps : List Place) : List Entry := ps.filterMap (·.purpose.demand?)

theorem Purpose.demand?_eq_some {p : Purpose} {x : Entry} (h : p.demand? = some x) :
    (∃ run, p = .entry run x) ∧ x.onDemand = true := by
  cases p with
  | probe | lookup => cases h
  | entry run y =>
    have hy : (if y.onDemand = true then some y else none) = some x := h
    split at hy
    case isTrue hdemand =>
      cases hy
      exact ⟨⟨run, rfl⟩, hdemand⟩
    case isFalse => cases hy

theorem attempted_eq_filter (hs : List Happening) :
    attempted hs = (hs.filterMap Happening.attempt?).filter Entry.onDemand := by
  unfold attempted
  rw [List.filter_filterMap]
  refine List.filterMap_congr fun h _ => ?_
  cases h with
  | sent id p token =>
    cases p with
    | entry run x => exact (Option.filter_some ..).symm
    | probe | lookup => rfl
  | log | polled | joined | received | exchanged | callback | outage | recovered | found => rfl

/-- The requests that come late: of the task, in the run, for the entry, behind another entry. -/
abbrev Lateness := TaskId → Permit → Entry → Entry → Prop

/-- A request on demand at this place was put into the queue after the entry, or comes late behind it. -/
def Place.Follows (late : Lateness) (u : Entry) (c : Place) : Prop :=
  ∀ run x, c.purpose = .entry run x → x.onDemand = true → u.serial ≤ x.serial ∨ late c.task run x u

/-- The requests in the line follow those that were sent, and those before them in the line. -/
structure InLine (late : Lateness) (tried : List Entry) (ps : List Place) : Prop where
  sent : ∀ u ∈ tried, ∀ c ∈ ps, c.Follows late u
  line : ps.Pairwise fun c c' => ∀ u, c.purpose.demand? = some u → c'.Follows late u

variable {late : Lateness} {tried : List Entry} {ps ps' : List Place} {hs : List Happening}

/-- What a step on the wire sends, and what is in the line after it, was in the line before, but for
one that joins. -/
theorem WireStep.demands (h : WireStep ps hs ps') {u : Entry} (hu : u ∈ attempted hs ++ lineup ps') :
    u ∈ lineup ps ∨ ∃ id run, hs = [.joined id (.entry run u)] ∧ u.onDemand = true := by
  have hlater : ∀ {c : Place} {ps : List Place}, u ∈ lineup ps → u ∈ lineup (c :: ps) :=
    fun hu => ((List.sublist_cons_self _ _).filterMap _).mem hu
  cases h with
  | quiet | rejects => exact .inl hu
  | fails | ends => exact .inl (hlater hu)
  | @joins _ id p =>
    have hin : u ∈ lineup (ps ++ [⟨id, p, .send false⟩]) := hu
    unfold lineup at hin
    rw [List.filterMap_append] at hin
    rcases List.mem_append.1 hin with hold | hnew
    · exact .inl hold
    · obtain ⟨c, hc, hdemand⟩ := List.mem_filterMap.1 hnew
      cases List.mem_singleton.1 hc
      obtain ⟨⟨run, hp⟩, honDemand⟩ := Purpose.demand?_eq_some hdemand
      obtain rfl : p = .entry run u := hp
      exact .inr ⟨id, run, rfl, honDemand⟩
  | @sends ps id p again token a =>
    left
    rcases List.mem_append.1 hu with hsent | hin
    · obtain ⟨happening, hmem, hdemand⟩ := List.mem_filterMap.1 hsent
      cases List.mem_singleton.1 hmem
      exact List.mem_filterMap.2 ⟨_, List.mem_cons_self, hdemand⟩
    · exact hin

/-- Those in the line are sent in the order in which they joined it. -/
theorem WireStep.inLine (h : WireStep ps hs ps') (hin : InLine late tried ps)
    (hjoin : ∀ id p, hs = [.joined id p] → ∀ u ∈ tried ++ lineup ps,
      (⟨id, p, .send false⟩ : Place).Follows late u) :
    InLine late (tried ++ attempted hs) ps' := by
  have hleaves : ∀ {c : Place} {ps : List Place}, InLine late tried (c :: ps) →
      InLine late (tried ++ []) ps := by
    intro c ps hin
    rw [List.append_nil]
    exact ⟨fun u hu c' hc' => hin.sent u hu c' (List.mem_cons_of_mem _ hc'),
      (List.pairwise_cons.1 hin.line).2⟩
  -- the stage of an exchange does not count
  have hstage : ∀ {id : TaskId} {p : Purpose} {s s' : Stage} {ps : List Place},
      InLine late tried (⟨id, p, s⟩ :: ps) → InLine late tried (⟨id, p, s'⟩ :: ps) := by
    intro id p s s' ps hin
    obtain ⟨hfirst, hrest⟩ := List.pairwise_cons.1 hin.line
    refine ⟨fun u hu c hc => ?_, List.pairwise_cons.2 ⟨hfirst, hrest⟩⟩
    rcases List.mem_cons.1 hc with rfl | hlater
    · exact (hin.sent u hu ⟨id, p, s⟩ List.mem_cons_self :)
    · exact hin.sent u hu c (List.mem_cons_of_mem _ hlater)
  cases h with
  | quiet =>
    show InLine late (tried ++ []) ps
    rw [List.append_nil]
    exact hin
  | rejects =>
    show InLine late (tried ++ []) _
    rw [List.append_nil]
    exact hstage hin
  | fails | ends => exact hleaves hin
  | @joins _ id p =>
    show InLine late (tried ++ []) _
    rw [List.append_nil]
    have hnew := hjoin id p rfl
    refine ⟨fun u hu c hc => ?_, ?_⟩
    · rcases List.mem_append.1 hc with hold | hlast
      · exact hin.sent u hu c hold
      · cases List.mem_singleton.1 hlast
        exact hnew u (List.mem_append_left _ hu)
    · refine List.pairwise_append.2 ⟨hin.line, List.pairwise_singleton _ _, fun c hc c' hc' u hu => ?_⟩
      cases List.mem_singleton.1 hc'
      exact hnew u (List.mem_append_right _ (List.mem_filterMap.2 ⟨c, hc, hu⟩))
  | @sends ps id p again token a =>
    obtain ⟨hfirst, -⟩ := List.pairwise_cons.1 hin.line
    have hin' : InLine late tried (⟨id, p, .receive again a⟩ :: ps) := hstage hin
    refine ⟨fun u hu c hc => ?_, hin'.line⟩
    rcases List.mem_append.1 hu with hold | hnew
    · exact hin'.sent u hold c hc
    · -- what is sent stood first
      obtain ⟨happening, hmem, hdemand⟩ := List.mem_filterMap.1 hnew
      cases List.mem_singleton.1 hmem
      rcases List.mem_cons.1 hc with rfl | hlater
      · intro run x hp _
        obtain ⟨⟨run', hp'⟩, -⟩ := Purpose.demand?_eq_some hdemand
        cases hp'.symm.trans hp
        exact .inl (Nat.le_refl _)
      · exact hfirst c hlater u hdemand

namespace Engine

variable {e : Engine} {id : TaskId} {d : Duty} {m : Move}

/-- The entries of the queue that were put on the wire, the earliest first. -/
def attempts (e : Engine) : List Entry := e.exchanges.filterMap Happening.attempt?

/-- The requests on demand that were put on the wire, and those that stand in the line for it. -/
def track (e : Engine) : List Entry := attempted e.exchanges ++ lineup e.places

theorem exchanges_move (e : Engine) (m : Move) :
    (e.move m).exchanges = e.exchanges ++ (e.records m).filter Happening.isExchange := by
  unfold exchanges
  rw [move_happenings, List.filter_append]

theorem attempted_move (e : Engine) (m : Move) : attempted (e.move m).exchanges =
    attempted e.exchanges ++ attempted ((e.records m).filter Happening.isExchange) := by
  unfold attempted
  rw [exchanges_move, List.filterMap_append]

/-- Only a task that has its entry and is ready joins the line with it. -/
theorem ready_of_joined {p : Purpose}
    (h : (e.records m).filter Happening.isExchange = [.joined id p]) :
    m = .act id ∧ e.ready? id = some (.exchange p .join) := by
  have hmem : .joined id p ∈ (e.records m).filter Happening.isExchange := by
    rw [h]
    exact List.mem_singleton_self _
  obtain ⟨id', d, rfl, hready, hnotes⟩ := notes_of_move (List.mem_filter.1 hmem).1
  cases hnotes with
  | joined => exact ⟨rfl, hready⟩

/-- A request on demand that was sent or stands in the line did so before, or has just joined. -/
theorem track_move (hl : e.Lined) (hk : e.Known) {u : Entry} (hu : u ∈ (e.move m).track) :
    u ∈ e.track ∨ ∃ id run, m = .act id ∧ e.ready? id = some (.exchange (.entry run u) .join) ∧
      u.onDemand = true := by
  unfold track at hu ⊢
  rw [attempted_move, List.append_assoc] at hu
  rcases List.mem_append.1 hu with hold | hnew
  · exact .inl (List.mem_append_left _ hold)
  · rcases (wire_move hl hk m).demands hnew with hin | ⟨id, run, hrecords, hdemand⟩
    · exact .inl (List.mem_append_right _ hin)
    · obtain ⟨hm, hready⟩ := ready_of_joined hrecords
      exact .inr ⟨id, run, hm, hready, hdemand⟩

/-- What a move changes of the requests on demand in the queue: some leave, new ones come behind the
others, or one that has failed comes before them. -/
theorem demands_move (hq : ∃ l, Queue.Refines e.queue l) (m : Move) :
    (e.move m).queue.demands.Sublist e.queue.demands ∨
    (∃ new, (e.move m).queue.demands = e.queue.demands ++ new ∧ InSequence new ∧
      ∀ x ∈ new, e.queue.accepted ≤ x.serial) ∨
    ∃ id run x f, m = .act id ∧ e.ready? id = some (.conclude (.entry run x) (.error f)) ∧
      f.isServer = true ∧ run ∈ e.permits ∧ x.onDemand = true ∧
        (e.move m).queue.demands = x.again :: e.queue.demands := by
  obtain ⟨l, hq⟩ := hq
  have hasked := e.asked m
  rw [move_queue]
  generalize e.asks m = ops at hasked
  cases hasked with
  | nothing => exact .inl (.refl _)
  | clear =>
    left
    show e.queue.clear.demands.Sublist _
    rw [Queue.clear_demands]
    exact List.nil_sublist _
  | take => exact .inl Queue.pop_demands_sublist
  | submit =>
    refine .inr (.inl (Queue.run_demands_of_pushes hq fun op hop => ?_))
    cases List.mem_singleton.1 hop
    rfl
  | demand | poll =>
    refine .inr (.inl (Queue.run_demands_of_pushes hq fun op hop => ?_))
    obtain ⟨r, -, rfl⟩ := List.mem_map.1 hop
    exact rfl
  | @outage id run x f hready hf hin =>
    by_cases hcaller : x.caller.isNone = true
    · rw [if_pos hcaller]
      show (e.queue.replay x).queue.takeWaiting.2.demands.Sublist _ ∨ _ ∨ _
      have hreplay : (e.queue.replay x).queue.takeWaiting.2.demands = _ :=
        Queue.takeWaiting_demands.trans (Queue.replay_demands (Option.isNone_iff_eq_none.1 hcaller))
      by_cases hroom : e.queue.size < e.queue.capacity ∧ x.onDemand = true
      · rw [if_pos hroom] at hreplay
        exact .inr (.inr ⟨id, run, x, f, rfl, hready, hf, allows_iff.1 hin, hroom.2, hreplay⟩)
      · rw [if_neg hroom] at hreplay
        rw [hreplay]
        exact .inl (.refl _)
    · rw [if_neg hcaller]
      left
      show e.queue.takeWaiting.2.demands.Sublist _
      rw [Queue.takeWaiting_demands]

/-! ## Order -/

/-- The task of the run that goes on has the entry. -/
def Carries (e : Engine) (id : TaskId) (x : Entry) : Prop :=
  ∃ d run, e.duty? id = some d ∧ d.entry? = some x ∧ d.post = .taker run ∧ run ∈ e.permits

/-- The entry comes after those that were sent or stand in the line, and before those in the queue. -/
structure Between (e : Engine) (x : Entry) : Prop where
  past : ∀ u ∈ e.track, u.serial ≤ x.serial
  future : ∀ v ∈ e.queue.demands, x.serial ≤ v.serial

/-- The entry comes before those in the queue, and before the one of the run that goes on. -/
structure Outdated (e : Engine) (x : Entry) : Prop where
  queue : ∀ v ∈ e.queue.demands, x.serial ≤ v.serial
  run : ∀ id y, e.Carries id y → y.onDemand = true → x.serial ≤ y.serial

/-- Requests on demand are sent, stand in the line and wait in the queue in the order of their numbers,
but for those that come late to the line. The task of the run has one that comes between the two, and
those of runs that are over have older ones. -/
structure Sequenced (late : Lateness) (e : Engine) : Prop where
  line : InLine late (attempted e.exchanges) e.places
  waiting : InSequence e.queue.demands
  queued : ∀ u ∈ e.track, ∀ v ∈ e.queue.demands, u.serial ≤ v.serial
  given : ∀ u ∈ e.track, u.serial < e.queue.accepted
  carried : ∀ {id x}, e.Carries id x → x.onDemand = true → e.Between x
  delayed : ∀ {id run x}, e.Laden id run x → run ∉ e.permits → x.onDemand = true → e.Outdated x

variable {run : Permit} {x : Entry}

theorem carries_of_ready (hready : e.ready? id = some d) (hx : d.entry? = some x)
    (hpost : d.post = .taker run) (hin : run ∈ e.permits) : e.Carries id x :=
  ⟨d, run, duty?_of_ready? hready, hx, hpost, hin⟩

theorem Carries.holds (h : e.Carries id x) : e.Holds x := by
  obtain ⟨d, run, hd, hx, -⟩ := h
  exact .inr ⟨id, d, hd, hx⟩

/-- Only one task has an entry of the run that goes on. -/
theorem Carries.unique (h : e.Carries id x) (hr : e.roster.Orderly) {id' : TaskId} {y : Entry}
    (h' : e.Carries id' y) : y = x := by
  obtain ⟨d, run, hd, hx, hpost, hin⟩ := h
  obtain ⟨d', run', hd', hy, hpost', hin'⟩ := h'
  obtain rfl : id = id' :=
    taker_unique hr (hpost ▸ post?_of_duty? hd) hin (hpost' ▸ post?_of_duty? hd') hin'
  cases hd.symm.trans hd'
  exact Option.some.inj (hy.symm.trans hx)

/-- The task of the run had its entry before a move, or has just taken it. -/
theorem carries_move (hr : e.roster.Orderly) (h : (e.move m).Carries id x) : e.Carries id x ∨
    ∃ run, m = .act id ∧ e.ready? id = some (.take run) ∧ run ∈ e.permits ∧
      e.queue.entries.head? = some x := by
  have hk : e.Known := known_of_orderly hr
  obtain ⟨d', run, hd', hx, hpost, hin'⟩ := h
  rcases taken_move hk hd' hx with ⟨d, hd, hhad⟩ | hnew
  · -- it had the entry in the same run
    have hw' : (e.move m).post? id = some (.taker run) := hpost ▸ post?_of_duty? hd'
    have hw : e.post? id = some (.taker run) := by
      rcases (move_evolves hr m).later.post (hk.lt hd) with hold | hgone
      · exact hold.symm.trans hw'
      · cases hgone.symm.trans hw'
    have hpost' : d.post = .taker run := Option.some.inj ((post?_of_duty? hd).symm.trans hw)
    have hin : run ∈ e.permits := Decidable.not_not.1 fun hout =>
      (move_evolves hr m).later.withdrawn (hr.sworn hw rfl) hout hin'
    exact .inl ⟨d, run, hd, hhad, hpost', hin⟩
  · exact .inr hnew

/-- What joins the line belongs to the run, or comes late. -/
theorem joins_cases (hready : e.ready? id = some (.exchange (.entry run x) .join)) :
    e.Carries id x ∨ e.JoinsLate id run x := by
  by_cases hin : run ∈ e.permits
  · exact .inl (carries_of_ready hready rfl rfl hin)
  · exact .inr ⟨hready, hin⟩

/-- What a move lets on the way is not newer than an entry that is newer than all on the way before, and
than that of the run. -/
theorem Sequenced.past_move (h : e.Sequenced late) (hl : e.Lined) (hr : e.roster.Orderly)
    {y : Entry} (hpast : ∀ u ∈ e.track, u.serial ≤ y.serial)
    (hrun : ∀ id u, e.Carries id u → u.onDemand = true → u.serial ≤ y.serial)
    (hold : ∀ u, e.Outdated u → u.serial ≤ y.serial) :
    ∀ u ∈ (e.move m).track, u.serial ≤ y.serial := by
  intro u hu
  rcases track_move hl (known_of_orderly hr) hu with htracked | ⟨id, run, -, hready, hdemand⟩
  · exact hpast u htracked
  · rcases joins_cases hready with hcarried | hlate
    · exact hrun id u hcarried hdemand
    · exact hold u (h.delayed (duty?_of_ready? hready) hlate.2 hdemand)

theorem Sequenced.line_move (h : e.Sequenced late) (hl : e.Lined) (hk : e.Known)
    (hlate : ∀ id run x, m = .act id → e.JoinsLate id run x → ∀ u ∈ e.track, late id run x u) :
    InLine late (attempted (e.move m).exchanges) (e.move m).places := by
  rw [attempted_move]
  refine (wire_move hl hk m).inLine h.line fun id p hrecords u hu run x hp hx => ?_
  obtain ⟨rfl, hready⟩ := ready_of_joined hrecords
  obtain rfl : p = .entry run x := hp
  rcases joins_cases hready with hcarried | hjoins
  · exact .inl ((h.carried hcarried hx).past u hu)
  · exact .inr (hlate id run x rfl hjoins u hu)

theorem Sequenced.waiting_move (h : e.Sequenced late) (hn : e.Numbered)
    (hq : ∃ l, Queue.Refines e.queue l) : InSequence (e.move m).queue.demands := by
  rcases demands_move hq m with hleft | ⟨new, hnew, hsorted, hserial⟩ |
    ⟨id, run, x, f, -, hready, -, hin, hx, hagain⟩
  · exact h.waiting.sublist hleft
  · rw [hnew]
    refine List.pairwise_append.2 ⟨h.waiting, hsorted, fun u hu v hv => ?_⟩
    have hlt : u.serial < e.queue.accepted := hn (.inl (List.mem_filter.1 hu).1)
    exact Nat.le_trans (Nat.le_of_lt hlt) (hserial v hv)
  · -- the one that is put in again has the number of the one that failed
    rw [hagain]
    exact List.pairwise_cons.2 ⟨(h.carried (carries_of_ready hready rfl rfl hin) hx).future, h.waiting⟩

/-- What is in the queue after a move is newer than an entry that is older than what was there before,
and than the entry of the run. -/
theorem future_move (hq : ∃ l, Queue.Refines e.queue l) {y : Entry}
    (hgiven : y.serial < e.queue.accepted) (hqueue : ∀ v ∈ e.queue.demands, y.serial ≤ v.serial)
    (hrun : ∀ id v, e.Carries id v → v.onDemand = true → y.serial ≤ v.serial) :
    ∀ v ∈ (e.move m).queue.demands, y.serial ≤ v.serial := by
  intro v hv
  rcases demands_move hq m with hleft | ⟨new, hnew, -, hserial⟩ |
    ⟨id, run, x, f, -, hready, -, hin, hx, hagain⟩
  · exact hqueue v (hleft.mem hv)
  · rw [hnew] at hv
    rcases List.mem_append.1 hv with hold | hlater
    · exact hqueue v hold
    · exact Nat.le_trans (Nat.le_of_lt hgiven) (hserial v hlater)
  · rw [hagain] at hv
    rcases List.mem_cons.1 hv with rfl | hold
    · exact hrun id x (carries_of_ready hready rfl rfl hin) hx
    · exact hqueue v hold

theorem Sequenced.given_move (h : e.Sequenced late) (hl : e.Lined) (hk : e.Known) (hn : e.Numbered) :
    ∀ u ∈ (e.move m).track, u.serial < (e.move m).queue.accepted := by
  intro u hu
  refine Nat.lt_of_lt_of_le ?_ (e.accepted_le_move m)
  rcases track_move hl hk hu with htracked | ⟨id, run, -, hready, -⟩
  · exact h.given u htracked
  · exact hn (.inr ⟨id, _, duty?_of_ready? hready, rfl⟩)

theorem Sequenced.queued_move (h : e.Sequenced late) (hr : e.roster.Orderly) (hl : e.Lined)
    (hn : e.Numbered) (hq : ∃ l, Queue.Refines e.queue l) :
    ∀ u ∈ (e.move m).track, ∀ v ∈ (e.move m).queue.demands, u.serial ≤ v.serial := by
  intro u hu
  rcases track_move hl (known_of_orderly hr) hu with htracked | ⟨id, run, -, hready, hdemand⟩
  · refine future_move hq (h.given u htracked) (h.queued u htracked) fun id v hv hx => ?_
    exact (h.carried hv hx).past u htracked
  · have hgiven : u.serial < e.queue.accepted := hn (.inr ⟨id, _, duty?_of_ready? hready, rfl⟩)
    rcases joins_cases hready with hcarried | hlate
    · refine future_move hq hgiven (h.carried hcarried hdemand).future fun id' v hv _ => ?_
      exact Nat.le_of_eq (congrArg Entry.serial (hv.unique hr hcarried))
    · have hold := h.delayed (duty?_of_ready? hready) hlate.2 hdemand
      exact future_move hq hgiven hold.queue hold.run

theorem Sequenced.carried_move (h : e.Sequenced late) (hr : e.roster.Orderly) (hl : e.Lined)
    (hn : e.Numbered) (hq : ∃ l, Queue.Refines e.queue l) (hx' : (e.move m).Carries id x)
    (hx : x.onDemand = true) : (e.move m).Between x := by
  rcases carries_move hr hx' with hcarried | ⟨run, rfl, hready, hin, hhead⟩
  · obtain ⟨hpast, hfuture⟩ := h.carried hcarried hx
    refine ⟨h.past_move hl hr hpast (fun id' u hu _ => ?_) fun u hu => hu.run id x hcarried hx,
      future_move hq (hn hcarried.holds) hfuture fun id' v hv _ => ?_⟩
    · exact Nat.le_of_eq (congrArg Entry.serial (hcarried.unique hr hu))
    · exact Nat.le_of_eq (congrArg Entry.serial (hv.unique hr hcarried))
  · -- it has just taken the first one of the queue
    have hdemands := Queue.demands_of_head? hhead
    rw [if_pos hx] at hdemands
    have hmem : x ∈ e.queue.demands := by
      rw [hdemands]
      exact List.mem_cons_self
    constructor
    · intro u hu
      rcases track_move hl (known_of_orderly hr) hu with htracked | ⟨id', run', hm, hready', -⟩
      · exact h.queued u htracked x hmem
      · cases hm
        cases hready.symm.trans hready'
    · have hqueue : (e.move (.act id)).queue = e.queue.pop.2 := by
        rw [move_queue, asks_of_take hready hin]
        rfl
      have hwaiting := h.waiting
      rw [hqueue]
      rw [hdemands] at hwaiting
      exact (List.pairwise_cons.1 hwaiting).1

/-- After a stop nothing is in the queue, and no run goes on. -/
theorem outdated_of_stops (hr : e.roster.Orderly) (hstops : m.stops e.table = true) :
    (e.move m).Outdated x := by
  have hleaves : (e.move m).phase = .dormant ∧ (e.move m).queue.entries = [] := by
    cases m with
    | obey c => exact ⟨obey_phase_of_stops hstops, queue_of_stops hstops⟩
    | act | elapse | pass | plan => cases hstops
  constructor
  · intro v hv
    have hnone : v ∈ (e.move m).queue.entries := (List.mem_filter.1 hv).1
    rw [hleaves.2] at hnone
    cases hnone
  · rintro id y ⟨d, run, -, -, -, hin⟩ -
    have hmem := (((move_evolves hr m).orderly hr).permits run).1 hin
    rw [show (e.move m).roster.phase = .dormant from hleaves.1] at hmem
    cases hmem

theorem Sequenced.delayed_move (h : e.Sequenced late) (hr : e.roster.Orderly) (hn : e.Numbered)
    (hq : ∃ l, Queue.Refines e.queue l) (hd' : (e.move m).Laden id run x)
    (hout' : run ∉ (e.move m).permits) (hx : x.onDemand = true) : (e.move m).Outdated x := by
  rcases laden_of_move (known_of_orderly hr) hd' with ⟨hd, hidle⟩ | ⟨rfl, hready, hin⟩
  · by_cases hin : run ∈ e.permits
    · exact outdated_of_stops hr (stops_of_withdrawn hr hd hidle hin hout')
    · obtain ⟨hqueue, hrun⟩ := h.delayed hd hin hx
      refine ⟨future_move hq (hn (.inr ⟨id, _, hd, rfl⟩)) hqueue hrun, fun id' y hy hdemand => ?_⟩
      rcases carries_move hr hy with hcarried | ⟨run', -, -, -, hhead⟩
      · exact hrun id' y hcarried hdemand
      · exact hqueue y (List.mem_filter.2 ⟨List.mem_of_mem_head? hhead, hdemand⟩)
  · exact absurd (permits_of_take hr hready hin) hout'

/-- Requests on demand keep their order, but for those that come late to the line. -/
theorem Sequenced.move (h : e.Sequenced late) (hr : e.roster.Orderly) (hl : e.Lined) (hn : e.Numbered)
    (hq : ∃ l, Queue.Refines e.queue l)
    (hlate : ∀ id run x, m = .act id → e.JoinsLate id run x → ∀ u ∈ e.track, late id run x u) :
    (e.move m).Sequenced late where
  line := h.line_move hl (known_of_orderly hr) hlate
  waiting := h.waiting_move hn hq
  queued := h.queued_move hr hl hn hq
  given := h.given_move hl (known_of_orderly hr) hn
  carried := h.carried_move hr hl hn hq
  delayed := h.delayed_move hr hn hq

end Engine

end HeatWatch
