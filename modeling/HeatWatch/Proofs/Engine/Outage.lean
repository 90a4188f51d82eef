import HeatWatch.Proofs.Engine.Phases
import HeatWatch.Proofs.Engine.Turns
import HeatWatch.Proofs.Queue.Demands

/-!
# Outages and what comes after them

A request that fails at the start of an outage is put before all others, if the queue has a free
slot at that moment. It stays there while the outage lasts, and the next run begins with it. Main
statements:

* `asks_of_kept`: while no run ends, only its own task takes anything from the queue;
* `Awaits.move`: a run that is still to begin with an entry begins with that one;
* `outage_replays`: what becomes of the request that failed.
-/

namespace HeatWatch

/-- The entry that a task joins the line with under the permit of a run. -/
def Happening.begun? (root : Permit) : Happening → Option Entry
  | .joined _ (.entry run x) => if run = root then some x else none
  | _ => none

theorem Queue.run_head? {q : Queue} {x : Entry} (hx : q.entries.head? = some x)
    (hu : x.urgent = true) {ops : List Op} (hops : ∀ op ∈ ops, op.isPush = true) :
    (q.run ops).2.entries.head? = some x := by
  induction ops generalizing q with
  | nil => exact hx
  | cons op ops ih =>
    obtain ⟨hop, htail⟩ := List.forall_mem_cons.1 hops
    cases op with
    | push r c p => exact ih (Queue.push_head? hx hu r c p) htail
    | replay | pop | takeWaiting | clear => cases hop

namespace Engine

variable {e : Engine} {id : TaskId} {d : Duty} {root : Permit} {x : Entry}

/-- The entries that were exchanged under the permit of a run, the earliest first. -/
def begun (e : Engine) (root : Permit) : List Entry :=
  (e.history.reverse.map (·.what)).filterMap (Happening.begun? root)

/-- A run begins with an entry: it did, or it did nothing yet, and its task can begin with it while
the run goes on. -/
def BeginsWith (e : Engine) (root : Permit) (x : Entry) : Prop :=
  (e.begun root).head? = some x ∨ e.begun root = [] ∧ (e.allows root = true →
    ∃ id, (((e.act id).act id).begun root).head? = some x)

/-- The entry that a move begins an exchange with under the permit of a run. -/
def joins? (e : Engine) (root : Permit) (m : Move) : Option Entry :=
  (e.shows m).bind (Happening.begun? root)

/-! ## What a run began with -/

theorem begun_eq_trace (e : Engine) (root : Permit) :
    e.begun root = (e.ledger.trace.filterMap (Happening.begun? root)).reverse := by
  unfold begun
  rw [filterMap_trace, List.map_reverse, List.filterMap_reverse]
  intro h hh
  cases h with
  | joined => cases hh
  | log | polled | sent | received | exchanged | callback | outage | recovered | found => rfl

/-- What a move adds to what a run began with. -/
theorem begun_move (e : Engine) (m : Move) (root : Permit) :
    (e.move m).begun root = e.begun root ++ (e.joins? root m).toList := by
  rw [begun_eq_trace, begun_eq_trace, move_trace, List.filterMap_append, List.reverse_append]
  unfold joins?
  congr 1
  cases e.shows m with
  | none => rfl
  | some h => cases hh : h.begun? root <;> simp [hh]

/-- A task begins with an entry under a permit when it is about to join the line for it. -/
theorem joins?_eq_some {m : Move} : e.joins? root m = some x ↔
    ∃ id, m = .act id ∧ e.ready? id = some (.exchange (.entry root x) .join) := by
  constructor
  · intro h
    obtain ⟨happening, hshows, hbegun⟩ := Option.bind_eq_some_iff.1 h
    unfold Happening.begun? at hbegun
    split at hbegun
    case h_1 id run y =>
      split at hbegun
      case isTrue hrun =>
        obtain rfl := Option.some.inj hbegun
        exact ⟨id, hrun ▸ shows_joined.1 hshows⟩
      case isFalse => cases hbegun
    case h_2 => cases hbegun
  · rintro ⟨id, hm⟩
    have hshows := shows_joined.2 hm
    unfold joins?
    rw [hshows]
    exact if_pos rfl

theorem begun_head?_follow (hx : (e.begun root).head? = some x) (ms : List Move) :
    ((e.follow ms).begun root).head? = some x := by
  refine follow_induction (P := fun e => (e.begun root).head? = some x) (fun e m hx => ?_) hx ms
  obtain ⟨rest, hrest⟩ : ∃ rest, e.begun root = x :: rest := List.head?_eq_some_iff.1 hx
  rw [begun_move, hrest]
  rfl

/-- A task joins the line under a permit that was issued. -/
theorem joins?_of_unissued (hr : e.roster.Orderly) (m : Move) (hroot : e.nextPermit ≤ root) :
    e.joins? root m = none := by
  refine Option.eq_none_iff_forall_ne_some.2 fun x hx => ?_
  obtain ⟨id, -, hready⟩ := joins?_eq_some.1 hx
  have hpost : e.post? id = some (.taker root) := post?_of_ready? hready
  exact Nat.not_lt.2 hroot (hr.sworn hpost rfl)

/-- No run has begun under a permit that is not issued yet. -/
theorem begun_of_unissued (hr : e.roster.Orderly)
    (hnone : ∀ root, e.nextPermit ≤ root → e.begun root = [])
    (ms : List Move) (hroot : (e.follow ms).nextPermit ≤ root) : (e.follow ms).begun root = [] := by
  induction ms generalizing e with
  | nil => exact hnone root hroot
  | cons m ms ih =>
    -- a permit that is not issued after the move was not issued before it
    have hevolves := move_evolves hr m
    refine ih (hevolves.orderly hr) (fun root hroot => ?_) hroot
    have hroot' : e.nextPermit ≤ root := Nat.le_trans hevolves.later.nextPermit hroot
    rw [begun_move, hnone root hroot', joins?_of_unissued hr m hroot']
    rfl

/-! ## Who takes from the queue -/

/-- A call of the host that ends everything leaves the engine dormant. -/
theorem obey_phase_of_stops {c : Command} (h : c.stops e.table = true) :
    (e.obey c).2.phase = .dormant := by
  have hstop : ∀ e : Engine, e.stop.phase = .dormant := fun e =>
    congrArg Roster.phase e.stop_roster
  cases c with
  | shutdown => exact hstop _
  | removeListener s l =>
    show (e.removeListener s l).2.phase = .dormant
    have hboth : (e.table.removeListener s l).1 = true ∧
        (e.table.removeListener s l).2.listenerCount = 0 := by
      have h' : ((e.table.removeListener s l).1 &&
        (e.table.removeListener s l).2.listenerCount = 0) = true := h
      simpa using h'
    unfold removeListener
    generalize e.table.removeListener s l = removal at hboth
    obtain ⟨removed, table⟩ := removal
    obtain ⟨rfl, hcount⟩ := hboth
    dsimp only
    rw [Bool.not_true, if_neg Bool.false_ne_true, if_pos hcount]
    exact hstop _
  | addListener | lookup | requestSystem | requestStatus | requestAlarm | requestSoftware
  | requestMode | requestParameters | setParameters | setMode | setThermostat | removeThermostat
  | addTracked | removeTracked | setUpdateInterval | setSoftwareDays => cases h

theorem queue_of_stops {c : Command} (h : c.stops e.table = true) :
    (e.obey c).2.queue.entries = [] := by
  rw [obey_queue]
  unfold Command.asks
  rw [if_pos h]
  exact Queue.clear_entries e.queue

/-- The run is over whose request led to an outage. -/
theorem concludeEntry_withdrawn (hr : e.roster.Orderly) {run : Permit} {entry : Entry}
    (hw : e.post? id = some (.taker run)) {f : RequestError} (hf : f.isServer = true) :
    run ∉ (e.concludeEntry id run entry (.error f)).permits := by
  unfold concludeEntry
  cases entry.caller with
  | none =>
    dsimp only
    rw [if_pos hf]
    exact (enterOutage_evolves hr hw entry f).2
  | some caller =>
    dsimp only
    rw [if_pos hf]
    have hroster := e.reply_roster caller (.error f)
    exact (enterOutage_evolves (hroster ▸ hr) (post?_of_roster hroster hw) entry f).2

/-- As long as the engine goes on, and the run does if there is one, the moves put requests into the
queue, and only the task of the run takes them out. -/
theorem asks_of_kept (hr : e.roster.Orderly) (m : Move) (hstop : (e.move m).phase ≠ .dormant)
    (hrun : ∀ run, e.phase = .active run → run.root ∈ (e.move m).permits) :
    (∀ op ∈ e.asks m, op.isPush = true) ∨
      ∃ id run, m = .act id ∧ e.phase = .active run ∧ e.ready? id = some (.take run.root) := by
  have hpushes : ∀ (rs : List Request) (p : Position),
      ∀ op ∈ rs.map (Queue.Op.push · none p), op.isPush = true := by
    intro rs p op hop
    obtain ⟨r, -, rfl⟩ := List.mem_map.1 hop
    rfl
  have hasked := e.asked m
  generalize e.asks m = ops at hasked ⊢
  cases hasked with
  | nothing => exact .inl nofun
  | clear h => exact absurd (obey_phase_of_stops h) hstop
  | demand | poll => exact .inl (hpushes _ _)
  | take hready hin =>
    obtain ⟨run, hphase, rfl⟩ := hr.taker (post?_of_ready? hready) (allows_iff.1 hin)
    exact .inr ⟨_, run, rfl, hphase, hready⟩
  | submit hready => exact .inl fun op hop => List.mem_singleton.1 hop ▸ rfl
  | @outage id root x f hready hf hin =>
    -- the outage withdraws the permit of the run, which goes on
    have hpost : e.post? id = some (.taker root) := post?_of_ready? hready
    obtain ⟨run, hphase, rfl⟩ := hr.taker hpost (allows_iff.1 hin)
    have hact : e.move (.act id) = e.concludeEntry id run.root x (.error f) := move_of_ready hready
    have hkept := hrun run hphase
    rw [hact] at hkept
    exact absurd hkept (concludeEntry_withdrawn hr hpost hf)

/-- A task that takes an entry goes on with it at once. -/
theorem take_of_head? {run : Permit} {w : Wait} (hid : e.task? id = some ⟨.take run, w⟩)
    (hin : e.allows run = true) (hx : e.queue.entries.head? = some x) :
    (e.take id run).task? id = some ⟨.exchange (.entry run x) .join, w⟩ := by
  unfold take
  rw [if_neg (by simp [hin])]
  split
  case h_1 queue hpop =>
    cases hx.symm.trans (congrArg Prod.fst hpop)
  case h_2 entry queue hpop =>
    obtain rfl := Option.some.inj (hx.symm.trans (congrArg Prod.fst hpop))
    have htask : Engine.task? { e with queue } id = some ⟨.take run, w⟩ := hid
    rw [task?_proceed, if_pos rfl, htask]
    rfl

/-! ## Runs that are still to begin -/

/-- A run did nothing yet and begins with an entry: its task is about to take it from the queue, or
has just taken it. -/
structure Awaits (e : Engine) (root : Permit) (x : Entry) : Prop where
  begun : e.begun root = []
  issued : root < e.nextPermit
  staff : root ∈ e.permits → .taker root ∈ e.roster.staff
  ready : ∀ {id t}, e.task? id = some t → t.duty.post = .taker root → ∃ n, t.wait = .ready n
  taker : ∀ {id t}, e.task? id = some t → t.duty.post = .taker root →
    t.duty = .exchange (.entry root x) .join ∨ t.duty = .take root
  first : ∀ {id}, e.duty? id = some (.take root) → root ∈ e.permits →
    e.queue.entries.head? = some x

/-- The task of a run that is still to begin stays where it is while others act. -/
theorem Awaits.stays (h : e.Awaits root x) (hr : e.roster.Orderly) {m : Move}
    (hne : m ≠ .act id) {t t' : Task} (ht : e.task? id = some t)
    (ht' : (e.move m).task? id = some t') (hpost : t.duty.post = .taker root) :
    t'.duty = t.duty ∧ ∃ n, t'.wait = .ready n := by
  obtain ⟨d, w⟩ := t
  obtain ⟨n, rfl⟩ := h.ready ht hpost
  have hd : ∀ l, d ≠ .await l := by
    rintro l rfl
    cases hpost
  have hready := ready?_move_of_other (known_of_orderly hr) hne (ready?_eq_some.2 ⟨n, ht⟩) hd
  obtain ⟨k, ht''⟩ := ready?_eq_some.1 hready
  cases ht'.symm.trans ht''
  exact ⟨rfl, k, rfl⟩

/-- The task of a run that is still to begin takes the entry when it acts. -/
theorem Awaits.takes (h : e.Awaits root x) (hj : e.joins? root (.act id) = none) {t t' : Task}
    (ht : e.task? id = some t) (ht' : (e.move (.act id)).task? id = some t')
    (hpost : t.duty.post = .taker root) :
    t'.duty = .exchange (.entry root x) .join ∧ ∃ n, t'.wait = .ready n := by
  obtain ⟨n, hready⟩ := h.ready ht hpost
  obtain ⟨d, w⟩ := t
  obtain rfl : w = .ready n := hready
  have hd : e.ready? id = some d := ready?_eq_some.2 ⟨n, ht⟩
  rw [move_of_ready hd] at ht'
  rcases h.taker ht hpost with hjoin | htake
  · obtain rfl : d = .exchange (.entry root x) .join := hjoin
    cases hj.symm.trans (joins?_eq_some.2 ⟨id, rfl, hd⟩)
  · obtain rfl : d = .take root := htake
    have htook : (e.take id root).task? id = some t' := ht'
    by_cases hin : e.allows root = true
    · have hx := h.first (duty?_of_task? ht) (allows_iff.1 hin)
      rw [take_of_head? ht hin hx] at htook
      obtain rfl := Option.some.inj htook
      exact ⟨rfl, n, rfl⟩
    · -- the run is over, and so is its task
      unfold take at htook
      rw [if_pos (by simp [hin]), task?_finish, if_pos rfl] at htook
      cases htook

/-- What the task of a run that is still to begin has become: it acted and took the entry, or it is
where it was. -/
theorem Awaits.cases (h : e.Awaits root x) (hr : e.roster.Orderly) {m : Move}
    (hj : e.joins? root m = none) {t' : Task} (ht' : (e.move m).task? id = some t')
    (hpost : t'.duty.post = .taker root) : (∃ n, t'.wait = .ready n) ∧
      (m = .act id ∧ t'.duty = .exchange (.entry root x) .join ∨
        m ≠ .act id ∧ ∃ t, e.task? id = some t ∧ t'.duty = t.duty) := by
  have hpost' : (e.move m).post? id = some (.taker root) := hpost ▸ post?_of_task? ht'
  have hlt : id < e.nextTask := Nat.lt_of_not_le fun hge =>
    Nat.not_lt.2 ((move_evolves hr m).newcomer hr hge hpost' rfl) h.issued
  have hsame : e.post? id = some (.taker root) := by
    rcases (move_evolves hr m).later.post hlt with hsame | hnone
    · exact hsame.symm.trans hpost'
    · cases hnone.symm.trans hpost'
  obtain ⟨t, ht, htaker⟩ := task?_of_post? hsame
  by_cases hne : m = .act id
  · subst hne
    obtain ⟨hduty, hready⟩ := h.takes hj ht ht' htaker
    exact ⟨hready, .inl ⟨rfl, hduty⟩⟩
  · obtain ⟨hduty, hready⟩ := h.stays hr hne ht ht' htaker
    exact ⟨hready, .inr ⟨hne, t, ht, hduty⟩⟩

/-- The entry stays first as long as the task of the run is about to take it and others act. -/
theorem Awaits.stays_first (h : e.Awaits root x) (hu : x.urgent = true) (hr : e.roster.Orderly)
    {m : Move} (hne : m ≠ .act id) (hd : e.duty? id = some (.take root)) (hin : root ∈ e.permits)
    (hin' : root ∈ (e.move m).permits) : (e.move m).queue.entries.head? = some x := by
  have hx := h.first hd hin
  have hroot : ∀ run, e.phase = .active run → run.root = root := by
    intro run hphase
    obtain ⟨run', hphase', hroot⟩ := Roster.phase_of_taker (h.staff hin)
    cases hphase.symm.trans hphase'
    exact hroot
  have hstop : (e.move m).phase ≠ .dormant := by
    intro hdormant
    have hmem := (((move_evolves hr m).orderly hr).permits root).1 hin'
    rw [show (e.move m).roster.phase = .dormant from hdormant] at hmem
    cases hmem
  have hkept : ∀ run, e.phase = .active run → run.root ∈ (e.move m).permits := by
    intro run hphase
    rw [hroot run hphase]
    exact hin'
  rcases asks_of_kept hr m hstop hkept with hpush | ⟨id', run, rfl, hphase, hready⟩
  · rw [move_queue]
    exact Queue.run_head? hx hu hpush
  · -- no one else takes for this run
    have hpost : e.post? id' = some (.taker run.root) := post?_of_ready? hready
    rw [hroot run hphase] at hpost
    have hsame : id' = id := hr.once hpost (post?_of_duty? hd) rfl hin
    exact absurd (congrArg Move.act hsame) hne

/-- A run that is still to begin with an entry begins with that one. -/
theorem Awaits.move (h : e.Awaits root x) (hu : x.urgent = true) (hr : e.roster.Orderly)
    (m : Move) : ((e.move m).begun root).head? = some x ∨ (e.move m).Awaits root x := by
  have hevolves := move_evolves hr m
  have hin : root ∈ (e.move m).permits → root ∈ e.permits := fun hin' =>
    Decidable.not_not.1 fun hout => hevolves.later.withdrawn h.issued hout hin'
  cases hj : e.joins? root m with
  | some y =>
    -- whoever begins an exchange under the permit is the task of the run
    obtain ⟨id, rfl, hready⟩ := joins?_eq_some.1 hj
    obtain ⟨n, ht⟩ := ready?_eq_some.1 hready
    refine .inl ?_
    rcases h.taker ht rfl with hsame | htake
    · cases hsame
      rw [begun_move, h.begun, hj]
      rfl
    · cases htake
  | none =>
    refine .inr ⟨?_, ?_, fun hin' => ?_, fun ht hpost => ?_, fun ht hpost => ?_, fun hd hin' => ?_⟩
    · rw [begun_move, h.begun, hj]
      rfl
    · exact Nat.lt_of_lt_of_le h.issued hevolves.later.nextPermit
    · exact hevolves.staff hr (h.staff (hin hin')) rfl hin'
    · exact (h.cases hr hj ht hpost).1
    · rcases (h.cases hr hj ht hpost).2 with ⟨-, hjoin⟩ | ⟨-, t, ht', hsame⟩
      · exact .inl hjoin
      · rw [hsame] at hpost ⊢
        exact h.taker ht' hpost
    · obtain ⟨t, ht, htake⟩ := Option.map_eq_some_iff.1 hd
      rcases (h.cases hr hj ht (htake ▸ rfl)).2 with ⟨-, hjoin⟩ | ⟨hne, t', ht', hsame⟩
      · cases htake.symm.trans hjoin
      · have hd' : e.duty? _ = some (.take root) :=
          (duty?_of_task? ht').trans (congrArg some (hsame.symm.trans htake))
        exact h.stays_first hu hr hne hd' (hin hin') hin'

theorem Awaits.follow (h : e.Awaits root x) (hu : x.urgent = true) (hr : e.roster.Orderly)
    (ms : List Move) :
    ((e.follow ms).begun root).head? = some x ∨ (e.follow ms).Awaits root x := by
  induction ms generalizing e with
  | nil => exact .inr h
  | cons m ms ih =>
    rcases h.move hu hr m with hbegun | hawaits
    · exact .inl (begun_head?_follow hbegun ms)
    · exact ih hawaits ((move_evolves hr m).orderly hr)

/-- As long as a run that is still to begin goes on, its task can begin it. -/
theorem Awaits.begins (h : e.Awaits root x) (hm : e.roster.Manned) (hin : e.allows root = true) :
    ∃ id, (((e.act id).act id).begun root).head? = some x := by
  have hmem : root ∈ e.permits := allows_iff.1 hin
  obtain ⟨id, hid⟩ := hm (.taker root) (h.staff hmem) (not_not_intro hmem)
  obtain ⟨t, ht, hpost⟩ := task?_of_post? hid
  obtain ⟨n, hready⟩ := h.ready ht hpost
  obtain ⟨d, w⟩ := t
  obtain rfl : w = .ready n := hready
  -- the task joins the line with the entry, which it may have to take first
  have hjoins : ∀ {e' : Engine}, e'.begun root = [] →
      e'.task? id = some ⟨.exchange (.entry root x) .join, .ready n⟩ →
      ((e'.act id).begun root).head? = some x := by
    intro e' hnone ht'
    have hj : e'.joins? root (.act id) = some x :=
      joins?_eq_some.2 ⟨id, rfl, ready?_eq_some.2 ⟨n, ht'⟩⟩
    show ((e'.move (.act id)).begun root).head? = some x
    rw [begun_move, hnone, hj]
    rfl
  refine ⟨id, ?_⟩
  rcases h.taker ht hpost with hjoin | htake
  · obtain rfl : d = .exchange (.entry root x) .join := hjoin
    exact begun_head?_follow (hjoins h.begun ht) [.act id]
  · obtain rfl : d = .take root := htake
    have hd : e.ready? id = some (.take root) := ready?_eq_some.2 ⟨n, ht⟩
    have hact : e.act id = e.take id root := act_of_ready hd
    refine hjoins ?_ ?_
    · have hj : e.joins? root (.act id) = none := by
        refine Option.eq_none_iff_forall_ne_some.2 fun y hy => ?_
        obtain ⟨id', hm, hready⟩ := joins?_eq_some.1 hy
        cases hm
        cases hd.symm.trans hready
      show (e.move (.act id)).begun root = []
      rw [begun_move, h.begun, hj]
      rfl
    · rw [hact]
      exact take_of_head? ht hin (h.first (duty?_of_task? ht) hmem)

/-! ## Outages -/

/-- While an outage lasts, an urgent entry that stands first stays there. -/
theorem outage_head? (hr : e.roster.Orderly) {outage : Permit} (hphase : e.phase = .outage outage)
    (hx : e.queue.entries.head? = some x) (hu : x.urgent = true) {m : Move}
    (hstop : (e.move m).phase ≠ .dormant) : (e.move m).queue.entries.head? = some x := by
  have hrun : ∀ run, e.phase = .active run → run.root ∈ (e.move m).permits := fun run h => by
    cases hphase.symm.trans h
  rcases asks_of_kept hr m hstop hrun with hpush | ⟨-, run, -, h, -⟩
  · rw [move_queue]
    exact Queue.run_head? hx hu hpush
  · cases hphase.symm.trans h

theorem outage_of_later (hr : e.roster.Orderly) {outage : Permit}
    (hphase : e.phase = .outage outage) (ms : List Move)
    (hin : outage ∈ (e.follow ms).permits) : (e.follow ms).phase = .outage outage := by
  have hstaff : .prober outage ∈ e.roster.staff := by
    show .prober outage ∈ e.phase.staff e.settings
    rw [hphase]
    exact List.mem_singleton_self _
  exact Roster.phase_of_prober ((follow_evolves hr ms).staff hr hstaff rfl hin)

theorem root_of_active (hr : e.roster.Orderly) {run : Run} (hphase : e.phase = .active run) :
    run.root ∈ e.permits := by
  refine (hr.permits run.root).2 ?_
  show run.root ∈ e.phase.permits
  rw [hphase]
  exact List.mem_cons_self

theorem mem_permits_of_outage (hr : e.roster.Orderly) {outage : Permit}
    (hphase : e.phase = .outage outage) : outage ∈ e.permits := by
  refine (hr.permits outage).2 ?_
  show outage ∈ e.phase.permits
  rw [hphase]
  exact List.mem_singleton_self _

/-- An outage that lasts at some time later lasts all the time until then. -/
theorem outage_between {e e' e'' : Engine} (hr : e.roster.Orderly) {outage : Permit}
    (hphase : e.phase = .outage outage) (hleads : Leads e e') (hleads' : Leads e' e'')
    (hlasts : e''.phase = .outage outage) : e'.phase = .outage outage := by
  obtain ⟨ms, rfl⟩ := hleads
  obtain ⟨ms', rfl⟩ := hleads'
  have hevolves := follow_evolves hr ms
  have hr' : (e.follow ms).roster.Orderly := hevolves.orderly hr
  -- the permit of the outage is in force at the end, so it was all the time
  refine outage_of_later hr hphase ms (Decidable.not_not.1 fun hout => ?_)
  have hrs := follow_evolves hr' ms'
  have hlt := hr.issued outage (mem_permits_of_outage hr hphase)
  refine hrs.later.withdrawn (Nat.lt_of_lt_of_le hlt hevolves.later.nextPermit) hout ?_
  exact mem_permits_of_outage (hrs.orderly hr') hlasts

/-- What each move of an outage keeps holds as long as the outage lasts. -/
theorem outage_induction {P : Engine → Prop} {outage : Permit}
    (hm : ∀ e m, e.roster.Orderly → e.phase = .outage outage → (e.move m).phase = .outage outage →
      P e → P (e.move m)) (hr : e.roster.Orderly) (hphase : e.phase = .outage outage) (h : P e)
    (ms : List Move) (hlasts : (e.follow ms).phase = .outage outage) : P (e.follow ms) := by
  induction ms generalizing e with
  | nil => exact h
  | cons m ms ih =>
    have hphase' : (e.move m).phase = .outage outage :=
      outage_between hr hphase (leads_move e m) ⟨ms, rfl⟩ hlasts
    exact ih ((move_evolves hr m).orderly hr) hphase' (hm e m hr hphase hphase' h) hlasts

/-- It is still first whenever the outage still lasts. -/
theorem outage_head?_follow (hr : e.roster.Orderly) {outage : Permit}
    (hphase : e.phase = .outage outage) (hx : e.queue.entries.head? = some x)
    (hu : x.urgent = true) (ms : List Move) (hlasts : (e.follow ms).phase = .outage outage) :
    (e.follow ms).queue.entries.head? = some x := by
  refine outage_induction (P := fun e => e.queue.entries.head? = some x)
    (fun e m hr hphase hphase' hx => ?_) hr hphase hx ms hlasts
  refine outage_head? hr hphase hx hu ?_
  rw [hphase']
  exact nofun

/-- What the failure of a request leaves in the queue for which no caller waits. -/
theorem concludeEntry_outage (hr : e.roster.Orderly) {f : RequestError}
    (hw : e.post? id = some (.taker root)) (hin : e.allows root = true) (hf : f.isServer = true)
    (hcaller : x.caller = none) :
    let e' := e.concludeEntry id root x (.error f)
    e'.phase = .outage e.nextPermit ∧ e'.queue.entries =
      (if e.queue.size < e.queue.capacity then [x.again] else [])
        ++ e.queue.entries.filter (·.caller.isNone) := by
  have hmem : root ∈ e.permits := allows_iff.1 hin
  obtain ⟨run, hphase, rfl⟩ := hr.taker hw hmem
  have hphase : e.phase = .active run := hphase
  refine ⟨?_, ?_⟩
  · have hconclude : e.concludeEntry id run.root x (.error f) =
        (e.enterOutage run.root x f).finish id := by
      unfold concludeEntry
      rw [hcaller]
      exact if_pos hf
    rw [hconclude]
    exact congrArg Roster.phase (enterOutage_roster hphase hmem x f)
  · have hasks : (Duty.conclude (.entry run.root x) (.error f)).asks e id =
        [.replay x, .takeWaiting] := by
      have hactive : e.phase.isActive = true := Phase.isActive_iff.2 ⟨run, hphase⟩
      unfold Duty.asks
      dsimp only
      rw [if_pos ⟨hf, hactive, hin⟩, hcaller]
      rfl
    rw [concludeEntry_queue, hasks]
    show ((e.queue.replay x).queue.takeWaiting.2).entries = _
    rw [Queue.takeWaiting_entries]
    by_cases hroom : e.queue.size < e.queue.capacity
    · rw [if_pos hroom, Queue.replay_of_room hroom]
      rfl
    · rw [if_neg hroom, Queue.replay_of_full hroom]
      rfl

/-- The run after an outage begins with the entry that stands first. -/
theorem awaits_of_resumed (hr : e.roster.Orderly) {outage : Permit}
    (hphase : e.phase = .outage outage) (hx : e.queue.entries.head? = some x)
    (hu : x.urgent = true) (hnone : ∀ root, e.nextPermit ≤ root → e.begun root = []) {m : Move}
    {run : Run} (hrun : (e.move m).phase = .active run) : (e.move m).Awaits run.root x := by
  have hevolves := move_evolves hr m
  have hr' : (e.move m).roster.Orderly := hevolves.orderly hr
  have hmem : run.root ∈ (e.move m).permits := by
    refine (hr'.permits run.root).2 ?_
    show run.root ∈ (e.move m).phase.permits
    rw [hrun]
    exact List.mem_cons_self
  have hnew : e.nextPermit ≤ run.root := by
    refine Nat.le_of_not_lt fun hlt => ?_
    -- the only old permit in force is that of the outage, which is over
    by_cases hin : run.root ∈ e.permits
    · have hsame : run.root ∈ e.phase.permits := (hr.permits run.root).1 hin
      rw [hphase] at hsame
      obtain rfl := List.mem_singleton.1 hsame
      cases hrun.symm.trans (outage_of_later hr hphase [m] hmem)
    · exact hevolves.later.withdrawn hlt hin hmem
  have hfresh : ∀ {id t}, (e.move m).task? id = some t → t.duty.post = .taker run.root →
      m.Begins t.duty ∧ ∃ n, t.wait = .ready n := by
    intro id t ht hpost
    refine move_new (known_of_orderly hr) m (Nat.le_of_not_lt fun hlt => ?_) ht
    have hw : (e.move m).post? id = some (.taker run.root) := hpost ▸ post?_of_task? ht
    rcases hevolves.later.post hlt with hsame | hgone
    · exact Nat.not_lt.2 hnew (hr.sworn (hsame.symm.trans hw) rfl)
    · cases hgone.symm.trans hw
  refine ⟨?_, hr'.issued _ hmem, fun _ => ?_, fun ht hpost => (hfresh ht hpost).2,
    fun {id t} ht hpost => ?_, fun _ _ => ?_⟩
  · rw [begun_move, hnone _ hnew, joins?_of_unissued hr m hnew]
    rfl
  · show .taker run.root ∈ (e.move m).phase.staff (e.move m).settings
    rw [hrun]
    exact List.mem_cons_self
  · refine .inr ?_
    have hbegins := (hfresh ht hpost).1
    obtain ⟨d, w⟩ := t
    rcases hbegins.cases with ⟨l, -, rfl⟩ | ⟨root, rfl⟩ | ⟨permit, p, delay, period, rfl⟩ |
      ⟨outage, rfl⟩
    · cases hpost
    · obtain rfl := Post.taker.inj hpost
      rfl
    · cases hpost
    · cases hpost
  · refine outage_head? hr hphase hx hu ?_
    rw [hrun]
    exact nofun

/-- A request for which no caller waits fails because of the service, and the run ends in an outage.
With a free slot in the queue at that moment the request is put before all others for which no caller
waits, stays there as long as the outage lasts, whatever happens, and is what the next run begins
with. Without one it is lost, even if the slots are taken by callers that are told of the outage. -/
theorem outage_replays (settings : EngineSettings) (service : Service)
    (observer : Option Observer) (script : Script) (ms : List Move) (id : TaskId) (root : Permit)
    (x : Entry) (f : RequestError)
    (hready : ((start settings service observer script).follow ms).ready? id =
      some (.conclude (.entry root x) (.error f)))
    (hin : ((start settings service observer script).follow ms).allows root = true)
    (hf : f.isServer = true) (hcaller : x.caller = none) :
    let e := (start settings service observer script).follow ms
    let e' := e.act id
    ∃ outage, e'.phase = .outage outage ∧ e'.queue.entries =
        (if e.queue.size < e.queue.capacity then [x.again] else [])
          ++ e.queue.entries.filter (·.caller.isNone) ∧
      (e.queue.size < e.queue.capacity → ∀ ms', (e'.follow ms').phase = .outage outage →
        (e'.follow ms').queue.entries.head? = some x.again ∧
        ∀ m run, ((e'.follow ms').move m).phase = .active run →
          ∀ ms'', (((e'.follow ms').move m).follow ms'').BeginsWith run.root x.again) := by
  intro e e'
  have hr : e.roster.Orderly := follow_orderly settings service observer script ms
  have hm : e.roster.Manned := follow_manned settings service observer script ms
  have hact : e' = e.concludeEntry id root x (.error f) := act_of_ready hready
  have hw : e.post? id = some (.taker root) := post?_of_ready? hready
  obtain ⟨hphase, hqueue⟩ := concludeEntry_outage hr hw hin hf hcaller
  rw [← hact] at hphase hqueue
  refine ⟨e.nextPermit, hphase, hqueue, fun hroom ms' hlasts => ?_⟩
  have hevolves : Roster.Evolves e.roster e'.roster := act_evolves hr id
  have hr' : e'.roster.Orderly := hevolves.orderly hr
  have hx : e'.queue.entries.head? = some x.again := by
    rw [hqueue, if_pos hroom]
    rfl
  have hx' := outage_head?_follow hr' hphase hx x.again_urgent ms' hlasts
  refine ⟨hx', fun m run hrun ms'' => ?_⟩
  -- the next run has a permit of its own, under which nothing was exchanged so far
  have hr₁ : (e'.follow ms').roster.Orderly := (follow_evolves hr' ms').orderly hr'
  have hnone : ∀ root, (e'.follow ms').nextPermit ≤ root → (e'.follow ms').begun root = [] := by
    intro root hroot
    have hstart : ∀ root, (start settings service observer script).nextPermit ≤ root →
        (start settings service observer script).begun root = [] := fun _ _ => rfl
    have hsplit : e'.follow ms' = (start settings service observer script).follow
        (ms ++ .act id :: ms') := by
      rw [follow_append]
      rfl
    rw [hsplit] at hroot ⊢
    exact begun_of_unissued (start_orderly settings service observer script) hstart _ hroot
  have hawaits := awaits_of_resumed hr₁ hlasts hx' x.again_urgent hnone hrun
  have hr₂ := (move_evolves hr₁ m).orderly hr₁
  rcases hawaits.follow x.again_urgent hr₂ ms'' with hbegun | hawaits'
  · exact .inl hbegun
  · refine .inr ⟨hawaits'.begun, hawaits'.begins ?_⟩
    have hm' := (hevolves.trans (follow_evolves hr' ms')).manned hr hm
    exact (follow_evolves hr₂ ms'').manned hr₂ ((move_evolves hr₁ m).manned hr₁ hm')

/-- The first request of a run fails with the default settings, and is the first one afterwards. -/
theorem outage_replays_default :
    let script : Script := ⟨[some ⟨5, .ok ⟨503, ""⟩⟩], [], [.ok "token"], 0, 0⟩
    let e := (start .default ⟨"http://localhost", 1000⟩ none script).follow
      [.obey (.requestSystem ⟨1⟩), .obey (.addListener ⟨1⟩ .silent), .act 0, .act 0, .act 0,
        .elapse 5, .act 0]
    let x : Entry := ⟨.getSystem ⟨1⟩, none, .head, false, 0⟩
    let e' := e.act 0
    ∃ outage, e'.phase = .outage outage ∧ e'.queue.entries =
        (if e.queue.size < e.queue.capacity then [x.again] else [])
          ++ e.queue.entries.filter (·.caller.isNone) ∧
      (e.queue.size < e.queue.capacity → ∀ ms', (e'.follow ms').phase = .outage outage →
        (e'.follow ms').queue.entries.head? = some x.again ∧
        ∀ m run, ((e'.follow ms').move m).phase = .active run →
          ∀ ms'', (((e'.follow ms').move m).follow ms'').BeginsWith run.root x.again) :=
  outage_replays .default ⟨"http://localhost", 1000⟩ none
    ⟨[some ⟨5, .ok ⟨503, ""⟩⟩], [], [.ok "token"], 0, 0⟩
    [.obey (.requestSystem ⟨1⟩), .obey (.addListener ⟨1⟩ .silent), .act 0, .act 0, .act 0,
      .elapse 5, .act 0] 0 0 ⟨.getSystem ⟨1⟩, none, .head, false, 0⟩ (.server 503) rfl rfl rfl rfl

/-- A caller takes the only slot of the queue while the request is on the wire. The caller is told of
the outage, and the request is lost. -/
example :
    let script : Script := ⟨[some ⟨5, .ok ⟨503, ""⟩⟩], [], [.ok "token"], 0, 0⟩
    let e := (start { EngineSettings.default with queueCapacity := 1 } ⟨"http://localhost", 1000⟩
      none script).follow
      [.obey (.requestSystem ⟨1⟩), .obey (.addListener ⟨1⟩ .silent), .act 0, .act 0, .act 0,
        .obey (.lookup .systems), .act 5, .act 5, .act 5, .elapse 5, .act 0]
    (e.act 0).phase = .outage 3 ∧ (e.act 0).queue.entries = [] := ⟨rfl, rfl⟩

end Engine

end HeatWatch
