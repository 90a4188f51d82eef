import HeatWatch.Proofs.Engine.Callers
import HeatWatch.Proofs.Engine.Latecomers
import HeatWatch.Proofs.Engine.Shifts
import HeatWatch.Proofs.Engine.Wire

/-!
# Requests of runs that are over

A run that ends does not cut its exchange short, so the line may hold requests of several runs that
are over. The run that goes on takes its requests with one task, which joins the line behind all of
them. When it fails, the requests of earlier runs have left the line before. What is left there then,
or is sent in the outage, belongs to a task that strays: it was stopped on its way to the line, and
joined behind the request that failed. Main statements:

* `Trailing.move`: each move keeps the order of the runs in the line, but for those that stray;
* `Trailing.sent_in_outage`: in an outage no other request from the queue is sent;
* `Trailing.follow`: this order holds in every run.
-/

namespace HeatWatch

/-- A task that stands in the line with an entry that it took in a run. -/
structure Load where
  task : TaskId
  run : Permit
  entry : Entry

/-- The entry that an exchange is made for, and who took it. -/
def Place.load? (c : Place) : Option Load :=
  match c.purpose with
  | .entry run x => some ⟨c.task, run, x⟩
  | .probe .. | .lookup _ => none

/-- The entries in a line, in order. -/
def Place.loads (ps : List Place) : List Load := ps.filterMap Place.load?

/-- A step puts an entry at the end of the line, when its task joins, and no other one in. -/
theorem WireStep.loads {ps ps' : List Place} {hs : List Happening} (h : WireStep ps hs ps') :
    (∃ id run x, hs = [.joined id (.entry run x)] ∧
      Place.loads ps' = Place.loads ps ++ [⟨id, run, x⟩]) ∨
      (Place.loads ps').Sublist (Place.loads ps) := by
  -- the stage of an exchange does not count
  have hstage : ∀ {id : TaskId} {p : Purpose} {s s' : Stage} {ps : List Place},
      Place.loads (⟨id, p, s⟩ :: ps) = Place.loads (⟨id, p, s'⟩ :: ps) := by
    intro id p s s' ps
    cases p <;> rfl
  cases h with
  | quiet => exact .inr (List.Sublist.refl _)
  | @joins _ id p =>
    have hloads : Place.loads (ps ++ [⟨id, p, .send false⟩]) =
        Place.loads ps ++ (Place.load? ⟨id, p, .send false⟩).toList := by
      unfold Place.loads
      rw [List.filterMap_append]
      cases p <;> rfl
    rw [hloads]
    cases p with
    | entry run x => exact .inl ⟨id, run, x, rfl, rfl⟩
    | probe | lookup =>
      right
      show (Place.loads ps ++ []).Sublist _
      rw [List.append_nil]
  | sends | rejects =>
    right
    rw [hstage]
  | fails | ends => exact .inr ((List.sublist_cons_self _ _).filterMap _)

namespace Engine

variable {e s : Engine} {id : TaskId} {m : Move} {p run : Permit} {x : Entry} {t : Load}
  {stray : Load → Prop}

/-- The entries that stand in the line, in order. -/
def loads (e : Engine) : List Load := Place.loads e.places

/-- A request of the run that goes on stands in the line, or its result is about to be used. -/
def Engaged (e : Engine) : Prop := ∃ run ∈ e.permits,
  (∃ t ∈ e.loads, t.run = run) ∨ ∃ id x r, e.duty? id = some (.conclude (.entry run x) r)

/-- The task may join the line now, in an outage or behind the request of the run that goes on, with
an entry that it took in a run that is over. -/
structure Strays (e : Engine) (t : Load) : Prop where
  late : e.JoinsLate t.task t.run t.entry
  behind : e.phase.isOutage = true ∨ e.Engaged

theorem mem_loads (h : t ∈ e.loads) :
    t.task ∈ e.line ∧ ∃ s, e.duty? t.task = some (.exchange (.entry t.run t.entry) s) := by
  obtain ⟨place, hplace, hload⟩ := List.mem_filterMap.1 h
  obtain ⟨id, hid, hbind⟩ := List.mem_filterMap.1 hplace
  obtain ⟨d, hd, hplaced⟩ := Option.bind_eq_some_iff.1 hbind
  unfold Duty.place? at hplaced
  split at hplaced
  case h_1 | h_3 => cases hplaced
  case h_2 q s _ =>
    cases hplaced
    cases q with
    | probe | lookup => cases hload
    | entry run x =>
      cases hload
      exact ⟨hid, s, hd⟩

/-- A move puts an entry at the end of the line when its task joins, and no other one in. -/
theorem loads_move (hl : e.Lined) (hk : e.Known) (m : Move) :
    (∃ id run x, m = .act id ∧ e.ready? id = some (.exchange (.entry run x) .join) ∧
      (e.move m).loads = e.loads ++ [⟨id, run, x⟩]) ∨ (e.move m).loads.Sublist e.loads := by
  rcases (wire_move hl hk m).loads with ⟨id, run, x, hrecords, hloads⟩ | hsub
  · left
    have hmem : .joined id (.entry run x) ∈ (e.records m).filter Happening.isExchange := by
      rw [hrecords]
      exact List.mem_singleton_self _
    obtain ⟨id', d, rfl, hready, hnotes⟩ := notes_of_move (List.mem_filter.1 hmem).1
    cases hnotes with
    | joined => exact ⟨id, run, x, rfl, hready, hloads⟩
  · exact .inr hsub

/-- The line holds nothing but strays when it did before, and when who joins it is one. -/
theorem strays_move (hl : e.Lined) (hk : e.Known) (hall : ∀ t ∈ e.loads, stray t)
    (hjoin : ∀ id run x, m = .act id → e.ready? id = some (.exchange (.entry run x) .join) →
      stray ⟨id, run, x⟩) : ∀ t ∈ (e.move m).loads, stray t := by
  intro t ht
  rcases loads_move hl hk m with ⟨id, run, x, hm, hready, hloads⟩ | hsub
  · rw [hloads] at ht
    rcases List.mem_append.1 ht with hold | hnew
    · exact hall t hold
    · cases List.mem_singleton.1 hnew
      exact hjoin id run x hm hready
  · exact hall t (hsub.mem ht)

/-- The requests of runs that are over stand in the line before those of the run that goes on, but for
strays. -/
structure Trailing (stray : Load → Prop) (e : Engine) : Prop where
  lined : e.Lined
  /-- A run is over whose request has another one behind it in the line that is no stray. -/
  last : e.loads.Pairwise fun t u => t.run ∉ e.permits ∨ stray u
  /-- When a request of the run that goes on is over, only strays are left in the line. -/
  concluding : ∀ {id run x r}, e.duty? id = some (.conclude (.entry run x) r) → run ∈ e.permits →
    ∀ t ∈ e.loads, stray t
  outage : e.phase.isOutage = true → ∀ t ∈ e.loads, stray t

/-- What is withdrawn stays so. -/
theorem withdrawn_move (hr : e.roster.Orderly) {w : Post} (hw : e.post? id = some w)
    (hp : w.permit? = some p) (hout : p ∉ e.permits) (m : Move) : p ∉ (e.move m).permits :=
  (move_evolves hr m).later.withdrawn (hr.sworn hw hp) hout

theorem withdrawn_of_load (hr : e.roster.Orderly) (ht : t ∈ e.loads) (hout : t.run ∉ e.permits)
    (m : Move) : t.run ∉ (e.move m).permits := by
  obtain ⟨-, s, hd⟩ := mem_loads ht
  exact withdrawn_move hr (post?_of_duty? hd) rfl hout m

/-- The task that joins the line for the run that goes on has no other request there, so the ones in
line are those of runs that are over. -/
theorem Trailing.over_of_join (h : e.Trailing stray) (hr : e.roster.Orderly)
    (hready : e.ready? id = some (.exchange (.entry run x) .join)) (hin : run ∈ e.permits)
    (ht : t ∈ e.loads) : t.run ∉ e.permits := by
  intro hin'
  obtain ⟨hmem, s, hd⟩ := mem_loads ht
  obtain rfl : t.task = id :=
    taker_unique hr (post?_of_duty? hd) hin' (post?_of_ready? hready) hin
  exact h.lined.not_mem (duty?_of_ready? hready) rfl hmem

theorem Trailing.last_move (h : e.Trailing stray) (hr : e.roster.Orderly)
    (hstray : ∀ t, m = .act t.task → e.Strays t → stray t) :
    (e.move m).loads.Pairwise fun t u => t.run ∉ (e.move m).permits ∨ stray u := by
  have hold : e.loads.Pairwise fun t u => t.run ∉ (e.move m).permits ∨ stray u :=
    h.last.imp_of_mem fun ht _ hnot => hnot.imp_left fun hout => withdrawn_of_load hr ht hout m
  rcases loads_move h.lined (known_of_orderly hr) m with ⟨id, run, x, hm, hready, hloads⟩ | hsub
  · rw [hloads]
    refine List.pairwise_append.2 ⟨hold, List.pairwise_singleton _ _, fun t ht u hu => ?_⟩
    cases List.mem_singleton.1 hu
    by_cases hout : t.run ∈ e.permits
    · -- it joins behind the request of the run that goes on
      right
      refine hstray ⟨id, run, x⟩ hm ⟨⟨hready, fun hin => ?_⟩, .inr ⟨t.run, hout, .inl ⟨t, ht, rfl⟩⟩⟩
      exact h.over_of_join hr hready hin ht hout
    · exact .inl (withdrawn_of_load hr ht hout m)
  · exact hold.sublist hsub

/-- Once a task has the result of a request of the run that goes on, only strays are in the line: those
before it have left, and no other task joins for this run. -/
theorem Trailing.concluding_move (h : e.Trailing stray) (hr : e.roster.Orderly)
    (hstray : ∀ t, m = .act t.task → e.Strays t → stray t) {r : Except RequestError String}
    (hd' : (e.move m).duty? id = some (.conclude (.entry run x) r))
    (hrun' : run ∈ (e.move m).permits) : ∀ t ∈ (e.move m).loads, stray t := by
  have hk : e.Known := known_of_orderly hr
  have hforce : ∀ {d}, e.duty? id = some d → d.post = .taker run → run ∈ e.permits := by
    intro d hd hpost
    refine Decidable.not_not.1 fun hout => ?_
    exact withdrawn_move hr (hpost ▸ post?_of_duty? hd) rfl hout m hrun'
  rcases move_duty_cases hk hd' with ⟨d, rfl, hready, hnext⟩ | ⟨d, hd, hpass⟩ | hbegins
  · -- it leaves the line now, as the first one
    rcases result_of_next hnext with ⟨s, rfl, hres⟩ | ⟨l, -, heq, -⟩
    · have hrun : run ∈ e.permits := hforce (duty?_of_ready? hready) rfl
      have hplaces := h.lined.places_of_leaves hk hready hres
      have hloads : e.loads = ⟨id, run, x⟩ :: (e.move (.act id)).loads := by
        unfold loads
        rw [hplaces]
        rfl
      have hlast := h.last
      rw [hloads] at hlast
      exact fun t ht => (List.rel_of_pairwise_cons hlast ht).resolve_left (not_not_intro hrun)
    · cases heq
  · -- it has left the line before
    cases hpass with
    | refl =>
      have hrun : run ∈ e.permits := hforce hd rfl
      refine strays_move h.lined hk (h.concluding hd hrun) fun id' run' y hm hready => ?_
      refine hstray ⟨id', run', y⟩ hm ⟨⟨hready, fun hin => ?_⟩, .inr ⟨run, hrun, .inr ⟨id, x, r, hd⟩⟩⟩
      obtain rfl : id = id' := taker_unique hr (post?_of_duty? hd) hrun (post?_of_ready? hready) hin
      cases hd.symm.trans (duty?_of_ready? hready)
  · rcases hbegins.cases with ⟨l, -, heq⟩ | ⟨run, heq⟩ | ⟨permit, poll, delay, period, heq⟩ |
      ⟨outage, heq⟩ <;> cases heq

/-- A run that ends in an outage leaves only strays in the line, and no others join in the outage. -/
theorem Trailing.outage_move (h : e.Trailing stray) (hr : e.roster.Orderly)
    (hstray : ∀ t, m = .act t.task → e.Strays t → stray t)
    (houtage : (e.move m).phase.isOutage = true) : ∀ t ∈ (e.move m).loads, stray t := by
  have hk : e.Known := known_of_orderly hr
  have hshift := shift hr m
  generalize (e.move m).phase = phase at houtage hshift
  generalize (e.records m).filter Happening.isSignal = hs at hshift
  cases hshift with
  | lasts hlasts =>
    have hbefore : e.phase.isOutage = true := hlasts.isOutage_eq.symm.trans houtage
    refine strays_move h.lined hk (h.outage hbefore) fun id run x hm hready => ?_
    refine hstray ⟨id, run, x⟩ hm ⟨⟨hready, fun hin => ?_⟩, .inl hbefore⟩
    -- who joins for a run that goes on joins during that run
    obtain ⟨run', hphase, -⟩ := hr.taker (post?_of_ready? hready) hin
    obtain ⟨probe, hphase'⟩ := Phase.isOutage_iff.1 hbefore
    cases hphase'.symm.trans hphase
  | @fails id run x f hphase hready hf =>
    have hall : ∀ t ∈ e.loads, stray t :=
      h.concluding (duty?_of_ready? hready) (root_of_active hr hphase)
    refine strays_move h.lined hk hall fun id' run' y hm hready' => ?_
    cases hm
    cases hready.symm.trans hready'
  | starts | stops | resumes => cases houtage

/-- The order of the runs in the line is kept by each move, when it is known who strays by it. -/
theorem Trailing.move (h : e.Trailing stray) (hr : e.roster.Orderly)
    (hstray : ∀ t, m = .act t.task → e.Strays t → stray t) : (e.move m).Trailing stray where
  lined := h.lined.move (known_of_orderly hr) m
  last := h.last_move hr hstray
  concluding hd hrun := h.concluding_move hr hstray hd hrun
  outage houtage := h.outage_move hr hstray houtage

/-- The order of the runs in the line is kept in every run, when it is known who strays in it. -/
theorem Trailing.follow (h : e.Trailing stray) (hr : e.roster.Orderly) {ms : List Move}
    (hstray : ∀ before t rest, ms = before ++ .act t.task :: rest → (e.follow before).Strays t →
      stray t) : (e.follow ms).Trailing stray := by
  induction ms generalizing e with
  | nil => exact h
  | cons m ms ih =>
    refine ih (h.move hr fun t hm hstrays => ?_) ((move_evolves hr m).orderly hr)
      fun before t rest hms hstrays => ?_
    · subst hm
      exact hstray [] t ms rfl hstrays
    · subst hms
      exact hstray (m :: before) t rest rfl hstrays

end Engine

end HeatWatch
