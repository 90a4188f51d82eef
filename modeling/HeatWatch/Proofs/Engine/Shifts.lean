import HeatWatch.Proofs.Engine.Chronicle
import HeatWatch.Proofs.Engine.Outage

/-!
# How the phase changes

A move leaves the phase as it is or changes it in one of four ways: the first listener starts a run,
a stop ends everything, a failure of the service ends the run in an outage, and a probe that gets
through starts the next run. The observer hears of the last two only. Main statements:

* `shift`: the phase after a move and what the observer is told by it;
* `Shift.of_outage`: how an outage can go on;
* `outage_over`: an outage that is over ended by one of the moves since.
-/

namespace HeatWatch

/-- The observer is told of it. -/
def Happening.isSignal : Happening → Bool
  | .outage _ | .recovered => true
  | _ => false

/-- The phase lasts; a run may get new permits for its polls. -/
def Phase.Lasts : Phase → Phase → Prop
  | .dormant, .dormant => True
  | .active run, .active run' => run'.root = run.root
  | .outage probe, .outage probe' => probe' = probe
  | _, _ => False

@[simp] theorem Phase.Lasts.refl (phase : Phase) : phase.Lasts phase := by
  cases phase with
  | dormant => exact True.intro
  | active | outage => rfl

theorem Phase.Lasts.isOutage_eq {phase phase' : Phase} (h : phase.Lasts phase') :
    phase'.isOutage = phase.isOutage := by
  cases phase <;> cases phase' <;> first | rfl | cases h

theorem Phase.isOutage_iff {phase : Phase} :
    phase.isOutage = true ↔ ∃ probe, phase = .outage probe := by
  cases phase with
  | dormant | active => exact ⟨nofun, nofun⟩
  | outage probe => exact ⟨fun _ => ⟨probe, rfl⟩, fun _ => rfl⟩

/-- Tells of a listener to come. -/
def Move.listens : Move → Bool
  | .obey (.addListener _ _) => true
  | _ => false

theorem Move.listens_iff {m : Move} : m.listens = true ↔ ∃ s l, m = .obey (.addListener s l) := by
  constructor
  · intro h
    unfold listens at h
    split at h
    case h_1 s l => exact ⟨s, l, rfl⟩
    case h_2 => cases h
  · rintro ⟨s, l, rfl⟩
    rfl

namespace Engine

/-- The phase after a move and what the observer is told by it. -/
inductive Shift (e : Engine) : Move → Phase → List Happening → Prop
  | lasts {m : Move} {phase : Phase} (hphase : e.phase.Lasts phase)
      (hstop : m.stops e.table = false) (hstart : e.phase = .dormant → m.listens = false) :
      Shift e m phase []
  | starts {m : Move} (hphase : e.phase = .dormant) (hstart : m.listens = true) :
      Shift e m (.active e.roster.nextRun) []
  | stops {m : Move} (hstop : m.stops e.table = true) : Shift e m .dormant []
  | fails {id : TaskId} {run : Run} {x : Entry} {f : RequestError} (hphase : e.phase = .active run)
      (hready : e.ready? id = some (.conclude (.entry run.root x) (.error f)))
      (hf : f.isServer = true) :
      Shift e (.act id) (.outage e.nextPermit) (e.observer.map fun _ => .outage f).toList
  | resumes {id : TaskId} {probe : Permit} {next : Nat} {r : Except RequestError String}
      (hphase : e.phase = .outage probe)
      (hready : e.ready? id = some (.conclude (.probe probe next) r)) (hr : stillFails r = false) :
      Shift e (.act id) (.active e.roster.nextRun) (e.observer.map fun _ => .recovered).toList

variable {e : Engine} {id : TaskId} {d : Duty} {m : Move}

/-! ## What the observer is told -/

/-- The observer is told only when a request or a probe is over. -/
theorem signal_of_mem {h : Happening} (hmem : h ∈ d.records e id) (hs : h.isSignal = true) :
    (∃ run x f, d = .conclude (.entry run x) (.error f)) ∨
      ∃ probe next r, d = .conclude (.probe probe next) r := by
  have hnotes := notes_of_mem_records hmem
  cases hnotes with
  | outage => exact .inl ⟨_, _, _, rfl⟩
  | recovered => exact .inr ⟨_, _, _, rfl⟩
  | polled | cached | joined | sent | received | exchanged | callback | answered => cases hs

theorem signals_eq_nil (hentry : ∀ run x f, d ≠ .conclude (.entry run x) (.error f))
    (hprobe : ∀ probe next r, d ≠ .conclude (.probe probe next) r) :
    (d.records e id).filter Happening.isSignal = [] := by
  refine List.filter_eq_nil_iff.2 fun h hmem hs => ?_
  rcases signal_of_mem hmem hs with ⟨run, x, f, hd⟩ | ⟨probe, next, r, hd⟩
  · exact hentry run x f hd
  · exact hprobe probe next r hd

/-- What is told to the observer alone is a signal. -/
theorem filter_observed {o : Option Observer} {h : Happening} (hs : h.isSignal = true) :
    (o.map fun _ => h).toList.filter Happening.isSignal = (o.map fun _ => h).toList := by
  cases o with
  | none => rfl
  | some o =>
    show [h].filter Happening.isSignal = [h]
    rw [List.filter_cons_of_pos hs]
    rfl

/-! ## Tasks -/

@[simp] theorem Roster.startRun_phase (r : Roster) (gone : List Permit) :
    (r.startRun gone).phase = .active r.nextRun := by
  unfold Roster.startRun Roster.reform
  rw [Roster.hireAll_phase]

/-- The run ends in an outage whether or not a caller waited for the request that failed. -/
theorem concludeEntry_fails {run : Run} (hphase : e.phase = .active run)
    (hin : run.root ∈ e.permits) (x : Entry) {f : RequestError} (hf : f.isServer = true) :
    (e.concludeEntry id run.root x (.error f)).phase = .outage e.nextPermit := by
  have hout : ∀ e' : Engine, e'.roster = e.roster →
      ((e'.enterOutage run.root x f).finish id).phase = .outage e.nextPermit := by
    intro e' hroster
    have hphase' : e'.phase = .active run := (phase_of_roster hroster).trans hphase
    have hin' : run.root ∈ e'.permits := permits_of_roster hroster ▸ hin
    have hnext : e'.nextPermit = e.nextPermit := congrArg Roster.nextPermit hroster
    rw [← hnext]
    exact congrArg Roster.phase (enterOutage_roster hphase' hin' x f)
  unfold concludeEntry
  cases x.caller with
  | none =>
    dsimp only
    rw [if_pos hf]
    exact hout e rfl
  | some caller =>
    dsimp only
    rw [if_pos hf]
    exact hout _ (e.reply_roster caller _)

/-- A probe that gets through starts a run. -/
theorem concludeProbe_resumes {probe : Permit} (hphase : e.phase = .outage probe)
    (hin : probe ∈ e.permits) (next : Nat) {r : Except RequestError String}
    (hr : stillFails r = false) :
    (e.concludeProbe id probe next r).phase = .active e.roster.nextRun := by
  have hmerge := mergeListing_roster e r
  have hphase' : (e.mergeListing r).phase = .outage probe := (phase_of_roster hmerge).trans hphase
  have hin' : probe ∈ (e.mergeListing r).permits := permits_of_roster hmerge ▸ hin
  unfold concludeProbe
  rw [if_neg (by simp [hr])]
  show ((e.mergeListing r).resume probe).roster.phase = _
  rw [resume_roster hphase' hin', Roster.startRun_phase, hmerge]

/-- A task that goes on changes no phase. -/
theorem Shift.act_lasts {phase : Phase} (h : phase = e.phase) : e.Shift (.act id) phase [] := by
  rw [h]
  exact .lasts (.refl _) rfl fun _ => rfl

theorem concludeEntry_shift (hr : e.roster.Orderly) {root : Permit} {x : Entry} {f : RequestError}
    (hready : e.ready? id = some (.conclude (.entry root x) (.error f))) :
    e.Shift (.act id) (e.concludeEntry id root x (.error f)).phase
      (((Duty.conclude (.entry root x) (.error f)).records e id).filter Happening.isSignal) := by
  have hw : e.post? id = some (.taker root) := post?_of_ready? hready
  have hrecords : (Duty.conclude (.entry root x) (.error f)).records e id =
      if f.isServer ∧ e.phase.isActive ∧ e.allows root then
        (e.observer.map fun _ => .outage f).toList else [] := rfl
  rw [hrecords]
  by_cases hends : f.isServer = true ∧ root ∈ e.permits
  · obtain ⟨hf, hin⟩ := hends
    obtain ⟨run, hphase, rfl⟩ := hr.taker hw hin
    have hphase : e.phase = .active run := hphase
    rw [if_pos ⟨hf, Phase.isActive_iff.2 ⟨run, hphase⟩, allows_iff.2 hin⟩, filter_observed rfl,
      concludeEntry_fails hphase hin x hf]
    exact .fails hphase hready hf
  · rw [if_neg fun h => hends ⟨h.1, allows_iff.1 h.2.2⟩]
    refine .act_lasts (concludeEntry_phase fun f' heq hf hin => hends ⟨?_, hin⟩)
    cases heq
    exact hf

theorem concludeProbe_shift (hr : e.roster.Orderly) {probe : Permit} {next : Nat}
    {r : Except RequestError String}
    (hready : e.ready? id = some (.conclude (.probe probe next) r)) :
    e.Shift (.act id) (e.concludeProbe id probe next r).phase
      (((Duty.conclude (.probe probe next) r).records e id).filter Happening.isSignal) := by
  have hw : e.post? id = some (.prober probe) := post?_of_ready? hready
  have hrecords : (Duty.conclude (.probe probe next) r).records e id =
      if ¬ stillFails r ∧ e.phase.isOutage ∧ e.allows probe then
        (e.observer.map fun _ => .recovered).toList else [] := by
    cases r <;> rfl
  rw [hrecords]
  cases hfails : stillFails r with
  | true =>
    rw [if_neg fun h => h.1 rfl]
    refine .act_lasts ?_
    unfold concludeProbe
    rw [if_pos hfails]
    exact e.proceed_phase id _
  | false =>
    by_cases hin : probe ∈ e.permits
    · have hphase : e.phase = .outage probe := hr.prober hw hin
      rw [if_pos ⟨Bool.false_ne_true, Phase.isOutage_iff.2 ⟨probe, hphase⟩, allows_iff.2 hin⟩,
        filter_observed rfl, concludeProbe_resumes hphase hin next hfails]
      exact .resumes hphase hready hfails
    · rw [if_neg fun h => hin (allows_iff.1 h.2.2)]
      exact .act_lasts (concludeProbe_phase hin next r)

/-- Anywhere else neither the phase changes nor is the observer told anything. -/
theorem perform_lasts (hready : e.ready? id = some d)
    (hentry : ∀ run x f, d ≠ .conclude (.entry run x) (.error f))
    (hprobe : ∀ probe next r, d ≠ .conclude (.probe probe next) r) :
    e.Shift (.act id) (e.perform id d).phase ((d.records e id).filter Happening.isSignal) := by
  rw [signals_eq_nil hentry hprobe]
  refine .act_lasts (perform_phase (post?_of_ready? hready) (fun run x f hd => ?_) ?_)
  · exact absurd hd (hentry run x f)
  · intro probe next r hd
    exact absurd hd (hprobe probe next r)

theorem perform_shift (hr : e.roster.Orderly) (hready : e.ready? id = some d) :
    e.Shift (.act id) (e.perform id d).phase ((d.records e id).filter Happening.isSignal) := by
  by_cases hentry : ∃ run x f, d = .conclude (.entry run x) (.error f)
  · obtain ⟨run, x, f, rfl⟩ := hentry
    exact concludeEntry_shift hr hready
  by_cases hprobe : ∃ probe next r, d = .conclude (.probe probe next) r
  · obtain ⟨probe, next, r, rfl⟩ := hprobe
    exact concludeProbe_shift hr hready
  refine perform_lasts hready (fun run x f hd => ?_) fun probe next r hd => ?_
  · exact hentry ⟨run, x, f, hd⟩
  · exact hprobe ⟨probe, next, r, hd⟩

/-! ## Calls of the host -/

theorem addListener_starts (hphase : e.phase = .dormant) (s : SystemId) (l : Listener) :
    (e.addListener s l).phase = .active e.roster.nextRun := by
  unfold addListener
  dsimp only
  split
  case h_1 =>
    show (startRun _).roster.phase = _
    rw [startRun_roster, Roster.startRun_phase]
    rfl
  case h_2 h => exact absurd hphase h

/-- Outside a run a call of the host leaves the phase alone, unless it starts a run or ends
everything. -/
theorem obey_phase_at_rest {c : Command} (hrest : e.phase.isActive = false)
    (hstop : c.stops e.table = false) (hstart : e.phase = .dormant → (Move.obey c).listens = false) :
    (e.obey c).2.phase = e.phase := by
  have hnone : ∀ run, e.phase ≠ .active run := by
    intro run hphase
    rw [hphase] at hrest
    cases hrest
  cases c with
  | addListener s l =>
    show (e.addListener s l).phase = e.phase
    unfold addListener
    dsimp only
    split
    case h_1 h => cases hstart h
    case h_2 => rfl
  | removeListener s l => exact removeListener_phase hstop
  | setUpdateInterval seconds =>
    show (e.setUpdateInterval _).phase = e.phase
    unfold setUpdateInterval
    dsimp only
    split
    case h_1 run h => exact absurd h (hnone run)
    case h_2 => rfl
  | setSoftwareDays days =>
    show (e.setSoftwareDays days).phase = e.phase
    unfold setSoftwareDays
    dsimp only
    split
    case h_1 run h => exact absurd h (hnone run)
    case h_2 => rfl
  | shutdown => cases hstop
  | lookup | removeThermostat | removeTracked => rfl
  | addTracked s p => exact phase_of_roster (logAll_roster _ _)
  | requestParameters s ps => exact phase_of_roster (demandAll_roster _)
  | requestSystem | requestStatus | requestAlarm | requestSoftware | requestMode | setParameters
  | setMode | setThermostat => exact phase_of_roster (inserted_roster _ _)

theorem obey_shift (c : Command) : e.Shift (.obey c) (e.obey c).2.phase [] := by
  by_cases hstop : c.stops e.table = true
  · rw [obey_phase_of_stops hstop]
    exact .stops hstop
  have hstop : c.stops e.table = false := by simpa using hstop
  cases hphase : e.phase with
  | active run =>
    rw [obey_run hphase hstop]
    refine .lasts ?_ hstop fun h => ?_
    · rw [hphase]
      exact c.renews_root _ _
    · cases hphase.symm.trans h
  | dormant =>
    by_cases hstart : (Move.obey c).listens = true
    · obtain ⟨s, l, hc⟩ := Move.listens_iff.1 hstart
      cases hc
      show e.Shift _ (e.addListener s l).phase []
      rw [addListener_starts hphase]
      exact .starts hphase rfl
    · have hstart : (Move.obey c).listens = false := by simpa using hstart
      rw [obey_phase_at_rest (by rw [hphase]; rfl) hstop fun _ => hstart]
      exact .lasts (.refl _) hstop fun _ => hstart
  | outage probe =>
    have hstart : e.phase = .dormant → (Move.obey c).listens = false := fun h => by
      cases hphase.symm.trans h
    rw [obey_phase_at_rest (by rw [hphase]; rfl) hstop hstart]
    exact .lasts (.refl _) hstop hstart

/-! ## Moves -/

/-- What a move does to the phase, and what the observer is told by it. -/
theorem shift (hr : e.roster.Orderly) (m : Move) :
    e.Shift m (e.move m).phase ((e.records m).filter Happening.isSignal) := by
  cases m with
  | obey c => exact obey_shift c
  | elapse | pass | plan => exact .lasts (.refl _) rfl fun _ => rfl
  | act id =>
    cases hready : e.ready? id with
    | none =>
      rw [move_of_not_ready hready, records_of_not_ready hready]
      exact .lasts (.refl _) rfl fun _ => rfl
    | some d =>
      rw [move_of_ready hready, records_of_ready hready]
      exact perform_shift hr hready

/-- An outage lasts, is stopped, or ends with a probe that gets through. -/
theorem Shift.of_outage {phase : Phase} {hs : List Happening} (h : e.Shift m phase hs)
    {probe : Permit} (hphase : e.phase = .outage probe) :
    (phase = .outage probe ∧ m.stops e.table = false ∧ hs = []) ∨
      (m.stops e.table = true ∧ phase = .dormant ∧ hs = []) ∨
      ∃ id next r, m = .act id ∧ e.ready? id = some (.conclude (.probe probe next) r) ∧
        stillFails r = false ∧ phase = .active e.roster.nextRun ∧
        hs = (e.observer.map fun _ => .recovered).toList := by
  cases h with
  | lasts hlasts hstop =>
    left
    rw [hphase] at hlasts
    cases phase with
    | dormant | active => cases hlasts
    | outage probe' =>
      cases hlasts
      exact ⟨rfl, hstop, rfl⟩
  | stops hstop => exact .inr (.inl ⟨hstop, rfl, rfl⟩)
  | resumes hphase' hready hr =>
    cases hphase.symm.trans hphase'
    exact .inr (.inr ⟨_, _, _, rfl, hready, hr, rfl, rfl⟩)
  | starts hphase' | fails hphase' => cases hphase.symm.trans hphase'

/-- An outage that is over ended by one of the moves since. -/
theorem outage_over {probe : Permit} (hphase : e.phase = .outage probe) {ms : List Move}
    (hover : (e.follow ms).phase ≠ .outage probe) : ∃ before m after, ms = before ++ m :: after ∧
      (e.follow before).phase = .outage probe ∧
      ((e.follow before).move m).phase ≠ .outage probe := by
  induction ms generalizing e with
  | nil => exact absurd hphase hover
  | cons m ms ih =>
    by_cases hstill : (e.move m).phase = .outage probe
    · obtain ⟨before, m', after, rfl, hbefore, hends⟩ := ih hstill hover
      exact ⟨m :: before, m', after, rfl, hbefore, hends⟩
    · exact ⟨[], m, ms, rfl, hphase, hstill⟩

end Engine

end HeatWatch
