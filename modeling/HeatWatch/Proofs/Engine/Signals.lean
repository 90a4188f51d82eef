import HeatWatch.Proofs.Engine.Shifts
import Mathlib.Data.List.Induction

/-!
# What the observer believes

The observer is told of an outage when it begins and of its end when a probe gets through. A stop is
not told to it. So what it was told last agrees with the phase, unless the engine was stopped during
an outage: the observer then believes in the outage until it is told the next thing, even if a run
goes on meanwhile. Main statements:

* `leftInOutage_concat`: how the observer comes to be left in an outage, and out of it;
* `Reported.concat`: what each move keeps of what the observer was told;
* `observer_agrees`: what it was told last in each phase, and what lies between two outages;
* `observer_left_in_outage`: it is not always told of the end of an outage.
-/

namespace HeatWatch

namespace Engine

/-- What the observer was told, the earliest first. -/
def signals (e : Engine) : List Happening := e.happenings.filter Happening.isSignal

/-- What the observer was told last. -/
def lastSignal? (e : Engine) : Option Happening := e.signals.getLast?

/-- The engine was stopped during an outage, and the observer was told nothing since. -/
def LeftInOutage (s : Engine) (ms : List Move) : Prop :=
  ∃ before m after, ms = before ++ m :: after ∧ (s.follow before).phase.isOutage = true ∧
    m.stops (s.follow before).table = true ∧ (s.follow ms).signals = (s.follow before).signals

variable {e s : Engine} {m : Move} {ms : List Move}

/-! ## Signals -/

theorem move_signals (e : Engine) (m : Move) :
    (e.move m).signals = e.signals ++ (e.records m).filter Happening.isSignal := by
  unfold signals
  rw [move_happenings, List.filter_append]

theorem isSignal_of_lastSignal? {h : Happening} (hlast : e.lastSignal? = some h) :
    (∃ f, h = .outage f) ∨ h = .recovered := by
  have hmem : h ∈ e.signals := List.mem_of_getLast? hlast
  have hs : h.isSignal = true := (List.mem_filter.1 hmem).2
  cases h with
  | outage f => exact .inl ⟨f, rfl⟩
  | recovered => exact .inr rfl
  | log | polled | joined | sent | received | exchanged | callback | found => cases hs

/-- What the observer was told stays told. -/
theorem signals_prefix_follow (e : Engine) (ms : List Move) :
    e.signals <+: (e.follow ms).signals := by
  induction ms generalizing e with
  | nil => exact List.prefix_rfl
  | cons m ms ih =>
    have hmove : e.signals <+: (e.move m).signals := by
      rw [move_signals]
      exact List.prefix_append _ _
    exact hmove.trans (ih (e.move m))

theorem follow_observer (e : Engine) (ms : List Move) : (e.follow ms).observer = e.observer :=
  follow_induction (P := fun e' => e'.observer = e.observer)
    (fun e' m h => (move_observer e' m).trans h) rfl ms

/-- The observer is told nothing by a stop. -/
theorem signals_of_stops (h : m.stops e.table = true) :
    (e.records m).filter Happening.isSignal = [] := by
  cases m with
  | obey c => rfl
  | act | elapse | pass | plan => cases h

/-! ## Outages that are left -/

/-- The observer is left in an outage by a stop during an outage, and stays so while it is told
nothing. -/
theorem leftInOutage_concat : s.LeftInOutage (ms ++ [m]) ↔
    ((s.follow ms).phase.isOutage = true ∧ m.stops (s.follow ms).table = true) ∨
      (s.LeftInOutage ms ∧ ((s.follow ms).records m).filter Happening.isSignal = []) := by
  have hsignals : (s.follow (ms ++ [m])).signals =
      (s.follow ms).signals ++ ((s.follow ms).records m).filter Happening.isSignal := by
    rw [follow_append]
    exact move_signals _ m
  constructor
  · rintro ⟨before, n, after, hms, hout, hstop, hsame⟩
    rcases List.eq_nil_or_concat after with rfl | ⟨after, n', rfl⟩
    · obtain ⟨rfl, hn⟩ := List.append_inj' hms rfl
      cases hn
      exact .inl ⟨hout, hstop⟩
    · right
      rw [List.concat_eq_append, ← List.cons_append, ← List.append_assoc] at hms
      obtain ⟨rfl, hn⟩ := List.append_inj' hms rfl
      cases hn
      -- nothing was told in all, so nothing was told by the last move
      have hgrown := signals_prefix_follow (s.follow before) (n :: after)
      rw [← follow_append] at hgrown
      rw [hsame] at hsignals
      have hlen := congrArg List.length hsignals
      rw [List.length_append] at hlen
      have hle := hgrown.length_le
      have hnone : ((s.follow (before ++ n :: after)).records m).filter Happening.isSignal = [] :=
        List.length_eq_zero_iff.1 (by omega)
      rw [hnone, List.append_nil] at hsignals
      exact ⟨⟨before, n, after, rfl, hout, hstop, hsignals.symm⟩, hnone⟩
  · rintro (⟨hout, hstop⟩ | ⟨⟨before, n, after, rfl, hout, hstop, hsame⟩, hnone⟩)
    · refine ⟨ms, m, [], rfl, hout, hstop, ?_⟩
      rw [hsignals, signals_of_stops hstop, List.append_nil]
    · refine ⟨before, n, after ++ [m], ?_, hout, hstop, ?_⟩
      · rw [List.append_assoc, List.cons_append]
      · rw [hsignals, hnone, List.append_nil, hsame]

/-- What the observer was told last is an outage while one lasts, and otherwise exactly if it was
left in one. -/
structure Reported (s : Engine) (ms : List Move) : Prop where
  outage : (s.follow ms).phase.isOutage = true →
    ∃ f, (s.follow ms).lastSignal? = some (.outage f)
  rest : (s.follow ms).phase.isOutage = false →
    ((∃ f, (s.follow ms).lastSignal? = some (.outage f)) ↔ s.LeftInOutage ms)

/-- A move that neither begins nor ends an outage tells nothing. -/
theorem Reported.quiet (h : s.Reported ms)
    (hquiet : ((s.follow ms).records m).filter Happening.isSignal = [])
    (hsame : ((s.follow ms).move m).phase.isOutage = (s.follow ms).phase.isOutage) :
    s.Reported (ms ++ [m]) := by
  have hlast : (s.follow (ms ++ [m])).lastSignal? = (s.follow ms).lastSignal? := by
    unfold lastSignal?
    rw [follow_append]
    show ((s.follow ms).move m).signals.getLast? = _
    rw [move_signals, hquiet, List.append_nil]
  have hphase : (s.follow (ms ++ [m])).phase.isOutage = (s.follow ms).phase.isOutage := by
    rw [follow_append]
    exact hsame
  refine ⟨fun hout => ?_, fun hout => ?_⟩
  · rw [hphase] at hout
    rw [hlast]
    exact h.outage hout
  · rw [hphase] at hout
    rw [hlast, h.rest hout, leftInOutage_concat]
    constructor
    · intro hleft
      exact .inr ⟨hleft, hquiet⟩
    · rintro (⟨hout', -⟩ | ⟨hleft, -⟩)
      · cases hout.symm.trans hout'
      · exact hleft

/-- What each move keeps of what the observer was told. -/
theorem Reported.concat (h : s.Reported ms) (hr : (s.follow ms).roster.Orderly)
    (hobserver : (s.follow ms).observer.isSome = true) (m : Move) : s.Reported (ms ++ [m]) := by
  have hshift := shift hr m
  have hsignals : (s.follow (ms ++ [m])).signals =
      (s.follow ms).signals ++ ((s.follow ms).records m).filter Happening.isSignal := by
    rw [follow_append]
    exact move_signals _ m
  have hafter : (s.follow (ms ++ [m])).phase = ((s.follow ms).move m).phase := by
    rw [follow_append]
    rfl
  obtain ⟨o, ho⟩ := Option.isSome_iff_exists.1 hobserver
  generalize hphase' : ((s.follow ms).move m).phase = phase at hshift
  generalize hhs : ((s.follow ms).records m).filter Happening.isSignal = hs at hshift
  rw [hphase'] at hafter
  rw [hhs] at hsignals
  cases hshift with
  | lasts hlasts =>
    refine h.quiet hhs ?_
    rw [hphase']
    exact hlasts.isOutage_eq
  | starts hphase =>
    refine h.quiet hhs ?_
    rw [hphase', hphase]
    rfl
  | stops hstop =>
    cases hphase : (s.follow ms).phase.isOutage with
    | false =>
      refine h.quiet hhs ?_
      rw [hphase', hphase]
      rfl
    | true =>
      -- the observer is left in the outage
      refine ⟨fun hout => ?_, fun _ => ?_⟩
      · rw [hafter] at hout
        cases hout
      · have hlast : (s.follow (ms ++ [m])).lastSignal? = (s.follow ms).lastSignal? := by
          unfold lastSignal?
          rw [hsignals, List.append_nil]
        rw [hlast, leftInOutage_concat]
        exact ⟨fun _ => .inl ⟨hphase, hstop⟩, fun _ => h.outage hphase⟩
  | @fails id run x f hphase hready hf =>
    refine ⟨fun _ => ⟨f, ?_⟩, fun hout => ?_⟩
    · unfold lastSignal?
      rw [hsignals, ho]
      exact List.getLast?_concat
    · rw [hafter] at hout
      cases hout
  | @resumes id probe next r hphase hready hr =>
    refine ⟨fun hout => ?_, fun _ => ?_⟩
    · rw [hafter] at hout
      cases hout
    · have hlast : (s.follow (ms ++ [.act id])).lastSignal? = some .recovered := by
        unfold lastSignal?
        rw [hsignals, ho]
        exact List.getLast?_concat
      rw [hlast, leftInOutage_concat, hhs, ho]
      constructor
      · rintro ⟨f, hf⟩
        cases hf
      · rintro (⟨-, hstop⟩ | ⟨-, hnone⟩)
        · cases hstop
        · cases hnone

/-- So it is after every run. -/
theorem Reported.follow (hr : s.roster.Orderly) (hobserver : s.observer.isSome = true)
    (h : s.Reported []) (ms : List Move) : s.Reported ms := by
  induction ms using List.reverseRecOn with
  | nil => exact h
  | append_singleton ms m ih =>
    refine ih.concat ((follow_evolves hr ms).orderly hr) ?_ m
    rw [follow_observer]
    exact hobserver

/-! ## Two outages -/

/-- Between two outages the first one ended: it was stopped, or a probe got through and the observer
was told. -/
theorem ended_between (hr : e.roster.Orderly) (hobserver : e.observer.isSome = true) {m m' : Move}
    {between : List Move} {f f' : RequestError} (hf : .outage f ∈ e.records m)
    (hf' : .outage f' ∈ ((e.move m).follow between).records m') :
    ∃ first n later, between = first ++ n :: later ∧
      ((e.move m).follow first).phase.isOutage = true ∧
        (n.stops ((e.move m).follow first).table = true ∨
          .recovered ∈ ((e.move m).follow first).records n) := by
  -- the phase before and after an outage is told
  have htold : ∀ {x : Engine} {n : Move} {f : RequestError}, x.roster.Orderly →
      .outage f ∈ x.records n → x.phase.isOutage = false ∧ (x.move n).phase.isOutage = true := by
    intro x n f hx hmem
    have hshift := shift hx n
    have hin : .outage f ∈ (x.records n).filter Happening.isSignal :=
      List.mem_filter.2 ⟨hmem, rfl⟩
    generalize (x.records n).filter Happening.isSignal = hs at hshift hin
    generalize (x.move n).phase = phase at hshift ⊢
    cases hshift with
    | lasts | starts | stops => cases hin
    | fails hphase =>
      rw [hphase]
      exact ⟨rfl, rfl⟩
    | resumes =>
      obtain ⟨o, -, heq⟩ := Option.map_eq_some_iff.1 (Option.mem_toList.1 hin)
      cases heq
  have hr' : (e.move m).roster.Orderly := (move_evolves hr m).orderly hr
  obtain ⟨probe, hprobe⟩ := Phase.isOutage_iff.1 (htold hr hf).2
  have hover : ((e.move m).follow between).phase ≠ .outage probe := by
    intro hphase
    have hrest := (htold ((follow_evolves hr' between).orderly hr') hf').1
    rw [hphase] at hrest
    cases hrest
  obtain ⟨first, n, later, rfl, hlasts, hends⟩ := outage_over hprobe hover
  refine ⟨first, n, later, rfl, Phase.isOutage_iff.2 ⟨probe, hlasts⟩, ?_⟩
  have hr'' : ((e.move m).follow first).roster.Orderly := (follow_evolves hr' first).orderly hr'
  rcases (shift hr'' n).of_outage hlasts with ⟨hsame, -, -⟩ | ⟨hstop, -, -⟩ |
    ⟨id, next, r, -, -, -, -, hsignals⟩
  · exact absurd hsame hends
  · exact .inl hstop
  · right
    rw [follow_observer, move_observer] at hsignals
    obtain ⟨o, ho⟩ := Option.isSome_iff_exists.1 hobserver
    have hmem : .recovered ∈
        (((e.move m).follow first).records n).filter Happening.isSignal := by
      rw [hsignals, ho]
      exact List.mem_singleton_self _
    exact (List.mem_filter.1 hmem).1

/-- After every run the observer was last told of an outage while one lasts. While a run goes on it
was last told of the end of an outage, if it was told anything, unless the engine was stopped during
an outage and the observer was told nothing since. Between two outages that it is told of it is told
of the end of the first one, or the engine is stopped during the first one. -/
theorem observer_agrees (settings : EngineSettings) (service : Service) (observer : Observer)
    (script : Script) (ms : List Move) :
    let s := start settings service (some observer) script
    let e := s.follow ms
    (e.phase.isOutage = true → ∃ f, e.lastSignal? = some (.outage f)) ∧
      (e.phase.isActive = true →
        ((∀ h, e.lastSignal? = some h → h = .recovered) ↔ ¬ s.LeftInOutage ms)) ∧
      ∀ before m between m' f f', .outage f ∈ (s.follow before).records m →
        .outage f' ∈ (s.follow (before ++ m :: between)).records m' →
        ∃ first n later, between = first ++ n :: later ∧
          let x := s.follow (before ++ m :: first)
          x.phase.isOutage = true ∧ (n.stops x.table = true ∨ .recovered ∈ x.records n) := by
  intro s e
  have hs : s.roster.Orderly := start_orderly settings service (some observer) script
  have hnil : s.Reported [] := by
    refine ⟨nofun, fun _ => ⟨fun ⟨f, hf⟩ => ?_, fun ⟨before, m, after, hms, _⟩ => ?_⟩⟩
    · cases hf
    · cases before <;> cases hms
  have hreported : s.Reported ms := hnil.follow hs rfl ms
  refine ⟨hreported.outage, fun hactive => ?_, ?_⟩
  · have hrest : e.phase.isOutage = false := by
      obtain ⟨run, hrun⟩ := Phase.isActive_iff.1 hactive
      rw [hrun]
      rfl
    rw [← hreported.rest hrest]
    constructor
    · rintro hall ⟨f, hf⟩
      cases hall _ hf
    · intro hnot h hlast
      rcases isSignal_of_lastSignal? hlast with ⟨f, rfl⟩ | hrecovered
      · exact absurd ⟨f, hlast⟩ hnot
      · exact hrecovered
  · intro before m between m' f f' hf hf'
    have hr : (s.follow before).roster.Orderly := (follow_evolves hs before).orderly hs
    rw [follow_append, follow_cons] at hf'
    have hobserver : (s.follow before).observer.isSome = true := by
      rw [follow_observer]
      rfl
    obtain ⟨first, n, later, rfl, hends⟩ := ended_between hr hobserver hf hf'
    refine ⟨first, n, later, rfl, ?_⟩
    rw [follow_append, follow_cons]
    exact hends

/-- The observer is not always told of the end of an outage: a listener comes, the first request
fails, the engine is stopped, and another listener comes. A run goes on then, and the observer was
told of the outage last. -/
theorem observer_left_in_outage : ¬ ∀ (settings : EngineSettings) (service : Service)
    (observer : Observer) (script : Script) (ms : List Move),
    let e := (start settings service (some observer) script).follow ms
    (e.phase.isOutage = true → ∃ f, e.lastSignal? = some (.outage f)) ∧
      (e.phase.isActive = true → ∀ h, e.lastSignal? = some h → h = .recovered) := by
  intro hall
  have hboth := hall .default ⟨"http://localhost", 1000⟩ .recording
    ⟨[some ⟨0, .ok ⟨503, ""⟩⟩], [], [.ok "token"], 0, 0⟩
    [.obey (.requestSystem ⟨1⟩), .obey (.addListener ⟨1⟩ .silent), .act 0, .act 0, .act 0, .act 0,
      .act 0, .obey .shutdown, .obey (.addListener ⟨2⟩ .silent)]
  cases hboth.2 rfl (.outage (.server 503)) rfl

end Engine

end HeatWatch
