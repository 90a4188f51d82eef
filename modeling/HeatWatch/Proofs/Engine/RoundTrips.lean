import HeatWatch.Proofs.Engine.Callers
import Mathlib.Data.List.Induction

/-!
# Round trips

What is promised to callers over a whole run: how a caller chose its way, what it is told, that it is
told once, and that its entry serves no one else. Main statements:

* `routed_follow`: a caller that chose its way did so by the phase of that moment;
* `HeardOnce.follow`: a caller is told the result of its lookup once;
* `round_trips`: all promises, after every run from the start.
-/

namespace HeatWatch

/-- The lookup of a caller that has chosen its way, and whether it chose the queue. -/
def Duty.routed? : Duty → Option (Lookup × Bool)
  | .submit l | .await l => some (l, true)
  | .exchange (.lookup l) _ => some (l, false)
  | _ => none

/-- A caller is told the result of its lookup. -/
def Happening.finds (id : TaskId) : Happening → Bool
  | .found caller _ => caller == id
  | _ => false

namespace Engine

variable {e s : Engine} {id : TaskId} {d d' : Duty} {m : Move} {x y : Entry} {l : Lookup}
  {queued : Bool} {r : Except RequestError String}

/-! ## The choice of a caller -/

/-- A caller goes on in the way that it chose, or chooses one by the phase. -/
theorem routed_of_next (h : d.next e = some d') (hrouted : d'.routed? = some (l, queued)) :
    d.routed? = some (l, queued) ∨ (d = .route l ∧ e.phase.isActive = queued) := by
  cases d with
  | route l' =>
    right
    have hnext : some (if e.phase.isActive then Duty.submit l' else .exchange (.lookup l') .join) =
        some d' := h
    split at hnext
    case isTrue hactive =>
      cases hnext
      cases hrouted
      exact ⟨rfl, hactive⟩
    case isFalse hactive =>
      cases hnext
      cases hrouted
      exact ⟨rfl, Bool.eq_false_iff.2 hactive⟩
  | exchange p s =>
    left
    cases hr : e.result? (.exchange p s) with
    | some r =>
      rw [Duty.next_of_result hr] at h
      cases h
      cases hrouted
    | none =>
      rw [Duty.next_of_none hr] at h
      cases h
      cases p <;> exact hrouted
  | take run =>
    rw [Duty.next_take] at h
    split at h
    · cases hhead : e.queue.entries.head? <;> rw [hhead] at h <;> cases h <;> cases hrouted
    · cases h
  | startPoll | poll | startProbe | probe | consult | submit | await =>
    unfold Duty.next at h
    grind [Duty.routed?]
  | conclude p r =>
    unfold Duty.next at h
    grind [Duty.routed?]

/-- A caller that has chosen its way did so at one moment of the run, by the phase of that moment. -/
theorem routed_follow (hr : s.roster.Orderly) (hnone : ∀ id d, s.duty? id = some d → d.routed? = none)
    (ms : List Move) (hd : (s.follow ms).duty? id = some d) (hrouted : d.routed? = some (l, queued)) :
    ∃ before after, ms = before ++ .act id :: after ∧
      (s.follow before).ready? id = some (.route l) ∧ (s.follow before).phase.isActive = queued := by
  induction ms using List.reverseRecOn generalizing d with
  | nil => cases (hnone id d hd).symm.trans hrouted
  | append_singleton ms m ih =>
    have hk : (s.follow ms).Known := known_of_orderly ((follow_evolves hr ms).orderly hr)
    have hearlier : ∀ {d₀}, (s.follow ms).duty? id = some d₀ → d₀.routed? = some (l, queued) →
        ∃ before after, ms ++ [m] = before ++ .act id :: after ∧
          (s.follow before).ready? id = some (.route l) ∧
          (s.follow before).phase.isActive = queued := by
      intro d₀ hd₀ hrouted₀
      obtain ⟨before, after, rfl, hchosen⟩ := ih hd₀ hrouted₀
      exact ⟨before, after ++ [m], by rw [List.append_assoc, List.cons_append], hchosen⟩
    rw [follow_append] at hd
    rcases move_duty_cases hk hd with ⟨d₀, rfl, hready, hnext⟩ | ⟨d₀, hd₀, hpass⟩ | hbegins
    · rcases routed_of_next hnext hrouted with hbefore | ⟨rfl, hphase⟩
      · exact hearlier (duty?_of_ready? hready) hbefore
      · exact ⟨ms, [], rfl, hready, hphase⟩
    · cases hpass with
      | refl => exact hearlier hd₀ hrouted
      | told => cases hrouted
    · rcases hbegins.cases with ⟨l, -, rfl⟩ | ⟨run, rfl⟩ | ⟨permit, p, delay, period, rfl⟩ |
        ⟨outage, rfl⟩ <;> cases hrouted

/-! ## What is told -/

/-- A caller is told the result of its lookup as the last thing that its task does. -/
theorem found_last {h : Happening} (hmem : h ∈ e.records m) (hfinds : h.finds id = true) :
    ∃ d, m = .act id ∧ e.ready? id = some d ∧ d.next e = none ∧ e.records m = [h] := by
  obtain ⟨id', d, rfl, hready, hnotes⟩ := notes_of_move hmem
  have hrecords : e.records (.act id') = d.records e id' := records_of_ready hready
  cases hnotes with
  | @cached l f hf =>
    obtain rfl : id' = id := eq_of_beq hfinds
    refine ⟨_, rfl, hready, if_pos (by rw [hf, Option.isSome_some]), hrecords.trans ?_⟩
    show ((l.cached? e.table).map _).toList = _
    rw [hf]
    rfl
  | answered =>
    obtain rfl : id' = id := eq_of_beq hfinds
    exact ⟨_, rfl, hready, rfl, hrecords⟩
  | polled | joined | sent | received | exchanged | callback | outage | recovered => cases hfinds

/-- A caller was told nothing yet, or told once and has ended. -/
def HeardOnce (e : Engine) (id : TaskId) : Prop :=
  e.happenings.filter (·.finds id) = [] ∨
    ((e.happenings.filter (·.finds id)).length = 1 ∧ id < e.nextTask ∧ e.duty? id = none)

theorem HeardOnce.move (h : e.HeardOnce id) (hr : e.roster.Orderly) (m : Move) :
    (e.move m).HeardOnce id := by
  have hk : e.Known := known_of_orderly hr
  have hle : e.nextTask ≤ (e.move m).nextTask := (move_evolves hr m).later.nextTask
  unfold HeardOnce
  rw [move_happenings, List.filter_append]
  by_cases hfinds : ∃ h ∈ e.records m, h.finds id = true
  · obtain ⟨found, hmem, hfound⟩ := hfinds
    obtain ⟨d, rfl, hready, hnext, hrecords⟩ := found_last hmem hfound
    have hd : e.duty? id = some d := duty?_of_ready? hready
    have hnew : (e.records (.act id)).filter (·.finds id) = [found] := by
      rw [hrecords]
      exact List.filter_cons_of_pos hfound
    -- whoever is told something was told nothing before
    rcases h with hnone | ⟨-, -, hgone⟩
    · right
      rw [hnone, hnew]
      exact ⟨rfl, Nat.lt_of_lt_of_le (hk.lt hd) hle, (move_own hk hready).trans hnext⟩
    · cases hgone.symm.trans hd
  · have hquiet : (e.records m).filter (·.finds id) = [] :=
      List.filter_eq_nil_iff.2 fun h hmem hfound => hfinds ⟨h, hmem, hfound⟩
    rw [hquiet, List.append_nil]
    refine h.imp_right ?_
    rintro ⟨hone, hlt, hgone⟩
    exact ⟨hone, Nat.lt_of_lt_of_le hlt hle, gone_move hr hlt hgone m⟩

theorem HeardOnce.follow (h : e.HeardOnce id) (hr : e.roster.Orderly) (ms : List Move) :
    (e.follow ms).HeardOnce id :=
  orderly_induction (P := (·.HeardOnce id)) (fun _ m hr h => h.move hr m) h hr ms

/-- Listeners are told of the results of entries for which no caller waits, and of nothing else. -/
theorem callback_uncalled {listener : Listener} {system : SystemId} {u : Update}
    (hmem : .callback listener system u ∈ e.records m) : ∃ taker run x body, m = .act taker ∧
      e.ready? taker = some (.conclude (.entry run x) (.ok body)) ∧ x.caller = none := by
  obtain ⟨taker, d, rfl, hready, hnotes⟩ := notes_of_move hmem
  cases hnotes with
  | callback hcaller => exact ⟨taker, _, _, _, rfl, hready, hcaller⟩

/-! ## Promises -/

/-- A failure of the service ends the run that goes on, whether a caller waits for the request or not. -/
theorem outage_of_failed (hr : e.roster.Orderly) {run : Permit} {f : RequestError}
    (hready : e.ready? id = some (.conclude (.entry run x) (.error f))) (hf : f.isServer = true)
    (hin : e.allows run = true) :
    e.phase.isActive = true ∧ (e.move (.act id)).phase = .outage e.nextPermit := by
  have hmem : run ∈ e.permits := allows_iff.1 hin
  obtain ⟨run', hphase, rfl⟩ := hr.taker (post?_of_ready? hready) hmem
  have hphase : e.phase = .active run' := hphase
  refine ⟨Phase.isActive_iff.2 ⟨run', hphase⟩, ?_⟩
  have hfails : ∀ e' : Engine, e'.roster = e.roster →
      ((e'.enterOutage run'.root x f).finish id).phase = .outage e.nextPermit := by
    intro e' hsame
    have hphase' : e'.phase = .active run' := (phase_of_roster hsame).trans hphase
    have hmem' : run'.root ∈ e'.permits := permits_of_roster hsame ▸ hmem
    have hnext : e'.nextPermit = e.nextPermit := congrArg Roster.nextPermit hsame
    rw [← hnext]
    exact congrArg Roster.phase (enterOutage_roster hphase' hmem' x f)
  rw [move_of_ready hready]
  show (e.concludeEntry id run'.root x (.error f)).phase = _
  unfold concludeEntry
  cases x.caller with
  | none =>
    dsimp only
    rw [if_pos hf]
    exact hfails e rfl
  | some caller =>
    dsimp only
    rw [if_pos hf]
    exact hfails _ (e.reply_roster caller _)

/-- A caller whose entry was taken is told by the task that has it, and by no one else. -/
theorem Attended.told_by_taker (h : e.Attended) {taker : TaskId} (hd : e.duty? taker = some d)
    (hx : d.entry? = some x) (hcaller : x.caller = some id) (hanswers : e.Answers m id l r) :
    ∃ run, m = .act taker ∧ e.ready? taker = some (.conclude (.entry run x) r) := by
  obtain ⟨l', hawait, -⟩ := h.taken hd hx hcaller
  cases hanswers with
  | full hready => cases hawait.symm.trans (duty?_of_ready? hready)
  | direct hready => cases hawait.symm.trans (duty?_of_ready? hready)
  | @told _ y _ _ _ htells hcaller' =>
    cases htells with
    | @executed taker' run _ _ hready =>
      have hd' : e.duty? taker' = some (.conclude (.entry run y) r) := duty?_of_ready? hready
      obtain rfl : taker = taker' := h.single hd hx hcaller hd' rfl hcaller'
      cases hd.symm.trans hd'
      cases hx
      exact ⟨run, rfl, hready⟩
    | outage hready hf hin hy =>
      exact absurd (mem_queue_callers.2 ⟨y, hy, hcaller'⟩) (h.apart hd hx hcaller)
    | stopped hstops hy =>
      exact absurd (mem_queue_callers.2 ⟨y, hy, hcaller'⟩) (h.apart hd hx hcaller)

/-- Only a stop cancels a request, and it does so to whoever has an entry in the queue. -/
theorem cancelled_iff (h : e.Attended) (ht : e.Truthful) (hr : e.roster.Orderly) :
    e.Answered m id l (.error .cancelled) ↔ ∃ c x, m = .obey c ∧ c.stops e.table = true ∧
      x ∈ e.queue.entries ∧ x.caller = some id ∧ e.duty? id = some (.await l) := by
  rw [answered_iff h hr]
  constructor
  · intro hanswers
    cases hanswers with
    | direct hready hres => cases isOfExchange_of_result? hres
    | @told _ x _ _ _ htells hcaller hd hrequest =>
      generalize hr' : (Except.error RequestError.cancelled : Except RequestError String) = r'
        at htells
      cases htells with
      | executed hready => cases (ht (duty?_of_ready? hready)).2 .cancelled hr'.symm
      | outage hready hf hin hy =>
        cases hr'
        cases hf
      | stopped hstops hy => exact ⟨_, x, rfl, hstops, hy, hcaller, hd⟩
  · rintro ⟨c, x, rfl, hstops, hx, hcaller, hd⟩
    obtain ⟨l', hd', hrequest⟩ := h.queued hx hcaller
    cases hd.symm.trans hd'
    exact .told (.stopped hstops hx) hcaller hd hrequest

/-- What is promised to callers in every run from a state. -/
structure RoundTrips (s : Engine) : Prop where
  /-- A caller is told a result in the ways of `Answers`, and in each of them it is told. -/
  answered : ∀ {ms m id l r}, (s.follow ms).Answered m id l r ↔ (s.follow ms).Answers m id l r
  /-- It is told once, both the result of its request and what it makes of that. -/
  once : ∀ {ms m id l r}, (s.follow ms).Answered m id l r →
    ∀ ms' m' l' r', ¬ (s.follow (ms ++ m :: ms')).Answered m' id l' r'
  heard : ∀ ms id, ((s.follow ms).happenings.filter (·.finds id)).length ≤ 1
  /-- It goes to the queue if there is a run at the moment of its choice, and sends by itself if not. -/
  routed : ∀ {ms id d l queued}, (s.follow ms).duty? id = some d → d.routed? = some (l, queued) →
    ∃ before after, ms = before ++ .act id :: after ∧
      (s.follow before).ready? id = some (.route l) ∧ (s.follow before).phase.isActive = queued
  /-- A queue that is full is left as it is. -/
  full : ∀ {ms id l}, (s.follow ms).ready? id = some (.submit l) →
    ¬ (s.follow ms).queue.size < (s.follow ms).queue.capacity →
      ((s.follow ms).move (.act id)).queue = (s.follow ms).queue
  /-- Who sends by itself is told what its own exchange brought. -/
  direct : ∀ {ms id l stage r}, (s.follow ms).ready? id = some (.exchange (.lookup l) stage) →
    (s.follow ms).result? (.exchange (.lookup l) stage) = some r →
      .exchanged id (.lookup l) r ∈ ((s.follow ms).move (.act id)).happenings ∧
        ∀ f, r = .error f → f.isOfExchange = true
  /-- Whose entry was taken is told what the exchange of this entry brought. -/
  taken : ∀ {ms taker d x id m l r}, (s.follow ms).duty? taker = some d → d.entry? = some x →
    x.caller = some id → (s.follow ms).Answered m id l r → l.request = x.request ∧
      ∃ run, m = .act taker ∧ (s.follow ms).ready? taker = some (.conclude (.entry run x) r)
  executed : ∀ {ms taker run x r}, (s.follow ms).ready? taker = some (.conclude (.entry run x) r) →
    .exchanged taker (.entry run x) r ∈ (s.follow ms).happenings ∧
      ∀ f, r = .error f → f.isOfExchange = true
  /-- Who is told of an outage is told the failure that ended the run. -/
  outage : ∀ {ms taker run x f},
    (s.follow ms).ready? taker = some (.conclude (.entry run x) (.error f)) → f.isServer = true →
      (s.follow ms).allows run = true → (s.follow ms).phase.isActive = true ∧
        ((s.follow ms).move (.act taker)).phase = .outage (s.follow ms).nextPermit
  /-- A request is cancelled when a stop throws away its entry, and in no other way. -/
  cancelled : ∀ {ms m id l}, (s.follow ms).Answered m id l (.error .cancelled) ↔
    ∃ c x, m = .obey c ∧ c.stops (s.follow ms).table = true ∧ x ∈ (s.follow ms).queue.entries ∧
      x.caller = some id ∧ (s.follow ms).duty? id = some (.await l)
  /-- The entry of a caller is never put into the queue again: whatever has its number is this entry,
  as it was submitted. -/
  kept : ∀ {ms id l}, (s.follow ms).ready? id = some (.submit l) →
    (s.follow ms).queue.size < (s.follow ms).queue.capacity → ∀ ms' y,
      (s.follow (ms ++ .act id :: ms')).Holds y → y.serial = (s.follow ms).queue.accepted →
        y = (s.follow ms).queue.entryFor l.request (some id) .head
  /-- Listeners are told of entries for which no caller waits. -/
  uncalled : ∀ {ms m listener system u},
    .callback listener system u ∈ (s.follow ms).records m → ∃ taker run x body, m = .act taker ∧
      (s.follow ms).ready? taker = some (.conclude (.entry run x) (.ok body)) ∧ x.caller = none

variable (settings : EngineSettings) (service : Service) (observer : Option Observer)
  (script : Script)

theorem attended_start : (start settings service observer script).Attended where
  queued hx := by cases hx
  taken hd := by cases (duty?_start settings service observer script _).symm.trans hd
  once := List.nodup_nil
  apart _ _ _ := List.not_mem_nil
  single hd := by cases (duty?_start settings service observer script _).symm.trans hd

theorem truthful_start : (start settings service observer script).Truthful := fun hd => by
  cases (duty?_start settings service observer script _).symm.trans hd

theorem Attended.follow (h : e.Attended) (hr : e.roster.Orderly) (ms : List Move) :
    (e.follow ms).Attended :=
  orderly_induction (P := Attended) (fun _ m hr h => h.move hr m) h hr ms

theorem Truthful.follow (h : e.Truthful) (hr : e.roster.Orderly) (ms : List Move) :
    (e.follow ms).Truthful :=
  orderly_induction (P := Truthful) (fun _ m hr h => h.move (known_of_orderly hr) m) h hr ms

/-- The promises to callers are kept in every run of the engine. -/
theorem round_trips : (start settings service observer script).RoundTrips := by
  have hr : ∀ ms, ((start settings service observer script).follow ms).roster.Orderly :=
    follow_orderly settings service observer script
  have hattended : ∀ ms, ((start settings service observer script).follow ms).Attended :=
    (attended_start ..).follow (start_orderly ..)
  have htruthful : ∀ ms, ((start settings service observer script).follow ms).Truthful :=
    Truthful.follow (@truthful_start settings service observer script) (start_orderly ..)
  refine ⟨answered_iff (hattended _) (hr _), ?_, ?_, ?_, ?_, ?_, ?_, fun hready =>
    htruthful _ (duty?_of_ready? hready), outage_of_failed (hr _), cancelled_iff (hattended _)
    (htruthful _) (hr _), ?_, callback_uncalled⟩
  · intro ms m id l r hanswered ms' m' l' r'
    rw [follow_append]
    exact hanswered.once (hr ms) ms'
  · intro ms id
    have hheard : ((start settings service observer script).follow ms).HeardOnce id :=
      HeardOnce.follow (.inl rfl) (start_orderly ..) ms
    rcases hheard with hnone | ⟨hone, -⟩
    · rw [hnone]
      exact Nat.zero_le 1
    · exact Nat.le_of_eq hone
  · intro ms id d l queued
    exact routed_follow (start_orderly ..) (fun _ _ hd => by cases hd) ms
  · intro ms id l hready hfull
    rw [move_queue, asks_of_ready hready]
    exact Queue.push_of_full hfull l.request (some id) .head
  · intro ms id l stage r hready hres
    rw [move_happenings]
    refine ⟨List.mem_append_right _ (mem_records_of_result? hready hres), ?_⟩
    rintro f rfl
    exact isOfExchange_of_result? hres
  · intro ms taker d x id m l r hd hx hcaller hanswered
    have hanswers := (answered_iff (hattended ms) (hr ms)).1 hanswered
    obtain ⟨run, rfl, hready⟩ := (hattended ms).told_by_taker hd hx hcaller hanswers
    refine ⟨?_, run, rfl, hready⟩
    obtain ⟨l', hawait, hrequest⟩ := (hattended ms).taken hd hx hcaller
    have hl : l = l' := by
      cases hanswers with
      | full hready' => cases hawait.symm.trans (duty?_of_ready? hready')
      | direct hready' => cases hawait.symm.trans (duty?_of_ready? hready')
      | told _ _ hd' =>
        cases hawait.symm.trans hd'
        rfl
    rw [hl]
    exact hrequest
  · intro ms id l hready hroom ms' y hy hserial
    have hnumbered : ((start settings service observer script).follow ms).Numbered :=
      Numbered.follow (@numbered_start settings service observer script) (start_orderly ..) ms
    have halone := alone_of_submit hnumbered (known_of_orderly (hr ms)) hready hroom
    have hr' := (move_evolves (hr ms) (.act id)).orderly (hr ms)
    rw [follow_append] at hy
    exact (halone.follow hr' nofun ms').only hy hserial

end Engine

end HeatWatch
