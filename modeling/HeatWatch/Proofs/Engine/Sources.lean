import HeatWatch.Proofs.Engine.Failures
import HeatWatch.Proofs.Table.Fetched

/-!
# Where the answers to lookups come from

A caller is answered from the table or by an exchange that was made for it. What only lookups bring
gets into the table when a caller reads its response, and in no other way, so it came back from the
service in answer to that very request. Main statements:

* `fetched_move`: what only lookups bring is changed by a caller that reads its response;
* `Accounted.move`: for each answer there is the exchange that it came from;
* `listing_of_found`: categories with parameters come from a request for parameters.
-/

namespace HeatWatch

/-- The caller for whom a task exchanges a request. -/
def Purpose.caller? (task : TaskId) : Purpose → Option TaskId
  | .entry _ x => x.caller
  | .probe .. => none
  | .lookup _ => some task

/-- The caller for whom a task is in the line. -/
def Happening.caller? : Happening → Option TaskId
  | .joined task p | .sent task p _ | .received task p _ | .exchanged task p _ => p.caller? task
  | _ => none

/-! ## Requests of no caller -/

theorem Request.isLookedUp_of_readParameters {id : SystemId} {ps : List ParameterId} {r : Request}
    (h : r ∈ readParameters id ps) : r.isLookedUp = false := by
  obtain ⟨group, -, rfl⟩ := List.mem_map.1 h
  rfl

theorem Command.isLookedUp_of_demand {c : Command} {r : Request} (h : r ∈ c.demands) :
    r.isLookedUp = false := by
  cases c with
  | requestParameters => exact Request.isLookedUp_of_readParameters h
  | requestSystem | requestStatus | requestAlarm | requestSoftware | requestMode | setParameters
  | setMode | setThermostat =>
    obtain rfl := List.mem_singleton.1 h
    rfl
  | addListener | removeListener | lookup | removeThermostat | addTracked | removeTracked
  | setUpdateInterval | setSoftwareDays | shutdown => cases h

theorem Poll.isLookedUp_of_request {p : Poll} {t : SystemTable} {r : Request}
    (h : r ∈ p.requests t) : r.isLookedUp = false := by
  cases p with
  | standard =>
    obtain ⟨id, -, hr⟩ := List.mem_flatMap.1 h
    rcases List.mem_cons.1 hr with rfl | hr
    · rfl
    rcases List.mem_cons.1 hr with rfl | hr
    · rfl
    · exact Request.isLookedUp_of_readParameters hr
  | software =>
    obtain ⟨id, -, rfl⟩ := List.mem_map.1 h
    rfl
  | thermostats =>
    obtain ⟨⟨id, ths⟩, -, hr⟩ := List.mem_flatMap.1 h
    obtain ⟨th, -, rfl⟩ := List.mem_map.1 hr
    rfl
  | modes =>
    obtain ⟨⟨id, m⟩, -, rfl⟩ := List.mem_map.1 h
    rfl

/-- The host gives nothing of what only lookups bring, and takes nothing away. -/
theorem Command.fetched_tabled (c : Command) (t : SystemTable) (id : SystemId) :
    ((c.tabled t).entry id).fetched = (t.entry id).fetched := by
  cases c with
  | addListener | setMode | setThermostat | addTracked =>
    exact t.entry_modify_of_same _ id fun _ => rfl
  | removeListener | removeTracked =>
    unfold Command.tabled SystemTable.removeListener SystemTable.removeTracked
    dsimp only
    split
    · exact t.entry_modify_of_same _ id fun _ => rfl
    · rfl
  | removeThermostat =>
    unfold Command.tabled SystemTable.removeThermostat
    dsimp only
    split
    · exact t.entry_modify_of_same _ id fun _ => rfl
    · rfl
  | lookup | requestSystem | requestStatus | requestAlarm | requestSoftware | requestMode
  | requestParameters | setParameters | setUpdateInterval | setSoftwareDays | shutdown => rfl

namespace Engine

variable {e s : Engine} {id c : TaskId} {d : Duty} {m : Move} {x : Entry} {l : Lookup}
  {f : Finding} {body : String} {r : Request} {system : SystemId} {withParameters : Bool}

/-- A body came back from an exchange of a request that was made for a caller. -/
def CameFor (e : Engine) (c : TaskId) (r : Request) (body : String) : Prop :=
  ∃ task p, .exchanged task p (.ok body) ∈ e.happenings ∧ p.caller? task = some c ∧ p.request = r

/-- For each answer to a lookup there is the exchange that it came from. -/
structure Accounted (e : Engine) : Prop where
  orderly : e.roster.Orderly
  attended : e.Attended
  truthful : e.Truthful
  /-- Without a caller, nothing is asked that only lookups bring. -/
  uncalled : ∀ {x}, e.Holds x → x.caller = none → x.request.isLookedUp = false
  /-- What a caller is to read came back for it. -/
  answered : ∀ {id l body}, e.duty? id = some (.conclude (.lookup l) (.ok body)) →
    e.CameFor id l.request body
  /-- So did the categories that are kept. -/
  kept : ∀ {system} {listing : CachedCategories}, e.table.listing? system = some listing →
    ∃ c body, e.CameFor c (.getCategories system listing.withParameters) body ∧
      Response.categories.decode body = .ok listing.categories
  /-- No exchange was made for a caller to come. -/
  known : ∀ h ∈ e.happenings, ∀ c, h.caller? = some c → c < e.nextTask
  heard : ∀ id, e.HeardOnce id

theorem Accounted.isKnown (h : e.Accounted) : e.Known := known_of_orderly h.orderly

theorem CameFor.move (h : e.CameFor c r body) (m : Move) : (e.move m).CameFor c r body := by
  obtain ⟨task, p, hmem, hp⟩ := h
  exact ⟨task, p, mem_happenings_follow hmem [m], hp⟩

/-! ## The table -/

theorem table_of_read {t : SystemTable}
    (hready : e.ready? id = some (.conclude (.lookup l) (.ok body)))
    (hread : l.read e.table body = .ok (f, t)) : (e.move (.act id)).table = t := by
  rw [move_table, tabled_of_ready hready]
  show (l.read e.table body).toOption.elim e.table (·.2) = t
  rw [hread]
  rfl

/-- What only lookups bring is changed by a caller that reads its response. -/
theorem fetched_move (h : e.Accounted) (m : Move) :
    (∀ system, ((e.move m).table.entry system).fetched = (e.table.entry system).fetched) ∨
      ∃ id l body f, m = .act id ∧ e.ready? id = some (.conclude (.lookup l) (.ok body)) ∧
        l.read e.table body = .ok (f, (e.move m).table) := by
  cases m with
  | obey cmd =>
    rw [move_table]
    exact .inl (cmd.fetched_tabled e.table)
  | elapse | pass | plan => exact .inl fun system => rfl
  | act id =>
    by_cases hchanged : (e.move (.act id)).table = e.table
    · exact .inl fun system => by rw [hchanged]
    · cases table_of_act hchanged with
      | found hready hread =>
        exact .inr ⟨id, _, _, _, rfl, hready, table_of_read hready hread ▸ hread⟩
      | @delivered run x body hready hcaller =>
        left
        intro system
        rw [move_table, tabled_of_ready hready]
        show ((if x.caller.isNone then _ else e.table).entry system).fetched = _
        rw [hcaller]
        exact Dispatch.deliver_fetched (h.uncalled (holds_of_conclude hready) hcaller) ..
      | @probed outage next body ss hready hread =>
        left
        intro system
        rw [move_table, tabled_of_ready hready]
        show (((Response.systems.decode body).toOption.elim e.table _).entry system).fetched = _
        rw [hread]
        exact (SystemTable.Takes.listing ss).fetched rfl system

/-- A caller has the categories of a system kept that came back for its lookup. -/
def Stores (e : Engine) (m : Move) (system : SystemId) (withParameters : Bool) : Prop :=
  ∃ id body cs, m = .act id ∧
    e.ready? id = some (.conclude (.lookup (.categories system withParameters)) (.ok body)) ∧
    Response.categories.decode body = .ok cs

theorem detail?_of_stores (h : e.Stores m system withParameters) :
    (e.move m).table.detail? system = some withParameters := by
  obtain ⟨id, body, cs, rfl, hready, hcs⟩ := h
  have hread : (Lookup.categories system withParameters).read e.table body =
      .ok (.categories cs, e.table.setCategories system withParameters cs) := by
    show _ <$> Response.categories.decode body = _
    rw [hcs]
    rfl
  rw [table_of_read hready hread]
  show Option.map _ ((e.table.setCategories system withParameters cs).listing? system) = _
  rw [SystemTable.listing?_setCategories, if_pos rfl]
  rfl

/-- The categories that are kept change in no other way. -/
theorem listing?_move (h : e.Accounted) (m : Move) (system : SystemId) :
    (e.move m).table.listing? system = e.table.listing? system ∨
      ∃ withParameters, e.Stores m system withParameters := by
  rcases fetched_move h m with hsame | ⟨id, l, body, f, rfl, hready, hread⟩
  · exact .inl (SystemTable.listing?_of_fetched (hsame system))
  · by_cases hl : ∃ withParameters, l = .categories system withParameters
    · obtain ⟨withParameters, rfl⟩ := hl
      obtain ⟨cs, hcs, -⟩ := Lookup.listing?_of_read hread
      exact .inr ⟨withParameters, id, body, cs, rfl, hready, hcs⟩
    · exact .inl (Lookup.listing?_of_other hread (not_exists.1 hl))

/-! ## Steps -/

theorem Accounted.uncalled_move (h : e.Accounted) (hx : (e.move m).Holds x)
    (hcaller : x.caller = none) : x.request.isLookedUp = false := by
  rcases held_move h.isKnown hx with hold | henters
  · exact h.uncalled hold hcaller
  · cases henters with
    | demand hr => exact Command.isLookedUp_of_demand hr
    | poll hready hr => exact Poll.isLookedUp_of_request hr
    | submit => cases hcaller
    | @again _ _ y _ hready hf hin hnone =>
      have hrequest : y.request.isLookedUp = false := h.uncalled (holds_of_conclude hready) hnone
      exact hrequest

/-- A caller that has its result keeps it until it uses it. -/
theorem conclude_of_move (hk : e.Known) {l' : Lookup} {res res' : Except RequestError String}
    (hd : e.duty? id = some (.conclude (.lookup l) res))
    (hd' : (e.move m).duty? id = some (.conclude (.lookup l') res')) : l' = l ∧ res' = res := by
  by_cases hm : m = .act id
  · subst hm
    cases hready : e.ready? id with
    | none =>
      rw [move_of_not_ready hready] at hd'
      cases hd.symm.trans hd'
      exact ⟨rfl, rfl⟩
    | some d =>
      cases hd.symm.trans (duty?_of_ready? hready)
      rw [move_own hk hready] at hd'
      cases hd'
  · obtain ⟨d, hpassed, hpass⟩ := move_duty_of hk hm hd
    cases hpassed.symm.trans hd'
    cases hpass
    exact ⟨rfl, rfl⟩

theorem Accounted.answered_move (h : e.Accounted)
    (hd : (e.move m).duty? id = some (.conclude (.lookup l) (.ok body))) :
    (e.move m).CameFor id l.request body := by
  by_cases hbefore : ∃ l' r', e.duty? id = some (.conclude (.lookup l') r')
  · obtain ⟨l', r', hd'⟩ := hbefore
    obtain ⟨rfl, rfl⟩ := conclude_of_move h.isKnown hd' hd
    exact (h.answered hd').move m
  · -- it was told its result by this move, and a body comes from an exchange only
    have htold : e.Answered m id l (.ok body) := ⟨fun l' r' hd' => hbefore ⟨l', r', hd'⟩, hd⟩
    cases (answered_iff h.attended h.orderly).1 htold with
    | direct hready hres =>
      refine ⟨id, .lookup l, ?_, rfl, rfl⟩
      rw [move_happenings]
      exact List.mem_append_right _ (mem_records_of_result? hready hres)
    | told htells hcaller _ hrequest =>
      cases htells with
      | @executed taker _ _ _ hready =>
        have hmem := (h.truthful (duty?_of_ready? hready)).1
        exact ⟨taker, .entry _ _, mem_happenings_follow hmem [.act taker], hcaller, hrequest.symm⟩

theorem Accounted.kept_move (h : e.Accounted) {listing : CachedCategories}
    (hlisting : (e.move m).table.listing? system = some listing) :
    ∃ c body, (e.move m).CameFor c (.getCategories system listing.withParameters) body ∧
      Response.categories.decode body = .ok listing.categories := by
  rcases fetched_move h m with hsame | ⟨id, l, body, f, rfl, hready, hread⟩
  · rw [SystemTable.listing?_of_fetched (hsame system)] at hlisting
    obtain ⟨c, body, hcame, hcs⟩ := h.kept hlisting
    exact ⟨c, body, hcame.move m, hcs⟩
  · by_cases hl : ∃ withParameters, l = .categories system withParameters
    · obtain ⟨withParameters, rfl⟩ := hl
      obtain ⟨cs, hcs, -, hnew⟩ := Lookup.listing?_of_read hread
      cases hlisting.symm.trans hnew
      exact ⟨id, body, (h.answered (duty?_of_ready? hready)).move _, hcs⟩
    · rw [Lookup.listing?_of_other hread (not_exists.1 hl)] at hlisting
      obtain ⟨c, body, hcame, hcs⟩ := h.kept hlisting
      exact ⟨c, body, hcame.move _, hcs⟩

/-- Whatever is recorded for a caller is recorded of the task that makes its exchange. -/
theorem exchange_of_caller {h : Happening} (hmem : h ∈ e.records m) (hc : h.caller? = some c) :
    ∃ id p stage, m = .act id ∧ e.ready? id = some (.exchange p stage) ∧ p.caller? id = some c := by
  obtain ⟨id, d, rfl, hready, hnotes⟩ := notes_of_move hmem
  cases hnotes with
  | joined | sent | received | exchanged => exact ⟨id, _, _, rfl, hready, hc⟩
  | polled | cached | callback | outage | recovered | answered => cases hc

theorem Accounted.known_move (h : e.Accounted) {x : Happening} (hmem : x ∈ (e.move m).happenings)
    (hc : x.caller? = some c) : c < (e.move m).nextTask := by
  refine Nat.lt_of_lt_of_le ?_ (move_evolves h.orderly m).later.nextTask
  rw [move_happenings] at hmem
  rcases List.mem_append.1 hmem with hold | hnew
  · exact h.known x hold c hc
  · obtain ⟨id, p, stage, -, hready, hcaller⟩ := exchange_of_caller hnew hc
    have hd : e.duty? id = some (.exchange p stage) := duty?_of_ready? hready
    cases p with
    | entry run y =>
      obtain ⟨l, hawait, -⟩ := h.attended.taken hd rfl hcaller
      exact h.isKnown.lt hawait
    | probe => cases hcaller
    | lookup l =>
      cases hcaller
      exact h.isKnown.lt hd

theorem Accounted.move (h : e.Accounted) (m : Move) : (e.move m).Accounted where
  orderly := (move_evolves h.orderly m).orderly h.orderly
  attended := h.attended.move h.orderly m
  truthful := Truthful.move (fun hd => h.truthful hd) h.isKnown m
  uncalled := h.uncalled_move
  answered := h.answered_move
  kept := h.kept_move
  known _ hmem _ hc := h.known_move hmem hc
  heard id := (h.heard id).move h.orderly m

theorem Accounted.follow (h : e.Accounted) (ms : List Move) : (e.follow ms).Accounted :=
  follow_induction (P := Accounted) (fun _ m h => h.move m) h ms

/-- What each move keeps, as long as answers are accounted for, holds after every run. -/
theorem accounted_induction {P : Engine → Prop} (hm : ∀ e m, e.Accounted → P e → P (e.move m))
    (h : P e) (ha : e.Accounted) (ms : List Move) : P (e.follow ms) :=
  (follow_induction (P := fun e => e.Accounted ∧ P e)
    (fun e m h => ⟨h.1.move m, hm e m h.1 h.2⟩) ⟨ha, h⟩ ms).2

theorem accounted_start (settings : EngineSettings) (service : Service) (observer : Option Observer)
    (script : Script) : (start settings service observer script).Accounted where
  orderly := start_orderly ..
  attended := attended_start ..
  truthful hd := by cases (duty?_start settings service observer script _).symm.trans hd
  uncalled := by
    rintro x (hqueued | ⟨id, d, hd, -⟩)
    · cases hqueued
    · cases (duty?_start settings service observer script id).symm.trans hd
  answered hd := by cases (duty?_start settings service observer script _).symm.trans hd
  kept h := by cases h
  known _ hmem := by cases hmem
  heard _ := .inl rfl

/-! ## Answers -/

/-- A caller that was told something has ended. -/
theorem HeardOnce.ended (h : e.HeardOnce id) {res : Except RequestError Finding}
    (hfound : .found id res ∈ e.happenings) : id < e.nextTask ∧ e.duty? id = none := by
  rcases h with hnone | ⟨-, hended⟩
  · have hmem : .found id res ∈ e.happenings.filter (·.finds id) :=
      List.mem_filter.2 ⟨hfound, beq_self_eq_true id⟩
    rw [hnone] at hmem
    cases hmem
  · exact hended

/-- A caller is told what the table keeps for its lookup, or reads its response. -/
theorem found_cases (hmem : .found id (.ok f) ∈ e.records m) : m = .act id ∧
    ((∃ l, e.ready? id = some (.consult l) ∧ l.cached? e.table = some f) ∨
      ∃ l body, e.ready? id = some (.conclude (.lookup l) (.ok body)) ∧
        l.read e.table body = .ok (f, (e.move m).table)) := by
  obtain ⟨id', d, rfl, hready, hnotes⟩ := notes_of_move hmem
  generalize hx : Happening.found id (.ok f) = x at hnotes
  cases hnotes with
  | @cached l f' hf =>
    cases hx
    exact ⟨rfl, .inl ⟨l, hready, hf⟩⟩
  | @answered l res =>
    cases res with
    | error f' => cases hx
    | ok body =>
      have hfound : Happening.found id (.ok f) =
        .found id' (((l.read e.table body).map (·.1)).mapError .parse) := hx
      cases hread : l.read e.table body with
      | error f' =>
        rw [hread] at hfound
        cases hfound
      | ok result =>
        obtain ⟨f', t⟩ := result
        rw [hread] at hfound
        cases hfound
        exact ⟨rfl, .inr ⟨l, body, hready, table_of_read hready hread ▸ hread⟩⟩
  | polled | joined | sent | received | exchanged | callback | outage | recovered => cases hx

/-- The task of a caller goes on with its lookup. -/
theorem lookup?_next {d' : Duty} (h : d.next e = some d') (hl : d.lookup? = some l) :
    d'.lookup? = some l := by
  cases d with
  | exchange p stage =>
    cases hres : e.result? (.exchange p stage) with
    | some res =>
      rw [Duty.next_of_result hres] at h
      cases h
      cases p <;> exact hl
    | none =>
      rw [Duty.next_of_none hres] at h
      cases h
      cases p <;> exact hl
  | consult | route | submit | await =>
    unfold Duty.next at h
    grind [Duty.lookup?]
  | conclude p res =>
    cases p with
    | lookup => cases h
    | entry | probe => cases hl
  | take | startPoll | poll | startProbe | probe => cases hl

/-- A task makes a lookup for its caller, as long as there is the task. -/
structure LooksUp (e : Engine) (id : TaskId) (l : Lookup) : Prop where
  known : id < e.nextTask
  asked : ∀ {d}, e.duty? id = some d → d.lookup? = some l

theorem looksUp_call (e : Engine) (l : Lookup) :
    (e.move (.obey (.lookup l))).LooksUp e.nextTask l where
  known := Nat.lt_succ_self _
  asked {d} hd := by
    have hd' : (e.spawn (.consult l)).duty? e.nextTask = some d := hd
    rw [duty?_spawn, if_pos rfl] at hd'
    cases hd'
    rfl

theorem LooksUp.move (h : e.LooksUp id l) (hr : e.roster.Orderly) (m : Move) :
    (e.move m).LooksUp id l where
  known := Nat.lt_of_lt_of_le h.known (move_evolves hr m).later.nextTask
  asked {d} hd := by
    rcases move_duty_of_known hr h.known hd with ⟨d₀, rfl, hready, hnext⟩ | ⟨d₀, hd₀, hpass⟩
    · exact lookup?_next hnext (h.asked (duty?_of_ready? hready))
    · have hl := h.asked hd₀
      cases hpass <;> exact hl

theorem Accounted.looksUp_follow (h : e.Accounted) (hl : e.LooksUp id l) (ms : List Move) :
    (e.follow ms).LooksUp id l :=
  orderly_induction (P := (·.LooksUp id l)) (fun _ m hr h => h.move hr m) hl h.orderly ms

/-- What was recorded was recorded of one move. -/
theorem recorded_of_follow {h : Happening} {ms : List Move} (hnone : h ∉ e.happenings)
    (hmem : h ∈ (e.follow ms).happenings) :
    ∃ before m after, ms = before ++ m :: after ∧ h ∈ (e.follow before).records m := by
  induction ms generalizing e with
  | nil => exact absurd hmem hnone
  | cons m ms ih =>
    by_cases hnew : h ∈ e.records m
    · exact ⟨[], m, ms, rfl, hnew⟩
    · have hnone' : h ∉ (e.move m).happenings := by
        rw [move_happenings, List.mem_append]
        exact not_or.2 ⟨hnone, hnew⟩
      obtain ⟨before, m', after, rfl, hrecorded⟩ := ih hnone' hmem
      exact ⟨m :: before, m', after, rfl, hrecorded⟩

/-- What a caller is told, it is told by a move after its call. -/
theorem Accounted.told_of_call (h : e.Accounted) {ms : List Move} {res : Except RequestError Finding}
    (hfound : .found e.nextTask res ∈ ((e.move (.obey (.lookup l))).follow ms).happenings) :
    ∃ before m after, ms = before ++ m :: after ∧
      .found e.nextTask res ∈ ((e.move (.obey (.lookup l))).follow before).records m := by
  refine recorded_of_follow (fun hmem => ?_) hfound
  rw [move_happenings] at hmem
  rcases List.mem_append.1 hmem with hold | hnew
  · exact Nat.lt_irrefl _ ((h.heard _).ended hold).1
  · cases hnew

/-- What a caller found are categories that came back from a request for them; a request for their
parameters too, if these are asked for. -/
def Obtained (e : Engine) (system : SystemId) (withParameters : Bool) (f : Finding) : Prop :=
  ∃ withParameters' cs c body, f = .categories cs ∧ (withParameters = true → withParameters' = true) ∧
    e.CameFor c (.getCategories system withParameters') body ∧
    Response.categories.decode body = .ok cs

theorem Obtained.move (h : e.Obtained system withParameters f) (m : Move) :
    (e.move m).Obtained system withParameters f := by
  obtain ⟨q, cs, c, body, hf, hq, hcame, hcs⟩ := h
  exact ⟨q, cs, c, body, hf, hq, hcame.move m, hcs⟩

/-- Categories that a caller is told are obtained by itself, or were when they got into the table. -/
theorem Accounted.obtained_of_records (h : e.Accounted)
    (hl : e.LooksUp id (.categories system withParameters)) (hmem : .found id (.ok f) ∈ e.records m) :
    e.Obtained system withParameters f := by
  obtain ⟨rfl, ⟨l, hready, hcached⟩ | ⟨l, body, hready, hread⟩⟩ := found_cases hmem
  · cases hl.asked (duty?_of_ready? hready)
    obtain ⟨cs, hfound, rfl⟩ := Option.map_eq_some_iff.1 hcached
    obtain ⟨q, hlisting, hq⟩ := SystemTable.categories?_eq_some.1 hfound
    obtain ⟨c, body, hcame, hcs⟩ := h.kept hlisting
    exact ⟨q, cs, c, body, rfl, hq, hcame, hcs⟩
  · cases hl.asked (duty?_of_ready? hready)
    obtain ⟨cs, hcs, rfl, -⟩ := Lookup.listing?_of_read hread
    exact ⟨withParameters, cs, id, body, rfl, fun hp => hp,
      h.answered (duty?_of_ready? hready), hcs⟩

/-- Whatever a caller is told of the categories of a system was obtained. -/
theorem Accounted.obtained_of_call (h : e.Accounted) {ms : List Move}
    (hfound : .found e.nextTask (.ok f) ∈
      (e.follow (.obey (.lookup (.categories system withParameters)) :: ms)).happenings) :
    (e.follow (.obey (.lookup (.categories system withParameters)) :: ms)).Obtained system
      withParameters f := by
  obtain ⟨before, m, after, rfl, hnew⟩ := h.told_of_call hfound
  have hcall := h.move (.obey (.lookup (.categories system withParameters)))
  have hl := hcall.looksUp_follow (e.looksUp_call _) before
  have hobtained := (hcall.follow before).obtained_of_records hl hnew
  rw [follow_cons, follow_append]
  exact follow_induction (P := (·.Obtained system withParameters f)) (fun _ m h => h.move m)
    hobtained (m :: after)

end Engine

end HeatWatch
