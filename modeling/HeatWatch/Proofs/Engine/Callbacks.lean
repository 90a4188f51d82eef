import HeatWatch.Proofs.Engine.Callers
import HeatWatch.Proofs.Engine.Wakes
import HeatWatch.Proofs.Table.Capabilities

/-!
# What listeners are told

A request from the queue that no caller waits for and that comes to an end with success is told to the
listener that its system has at that time, if its kind and the body say anything. Listeners are told
nothing else. Main statements:

* `decode_news`, `deliver_callbacks`: what a body says, and who is told;
* `agreed_move`: the records of the table have the capabilities that are kept, in every run;
* `relays_completions`: the callbacks of a run are those of the requests that were completed in it, in
  their order.
-/

namespace HeatWatch

/-! ## One result -/

/-- A record with what the table keeps of its system: what that is able to do. -/
def SystemTable.complete (t : SystemTable) (s : System) : System :=
  { s with capabilities := t.capabilities? s.id }

/-- What a listener is told of the body of a response, if the body can be read and says anything: the
value in it, where the record of a system is shown as `shown` has it. -/
def Request.news? (shown : System → System) (body : String) : Request → Option Update
  | .getSystem _ => (Response.system.decode body).toOption.map fun s => .system (shown s)
  | .getStatus _ => (Response.status.decode body).toOption.map .status
  | .getSoftware _ => (Response.software.decode body).toOption.map .software
  | .getAlarm _ => (decodeLatestAlarm body).toOption.map .alarm
  | .getParameters .. => (Response.parameters.decode body).toOption.map .parameters
  | .setParameters .. =>
    if Dispatch.isBlankBody body then none else (decodeWrites body).toOption.map .parameters
  | .getMode _ => (Response.mode.decode body).toOption.map .mode
  | .setMode .. =>
    if Dispatch.isBlankBody body then none else (Response.mode.decode body).toOption.map .mode
  | .listSystems | .getConfig _ | .getCategories .. | .upsertThermostat .. => none

/-- A request without a caller that came to an end with success: when, what the table kept at that
time, the task that made it, and the body of the response. -/
structure Completion where
  time : Nat
  table : SystemTable
  task : TaskId
  request : Request
  body : String

/-- The callback that belongs to it: on the listener of its system, if there is one and anything to
tell it. -/
def Completion.callback? (shown : SystemTable → System → System) (c : Completion) :
    Option Happening :=
  c.request.target?.bind fun id => (c.table.listener? id).bind fun l =>
    (c.request.news? (shown c.table) c.body).map (.callback l id)

/-- The callback, and when it is made. -/
def Completion.event? (shown : SystemTable → System → System) (c : Completion) : Option Event :=
  (c.callback? shown).map (⟨c.time, ·⟩)

/-- The request and the body, if it was completed by this task. -/
def Completion.by? (id : TaskId) (c : Completion) : Option (Request × String) :=
  if c.task = id then some (c.request, c.body) else none

namespace Dispatch

variable {t : SystemTable} {body : String}

/-- What is read from a body is what it says; to the record of a system the table adds what that is
able to do. -/
theorem decode_news (h : t.Agreed) (r : Request) (body : String) :
    (decode t r body).toOption.bind (·.1) = r.news? t.complete body := by
  have hshown : ∀ {α : Type} (x : Except ParseError α) (g : α → Update),
      ((fun a => (some (g a), t)) <$> x).toOption.bind (·.1) = x.toOption.map g := by
    intro α x g
    cases x <;> rfl
  have hquiet : ∀ {α : Type} (x : Except ParseError α) (f : α → SystemTable),
      ((fun a => ((none : Option Update), f a)) <$> x).toOption.bind (·.1) = none := by
    intro α x f
    cases x <;> rfl
  unfold decode Request.news?
  cases r with
  | getSystem id =>
    dsimp only
    cases hs : Response.system.decode body with
    | error f => rfl
    | ok s =>
      show some (Update.system (t.updateSystem s).1) = some (.system (t.complete s))
      rw [SystemTable.updateSystem_of_agreed h (capabilities_of_system hs)]
      rfl
  | listSystems | getConfig | getCategories => exact hquiet _ _
  | getStatus | getSoftware | getAlarm | getParameters | getMode => exact hshown _ _
  | setParameters | setMode =>
    dsimp only
    split
    · rfl
    · exact hshown _ _
  | upsertThermostat => rfl

/-- A listener is told a result once. -/
theorem receive_callbacks (l : Listener) (id : SystemId) (u : Update) :
    (l.receive id u).filterMap Notice.callback? = [.callback l id u] := by
  cases l with
  | silent | named => rfl
  | logging =>
    have hlog : ((u.logLines id).map Notice.log).filterMap Notice.callback? = [] := by
      rw [List.filterMap_map]
      exact List.filterMap_eq_nil_iff.2 fun _ _ => rfl
    exact congrArg (Happening.callback .logging id u :: ·) hlog

/-- The callbacks of a delivery: one at most, on the listener of the system that the request is aimed
at. -/
theorem deliver_callbacks (h : t.Agreed) (r : Request) (body : String) (time : Nat) (task : TaskId) :
    (deliver t r body).2.filterMap Notice.callback? =
      ((Completion.mk time t task r body).callback? SystemTable.complete).toList := by
  have hnews := decode_news h r body
  unfold Completion.callback?
  dsimp only
  rw [← hnews]
  -- without news there is no callback, whoever listens
  have hnone : (r.target?.bind fun id => (t.listener? id).bind fun l =>
      (none : Option Update).map (Happening.callback l id)) = none := by
    cases r.target? with
    | none => rfl
    | some id =>
      show ((t.listener? id).bind fun _ => none) = none
      cases t.listener? id <;> rfl
  unfold deliver
  cases hd : decode t r body with
  | error f => exact (congrArg Option.toList hnone).symm
  | ok result =>
    obtain ⟨u, t'⟩ := result
    cases u with
    | none => exact (congrArg Option.toList hnone).symm
    | some u =>
      cases r.target? with
      | none => rfl
      | some id =>
        have hlistener : t'.listener? id = t.listener? id :=
          congrArg (·.listener) (decode_hosted hd id)
        dsimp only
        rw [hlistener, Option.bind_some]
        cases t.listener? id with
        | none => rfl
        | some l => exact receive_callbacks l id u

end Dispatch

/-! ## Requests that come to an end -/

/-- The request and the body of a success that no caller waits for. -/
def Purpose.success? : Purpose → Except RequestError String → Option (Request × String)
  | .entry _ x, r => if x.caller.isNone then r.toOption.map (x.request, ·) else none
  | .probe .., _ | .lookup _, _ => none

/-- The success that a task has to hand on. -/
def Duty.success? : Duty → Option (Request × String)
  | .conclude p r => p.success? r
  | _ => none

/-- The success with which a task left the line. -/
def Happening.success? (id : TaskId) : Happening → Option (Request × String)
  | .exchanged task p r => if task = id then p.success? r else none
  | _ => none

/-- A listener is told something. -/
def Happening.isCallback : Happening → Bool
  | .callback .. => true
  | _ => false

/-- What a listener is told that a system is able to do. -/
def Happening.capabilities? : Happening → Option Capabilities
  | .callback _ _ (.system s) => s.capabilities
  | _ => none

theorem Purpose.success?_iff {p : Purpose} {r : Except RequestError String} {request : Request}
    {body : String} : p.success? r = some (request, body) ↔
      ∃ run x, p = .entry run x ∧ x.caller = none ∧ x.request = request ∧ r = .ok body := by
  constructor
  · intro h
    cases p with
    | entry run x =>
      unfold success? at h
      dsimp only at h
      split at h
      case isTrue hcaller =>
        cases r with
        | error f => cases h
        | ok body' =>
          cases h
          exact ⟨run, x, rfl, Option.isNone_iff_eq_none.1 hcaller, rfl, rfl⟩
      case isFalse => cases h
    | probe | lookup => cases h
  · rintro ⟨run, x, rfl, hcaller, rfl, rfl⟩
    unfold success?
    dsimp only
    rw [hcaller]
    rfl

/-- The success with which a task at a point leaves the line. -/
def Duty.gains? (e : Engine) : Duty → Option (Request × String)
  | .exchange p s => (e.result? (.exchange p s)).bind p.success?
  | _ => none

namespace Engine

variable {e : Engine} {id : TaskId} {d : Duty} {m : Move}

/-- The success that a task still has to hand on. -/
def pending? (e : Engine) (id : TaskId) : Option (Request × String) := (e.duty? id).bind Duty.success?

/-- What a move completes. -/
def completes? (e : Engine) : Move → Option Completion
  | .act id => ((e.ready? id).bind Duty.success?).map fun p => ⟨e.clock, e.table, id, p.1, p.2⟩
  | _ => none

/-- What is completed in a run, in its order. -/
def completions (e : Engine) : List Move → List Completion
  | [] => []
  | m :: ms => (e.completes? m).toList ++ (e.move m).completions ms

/-- What a task completes in a run. -/
def completedBy (e : Engine) (ms : List Move) (id : TaskId) : List (Request × String) :=
  (e.completions ms).filterMap (Completion.by? id)

/-- The callbacks so far. -/
def callbacks (e : Engine) : List Event := e.chronicle.filter (·.what.isCallback)

/-- The successes with which a task left the line so far. -/
def successes (e : Engine) (id : TaskId) : List (Request × String) :=
  e.happenings.filterMap (Happening.success? id)

theorem completes?_of_ready (hready : e.ready? id = some d) : e.completes? (.act id) =
    d.success?.map fun p => ⟨e.clock, e.table, id, p.1, p.2⟩ := by
  show ((e.ready? id).bind Duty.success?).map _ = _
  rw [hready]
  rfl

theorem completes?_of_not_ready (hready : e.ready? id = none) : e.completes? (.act id) = none := by
  show ((e.ready? id).bind Duty.success?).map _ = _
  rw [hready]
  rfl

/-! ## The table -/

theorem agreed_tabled {t : SystemTable} (h : t.Agreed) (c : Command) : (c.tabled t).Agreed := by
  cases c with
  | addListener | setMode | setThermostat | addTracked => exact h.modify fun _ he => he
  | removeListener | removeTracked =>
    unfold Command.tabled SystemTable.removeListener SystemTable.removeTracked
    dsimp only
    split
    · exact h.modify fun _ he => he
    · exact h
  | removeThermostat =>
    unfold Command.tabled SystemTable.removeThermostat
    dsimp only
    split
    · exact h.modify fun _ he => he
    · exact h
  | lookup | requestSystem | requestStatus | requestAlarm | requestSoftware | requestMode
  | requestParameters | setParameters | setUpdateInterval | setSoftwareDays | shutdown => exact h

/-- The record of each system has the capabilities that are kept for the system. -/
theorem agreed_move (h : e.table.Agreed) (m : Move) : (e.move m).table.Agreed := by
  rw [move_table]
  cases m with
  | obey c => exact agreed_tabled h c
  | elapse | pass | plan => exact h
  | act id =>
    show ((e.ready? id).elim e.table (·.tabled e)).Agreed
    cases e.ready? id with
    | none => exact h
    | some d =>
      show (d.tabled e).Agreed
      unfold Duty.tabled
      split
      case h_1 x body =>
        split
        · exact h.deliver x.request
        · exact h
      case h_2 body =>
        cases hss : Response.systems.decode body with
        | error => exact h
        | ok ss => exact h.mergeSystems fun s hs => capabilities_of_systems hss hs
      case h_3 l body =>
        cases hl : l.read e.table body with
        | error => exact h
        | ok found => exact h.read hl
      case h_4 => exact h

/-! ## Callbacks -/

/-- The callbacks of a task at a point are those of the success that it hands on. -/
theorem records_callbacks (h : e.table.Agreed) (d : Duty) :
    (d.records e id).filter Happening.isCallback = (d.success?.bind fun p =>
      (Completion.mk e.clock e.table id p.1 p.2).callback? SystemTable.complete).toList := by
  cases hs : d.success? with
  | some p =>
    obtain ⟨request, body⟩ := p
    cases d with
    | conclude p r =>
      obtain ⟨run, x, rfl, hcaller, rfl, rfl⟩ := Purpose.success?_iff.1 hs
      have hrecords : (Duty.conclude (.entry run x) (.ok body)).records e id =
          (Dispatch.deliver e.table x.request body).2.filterMap Notice.callback? :=
        if_pos (by rw [hcaller]; rfl)
      rw [hrecords, Dispatch.deliver_callbacks h x.request body e.clock id]
      refine List.filter_eq_self.2 fun a ha => ?_
      obtain ⟨s, -, ha⟩ := Option.bind_eq_some_iff.1 (Option.mem_toList.1 ha)
      obtain ⟨l, -, ha⟩ := Option.bind_eq_some_iff.1 ha
      obtain ⟨u, -, rfl⟩ := Option.map_eq_some_iff.1 ha
      rfl
    | take | startPoll | poll | startProbe | probe | consult | route | submit | await | exchange =>
      cases hs
  | none =>
    refine List.filter_eq_nil_iff.2 fun a ha hcallback => ?_
    cases notes_of_mem_records ha with
    | @callback run x body l s u hcaller =>
      cases hs.symm.trans (Purpose.success?_iff.2 ⟨run, x, rfl, hcaller, rfl, rfl⟩)
    | polled | cached | joined | sent | received | exchanged | outage | recovered | answered =>
      cases hcallback

/-- A move makes the callbacks of what it completes. -/
theorem move_callbacks (h : e.table.Agreed) (m : Move) : (e.move m).callbacks =
    e.callbacks ++ (e.completes? m).toList.filterMap (Completion.event? SystemTable.complete) := by
  have hmade : ∀ hs : List Happening, (hs.map (Event.mk e.clock)).filter (·.what.isCallback) =
      (hs.filter Happening.isCallback).map (Event.mk e.clock) := fun hs => List.filter_map
  unfold callbacks
  rw [move_chronicle, List.filter_append, hmade]
  congr 1
  cases m with
  | obey | elapse | pass | plan => rfl
  | act id =>
    cases hready : e.ready? id with
    | none =>
      rw [records_of_not_ready hready, completes?_of_not_ready hready]
      rfl
    | some d =>
      rw [records_of_ready hready, completes?_of_ready hready, records_callbacks h]
      cases d.success? with
      | none => rfl
      | some p =>
        rw [Option.map_some, Option.toList_some, List.filterMap_cons, List.filterMap_nil,
          Completion.event?, Option.bind_some]
        cases Completion.callback? _ _ <;> rfl

/-! ## Successes -/

/-- A success is handed on at once. -/
def Swift (e : Engine) : Prop := ∀ {id run x r}, e.duty? id = some (.conclude (.entry run x) r) →
  e.ready? id = some (.conclude (.entry run x) r)

theorem Swift.move (h : e.Swift) (hk : e.Known) (m : Move) : (e.move m).Swift := by
  intro id run x r hd
  by_cases hm : m = .act id
  · subst hm
    cases hready : e.ready? id with
    | none =>
      rw [move_of_not_ready hready] at hd ⊢
      exact h hd
    | some d =>
      rw [move_own hk hready] at hd
      rcases result_of_next hd with ⟨s, rfl, hr⟩ | ⟨l, -, heq, -⟩
      · exact ready?_of_result? hready hr
      · cases heq
  · rcases move_duty hk hm hd with ⟨d, hd', hpass⟩ | ⟨-, hbegins⟩
    · cases hpass with
      | refl => exact ready?_move_of_other hk hm (h hd') nofun
    · rcases hbegins.cases with ⟨l, -, heq⟩ | ⟨run, heq⟩ | ⟨permit, p, delay, period, heq⟩ |
        ⟨outage, heq⟩ <;> cases heq

/-- Others do not change what a task has to hand on. -/
theorem pending?_of_other (hk : e.Known) (hm : m ≠ .act id) :
    (e.move m).pending? id = e.pending? id := by
  unfold pending?
  cases hd : e.duty? id with
  | some d =>
    obtain ⟨d', hd', hpass⟩ := move_duty_of hk hm hd
    rw [hd']
    cases hpass <;> rfl
  | none =>
    cases hd' : (e.move m).duty? id with
    | none => rfl
    | some d' =>
      rcases move_duty hk hm hd' with ⟨d, hd₁, -⟩ | ⟨-, hbegins⟩
      · cases hd.symm.trans hd₁
      · rcases hbegins.cases with ⟨l, -, rfl⟩ | ⟨run, rfl⟩ | ⟨permit, p, delay, period, rfl⟩ |
          ⟨outage, rfl⟩ <;> rfl

/-- What a task leaves the line with is recorded. -/
theorem records_successes (d : Duty) :
    (d.records e id).filterMap (Happening.success? id) = (d.gains? e).toList := by
  cases d with
  | exchange p s =>
    have hrecords : (Duty.exchange p s).records e id =
        s.records e id p ++ ((e.result? (.exchange p s)).map (.exchanged id p)).toList := rfl
    have hstage : (s.records e id p).filterMap (Happening.success? id) = [] := by
      refine List.filterMap_eq_nil_iff.2 fun h hmem => ?_
      cases s with
      | join | receive =>
        cases List.mem_singleton.1 hmem
        rfl
      | send =>
        obtain ⟨token, -, rfl⟩ := Option.map_eq_some_iff.1 (Option.mem_toList.1 hmem)
        rfl
    rw [hrecords, List.filterMap_append, hstage, List.nil_append]
    unfold Duty.gains?
    dsimp only
    cases e.result? (.exchange p s) with
    | none => rfl
    | some r =>
      show [Happening.exchanged id p r].filterMap (Happening.success? id) = (p.success? r).toList
      have hown : Happening.success? id (.exchanged id p r) = p.success? r := if_pos rfl
      rw [List.filterMap_cons, List.filterMap_nil, hown]
      cases p.success? r <;> rfl
  | take | startPoll | poll | startProbe | probe | consult | route | submit | await | conclude =>
    refine List.filterMap_eq_nil_iff.2 fun h hmem => ?_
    cases notes_of_mem_records hmem <;> rfl

/-- What a task leaves the line with is what it has to hand on next. -/
theorem success?_of_next (d : Duty) : (d.next e).bind Duty.success? = d.gains? e := by
  cases d with
  | exchange p s =>
    unfold Duty.gains?
    dsimp only
    cases hr : e.result? (.exchange p s) with
    | none =>
      rw [Duty.next_of_none hr]
      rfl
    | some r =>
      rw [Duty.next_of_result hr]
      rfl
  | take | startPoll | poll | startProbe | probe | consult | route | submit | await | conclude =>
    refine Option.eq_none_iff_forall_ne_some.2 fun x hx => ?_
    obtain ⟨d', hnext, hd'⟩ := Option.bind_eq_some_iff.1 hx
    cases d' with
    | conclude p r =>
      rcases result_of_next hnext with ⟨s, heq, -⟩ | ⟨l, -, rfl, -⟩
      · cases heq
      · cases hd'
    | take | startPoll | poll | startProbe | probe | consult | route | submit | await | exchange =>
      cases hd'

/-- Other moves are not about the successes of a task. -/
theorem successes_of_other (hm : m ≠ .act id) :
    (e.records m).filterMap (Happening.success? id) = [] ∧
      (e.completes? m).toList.filterMap (Completion.by? id) = [] := by
  refine ⟨List.filterMap_eq_nil_iff.2 fun h hmem => ?_,
    List.filterMap_eq_nil_iff.2 fun c hc => ?_⟩
  · obtain ⟨id', d, rfl, hready, hnotes⟩ := notes_of_move hmem
    have hne : id' ≠ id := fun heq => hm (heq ▸ rfl)
    cases hnotes with
    | exchanged => exact if_neg hne
    | polled | cached | joined | sent | received | callback | outage | recovered | answered => rfl
  · cases m with
    | act id' =>
      obtain ⟨p, -, rfl⟩ := Option.map_eq_some_iff.1 (Option.mem_toList.1 hc)
      exact if_neg fun heq : id' = id => hm (heq ▸ rfl)
    | obey | elapse | pass | plan => cases hc

/-- Whatever a task leaves the line with it hands on before the next one. -/
theorem move_successes (hk : e.Known) (m : Move) (id : TaskId) :
    (e.pending? id).toList ++ (e.records m).filterMap (Happening.success? id) =
      (e.completes? m).toList.filterMap (Completion.by? id) ++ ((e.move m).pending? id).toList := by
  by_cases hm : m = .act id
  · subst hm
    cases hready : e.ready? id with
    | none =>
      rw [records_of_not_ready hready, completes?_of_not_ready hready, move_of_not_ready hready]
      exact List.append_nil _
    | some d =>
      have hpending : e.pending? id = d.success? :=
        congrArg (Option.bind · Duty.success?) (duty?_of_ready? hready)
      have hpending' : (e.move (.act id)).pending? id = d.gains? e :=
        (congrArg (Option.bind · Duty.success?) (move_own hk hready)).trans (success?_of_next d)
      rw [records_of_ready hready, completes?_of_ready hready, records_successes, hpending, hpending']
      congr 1
      cases d.success? with
      | none => rfl
      | some p =>
        have hown : Completion.by? id ⟨e.clock, e.table, id, p.1, p.2⟩ = some p := if_pos rfl
        show [p] = [Completion.mk e.clock e.table id p.1 p.2].filterMap (Completion.by? id)
        rw [List.filterMap_cons_some hown]
        rfl
  · obtain ⟨hquiet, hother⟩ := successes_of_other (e := e) hm
    rw [hquiet, hother, pending?_of_other hk hm]
    exact List.append_nil _

/-! ## Runs -/

theorem follow_callbacks (h : e.table.Agreed) (ms : List Move) : (e.follow ms).callbacks =
    e.callbacks ++ (e.completions ms).filterMap (Completion.event? SystemTable.complete) := by
  induction ms generalizing e with
  | nil => exact (List.append_nil _).symm
  | cons m ms ih =>
    show ((e.move m).follow ms).callbacks =
      e.callbacks ++ ((e.completes? m).toList ++ (e.move m).completions ms).filterMap _
    rw [ih (agreed_move h m), move_callbacks h, List.filterMap_append, List.append_assoc]

theorem follow_successes (hr : e.roster.Orderly) {done : List (Request × String)}
    (h : e.successes id = done ++ (e.pending? id).toList) (ms : List Move) :
    (e.follow ms).successes id =
      done ++ e.completedBy ms id ++ ((e.follow ms).pending? id).toList := by
  induction ms generalizing e done with
  | nil =>
    rw [show e.completedBy [] id = [] from rfl, List.append_nil]
    exact h
  | cons m ms ih =>
    have hone : e.completedBy (m :: ms) id =
        (e.completes? m).toList.filterMap (Completion.by? id) ++ (e.move m).completedBy ms id :=
      List.filterMap_append
    have hnext : (e.move m).successes id =
        (done ++ (e.completes? m).toList.filterMap (Completion.by? id)) ++
          ((e.move m).pending? id).toList := by
      unfold successes
      rw [move_happenings, List.filterMap_append]
      show e.successes id ++ _ = _
      rw [h, List.append_assoc, move_successes (known_of_orderly hr), List.append_assoc]
    rw [follow_cons, ih ((move_evolves hr m).orderly hr) hnext, hone, List.append_assoc done]

/-- What listeners are told in a run, where they are shown the record of a system as `shown` has it. -/
structure Relays (shown : SystemTable → System → System) (e : Engine) (ms : List Move) : Prop where
  /-- The callbacks are those of what is completed, in its order, and there are no others. -/
  callbacks : (e.follow ms).callbacks = (e.completions ms).filterMap (Completion.event? shown)
  /-- A task completes what it leaves the line with, in this order: all successes of requests that no
  caller waits for. The last one it may still have to hand on. -/
  successes : ∀ id, (e.follow ms).successes id =
    e.completedBy ms id ++ ((e.follow ms).pending? id).toList
  /-- Then it is ready to. -/
  swift : ∀ id p, (e.follow ms).pending? id = some p →
    ((e.follow ms).ready? id).bind Duty.success? = some p

/-- Listeners are told what is completed and nothing else. The value that they are told is the one in
the body, but for the record of a system, which gets what the system is able to do from the table. -/
theorem relays_completions (settings : EngineSettings) (service : Service) (observer : Option Observer)
    (script : Script) (ms : List Move) :
    (start settings service observer script).Relays SystemTable.complete ms := by
  have hr : (start settings service observer script).roster.Orderly := start_orderly ..
  have hswift : ((start settings service observer script).follow ms).Swift :=
    orderly_induction (P := Swift) (fun _ m hr h => h.move (known_of_orderly hr) m)
      (fun hd => by cases hd) hr ms
  refine ⟨follow_callbacks SystemTable.agreed_empty ms, fun id => ?_, fun id ⟨request, body⟩ hp => ?_⟩
  · have hnone : (start settings service observer script).successes id =
        [] ++ ((start settings service observer script).pending? id).toList := rfl
    exact follow_successes hr hnone ms
  · obtain ⟨d, hd, hsuccess⟩ := Option.bind_eq_some_iff.1 hp
    cases d with
    | conclude q r =>
      obtain ⟨run, x, rfl, -⟩ := Purpose.success?_iff.1 hsuccess
      rw [hswift hd]
      exact hsuccess
    | take | startPoll | poll | startProbe | probe | consult | route | submit | await | exchange =>
      cases hsuccess

/-- The record of a system alone is not what its listener is told: the service says what the system is
able to do in the answer to a lookup, and the callback for the record says so too. -/
theorem not_relays_record :
    let settings := { EngineSettings.default with updateInterval := 0, softwareDays := 0 }
    let config := "\x7b\"hasHeating\":true\x7d"
    let record := "\x7b\"systemId\":1,\"name\":\"Villa\",\"connectionStatus\":\"ONLINE\"\x7d"
    let s := start settings ⟨"http://localhost", 1000⟩ none
      ⟨[some ⟨0, .ok ⟨200, config⟩⟩, some ⟨0, .ok ⟨200, record⟩⟩], [], [], 0, 0⟩
    let ms : List Move := [.obey (.lookup (.capabilities ⟨1⟩)), .act 0, .act 0, .act 0, .act 0, .act 0,
      .act 0, .obey (.addListener ⟨1⟩ (.named "a")), .obey (.requestSystem ⟨1⟩), .act 1, .act 1,
      .act 1, .act 1, .act 1]
    ¬ s.Relays (fun _ r => r) ms := by
  intro settings config record s ms h
  have htold : (s.follow ms).callbacks.map (·.what.capabilities?) =
      [some ⟨false, true, false, false⟩] := by decide +kernel
  have hread : ((s.completions ms).filterMap (Completion.event? fun _ r => r)).map
      (·.what.capabilities?) = [none] := by decide +kernel
  rw [h.callbacks, hread] at htold
  cases htold

end Engine

end HeatWatch
