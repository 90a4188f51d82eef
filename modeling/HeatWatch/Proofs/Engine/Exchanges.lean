import HeatWatch.Proofs.Engine.Wire
import HeatWatch.Proofs.Exchange.Dealings

/-!
# Exchanges one after the other

With no run and no other task, the caller of an exchange is the only one who acts. The engine then goes
through the points of that one task, and what it does on the way are the dealings of an exchange. Main
statements:

* `serving_send`, `serving_receive`: what a call needs and what is made of it;
* `exchange_serving`: a whole exchange, from the line to its result;
* `exchangeEach_exchanges`: each request has its exchange, and its caller the result.
-/

namespace HeatWatch

/-! ## Maps with one key -/

theorem SortedMap.insert_insert {κ α : Type} [Ranked κ] (m : SortedMap κ α) (k : κ) (v v' : α) :
    (m.insert k v).insert k v' = m.insert k v' := by
  refine ext_get? fun k' => ?_
  rw [get?_insert, get?_insert, get?_insert]
  split <;> rfl

theorem SortedMap.erase_insert {κ α : Type} [Ranked κ] {m : SortedMap κ α} {k : κ}
    (h : m.get? k = none) (v : α) : (m.insert k v).erase k = m := by
  refine ext_get? fun k' => ?_
  rw [get?_erase, get?_insert]
  split
  case isTrue hk => rw [← rank_inj hk, h]
  case isFalse => rfl

/-! ## Records -/

/-- The call that a task starts. -/
def Happening.call? (v : Service) : Happening → Option Call
  | .sent _ p token => some (v.call p.request token)
  | _ => none

/-- What a caller is told. -/
def Happening.answer? : Happening → Option (TaskId × Except RequestError Finding)
  | .found id r => some (id, r)
  | _ => none

namespace Engine

/-- The calls that were made, the earliest first. -/
def callsMade (e : Engine) : List Call := e.happenings.filterMap (Happening.call? e.service)

/-- What callers were told, the earliest first. -/
def answers (e : Engine) : List (TaskId × Except RequestError Finding) :=
  e.happenings.filterMap Happening.answer?

variable (e : Engine)

theorem happenings_record (h : Happening) :
    (e.record h).happenings = e.happenings ++ if h.isLog then [] else [h] := by
  unfold happenings chronicle annals record
  simp only [List.reverse_cons, List.filter_append, List.map_append]
  cases hlog : h.isLog with
  | false => rw [List.filter_cons_of_pos (by simp [hlog])]; rfl
  | true => rw [List.filter_cons_of_neg (by simp [hlog])]; rfl

theorem callsMade_record (h : Happening) :
    (e.record h).callsMade = e.callsMade ++ (h.call? e.service).toList := by
  unfold callsMade
  rw [happenings_record, List.filterMap_append]
  cases h <;> rfl

theorem answers_record (h : Happening) :
    (e.record h).answers = e.answers ++ h.answer?.toList := by
  unfold answers
  rw [happenings_record, List.filterMap_append]
  cases h <;> rfl

/-! ## Several steps -/

/-- One engine comes from another in at most so many steps. -/
def Within (limit : Nat) (bound : Nat) (e e' : Engine) : Prop :=
  ∃ n ≤ bound, ∀ fuel, steps limit (fuel + n) e = steps limit fuel e'

theorem Within.refl (limit bound : Nat) (e : Engine) : Within limit bound e e :=
  ⟨0, Nat.zero_le bound, fun _ => rfl⟩

theorem Within.step {limit : Nat} {e e' : Engine} (h : e.step? limit = some e') :
    Within limit 1 e e' := by
  refine ⟨1, Nat.le_refl 1, fun fuel => ?_⟩
  rw [steps, h]

theorem Within.trans {limit bound bound' : Nat} {e e' e'' : Engine} (h : Within limit bound e e')
    (h' : Within limit bound' e' e'') : Within limit (bound + bound') e e'' := by
  obtain ⟨n, hn, heq⟩ := h
  obtain ⟨n', hn', heq'⟩ := h'
  refine ⟨n + n', Nat.add_le_add hn hn', fun fuel => ?_⟩
  rw [← heq', ← heq, Nat.add_assoc, Nat.add_comm n' n]

theorem Within.mono {limit bound bound' : Nat} {e e' : Engine} (h : Within limit bound e e')
    (hle : bound ≤ bound') : Within limit bound' e e' := by
  obtain ⟨n, hn, heq⟩ := h
  exact ⟨n, Nat.le_trans hn hle, heq⟩

/-- An engine that nothing happens to stays as it is. -/
theorem steps_of_idle {limit : Nat} {e : Engine} (h : e.step? limit = none) (fuel : Nat) :
    steps limit fuel e = e := by
  cases fuel with
  | zero => rfl
  | succ fuel => rw [steps, h]

/-- What comes after so few steps, and then nothing, is what comes of the work until the time. -/
theorem Within.work {limit bound : Nat} {e e' : Engine} (h : Within limit bound e e')
    (hbound : bound ≤ e.stepBound limit) (hidle : e'.step? limit = none) : e.work limit = e' := by
  obtain ⟨n, hn, heq⟩ := h
  unfold Engine.work
  rw [← Nat.sub_add_cancel (Nat.le_trans hn hbound), heq]
  exact steps_of_idle hidle _

/-! ## One task alone -/

/-- No task is there, and no run in which there could be one. -/
structure AtRest (e : Engine) : Prop where
  tasks : e.tasks = ∅
  line : e.line = []
  phase : e.phase.isActive = false

/-- Then nothing happens. -/
theorem AtRest.step? {e : Engine} (h : e.AtRest) (limit : Nat) : e.step? limit = none := by
  have hentries : e.tasks.entries = [] := congrArg SortedMap.entries h.tasks
  unfold Engine.step? next? nextDue?
  rw [hentries]
  rfl

/-- The engine with one more task, which is the only one, at a point. -/
def serving (e : Engine) (line : List TaskId) (d : Duty) (w : Wait) : Engine :=
  { e with
    line := line
    tasks := (∅ : SortedMap TaskId Task).insert e.nextTask ⟨d, w⟩
    nextTask := e.nextTask + 1 }

variable {e} {line : List TaskId} {d d' : Duty} {w : Wait} {n limit : Nat}

theorem serving_task? : (e.serving line d w).task? e.nextTask = some ⟨d, w⟩ := by
  show ((∅ : SortedMap TaskId Task).insert e.nextTask ⟨d, w⟩).get? e.nextTask = _
  rw [SortedMap.get?_insert, if_pos rfl]

theorem serving_park {w' : Wait} :
    (e.serving line d w).park e.nextTask d' w' = e.serving line d' w' := by
  unfold park serving
  rw [SortedMap.insert_insert]

theorem serving_proceed :
    (e.serving line d w).proceed e.nextTask d' = e.serving line d' w := by
  have htask : (e.serving line d w).tasks.get? e.nextTask = some ⟨d, w⟩ := serving_task?
  unfold proceed
  rw [htask]
  exact serving_park

/-- The one task acts when it is ready. -/
theorem serving_step : (e.serving line d (.ready n)).step? limit =
    some ((e.serving line d (.ready n)).perform e.nextTask d) := by
  have hready : (e.serving line d (.ready n)).ready? e.nextTask = some d :=
    ready?_eq_some.2 ⟨n, serving_task?⟩
  rw [← act_of_ready hready]
  rfl

/-- Time goes on to the time that the one task waits for. -/
theorem serving_alarm {due : Nat} (hdue : due ≤ limit) :
    (e.serving line d (.alarm due n)).step? limit =
      some ({ e with clock := due }.serving line d (.ready n)) := by
  have hring : ring due ⟨d, .alarm due n⟩ = ⟨d, .ready n⟩ := if_pos (Nat.le_refl due)
  have htasks : ((∅ : SortedMap TaskId Task).insert e.nextTask ⟨d, .alarm due n⟩).map (ring due) =
      (∅ : SortedMap TaskId Task).insert e.nextTask ⟨d, .ready n⟩ := by
    refine SortedMap.ext_get? fun id => ?_
    rw [SortedMap.get?_map, SortedMap.get?_insert, SortedMap.get?_insert, ← hring]
    split <;> rfl
  show (if due ≤ limit then some ((e.serving line d (.alarm due n)).elapse due) else none) = _
  rw [if_pos hdue]
  unfold elapse serving
  rw [htasks]

/-- The one task goes on after a wait. -/
theorem serving_sleep (line : List TaskId) (d d' : Duty) (n : Nat) {wait : Nat}
    (hwait : wait ≤ longestWait) (hlimit : e.clock + wait ≤ limit) :
    ∃ turn m, Within limit 1 ((e.serving line d (.ready n)).sleep e.nextTask d' (e.after wait))
      ({ e with clock := e.clock + wait, turn }.serving line d' (.ready m)) := by
  have hafter : e.after wait = e.clock + wait := congrArg (e.clock + ·) (Nat.min_eq_left hwait)
  rw [hafter]
  unfold sleep
  split
  case isTrue hdue =>
    -- a wait of no time is no step, and takes no turn
    have hzero : wait = 0 := by
      have hle : e.clock + wait ≤ e.clock := hdue
      omega
    refine ⟨e.turn, n, ?_⟩
    rw [serving_proceed, hzero]
    exact .refl limit 1 _
  case isFalse =>
    refine ⟨e.turn + 1, e.turn, ?_⟩
    rw [serving_park]
    exact .step (serving_alarm (e := { e with turn := e.turn + 1 }) hlimit)

/-! ## Dealings -/

/-- One engine comes from another by dealings with its script. Nothing but the time, the next turn and
the record changes besides. -/
structure Dealt (e e' : Engine) (ds : List Dealing) : Prop where
  rest : e' = { e with
    script := e'.script, clock := e'.clock, turn := e'.turn, history := e'.history }
  script : e.script.Serves ds e'.script
  calls : e'.callsMade = e.callsMade ++ ds.filterMap Dealing.call?
  answers : e'.answers = e.answers

theorem Dealt.service {e e' : Engine} {ds : List Dealing} (h : Dealt e e' ds) :
    e'.service = e.service := (congrArg Engine.service h.rest :)

theorem Dealt.nextTask {e e' : Engine} {ds : List Dealing} (h : Dealt e e' ds) :
    e'.nextTask = e.nextTask := (congrArg Engine.nextTask h.rest :)

theorem Dealt.atRest {e e' : Engine} {ds : List Dealing} (h : Dealt e e' ds) (hrest : e.AtRest) :
    e'.AtRest where
  tasks := (congrArg Engine.tasks h.rest :).trans hrest.tasks
  line := (congrArg Engine.line h.rest :).trans hrest.line
  phase := (congrArg (·.phase.isActive) h.rest :).trans hrest.phase

theorem Dealt.trans {e e' e'' : Engine} {ds ds' : List Dealing} (h : Dealt e e' ds)
    (h' : Dealt e' e'' ds') : Dealt e e'' (ds ++ ds') where
  rest := by
    rw [h'.rest, h.rest]
  script := h.script.append h'.script
  calls := by rw [h'.calls, h.calls, List.filterMap_append, List.append_assoc]
  answers := h'.answers.trans h.answers

/-- Something is recorded that is neither a call nor an answer. -/
theorem dealt_record (e : Engine) {h : Happening} (hcall : h.call? e.service = none)
    (hanswer : h.answer? = none) : Dealt e (e.record h) [] where
  rest := rfl
  script := .nil
  calls := by
    rw [callsMade_record, hcall]
    rfl
  answers := by
    rw [answers_record, hanswer]
    exact List.append_nil _

/-- A call is made, and that is recorded. -/
theorem dealt_call (e : Engine) (id : TaskId) (p : Purpose) (token : String) :
    let c := e.service.call p.request token
    Dealt e ({ e with script := (e.script.reply c.url).2 }.record (.sent id p token))
      [.call c (e.script.reply c.url).1] where
  rest := rfl
  script := .call rfl .nil
  calls := callsMade_record _ _
  answers := (answers_record _ _).trans (List.append_nil _)

/-- Nothing is recorded of the tokens, nor of the time that passes. -/
theorem dealt_unrecorded (e : Engine) {script : Script} (clock turn : Nat) {ds : List Dealing}
    (hserves : e.script.Serves ds script) (hcalls : ds.filterMap Dealing.call? = []) :
    Dealt e { e with script, clock, turn } ds where
  rest := rfl
  script := hserves
  calls := by
    rw [hcalls]
    exact (List.append_nil _).symm
  answers := rfl

theorem dealt_time (e : Engine) (clock turn : Nat) : Dealt e { e with clock, turn } [] :=
  dealt_unrecorded e clock turn .nil rfl

theorem dealt_fetch (e : Engine) :
    Dealt e { e with script := e.script.fetch.2 } [.token e.script.fetch.1] :=
  dealt_unrecorded e e.clock e.turn (.token rfl .nil) rfl

theorem dealt_reject (e : Engine) : Dealt e { e with script := e.script.reject } [.reject] :=
  dealt_unrecorded e e.clock e.turn (.reject .nil) rfl

/-! ## Points -/

variable (p : Purpose) (n : Nat) (limit : Nat)

/-- Without a token the exchange is over. -/
theorem serving_send_refused (again : Bool) {f : RequestError} (hf : e.script.fetch.1 = .error f) :
    ∃ e', Dealt e e' [.token (.error f)] ∧
      Within limit 1 (e.serving [e.nextTask] (.exchange p (.send again)) (.ready n))
        (e'.serving [] (.conclude p (.error f)) (.ready n)) := by
  let before := e.serving [e.nextTask] (.exchange p (.send again)) (.ready n)
  have hfetch : before.script.fetch = (.error f, e.script.fetch.2) := Prod.ext hf rfl
  let fetched : Engine := { e with script := e.script.fetch.2 }
  refine ⟨fetched.record (.exchanged e.nextTask p (.error f)), ?_, ?_⟩
  · exact (hf ▸ dealt_fetch e).trans (dealt_record fetched rfl rfl)
  · refine .step (serving_step.trans (congrArg some ?_))
    show before.send e.nextTask p again = _
    unfold send
    rw [hfetch]
    exact serving_proceed (e := fetched.record (.exchanged e.nextTask p (.error f)))

/-- With a token the call is made, and its reply comes. -/
theorem serving_send (again : Bool) {token : String} (htoken : e.script.fetch.1 = .ok token)
    {limit : Nat} (hlimit : e.clock + e.service.timeout ≤ limit) :
    ∃ e' m reply a, e.service.Brings reply a ∧ e'.clock ≤ e.clock + e.service.timeout ∧
      Dealt e e' [.token (.ok token), .call (e.service.call p.request token) reply] ∧
      Within limit 2 (e.serving [e.nextTask] (.exchange p (.send again)) (.ready n))
        (e'.serving [e'.nextTask] (.exchange p (.receive again a)) (.ready m)) := by
  let before := e.serving [e.nextTask] (.exchange p (.send again)) (.ready n)
  have hfetch : before.script.fetch = (.ok token, e.script.fetch.2) := Prod.ext htoken rfl
  let fetched : Engine := { e with script := e.script.fetch.2 }
  let c := e.service.call p.request token
  let planned := (fetched.script.reply c.url).1
  let sent := { fetched with script := (fetched.script.reply c.url).2 }.record (.sent e.nextTask p token)
  have hdelay := e.service.await_delay planned
  have htime : e.clock + (e.service.await planned).delay ≤ e.clock + e.service.timeout := by omega
  have hwait : (e.service.await planned).delay ≤ longestWait := by omega
  obtain ⟨turn, m, hsleep⟩ := serving_sleep (e := sent) [e.nextTask] (.exchange p (.send again))
    (.exchange p (.receive again (e.service.await planned).arrival)) n hwait
    (Nat.le_trans htime hlimit)
  refine ⟨{ sent with clock := sent.clock + (e.service.await planned).delay, turn }, m, planned, _,
    e.service.brings_await planned, htime, ?_, ?_⟩
  · exact (htoken ▸ dealt_fetch e).trans ((dealt_call fetched e.nextTask p token).trans (dealt_time sent ..))
  · refine .trans (.step (serving_step.trans (congrArg some ?_))) hsleep
    show before.send e.nextTask p again = _
    unfold send
    rw [hfetch]
    rfl

/-- The first rejection of a token is reported, and the exchange goes back to send. -/
theorem serving_receive_rejected {a : Arrival} (ha : a.Rejects) :
    ∃ e', Dealt e e' [.reject] ∧ e'.clock = e.clock ∧
      Within limit 1 (e.serving [e.nextTask] (.exchange p (.receive false a)) (.ready n))
        (e'.serving [e'.nextTask] (.exchange p (.send true)) (.ready n)) := by
  obtain ⟨body, rfl⟩ := ha
  let received := e.record (.received e.nextTask p (.ok ⟨401, body⟩))
  refine ⟨{ received with script := e.script.reject }, ?_, rfl, ?_⟩
  · exact (dealt_record e rfl rfl).trans (dealt_reject received)
  · refine .step (serving_step.trans (congrArg some ?_))
    exact serving_proceed (e := { received with script := e.script.reject })

/-- The exchange leaves the line with its result. -/
theorem serving_leave {x : Except RequestError String} :
    (e.serving [e.nextTask] d w).leave e.nextTask p x =
      (e.record (.exchanged e.nextTask p x)).serving [] (.conclude p x) w :=
  serving_proceed (e := e.record (.exchanged e.nextTask p x))

/-- Any other arrival is the last one, and its result may be worth a line in the log. -/
theorem receive_last (e : Engine) (id : TaskId) {again : Bool} {a : Arrival}
    (hlast : a.Rejects → again = true) :
    ∃ x, a.Gives x ∧ (e.receive id p again a = (e.record (.received id p a)).leave id p x ∨
      ∃ l, e.receive id p again a = ((e.record (.received id p a)).log l).leave id p x) := by
  cases a with
  | error message => exact ⟨_, .transport, .inl rfl⟩
  | ok response =>
    refine ⟨response.outcome, .response response.means_outcome, ?_⟩
    have hretry : ¬ (response.status = HttpResponse.unauthorized ∧ !again) := by
      rintro ⟨hstatus, hagain⟩
      have hrejects : Arrival.Rejects (.ok response) := by
        obtain ⟨status, body⟩ := response
        cases hstatus
        exact ⟨body, rfl⟩
      rw [hlast hrejects] at hagain
      cases hagain
    simp only [receive, if_neg hretry]
    cases response.outcome with
    | ok body => exact .inl rfl
    | error f =>
      cases hlimit : f.isRateLimit with
      | false => exact .inl (by simp [hlimit])
      | true => exact .inr ⟨_, by simp only [hlimit, if_true]; rfl⟩

/-- With that the exchange is over. -/
theorem serving_receive {again : Bool} {a : Arrival} (hlast : a.Rejects → again = true) :
    ∃ x e', a.Gives x ∧ Dealt e e' [] ∧
      Within limit 1 (e.serving [e.nextTask] (.exchange p (.receive again a)) (.ready n))
        (e'.serving [] (.conclude p x) (.ready n)) := by
  let d : Duty := .exchange p (.receive again a)
  let received := e.record (.received e.nextTask p a)
  have hreceived : Dealt e received [] := dealt_record e rfl rfl
  obtain ⟨x, hx, hsame | ⟨l, hlogged⟩⟩ :=
    receive_last p (e.serving [e.nextTask] d (.ready n)) e.nextTask hlast
  · refine ⟨x, received.record (.exchanged e.nextTask p x), hx, ?_, ?_⟩
    · exact hreceived.trans (dealt_record received rfl rfl)
    · exact .step (serving_step.trans (congrArg some
        (hsame.trans (serving_leave (e := received) p))))
  · refine ⟨x, (received.log l).record (.exchanged e.nextTask p x), hx, ?_, ?_⟩
    · exact hreceived.trans ((dealt_record received rfl rfl).trans (dealt_record _ rfl rfl))
    · exact .step (serving_step.trans (congrArg some
        (hlogged.trans (serving_leave (e := received.log l) p))))

/-! ## A whole exchange -/

/-- The exchange after a rejection: another token is asked for, and the call is made with it. -/
theorem exchange_again (token : String) {reply : Reply} {a : Arrival} {limit : Nat}
    (hlimit : e.clock + e.service.timeout ≤ limit) (ha : e.service.Brings reply a)
    (hrejected : a.Rejects) :
    ∃ ds x e' m, Dealt e e' ds ∧ e.service.Exchanges p.request
        ([.token (.ok token), .call (e.service.call p.request token) reply] ++ ds) x ∧
      Within limit 4 (e.serving [e.nextTask] (.exchange p (.receive false a)) (.ready n))
        (e'.serving [] (.conclude p x) (.ready m)) := by
  obtain ⟨e₁, hdealt₁, hclock₁, hwithin₁⟩ :=
    serving_receive_rejected (e := e) p n limit hrejected
  cases hfetch : e₁.script.fetch.1 with
  | error f =>
    obtain ⟨e₂, hdealt₂, hwithin₂⟩ :=
      serving_send_refused p n limit true hfetch
    exact ⟨_, _, e₂, n, hdealt₁.trans hdealt₂, .unrenewed ha hrejected,
      (hwithin₁.trans hwithin₂).mono (by omega)⟩
  | ok token' =>
    have hlimit₁ : e₁.clock + e₁.service.timeout ≤ limit := by
      rw [hclock₁, hdealt₁.service]
      exact hlimit
    obtain ⟨e₂, m, reply', a', ha', -, hdealt₂, hwithin₂⟩ :=
      serving_send p n true hfetch hlimit₁
    obtain ⟨x, e₃, hx, hdealt₃, hwithin₃⟩ :=
      serving_receive (e := e₂) p m limit fun _ => rfl
    rw [hdealt₁.service] at ha' hdealt₂
    refine ⟨_, x, e₃, m, hdealt₁.trans (hdealt₂.trans hdealt₃), ?_, ?_⟩
    · rw [← e.service.call_bearing p.request token token']
      exact .twice ha hrejected ha' hx
    · exact (hwithin₁.trans (hwithin₂.trans hwithin₃)).mono (by omega)

/-- From the line to its result, an exchange takes one of its courses. -/
theorem exchange_serving {limit : Nat} (hlimit : e.clock + 2 * e.service.timeout ≤ limit) :
    ∃ ds x e' m, Dealt e e' ds ∧ e.service.Exchanges p.request ds x ∧
      Within limit 6 (e.serving [e.nextTask] (.exchange p (.send false)) (.ready n))
        (e'.serving [] (.conclude p x) (.ready m)) := by
  cases hfetch : e.script.fetch.1 with
  | error f =>
    obtain ⟨e₁, hdealt, hwithin⟩ :=
      serving_send_refused p n limit false hfetch
    exact ⟨_, _, e₁, n, hdealt, .refused, hwithin.mono (by omega)⟩
  | ok token =>
    obtain ⟨e₁, m, reply, a, ha, hclock₁, hdealt₁, hwithin₁⟩ :=
      serving_send p n false hfetch (Nat.le_trans (by omega) hlimit)
    -- the first call leaves time for a second one
    by_cases hrejected : a.Rejects
    · have hlimit₁ : e₁.clock + e₁.service.timeout ≤ limit := by
        rw [hdealt₁.service]
        omega
      obtain ⟨ds, x, e₂, m', hdealt₂, hcourse, hwithin₂⟩ :=
        exchange_again p m token hlimit₁ (hdealt₁.service ▸ ha) hrejected
      rw [hdealt₁.service] at hcourse
      exact ⟨_, x, e₂, m', hdealt₁.trans hdealt₂, hcourse, hwithin₁.trans hwithin₂⟩
    · obtain ⟨x, e₂, hx, hdealt₂, hwithin₂⟩ :=
        serving_receive (e := e₁) p m limit fun h => absurd h hrejected
      refine ⟨_, x, e₂, m, hdealt₁.trans hdealt₂, .once ha hrejected hx, ?_⟩
      exact (hwithin₁.trans hwithin₂).mono (by omega)

/-- A caller with no exchange but its own comes to the line. -/
theorem serving_arrives (hphase : e.phase.isActive = false) (r : Request) :
    let p : Purpose := .lookup (.body r)
    Within limit 3 (e.serving [] (.consult (.body r)) (.ready n))
      ((e.record (.joined e.nextTask p)).serving [e.nextTask] (.exchange p (.send false)) (.ready n)) := by
  have hroute : Within limit 1 (e.serving [] (.consult (.body r)) (.ready n))
      (e.serving [] (.route (.body r)) (.ready n)) :=
    .step (serving_step.trans (congrArg some serving_proceed))
  have hjoin : Within limit 1 (e.serving [] (.route (.body r)) (.ready n))
      (e.serving [] (.exchange (.lookup (.body r)) .join) (.ready n)) := by
    refine .step (serving_step.trans (congrArg some ?_))
    have hnone : ¬ e.phase.isActive = true := by rw [hphase]; decide
    exact (if_neg hnone).trans serving_proceed
  have hsend : Within limit 1 (e.serving [] (.exchange (.lookup (.body r)) .join) (.ready n))
      ((e.record (.joined e.nextTask (.lookup (.body r)))).serving [e.nextTask]
        (.exchange (.lookup (.body r)) (.send false)) (.ready n)) :=
    .step (serving_step.trans (congrArg some (serving_proceed
      (e := e.record (.joined e.nextTask (.lookup (.body r)))))))
  exact hroute.trans (hjoin.trans hsend)

/-- The engine at rest after the next caller was told its result. -/
def told (e : Engine) (x : Except RequestError String) : Engine :=
  { e with nextTask := e.nextTask + 1 }.record (.found e.nextTask (x.map .body))

theorem serving_tells (hrest : e.AtRest) (r : Request) (x : Except RequestError String) :
    Within limit 1 (e.serving [] (.conclude (.lookup (.body r)) x) (.ready n)) (e.told x) := by
  refine .step (serving_step.trans (congrArg some ?_))
  have herase : ∀ t : Task, ((∅ : SortedMap TaskId Task).insert e.nextTask t).erase e.nextTask =
      e.tasks := fun t => (SortedMap.erase_insert rfl t).trans hrest.tasks.symm
  have htold : ∀ y, (e.serving [] (.conclude (.lookup (.body r)) x) (.ready n)).tell e.nextTask y =
      { e with nextTask := e.nextTask + 1 }.record (.found e.nextTask y) := by
    intro y
    unfold tell finish serving record
    simp only [herase]
    rw [← hrest.line]
  cases x with
  | error f => exact htold _
  | ok body => exact htold _

/-! ## Requests one after the other -/

/-- One engine at rest comes from another one by exchanges: the calls are those of the dealings, in
order, and the callers of the exchanges have their results. -/
structure Exchanged (e e' : Engine) (cs : List Course) : Prop where
  rest : e'.AtRest
  service : e'.service = e.service
  nextTask : e'.nextTask = e.nextTask + cs.length
  script : e.script.Serves (cs.flatMap (·.dealings)) e'.script
  calls : e'.callsMade = e.callsMade ++ (cs.flatMap (·.dealings)).filterMap Dealing.call?
  answers : e'.answers =
    e.answers ++ (cs.zipIdx e.nextTask).map fun c => (c.2, c.1.result.map Finding.body)

theorem Exchanged.refl (hrest : e.AtRest) : Exchanged e e [] where
  rest := hrest
  service := rfl
  nextTask := rfl
  script := .nil
  calls := (List.append_nil _).symm
  answers := (List.append_nil _).symm

theorem Exchanged.trans {e' e'' : Engine} {cs cs' : List Course} (h : Exchanged e e' cs)
    (h' : Exchanged e' e'' cs') : Exchanged e e'' (cs ++ cs') where
  rest := h'.rest
  service := h'.service.trans h.service
  nextTask := by rw [h'.nextTask, h.nextTask, List.length_append, Nat.add_assoc]
  script := by
    rw [List.flatMap_append]
    exact h.script.append h'.script
  calls := by
    rw [h'.calls, h.calls, List.flatMap_append, List.filterMap_append, List.append_assoc]
  answers := by
    rw [h'.answers, h.answers, h.nextTask, List.zipIdx_append, List.map_append, List.append_assoc]

/-- The dealings of an exchange, and the answer to its caller. -/
theorem Dealt.exchanged {e e' : Engine} {ds : List Dealing} (h : Dealt e e' ds) (hrest : e.AtRest)
    (x : Except RequestError String) : Exchanged e (e'.told x) [⟨ds, x⟩] where
  rest := ⟨(h.atRest hrest).tasks, (h.atRest hrest).line, (h.atRest hrest).phase⟩
  service := h.service
  nextTask := congrArg (· + 1) h.nextTask
  script := by
    rw [List.flatMap_singleton]
    exact h.script
  calls := by
    rw [List.flatMap_singleton, ← h.calls]
    exact (callsMade_record _ _).trans (List.append_nil _)
  answers := by
    rw [← h.answers, ← h.nextTask]
    exact answers_record _ _

/-- A request has its exchange, within the time that two calls can take. -/
theorem exchangeEach_single (hrest : e.AtRest) (r : Request) :
    ∃ c, e.service.Exchanges r c.dealings c.result ∧ Exchanged e (e.exchangeEach [r]) [c] := by
  let called := (e.call (.body r)).2
  let turned : Engine := { e with turn := e.turn + 1 }
  let joined := turned.record (.joined e.nextTask (.lookup (.body r)))
  let limit := called.clock + 2 * called.service.timeout
  have hcalled : called = turned.serving [] (.consult (.body r)) (.ready e.turn) := by
    show e.spawn _ = _
    unfold spawn serving
    rw [hrest.tasks, ← hrest.line]
  have hjoined : Dealt e joined [] :=
    (dealt_time e e.clock (e.turn + 1)).trans (dealt_record turned rfl rfl)
  obtain ⟨ds, x, e', m, hdealt', hcourse, hwithin⟩ :=
    exchange_serving (e := joined) (.lookup (.body r)) e.turn (Nat.le_refl limit)
  have hdealt : Dealt e e' ds := hjoined.trans hdealt'
  have htold : Exchanged e (e'.told x) [⟨ds, x⟩] := hdealt.exchanged hrest x
  -- at most ten steps: there is fuel for them, and after them nothing is left to do
  have hwork : e.exchangeEach [r] = e'.told x := by
    show called.work limit = _
    rw [hcalled]
    have hbound : 10 ≤ (turned.serving [] (.consult (.body r)) (.ready e.turn)).stepBound limit := by
      have hone : (turned.serving [] (.consult (.body r)) (.ready e.turn)).tasks.size = 1 := rfl
      unfold stepBound
      rw [hone]
      dsimp only
      omega
    have hsteps : Within limit 10 (turned.serving [] (.consult (.body r)) (.ready e.turn)) (e'.told x) :=
      (serving_arrives (e := turned) e.turn limit hrest.phase r).trans
        (hwithin.trans (serving_tells m limit (hdealt.atRest hrest) r x))
    exact hsteps.work hbound (htold.rest.step? limit)
  exact ⟨⟨ds, x⟩, hcourse, hwork ▸ htold⟩

theorem exchangeEach_of_rest (hrest : e.AtRest) (rs : List Request) :
    ∃ cs, List.Forall₂ (fun r c => e.service.Exchanges r c.dealings c.result) rs cs ∧
      Exchanged e (e.exchangeEach rs) cs := by
  induction rs generalizing e with
  | nil => exact ⟨[], .nil, .refl hrest⟩
  | cons r rs ih =>
    obtain ⟨c, hcourse, hfirst⟩ := exchangeEach_single hrest r
    obtain ⟨cs, hcourses, hothers⟩ := ih hfirst.rest
    rw [hfirst.service] at hcourses
    exact ⟨c :: cs, .cons hcourse hcourses, hfirst.trans hothers⟩

/-- Requests that are exchanged one after the other, whatever the source of tokens and the service do.
Each request has one exchange, which takes one of four courses: there is no token, and nothing is sent;
one call is made; the token of the call is rejected, and there is no other one; or the same call is
made once more with the other token, and never again. The result is that of the last call, or why there
was no token. All calls that are made are those of the exchanges, and each caller gets its result. -/
theorem exchangeEach_exchanges (settings : EngineSettings) (service : Service)
    (observer : Option Observer) (script : Script) (rs : List Request) :
    let e := (start settings service observer script).exchangeEach rs
    ∃ cs : List Course, List.Forall₂ (fun r c => service.Exchanges r c.dealings c.result) rs cs ∧
      script.Serves (cs.flatMap (·.dealings)) e.script ∧
      e.callsMade = (cs.flatMap (·.dealings)).filterMap Dealing.call? ∧
      e.answers = cs.zipIdx.map fun c => (c.2, c.1.result.map Finding.body) := by
  have hrest : (start settings service observer script).AtRest := ⟨rfl, rfl, rfl⟩
  obtain ⟨cs, hcourses, h⟩ := exchangeEach_of_rest hrest rs
  exact ⟨cs, hcourses, h.script, h.calls, h.answers⟩

/-- A timeout beyond the longest wait is cut to it, and so is the delay of a reply: this reply is planned
for a millisecond after the timeout, and is read all the same. -/
theorem reply_after_timeout_read :
    let late : Reply := ⟨4294967296001, .ok ⟨200, "late"⟩⟩
    let service : Service := ⟨"https://uplink.test/api/v1", 4294967296000⟩
    let e := (start .default service none ⟨[some late], [], [], 0, 0⟩).exchangeEach [.getMode ⟨1⟩]
    service.timeout < late.delay ∧ e.answers = [(0, .ok (.body "late"))] := by
  refine ⟨by decide, ?_⟩
  rfl

end Engine

end HeatWatch
