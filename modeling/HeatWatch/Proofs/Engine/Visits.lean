import HeatWatch.Proofs.Engine.Wire

/-!
# Visits to the wire

Each exchange has the wire for itself until it leaves it with its result. What was recorded is one
visit after the other, in the order in which the exchanges joined the line. Main statements:

* `Talk`: what is recorded of a whole visit, and the result of it;
* `Served.step`: one step on the wire keeps the record a list of visits;
* `one_visit_at_a_time`: so it is after every run.
-/

namespace HeatWatch

/-- Who joins the line, and what for. -/
def Happening.guest? : Happening → Option (TaskId × Purpose)
  | .joined id p => some (id, p)
  | _ => none

/-- It happens while an exchange has the wire. -/
def Happening.isTalk : Happening → Bool
  | .sent .. | .received .. | .exchanged .. => true
  | _ => false

/-- The calls of an exchange and what came back for them, and the result of the exchange. There is one
call, and a second one right after it if the token of the first was rejected. The result is what the
last call brought, unless there was no token for a call. -/
inductive Talk (id : TaskId) (p : Purpose) : List Happening → Except RequestError String → Prop
  | unsent {message : String} : Talk id p [] (.error (.auth message))
  | once {token : String} {a : Arrival} (ha : Arrival.isRejection a = false) :
      Talk id p [.sent id p token, .received id p a] (Arrival.outcome a)
  | unrenewed {token : String} {a : Arrival} {message : String}
      (ha : Arrival.isRejection a = true) :
      Talk id p [.sent id p token, .received id p a] (.error (.auth message))
  | twice {token token' : String} {a a' : Arrival} (ha : Arrival.isRejection a = true) :
      Talk id p [.sent id p token, .received id p a, .sent id p token', .received id p a']
        (Arrival.outcome a')

/-- What is recorded of an exchange that has come to a stage. -/
inductive Begun : Place → List Happening → Prop
  | waits {id : TaskId} {p : Purpose} : Begun ⟨id, p, .send false⟩ []
  | sent {id : TaskId} {p : Purpose} {token : String} {a : Arrival} :
      Begun ⟨id, p, .receive false a⟩ [.sent id p token]
  | rejected {id : TaskId} {p : Purpose} {token : String} {a : Arrival}
      (ha : Arrival.isRejection a = true) :
      Begun ⟨id, p, .send true⟩ [.sent id p token, .received id p a]
  | sentAgain {id : TaskId} {p : Purpose} {token token' : String} {a a' : Arrival}
      (ha : Arrival.isRejection a = true) :
      Begun ⟨id, p, .receive true a'⟩ [.sent id p token, .received id p a, .sent id p token']

/-- An exchange that is over: whose it was, what for, what was recorded of it and its result. -/
structure Visit where
  task : TaskId
  purpose : Purpose
  talk : List Happening
  result : Except RequestError String

/-- All that is recorded of a visit to the wire. -/
def Visit.record (v : Visit) : List Happening := v.talk ++ [.exchanged v.task v.purpose v.result]

/-- The record is a list of visits, and of the beginning of the next one. Those in the line come after
them in the order in which they joined it, and all but the first one of them wait. -/
structure Served (record : List Happening) (line : List Place) (done : List Visit)
    (talk : List Happening) : Prop where
  order : record.filterMap Happening.guest? =
    done.map (fun v => (v.task, v.purpose)) ++ line.map fun c => (c.task, c.purpose)
  wire : record.filter Happening.isTalk = done.flatMap Visit.record ++ talk
  complete : ∀ v ∈ done, Talk v.task v.purpose v.talk v.result
  free : line = [] → talk = []
  first : ∀ c, line.head? = some c → Begun c talk
  others : ∀ c ∈ line.tail, c.stage = .send false

namespace Served

variable {record : List Happening} {line : List Place} {done : List Visit} {talk : List Happening}
  {id : TaskId} {p : Purpose} {s : Stage} {r : Except RequestError String}

theorem empty : Served [] [] [] [] where
  order := rfl
  wire := rfl
  complete _ hv := absurd hv List.not_mem_nil
  free _ := rfl
  first _ hc := by cases hc
  others _ hc := absurd hc List.not_mem_nil

/-- Someone joins the line at its end. -/
theorem joins (h : Served record line done talk) :
    Served (record ++ [.joined id p]) (line ++ [⟨id, p, .send false⟩]) done talk where
  order := by
    rw [List.filterMap_append, h.order, List.map_append, List.append_assoc]
    rfl
  wire := by
    rw [List.filter_append, h.wire]
    exact List.append_nil _
  complete := h.complete
  free hline := by
    rw [List.append_eq_nil_iff] at hline
    cases hline.2
  first c hc := by
    cases hline : line with
    | nil =>
      rw [hline] at hc
      cases hc
      rw [h.free hline]
      exact .waits
    | cons c' rest =>
      rw [hline] at hc
      exact h.first c (hline ▸ hc)
  others c hc := by
    cases hline : line with
    | nil =>
      rw [hline] at hc
      cases hc
    | cons c' rest =>
      rw [hline, List.cons_append, List.tail_cons] at hc
      rcases List.mem_append.1 hc with hold | hnew
      · exact h.others c (hline ▸ hold)
      · cases List.mem_singleton.1 hnew
        rfl

/-- The first one of the line goes on, and something is recorded of that. -/
theorem goesOn {s' : Stage} {happening : Happening} (h : Served record (⟨id, p, s⟩ :: line) done talk)
    (hguest : happening.guest? = none) (htalk : happening.isTalk = true)
    (hbegun : Begun ⟨id, p, s'⟩ (talk ++ [happening])) :
    Served (record ++ [happening]) (⟨id, p, s'⟩ :: line) done (talk ++ [happening]) where
  order := by
    rw [List.filterMap_append, h.order, List.filterMap_cons_none hguest]
    exact List.append_nil _
  wire := by
    rw [List.filter_append, h.wire, List.filter_cons_of_pos htalk, List.append_assoc]
    rfl
  complete := h.complete
  free := nofun
  first c hc := by
    cases hc
    exact hbegun
  others := h.others

/-- The first one of the line leaves it with its result. -/
theorem leaves (last : List Happening) (h : Served record (⟨id, p, s⟩ :: line) done talk)
    (hguest : last.filterMap Happening.guest? = []) (htalk : last.filter Happening.isTalk = last)
    (hcomplete : Talk id p (talk ++ last) r) :
    Served (record ++ (last ++ [.exchanged id p r])) line (done ++ [⟨id, p, talk ++ last, r⟩]) [] where
  order := by
    rw [List.filterMap_append, h.order, List.filterMap_append, hguest, List.map_append]
    simp [Happening.guest?]
  wire := by
    rw [List.filter_append, h.wire, List.filter_append, htalk, List.flatMap_append, List.append_nil,
      List.append_assoc]
    refine congrArg (done.flatMap Visit.record ++ ·) ?_
    show talk ++ (last ++ [.exchanged id p r]) = (talk ++ last ++ [.exchanged id p r]) ++ []
    rw [List.append_nil, List.append_assoc]
  complete v hv := by
    rcases List.mem_append.1 hv with hold | hnew
    · exact h.complete v hold
    · cases List.mem_singleton.1 hnew
      exact hcomplete
  free _ := rfl
  first c hc := by
    -- the next one has waited so far
    have hwaits := h.others c (List.mem_of_mem_head? hc)
    obtain ⟨id', p', s'⟩ := c
    cases hwaits
    exact .waits
  others c hc := h.others c (List.mem_of_mem_tail hc)

/-- A step on the wire adds to the visits at their end. -/
theorem step {hs : List Happening} {line' : List Place} (h : Served record line done talk)
    (hstep : WireStep line hs line') :
    ∃ done' talk', Served (record ++ hs) line' done' talk' := by
  cases hstep with
  | quiet =>
    refine ⟨done, talk, ?_⟩
    rw [List.append_nil]
    exact h
  | joins => exact ⟨done, talk, h.joins⟩
  | sends =>
    refine ⟨done, _, h.goesOn rfl rfl ?_⟩
    cases h.first _ rfl with
    | waits => exact .sent
    | rejected ha => exact .sentAgain ha
  | rejects ha =>
    refine ⟨done, _, h.goesOn rfl rfl ?_⟩
    cases h.first _ rfl with
    | sent => exact .rejected ha
  | @fails _ id p =>
    refine ⟨_, _, h.leaves [] rfl rfl ?_⟩
    rw [List.append_nil]
    cases h.first _ rfl with
    | waits => exact .unsent
    | rejected ha => exact .unrenewed ha
  | @ends _ id p again a ha =>
    refine ⟨_, _, h.leaves [.received id p a] rfl rfl ?_⟩
    cases h.first _ rfl with
    | sent => exact .once (Bool.eq_false_iff.2 fun hrejected => by cases ha hrejected)
    | sentAgain hfirst => exact .twice hfirst

end Served

namespace Engine

variable {e : Engine}

/-- The exchanges of an engine are visits to the wire, after every run if they are before it. -/
theorem served_follow (hr : e.roster.Orderly) (hl : e.Lined)
    (h : ∃ done talk, Served e.exchanges e.places done talk) (ms : List Move) :
    ∃ done talk, Served (e.follow ms).exchanges (e.follow ms).places done talk := by
  have hboth : (e.follow ms).Lined ∧
      ∃ done talk, Served (e.follow ms).exchanges (e.follow ms).places done talk := by
    refine orderly_induction (P := fun e => e.Lined ∧ ∃ done talk, Served e.exchanges e.places done talk)
      (fun e m hr h => ?_) ⟨hl, h⟩ hr ms
    obtain ⟨hl, done, talk, hserved⟩ := h
    have hk : e.Known := known_of_orderly hr
    refine ⟨hl.move hk m, ?_⟩
    unfold exchanges
    rw [move_happenings, List.filter_append]
    exact hserved.step (wire_move hl hk m)
  exact hboth.2

/-- One exchange at a time has the wire, in the order in which they joined the line: all that was
recorded of calls is one whole visit after the other, and the beginning of one more. In a visit there
is one call, or two calls right after each other if the first token was rejected; no call starts
before the one before it has ended, and no other exchange makes a call in between. The result is what
the last call brought, or that no token was to be had for it. -/
theorem one_visit_at_a_time (settings : EngineSettings) (service : Service)
    (observer : Option Observer) (script : Script) (ms : List Move) :
    let e := (start settings service observer script).follow ms
    ∃ done talk, Served e.exchanges e.places done talk := by
  have hserved : Served (start settings service observer script).exchanges
      (start settings service observer script).places [] [] := Served.empty
  exact served_follow (start_orderly ..) (lined_start ..) ⟨[], [], hserved⟩ ms

/-- The source of tokens has none left when the first one was rejected. The result of the exchange is
that, and not what the response to its call says. -/
theorem rejected_without_token :
    let e := (start .default ⟨"http://localhost", 1000⟩ none
      ⟨[some ⟨0, .ok ⟨401, "expired"⟩⟩], [], [.ok "a", .error "gone"], 0, 0⟩).follow
        [.obey (.lookup (.body .listSystems)), .act 0, .act 0, .act 0, .act 0, .act 0, .act 0]
    let p : Purpose := .lookup (.body .listSystems)
    e.exchanges = [.joined 0 p, .sent 0 p "a", .received 0 p (.ok ⟨401, "expired"⟩),
        .exchanged 0 p (.error (.auth "gone"))] ∧
      Arrival.outcome (.ok ⟨401, "expired"⟩) ≠ .error (.auth "gone") := by
  refine ⟨rfl, ?_⟩
  decide

end Engine

end HeatWatch
