import HeatWatch.Proofs.Engine.Chronicle
import HeatWatch.Proofs.Engine.Line

/-!
# The wire

The line of the exchanges and what is recorded of them go on together, by steps of a few kinds. Main
statements:

* `WireStep`: the kinds of steps;
* `wire_move`: each move of the engine makes one of them.
-/

namespace HeatWatch

/-- What an exchange brings with a call that is not repeated. -/
def Arrival.outcome : Arrival → Except RequestError String
  | .error message => .error (.transport message)
  | .ok response => response.outcome

/-- The service has rejected the token of the call. -/
def Arrival.isRejection : Arrival → Bool
  | .error _ => false
  | .ok response => response.status == HttpResponse.unauthorized

/-- It is about an exchange. -/
def Happening.isExchange : Happening → Bool
  | .joined .. | .sent .. | .received .. | .exchanged .. => true
  | _ => false

/-- A place in the line: whose it is, what for, and how far the exchange has come. -/
structure Place where
  task : TaskId
  purpose : Purpose
  stage : Stage

/-- The place of a task that has joined the line. -/
def Duty.place? (id : TaskId) : Duty → Option Place
  | .exchange _ .join => none
  | .exchange p s => some ⟨id, p, s⟩
  | _ => none

/-- How the line goes on, and what is recorded of that: someone joins at the end, and the first one
sends, is rejected and sends again, or leaves with its result. -/
inductive WireStep : List Place → List Happening → List Place → Prop
  | quiet {ps : List Place} : WireStep ps [] ps
  | joins {ps : List Place} {id : TaskId} {p : Purpose} :
      WireStep ps [.joined id p] (ps ++ [⟨id, p, .send false⟩])
  | sends {ps : List Place} {id : TaskId} {p : Purpose} {again : Bool} {token : String}
      {a : Arrival} : WireStep (⟨id, p, .send again⟩ :: ps) [.sent id p token]
        (⟨id, p, .receive again a⟩ :: ps)
  | rejects {ps : List Place} {id : TaskId} {p : Purpose} {a : Arrival}
      (ha : Arrival.isRejection a = true) : WireStep (⟨id, p, .receive false a⟩ :: ps)
        [.received id p a] (⟨id, p, .send true⟩ :: ps)
  | fails {ps : List Place} {id : TaskId} {p : Purpose} {again : Bool} {message : String} :
      WireStep (⟨id, p, .send again⟩ :: ps) [.exchanged id p (.error (.auth message))] ps
  | ends {ps : List Place} {id : TaskId} {p : Purpose} {again : Bool} {a : Arrival}
      (ha : Arrival.isRejection a = true → again = true) :
      WireStep (⟨id, p, .receive again a⟩ :: ps)
        [.received id p a, .exchanged id p (Arrival.outcome a)] ps

/-- There is no token because its source has none. -/
theorem Script.auth_of_fetch {s : Script} {f : RequestError} (h : s.fetch.1 = .error f) :
    ∃ message, f = .auth message := by
  unfold Script.fetch at h
  cases htokens : s.tokens with
  | nil =>
    rw [htokens] at h
    cases h
  | cons t rest =>
    rw [htokens] at h
    cases t with
    | ok token => cases h
    | error message =>
      cases h
      exact ⟨message, rfl⟩

namespace Engine

variable {e : Engine} {id : TaskId} {d : Duty} {m : Move} {p : Purpose} {s : Stage}

/-- The places in the line, in order. -/
def places (e : Engine) : List Place :=
  e.line.filterMap fun id => (e.duty? id).bind (Duty.place? id)

/-- The places of tasks that do not act stay as they are. -/
theorem places_of_others (hl : e.Lined) (hk : e.Known) {ids : List TaskId}
    (hids : ∀ id ∈ ids, id ∈ e.line ∧ m ≠ .act id) :
    (ids.filterMap fun id => ((e.move m).duty? id).bind (Duty.place? id)) =
      ids.filterMap fun id => (e.duty? id).bind (Duty.place? id) := by
  refine List.filterMap_congr fun id hid => ?_
  obtain ⟨hmem, hne⟩ := hids id hid
  obtain ⟨d, hd, hw⟩ := (hl.members id).1 hmem
  rw [(move_duty_onWire hk hne hw).2 hd, hd]

/-- The others keep their places while the first one acts. -/
theorem places_of_rest (hl : e.Lined) (hk : e.Known) {rest : List TaskId}
    (hline : e.line = id :: rest) :
    (rest.filterMap fun id' => ((e.move (.act id)).duty? id').bind (Duty.place? id')) =
      rest.filterMap fun id' => (e.duty? id').bind (Duty.place? id') := by
  obtain ⟨hout, -⟩ := List.nodup_cons.1 (hline ▸ hl.nodup)
  refine places_of_others hl hk fun id' hid' => ⟨hline ▸ List.mem_cons_of_mem id hid', ?_⟩
  exact fun heq => hout (Move.act.inj heq ▸ hid')

/-- The places in a line whose first task is known. -/
theorem places_cons {rest : List TaskId} {place : Place} (hline : e.line = id :: rest)
    (hd : e.duty? id = some d) (hplace : d.place? id = some place) :
    e.places = place :: rest.filterMap fun id => (e.duty? id).bind (Duty.place? id) := by
  unfold places
  rw [hline, List.filterMap_cons_some]
  rw [hd]
  exact hplace

/-- Nothing changes in the line when a move is made outside of it. -/
theorem places_of_outside (hl : e.Lined) (hk : e.Known) (hline : (e.move m).line = e.line)
    (hout : ∀ id ∈ e.line, m ≠ .act id) : (e.move m).places = e.places := by
  unfold places
  rw [hline]
  exact places_of_others hl hk fun id hid => ⟨hid, hout id hid⟩

/-- Who is ready and has joined the line has the first place. -/
theorem Lined.first_place (hl : e.Lined) (hready : e.ready? id = some (.exchange p s))
    (hs : Duty.onWire (.exchange p s) = true) : ∃ rest, e.line = id :: rest ∧
      e.places = ⟨id, p, s⟩ :: rest.filterMap fun id => (e.duty? id).bind (Duty.place? id) := by
  obtain ⟨rest, hline⟩ := hl.first hready hs
  refine ⟨rest, hline, places_cons hline (duty?_of_ready? hready) ?_⟩
  cases s with
  | join => cases hs
  | send | receive => rfl

/-- The first one of the line goes on without leaving it. -/
theorem Lined.places_of_stays (hl : e.Lined) (hk : e.Known) {rest : List TaskId}
    (hline : e.line = id :: rest) (hready : e.ready? id = some (.exchange p s))
    (hr : e.result? (.exchange p s) = none) (hs : Duty.onWire (.exchange p s) = true) :
    (e.move (.act id)).places = ⟨id, p, s.next e p⟩ ::
      rest.filterMap fun id => (e.duty? id).bind (Duty.place? id) := by
  have hline' : (e.move (.act id)).line = id :: rest := by
    rw [move_line, lined_of_ready hready]
    cases s with
    | join => cases hs
    | send | receive =>
      show (e.result? _).elim e.line _ = _
      rw [hr]
      exact hline
  have hown : (e.move (.act id)).duty? id = some (.exchange p (s.next e p)) := by
    rw [move_own hk hready, Duty.next_of_none hr]
  rw [← places_of_rest hl hk hline]
  refine places_cons hline' hown ?_
  cases s with
  | join => cases hs
  | send | receive => rfl

/-- The first one of the line leaves it. -/
theorem Lined.places_of_leaves (hl : e.Lined) (hk : e.Known) {r : Except RequestError String}
    (hready : e.ready? id = some (.exchange p s)) (hr : e.result? (.exchange p s) = some r) :
    e.places = ⟨id, p, s⟩ :: (e.move (.act id)).places := by
  obtain ⟨rest, hline, hline'⟩ := hl.line_of_leaves hready hr
  obtain ⟨rest', hsame, hplaces⟩ := hl.first_place hready (onWire_of_result? hr)
  obtain rfl : rest = rest' := (List.cons.inj (hline.symm.trans hsame)).2
  rw [hplaces, ← places_of_rest hl hk hline]
  unfold places
  rw [hline']

/-! ## Steps -/

theorem wire_of_joins (hl : e.Lined) (hk : e.Known) (hready : e.ready? id = some (.exchange p .join)) :
    WireStep e.places ((e.records (.act id)).filter Happening.isExchange)
      (e.move (.act id)).places := by
  have hout : id ∉ e.line := hl.not_mem (duty?_of_ready? hready) rfl
  have hrecords : e.records (.act id) = [.joined id p] := records_of_ready hready
  have hplaces : (e.move (.act id)).places = e.places ++ [⟨id, p, .send false⟩] := by
    unfold places
    rw [line_of_joins hready, List.filterMap_append]
    congr 1
    · exact places_of_others hl hk fun id' hid' => ⟨hid', fun heq => hout (Move.act.inj heq ▸ hid')⟩
    · have hown : (e.move (.act id)).duty? id = some (.exchange p (.send false)) := move_own hk hready
      rw [List.filterMap_cons_some (b := ⟨id, p, .send false⟩), List.filterMap_nil]
      rw [hown]
      rfl
  rw [hrecords, hplaces]
  exact .joins

theorem wire_of_send (hl : e.Lined) (hk : e.Known) {again : Bool}
    (hready : e.ready? id = some (.exchange p (.send again))) :
    WireStep e.places ((e.records (.act id)).filter Happening.isExchange)
      (e.move (.act id)).places := by
  obtain ⟨rest, hline, hplaces⟩ := hl.first_place hready rfl
  have hrecords : e.records (.act id) = (e.script.fetch.1.toOption.map (.sent id p)).toList ++
      ((e.result? (.exchange p (.send again))).map (.exchanged id p)).toList :=
    records_of_ready hready
  cases hfetch : e.script.fetch.1 with
  | ok token =>
    have hr : e.result? (.exchange p (.send again)) = none := by
      unfold result?
      rw [hfetch]
    rw [hrecords, hfetch, hr, hplaces, hl.places_of_stays hk hline hready hr rfl]
    exact .sends
  | error f =>
    have hr : e.result? (.exchange p (.send again)) = some (.error f) := by
      unfold result?
      rw [hfetch]
    obtain ⟨message, rfl⟩ := Script.auth_of_fetch hfetch
    rw [hrecords, hfetch, hr, hl.places_of_leaves hk hready hr]
    exact .fails

theorem wire_of_receive (hl : e.Lined) (hk : e.Known) {again : Bool} {a : Arrival}
    (hready : e.ready? id = some (.exchange p (.receive again a))) :
    WireStep e.places ((e.records (.act id)).filter Happening.isExchange)
      (e.move (.act id)).places := by
  obtain ⟨rest, hline, hplaces⟩ := hl.first_place hready rfl
  have hrecords : e.records (.act id) = [.received id p a] ++
      ((e.result? (.exchange p (.receive again a))).map (.exchanged id p)).toList :=
    records_of_ready hready
  have hresult : e.result? (.exchange p (.receive again a)) =
      if Arrival.isRejection a = true ∧ again = false then none else some (Arrival.outcome a) := by
    unfold result? Arrival.isRejection Arrival.outcome
    cases a with
    | error message => rfl
    | ok response => cases again <;> simp
  by_cases hagain : Arrival.isRejection a = true ∧ again = false
  · obtain ⟨ha, rfl⟩ := hagain
    rw [if_pos ⟨ha, rfl⟩] at hresult
    rw [hrecords, hresult, hplaces, hl.places_of_stays hk hline hready hresult rfl]
    exact .rejects ha
  · rw [if_neg hagain] at hresult
    rw [hrecords, hresult, hl.places_of_leaves hk hready hresult]
    refine .ends fun ha => ?_
    cases again with
    | true => rfl
    | false => exact absurd ⟨ha, rfl⟩ hagain

/-- What was recorded of the exchanges, the earliest first. -/
def exchanges (e : Engine) : List Happening := e.happenings.filter Happening.isExchange

/-- Each move makes one step on the wire. -/
theorem wire_move (hl : e.Lined) (hk : e.Known) (m : Move) :
    WireStep e.places ((e.records m).filter Happening.isExchange) (e.move m).places := by
  have hquiet : (e.records m).filter Happening.isExchange = [] → (e.move m).line = e.line →
      (∀ id ∈ e.line, m ≠ .act id) →
        WireStep e.places ((e.records m).filter Happening.isExchange) (e.move m).places := by
    intro hrecords hline hout
    rw [hrecords, places_of_outside hl hk hline hout]
    exact .quiet
  cases m with
  | obey | elapse | pass | plan => exact hquiet rfl (move_line e _) fun _ _ => nofun
  | act id =>
    cases hready : e.ready? id with
    | none =>
      rw [records_of_not_ready hready, move_of_not_ready hready]
      exact .quiet
    | some d =>
      cases d with
      | exchange p s =>
        cases s with
        | join => exact wire_of_joins hl hk hready
        | send again => exact wire_of_send hl hk hready
        | receive again a => exact wire_of_receive hl hk hready
      | take | startPoll | poll | startProbe | probe | consult | route | submit | await | conclude =>
        refine hquiet ?_ ((move_line e _).trans (lined_of_ready hready)) ?_
        · refine List.filter_eq_nil_iff.2 fun h hmem hexchange => ?_
          obtain ⟨id', d, hm, hready', hnotes⟩ := notes_of_move hmem
          cases hm
          cases hready.symm.trans hready'
          cases hnotes <;> cases hexchange
        · intro id' hmem heq
          cases heq
          exact absurd hmem (hl.not_mem (duty?_of_ready? hready) rfl)

end Engine

end HeatWatch
