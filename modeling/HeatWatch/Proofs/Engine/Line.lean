import HeatWatch.Proofs.Engine.Turns
import Mathlib.Data.List.Nodup

/-!
# The line for the wire

Tasks with an exchange stand in a line, and the first one has the wire. The others wait there and
have sent nothing yet. Main statements:

* `Lined.move`: what holds of the line is kept by every move;
* `InOrder.move`: requests are sent in the order in which their tasks joined the line.
-/

namespace HeatWatch

/-- The task has joined the line and did not leave it. -/
def Duty.onWire : Duty → Bool
  | .exchange _ .join => false
  | .exchange .. => true
  | _ => false

/-- A call was sent for the exchange. -/
def Stage.isSent : Stage → Bool
  | .send true | .receive .. => true
  | _ => false

/-- The request of an exchange, if it passes a test. -/
def Purpose.asked? (c : Request → Bool) (p : Purpose) : Option Request :=
  if c p.request then some p.request else none

/-- The request of a task that has joined the line and sent nothing yet. -/
def Duty.unsent? (c : Request → Bool) : Duty → Option Request
  | .exchange p (.send false) => p.asked? c
  | _ => none

/-- The request for which a task joins the line. -/
def Happening.joined? (c : Request → Bool) : Happening → Option Request
  | .joined _ p => p.asked? c
  | _ => none

/-- The request that is put on the wire. -/
def Happening.sent? (c : Request → Bool) : Happening → Option Request
  | .sent _ p _ => p.asked? c
  | _ => none

namespace Engine

/-- The requests in the line that are still to be sent, in order. -/
def unsent (e : Engine) (c : Request → Bool) : List Request :=
  e.line.filterMap fun id => (e.duty? id).bind (Duty.unsent? c)

/-- The last request for which a task joined the line. -/
def lastJoined? (e : Engine) (c : Request → Bool) : Option Request :=
  e.ledger.trace.findSome? (Happening.joined? c)

/-- The last request that was put on the wire. -/
def lastSent? (e : Engine) (c : Request → Bool) : Option Request :=
  (e.history.map (·.what)).findSome? (Happening.sent? c)

/-- The line is what the tasks say: the ones in it are the ones with an exchange under way, and all
but the first one wait there and have sent nothing. -/
structure Lined (e : Engine) : Prop where
  nodup : e.line.Nodup
  members : ∀ id, id ∈ e.line ↔ ∃ d, e.duty? id = some d ∧ d.onWire = true
  waits : ∀ {id}, id ∈ e.line.drop 1 → ∃ p, e.task? id = some ⟨.exchange p (.send false), .line⟩

variable {e : Engine} {id : TaskId} {d : Duty}

theorem onWire_of_isSent {p : Purpose} {s : Stage} (hs : s.isSent = true) :
    Duty.onWire (.exchange p s) = true := by
  cases s with
  | join => cases hs
  | send | receive => rfl

/-- An exchange that comes to its end has joined the line. -/
theorem onWire_of_result? {p : Purpose} {s : Stage} {r : Except RequestError String}
    (hr : e.result? (.exchange p s) = some r) : Duty.onWire (.exchange p s) = true := by
  cases s with
  | join => cases hr
  | send | receive => rfl

theorem onWire_of_begins {m : Move} (h : m.Begins d) : d.onWire = false := by
  cases d with
  | exchange => exact absurd h Move.not_begins_exchange
  | take | startPoll | poll | startProbe | probe | consult | route | submit | await | conclude => rfl

/-- Others do not move a task that has joined the line. -/
theorem move_duty_onWire (hk : e.Known) {m : Move} (hne : m ≠ .act id) (hw : d.onWire = true) :
    (e.move m).duty? id = some d ↔ e.duty? id = some d := by
  constructor
  · intro hd'
    rcases move_duty hk hne hd' with ⟨d', hd, hpass⟩ | ⟨-, hbegins⟩
    · cases hpass with
      | refl => exact hd
      | told => cases hw
    · rw [onWire_of_begins hbegins] at hw
      cases hw
  · intro hd
    obtain ⟨d', hd', hpass⟩ := move_duty_of hk hne hd
    cases hpass with
    | refl => exact hd'
    | told => cases hw

/-- Who has no exchange under way is not in the line. -/
theorem Lined.not_mem (h : e.Lined) (hd : e.duty? id = some d) (hw : d.onWire = false) :
    id ∉ e.line := by
  intro hmem
  obtain ⟨d', hd', hw'⟩ := (h.members id).1 hmem
  cases hd.symm.trans hd'
  cases hw.symm.trans hw'

/-- A task that is ready and has joined the line is the first one there. -/
theorem Lined.first (h : e.Lined) (hready : e.ready? id = some d) (hw : d.onWire = true) :
    ∃ rest, e.line = id :: rest := by
  have hmem : id ∈ e.line := (h.members id).2 ⟨d, duty?_of_ready? hready, hw⟩
  cases hline : e.line with
  | nil =>
    rw [hline] at hmem
    cases hmem
  | cons first rest =>
    rw [hline] at hmem
    rcases List.mem_cons.1 hmem with rfl | hrest
    · exact ⟨rest, rfl⟩
    · -- the others wait
      obtain ⟨p, ht⟩ := h.waits (show id ∈ e.line.drop 1 by rw [hline]; exact hrest)
      obtain ⟨n, hready⟩ := ready?_eq_some.1 hready
      cases ht.symm.trans hready

/-- Who joins the line stands last. -/
theorem line_of_joins {p : Purpose} (hready : e.ready? id = some (.exchange p .join)) :
    (e.move (.act id)).line = e.line ++ [id] := by
  rw [move_line, lined_of_ready hready]
  rfl

/-- Who leaves the line stood first. -/
theorem Lined.line_of_leaves (h : e.Lined) {p : Purpose} {s : Stage}
    {r : Except RequestError String} (hready : e.ready? id = some (.exchange p s))
    (hr : e.result? (.exchange p s) = some r) :
    ∃ rest, e.line = id :: rest ∧ (e.move (.act id)).line = rest := by
  obtain ⟨rest, hrest⟩ := h.first hready (onWire_of_result? hr)
  obtain ⟨-, -, -, -, hlined⟩ := shows_of_result? hready hr
  refine ⟨rest, hrest, ?_⟩
  rw [move_line, hlined, hrest]
  rfl

/-- Who waits in the line goes on waiting, unless it gets the wire. -/
theorem Lined.keeps (h : e.Lined) (hk : e.Known) {m : Move} (hid : id ∈ e.line.drop 1)
    (hne : e.handsTo m ≠ some id) :
    ∃ p, (e.move m).task? id = some ⟨.exchange p (.send false), .line⟩ := by
  obtain ⟨p, ht⟩ := h.waits hid
  refine ⟨p, ?_⟩
  -- whoever waits in the line is not ready, so it makes no move
  have hready : e.ready? id = none := not_ready_of_task? ht nofun
  by_cases hm : m = .act id
  · rw [hm, move_of_not_ready hready]
    exact ht
  · have hlt : id < e.nextTask := hk.lt (duty?_of_task? ht)
    rcases move_others m hlt hm with hnudged | ⟨hheir, -⟩
    · rw [ht] at hnudged
      generalize (e.move m).task? id = o at hnudged ⊢
      cases hnudged with
      | some hn =>
        cases hn with
        | refl => rfl
        | woken d w n hw hl => cases hl rfl
    · exact absurd hheir hne

/-! ## Moves -/

/-- A task is in the line after a move that is not its own if it was. -/
theorem Lined.others (h : e.Lined) (hk : e.Known) {m : Move} (hne : m ≠ .act id) :
    (∃ d, (e.move m).duty? id = some d ∧ d.onWire = true) ↔ id ∈ e.line := by
  rw [h.members id]
  constructor
  · rintro ⟨d, hd, hw⟩
    exact ⟨d, (move_duty_onWire hk hne hw).1 hd, hw⟩
  · rintro ⟨d, hd, hw⟩
    exact ⟨d, (move_duty_onWire hk hne hw).2 hd, hw⟩

/-- A task that has no exchange under way joins no line before it says so. -/
theorem onWire_of_next (hd : ∀ p s, d ≠ .exchange p s) {d' : Duty} (h : d.next e = some d') :
    d'.onWire = false := by
  cases d with
  | exchange p s => exact absurd rfl (hd p s)
  | take run =>
    unfold Duty.next at h
    cases hx : e.queue.entries.head? <;> grind [Duty.onWire]
  | startPoll | poll | startProbe | probe | consult | route | submit | await =>
    unfold Duty.next at h
    grind [Duty.onWire]
  | conclude p r =>
    unfold Duty.next at h
    grind [Duty.onWire]

/-- Nothing changes in the line, and no one gets the wire. -/
theorem Lined.quiet (h : e.Lined) (hk : e.Known) {m : Move} (hline : e.lined m = e.line)
    (hheir : e.handsTo m = none) (hown : ∀ id, m = .act id →
      ((∃ d, (e.move m).duty? id = some d ∧ d.onWire = true) ↔ id ∈ e.line)) :
    (e.move m).Lined := by
  have hline' : (e.move m).line = e.line := (move_line e m).trans hline
  constructor
  · rw [hline']
    exact h.nodup
  · intro id
    rw [hline']
    by_cases hm : m = .act id
    · exact (hown id hm).symm
    · exact (h.others hk hm).symm
  · intro id hid
    rw [hline'] at hid
    refine h.keeps hk hid ?_
    rw [hheir]
    exact nofun

/-- A task joins the line at its end, and waits there if it is not the first one. -/
theorem Lined.joins (h : e.Lined) (hk : e.Known) {p : Purpose}
    (hready : e.ready? id = some (.exchange p .join)) : (e.move (.act id)).Lined := by
  have hout : id ∉ e.line := h.not_mem (duty?_of_ready? hready) rfl
  have hline := line_of_joins hready
  have hheir : e.handsTo (.act id) = none := by
    rw [handsTo_of_ready hready]
    rfl
  have hact : e.move (.act id) = e.join id p := act_of_ready hready
  constructor
  · rw [hline, ← List.concat_eq_append]
    exact h.nodup.concat hout
  · intro id'
    rw [hline, List.mem_append, List.mem_singleton]
    by_cases hid : id = id'
    · subst hid
      refine ⟨fun _ => ⟨.exchange p (.send false), ?_, rfl⟩, fun _ => .inr rfl⟩
      exact move_own hk hready
    · have hothers := h.others hk (m := .act id) fun heq => hid (Move.act.inj heq)
      rw [← hothers]
      exact ⟨fun hor => hor.resolve_right (Ne.symm hid), .inl⟩
  · intro id' hid'
    rw [hline] at hid'
    cases hrest : e.line with
    | nil =>
      rw [hrest] at hid'
      cases hid'
    | cons first rest =>
      rw [hrest, List.cons_append, List.drop_one, List.tail_cons] at hid'
      -- those that waited wait, and the new one waits behind them
      rcases List.mem_append.1 hid' with hold | hnew
      · refine h.keeps hk ?_ (hheir ▸ nofun)
        rw [hrest]
        exact hold
      · obtain rfl := List.mem_singleton.1 hnew
        refine ⟨p, ?_⟩
        rw [hact]
        unfold join
        rw [hrest, List.isEmpty_cons, if_neg Bool.false_ne_true, task?_park, if_pos rfl]

/-- The first task leaves the line, and the one that came next gets the wire. -/
theorem Lined.leaves (h : e.Lined) (hk : e.Known) {p : Purpose} {s : Stage}
    {r : Except RequestError String} (hready : e.ready? id = some (.exchange p s))
    (hr : e.result? (.exchange p s) = some r) : (e.move (.act id)).Lined := by
  obtain ⟨rest, hrest, hline⟩ := h.line_of_leaves hready hr
  have hheir : e.handsTo (.act id) = rest.head? := by
    rw [handsTo_of_ready hready, heir?_of_result hr, hrest]
    rfl
  obtain ⟨hout, hnodup⟩ := List.nodup_cons.1 (hrest ▸ h.nodup)
  constructor
  · rw [hline]
    exact hnodup
  · intro id'
    rw [hline]
    -- the one that leaves has its result, and no one else joins or leaves
    by_cases hid : id = id'
    · subst hid
      refine ⟨fun hmem => absurd hmem hout, ?_⟩
      rintro ⟨d, hd, hw⟩
      rw [move_own hk hready, Duty.next_of_result hr] at hd
      cases hd
      cases hw
    · rw [h.others hk fun heq => hid (Move.act.inj heq), hrest, List.mem_cons]
      exact ⟨.inr, fun hor => hor.resolve_left (Ne.symm hid)⟩
  · intro id' hid'
    rw [hline] at hid'
    refine h.keeps hk ?_ ?_
    · rw [hrest]
      exact List.mem_of_mem_drop hid'
    · -- the heir is the first one now
      rw [hheir]
      intro hfirst
      obtain ⟨tail, htail⟩ := List.head?_eq_some_iff.1 hfirst
      rw [htail] at hid' hnodup
      exact (List.nodup_cons.1 hnodup).1 hid'

/-- The line stays what the tasks say. -/
theorem Lined.move (h : e.Lined) (hk : e.Known) (m : Move) : (e.move m).Lined := by
  cases m with
  | obey | elapse | pass | plan => exact h.quiet hk rfl rfl nofun
  | act id =>
    cases hready : e.ready? id with
    | none =>
      rw [move_of_not_ready hready]
      exact h
    | some d =>
      have hd : e.duty? id = some d := duty?_of_ready? hready
      have hquiet : d.lined e id = e.line → e.heir? d = none →
          ((∃ d', d.next e = some d' ∧ d'.onWire = true) ↔ d.onWire = true) →
          (e.move (.act id)).Lined := by
        intro hline hheir hown
        refine h.quiet hk ((lined_of_ready hready).trans hline)
          ((handsTo_of_ready hready).trans hheir) fun id' hm => ?_
        cases hm
        rw [move_own hk hready, hown, h.members id, hd]
        constructor
        · exact fun hw => ⟨d, rfl, hw⟩
        · rintro ⟨d', hd', hw⟩
          cases hd'
          exact hw
      cases d with
      | exchange p s =>
        cases hr : e.result? (.exchange p s) with
        | some r => exact h.leaves hk hready hr
        | none =>
          have hnext := Duty.next_of_none hr
          have hheir := heir?_of_none hr
          cases s with
          | join => exact h.joins hk hready
          | send again | receive again a =>
            refine hquiet ?_ hheir ?_
            · show (e.result? _).elim e.line _ = e.line
              rw [hr]
              rfl
            · rw [hnext]
              exact ⟨fun _ => rfl, fun _ => ⟨_, rfl, rfl⟩⟩
      | take | startPoll | poll | startProbe | probe | consult | route | submit | await
      | conclude =>
        refine hquiet rfl rfl ⟨?_, nofun⟩
        rintro ⟨d', hd', hw⟩
        rw [onWire_of_next (fun _ _ heq => Duty.noConfusion heq) hd'] at hw
        cases hw

theorem lined_start (settings : EngineSettings) (service : Service) (observer : Option Observer)
    (script : Script) : (start settings service observer script).Lined := by
  refine ⟨List.nodup_nil, fun id => ?_, nofun⟩
  constructor
  · intro hin
    cases hin
  · rintro ⟨d, hd, -⟩
    cases (duty?_start settings service observer script id).symm.trans hd

/-! ## Order -/

variable {c : Request → Bool}

/-- Requests are sent in the order in which their tasks joined the line: the last one to join is the
last one still to be sent, or the last one that was sent if there is none. -/
structure InOrder (e : Engine) (c : Request → Bool) : Prop where
  last : (e.unsent c).getLast?.or (e.lastSent? c) = e.lastJoined? c
  again : ∀ {id p s}, e.duty? id = some (.exchange p s) → s.isSent = true → c p.request = true →
    e.lastSent? c = some p.request

theorem lastSent?_eq_trace (e : Engine) (c : Request → Bool) :
    e.lastSent? c = e.ledger.trace.findSome? (Happening.sent? c) := by
  unfold lastSent?
  rw [← List.head?_filterMap, ← List.head?_filterMap, filterMap_trace]
  intro h hh
  cases h with
  | sent => cases hh
  | log | polled | joined | received | exchanged | callback | outage | recovered | found => rfl

theorem lastSent?_move (e : Engine) (m : Move) (c : Request → Bool) : (e.move m).lastSent? c =
    ((e.shows m).bind (Happening.sent? c)).or (e.lastSent? c) := by
  rw [lastSent?_eq_trace, lastSent?_eq_trace, move_trace, List.findSome?_append]
  cases e.shows m with
  | none => rfl
  | some h => cases hh : h.sent? c <;> simp [hh]

theorem lastJoined?_move (e : Engine) (m : Move) (c : Request → Bool) : (e.move m).lastJoined? c =
    ((e.shows m).bind (Happening.joined? c)).or (e.lastJoined? c) := by
  unfold lastJoined?
  rw [move_trace, List.findSome?_append]
  cases e.shows m with
  | none => rfl
  | some h => cases hh : h.joined? c <;> simp [hh]

/-- Who has sent something is the first one in the line. -/
theorem Lined.sent_first (h : e.Lined) {p : Purpose} {s : Stage}
    (hd : e.duty? id = some (.exchange p s)) (hs : s.isSent = true) :
    ∃ rest, e.line = id :: rest := by
  have hmem : id ∈ e.line := (h.members id).2 ⟨_, hd, onWire_of_isSent hs⟩
  cases hline : e.line with
  | nil =>
    rw [hline] at hmem
    cases hmem
  | cons first rest =>
    rw [hline] at hmem
    rcases List.mem_cons.1 hmem with rfl | hrest
    · exact ⟨rest, rfl⟩
    -- all others have sent nothing
    · obtain ⟨q, ht⟩ := h.waits (show id ∈ e.line.drop 1 by rw [hline]; exact hrest)
      cases hd.symm.trans (duty?_of_task? ht)
      cases hs

/-- Who waits in the line waits with the same request after a move that is not its own. -/
theorem unsent_of_others (hl : e.Lined) (hk : e.Known) {m : Move} {ids : List TaskId}
    (hids : ∀ id ∈ ids, id ∈ e.line ∧ m ≠ .act id) :
    (ids.filterMap fun id => ((e.move m).duty? id).bind (Duty.unsent? c)) =
      ids.filterMap fun id => (e.duty? id).bind (Duty.unsent? c) := by
  refine List.filterMap_congr fun id hid => ?_
  obtain ⟨hmem, hne⟩ := hids id hid
  obtain ⟨d, hd, hw⟩ := (hl.members id).1 hmem
  rw [(move_duty_onWire hk hne hw).2 hd, hd]

/-- The others wait with the same requests while the first one acts. -/
theorem unsent_of_rest (hl : e.Lined) (hk : e.Known) {rest : List TaskId}
    (hline : e.line = id :: rest) :
    (rest.filterMap fun id' => ((e.move (.act id)).duty? id').bind (Duty.unsent? c)) =
      rest.filterMap fun id' => (e.duty? id').bind (Duty.unsent? c) := by
  obtain ⟨hout, -⟩ := List.nodup_cons.1 (hline ▸ hl.nodup)
  refine unsent_of_others hl hk fun id' hid' => ⟨hline ▸ List.mem_cons_of_mem id hid', ?_⟩
  exact fun heq => hout (Move.act.inj heq ▸ hid')

/-- Who did not act and has sent something had sent it before. -/
theorem InOrder.again_of_others (h : e.InOrder c) (hk : e.Known) {m : Move} (hne : m ≠ .act id)
    {p : Purpose} {s : Stage} (hd : (e.move m).duty? id = some (.exchange p s))
    (hs : s.isSent = true) (hc : c p.request = true) : e.lastSent? c = some p.request := by
  exact h.again ((move_duty_onWire hk hne (onWire_of_isSent hs)).1 hd) hs hc

/-- Nothing is recorded on the wire, and the task that acts has sent what it had sent before. -/
theorem InOrder.quiet (h : e.InOrder c) (hl : e.Lined) (hk : e.Known) {m : Move}
    (hline : e.lined m = e.line) (hshows : e.shows m = none)
    (hunsent : ∀ id, m = .act id → id ∈ e.line →
      ((e.move m).duty? id).bind (Duty.unsent? c) = (e.duty? id).bind (Duty.unsent? c))
    (hagain : ∀ id, m = .act id → ∀ p s, (e.move m).duty? id = some (.exchange p s) →
      s.isSent = true → ∃ s', e.duty? id = some (.exchange p s') ∧ s'.isSent = true) :
    (e.move m).InOrder c := by
  have hsent : (e.move m).lastSent? c = e.lastSent? c := by
    rw [lastSent?_move, hshows]
    rfl
  have hjoined : (e.move m).lastJoined? c = e.lastJoined? c := by
    rw [lastJoined?_move, hshows]
    rfl
  have hsame : (e.move m).unsent c = e.unsent c := by
    unfold unsent
    rw [move_line, hline]
    refine List.filterMap_congr fun id hid => ?_
    by_cases hm : m = .act id
    · exact hunsent id hm hid
    · obtain ⟨d, hd, hw⟩ := (hl.members id).1 hid
      rw [(move_duty_onWire hk hm hw).2 hd, hd]
  constructor
  · rw [hsame, hsent, hjoined]
    exact h.last
  · intro id p s hd hs hc
    rw [hsent]
    by_cases hm : m = .act id
    · obtain ⟨s', hd', hs'⟩ := hagain id hm p s hd hs
      exact h.again hd' hs' hc
    · exact h.again_of_others hk hm hd hs hc

/-- A task joins the line behind all others. -/
theorem InOrder.joins (h : e.InOrder c) (hl : e.Lined) (hk : e.Known) {p : Purpose}
    (hready : e.ready? id = some (.exchange p .join)) : (e.move (.act id)).InOrder c := by
  have hshows : e.shows (.act id) = some (.joined id p) := shows_joined.2 ⟨rfl, hready⟩
  have hown : (e.move (.act id)).duty? id = some (.exchange p (.send false)) :=
    move_own hk hready
  have hout : id ∉ e.line := hl.not_mem (duty?_of_ready? hready) rfl
  have hunsent : (e.move (.act id)).unsent c = e.unsent c ++ (p.asked? c).toList := by
    have hothers : (e.line.filterMap fun id' =>
        ((e.move (.act id)).duty? id').bind (Duty.unsent? c)) = e.unsent c :=
      unsent_of_others hl hk fun id' hid' => ⟨hid', fun heq => hout (Move.act.inj heq ▸ hid')⟩
    have hline := line_of_joins hready
    have hnew : ((e.move (.act id)).duty? id).bind (Duty.unsent? c) = p.asked? c := by
      rw [hown]
      rfl
    have hsplit : (e.move (.act id)).unsent c = e.unsent c ++ [id].filterMap fun id' =>
        ((e.move (.act id)).duty? id').bind (Duty.unsent? c) := by
      rw [← hothers, ← List.filterMap_append, ← hline]
      rfl
    rw [hsplit]
    congr 1
    cases hp : p.asked? c <;> simp [hnew, hp]
  constructor
  · rw [hunsent, lastSent?_move, lastJoined?_move, hshows]
    show ((e.unsent c) ++ _).getLast?.or (e.lastSent? c) = (p.asked? c).or _
    -- whoever joins is the last one to join and the last one still to be sent
    rw [← h.last, List.getLast?_append, Option.or_assoc]
    cases p.asked? c <;> rfl
  · intro id' p' s hd hs hc
    rw [lastSent?_move, hshows]
    by_cases hid : id = id'
    · subst hid
      cases hown.symm.trans hd
      cases hs
    · exact h.again_of_others hk (fun heq => hid (Move.act.inj heq)) hd hs hc

/-- The requests in a line whose first task is known. -/
theorem unsent_cons {rest : List TaskId} (hline : e.line = id :: rest) (hd : e.duty? id = some d) :
    e.unsent c = (d.unsent? c).toList ++
      rest.filterMap fun id => (e.duty? id).bind (Duty.unsent? c) := by
  unfold unsent
  rw [hline]
  cases hu : d.unsent? c <;> simp [hd, hu]

/-- The first task of the line sends its request, perhaps for the second time. -/
theorem InOrder.sends (h : e.InOrder c) (hl : e.Lined) (hk : e.Known) {p : Purpose} {again : Bool}
    (hready : e.ready? id = some (.exchange p (.send again))) {token : String}
    (hfetch : e.script.fetch.1 = .ok token) : (e.move (.act id)).InOrder c := by
  have hr : e.result? (.exchange p (.send again)) = none := by
    unfold result?
    rw [hfetch]
  have hd : e.duty? id = some (.exchange p (.send again)) := duty?_of_ready? hready
  obtain ⟨rest, hline⟩ := hl.first hready rfl
  have hshows : e.shows (.act id) = some (.sent id p token) := by
    rw [shows_of_ready hready]
    show (e.result? _).elim _ _ = _
    rw [hr]
    show e.script.fetch.1.toOption.map _ = _
    rw [hfetch]
    rfl
  have hown : (e.move (.act id)).duty? id = some (.exchange p (.receive again (e.arrival p))) := by
    rw [move_own hk hready, Duty.next_of_none hr]
    rfl
  have hline' : (e.move (.act id)).line = id :: rest := by
    rw [move_line, lined_of_ready hready]
    show (e.result? _).elim e.line _ = _
    rw [hr]
    exact hline
  have hnew := unsent_cons (c := c) hline' hown
  have hold := unsent_cons (c := c) hline hd
  rw [unsent_of_rest hl hk hline] at hnew
  generalize (rest.filterMap fun id' => (e.duty? id').bind (Duty.unsent? c)) = behind at hnew hold
  have hsent : (e.move (.act id)).lastSent? c = (p.asked? c).or (e.lastSent? c) := by
    rw [lastSent?_move, hshows]
    rfl
  have hjoined : (e.move (.act id)).lastJoined? c = e.lastJoined? c := by
    rw [lastJoined?_move, hshows]
    rfl
  constructor
  · rw [hnew, hsent, hjoined, ← h.last, hold]
    cases again with
    | false =>
      -- the request was the first one still to be sent, and is the last one that was
      show behind.getLast?.or ((p.asked? c).or (e.lastSent? c)) =
        ((p.asked? c).toList ++ behind).getLast?.or (e.lastSent? c)
      rw [List.getLast?_append, Option.or_assoc]
      cases p.asked? c <;> rfl
    | true =>
      show behind.getLast?.or ((p.asked? c).or (e.lastSent? c)) =
        behind.getLast?.or (e.lastSent? c)
      by_cases hc : c p.request = true
      · rw [h.again hd rfl hc]
        simp [Purpose.asked?, hc]
      · simp [Purpose.asked?, hc]
  · intro id' p' s hd' hs hc
    by_cases hid : id = id'
    · subst hid
      cases hown.symm.trans hd'
      rw [hsent]
      simp [Purpose.asked?, hc]
    · -- whoever else had sent something would be the first one too
      have hne : Move.act id ≠ .act id' := fun heq => hid (Move.act.inj heq)
      have hbefore := (move_duty_onWire hk hne (onWire_of_isSent hs)).1 hd'
      obtain ⟨rest', hrest'⟩ := hl.sent_first hbefore hs
      cases hline.symm.trans hrest'
      exact absurd rfl hid

/-- The first task leaves the line. It has sent its request, or fails to. -/
theorem InOrder.leaves (h : e.InOrder c) (hl : e.Lined) (hk : e.Known) {p : Purpose} {s : Stage}
    {r : Except RequestError String} (hready : e.ready? id = some (.exchange p s))
    (hr : e.result? (.exchange p s) = some r) (hfail : ∀ f, r = .error f → c p.request = false) :
    (e.move (.act id)).InOrder c := by
  have hd : e.duty? id = some (.exchange p s) := duty?_of_ready? hready
  obtain ⟨rest, hline, hline'⟩ := hl.line_of_leaves hready hr
  obtain ⟨p', s', heq, hshows, -⟩ := shows_of_result? hready hr
  cases heq
  have hunsent? : (Duty.exchange p s).unsent? c = none := by
    cases s with
    | join => rfl
    | receive => rfl
    | send again =>
      cases again with
      | true => rfl
      | false =>
        -- nothing was sent, so there was no token
        have hresult : e.result? (.exchange p (.send false)) = some r := hr
        unfold result? at hresult
        cases hfetch : e.script.fetch.1 with
        | ok token =>
          rw [hfetch] at hresult
          cases hresult
        | error f =>
          rw [hfetch] at hresult
          have hc := hfail f (Option.some.inj hresult).symm
          show p.asked? c = none
          unfold Purpose.asked?
          rw [hc]
          rfl
  have hunsent := unsent_cons (c := c) hline hd
  rw [hunsent?, Option.toList_none, List.nil_append] at hunsent
  have hsame : (e.move (.act id)).unsent c = e.unsent c := by
    rw [hunsent]
    unfold unsent
    rw [hline']
    exact unsent_of_rest hl hk hline
  constructor
  -- nothing is sent, and the request was not one of those still to be sent
  · rw [hsame, lastSent?_move, lastJoined?_move, hshows]
    exact h.last
  · intro id' p' s' hd' hs hc
    rw [lastSent?_move, hshows]
    by_cases hid : id = id'
    · subst hid
      rw [move_own hk hready, Duty.next_of_result hr] at hd'
      cases hd'
    · exact h.again_of_others hk (fun heq => hid (Move.act.inj heq)) hd' hs hc

/-- The token of the first task is rejected, and its request is to be sent for the second time. -/
theorem InOrder.rejects (h : e.InOrder c) (hl : e.Lined) (hk : e.Known) {p : Purpose} {again : Bool}
    {a : Arrival} (hready : e.ready? id = some (.exchange p (.receive again a)))
    (hr : e.result? (.exchange p (.receive again a)) = none) : (e.move (.act id)).InOrder c := by
  have hd : e.duty? id = some (.exchange p (.receive again a)) := duty?_of_ready? hready
  have hown : (e.move (.act id)).duty? id = some (.exchange p (.send true)) := by
    rw [move_own hk hready, Duty.next_of_none hr]
    rfl
  refine h.quiet hl hk ?_ ?_ ?_ ?_
  · rw [lined_of_ready hready]
    show (e.result? _).elim e.line _ = _
    rw [hr]
    rfl
  · rw [shows_of_ready hready]
    show (e.result? _).elim _ _ = _
    rw [hr]
    rfl
  · intro id' hm _
    cases hm
    rw [hown, hd]
    rfl
  · intro id' hm p' s' hd' _
    cases hm
    cases hown.symm.trans hd'
    exact ⟨_, hd, rfl⟩

/-- A task acts that has no exchange under way. -/
theorem InOrder.elsewhere (h : e.InOrder c) (hl : e.Lined) (hk : e.Known)
    (hready : e.ready? id = some d) (hd : ∀ p s, d ≠ .exchange p s)
    (hline : d.lined e id = e.line) (hshows : d.shows e id = none) :
    (e.move (.act id)).InOrder c := by
  have hw : d.onWire = false := by
    cases d with
    | exchange p s => exact absurd rfl (hd p s)
    | take | startPoll | poll | startProbe | probe | consult | route | submit | await | conclude =>
      rfl
  refine h.quiet hl hk ((lined_of_ready hready).trans hline) ((shows_of_ready hready).trans hshows)
    ?_ ?_
  · intro id' hm hmem
    cases hm
    exact absurd hmem (hl.not_mem (duty?_of_ready? hready) hw)
  · intro id' hm p s hd' hs
    cases hm
    rw [move_own hk hready] at hd'
    have hw' := onWire_of_next hd hd'
    cases hw'.symm.trans (onWire_of_isSent hs)

/-- Requests that do not fail are sent in the order in which their tasks joined the line. -/
theorem InOrder.move (h : e.InOrder c) (hl : e.Lined) (hk : e.Known) {m : Move}
    (hfail : ∀ id p f, e.shows m = some (.exchanged id p (.error f)) → c p.request = false) :
    (e.move m).InOrder c := by
  cases m with
  | obey | elapse | pass | plan => exact h.quiet hl hk rfl rfl nofun nofun
  | act id =>
    cases hready : e.ready? id with
    | none =>
      rw [move_of_not_ready hready]
      exact h
    | some d =>
      cases d with
      | exchange p s =>
        cases hr : e.result? (.exchange p s) with
        | some r =>
          refine h.leaves hl hk hready hr fun f hf => hfail id p f ?_
          obtain ⟨p', s', heq, hshows, -⟩ := shows_of_result? hready hr
          cases heq
          rw [hshows, hf]
        | none =>
          cases s with
          | join => exact h.joins hl hk hready
          | receive again a => exact h.rejects hl hk hready hr
          | send again =>
            have hresult : e.result? (.exchange p (.send again)) = none := hr
            unfold result? at hresult
            cases hfetch : e.script.fetch.1 with
            | ok token => exact h.sends hl hk hready hfetch
            | error f =>
              rw [hfetch] at hresult
              cases hresult
      | take | startPoll | poll | startProbe | probe | consult | route | submit | await
      | conclude => exact h.elsewhere hl hk hready (fun _ _ heq => Duty.noConfusion heq) rfl rfl

end Engine

end HeatWatch
