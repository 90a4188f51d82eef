import HeatWatch.Engine.Command

/-!
# Runs of the engine

A run is a list of moves: calls of the host, tasks that go on, and time that passes. The moves may
come in any order, so what holds after each list of moves does not depend on which task goes first
or on when the service answers. Main statements:

* `follow_induction`: what each move keeps holds after every run;
* `leads_advance`, `leads_exchangeEach`, `leads_exchangeAll`: whatever else drives the engine does so by
  moves.
-/

namespace HeatWatch

/-- Something that happens to the engine. -/
inductive Move where
  /-- The host makes a call. -/
  | obey (c : Command)
  /-- A task goes on, if it is ready. -/
  | act (id : TaskId)
  /-- Time goes on; the tasks that wait for this time or an earlier one are ready. -/
  | elapse (now : Nat)
  /-- Time goes on, and no task waits for it. -/
  | pass (now : Nat)
  /-- The service is to answer otherwise. -/
  | plan (s : Script)

/-- Time goes on. -/
def Move.passes : Move → Bool
  | .elapse _ | .pass _ => true
  | .obey _ | .act _ | .plan _ => false

namespace Engine

/-- What a move leads to. -/
def move (e : Engine) : Move → Engine
  | .obey c => (e.obey c).2
  | .act id => e.act id
  | .elapse now => e.elapse now
  | .pass now => { e with clock := now }
  | .plan script => { e with script }

/-- Makes moves one after the other. -/
def follow (e : Engine) (ms : List Move) : Engine := ms.foldl move e

@[simp] theorem follow_nil (e : Engine) : e.follow [] = e := rfl

@[simp] theorem follow_cons (e : Engine) (m : Move) (ms : List Move) :
    e.follow (m :: ms) = (e.move m).follow ms := rfl

@[simp] theorem follow_append (e : Engine) (ms ms' : List Move) :
    e.follow (ms ++ ms') = (e.follow ms).follow ms' := List.foldl_append

/-- What holds at first and is kept by each move holds after every run. -/
theorem follow_induction {P : Engine → Prop} (hm : ∀ e m, P e → P (e.move m)) {e : Engine}
    (h : P e) (ms : List Move) : P (e.follow ms) := by
  induction ms generalizing e with
  | nil => exact h
  | cons m ms ih => exact ih (hm e m h)

/-! ## Other drivers -/

/-- One engine comes from another by moves. -/
def Leads (e e' : Engine) : Prop := ∃ ms, e' = e.follow ms

theorem Leads.refl (e : Engine) : Leads e e := ⟨[], rfl⟩

theorem Leads.trans {e e' e'' : Engine} (h : Leads e e') (h' : Leads e' e'') : Leads e e'' := by
  obtain ⟨ms, rfl⟩ := h
  obtain ⟨ms', rfl⟩ := h'
  exact ⟨ms ++ ms', (follow_append e ms ms').symm⟩

theorem leads_move (e : Engine) (m : Move) : Leads e (e.move m) := ⟨[m], rfl⟩

theorem leads_step {e e' : Engine} {limit : Nat} (h : e.step? limit = some e') : Leads e e' := by
  unfold step? at h
  split at h
  case h_1 id _ =>
    obtain rfl := Option.some.inj h
    exact leads_move e (.act id)
  case h_2 =>
    split at h
    · split at h
      · obtain rfl := Option.some.inj h
        exact leads_move e (.elapse _)
      · cases h
    · cases h

theorem leads_steps (limit fuel : Nat) (e : Engine) : Leads e (steps limit fuel e) := by
  induction fuel generalizing e with
  | zero => exact .refl e
  | succ fuel ih =>
    unfold steps
    split
    case h_1 e' he => exact (leads_step he).trans (ih e')
    case h_2 => exact .refl e

/-- Letting time pass is a run. -/
theorem leads_advance (e : Engine) (ms : Nat) : Leads e (e.advance ms) :=
  (leads_steps _ _ e).trans (leads_move _ (.pass _))

/-- So is an exchange of requests one after the other. -/
theorem leads_exchangeEach (e : Engine) (rs : List Request) : Leads e (e.exchangeEach rs) := by
  unfold exchangeEach
  induction rs generalizing e with
  | nil => exact .refl e
  | cons r rs ih =>
    exact ((leads_move e (.obey (.lookup (.body r)))).trans (leads_steps _ _ _)).trans (ih _)

/-- So is an exchange of requests that all start now. -/
theorem leads_exchangeAll (e : Engine) (rs : List Request) : Leads e (e.exchangeAll rs) := by
  have hcalls : ∀ e : Engine, Leads e (rs.foldl (fun e r => (e.call (.body r)).2) e) := by
    induction rs with
    | nil => exact Leads.refl
    | cons r rs ih => exact fun e => (leads_move e (.obey (.lookup (.body r)))).trans (ih _)
  exact (hcalls e).trans (leads_steps _ _ _)

end Engine

end HeatWatch
