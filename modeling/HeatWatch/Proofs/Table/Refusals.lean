import HeatWatch.Proofs.Table.Results

/-!
# Bodies that cannot be read

Whether a body can be read is up to the kind of the request, whatever is kept. If it cannot, the table
is left as it is and no one is told. If it can, only what was fetched may change. Main statements:

* `decode_error_iff`: the refusal of a body, by kind;
* `deliver_of_refusal`: what is refused is dropped with one line of the log;
* `decode_spares`: both outcomes.
-/

namespace HeatWatch

/-- The error of a reading that failed. -/
def ParseError.of? {α : Type} : Except ParseError α → Option ParseError
  | .error f => some f
  | .ok _ => none

/-- What is wrong with the body of a response to a request of this kind. Nothing is, where a write may
be answered by white space, or by any text. -/
def Request.refusal? (r : Request) (body : String) : Option ParseError :=
  match r with
  | .listSystems => ParseError.of? (Response.systems.decode body)
  | .getSystem _ => ParseError.of? (Response.system.decode body)
  | .getStatus _ => ParseError.of? (Response.status.decode body)
  | .getConfig _ => ParseError.of? (Response.capabilities.decode body)
  | .getCategories .. => ParseError.of? (Response.categories.decode body)
  | .getSoftware _ => ParseError.of? (Response.software.decode body)
  | .getAlarm _ => ParseError.of? (decodeLatestAlarm body)
  | .getParameters .. => ParseError.of? (Response.parameters.decode body)
  | .setParameters .. =>
    if Dispatch.isBlankBody body then none else ParseError.of? (decodeWrites body)
  | .getMode _ => ParseError.of? (Response.mode.decode body)
  | .setMode .. =>
    if Dispatch.isBlankBody body then none else ParseError.of? (Response.mode.decode body)
  | .upsertThermostat .. => none

namespace Dispatch

variable {t : SystemTable} {r : Request} {body : String} {f : ParseError}

/-- What is made of a reading fails as the reading does. -/
theorem map_error_iff {α β : Type} {x : Except ParseError α} {g : α → β} :
    g <$> x = .error f ↔ ParseError.of? x = some f := by
  cases x with
  | error f' =>
    exact ⟨fun h => congrArg some (Except.error.inj h), fun h => congrArg _ (Option.some.inj h)⟩
  | ok a => exact ⟨nofun, nofun⟩

theorem decode_error_iff : decode t r body = .error f ↔ r.refusal? body = some f := by
  unfold decode Request.refusal?
  cases r with
  | setParameters | setMode =>
    dsimp only
    split
    · exact ⟨nofun, nofun⟩
    · exact map_error_iff
  | upsertThermostat => exact ⟨nofun, nofun⟩
  | listSystems | getSystem | getStatus | getConfig | getCategories | getSoftware | getAlarm
  | getParameters | getMode => exact map_error_iff

theorem deliver_of_refusal (h : r.refusal? body = some f) : deliver t r body =
    (t, [.log (.warn ("Dropping " ++ r.kindName ++ " result: " ++ f.text))]) := by
  unfold deliver
  rw [decode_error_iff.2 h]

/-- A body that is refused changes nothing in any table, and no one is told. Any other body is read,
and changes nothing of what the host gave. -/
theorem decode_spares (t : SystemTable) (r : Request) (body : String) :
    match r.refusal? body with
    | some f => decode t r body = .error f ∧ (deliver t r body).1 = t ∧
        ∀ l s u, .callback l s u ∉ (deliver t r body).2
    | none => ∃ u t', decode t r body = .ok (u, t') ∧ (deliver t r body).1 = t' ∧
        ∀ id, (t'.entry id).hosted = (t.entry id).hosted := by
  cases h : r.refusal? body with
  | some f =>
    have hdeliver : deliver t r body = _ := deliver_of_refusal h
    refine ⟨decode_error_iff.2 h, ?_, fun l s u hmem => ?_⟩
    · rw [hdeliver]
    · rw [hdeliver] at hmem
      cases List.mem_singleton.1 hmem
  | none =>
    cases hd : decode t r body with
    | error f =>
      rw [decode_error_iff.1 hd] at h
      cases h
    | ok result =>
      obtain ⟨u, t'⟩ := result
      exact ⟨u, t', rfl, deliver_table hd, decode_hosted hd⟩

end Dispatch

end HeatWatch
