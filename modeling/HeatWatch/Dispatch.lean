import HeatWatch.SystemTable

/-!
# Results

What the body of a response leads to: it is read as the kind of the request says, what is worth
keeping goes into the table, and the listener of the system is told.
-/

namespace HeatWatch.Dispatch

/-- The body says nothing. -/
def isBlankBody (body : String) : Bool := (Text.trim body.toList).isEmpty

/-- Reads the body of a response, keeps what is to be kept, and gives what a listener is told. The
table stays as it is if the body cannot be read. -/
def decode (t : SystemTable) (r : Request) (body : String) :
    Except ParseError (Option Update × SystemTable) :=
  match r with
  | .listSystems => (fun ss => (none, t.mergeSystems ss)) <$> Response.systems.decode body
  | .getSystem _ =>
    (fun s =>
      let (s, t) := t.updateSystem s
      (some (.system s), t)) <$> Response.system.decode body
  | .getStatus _ => (fun cs => (some (.status cs), t)) <$> Response.status.decode body
  | .getConfig id =>
    (fun c => (none, t.setCapabilities id c)) <$> Response.capabilities.decode body
  | .getCategories id withParameters =>
    (fun cs => (none, t.setCategories id withParameters cs)) <$> Response.categories.decode body
  | .getSoftware _ => (fun s => (some (.software s), t)) <$> Response.software.decode body
  | .getAlarm _ => (fun a => (some (.alarm a), t)) <$> decodeLatestAlarm body
  | .getParameters .. =>
    (fun ps => (some (.parameters ps), t)) <$> Response.parameters.decode body
  | .setParameters .. =>
    if isBlankBody body then .ok (none, t)
    else (fun ps => (some (.parameters ps), t)) <$> decodeWrites body
  | .getMode _ => (fun m => (some (.mode m), t)) <$> Response.mode.decode body
  | .setMode .. =>
    if isBlankBody body then .ok (none, t)
    else (fun m => (some (.mode m), t)) <$> Response.mode.decode body
  | .upsertThermostat .. => .ok (none, t)

/-- Handles the body of a response. One that cannot be read is dropped. -/
def deliver (t : SystemTable) (r : Request) (body : String) : SystemTable × List Notice :=
  match decode t r body with
  | .error e => (t, [.log (.warn ("Dropping " ++ r.kindName ++ " result: " ++ e.text))])
  | .ok (none, t) => (t, [.log (.debug (r.kindName ++ " completed"))])
  | .ok (some u, t) =>
    match r.target? with
    | none => (t, [])
    | some id =>
      match t.listener? id with
      | some l => (t, l.receive id u)
      | none =>
        (t, [.log (.debug ("No listener for system " ++ id.text ++ "; dropping " ++ r.kindName
          ++ " result"))])

end HeatWatch.Dispatch
