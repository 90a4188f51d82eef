import HeatWatch.Proofs.Table.Capabilities
import HeatWatch.Proofs.Table.Fetched
import Mathlib.Data.List.Induction

/-!
# Operations on the table

Everything that changes the table, and what any sequence of changes keeps. Main statements:

* `entry_apply_of_not_mem`: a change touches the systems that it is about;
* `hosted_apply`: what was fetched is kept apart from what the host gave;
* `agreed_run`: as long as the records that are put in were decoded, the record of a system has the
  capabilities that are kept for it;
* `one_view_of_capabilities`: what is said of the capabilities of a system is always the same.
-/

namespace HeatWatch

/-- The record comes from a response. -/
def System.Decoded (s : System) : Prop :=
  (∃ body, Response.system.decode body = .ok s) ∨
    ∃ body ss, Response.systems.decode body = .ok ss ∧ s ∈ ss

/-- Responses never tell what a system is able to do in its record. -/
theorem System.Decoded.capabilities {s : System} (h : s.Decoded) : s.capabilities = none := by
  rcases h with ⟨body, hs⟩ | ⟨body, ss, hss, hs⟩
  · exact capabilities_of_system hs
  · exact capabilities_of_systems hss hs

/-- Puts one record into an entry. -/
def SystemEntry.updateRecord (e : SystemEntry) (s : System) : SystemEntry :=
  { e with
    record := some (match e.record with
      | some old => old.refresh s
      | none => { s with capabilities := s.capabilities.or e.capabilities }) }

/-- What was fetched, of all that is kept for a system. -/
def SystemEntry.gathered (e : SystemEntry) : SystemEntry :=
  { SystemEntry.empty with
    record := e.record, capabilities := e.capabilities, categories := e.categories }

namespace SystemTable

/-- A change of the table. -/
inductive Op where
  | registerListener (id : SystemId) (l : Listener)
  | removeListener (id : SystemId) (l : Listener)
  | addTracked (id : SystemId) (p : ParameterId)
  | removeTracked (id : SystemId) (p : ParameterId)
  | putThermostat (id : SystemId) (th : Thermostat)
  | removeThermostat (id : SystemId) (th : ThermostatId)
  | setMode (id : SystemId) (m : Mode)
  | mergeSystems (ss : List System)
  | updateSystem (s : System)
  | setCapabilities (id : SystemId) (c : Capabilities)
  | setCategories (id : SystemId) (withParameters : Bool) (cs : List Category)
  deriving DecidableEq

/-- The systems that a change is about. -/
def Op.systems : Op → List SystemId
  | .mergeSystems ss => ss.map (·.id)
  | .updateSystem s => [s.id]
  | .registerListener id _ | .removeListener id _ | .addTracked id _ | .removeTracked id _
  | .putThermostat id _ | .removeThermostat id _ | .setMode id _ | .setCapabilities id _
  | .setCategories id _ _ => [id]

/-- The change puts in what was fetched, and not what the host gave. -/
def Op.isFetch : Op → Bool
  | .mergeSystems _ | .updateSystem _ | .setCapabilities .. | .setCategories .. => true
  | _ => false

/-- The records that are put in come from responses. -/
def Op.Decoded : Op → Prop
  | .mergeSystems ss => ∀ s ∈ ss, s.Decoded
  | .updateSystem s => s.Decoded
  | _ => True

/-- What a change makes of the entry of a system. -/
def Op.edit (id : SystemId) (e : SystemEntry) : Op → SystemEntry
  | .registerListener id' l => if id' = id then { e with listener := some l } else e
  | .removeListener id' l =>
    if id' = id ∧ e.listener = some l then { e with listener := none, tracked := ∅, mode := none }
    else e
  | .addTracked id' p => if id' = id then { e with tracked := e.tracked.insert p () } else e
  | .removeTracked id' p =>
    if id' = id ∧ e.tracked.contains p = true then { e with tracked := e.tracked.erase p } else e
  | .putThermostat id' th =>
    if id' = id then { e with thermostats := e.thermostats.insert th.id th } else e
  | .removeThermostat id' th =>
    if id' = id ∧ e.thermostats.contains th = true then
      { e with thermostats := e.thermostats.erase th }
    else e
  | .setMode id' m =>
    if id' = id then { e with mode := if m.isDefault then none else some m } else e
  | .mergeSystems ss => ss.foldl (fun e s => if s.id = id then SystemEntry.mergeRecord e s else e) e
  | .updateSystem s => if s.id = id then e.updateRecord s else e
  | .setCapabilities id' c =>
    if id' = id then
      { e with
        capabilities := some c
        record := e.record.map fun r => { r with capabilities := some c } }
    else e
  | .setCategories id' withParameters cs =>
    if id' = id then { e with categories := some ⟨withParameters, cs⟩ } else e

/-- The table after a change. -/
def apply (t : SystemTable) : Op → SystemTable
  | .registerListener id l => (t.registerListener id l).2
  | .removeListener id l => (t.removeListener id l).2
  | .addTracked id p => (t.addTracked id p).2.1
  | .removeTracked id p => (t.removeTracked id p).2
  | .putThermostat id th => t.putThermostat id th
  | .removeThermostat id th => (t.removeThermostat id th).2
  | .setMode id m => t.setMode id m
  | .mergeSystems ss => t.mergeSystems ss
  | .updateSystem s => (t.updateSystem s).2
  | .setCapabilities id c => t.setCapabilities id c
  | .setCategories id withParameters cs => t.setCategories id withParameters cs

/-- The table after some changes, the first of them first. -/
def run (t : SystemTable) (ops : List Op) : SystemTable := ops.foldl apply t

theorem run_concat (t : SystemTable) (ops : List Op) (op : Op) :
    t.run (ops ++ [op]) = (t.run ops).apply op := by
  rw [run, List.foldl_append]
  rfl

theorem run_append (t : SystemTable) (ops more : List Op) :
    t.run (ops ++ more) = (t.run ops).run more := List.foldl_append

variable {t : SystemTable} {op : Op} {id : SystemId}

/-! ## One change -/

theorem entry_modify_at (t : SystemTable) (id' : SystemId) (f : SystemEntry → SystemEntry) :
    (t.modify id' f).entry id = if id' = id then f (t.entry id) else t.entry id := by
  rw [entry_modify]
  split
  case isTrue h => rw [h]
  case isFalse => rfl

/-- A change that is made under a condition on the entry. -/
theorem entry_modify_if (t : SystemTable) (id' : SystemId) (f : SystemEntry → SystemEntry)
    (c : SystemEntry → Prop) [DecidablePred c] :
    (if c (t.entry id') then t.modify id' f else t).entry id =
      if id' = id ∧ c (t.entry id) then f (t.entry id) else t.entry id := by
  by_cases hid : id' = id
  · subst hid
    by_cases hc : c (t.entry id')
    · rw [if_pos hc, if_pos ⟨rfl, hc⟩, entry_modify_at, if_pos rfl]
    · rw [if_neg hc, if_neg (not_and_of_not_right _ hc)]
  · rw [if_neg (not_and_of_not_left _ hid)]
    by_cases hc : c (t.entry id')
    · rw [if_pos hc, entry_modify_at, if_neg hid]
    · rw [if_neg hc]

theorem entry_mergeSystems (t : SystemTable) (ss : List System) :
    (t.mergeSystems ss).entry id =
      ss.foldl (fun e s => if s.id = id then SystemEntry.mergeRecord e s else e) (t.entry id) := by
  unfold mergeSystems
  induction ss generalizing t with
  | nil => rfl
  | cons s ss ih =>
    rw [List.foldl_cons, List.foldl_cons, ih, entry_modify_at]

/-- A change makes of the entry of each system what it makes of it by itself. -/
theorem entry_apply (t : SystemTable) (op : Op) (id : SystemId) :
    (t.apply op).entry id = op.edit id (t.entry id) := by
  cases op with
  | registerListener id' l => exact t.entry_modify_at id' _
  | addTracked id' p => exact t.entry_modify_at id' _
  | putThermostat id' th => exact t.entry_modify_at id' _
  | setMode id' m => exact t.entry_modify_at id' _
  | setCapabilities id' c => exact t.entry_modify_at id' _
  | setCategories id' withParameters cs => exact t.entry_modify_at id' _
  | mergeSystems ss => exact t.entry_mergeSystems ss
  | updateSystem s =>
    refine (t.entry_modify s.id id _).trans ?_
    show _ = if s.id = id then (t.entry id).updateRecord s else t.entry id
    split
    case isTrue h =>
      subst h
      rfl
    case isFalse => rfl
  | removeListener id' l =>
    have htable : (t.removeListener id' l).2 = if (t.entry id').listener = some l then
        t.modify id' fun e => { e with listener := none, tracked := ∅, mode := none } else t := by
      unfold removeListener
      split <;> rfl
    exact (congrArg (·.entry id) htable).trans (t.entry_modify_if id' _ (·.listener = some l))
  | removeTracked id' p =>
    have htable : (t.removeTracked id' p).2 = if (t.entry id').tracked.contains p = true then
        t.modify id' fun e => { e with tracked := e.tracked.erase p } else t := by
      unfold removeTracked
      split <;> rfl
    exact (congrArg (·.entry id) htable).trans
      (t.entry_modify_if id' _ (·.tracked.contains p = true))
  | removeThermostat id' th =>
    have htable : (t.removeThermostat id' th).2 =
        if (t.entry id').thermostats.contains th = true then
          t.modify id' fun e => { e with thermostats := e.thermostats.erase th } else t := by
      unfold removeThermostat SortedMap.contains
      cases (t.entry id').thermostats.get? th <;> rfl
    exact (congrArg (·.entry id) htable).trans
      (t.entry_modify_if id' _ (·.thermostats.contains th = true))

/-- No change touches another system than those it is about. -/
theorem entry_apply_of_not_mem (h : id ∉ op.systems) : (t.apply op).entry id = t.entry id := by
  rw [entry_apply]
  cases op with
  | mergeSystems ss =>
    show ss.foldl _ (t.entry id) = t.entry id
    generalize t.entry id = e
    induction ss with
    | nil => rfl
    | cons s ss ih =>
      obtain ⟨hs, hss⟩ := not_or.1 (mt List.mem_cons.2 h)
      rw [List.foldl_cons, if_neg (Ne.symm hs)]
      exact ih hss
  | registerListener id' | addTracked id' | putThermostat id' | setMode id' | setCapabilities id'
  | setCategories id' => exact if_neg fun heq => h (List.mem_singleton.2 heq.symm)
  | updateSystem s => exact if_neg fun heq => h (List.mem_singleton.2 heq.symm)
  | removeListener id' | removeTracked id' | removeThermostat id' =>
    exact if_neg fun hboth => h (List.mem_singleton.2 hboth.1.symm)

/-- What is fetched leaves alone what the host gave. -/
theorem hosted_apply (t : SystemTable) (h : op.isFetch = true) (id : SystemId) :
    ((t.apply op).entry id).hosted = (t.entry id).hosted := by
  cases op with
  | mergeSystems ss => exact t.hosted_mergeSystems id ss
  | updateSystem s => exact t.hosted_updateSystem id s
  | setCapabilities id' c => exact t.hosted_setCapabilities id' id c
  | setCategories id' withParameters cs => exact t.hosted_setCategories id' id withParameters cs
  | _ => cases h

/-- What the host gives leaves alone what was fetched. -/
theorem gathered_apply (t : SystemTable) (h : op.isFetch = false) (id : SystemId) :
    ((t.apply op).entry id).gathered = (t.entry id).gathered := by
  rw [entry_apply]
  cases op with
  | mergeSystems | updateSystem | setCapabilities | setCategories => cases h
  | _ =>
    unfold Op.edit
    dsimp only
    split <;> rfl

/-! ## Capabilities -/

theorem agreed_apply (h : t.Agreed) (hop : op.Decoded) : (t.apply op).Agreed := by
  by_cases hfetch : op.isFetch = true
  · cases op with
    | mergeSystems ss => exact h.mergeSystems fun s hs => (hop s hs).capabilities
    | updateSystem s => exact h.updateSystem (System.Decoded.capabilities hop)
    | setCapabilities id c => exact h.setCapabilities c
    | setCategories => exact h.modify fun _ he => he
    | _ => cases hfetch
  · intro id r hr
    have hsame := t.gathered_apply (Bool.not_eq_true _ ▸ hfetch) id
    rw [show ((t.apply op).entry id).capabilities = (t.entry id).capabilities from
      congrArg (·.capabilities) hsame]
    exact h id r ((congrArg (·.record) hsame).symm.trans hr)

theorem agreed_run {ops : List Op} (h : ∀ op ∈ ops, op.Decoded) : (empty.run ops).Agreed := by
  induction ops using List.reverseRecOn with
  | nil => exact agreed_empty
  | append_singleton ops op ih =>
    rw [run_concat]
    exact agreed_apply (ih fun op' hop' => h op' (List.mem_append_left _ hop'))
      (h op (List.mem_append_right _ List.mem_cons_self))

/-- What a system is able to do stays known. -/
theorem capabilities?_apply (h : (t.capabilities? id).isSome = true) :
    ((t.apply op).capabilities? id).isSome = true := by
  by_cases hfetch : op.isFetch = true
  · cases op with
    | mergeSystems ss => exact (Takes.listing ss).capabilities? h
    | updateSystem s => exact (Takes.record id s).capabilities? h
    | setCapabilities id' c => exact (Takes.capabilities id' c).capabilities? h
    | setCategories id' withParameters cs =>
      exact (Takes.categories id' withParameters cs).capabilities? h
    | _ => cases hfetch
  · have hsame := t.gathered_apply (Bool.not_eq_true _ ▸ hfetch) id
    rwa [show (t.apply op).capabilities? id = t.capabilities? id from
      congrArg (·.capabilities) hsame]

theorem capabilities?_run (ops : List Op) (h : (t.capabilities? id).isSome = true) :
    ((t.run ops).capabilities? id).isSome = true := by
  induction ops generalizing t with
  | nil => exact h
  | cons op ops ih => exact ih (capabilities?_apply h)

/-- The record that comes of a record from the service has what is known of what the system is able
to do, and is the one that the listener is told. -/
theorem Agreed.deliver_record (h : t.Agreed) {body : String} {s : System} (id : SystemId)
    (hs : Response.system.decode body = .ok s) :
    (Dispatch.deliver t (.getSystem id) body).1.system? s.id =
        some { s with capabilities := t.capabilities? s.id } ∧
      ∀ l s' u, .callback l s' u ∈ (Dispatch.deliver t (.getSystem id) body).2 ↔
        t.listener? id = some l ∧ s' = id ∧
          u = .system { s with capabilities := t.capabilities? s.id } := by
  obtain ⟨hentries, hcallbacks⟩ := Dispatch.deliver_record t id hs
  rw [updateSystem_of_agreed h (capabilities_of_system hs)] at hentries hcallbacks
  refine ⟨?_, hcallbacks⟩
  show ((Dispatch.deliver t (.getSystem id) body).1.entry s.id).record = _
  rw [hentries, if_pos rfl]

/-- However the responses and the changes that the host makes follow each other, the record of a
system has the capabilities that are kept for it, and these are never forgotten. A record that is
told is the one that is kept from then on. -/
theorem one_view_of_capabilities (ops : List Op) (h : ∀ op ∈ ops, op.Decoded) :
    (∀ id r, (empty.run ops).system? id = some r →
        r.capabilities = (empty.run ops).capabilities? id) ∧
      (∀ more id, ((empty.run ops).capabilities? id).isSome = true →
        ((empty.run (ops ++ more)).capabilities? id).isSome = true) ∧
      ∀ id body s, Response.system.decode body = .ok s →
        let kept := { s with capabilities := (empty.run ops).capabilities? s.id }
        let told := Dispatch.deliver (empty.run ops) (.getSystem id) body
        told.1.system? s.id = some kept ∧ ∀ l s' u, .callback l s' u ∈ told.2 ↔
          (empty.run ops).listener? id = some l ∧ s' = id ∧ u = .system kept := by
  have hagreed : (empty.run ops).Agreed := agreed_run h
  refine ⟨hagreed, fun more id hc => ?_, fun id body s hs => hagreed.deliver_record id hs⟩
  rw [run_append]
  exact capabilities?_run more hc

/-- A record, what the system is able to do and a listing come in; nothing of it is lost. -/
theorem capabilities_kept_by_listing :
    let body := "\x7b\"systemId\":2,\"name\":\"Home\",\"productName\":\"F1245\"," ++
      "\"securityLevel\":\"ADMIN\",\"serialNumber\":\"1\"," ++
      "\"lastActivityDate\":\"2020-01-01T00:00:00Z\",\"connectionStatus\":\"ONLINE\"," ++
      "\"hasAlarmed\":false\x7d"
    ∃ s, Response.system.decode body = .ok s ∧
      let t := empty.run [.updateSystem s, .setCapabilities s.id ⟨true, true, false, false⟩,
        .mergeSystems [s]]
      (t.capabilities? s.id).isSome = true ∧
        ∀ r, t.system? s.id = some r → r.capabilities = t.capabilities? s.id := by
  intro body
  have hread : (Response.system.decode body).toOption.isSome = true := by decide +kernel
  obtain ⟨s, hs⟩ : ∃ s, Response.system.decode body = .ok s := by
    cases hd : Response.system.decode body with
    | error f =>
      rw [hd] at hread
      cases hread
    | ok s => exact ⟨s, rfl⟩
  have hdecoded : s.Decoded := .inl ⟨body, hs⟩
  have hone := one_view_of_capabilities
    [.updateSystem s, .setCapabilities s.id ⟨true, true, false, false⟩, .mergeSystems [s]] (by
      simp [Op.Decoded, hdecoded])
  have hearlier := one_view_of_capabilities
    [.updateSystem s, .setCapabilities s.id ⟨true, true, false, false⟩] (by
      simp [Op.Decoded, hdecoded])
  refine ⟨s, hs, hearlier.2.1 [.mergeSystems [s]] s.id ?_, hone.1 s.id⟩
  show (SystemTable.capabilities? (setCapabilities ..) _).isSome = true
  rw [capabilities?_setCapabilities, if_pos rfl]
  rfl

end SystemTable

end HeatWatch
