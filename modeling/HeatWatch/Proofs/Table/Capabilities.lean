import HeatWatch.Proofs.Table.Results

/-!
# What a system is able to do

The service says in a response of its own what a system is able to do, and never in the record of the
system. The table puts the two together. Main statements:

* `capabilities_of_system`, `capabilities_of_systems`: records come without capabilities;
* `Agreed.deliver`, `Agreed.read`: the record of a system has the capabilities that are kept for it,
  whatever results come in;
* `updateSystem_of_agreed`: so it is with a record that is put into the table.
-/

namespace HeatWatch

open Json (Shape of_map_ok)

/-! ## Records -/

theorem Response.read_of_decode {α : Type} {r : Response α} {body : String} {a : α}
    (h : r.decode body = .ok a) : ∃ v, r.shape.read v = .ok a := by
  unfold decode decodeAt at h
  cases hshape : r.shape.decode body with
  | error f =>
    rw [hshape] at h
    cases h
  | ok b =>
    rw [hshape] at h
    obtain rfl : b = a := Except.ok.inj h
    exact Shape.read_of_decode hshape

theorem System.capabilities_of_read {v : Json.Value} {s : System} (h : shape.read v = .ok s) :
    s.capabilities = none := by
  obtain ⟨_, -, rfl⟩ := Shape.make_of_read h
  rfl

theorem capabilities_of_system {body : String} {s : System}
    (h : Response.system.decode body = .ok s) : s.capabilities = none := by
  obtain ⟨v, hv⟩ := Response.read_of_decode h
  exact System.capabilities_of_read hv

/-- The objects of a page were read as a list. -/
theorem objects_of_page {α : Type} {s : Shape α} {v : Json.Value} {as : List α}
    (h : (pageShape s).read v = .ok as) : ∃ w, (Shape.list s).read w = .ok as := by
  obtain ⟨⟨_, _, _, objects, _⟩, ⟨-, -, -, hobjects, -⟩, rfl⟩ := Shape.make_of_read h
  exact hobjects

theorem capabilities_of_systems {body : String} {ss : List System} {s : System}
    (h : Response.systems.decode body = .ok ss) (hs : s ∈ ss) : s.capabilities = none := by
  obtain ⟨v, hv⟩ := Response.read_of_decode h
  obtain ⟨w, hw⟩ := objects_of_page hv
  obtain ⟨_, hread⟩ := Shape.read_of_mem hw hs
  exact System.capabilities_of_read hread

/-! ## The table -/

/-- The record has the capabilities that are kept. -/
def SystemEntry.Agreed (e : SystemEntry) : Prop :=
  ∀ r, e.record = some r → r.capabilities = e.capabilities

namespace SystemTable

variable {t t' : SystemTable} {id : SystemId} {body : String}

/-- The record of each system has the capabilities that are kept for the system. -/
def Agreed (t : SystemTable) : Prop := ∀ id, (t.entry id).Agreed

theorem agreed_empty : empty.Agreed := by
  intro id r hr
  cases hr

theorem Agreed.modify (h : t.Agreed) {f : SystemEntry → SystemEntry}
    (hf : ∀ e, e.Agreed → (f e).Agreed) : (t.modify id f).Agreed := by
  intro id'
  rw [entry_modify]
  split
  · exact hf _ (h _)
  · exact h id'

theorem agreed_mergeRecord {e : SystemEntry} (h : e.Agreed) {s : System}
    (hs : s.capabilities = none) : (SystemEntry.mergeRecord e s).Agreed := by
  intro r hr
  obtain rfl := Option.some.inj hr
  dsimp only
  split
  case h_1 old hold =>
    show (s.capabilities.or old.capabilities).or e.capabilities = e.capabilities
    rw [hs, Option.none_or, h old hold, Option.or_self]
  case h_2 =>
    show s.capabilities.or e.capabilities = e.capabilities
    rw [hs, Option.none_or]

theorem Agreed.mergeSystems (h : t.Agreed) {ss : List System}
    (hss : ∀ s ∈ ss, s.capabilities = none) : (t.mergeSystems ss).Agreed := by
  unfold SystemTable.mergeSystems
  induction ss generalizing t with
  | nil => exact h
  | cons s ss ih =>
    obtain ⟨hs, hrest⟩ := List.forall_mem_cons.1 hss
    exact ih (h.modify fun _ he => agreed_mergeRecord he hs) hrest

theorem Agreed.setCapabilities (h : t.Agreed) (c : Capabilities) :
    (t.setCapabilities id c).Agreed := by
  refine h.modify fun e _ r hr => ?_
  obtain ⟨_, -, rfl⟩ := Option.map_eq_some_iff.1 hr
  rfl

/-- A record that is put into the table gets the capabilities that are kept. -/
theorem updateSystem_of_agreed (h : t.Agreed) {s : System} (hs : s.capabilities = none) :
    (t.updateSystem s).1 = { s with capabilities := t.capabilities? s.id } := by
  unfold updateSystem
  dsimp only
  split
  case h_1 old hold =>
    show { s with capabilities := s.capabilities.or old.capabilities } = _
    rw [hs, Option.none_or, h s.id old hold]
    rfl
  case h_2 =>
    rw [hs, Option.none_or]
    rfl

theorem Agreed.updateSystem (h : t.Agreed) {s : System} (hs : s.capabilities = none) :
    (t.updateSystem s).2.Agreed := by
  intro id
  rw [entry_updateSystem]
  split
  · intro r hr
    obtain rfl := Option.some.inj hr
    rw [updateSystem_of_agreed h hs]
    rfl
  · exact h id

/-- So it is whatever result comes in. -/
theorem Agreed.deliver (h : t.Agreed) (r : Request) : (Dispatch.deliver t r body).1.Agreed := by
  cases hd : Dispatch.decode t r body with
  | error f => rwa [Dispatch.deliver_of_error hd]
  | ok result =>
    obtain ⟨u, t'⟩ := result
    rw [Dispatch.deliver_table hd]
    unfold Dispatch.decode at hd
    cases r with
    | listSystems =>
      obtain ⟨ss, hss, heq⟩ := of_map_ok hd
      cases heq
      exact h.mergeSystems fun s hs => capabilities_of_systems hss hs
    | getSystem =>
      obtain ⟨s, hs, heq⟩ := of_map_ok hd
      cases heq
      exact h.updateSystem (capabilities_of_system hs)
    | getConfig =>
      obtain ⟨c, -, heq⟩ := of_map_ok hd
      cases heq
      exact h.setCapabilities c
    | getCategories =>
      obtain ⟨cs, -, heq⟩ := of_map_ok hd
      cases heq
      exact h.modify fun _ he => he
    | getStatus | getSoftware | getAlarm | getParameters | getMode =>
      obtain ⟨a, -, heq⟩ := of_map_ok hd
      cases heq
      exact h
    | setParameters | setMode =>
      dsimp only at hd
      split at hd
      · cases hd
        exact h
      · obtain ⟨a, -, heq⟩ := of_map_ok hd
        cases heq
        exact h
    | upsertThermostat =>
      cases hd
      exact h

/-- So it is whatever a lookup finds. -/
theorem Agreed.read (h : t.Agreed) {l : Lookup} {f : Finding} (hl : l.read t body = .ok (f, t')) :
    t'.Agreed := by
  unfold Lookup.read at hl
  cases l with
  | systems =>
    obtain ⟨ss, hss, heq⟩ := of_map_ok hl
    cases heq
    exact h.mergeSystems fun s hs => capabilities_of_systems hss hs
  | capabilities =>
    obtain ⟨c, -, heq⟩ := of_map_ok hl
    cases heq
    exact h.setCapabilities c
  | categories =>
    obtain ⟨cs, -, heq⟩ := of_map_ok hl
    cases heq
    exact h.modify fun _ he => he
  | body =>
    cases hl
    exact h

end SystemTable

end HeatWatch
