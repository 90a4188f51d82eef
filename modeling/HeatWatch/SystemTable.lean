import HeatWatch.Listener

/-!
# Table of systems

What the poller keeps for each system: the last record, what the system is able to do, its
categories, the parameters to poll, the thermostats and the mode to submit again, and the
listener. The entries stand in the order of the systems' numbers.
-/

namespace HeatWatch

/-- Categories that were fetched, with or without their parameters. -/
structure CachedCategories where
  withParameters : Bool
  categories : List Category
  deriving DecidableEq, Repr

/-- What is kept for a system. -/
structure SystemEntry where
  record : Option System
  capabilities : Option Capabilities
  categories : Option CachedCategories
  tracked : SortedSet ParameterId
  thermostats : SortedMap ThermostatId Thermostat
  /-- A mode other than the default one. -/
  mode : Option Mode
  listener : Option Listener
  deriving DecidableEq

/-- Nothing is known of a system. -/
def SystemEntry.empty : SystemEntry := ⟨none, none, none, ∅, ∅, none, none⟩

/-- What is kept for every system. -/
structure SystemTable where
  entries : SortedMap SystemId SystemEntry
  deriving DecidableEq

namespace SystemTable

def empty : SystemTable := ⟨∅⟩

/-- What is kept for a system; nothing if there is no entry. -/
def entry (t : SystemTable) (id : SystemId) : SystemEntry := (t.entries.get? id).getD .empty

/-- Changes what is kept for a system. -/
def modify (t : SystemTable) (id : SystemId) (f : SystemEntry → SystemEntry) : SystemTable :=
  ⟨t.entries.insert id (f (t.entry id))⟩

@[simp] theorem entry_empty (id : SystemId) : empty.entry id = .empty := rfl

/-- A change touches one system only. -/
@[simp] theorem entry_modify (t : SystemTable) (id id' : SystemId) (f : SystemEntry → SystemEntry) :
    (t.modify id f).entry id' = if id = id' then f (t.entry id) else t.entry id' := by
  have h : rank id = rank id' ↔ id = id' := ⟨rank_inj, fun h => h ▸ rfl⟩
  simp only [entry, modify, SortedMap.get?_insert, h]
  split <;> rfl

/-! ## Listeners -/

/-- Registers the listener of a system, and gives the one that it replaces. -/
def registerListener (t : SystemTable) (id : SystemId) (l : Listener) :
    Option Listener × SystemTable :=
  ((t.entry id).listener, t.modify id fun e => { e with listener := some l })

/-- Removes a listener if it is the one of the system. The parameters to poll and the mode go with
it; the thermostats stay. -/
def removeListener (t : SystemTable) (id : SystemId) (l : Listener) : Bool × SystemTable :=
  if (t.entry id).listener = some l then
    (true, t.modify id fun e => { e with listener := none, tracked := ∅, mode := none })
  else (false, t)

def listener? (t : SystemTable) (id : SystemId) : Option Listener := (t.entry id).listener

/-- The systems that have a listener, in order. -/
def listened (t : SystemTable) : List SystemId :=
  (t.entries.entries.filter fun (_, e) => e.listener.isSome).map (·.1)

def listenerCount (t : SystemTable) : Nat :=
  (t.entries.values.filter fun e => e.listener.isSome).length

/-! ## Parameters to poll -/

/-- Adds a parameter to poll; tells whether it is new. -/
def addTracked (t : SystemTable) (id : SystemId) (p : ParameterId) :
    Bool × SystemTable × List LogLine :=
  let e := t.entry id
  (!e.tracked.contains p, t.modify id fun e => { e with tracked := e.tracked.insert p () },
    if e.listener.isNone then
      [.debug ("Tracking parameter " ++ p.text ++ " for system " ++ id.text
        ++ " which has no listener yet")]
    else [])

/-- Takes a parameter out of the ones to poll; tells whether it was there. -/
def removeTracked (t : SystemTable) (id : SystemId) (p : ParameterId) : Bool × SystemTable :=
  if (t.entry id).tracked.contains p then
    (true, t.modify id fun e => { e with tracked := e.tracked.erase p })
  else (false, t)

/-- The parameters to poll, in order. -/
def tracked (t : SystemTable) (id : SystemId) : List ParameterId := (t.entry id).tracked.keys

/-! ## What is submitted again -/

def putThermostat (t : SystemTable) (id : SystemId) (th : Thermostat) : SystemTable :=
  t.modify id fun e => { e with thermostats := e.thermostats.insert th.id th }

/-- Takes out a thermostat and gives it. -/
def removeThermostat (t : SystemTable) (id : SystemId) (th : ThermostatId) :
    Option Thermostat × SystemTable :=
  match (t.entry id).thermostats.get? th with
  | some v => (some v, t.modify id fun e => { e with thermostats := e.thermostats.erase th })
  | none => (none, t)

/-- The thermostats of every system that has any, in order. -/
def thermostats (t : SystemTable) : List (SystemId × List Thermostat) :=
  (t.entries.entries.filter fun (_, e) => !e.thermostats.entries.isEmpty).map fun (id, e) =>
    (id, e.thermostats.values)

/-- Keeps the mode that was asked for; the default mode overrides nothing. -/
def setMode (t : SystemTable) (id : SystemId) (m : Mode) : SystemTable :=
  t.modify id fun e => { e with mode := if m.isDefault then none else some m }

/-- The systems with a mode of their own, in order. -/
def modeOverrides (t : SystemTable) : List (SystemId × Mode) :=
  t.entries.entries.filterMap fun (id, e) => e.mode.map fun m => (id, m)

/-! ## What was fetched -/

/-- Puts the record of a listing into an entry. -/
def SystemEntry.mergeRecord (e : SystemEntry) (s : System) : SystemEntry :=
  let record :=
    match e.record with
    | some old => old.refresh s
    | none => s
  { e with record := some { record with capabilities := record.capabilities.or e.capabilities } }

/-- Puts the records of a listing into the table. -/
def mergeSystems (t : SystemTable) (systems : List System) : SystemTable :=
  systems.foldl (fun t s => t.modify s.id fun e => SystemEntry.mergeRecord e s) t

/-- Puts one record into the table, and gives it as the table has it now. -/
def updateSystem (t : SystemTable) (s : System) : System × SystemTable :=
  let e := t.entry s.id
  let record :=
    match e.record with
    | some old => old.refresh s
    | none => { s with capabilities := s.capabilities.or e.capabilities }
  (record, t.modify s.id fun e => { e with record := some record })

def system? (t : SystemTable) (id : SystemId) : Option System := (t.entry id).record

/-- The records, in order. -/
def systems (t : SystemTable) : List System := t.entries.values.filterMap (·.record)

/-- Keeps what a system is able to do, in its record too. -/
def setCapabilities (t : SystemTable) (id : SystemId) (c : Capabilities) : SystemTable :=
  t.modify id fun e =>
    { e with
      capabilities := some c
      record := e.record.map fun r => { r with capabilities := some c } }

def capabilities? (t : SystemTable) (id : SystemId) : Option Capabilities :=
  (t.entry id).capabilities

def setCategories (t : SystemTable) (id : SystemId) (withParameters : Bool)
    (categories : List Category) : SystemTable :=
  t.modify id fun e => { e with categories := some ⟨withParameters, categories⟩ }

/-- The categories kept, if they have the parameters that are asked for. -/
def categories? (t : SystemTable) (id : SystemId) (withParameters : Bool) :
    Option (List Category) :=
  match (t.entry id).categories with
  | some c => if c.withParameters || !withParameters then some c.categories else none
  | none => none

end SystemTable

end HeatWatch
