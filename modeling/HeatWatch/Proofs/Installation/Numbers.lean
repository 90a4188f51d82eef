import HeatWatch.Proofs.Json.Numbers
import HeatWatch.Response

/-!
# Numbers of the models

The identifiers, measured values, counts, levels and temperatures that the bodies of responses hold. Main
statements:

* `System.numbers`, `Parameter.numbers`, `AlarmInfo.numbers`, `Page.numbers` and so on: where they stand;
* `ReadsNumbers`: the body of a response is read with all its numbers, each of them exactly;
* `responses_readNumbers`: so it is with the bodies of all responses and of thermostats.
-/

namespace HeatWatch

open Json
open Decimal.Whole (Kind)

/-! ## Words -/

def i64Numbers {α : Type} (word : α → Int64) : Set (NumberSite α) :=
  {.whole .i64 (by decide) fun a => (word a).toInt}

def i32Numbers {α : Type} (word : α → Int32) : Set (NumberSite α) :=
  {.whole .i32 (by decide) fun a => (word a).toInt}

def u32Numbers : Set (NumberSite UInt32) := {.whole .u32 (by decide) fun a => a.toNat}

theorem i64_numbers {α : Type} {of : Int64 → α} {word : α → Int64} (h : ∀ n, word (of n) = n) :
    (Shape.whole (i64.as of)).Numbers (i64Numbers word) :=
  .whole (t := i64.as of) (show IsWord Kind.i64 by decide) fun n hn => by
    rw [WholeType.as, h]
    exact toInt_ofInt_i64 hn

theorem i32_numbers {α : Type} {of : Int32 → α} {word : α → Int32} (h : ∀ n, word (of n) = n) :
    (Shape.whole (i32.as of)).Numbers (i32Numbers word) :=
  .whole (t := i32.as of) (show IsWord Kind.i32 by decide) fun n hn => by
    rw [WholeType.as, h]
    exact toInt_ofInt_i32 hn

theorem u32_numbers : (Shape.whole u32).Numbers u32Numbers := .whole (t := u32) (by decide) fun _ => toNat_ofInt_u32

def plainI64 : Set (NumberSite Int64) := i64Numbers id

def plainI32 : Set (NumberSite Int32) := i32Numbers id

theorem plainI64_numbers : (Shape.whole i64).Numbers plainI64 := @i64_numbers _ id id fun _ => rfl

theorem plainI32_numbers : (Shape.whole i32).Numbers plainI32 := @i32_numbers _ id id fun _ => rfl

/-! ## Systems and parameters -/

theorem SystemId.shape_numbers : System.idShape.Numbers (i64Numbers SystemId.val) := i64_numbers fun _ => rfl

def System.numbers : Set (NumberSite System) := fieldNumbers "systemId" 0 System.id (i64Numbers SystemId.val)

theorem System.shape_numbers : shape.Numbers numbers where
  every path k := by
    simp [shape, numbers, Shape.NumberAt, Fields.NumberAt, hasNumber_field, SystemId.shape_numbers.every,
      SecurityLevel.shape, ConnectionStatus.shape, timestampShape]
  shows := SystemId.shape_numbers.shows_field .required (by decide) fun _ => rfl

theorem ParameterId.shape_numbers : (Shape.whole (i64.as ParameterId.mk)).Numbers (i64Numbers ParameterId.val) :=
  i64_numbers fun _ => rfl

def Parameter.numbers : Set (NumberSite Parameter) :=
  fieldNumbers "parameterId" 0 Parameter.id (i64Numbers ParameterId.val) ∪
    fieldNumbers "rawValue" 6 Parameter.rawValue plainI64

theorem Parameter.shape_numbers : shape.Numbers numbers where
  every path k := by
    simp [shape, numbers, Shape.NumberAt, Fields.NumberAt, hasNumber_union, hasNumber_field,
      ← ParameterId.shape_numbers.every, ← plainI64_numbers.every, and_or_left, exists_or]
  shows := by
    rintro x (hx | hx)
    · exact ParameterId.shape_numbers.shows_field .required (by decide) (by intro; rfl) x hx
    · exact plainI64_numbers.shows_field (by repeat constructor) (by decide) (by intro; rfl) x hx

def Category.numbers : Set (NumberSite Category) :=
  fieldNumbers "parameters" 2 Category.parameters (NumberSite.optional '' itemNumbers Parameter.numbers)

theorem Category.shape_numbers : shape.Numbers numbers where
  every path k := by
    simp [shape, numbers, Shape.NumberAt, Fields.NumberAt, hasNumber_field, hasNumber_optional, hasNumber_items,
      Parameter.shape_numbers.every]
  shows := Parameter.shape_numbers.list.optional.shows_field (by repeat constructor) (by decide) (by intro; rfl)

def ParameterWrite.numbers : Set (NumberSite ParameterWrite) :=
  fieldNumbers "parameter" 1 ParameterWrite.parameter Parameter.numbers

theorem ParameterWrite.shape_numbers : shape.Numbers numbers where
  every path k := by
    simp [shape, numbers, Shape.NumberAt, Fields.NumberAt, hasNumber_field, Parameter.shape_numbers.every]
  shows := Parameter.shape_numbers.shows_field (by repeat constructor) (by decide) (by intro; rfl)

theorem Capabilities.shape_numbers : shape.Numbers ∅ :=
  .none fun path k => by simp [shape, Shape.NumberAt, Fields.NumberAt]

/-! ## Software and alarms -/

theorem SoftwareInfo.shape_numbers : shape.Numbers ∅ :=
  .none fun path k => by
    simp [shape, SoftwareVersion.shape, SoftwareUpgrade.shape, Shape.NumberAt, Fields.NumberAt]

def AlarmInfo.numbers : Set (NumberSite AlarmInfo) :=
  fieldNumbers "notificationId" 0 AlarmInfo.notificationId plainI64 ∪
    (fieldNumbers "alarmNumber" 2 AlarmInfo.alarmNumber (NumberSite.optional '' plainI64) ∪
      (fieldNumbers "severity" 3 AlarmInfo.severity (NumberSite.optional '' plainI32) ∪
        fieldNumbers "status" 4 AlarmInfo.status (NumberSite.optional '' plainI32)))

theorem AlarmInfo.shape_numbers : shape.Numbers numbers where
  every path k := by
    simp [shape, numbers, Shape.NumberAt, Fields.NumberAt, hasNumber_union, hasNumber_field, hasNumber_optional,
      ← plainI64_numbers.every, ← plainI32_numbers.every, and_or_left, exists_or, System.timestampShape]
  shows := by
    rintro x (hx | hx | hx | hx)
    · exact plainI64_numbers.shows_field .required (by decide) (by intro; rfl) x hx
    · exact plainI64_numbers.optional.shows_field (by repeat constructor) (by decide) (by intro; rfl) x hx
    · exact plainI32_numbers.optional.shows_field (by repeat constructor) (by decide) (by intro; rfl) x hx
    · exact plainI32_numbers.optional.shows_field (by repeat constructor) (by decide) (by intro; rfl) x hx

/-- What is made of the fields of a record can be made in two steps. -/
theorem Json.Shape.decode_record {α β γ : Type} {name : String} {fields : Fields γ} {whole : γ → β}
    {make : γ → α} {f : α → β} (h : ∀ g, whole g = f (make g)) (b : String) :
    (Shape.record name fields whole).decode b = f <$> (Shape.record name fields make).decode b := by
  obtain rfl : whole = fun g => f (make g) := funext h
  unfold decode
  cases Reading.ofText b.toList with
  | whole v rest =>
    cases v with
    | list items =>
      simp only [read]
      cases fields.readItems (fields.wanted name) 0 items with
      | error e => rfl
      | ok g =>
        dsimp only
        split <;> rfl
    | object members =>
      simp only [read]
      cases membersTrouble fields.names (fun n v => fields.trouble n v) [] members with
      | some e => rfl
      | none => cases fields.fill (memberNamed? members) <;> rfl
    | null | bool | number | string => rfl
  | broken f => cases f <;> rfl

/-- A page of a list, with the numbers on it. -/
structure Page (α : Type) where
  page : Option UInt32
  itemsPerPage : Option UInt32
  numItems : Option UInt32
  objects : List α

namespace Page

variable {α : Type}

def shape (s : Shape α) : Shape (Page α) :=
  .record "Paged"
    (.defaulted "page" (.optional (.whole Json.u32)) none
      (.defaulted "itemsPerPage" (.optional (.whole Json.u32)) none
        (.defaulted "numItems" (.optional (.whole Json.u32)) none
          (.required "objects" (.list s) .nil))))
    fun (page, itemsPerPage, numItems, objects, _) => ⟨page, itemsPerPage, numItems, objects⟩

/-- A page is read first, and then all but its objects is dropped. -/
theorem decode_pageShape (s : Shape α) (b : String) : (pageShape s).decode b = objects <$> (shape s).decode b :=
  Shape.decode_record (by intro; rfl) b

def numbers (xs : Set (NumberSite α)) : Set (NumberSite (Page α)) :=
  fieldNumbers "page" 0 page (NumberSite.optional '' u32Numbers) ∪
    (fieldNumbers "itemsPerPage" 1 itemsPerPage (NumberSite.optional '' u32Numbers) ∪
      (fieldNumbers "numItems" 2 numItems (NumberSite.optional '' u32Numbers) ∪
        fieldNumbers "objects" 3 objects (itemNumbers xs)))

theorem shape_numbers {s : Shape α} {xs : Set (NumberSite α)} (h : s.Numbers xs) :
    (shape s).Numbers (numbers xs) where
  every path k := by
    simp [shape, numbers, Shape.NumberAt, Fields.NumberAt, hasNumber_union, hasNumber_field, hasNumber_optional,
      hasNumber_items, ← u32_numbers.every, ← h.every, and_or_left, exists_or]
  shows := by
    have distinct : ["page", "itemsPerPage", "numItems", "objects"].Nodup := by decide
    rintro x (hx | hx | hx | hx)
    · exact u32_numbers.optional.shows_field .defaulted (by exact distinct) (by intro; rfl) x hx
    · exact u32_numbers.optional.shows_field (by repeat constructor) (by exact distinct) (by intro; rfl) x hx
    · exact u32_numbers.optional.shows_field (by repeat constructor) (by exact distinct) (by intro; rfl) x hx
    · exact h.list.shows_field (by repeat constructor) (by exact distinct) (by intro; rfl) x hx

end Page

/-! ## Smart home -/

theorem Mode.shape_numbers : envelopeShape.Numbers ∅ :=
  .none fun path k => by simp [envelopeShape, shape, Shape.NumberAt, Fields.NumberAt]

theorem ThermostatId.shape_numbers : (Shape.whole (i64.as ThermostatId.mk)).Numbers (i64Numbers ThermostatId.val) :=
  i64_numbers fun _ => rfl

theorem Temperature.shape_numbers : shape.Numbers (i32Numbers tenths) := i32_numbers fun _ => rfl

def Thermostat.numbers : Set (NumberSite Thermostat) :=
  fieldNumbers "externalId" 0 Thermostat.id (i64Numbers ThermostatId.val) ∪
    (fieldNumbers "climateSystems" 2 climateSystems (NumberSite.optional '' itemNumbers u32Numbers) ∪
      (fieldNumbers "actualTemp" 3 current (NumberSite.optional '' i32Numbers Temperature.tenths) ∪
        fieldNumbers "targetTemp" 4 target (NumberSite.optional '' i32Numbers Temperature.tenths)))

theorem Thermostat.shape_numbers : shape.Numbers numbers where
  every path k := by
    simp [shape, numbers, Shape.NumberAt, Fields.NumberAt, hasNumber_union, hasNumber_field, hasNumber_optional,
      hasNumber_items, ← ThermostatId.shape_numbers.every, ← u32_numbers.every, ← Temperature.shape_numbers.every,
      and_or_left, exists_or]
  shows := by
    rintro x (hx | hx | hx | hx)
    · exact ThermostatId.shape_numbers.shows_field .required (by decide) (by intro; rfl) x hx
    · exact u32_numbers.list.optional.shows_field (by repeat constructor) (by decide) (by intro; rfl) x hx
    · exact Temperature.shape_numbers.optional.shows_field (by repeat constructor) (by decide) (by intro; rfl) x hx
    · exact Temperature.shape_numbers.optional.shows_field (by repeat constructor) (by decide) (by intro; rfl) x hx

/-! ## Responses -/

/-- What `f` makes of a body is a part of what is read as a shape, or the failure of that, and all numbers of the
shape are read exactly. -/
structure ReadsNumbers {α β : Type} (f : String → Except ParseError β) (what : String) (s : Shape α)
    (part : α → β) (xs : Set (NumberSite α)) : Prop where
  decode_eq : ∀ b, f b = (part <$> s.decode b).mapError (ParseError.ofFailure what)
  numbers : s.ReadsNumbers xs

theorem Response.decode_eq {α : Type} (r : Response α) (b : String) :
    r.decode b = (id <$> r.shape.decode b).mapError (ParseError.ofFailure r.what) := by
  rw [id_map]
  rfl

/-- The numbers of all bodies are read exactly. Those of a page are read with it and then dropped. -/
theorem responses_readNumbers :
    ReadsNumbers Response.systems.decode "system list" (Page.shape System.shape) Page.objects
        (Page.numbers System.numbers) ∧
      ReadsNumbers Response.system.decode "system" System.shape id System.numbers ∧
      ReadsNumbers Response.capabilities.decode "system config" Capabilities.shape id ∅ ∧
      ReadsNumbers Response.categories.decode "categories" (.list Category.shape) id
        (itemNumbers Category.numbers) ∧
      ReadsNumbers Response.status.decode "system status" (.list Category.shape) id
        (itemNumbers Category.numbers) ∧
      ReadsNumbers Response.software.decode "software info" SoftwareInfo.shape id ∅ ∧
      ReadsNumbers decodeLatestAlarm "notifications" (Page.shape AlarmInfo.shape) (fun p => p.objects.head?)
        (Page.numbers AlarmInfo.numbers) ∧
      ReadsNumbers Response.parameters.decode "parameters" (.list Parameter.shape) id
        (itemNumbers Parameter.numbers) ∧
      ReadsNumbers decodeWrites "parameter write result" (.list ParameterWrite.shape)
        (fun ws => ws.map (·.parameter)) (itemNumbers ParameterWrite.numbers) ∧
      ReadsNumbers Response.mode.decode "mode" Mode.envelopeShape id ∅ ∧
      Thermostat.shape.ReadsNumbers Thermostat.numbers := by
  open Json.Shape in
  have hsystems := Page.shape_numbers System.shape_numbers
  have halarms := Page.shape_numbers AlarmInfo.shape_numbers
  have hcategories := Category.shape_numbers.list.readsNumbers not_numberAt_list
  refine ⟨⟨fun b => ?_, hsystems.readsNumbers not_numberAt_record⟩,
    ⟨Response.decode_eq _, System.shape_numbers.readsNumbers not_numberAt_record⟩,
    ⟨Response.decode_eq _, Capabilities.shape_numbers.readsNumbers not_numberAt_record⟩,
    ⟨Response.decode_eq _, hcategories⟩, ⟨Response.decode_eq _, hcategories⟩,
    ⟨Response.decode_eq _, SoftwareInfo.shape_numbers.readsNumbers not_numberAt_record⟩,
    ⟨fun b => ?_, halarms.readsNumbers not_numberAt_record⟩,
    ⟨Response.decode_eq _, Parameter.shape_numbers.list.readsNumbers not_numberAt_list⟩,
    ⟨fun b => ?_, ParameterWrite.shape_numbers.list.readsNumbers not_numberAt_list⟩,
    ⟨Response.decode_eq _, Mode.shape_numbers.readsNumbers not_numberAt_record⟩,
    Thermostat.shape_numbers.readsNumbers not_numberAt_record⟩
  · rw [Response.decode, Response.decodeAt, Response.systems, Page.decode_pageShape]
    rfl
  · rw [decodeLatestAlarm, decodeLatestAlarmAt, Response.decodeAt, Response.alarms, Page.decode_pageShape]
    cases (Page.shape AlarmInfo.shape).decode b <;> rfl
  · rw [decodeWrites, decodeWritesAt, Response.decodeAt, Response.writes]
    cases (Shape.list ParameterWrite.shape).decode b <;> rfl

end HeatWatch
