import HeatWatch.Proofs.Json.Encoding
import HeatWatch.Request
import Mathlib.Data.List.Perm.Basic

/-!
# What a write carries

The body of a write says exactly what is written: a thermostat reads back as it was, a write of
parameters names each of them once with its value, and a mode reads back as well. So two writes of
one kind with the same body write the same.

* `Thermostat.read_body`, `Mode.read_body`: the bodies that are read by the shape of a model;
* `settingsBody_eq`: the body of a write of parameters;
* `write_bodies_lossless`: what the texts of the three bodies say.
-/

namespace HeatWatch

open Json (Value Shape Fields Quoted Member)
open Decimal (Whole.Kind)

/-! ## Words -/

/-- A word lies in the range of its kind, and is short enough to be read back from its digits. -/
theorem bounds_i64 (n : Int64) :
    Whole.Kind.i64.Holds n.toInt ∧ -0x8000000000000000 ≤ n.toInt ∧
      n.toInt < 0x10000000000000000 := by
  have hlow : -0x8000000000000000 ≤ n.toInt := n.le_toInt
  have hhigh : n.toInt < 0x8000000000000000 := n.toInt_lt
  exact ⟨⟨hlow, Int.le_sub_one_of_lt hhigh⟩, hlow, by omega⟩

theorem bounds_i32 (n : Int32) :
    Whole.Kind.i32.Holds n.toInt ∧ -0x8000000000000000 ≤ n.toInt ∧
      n.toInt < 0x10000000000000000 := by
  have hlow : -0x80000000 ≤ n.toInt := n.le_toInt
  have hhigh : n.toInt < 0x80000000 := n.toInt_lt
  exact ⟨⟨hlow, Int.le_sub_one_of_lt hhigh⟩, by omega, by omega⟩

theorem bounds_u32 (n : UInt32) :
    Whole.Kind.u32.Holds n.toNat ∧ -0x8000000000000000 ≤ (n.toNat : Int) ∧
      (n.toNat : Int) < 0x10000000000000000 := by
  have hhigh : n.toNat < 0x100000000 := n.toNat_lt
  have hle : (n.toNat : Int) ≤ 0xffffffff := by omega
  exact ⟨⟨Int.natCast_nonneg _, hle⟩, by omega, by omega⟩

/-! ## Thermostats -/

namespace Thermostat

/-- The members of the body of a thermostat in the order of its fields. -/
def members (t : Thermostat) : List (String × Value) :=
  ("externalId", .ofInt t.id.val.toInt) :: ("name", .ofText t.name) ::
    ((t.climateSystems.map fun ns =>
        ("climateSystems", Value.list (ns.map fun n => .ofInt n.toNat))).toList
      ++ (t.current.map fun t => ("actualTemp", Value.ofInt t.tenths.toInt)).toList
      ++ (t.target.map fun t => ("targetTemp", Value.ofInt t.tenths.toInt)).toList)

theorem body_eq (t : Thermostat) : Request.thermostatBody t = .ofMembers t.members := rfl

theorem nodup_members (t : Thermostat) : (t.members.map (·.1)).Nodup := by
  obtain ⟨id, name, climate, current, target⟩ := t
  cases climate <;> cases current <;> cases target <;> simp [members]

/-- The value that a member stands for, if the thermostat has it. -/
theorem lookup_toList {α : Type} (x : Option α) (name n : String) (write : α → Value) :
    ((x.map fun a => (name, write a)).toList).lookup n = if n = name then x.map write else none := by
  cases x with
  | none => simp
  | some a =>
    by_cases h : n = name
    · simp [h]
    · have hne : (n == name) = false := beq_eq_false_iff_ne.2 h
      simp [List.lookup_cons, hne, h]

theorem read_temperature (t : Temperature) :
    Temperature.shape.read (.ofInt t.tenths.toInt) = .ok t := by
  obtain ⟨hholds, hfits⟩ := bounds_i32 t.tenths
  have hread := Shape.read_ofInt (t := Json.i32.as Temperature.mk) hholds hfits
  rw [Temperature.shape, hread]
  exact congrArg (fun n => Except.ok (Temperature.mk n)) (Int32.ofInt_toInt t.tenths)

theorem read_id (id : ThermostatId) :
    (Shape.whole (Json.i64.as ThermostatId.mk)).read (.ofInt id.val.toInt) = .ok id := by
  obtain ⟨hholds, hfits⟩ := bounds_i64 id.val
  rw [Shape.read_ofInt (t := Json.i64.as ThermostatId.mk) hholds hfits]
  exact congrArg (fun n => Except.ok (ThermostatId.mk n)) (Int64.ofInt_toInt id.val)

theorem read_climateSystems (ns : List UInt32) :
    (Shape.list (.whole Json.u32)).read (.list (ns.map fun n => .ofInt n.toNat)) = .ok ns := by
  refine Shape.read_list (fun n => ?_) ns
  obtain ⟨hholds, hfits⟩ := bounds_u32 n
  rw [Shape.read_ofInt hholds hfits]
  exact congrArg Except.ok (UInt32.ofNat_toNat (x := n))

/-- A thermostat reads back from its body. -/
theorem read_body (t : Thermostat) : Thermostat.shape.read (Request.thermostatBody t) = .ok t := by
  have hid : t.members.lookup "externalId" = some (.ofInt t.id.val.toInt) := rfl
  have hname : t.members.lookup "name" = some (.ofText t.name) := rfl
  have hclimate : t.members.lookup "climateSystems" =
      t.climateSystems.map fun ns => Value.list (ns.map fun n => .ofInt n.toNat) := by
    simp [members, List.lookup_cons, List.lookup_append, lookup_toList]
  have hcurrent : t.members.lookup "actualTemp" =
      t.current.map fun t => Value.ofInt t.tenths.toInt := by
    simp [members, List.lookup_cons, List.lookup_append, lookup_toList]
  have htarget : t.members.lookup "targetTemp" =
      t.target.map fun t => Value.ofInt t.tenths.toInt := by
    simp [members, List.lookup_cons, List.lookup_append, lookup_toList]
  rw [body_eq, Thermostat.shape]
  refine Shape.read_ofMembers (g := (t.id, t.name, t.climateSystems, t.current, t.target, ()))
    t.nodup_members ?_
  rw [Fields.fill_required hid (read_id t.id), Fields.fill_required hname (Shape.read_ofText t.name),
    Fields.fill_optional hclimate read_climateSystems (fun _ h => by cases h),
    Fields.fill_optional hcurrent read_temperature (fun _ h => by cases h),
    Fields.fill_optional htarget read_temperature (fun _ h => by cases h)]
  rfl

theorem printable_body (t : Thermostat) : (Request.thermostatBody t).Printable := by
  have hlist : ∀ ns : List UInt32, (Value.list (ns.map fun n => .ofInt n.toNat)).Printable := by
    intro ns
    refine .list fun v hv => ?_
    obtain ⟨n, -, rfl⟩ := List.mem_map.1 hv
    exact Value.printable_ofInt n.toNat
  refine Value.printable_ofMembers fun m hm => ?_
  simp only [List.mem_cons, List.mem_append, Option.mem_toList, Option.map_eq_some_iff] at hm
  rcases hm with rfl | rfl | (⟨ns, -, rfl⟩ | ⟨t, -, rfl⟩) | ⟨t, -, rfl⟩
  · exact Value.printable_ofInt _
  · exact Value.printable_ofText _
  · exact hlist ns
  · exact Value.printable_ofInt _
  · exact Value.printable_ofInt _

end Thermostat

/-! ## Parameters -/

theorem intText_inj {m n : Int64} : int64Text m = int64Text n ↔ m = n := by
  constructor
  · intro h
    have hlist : Decimal.Whole.print m.toInt = Decimal.Whole.print n.toInt :=
      String.ofList_inj.1 h
    have hread := Decimal.Whole.read?_print (bounds_i64 m).1
    rw [hlist, Decimal.Whole.read?_print (bounds_i64 n).1] at hread
    exact Int64.toInt_inj.1 (Option.some.inj hread).symm
  · rintro rfl
    rfl

/-- What a member says, if its name is a text and its value a whole number. -/
def Json.Member.setting? (m : Member) : Option (String × Int) :=
  match m.1.text, m.2 with
  | .ok name, .number n => n.integer?.map fun i => (name, i)
  | _, _ => none

namespace Request

/-- The entries of a map as they stand in the body. -/
def settings (values : SortedMap ParameterId Int64) : List (String × Value) :=
  values.entries.map fun e => (e.1.text, .ofInt e.2.toInt)

theorem nodup_settings (values : SortedMap ParameterId Int64) :
    ((settings values).map (·.1)).Nodup := by
  have hkeys : values.entries.Pairwise fun a b => a.1.text ≠ b.1.text := by
    refine values.ascending.imp fun {a b} hab heq => ?_
    have hval : a.1.val = b.1.val := intText_inj.1 heq
    have hrank : rank a.1 = rank b.1 := congrArg Int64.toInt hval
    omega
  rw [settings, List.map_map]
  exact List.pairwise_map.2 hkeys

/-- The body of a write of parameters: an object whose only member is an object with one member for
each entry of the map. -/
theorem settingsBody_eq (values : SortedMap ParameterId Int64) :
    ∃ members : List Member, settingsBody values = .object [(Quoted.ofText "settings", .object members)] ∧
      Json.Ascending members ∧
      (members.map Json.Member.setting?).Perm
        (values.entries.map fun e => some (e.1.text, e.2.toInt)) := by
  obtain ⟨sorted, hperm, hbody, hascending⟩ := Value.ofMembers_eq (nodup_settings values)
  refine ⟨_, ?_, hascending, ?_⟩
  · have houter : settingsBody values = .object [(Quoted.ofText "settings", .ofMembers (settings values))] := rfl
    rw [houter, hbody]
  · have hsetting : ∀ e : ParameterId × Int64,
        Json.Member.setting? (Quoted.ofText e.1.text, .ofInt e.2.toInt) =
          some (e.1.text, e.2.toInt) := by
      intro e
      obtain ⟨-, hfits⟩ := bounds_i64 e.2
      simp only [Json.Member.setting?, Quoted.text_ofText, Value.ofInt,
        Json.Numeral.integer?_ofInt hfits, Option.map_some]
    rw [List.map_map]
    refine (hperm.map _).trans ?_
    rw [settings, List.map_map]
    exact .of_eq (List.map_congr_left fun e _ => hsetting e)

theorem printable_settingsBody (values : SortedMap ParameterId Int64) :
    (settingsBody values).Printable := by
  refine Value.printable_ofMembers fun m hm => ?_
  obtain rfl := List.mem_singleton.1 hm
  refine Value.printable_ofMembers fun m hm => ?_
  obtain ⟨e, -, rfl⟩ := List.mem_map.1 hm
  exact Value.printable_ofInt _

end Request

/-! ## Modes -/

namespace Mode

/-- A mode reads back from its body. -/
theorem read_body (m : Mode) : Mode.envelopeShape.read (Request.modeBody m) = .ok m := by
  have hread : Mode.shape.read (.ofText m.name) = .ok m :=
    Shape.read_choice (by cases m <;> rfl)
  have hlookup : [("mode", Value.ofText m.name)].lookup "mode" = some (.ofText m.name) := rfl
  refine Shape.read_ofMembers (g := (m, ())) (List.nodup_singleton "mode") ?_
  rw [Fields.fill_required hlookup hread]
  rfl

theorem printable_body (m : Mode) : (Request.modeBody m).Printable := by
  refine Value.printable_ofMembers fun n hn => ?_
  obtain rfl := List.mem_singleton.1 hn
  exact Value.printable_ofText m.name

end Mode

/-! ## Texts -/

theorem Json.Value.ofText_toList {v : Value} (h : v.Printable) :
    Json.Reading.ofText v.text.toList = .whole v [] := by
  rw [Value.text, String.toList_ofList]
  exact Json.Reading.ofText_print h

theorem Thermostat.decodeAll_body (t : Thermostat) :
    Thermostat.shape.decodeAll (Request.thermostatBody t).text = .ok t :=
  Shape.decodeAll_text t.printable_body t.read_body

theorem Mode.decodeAll_body (m : Mode) :
    Mode.envelopeShape.decodeAll (Request.modeBody m).text = .ok m :=
  Shape.decodeAll_text m.printable_body m.read_body

theorem Request.settingsBody_text_inj {values values' : SortedMap ParameterId Int64}
    (h : (settingsBody values).text = (settingsBody values').text) : values = values' := by
  obtain ⟨members, hbody, -, hperm⟩ := settingsBody_eq values
  obtain ⟨members', hbody', -, hperm'⟩ := settingsBody_eq values'
  have hvalue : settingsBody values = settingsBody values' :=
    (Value.print_inj (printable_settingsBody values) (printable_settingsBody values')).1
      (String.ofList_inj.1 h)
  have hmembers : members = members' := by
    rw [hbody, hbody'] at hvalue
    have hsettings := (List.cons.inj (Value.object.inj hvalue)).1
    exact Value.object.inj (Prod.mk.inj hsettings).2
  -- the same members stand for the same entries
  have hinj : Function.Injective fun e : ParameterId × Int64 => some (e.1.text, e.2.toInt) := by
    rintro ⟨⟨k⟩, v⟩ ⟨⟨k'⟩, v'⟩ h
    obtain ⟨hname, hvalue⟩ := Prod.mk.inj (Option.some.inj h)
    obtain rfl : k = k' := intText_inj.1 hname
    obtain rfl : v = v' := Int64.toInt_inj.1 hvalue
    rfl
  have hentries : values.entries.Perm values'.entries := by
    rw [hmembers] at hperm
    exact (List.map_perm_map_iff hinj).1 (hperm.symm.trans hperm')
  refine SortedMap.ext_get? fun k => Option.ext fun v => ?_
  rw [← SortedMap.mem_entries_iff, ← SortedMap.mem_entries_iff]
  exact hentries.mem_iff

/-- The bodies of writes are lossless: a thermostat reads back from the text it was submitted with; the
text of a write of parameters has one member for each of them, named by its decimal text, with
exactly its value; names stand in the order of their texts; and equal bodies carry equal values. -/
theorem write_bodies_lossless :
    (∀ id t, ∃ (body : String) (members : List Member),
      (Request.upsertThermostat id t).body? = some body ∧
        Thermostat.shape.decodeAll body = .ok t ∧
        Json.Reading.ofText body.toList = .whole (.object members) [] ∧ Json.Ascending members) ∧
    (∀ id values, ∃ (body : String) (name : Quoted) (members : List Member),
      (Request.setParameters id values).body? = some body ∧
        Json.Reading.ofText body.toList = .whole (.object [(name, .object members)]) [] ∧
        name.text = .ok "settings" ∧ Json.Ascending members ∧
        (members.map Json.Member.setting?).Perm
          (values.entries.map fun e => some (e.1.text, e.2.toInt))) ∧
    (∀ id id' t t', (Request.upsertThermostat id t).body? = (Request.upsertThermostat id' t').body? ↔
      t = t') ∧
    (∀ id id' values values', (Request.setParameters id values).body? =
      (Request.setParameters id' values').body? ↔ values = values') ∧
    (∀ id id' mode mode', (Request.setMode id mode).body? = (Request.setMode id' mode').body? ↔
      mode = mode') := by
  refine ⟨fun id t => ?_, fun id values => ?_, fun id id' t t' => ⟨fun h => ?_, fun h => ?_⟩,
    fun id id' values values' => ⟨fun h => ?_, fun h => ?_⟩,
    fun id id' mode mode' => ⟨fun h => ?_, fun h => ?_⟩⟩
  · obtain ⟨sorted, -, hbody, hascending⟩ := Value.ofMembers_eq t.nodup_members
    refine ⟨_, _, rfl, t.decodeAll_body, ?_, hascending⟩
    rw [Json.Value.ofText_toList t.printable_body, Thermostat.body_eq, hbody]
  · obtain ⟨members, hbody, hascending, hperm⟩ := Request.settingsBody_eq values
    refine ⟨_, _, members, rfl, ?_, Quoted.text_ofText "settings", hascending, hperm⟩
    rw [Json.Value.ofText_toList (Request.printable_settingsBody values), hbody]
  · -- equal texts read back as equal thermostats
    have hread := t.decodeAll_body
    rw [Option.some.inj h, t'.decodeAll_body] at hread
    exact (Except.ok.inj hread).symm
  · rw [h]
    rfl
  · exact Request.settingsBody_text_inj (Option.some.inj h)
  · rw [h]
    rfl
  · have hread := mode.decodeAll_body
    rw [Option.some.inj h, mode'.decodeAll_body] at hread
    exact (Except.ok.inj hread).symm
  · rw [h]
    rfl

end HeatWatch
