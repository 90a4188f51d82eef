import HeatWatch.Json.Leaf

/-!
# Shapes

A `Shape α` describes the JSON values that stand for an `α`: how each part is written, which
fields a record has, and what an absent field means. It is data, so that one definition of reading
serves every model, and one proof about reading holds for all of them.

* `Shape.read` reads a complete value;
* `Shape.diagnose` says why a fragment is no such value, which is always the case.

Both report the first trouble in the order of the text, with the place where it is.
-/

namespace HeatWatch.Json

open Decimal

/-- A kind of whole number together with the type that holds it. -/
structure WholeType (α : Type) where
  kind : Whole.Kind
  ofInt : Int → α

mutual

/-- How the values of a type are written. -/
inductive Shape : Type → Type 1 where
  | whole {α : Type} (t : WholeType α) : Shape α
  | boolean : Shape Bool
  | text : Shape String
  /-- A string in a format of its own, which gives a value or the message of its refusal. -/
  | formatted {α : Type} (wanted : String) (parse : String → Except String α) : Shape α
  /-- The value, or `null`. -/
  | optional {α : Type} (s : Shape α) : Shape (Option α)
  | list {α : Type} (s : Shape α) : Shape (List α)
  /-- One of some names: a string, or an object with the name and `null`. -/
  | choice {α : Type} (options : List (String × α)) : Shape α
  /-- An object with these fields, or a list of their values in order. -/
  | record {γ α : Type} (name : String) (fields : Fields γ) (make : γ → α) : Shape α

/-- The fields of a record in the order of their declaration. -/
inductive Fields : Type → Type 1 where
  | nil : Fields Unit
  | required {α γ : Type} (name : String) (s : Shape α) (rest : Fields γ) : Fields (α × γ)
  | defaulted {α γ : Type} (name : String) (s : Shape α) (absent : α) (rest : Fields γ) :
      Fields (α × γ)

end

namespace Fields

/-- The names of the fields. -/
def names {γ : Type} : Fields γ → List String
  | .nil => []
  | .required name _ rest => name :: names rest
  | .defaulted name _ _ rest => name :: names rest

/-- What a record is called in messages. -/
def wanted {γ : Type} (fs : Fields γ) (name : String) : String :=
  let n := fs.names.length
  "struct " ++ name ++ " with " ++ Whole.natText n
    ++ (if n = 1 then " element" else " elements")

end Fields

/-! ## Numbers and choices -/

/-- Reads a number of one kind. -/
def WholeType.read {α : Type} (t : WholeType α) (n : Numeral) : Except Fault α :=
  match n.integer? with
  | some i =>
    if t.kind.Holds i then .ok (t.ofInt i) else .error (.wrongValue (.integer i) t.kind.name)
  | none => .error ((Value.number n).mismatch t.kind.name)

/-- The option of a name. -/
def pick {α : Type} (options : List (String × α)) (name : String) : Except Fault α :=
  match options.lookup name with
  | some a => .ok a
  | none => .error (.unknownChoice name (options.map (·.1)))

/-- The name of a choice as it is written, and the option. -/
def pickQuoted {α : Type} (options : List (String × α)) (name : Quoted) :
    Except Failure (String × α) :=
  match name.text with
  | .error f => .error (.here f)
  | .ok name =>
    match pick options name with
    | .error f => .error (.here f)
    | .ok a => .ok (name, a)

/-- Reads the value of a choice that is written as an object. -/
def readUnit (name : String) : Value → Except Failure Unit
  | .null => .ok ()
  | v => .error ((Failure.here (v.mismatch "unit")).under (.choice name))

/-- Reads one of some names. -/
def readChoice {α : Type} (options : List (String × α)) : Value → Except Failure α
  | .string s => (·.2) <$> pickQuoted options s
  | .object [] => .error (.here .noValue)
  | .object ((name, v) :: more) => do
    let (name, a) ← pickQuoted options name
    readUnit name v
    if more.isEmpty then .ok a else .error (.here .noValue)
  | _ => .error (.here .noValue)

/-- Why a fragment is none of some names. -/
def diagnoseChoice {α : Type} (options : List (String × α)) : Fragment → Failure
  | .nothing d =>
    match d with
    | .missing => .here .valueCut
    | .string ps why => .here (Quoted.stopFault ps why)
    | _ => .here .noValue
  | .list .. | .item .. => .here .noValue
  | .object [] stop =>
    match stop with
    | .cut | .cutAfterComma => .here .objectCut
    | .closedAfterComma | .stray => .here .noValue
    | .notAName => .here .nameNotString
    | .name ps why => .here (Quoted.stopFault ps why)
    | .cutBeforeColon name => afterName name .objectCut
    | .noColon name => afterName name .noColon
  | .object ((name, v) :: more) stop =>
    afterMember name v (if more.isEmpty ∧ stop = .cut then .objectCut else .noValue)
  | .member [] name last =>
    match pickQuoted options name with
    | .error e => e
    | .ok (name, _) => (Failure.here (last.mismatch "unit")).under (.choice name)
  | .member ((name, v) :: _) _ _ => afterMember name v .noValue
where
  afterName (name : Quoted) (f : Fault) : Failure :=
    match pickQuoted options name with
    | .error e => e
    | .ok _ => .here f
  afterMember (name : Quoted) (v : Value) (f : Fault) : Failure :=
    match pickQuoted options name with
    | .error e => e
    | .ok (name, _) =>
      match readUnit name v with
      | .error e => e
      | .ok _ => .here f

/-! ## Lists -/

/-- Reads the items of a list, the first of them at index `i`. -/
def readItems {α : Type} (read : Value → Except Failure α) : Nat → List Value →
    Except Failure (List α)
  | _, [] => .ok []
  | i, v :: vs =>
    match read v with
    | .error e => .error (e.under (.index i))
    | .ok a => (a :: ·) <$> readItems read (i + 1) vs

/-- The fault of a list that goes no further where an item may stand. -/
def ListStop.fault : ListStop → Fault
  | .cut => .listCut
  | .cutAfterComma => .valueCut
  | .closedAfterComma => .trailingComma
  | .stray => .noCommaOrBracket

/-- The fault of a list that goes no further where only its end may stand. -/
def ListStop.endFault : ListStop → Fault
  | .cut => .listCut
  | .closedAfterComma => .trailingComma
  | .cutAfterComma | .stray => .trailingText

/-- Why the items of a list are not what was wanted, or what comes after them. -/
def orElse {α : Type} (r : Except Failure α) (f : Failure) : Failure :=
  match r with
  | .error e => e
  | .ok _ => f

/-! ## Members -/

/-- What is wrong with the members of an object, in order: a name that is no text, a field given
twice, or the value of a field as `trouble` finds it. Members that are no fields are skipped. -/
def membersTrouble (names : List String) (trouble : String → Value → Option Failure) :
    List String → List Member → Option Failure
  | _, [] => none
  | seen, (name, v) :: more =>
    match name.text with
    | .error f => some ⟨[.unknown], f⟩
    | .ok name =>
      if names.contains name then
        if seen.contains name then some (.here (.repeatedField name))
        else
          match trouble name v with
          | some e => some (e.under (.field name))
          | none => membersTrouble names trouble (name :: seen) more
      else membersTrouble names trouble seen more

/-- The value of the first member of a name. -/
def memberNamed? (members : List Member) (name : String) : Option Value :=
  (members.find? fun m => m.1.text.toOption == some name).map (·.2)

/-- The names of the fields that the members give. -/
def namesGiven (members : List Member) : List String :=
  members.filterMap fun m => m.1.text.toOption

/-! ## Reading -/

mutual

/-- Reads a complete value. -/
def Shape.read {α : Type} : Shape α → Value → Except Failure α
  | .whole t, v =>
    match v with
    | .number n => (t.read n).mapError .here
    | v => .error (.here (v.mismatch t.kind.name))
  | .boolean, v =>
    match v with
    | .bool b => .ok b
    | v => .error (.here (v.mismatch "a boolean"))
  | .text, v =>
    match v with
    | .string s => s.text.mapError .here
    | v => .error (.here (v.mismatch "a string"))
  | .formatted wanted parse, v =>
    match v with
    | .string s =>
      match s.text with
      | .error f => .error (.here f)
      | .ok t => (parse t).mapError fun m => .here (.malformed m)
    | v => .error (.here (v.mismatch wanted))
  | .optional s, v =>
    match v with
    | .null => .ok none
    | v => some <$> s.read v
  | .list s, v =>
    match v with
    | .list items => readItems (fun v => s.read v) 0 items
    | v => .error (.here (v.mismatch "a sequence"))
  | .choice options, v => readChoice options v
  | .record name fields make, v =>
    match v with
    | .list items =>
      match fields.readItems (fields.wanted name) 0 items with
      | .error e => .error e
      | .ok g =>
        if items.length > fields.names.length then .error (.here .trailingText) else .ok (make g)
    | .object members =>
      match membersTrouble fields.names (fun n v => fields.trouble n v) [] members with
      | some e => .error e
      | none => make <$> fields.fill (memberNamed? members)
    | v => .error (.here (v.mismatch ("struct " ++ name)))

/-- Reads the fields of a record from a list of their values, the first at index `i`. -/
def Fields.readItems {γ : Type} : Fields γ → String → Nat → List Value → Except Failure γ
  | .nil, _, _, _ => .ok ()
  | .required _ s rest, wanted, i, items =>
    match items with
    | [] => .error (.here (.wrongLength i wanted))
    | v :: vs =>
      match s.read v with
      | .error e => .error (e.under (.index i))
      | .ok a => (a, ·) <$> rest.readItems wanted (i + 1) vs
  | .defaulted _ s absent rest, wanted, i, items =>
    match items with
    | [] => (absent, ·) <$> rest.readItems wanted (i + 1) []
    | v :: vs =>
      match s.read v with
      | .error e => .error (e.under (.index i))
      | .ok a => (a, ·) <$> rest.readItems wanted (i + 1) vs

/-- What is wrong with the value given for a field. -/
def Fields.trouble {γ : Type} : Fields γ → String → Value → Option Failure
  | .nil, _, _ => none
  | .required name s rest, n, v =>
    if n = name then
      match s.read v with
      | .error e => some e
      | .ok _ => none
    else rest.trouble n v
  | .defaulted name s _ rest, n, v =>
    if n = name then
      match s.read v with
      | .error e => some e
      | .ok _ => none
    else rest.trouble n v

/-- Fills the fields of a record in the order of their declaration. -/
def Fields.fill {γ : Type} : Fields γ → (String → Option Value) → Except Failure γ
  | .nil, _ => .ok ()
  | .required name s rest, given =>
    match given name with
    | none => .error (.here (.missingField name))
    | some v =>
      match s.read v with
      | .error e => .error (e.under (.field name))
      | .ok a => (a, ·) <$> rest.fill given
  | .defaulted name s absent rest, given =>
    match given name with
    | none => (absent, ·) <$> rest.fill given
    | some v =>
      match s.read v with
      | .error e => .error (e.under (.field name))
      | .ok a => (a, ·) <$> rest.fill given

end

/-! ## Fragments -/

/-- The fault of an object that goes no further, and whether a name was being read. -/
def ObjectStop.fault : ObjectStop → Fault
  | .cut => .objectCut
  | .cutAfterComma => .valueCut
  | .closedAfterComma => .trailingComma
  | .stray => .noCommaOrBrace
  | .notAName => .nameNotString
  | .name ps why => Quoted.stopFault ps why
  | .cutBeforeColon _ => .objectCut
  | .noColon _ => .noColon

/-- The members of a record are fine, but the object goes no further. A missing colon is a fault
of the object. -/
def diagnoseStop (names seen : List String) (stop : ObjectStop) : Failure :=
  match stop with
  | .cutBeforeColon name | .noColon name =>
    match name.text with
    | .error f => ⟨[.unknown], f⟩
    | .ok name =>
      .here (if names.contains name && seen.contains name then .repeatedField name else stop.fault)
  | _ => ⟨[.unknown], stop.fault⟩

/-- The members of a record are fine, but the value after the name is a fragment; `known` tells
why, if the name is that of a field. -/
def diagnoseMember (names seen : List String) (name : Quoted) (last : Fragment)
    (known : String → Failure) : Failure :=
  match name.text with
  | .error f => ⟨[.unknown], f⟩
  | .ok name =>
    if names.contains name then
      if seen.contains name then .here (.repeatedField name) else (known name).under (.field name)
    else ⟨[.field name], last.skipFault⟩

mutual

/-- Why a fragment is not a value of this shape. -/
def Shape.diagnose {α : Type} : Shape α → Fragment → Failure
  | .whole t, f => .here (f.mismatch t.kind.name)
  | .boolean, f => .here (f.mismatch "a boolean")
  | .text, f => .here (f.mismatch "a string")
  | .formatted wanted _, f => .here (f.mismatch wanted)
  | .optional s, f =>
    match f with
    | .nothing (.word .null cut) => .here (Defect.word .null cut).fault
    | f => s.diagnose f
  | .list s, f =>
    match f with
    | .list items stop => orElse (readItems (fun v => s.read v) 0 items) (.here stop.fault)
    | .item before last =>
      orElse (readItems (fun v => s.read v) 0 before)
        ((s.diagnose last).under (.index before.length))
    | f => .here (f.mismatch "a sequence")
  | .choice options, f => diagnoseChoice options f
  | .record name fields _, f =>
    match f with
    | .list items stop =>
      fields.diagnoseItems 0 items (.here stop.fault) (.here stop.endFault) fun _ => none
    | .item before last =>
      fields.diagnoseItems 0 before (.here .trailingText) (.here .trailingText) fun i =>
        (fields.diagnoseAt last i).map (·.under (.index i))
    | .object members stop =>
      (membersTrouble fields.names (fun n v => fields.trouble n v) [] members).getD
        (diagnoseStop fields.names (namesGiven members) stop)
    | .member before n last =>
      (membersTrouble fields.names (fun n v => fields.trouble n v) [] before).getD
        (diagnoseMember fields.names (namesGiven before) n last fun n =>
          fields.diagnoseField last n)
    | f => .here (f.mismatch ("struct " ++ name))

/-- Why the values of the fields given as a list are not what was wanted. After the last one
given, `more` tells why there is no further one, `last` why the list does not end, and `next` why
the value at the next index is none. -/
def Fields.diagnoseItems {γ : Type} : Fields γ → Nat → List Value → Failure → Failure →
    (Nat → Option Failure) → Failure
  | .nil, _, items, _, last, _ => if items.isEmpty then last else .here .trailingText
  | .required _ s rest, i, items, more, last, next =>
    match items with
    | [] => (next i).getD more
    | v :: vs =>
      match s.read v with
      | .error e => e.under (.index i)
      | .ok _ => rest.diagnoseItems (i + 1) vs more last next
  | .defaulted _ s _ rest, i, items, more, last, next =>
    match items with
    | [] => (next i).getD more
    | v :: vs =>
      match s.read v with
      | .error e => e.under (.index i)
      | .ok _ => rest.diagnoseItems (i + 1) vs more last next

/-- Why a fragment is no value of the field at an index. -/
def Fields.diagnoseAt {γ : Type} : Fields γ → Fragment → Nat → Option Failure
  | .nil, _, _ => none
  | .required _ s rest, f, i =>
    match i with
    | 0 => some (s.diagnose f)
    | i + 1 => rest.diagnoseAt f i
  | .defaulted _ s _ rest, f, i =>
    match i with
    | 0 => some (s.diagnose f)
    | i + 1 => rest.diagnoseAt f i

/-- Why a fragment is no value of the field of a name. -/
def Fields.diagnoseField {γ : Type} : Fields γ → Fragment → String → Failure
  | .nil, f, _ => .here f.skipFault
  | .required name s rest, f, n => if n = name then s.diagnose f else rest.diagnoseField f n
  | .defaulted name s _ rest, f, n => if n = name then s.diagnose f else rest.diagnoseField f n

end

/-! ## Texts -/

/-- Reads the first value of a text; what follows it does not matter. -/
def Shape.decode {α : Type} (s : Shape α) (text : String) : Except Failure α :=
  match Reading.ofText text.toList with
  | .whole v _ => s.read v
  | .broken f => .error (s.diagnose f)

/-- Reads a text that holds one value and nothing else but white space. -/
def Shape.decodeAll {α : Type} (s : Shape α) (text : String) : Except Failure α :=
  match Reading.ofText text.toList with
  | .whole v rest =>
    match s.read v with
    | .error e => .error e
    | .ok a => if rest.all Scan.isSpace then .ok a else .error (.here .trailingText)
  | .broken f => .error (s.diagnose f)

end HeatWatch.Json
