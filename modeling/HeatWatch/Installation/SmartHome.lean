import HeatWatch.Decimal.Shortest
import HeatWatch.Installation.Id
import HeatWatch.Installation.System
import HeatWatch.Json.Print
import HeatWatch.Json.Word

/-!
# Smart home

What a client tells an installation: the operating mode, and the thermostats of the house with
their temperatures in tenths of a degree.
-/

namespace HeatWatch

open Json (Shape)
open Decimal

/-- The operating mode of an installation. -/
inductive Mode where
  | defaultOperation
  | awayFromHome
  | vacation
  deriving DecidableEq, Repr

namespace Mode

def name : Mode → String
  | .defaultOperation => "DEFAULT_OPERATION"
  | .awayFromHome => "AWAY_FROM_HOME"
  | .vacation => "VACATION"

def all : List Mode := [.defaultOperation, .awayFromHome, .vacation]

/-- The mode that overrides nothing. -/
def isDefault (m : Mode) : Bool := m == .defaultOperation

def shape : Shape Mode := .choice (named name all)

/-- A mode as it is written. -/
def written (m : Mode) : Json.Value := .ofText m.name

/-- The mode inside its envelope. -/
def envelopeShape : Shape Mode :=
  .record "ModeEnvelope" (.required "mode" shape .nil) fun (mode, _) => mode

end Mode

/-! ## Temperatures -/

/-- A temperature in tenths of a degree. -/
structure Temperature where
  tenths : Int32
  deriving DecidableEq, Repr

namespace Temperature

/-- A number of degrees rounded to tenths, half a tenth away from zero; none if it is no number or
too large. The multiplication by ten is rounded first. -/
def ofCelsius? (celsius : Float) : Option Temperature :=
  match BinaryNumber.ofBits .binary64 (celsius * 10).toBits.toNat with
  | .finite negative m q =>
    let n := BinaryNumber.roundAway m q
    let tenths : Int := if negative then -n else n
    if Whole.Kind.i32.Holds tenths then some ⟨Int32.ofInt tenths⟩ else none
  | _ => none

/-- The number of degrees. -/
def celsius (t : Temperature) : Float := Float.ofInt t.tenths.toInt / 10

/-- Degrees are written without an exponent, and always with a point. -/
def celsiusLayout : Layout := ⟨none, none, true⟩

/-- The shortest text of the number of degrees. -/
def celsiusText (t : Temperature) : String :=
  match BinaryNumber.ofBits .binary64 t.celsius.toBits.toNat with
  | .finite negative m q => String.ofList (celsiusLayout.print .binary64 negative m q)
  | _ => ""

/-- A sign if negative, the whole degrees, a point, and one digit. -/
def text (t : Temperature) : String :=
  let n := t.tenths.toInt
  String.ofList ((if n < 0 then ['-'] else []) ++ Whole.ofNat (n.natAbs / 10)
    ++ '.' :: Whole.ofNat (n.natAbs % 10))

def shape : Shape Temperature := .whole (Json.i32.as Temperature.mk)

end Temperature

/-! ## Thermostats -/

/-- A thermostat of the client's. The service forgets one that is not submitted again. -/
structure Thermostat where
  id : ThermostatId
  name : String
  climateSystems : Option (List UInt32)
  current : Option Temperature
  target : Option Temperature
  deriving DecidableEq, Repr

def Thermostat.shape : Shape Thermostat :=
  .record "Thermostat"
    (.required "externalId" (.whole (Json.i64.as ThermostatId.mk))
      (.required "name" .text
        (.defaulted "climateSystems" (.optional (.list (.whole Json.u32))) none
          (.defaulted "actualTemp" (.optional Temperature.shape) none
            (.defaulted "targetTemp" (.optional Temperature.shape) none .nil)))))
    fun (id, name, climate, current, target, _) => ⟨id, name, climate, current, target⟩

end HeatWatch
