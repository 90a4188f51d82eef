import HeatWatch.Decimal.Whole
import HeatWatch.SortedMap

/-!
# Identifiers

Systems, parameters and thermostats are named by signed words of 64 bits; the order of the numbers
is the order in which they are listed.
-/

namespace HeatWatch

/-- The decimal text of a signed word. -/
def int64Text (n : Int64) : String := Decimal.Whole.intText n.toInt

/-- The number of an installation. -/
structure SystemId where
  val : Int64
  deriving DecidableEq, Repr

/-- The number of a parameter. -/
structure ParameterId where
  val : Int64
  deriving DecidableEq, Repr

/-- The number that a thermostat has at its client. -/
structure ThermostatId where
  val : Int64
  deriving DecidableEq, Repr

instance : Ranked SystemId where
  rank id := id.val.toInt
  rank_inj {a b} h := by cases a; cases b; simpa [Int64.toInt_inj] using h

instance : Ranked ParameterId where
  rank id := id.val.toInt
  rank_inj {a b} h := by cases a; cases b; simpa [Int64.toInt_inj] using h

instance : Ranked ThermostatId where
  rank id := id.val.toInt
  rank_inj {a b} h := by cases a; cases b; simpa [Int64.toInt_inj] using h

instance : Hashable SystemId := ⟨fun id => hash id.val⟩

def SystemId.text (id : SystemId) : String := int64Text id.val
def ParameterId.text (id : ParameterId) : String := int64Text id.val
def ThermostatId.text (id : ThermostatId) : String := int64Text id.val

end HeatWatch
