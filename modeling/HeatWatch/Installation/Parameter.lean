import HeatWatch.Installation.Id
import HeatWatch.Json.Word

/-!
# Parameters and categories

The measured and settable values of an installation, one by one and in groups.
-/

namespace HeatWatch

open Json (Shape)

/-- One value of an installation. -/
structure Parameter where
  id : ParameterId
  name : Option String
  title : Option String
  designation : Option String
  unit : String
  displayValue : String
  rawValue : Int64
  deriving DecidableEq, Repr

def Parameter.shape : Shape Parameter :=
  .record "Parameter"
    (.required "parameterId" (.whole (Json.i64.as ParameterId.mk))
      (.defaulted "name" (.optional .text) none
        (.defaulted "title" (.optional .text) none
          (.defaulted "designation" (.optional .text) none
            (.defaulted "unit" .text ""
              (.defaulted "displayValue" .text ""
                (.required "rawValue" (.whole Json.i64) .nil)))))))
    fun (id, name, title, designation, unit, display, raw, _) =>
      ⟨id, name, title, designation, unit, display, raw⟩

/-- A group of parameters. -/
structure Category where
  id : String
  name : String
  parameters : Option (List Parameter)
  deriving DecidableEq, Repr

def Category.shape : Shape Category :=
  .record "Category"
    (.required "categoryId" .text
      (.required "name" .text
        (.defaulted "parameters" (.optional (.list Parameter.shape)) none .nil)))
    fun (id, name, parameters, _) => ⟨id, name, parameters⟩

/-- One entry of the answer to a write. -/
structure ParameterWrite where
  status : String
  parameter : Parameter
  deriving DecidableEq, Repr

def ParameterWrite.shape : Shape ParameterWrite :=
  .record "ParameterSetResult"
    (.required "status" .text (.required "parameter" Parameter.shape .nil))
    fun (status, parameter, _) => ⟨status, parameter⟩

end HeatWatch
