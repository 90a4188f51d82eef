import HeatWatch.Json.Word
import HeatWatch.Timestamp
import HeatWatch.Installation.System

/-!
# Software and alarms

What the service tells about an installation on its own account: the software that runs there and
the alarms that were raised. Lists of systems and alarms come in pages.
-/

namespace HeatWatch

open Json (Shape)

/-- The software that an installation runs. -/
structure SoftwareVersion where
  name : String
  deriving DecidableEq, Repr

/-- Newer software for an installation. -/
structure SoftwareUpgrade where
  name : String
  releaseDate : Option String
  deriving DecidableEq, Repr

structure SoftwareInfo where
  current : SoftwareVersion
  upgrade : Option SoftwareUpgrade
  deriving DecidableEq, Repr

def SoftwareVersion.shape : Shape SoftwareVersion :=
  .record "SoftwareVersion" (.required "name" .text .nil) fun (name, _) => ⟨name⟩

def SoftwareUpgrade.shape : Shape SoftwareUpgrade :=
  .record "SoftwareUpgrade"
    (.required "name" .text (.defaulted "releaseDate" (.optional .text) none .nil))
    fun (name, date, _) => ⟨name, date⟩

namespace SoftwareInfo

def shape : Shape SoftwareInfo :=
  .record "SoftwareInfo"
    (.required "current" SoftwareVersion.shape
      (.defaulted "upgrade" (.optional SoftwareUpgrade.shape) none .nil))
    fun (current, upgrade, _) => ⟨current, upgrade⟩

def upgradeAvailable (s : SoftwareInfo) : Bool := s.upgrade.isSome

end SoftwareInfo

/-- One alarm of an installation. -/
structure AlarmInfo where
  notificationId : Int64
  created : Option Timestamp
  alarmNumber : Option Int64
  severity : Option Int32
  status : Option Int32
  header : String
  description : Option String
  equipName : Option String
  deriving DecidableEq, Repr

def AlarmInfo.shape : Shape AlarmInfo :=
  .record "AlarmInfo"
    (.required "notificationId" (.whole Json.i64)
      (.defaulted "createdDatetime" (.optional System.timestampShape) none
        (.defaulted "alarmNumber" (.optional (.whole Json.i64)) none
          (.defaulted "severity" (.optional (.whole Json.i32)) none
            (.defaulted "status" (.optional (.whole Json.i32)) none
              (.required "header" .text
                (.defaulted "description" (.optional .text) none
                  (.defaulted "equipName" (.optional .text) none .nil))))))))
    fun (id, created, number, severity, status, header, description, equip, _) =>
      ⟨id, created, number, severity, status, header, description, equip⟩

/-- The objects of a page; the numbers on the page are read and dropped. -/
def pageShape {α : Type} (s : Shape α) : Shape (List α) :=
  .record "Paged"
    (.defaulted "page" (.optional (.whole Json.u32)) none
      (.defaulted "itemsPerPage" (.optional (.whole Json.u32)) none
        (.defaulted "numItems" (.optional (.whole Json.u32)) none
          (.required "objects" (.list s) .nil))))
    fun (_, _, _, objects, _) => objects

end HeatWatch
