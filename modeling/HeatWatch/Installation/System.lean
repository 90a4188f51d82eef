import HeatWatch.Installation.Id
import HeatWatch.Json.Print
import HeatWatch.Json.Word
import HeatWatch.Timestamp

/-!
# Installations

What the service says about an installation. The record of a system is a snapshot that later
fetches replace; what a system is able to do comes from a response of its own and is kept.
-/

namespace HeatWatch

open Json (Shape Fields)

/-- Whether the service reaches the installation. -/
inductive ConnectionStatus where
  | online
  | pending
  | offline
  deriving DecidableEq, Repr

/-- What the account may do with the installation. -/
inductive SecurityLevel where
  | admin
  | manager
  | viewer
  deriving DecidableEq, Repr

def ConnectionStatus.name : ConnectionStatus → String
  | .online => "ONLINE"
  | .pending => "PENDING"
  | .offline => "OFFLINE"

def SecurityLevel.name : SecurityLevel → String
  | .admin => "ADMIN"
  | .manager => "MANAGER"
  | .viewer => "VIEWER"

/-- The values of a type beside their names. -/
def named {α : Type} (name : α → String) (values : List α) : List (String × α) :=
  values.map fun a => (name a, a)

def ConnectionStatus.all : List ConnectionStatus := [.online, .pending, .offline]
def SecurityLevel.all : List SecurityLevel := [.admin, .manager, .viewer]

def ConnectionStatus.shape : Shape ConnectionStatus := .choice (named name all)
def SecurityLevel.shape : Shape SecurityLevel := .choice (named name all)

/-- A status as it is written. -/
def ConnectionStatus.written (c : ConnectionStatus) : Json.Value := .ofText c.name

/-- A level as it is written. -/
def SecurityLevel.written (l : SecurityLevel) : Json.Value := .ofText l.name

/-- The number of a system as it is written. -/
def SystemId.written (id : SystemId) : Json.Value := .ofInt id.val.toInt

/-- What an installation is able to do. -/
structure Capabilities where
  cooling : Bool
  heating : Bool
  hotWater : Bool
  ventilation : Bool
  deriving DecidableEq, Repr

def Capabilities.shape : Shape Capabilities :=
  .record "SystemConfig"
    (.defaulted "hasCooling" .boolean false
      (.defaulted "hasHeating" .boolean false
        (.defaulted "hasHotWater" .boolean false
          (.defaulted "hasVentilation" .boolean false .nil))))
    fun (cooling, heating, hotWater, ventilation, _) => ⟨cooling, heating, hotWater, ventilation⟩

/-- One installation registered under the account. -/
structure System where
  id : SystemId
  name : String
  productName : Option String
  securityLevel : Option SecurityLevel
  serialNumber : Option String
  lastActivity : Option Timestamp
  connectionStatus : ConnectionStatus
  hasAlarmed : Bool
  capabilities : Option Capabilities
  deriving DecidableEq, Repr

namespace System

/-- The number of a system in a record. -/
def idShape : Shape SystemId := .whole (Json.i64.as SystemId.mk)

/-- A point in time in a record. -/
def timestampShape : Shape Timestamp :=
  .formatted "an RFC 3339 formatted date and time string" fun s =>
    (Timestamp.parse s).mapError (·.message)

/-- The record of a system never carries its capabilities. -/
def shape : Shape System :=
  .record "System"
    (.required "systemId" idShape
      (.required "name" .text
        (.defaulted "productName" (.optional .text) none
          (.defaulted "securityLevel" (.optional SecurityLevel.shape) none
            (.defaulted "serialNumber" (.optional .text) none
              (.defaulted "lastActivityDate" (.optional timestampShape) none
                (.required "connectionStatus" ConnectionStatus.shape
                  (.defaulted "hasAlarmed" .boolean false .nil))))))))
    fun (id, name, product, level, serial, activity, status, alarmed, _) =>
      ⟨id, name, product, level, serial, activity, status, alarmed, none⟩

/-- The two records are of one system; the rest of a record is a snapshot. -/
def isSame (a b : System) : Bool := a.id == b.id

/-- A hash that agrees with `isSame`. -/
def identityHash (s : System) : UInt64 := hash s.id

/-- The fresher record, with the capabilities that only the older one knows. -/
def refresh (old fresh : System) : System :=
  { fresh with capabilities := fresh.capabilities.or old.capabilities }

end System

end HeatWatch
