import HeatWatch.SystemTable

/-!
# Lookups

What a caller can ask for and wait for. Some lookups are answered by what the table keeps; the
others take one request, and what it brings is kept.
-/

namespace HeatWatch

/-- What a caller asks for. -/
inductive Lookup where
  | systems
  | capabilities (id : SystemId)
  | categories (id : SystemId) (withParameters : Bool)
  /-- The bare body of the response to a request. -/
  | body (r : Request)
  deriving DecidableEq

/-- What a caller gets. -/
inductive Finding where
  | systems (ss : List System)
  | capabilities (c : Capabilities)
  | categories (cs : List Category)
  | body (text : String)
  deriving DecidableEq, Repr

namespace Lookup

/-- The request that brings the result. -/
def request : Lookup → Request
  | .systems => .listSystems
  | .capabilities id => .getConfig id
  | .categories id withParameters => .getCategories id withParameters
  | .body r => r

/-- The result, if the table has it. -/
def cached? (t : SystemTable) : Lookup → Option Finding
  | .systems => none
  | .capabilities id => (t.capabilities? id).map .capabilities
  | .categories id withParameters => (t.categories? id withParameters).map .categories
  | .body _ => none

/-- Reads the result out of the body of the response, and keeps it. -/
def read (t : SystemTable) (body : String) : Lookup → Except ParseError (Finding × SystemTable)
  | .systems => (fun ss => (.systems ss, t.mergeSystems ss)) <$> Response.systems.decode body
  | .capabilities id =>
    (fun c => (.capabilities c, t.setCapabilities id c)) <$> Response.capabilities.decode body
  | .categories id withParameters =>
    (fun cs => (.categories cs, t.setCategories id withParameters cs))
      <$> Response.categories.decode body
  | .body _ => .ok (.body body, t)

end Lookup

end HeatWatch
