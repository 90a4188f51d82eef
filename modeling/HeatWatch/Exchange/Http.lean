import HeatWatch.Request

/-!
# Calls and responses

A request as a call on the wire, and what the status of a response means.
-/

namespace HeatWatch

/-- A complete call: everything that is sent, and how long to wait for the response. -/
structure Call where
  method : Method
  url : String
  query : List (String × String)
  headers : List (String × String)
  body : Option String
  /-- In milliseconds. -/
  timeout : Nat
  deriving DecidableEq, Repr

structure HttpResponse where
  status : Nat
  body : String
  deriving DecidableEq, Repr

/-- The status that asks for a fresh token. -/
def HttpResponse.unauthorized : Nat := 401

/-- What a response means: its body, no text at all, or a failure by its status. -/
def HttpResponse.outcome (r : HttpResponse) : Except RequestError String :=
  if r.status = 200 then .ok r.body
  else if r.status = 204 then .ok ""
  else if r.status ∈ [400, 401, 403, 404, 429] then .error (.client r.status r.body)
  else if 500 ≤ r.status ∧ r.status ≤ 504 then .error (.server r.status)
  else .error (.protocol r.status)

/-- Where calls go, and how long a response may take. -/
structure Service where
  /-- Without slashes at its end. -/
  base : String
  timeout : Nat
  deriving DecidableEq, Repr

namespace Service

/-- A service below a base address; slashes at its end are dropped. -/
def ofBase (base : String) (timeout : Nat) : Service :=
  ⟨String.ofList (base.toList.reverse.dropWhile (· == '/')).reverse, timeout⟩

/-- The address of a path. -/
def url (s : Service) (path : String) : String :=
  if path.toList.head? = some '/' then s.base ++ path else s.base ++ "/" ++ path

/-- The call for a request with a token. -/
def call (s : Service) (r : Request) (token : String) : Call where
  method := r.method
  url := s.url r.path
  query := r.queryPairs
  headers :=
    [("Accept", "application/json"), ("Authorization", "Bearer " ++ token)]
      ++ (if r.body?.isSome then [("Content-Type", "application/json")] else [])
  body := r.body?
  timeout := s.timeout

end Service

end HeatWatch
