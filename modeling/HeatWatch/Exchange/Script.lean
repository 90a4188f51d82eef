import HeatWatch.Decimal.Shortest
import HeatWatch.Exchange.Http
import HeatWatch.Settings.Engine

/-!
# Scripted service

What the service and the source of tokens will do: the replies to the calls, in order or by
address, and the tokens. Nothing is assumed of them, so what holds for every script holds for
every behaviour of the service.
-/

namespace HeatWatch

/-- What comes back for a call: a response, or the reason why the call did not get through. -/
abbrev Arrival := Except String HttpResponse

/-- A reply and the time after which it arrives, in milliseconds. -/
structure Reply where
  delay : Nat
  arrival : Arrival

/-- What is said of a response that did not come in time. -/
def Service.lateText (s : Service) : String :=
  let seconds : Float32 :=
    Float32.ofNat (s.timeout / 1000) + Float32.ofNat (s.timeout % 1000 * 1000000) / 1000000000
  let text :=
    match Decimal.BinaryNumber.ofBits .binary32 seconds.toBits.toNat with
    | .finite negative m q => Decimal.Layout.print ⟨none, none, false⟩ .binary32 negative m q
    | _ => []
  "no response within " ++ String.ofList text ++ "s"

/-- What the caller sees of a reply, and when: one that takes too long is not waited for. -/
def Service.await (s : Service) (r : Reply) : Reply :=
  let delay := min r.delay longestWait
  let timeout := min s.timeout longestWait
  if delay ≤ timeout then ⟨delay, r.arrival⟩ else ⟨timeout, .error s.lateText⟩

/-- What the service and the source of tokens will do. -/
structure Script where
  /-- The replies to the next calls; a gap leaves the reply to the address. -/
  replies : List (Option Reply)
  /-- The replies by address, for calls without one of their own. -/
  routes : List (String × Reply)
  /-- The next tokens, or why there is none. -/
  tokens : List (Except String String)
  /-- The tokens asked for so far. -/
  fetched : Nat
  /-- The tokens rejected so far. -/
  rejected : Nat

namespace Script

/-- The reply to a call for which nothing is planned. -/
def plain : Reply := ⟨0, .ok ⟨200, "\x7b\x7d"⟩⟩

/-- The reply of an address. -/
def route (s : Script) (url : String) : Reply := (s.routes.lookup url).getD plain

/-- The reply to the next call. -/
def reply (s : Script) (url : String) : Reply × Script :=
  match s.replies with
  | [] => (s.route url, s)
  | none :: rest => (s.route url, { s with replies := rest })
  | some r :: rest => (r, { s with replies := rest })

/-- Plans more replies. -/
def extend (s : Script) (replies : List (Option Reply)) : Script :=
  { s with replies := s.replies ++ replies }

/-- The next token; tokens that are not planned are numbered. -/
def fetch (s : Script) : Except RequestError String × Script :=
  let counted := { s with fetched := s.fetched + 1 }
  match s.tokens with
  | [] => (.ok ("token-" ++ Decimal.Whole.natText s.fetched), counted)
  | t :: rest => (t.mapError .auth, { counted with tokens := rest })

/-- The last token was rejected. -/
def reject (s : Script) : Script := { s with rejected := s.rejected + 1 }

end Script

end HeatWatch
