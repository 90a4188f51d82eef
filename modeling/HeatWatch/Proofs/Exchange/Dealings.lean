import HeatWatch.Exchange.Script

/-!
# Dealings of an exchange

What one exchange asks of the source of tokens and of the service, and what it makes of the answers.
Nothing here speaks of tasks, of turns or of a clock: an exchange is the list of its dealings, in
order, and a result. Main definitions:

* `Script.Serves`: the answers come from a script;
* `Service.Brings`, `HttpResponse.Means`, `Arrival.Gives`: from a planned reply to a result;
* `Service.Exchanges`: the four courses that an exchange can take.
-/

namespace HeatWatch

/-- What is asked of the world outside, and what comes of it. -/
inductive Dealing where
  /-- A token is asked for. -/
  | token (r : Except RequestError String)
  /-- A call is made, and this is the reply planned for it. -/
  | call (c : Call) (r : Reply)
  /-- The last token is reported as rejected. -/
  | reject

/-- The call that is made. -/
def Dealing.call? : Dealing → Option Call
  | .call c _ => some c
  | _ => none

/-- The dealings of an exchange, and its result. -/
structure Course where
  dealings : List Dealing
  result : Except RequestError String

/-- A script answers dealings, one after the other, and is left as another one. -/
inductive Script.Serves : Script → List Dealing → Script → Prop
  | nil {s : Script} : Serves s [] s
  | token {s s' : Script} {r : Except RequestError String} {ds : List Dealing}
      (hr : s.fetch.1 = r) (h : Serves s.fetch.2 ds s') : Serves s (.token r :: ds) s'
  | call {s s' : Script} {c : Call} {r : Reply} {ds : List Dealing}
      (hr : (s.reply c.url).1 = r) (h : Serves (s.reply c.url).2 ds s') : Serves s (.call c r :: ds) s'
  | reject {s s' : Script} {ds : List Dealing} (h : Serves s.reject ds s') :
      Serves s (.reject :: ds) s'

theorem Script.Serves.append {s s' s'' : Script} {ds ds' : List Dealing} (h : s.Serves ds s')
    (h' : s'.Serves ds' s'') : s.Serves (ds ++ ds') s'' := by
  induction h with
  | nil => exact h'
  | token hr _ ih => exact .token hr (ih h')
  | call hr _ ih => exact .call hr (ih h')
  | reject _ ih => exact .reject (ih h')

/-! ## From a reply to a result -/

/-- What a call gets for a reply: one that would come after the timeout is not waited for. Nothing
takes longer than the longest wait, neither a reply nor a timeout. -/
inductive Service.Brings (v : Service) (r : Reply) : Arrival → Prop
  | inTime (h : min r.delay longestWait ≤ min v.timeout longestWait) : Brings v r r.arrival
  | late (h : min v.timeout longestWait < min r.delay longestWait) : Brings v r (.error v.lateText)

theorem Service.brings_await (v : Service) (r : Reply) : v.Brings r (v.await r).arrival := by
  dsimp only [Service.await]
  split
  case isTrue h => exact .inTime h
  case isFalse h => exact .late (Nat.not_le.1 h)

/-- A call takes the time of its reply, but no longer than the timeout. -/
theorem Service.await_delay (v : Service) (r : Reply) :
    (v.await r).delay = min (min r.delay longestWait) (min v.timeout longestWait) := by
  dsimp only [Service.await]
  split
  case isTrue h => exact (Nat.min_eq_left h).symm
  case isFalse h => exact (Nat.min_eq_right (Nat.le_of_not_le h)).symm

/-- What the status of a response says. -/
inductive HttpResponse.Means : HttpResponse → Except RequestError String → Prop
  | text {body : String} : Means ⟨200, body⟩ (.ok body)
  | nothing {body : String} : Means ⟨204, body⟩ (.ok "")
  | client {status : Nat} {body : String} (h : status ∈ [400, 401, 403, 404, 429]) :
      Means ⟨status, body⟩ (.error (.client status body))
  | server {status : Nat} {body : String} (hfirst : 500 ≤ status) (hlast : status ≤ 504) :
      Means ⟨status, body⟩ (.error (.server status))
  | protocol {status : Nat} {body : String} (hok : status ≠ 200) (hnothing : status ≠ 204)
      (hclient : status ∉ [400, 401, 403, 404, 429]) (hserver : ¬ (500 ≤ status ∧ status ≤ 504)) :
      Means ⟨status, body⟩ (.error (.protocol status))

theorem HttpResponse.means_outcome (r : HttpResponse) : r.Means r.outcome := by
  obtain ⟨status, body⟩ := r
  unfold HttpResponse.outcome
  split
  case isTrue hok =>
    obtain rfl : status = 200 := hok
    exact .text
  case isFalse hok =>
    split
    case isTrue hnothing =>
      obtain rfl : status = 204 := hnothing
      exact .nothing
    case isFalse hnothing =>
      split
      case isTrue hclient => exact .client hclient
      case isFalse hclient =>
        split
        case isTrue hserver => exact .server hserver.1 hserver.2
        case isFalse hserver => exact .protocol hok hnothing hclient hserver

/-- The result of an exchange whose last call got this. -/
inductive Arrival.Gives : Arrival → Except RequestError String → Prop
  | transport {message : String} : Gives (.error message) (.error (.transport message))
  | response {r : HttpResponse} {x : Except RequestError String} (h : r.Means x) : Gives (.ok r) x

/-- The service has rejected the token of the call. -/
def Arrival.Rejects (a : Arrival) : Prop := ∃ body, a = .ok ⟨401, body⟩

/-! ## Calls -/

/-- The call with another token. -/
def Call.bearing (c : Call) (token : String) : Call :=
  { c with headers := c.headers.map fun h =>
      if h.1 = "Authorization" then (h.1, "Bearer " ++ token) else h }

/-- Calls for one request differ in the token alone. -/
theorem Service.call_bearing (v : Service) (r : Request) (token token' : String) :
    (v.call r token).bearing token' = v.call r token' := by
  unfold Service.call Call.bearing
  cases r.body? <;> rfl

/-! ## Exchanges -/

/-- The courses that an exchange of a request takes, with the result of each. Without a token nothing
is sent. The one call is followed by a second one if its token was rejected, and only then: the
rejection is reported, another token is asked for, and the same call is made with it. -/
inductive Service.Exchanges (v : Service) (r : Request) :
    List Dealing → Except RequestError String → Prop
  | refused {f : RequestError} : Exchanges v r [.token (.error f)] (.error f)
  | once {token : String} {reply : Reply} {a : Arrival} {x : Except RequestError String}
      (ha : v.Brings reply a) (hlast : ¬ a.Rejects) (hx : a.Gives x) :
      Exchanges v r [.token (.ok token), .call (v.call r token) reply] x
  | unrenewed {token : String} {reply : Reply} {a : Arrival} {f : RequestError}
      (ha : v.Brings reply a) (hrejected : a.Rejects) :
      Exchanges v r [.token (.ok token), .call (v.call r token) reply, .reject, .token (.error f)]
        (.error f)
  | twice {token token' : String} {reply reply' : Reply} {a a' : Arrival}
      {x : Except RequestError String} (ha : v.Brings reply a) (hrejected : a.Rejects)
      (ha' : v.Brings reply' a') (hx : a'.Gives x) :
      Exchanges v r [.token (.ok token), .call (v.call r token) reply, .reject, .token (.ok token'),
        .call ((v.call r token).bearing token') reply'] x

end HeatWatch
