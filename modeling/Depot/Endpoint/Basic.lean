import Depot.Http.Request
import Depot.Store.Dialogue

/-! # Endpoints

An endpoint answers any request on its route. It sees the stop flag as it stood when the request
came in, the path behind the base of the route, and the request; it may talk to the store. -/

namespace Depot

structure Outcome where
  draft : Http.Draft := {}
  body : String
  deriving DecidableEq

def Outcome.reply (h : Outcome) : Http.Reply := h.draft.reply (Text.Utf8.encode h.body)

/-- What answers the requests on a route. -/
abbrev Endpoint := StopFlag → String → Http.Request → Dialogue Outcome

namespace Outcome

def plain (status : Http.Status) (body : String) : Outcome := ⟨{ status := some status }, body⟩

def goingDown : Outcome := plain .serviceUnavailable "service unavailable: shutting down"

def wrongMethod (allow : String) : Outcome :=
  ⟨{ status := some .methodNotAllowed, allow := some allow }, "method not allowed"⟩

end Outcome

def refuseMethod (r : Http.Request) (allow : String) : Dialogue Outcome := do
  .report (.warn (r.client.render ++ " 405 METHOD_NOT_ALLOWED") [])
  return .wrongMethod allow

end Depot
