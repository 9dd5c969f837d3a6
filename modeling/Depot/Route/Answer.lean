import Depot.Endpoint.Basic
import Depot.Route.Table

/-! # Answers by route

A request goes to the first route that serves its path. No route, or one that is switched off, has
a reply of its own and leaves the table as it is. -/

namespace Depot.Route

variable {σ : Type}

def notFound : Http.Reply := (Outcome.plain .notFound "node not found").reply

def switchedOff : Http.Reply := (Outcome.plain .serviceUnavailable "node not enabled").reply

/-- Answers a request. A route that served it counts it and the time its endpoint took. -/
def Table.answer [Store σ] (elapsed : Nat) (r : Http.Request) (t : Table Endpoint) :
    StateM (Service σ) (Http.Reply × Table Endpoint) := do
  match t.find? r.path with
  | none => return (notFound, t)
  | some route =>
    if !route.active then return (switchedOff, t)
    let service ← get
    let outcome ← (route.endpoint service.flag (route.remainder r.path) r).run
    return (outcome.reply, (t.sampleAt route.number elapsed).countAt route.number)

end Depot.Route
