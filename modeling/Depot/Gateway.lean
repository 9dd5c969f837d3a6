import Depot.Endpoint.OptionList
import Depot.Endpoint.Object
import Depot.Http.Connection
import Depot.Quota
import Depot.Route.Answer

/-! # The gateway

The service as its clients see it: each connection is admitted or turned away, then served request
by request on one table of routes and one store. -/

namespace Depot

open Route (Table)

def routeList (o : Options) : List (String × Endpoint) :=
  Digest.all.map (fun d => (d.route, Endpoint.Object.endpoint d o)) ++
    [(Endpoint.OptionList.route, Endpoint.OptionList.endpoint o)]

def addRoutes {η : Type} :
    List (String × η) → Table η → Except Route.Fault (Table η × List Event)
  | [], t => .ok (t, [])
  | (base, endpoint) :: routes, t => do
    let next ← t.add base endpoint
    let (last, log) ← addRoutes routes next
    return (last, t.addLog base ++ log)

def routeTable (o : Options) (timed : Bool) : Except Route.Fault (Table Endpoint × List Event) :=
  addRoutes (routeList o) { timed }

structure Gateway (σ : Type) where
  service : Service σ
  routes : Table Endpoint
  quota : Option Quota := none
  bounds : Http.Bounds := {}
  /-- The longest time, in milliseconds, between two messages of a connection. -/
  idle : Option Nat := none

namespace Gateway

variable {σ : Type}

/-- The shortest path served: the shortest configuration option. -/
def minPath : Nat := (Endpoint.OptionList.route ++ "bar").utf8ByteSize

/-- The longest path served: the longest token under its route. -/
def maxPath : Nat := Digest.sha512.route.utf8ByteSize + Digest.sha512.tokenLength

def boundsOf (o : Options) : Http.Bounds := { minPath, maxPath, maxBody := o.maxObject }

def onService {α : Type} (step : StateM (Service σ) α) : StateM (Gateway σ) α :=
  modifyGet fun g =>
    let (a, service) := step.run g.service
    (a, { g with service })

/-- Requests go to the routes, events to the log of the service. Each endpoint counts as having
taken `elapsed` nanoseconds. -/
def responder [Store σ] (elapsed : Nat) : Http.Responder (Gateway σ) where
  respond r := do
    let (reply, routes) ← onService ((← get).routes.answer elapsed r)
    modify fun g => { g with routes }
    return reply
  report event := onService (Service.report event)

def allows [Store σ] (client : Address) : StateM (Gateway σ) Bool := do
  match (← get).quota with
  | none => return true
  | some quota => onService (quota.allows client).run

def connection (g : Gateway σ) (client : Address) : Http.Connection :=
  { client, bounds := g.bounds, idle := g.idle }

def endLog (client : Address) : Except Http.ConnectionFault Unit → List Event
  | .ok _ => []
  | .error (.refused reason) =>
    [.info "request rejected, connection aborted"
      [("client_ip", client.render), ("cause", reason.message)]]
  | .error e =>
    [.error "service has error, connection shutdown"
      [("client_ip", client.render), ("cause", e.message)]]

/-- Serves a client that sends all its bytes at once, and gives what it gets back. -/
def serve [Store σ] (elapsed : Nat) (client : Address) (input : Bytes) :
    StateM (Gateway σ) Bytes := do
  if !(← allows client) then return []
  let d := responder elapsed
  let c ← Http.Connection.receive d input ((← get).connection client)
  let c ← Http.Connection.finish d c
  Http.Connection.reportAll d ((c.outcome.map (endLog client)).getD [])
  return c.sent

end Gateway

end Depot
