import Depot.Link
import Depot.Setup

/-! # Operation

Starting up goes in this order: the link to the store, the routes, the checks of the listener, its
port. From then on clients are served until the service goes down, for a signal or because the link
to the store broke; no client is served after that. The link is closed at the end, however the end
came. -/

namespace Depot

inductive StartFailure where
  | link (cause : ConnectFault)
  | routes (cause : Route.Fault)
  | listener (cause : ListenFault)
  deriving DecidableEq

def StartFailure.message : StartFailure → String
  | .link cause => "connect store error: " ++ cause.message
  | .routes cause => "route setup error: " ++ cause.message
  | .listener cause => cause.message

namespace Operation

variable {π : Type} [Peer π]

def padLeft (length : Nat) (text : String) : String :=
  String.ofList (List.replicate (length - text.length) ' ') ++ text

/-- One line for each object route that has an average above zero, under its digest size. -/
def timingReport {η : Type} (t : Route.Table η) : List String :=
  Digest.all.filterMap fun d =>
    (t.averageFor d.route).bind fun nanos =>
      if 0 < nanos then some (padLeft 6 (toString d.bits) ++ ": " ++ toString nanos) else none

structure Client where
  address : Address
  input : Bytes

def reportAll {σ : Type} (events : List Event) : StateM (Service σ) Unit :=
  modify (Service.logging events)

def establish (host : Host π) (d : StoreAddress) :
    StateM (Service (Link π)) (Except ConnectFault Unit) := do
  let result ← modifyGet fun s =>
    let (result, store) := s.store.establish (host.dial d)
    (result, { s with store })
  if result.isOk then Service.report (.info "store connected" [("destination", d.render)])
  return result

def close : StateM (Service (Link π)) Unit :=
  modify fun s => { s.logging s.store.closeLog with store := s.store.close }

/-- Serves clients in turn, for as long as the service is up; the others get nothing. -/
def serveClients (reachable : Bool) :
    List Client → StateM (Gateway (Link π)) (List (Option Bytes))
  | [] => return []
  | client :: clients => do
    let up := reachable && !(← get).service.flag.isRaised
    let response ← if up then some <$> Gateway.serve 0 client.address client.input else pure none
    modify fun g => { g with service := { g.service with store := g.service.store.rest } }
    let responses ← serveClients reachable clients
    return response :: responses

def quotaLog (l : Quota) : Event :=
  .info "rate limiting enabled"
    [("period", toString l.window), ("max_count", toString l.capacity)]

def start (host : Host π) (s : Setup) (routes : Route.Table Endpoint) :
    StateM (Service (Link π)) (Except ListenFault Unit) := do
  if let some l := s.quota then Service.report (quotaLog l)
  match s.listener.check routes with
  | .error e => return .error e
  | .ok _ =>
    match s.listener.listen host with
    | .error e => return .error e
    | .ok _ =>
      reportAll s.listener.listenLog
      Service.report (.info ("webstore started on port " ++ toString s.listener.port) [])
      return .ok ()

def gateway {σ : Type} (s : Setup) (routes : Route.Table Endpoint) (service : Service σ) :
    Gateway σ :=
  { service
    routes
    quota := s.quota
    bounds := s.listener.bounds
    idle := s.listener.idleSeconds.map (· * 1000) }

def serve (host : Host π) (s : Setup) (clients : List Client) :
    StateM (Service (Link π)) (List (Option Bytes) × Except StartFailure Unit) := do
  match routeTable s.options s.timed with
  | .error e => return ([], .error (.routes e))
  | .ok (routes, log) =>
    reportAll log
    match ← start host s routes with
    | .error e => return ([], .error (.listener e))
    | .ok _ =>
      let responses ← modifyGet fun service =>
        let (responses, g) := (serveClients host.reachable clients).run (gateway s routes service)
        (responses, g.service)
      Service.raise .signal
      if let some reason := (← get).flag.reason then
        Service.report (.info "stop accepting connections" [("reason", reason.text)])
      return (responses, .ok ())

/-- The numbers of the signals that end the service in good order: hang-up, interrupt, quit,
termination. -/
def stopSignals : List Nat := [1, 2, 3, 15]

structure Ended where
  /-- What the clients got; nothing for those that were not served. -/
  responses : List (Option Bytes)
  result : Except StartFailure StopReason

def runIn (host : Host π) (s : Setup) (clients : List Client) :
    StateM (Service (Link π)) Ended := do
  match ← establish host s.store with
  | .error e => return ⟨[], .error (.link e)⟩
  | .ok _ =>
    let (responses, result) ← serve host s clients
    close
    Service.report (.info "webstore shutdown" [])
    let reason := (← get).flag.reason.getD .signal
    return ⟨responses, result.map fun _ => reason⟩

def run (host : Host π) (s : Setup) (clients : List Client) : Ended × Service (Link π) :=
  (runIn host s clients).run { store := { watchdog := true } }

/-- The exit code: only a signal ends the service well. -/
def Ended.exitCode (e : Ended) : Nat :=
  match e.result with
  | .ok .signal => 0
  | _ => 1

def Ended.log (e : Ended) : List Event :=
  match e.result with
  | .ok .signal => []
  | .ok .linkLost => [.info "exit after losing the store" []]
  | .error e => [.error "webstore failed" [("cause", e.message)]]

end Operation

end Depot
