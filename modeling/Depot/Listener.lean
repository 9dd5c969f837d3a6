import Depot.Gateway
import Depot.Host
import Depot.Tls.Material

/-! # The listener

A listener needs routes, and TLS material that holds if it is to use TLS. Then it takes its port. -/

namespace Depot

structure Listener where
  address : Address := .unspecified
  port : Nat := 0
  /-- Whether all connections take turns on one thread. -/
  oneThread : Bool := false
  tls : Option Tls.Material := none
  /-- Seconds after which an idle connection is closed. -/
  idleSeconds : Option Nat := some 30
  capacity : Nat := 1020
  bounds : Http.Bounds := {}
  deriving DecidableEq

inductive ListenFault where
  | nothingServed
  | taken (address : Address) (port : Nat) (cause : SystemError)
  | tls (cause : Tls.Fault)
  deriving DecidableEq

def ListenFault.message : ListenFault → String
  | .nothingServed => "no route registered"
  | .taken address port cause =>
    "bind " ++ address.renderWithPort port ++ " error: " ++ (Fault.system cause).message
  | .tls cause => "tls setup error: " ++ cause.message

namespace Listener

def socket (c : Listener) : String := c.address.renderWithPort c.port

def check {η : Type} (c : Listener) (routes : Route.Table η) : Except ListenFault Unit :=
  if routes.size = 0 then .error .nothingServed
  else
    match c.tls with
    | some material => .error (.tls material.fault)
    | none => .ok ()

def listen {π : Type} (c : Listener) (host : Host π) : Except ListenFault Unit :=
  (host.bind c.address c.port).mapError (.taken c.address c.port)

def listenLog (c : Listener) : List Event :=
  [.info "start listening" [("address", c.socket), ("tls", toString c.tls.isSome)]]

end Listener

end Depot
