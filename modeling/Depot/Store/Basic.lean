import Depot.Fault
import Depot.StopFlag
import Depot.Resp.Command
import Depot.Resp.Decoder

/-! # The store behind the service

A store answers one command at a time. An error reply is an answer like any other; only a broken
link or bytes that are no reply leave a command without one. Commands run inside the service: a
store may report to its log and raise its stop flag. -/

namespace Depot

inductive NoAnswer where
  | noLink
  | broken (cause : Fault)
  | garbled (cause : Resp.Fault)
  deriving Repr, DecidableEq

namespace NoAnswer

def message : NoAnswer → String
  | .noLink => "store not connected"
  | .broken cause => "store transport error: " ++ cause.message
  | .garbled cause => "store protocol error: " ++ cause.message

/-- Whether the link failed, and not the reply. -/
def isLinkFailure : NoAnswer → Bool
  | .garbled _ => false
  | _ => true

end NoAnswer

abbrev Answer := Except NoAnswer Resp.Value

/-- What requests share while the service runs: the store, the stop flag and the log. -/
structure Service (σ : Type) where
  store : σ
  flag : StopFlag := {}
  /-- What was reported, the latest first. -/
  events : List Event := []

namespace Service

variable {σ : Type}

def log (s : Service σ) : List Event := s.events.reverse

def logging (events : List Event) (s : Service σ) : Service σ :=
  { s with events := events.reverse ++ s.events }

def report (event : Event) : StateM (Service σ) Unit :=
  modify (logging [event])

/-- Raises the stop flag; only the first time counts and is logged. -/
def raise (reason : StopReason) : StateM (Service σ) Unit :=
  modify fun s => { s.logging (s.flag.raiseLog reason) with flag := s.flag.raise reason }

end Service

class Store (σ : Type) where
  carryOut : Resp.Command → StateM (Service σ) Answer

end Depot
