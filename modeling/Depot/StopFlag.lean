import Depot.Log

/-! # The stop flag

One flag for the whole service. Once it is up the service goes down. Whoever raises it first fixes
the reason; raising it again changes nothing. -/

namespace Depot

inductive StopReason where
  | signal
  | linkLost
  deriving Repr, DecidableEq

def StopReason.text : StopReason → String
  | .signal => "signal"
  | .linkLost => "store lost"

/-- The flag: not raised, or raised for a reason. -/
structure StopFlag where
  reason : Option StopReason := none
  deriving Repr, DecidableEq

namespace StopFlag

def isRaised (s : StopFlag) : Bool := s.reason.isSome

def raise (s : StopFlag) (reason : StopReason) : StopFlag :=
  ⟨s.reason.or (some reason)⟩

/-- What raising the flag reports; it does so only the first time. -/
def raiseLog (s : StopFlag) (reason : StopReason) : List Event :=
  if s.isRaised then [] else [.info "shutdown triggered" [("reason", reason.text)]]

end StopFlag

end Depot
