import Depot.Bytes

/-! # Messages

What passes between a byte stream and the HTTP engine: a head that announces the length of the
body, the body in chunks, and its end. -/

namespace Depot.Http

inductive Version where
  | http09
  | http10
  | http11
  | http20
  deriving Repr, DecidableEq

def Version.label : Version → String
  | .http09 => "HTTP/0.9"
  | .http10 => "HTTP/1.0"
  | .http11 => "HTTP/1.1"
  | .http20 => "HTTP/2.0"

/-- One piece of a stream of requests or responses whose heads are of type `η`. -/
inductive Message (η : Type) where
  /-- A head and the length of the body behind it. -/
  | head (head : η) (length : Nat)
  | chunk (bytes : Bytes)
  | eof
  deriving Repr, DecidableEq

end Depot.Http
