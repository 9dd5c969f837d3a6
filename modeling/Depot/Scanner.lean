import Depot.Bytes

/-! # Reading values off the front of a growing buffer

A scanner has three outcomes: a value with the bytes behind it, a fault that no further byte can
mend, or the wish for more bytes. The primitives here look only at the bytes they take and at the
byte that stops them, so an answer found on a buffer stands however the buffer grows; scanners
built from them by `bind` keep that. -/

namespace Depot

inductive Scan (ε α : Type) where
  /-- The buffer starts with a value; `rest` lies behind it. -/
  | value (a : α) (rest : Bytes)
  | more
  /-- No value starts this way, whatever follows. -/
  | fault (e : ε)
  deriving Repr, DecidableEq

def Scanner (ε α : Type) := Bytes → Scan ε α

namespace Scanner

variable {ε α β : Type}

def run (p : Scanner ε α) (buffer : Bytes) : Scan ε α := p buffer

def bind (p : Scanner ε α) (q : α → Scanner ε β) : Scanner ε β := fun buffer =>
  match p buffer with
  | .value a rest => q a rest
  | .more => .more
  | .fault e => .fault e

instance : Monad (Scanner ε) where
  pure a := fun buffer => .value a buffer
  bind := bind

def fail (e : ε) : Scanner ε α := fun _ => .fault e

def byte : Scanner ε UInt8
  | [] => .more
  | b :: rest => .value b rest

def expect (e : ε) (b : UInt8) : Scanner ε Unit
  | [] => .more
  | c :: rest => if c = b then .value () rest else .fault e

def literal (e : ε) : Bytes → Scanner ε Unit
  | [] => pure ()
  | b :: bytes => do expect e b; literal e bytes

/-- The bytes up to the first that fails the test. That one has to be there. -/
def span (test : UInt8 → Bool) : Scanner ε Bytes := fun buffer =>
  match buffer.dropWhile test with
  | [] => .more
  | b :: rest => .value (buffer.takeWhile test) (b :: rest)

end Scanner

end Depot
