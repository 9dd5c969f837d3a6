/-! # Storage options

What the operator settled about the objects that are stored. -/

namespace Depot

structure Options where
  maxObject : Nat := 10 * 1024 * 1024
  /-- Seconds after which an object is gone; zero keeps it for good. -/
  lifetime : Nat := 0
  /-- Whether an object that is there stays as it is. -/
  writeOnce : Bool := false
  /-- Whether an object is deleted once it has been read. -/
  readOnce : Bool := false
  deriving Repr, DecidableEq

def Options.leastMaxObject : Nat := 1024

end Depot
