import Depot.Bytes

/-! # Read blocks

Bytes are read into a block of memory, as many at a time as fit behind those that wait in it.
Messages are taken off the front. Once the block is full, what waits moves to the front if at
least as much was taken there; otherwise the block doubles. A block in which the head of the
request lies is left alone: its body goes on in another one.

How much is read at a time shows in how much of an endless head has been read when it is found to
be too long. -/

namespace Depot.Http

structure Block where
  size : Nat := 8192
  /-- The bytes at the front that were taken. -/
  taken : Nat := 0
  /-- Whether the head of the request that is being read lies in it. -/
  kept : Bool := false
  deriving Repr, DecidableEq

namespace Block

/-- The bytes that fit behind so many waiting ones. -/
def room (b : Block) (waiting : Nat) : Nat := b.size - (b.taken + waiting)

def forMore (b : Block) (waiting : Nat) : Block :=
  if 0 < b.room waiting then b
  else if b.kept then { size := max 8192 (waiting + 1) }
  else if waiting ≤ b.taken then { b with taken := 0 }
  else { b with size := 2 * b.size }

def take (b : Block) (count : Nat) : Block := { b with taken := b.taken + count }

/-- Keeps the head that was taken last, or lets go of it. -/
def keep (b : Block) (kept : Bool) : Block := { b with kept }

end Block

end Depot.Http
