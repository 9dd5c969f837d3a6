import Depot.Text.Decimal

/-! # Timings

How long the endpoint of a route took lately: a ring of the last hundred durations in nanoseconds.
An average is given once the ring is full and one duration has been written over. Durations and
their number are kept in 64 bits, and 128 bits add up a ring. -/

namespace Depot.Route

def timingSlots : Nat := 100

structure Timing where
  ring : Vector UInt64 timingSlots := Vector.replicate timingSlots 0
  pushed : UInt64 := 0
  /-- Set for good when the first slot is written for the second time. -/
  hasAverage : Bool := false
  deriving Repr, DecidableEq

namespace Timing

def next (t : Timing) : Fin timingSlots :=
  ⟨t.pushed.toNat % timingSlots, Nat.mod_lt _ (by decide)⟩

/-- Writes a duration, in nanoseconds, over the oldest one. Those past 64 bits are not told
apart. -/
def push (nanos : Nat) (t : Timing) : Timing :=
  let pushed := t.pushed + 1
  { ring := t.ring.set t.next (UInt64.ofNatClamp nanos)
    pushed
    hasAverage := t.hasAverage || (1 < pushed && t.next.val == 0) }

def total (t : Timing) : BitVec 128 :=
  t.ring.toList.foldl (fun total nanos => total + nanos.toBitVec.setWidth 128) 0

/-- The average of the durations kept, rounded down. -/
def average? (t : Timing) : Option Nat :=
  if t.hasAverage then
    some (UInt64.ofNatClamp (t.total / BitVec.ofNat 128 timingSlots).toNat).toNat
  else none

end Timing

end Depot.Route
