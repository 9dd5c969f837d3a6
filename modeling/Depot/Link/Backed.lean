import Depot.Link
import Depot.Store.Volatile

/-! # Peers backed by a store

A peer that carries out what it hears on a store in memory. It may turn all commands down, or hang
up on one of them instead of answering it. -/

namespace Depot

open Resp (Command Value)

structure Backed where
  volatile : Volatile := {}
  /-- The commands it answers before it hangs up; without end if none is given. -/
  patience : Option Nat := none
  refuses : Bool := false

namespace Backed

def refusal : Value := .failure "NOAUTH Authentication required."

def misread : Value := .failure "ERR Protocol error"

def commandOf? (wire : Bytes) : Option Command :=
  match Resp.decode wire with
  | .value v [] => Command.ofValue? v
  | _ => none

def reply (wire : Bytes) (b : Backed) : Value × Backed :=
  if b.refuses then (refusal, b)
  else
    match commandOf? wire with
    | none => (misread, b)
    | some c =>
      let (value, volatile) := { b.volatile with history := b.volatile.history ++ [c] }.perform c
      (value, { b with volatile })

def hear (wire : Bytes) (b : Backed) : List Delivery × Backed :=
  if b.patience = some 0 then ([.hangUp], b)
  else
    let (value, next) := b.reply wire
    ([.bytes value.encode], { next with patience := b.patience.map (· - 1) })

/-- The commands that are carried out, of those a fresh peer hears. -/
def carriedOut (heard : List Bytes) (b : Backed) : List Command :=
  if b.refuses then []
  else (b.patience.elim heard fun n => heard.take n).filterMap commandOf?

instance : Peer Backed where
  hear := hear

end Backed

end Depot
