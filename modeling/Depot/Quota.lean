import Depot.Address
import Depot.Store.Dialogue
import Depot.Text.Blank

/-! # Quotas

Each address may open so many connections in a window of so many seconds. The count of a window
lies in the store and is gone with the window: the first connection writes it with a time to live,
the later ones raise it. The host itself is not limited. -/

namespace Depot

open Resp (Command Value)

structure Quota where
  /-- The length of a window, in seconds. -/
  window : Nat
  capacity : Nat
  deriving Repr, DecidableEq

namespace Quota

/-- A quota of two positive numbers; any other pair means no limit. -/
def ofInts? (window capacity : Int) : Option Quota :=
  if 0 < window ∧ 0 < capacity then some ⟨window.toNat, capacity.toNat⟩ else none

def key (address : Address) : Bytes := Text.Utf8.encode ("IPS:" ++ address.render)

def lookupCommand (address : Address) : Command := ⟨"GET", [key address]⟩

def openCommand (l : Quota) (address : Address) : Command :=
  ⟨"SET",
    [key address, Text.Utf8.encode "1", Text.Utf8.encode "EX", Text.Decimal.encode l.window]⟩

def raiseCommand (address : Address) : Command := ⟨"INCR", [key address]⟩

/-- The count a value spells; what is no number counts as zero. -/
def countOf (value : Bytes) : Nat :=
  ((Text.Utf8.decode? value).bind fun text =>
    (Text.Decimal.readNat Text.Decimal.max64 (Text.trim text.toList)).toOption).getD 0

/-- Sends a command whose answer decides nothing; that it failed is reported. -/
def update (address : Address) (command : Command) (refused failed : String) : Dialogue Unit := do
  match ← Dialogue.send command with
  | .ok (.failure text) =>
    .report (.warn refused [("client_ip", address.render), ("cause", text)])
  | .ok _ => return
  | .error e =>
    .report (.warn failed [("client_ip", address.render), ("cause", e.message)])

def decision (address : Address) (word : String) (count : Nat) : Event :=
  .info (address.render ++ " new connection " ++ word ++ " (count: " ++ toString count ++ ")") []

def check (l : Quota) (address : Address) : Dialogue Bool := do
  match ← Dialogue.send (lookupCommand address) with
  | .ok .nil =>
    update address (l.openCommand address) "store refused window" "open window failed"
    .report (decision address "allowed" 1)
    return true
  | .ok (.bulk value) =>
    let count := countOf value
    if count < l.capacity then
      update address (raiseCommand address) "store refused increment" "increment failed"
      .report (decision address "allowed" (count + 1))
      return true
    else
      .report (decision address "denied" (min (count + 1) Text.Decimal.max64))
      return false
  | .ok other =>
    .report (.warn "unexpected limiter reply, connection denied"
      [("client_ip", address.render), ("reply", other.kind)])
    return false
  | .error e =>
    .report (.warn "limiter lookup failed, connection denied"
      [("client_ip", address.render), ("cause", e.message)])
    return false

/-- Decides on a connection. An embedded address counts as the address it embeds. -/
def allows (l : Quota) (client : Address) : Dialogue Bool :=
  if client.canonical = Address.loopback then return true
  else l.check client.canonical

end Quota

end Depot
