import Depot.Store.Basic

/-! # The store in memory

A map from keys to values with optional deadlines, and a clock in milliseconds that moves only
when told to. A slot is empty from its deadline on; it is dropped when it is next looked at.
While the store is offline every command fails as a transport error and leaves no trace. -/

namespace Depot

open Resp (Command Value)

structure Slot where
  value : Bytes
  deadline : Option Nat
  deriving Repr, DecidableEq

def Slot.isExpired (e : Slot) (now : Nat) : Bool :=
  match e.deadline with
  | some deadline => deadline ≤ now
  | none => false

structure Volatile where
  slots : List (Bytes × Slot) := []
  /-- Milliseconds; a 64 bit count that wraps. -/
  now : Nat := 0
  offline : Bool := false
  /-- The commands carried out so far, oldest first. -/
  history : List Command := []

namespace Volatile

def elapse (millis : Nat) (m : Volatile) : Volatile :=
  { m with now := (m.now + millis) % (Text.Decimal.max64 + 1) }

def cutOff (offline : Bool) (m : Volatile) : Volatile := { m with offline }

def find? (m : Volatile) (key : Bytes) : Option Slot := m.slots.lookup key

def remove (key : Bytes) (m : Volatile) : Volatile :=
  { m with slots := m.slots.filter fun (k, _) => k != key }

def insert (key : Bytes) (e : Slot) (m : Volatile) : Volatile :=
  { m.remove key with slots := (key, e) :: (m.remove key).slots }

/-- Drops the slot under a key if it has expired. -/
def settle (key : Bytes) (m : Volatile) : Volatile :=
  match m.find? key with
  | some e => if e.isExpired m.now then m.remove key else m
  | none => m

def current? (m : Volatile) (key : Bytes) : Option Slot := (m.settle key).find? key

/-- Looks at the value under a key, past the command history. -/
def peek (key : Bytes) (m : Volatile) : Option Bytes × Volatile :=
  ((m.current? key).map Slot.value, m.settle key)

/-- The terms of a `SET`: seconds to live, and whether a slot may be replaced. -/
structure SetTerms where
  seconds : Option Nat := none
  onlyNew : Bool := false
  deriving Repr, DecidableEq

def notInteger : String := "ERR value is not an integer or out of range"
def badExpiry : String := "ERR invalid expire time in 'set' command"
def badSyntax : String := "ERR syntax error"
def wouldOverflow : String := "ERR increment or decrement would overflow"

def unknown (name : String) : String :=
  "ERR unknown command or wrong number of arguments for '" ++ name ++ "'"

/-- Reads the options of a `SET` from left to right; the last expiry counts. -/
def readTerms (terms : SetTerms) : List Bytes → Except String SetTerms
  | [] => .ok terms
  | option :: options =>
    if Text.Ascii.sameIgnoringCase option (Text.Utf8.encode "NX") then
      readTerms { terms with onlyNew := true } options
    else if Text.Ascii.sameIgnoringCase option (Text.Utf8.encode "EX") then
      match options with
      | [] => .error notInteger
      | seconds :: options =>
        match Text.Decimal.intOfBytes? seconds with
        | none => .error notInteger
        | some seconds =>
          if 0 < seconds then readTerms { terms with seconds := some seconds.toNat } options
          else .error badExpiry
    else .error badSyntax

def set (key value : Bytes) (terms : SetTerms) (m : Volatile) : Value × Volatile :=
  if terms.onlyNew && (m.current? key).isSome then (.nil, m.settle key)
  else
    let deadline := terms.seconds.map fun seconds => m.now + seconds * 1000
    (.status "OK", m.insert key ⟨value, deadline⟩)

/-- Adds one to the number under a key; a missing one counts from zero. The deadline stays. -/
def increment (key : Bytes) (m : Volatile) : Value × Volatile :=
  let e := m.current? key
  match e.elim (some 0) (fun e => Text.Decimal.intOfBytes? e.value) with
  | none => (.failure notInteger, m.settle key)
  | some n =>
    if n < Text.Decimal.max63 then
      let next := Text.Utf8.encode (toString (n + 1))
      (.integer (n + 1), (m.settle key).insert key ⟨next, e.bind Slot.deadline⟩)
    else (.failure wouldOverflow, m.settle key)

def delete (keys : List Bytes) (m : Volatile) : Nat × Volatile :=
  keys.foldl
    (fun (count, m) key =>
      (if (m.current? key).isSome then count + 1 else count, (m.settle key).remove key))
    (0, m)

def perform (c : Command) (m : Volatile) : Value × Volatile :=
  let name := c.name.map Char.toUpper
  match name, c.args with
  | "PING", [] => (.status "PONG", m)
  | "GET", [key] => ((m.current? key).elim .nil fun e => .bulk e.value, m.settle key)
  | "DEL", key :: keys =>
    let (count, m) := m.delete (key :: keys)
    (.integer count, m)
  | "INCR", [key] => m.increment key
  | "SET", key :: value :: options =>
    match readTerms {} options with
    | .ok terms => m.set key value terms
    | .error text => (.failure text, m)
  | _, _ => (.failure (unknown name), m)

def carryOut (c : Command) (m : Volatile) : Answer × Volatile :=
  if m.offline then (.error (.broken .connectionReset), m)
  else
    let (value, m) := { m with history := m.history ++ [c] }.perform c
    (.ok value, m)

instance : Store Volatile where
  carryOut c := modifyGet fun s =>
    let (answer, store) := s.store.carryOut c
    (answer, { s with store })

end Volatile

end Depot
