import Depot.Log
import Depot.Route.Timing
import Depot.Text.Utf8

/-! # Route tables

A route serves all paths that start with its base. Routes are numbered from one in the order in
which they are added, and the first whose base starts a path serves it, even if a later one would
fit it better. A route can be switched off and on again; it counts what it served and may keep
timings. -/

namespace Depot

structure Route (η : Type) where
  base : String
  number : Nat
  endpoint : η
  active : Bool := true
  /-- Requests served, and whether there was any. The count fits into 64 bits as long as there are
  fewer than `2 ^ 64`. -/
  served : Nat := 0
  used : Bool := false
  /-- Kept only where durations are sampled. -/
  timing : Option Route.Timing := none

namespace Route

structure Table (η : Type) where
  routes : List (Route η) := []
  timed : Bool := false

inductive Fault where
  | missingBase
  | unknownPath (path : String)
  deriving Repr, DecidableEq

/-- What is told of a route. -/
structure Stats where
  base : String
  number : Nat
  active : Bool
  used : Bool
  served : Nat
  average : Option Nat
  deriving Repr, DecidableEq

def Fault.message : Fault → String
  | .missingBase => "route prefix must not be empty"
  | .unknownPath path => "no route matches " ++ path

variable {η : Type}

def serves (r : Route η) (path : String) : Bool := r.base.toList.isPrefixOf path.toList

/-- What follows the base; nothing where no character starts behind as many bytes. -/
def remainder (r : Route η) (path : String) : String :=
  ((Text.Utf8.dropBytes? r.base.utf8ByteSize path.toList).map String.ofList).getD ""

def average? (r : Route η) : Option Nat := r.timing.bind Timing.average?

def serve (r : Route η) : Route η := { r with served := r.served + 1, used := true }

def sample (nanos : Nat) (r : Route η) : Route η :=
  { r with timing := r.timing.map (Timing.push nanos) }

def stats (r : Route η) : Stats :=
  { base := r.base
    number := r.number
    active := r.active
    used := r.used
    served := r.served
    average := r.average? }

namespace Table

/-- The highest number, which is the number of routes. -/
def size (t : Table η) : Nat := (t.routes.getLast?.map Route.number).getD 0

def add (base : String) (endpoint : η) (t : Table η) : Except Fault (Table η) :=
  if base = "" then .error .missingBase
  else
    .ok { t with
      routes := t.routes ++ [{
        base
        number := t.routes.length + 1
        endpoint
        timing := if t.timed then some {} else none }] }

def addLog (base : String) (t : Table η) : List Event :=
  if base = "" then [.error "refuse to register a route without prefix" []]
  else
    [.info "route registered" [("seq", toString (t.routes.length + 1)), ("prefix", base)]]

def find? (t : Table η) (path : String) : Option (Route η) :=
  t.routes.find? fun r => r.serves path

def modifyFirst (path : String) (f : Route η → Route η) : List (Route η) → List (Route η)
  | [] => []
  | r :: routes => if r.serves path then f r :: routes else r :: modifyFirst path f routes

def switch (path : String) (active : Bool) (t : Table η) : Except Fault (Table η) :=
  match t.find? path with
  | none => .error (.unknownPath path)
  | some _ => .ok { t with routes := modifyFirst path (fun r => { r with active }) t.routes }

def switchLog (path : String) (active : Bool) (t : Table η) : List Event :=
  match t.find? path with
  | none => []
  | some r =>
    [.info "route toggled"
      [("seq", toString r.number), ("prefix", r.base), ("enabled", toString active)]]

/-- Changes the route of a number; there is none of number zero. -/
def modify (number : Nat) (f : Route η → Route η) (t : Table η) : Table η :=
  match number with
  | 0 => t
  | index + 1 => { t with routes := t.routes.modify index f }

def countAt (number : Nat) (t : Table η) : Table η := t.modify number Route.serve

def sampleAt (number nanos : Nat) (t : Table η) : Table η :=
  t.modify number (Route.sample nanos)

def averageFor (t : Table η) (path : String) : Option Nat :=
  (t.find? path).bind Route.average?

def stats (t : Table η) : List Stats := t.routes.map Route.stats

end Table

end Route

end Depot
