import Depot.CommandLine
import Depot.Host
import Depot.Quota
import Depot.Listener

/-! # Setup

Command line, environment and files together settle how the service runs. They are looked at in
this order: the three variables, the size limit, the TLS files. -/

namespace Depot

structure Setup where
  listener : Listener
  store : StoreAddress
  options : Options
  quota : Option Quota
  logPath : Option String
  timed : Bool
  deriving DecidableEq

inductive SetupFault where
  | noStore
  | invalidVariable (name value : String)
  | unreadable (path : String) (cause : Fault)
  deriving Repr, DecidableEq

def SetupFault.message : SetupFault → String
  | .noStore => "no store destination given"
  | .invalidVariable name value =>
    "environment variable " ++ name ++ "=" ++ value ++ " is not an integer"
  | .unreadable path cause => "cannot read " ++ path ++ ": " ++ cause.message

namespace Setup

/-- The integer a variable holds, blanks around it aside; none for a variable that is not set. -/
def integerOf (env : String → Option String) (name : String) :
    Except SetupFault (Option Int) :=
  match env name with
  | none => .ok none
  | some value =>
    match Text.Decimal.readInt (Text.trim value.toList) with
    | .ok n => .ok (some n)
    | .error _ => .error (.invalidVariable name value)

/-- The quota of two variables; either one missing leaves it off. -/
def quotaOf (window capacity : Option Int) : Option Quota :=
  match window, capacity with
  | some window, some capacity => Quota.ofInts? window capacity
  | _, _ => none

def floorLog (c : CommandLine) : List Event :=
  if c.maxObject < Options.leastMaxObject then
    [.warn "maxpost raised to floor"
      [("maxpost", toString c.maxObject), ("floor", toString Options.leastMaxObject)]]
  else []

def read {π : Type} (host : Host π) (path : String) : Except SetupFault Bytes :=
  (host.readFile path).mapError (.unreadable path)

def materialOf {π : Type} (host : Host π) (c : CommandLine) :
    Except SetupFault (Option Tls.Material) :=
  match c.cert, c.key with
  | some cert, some key => do
    let cert ← read host cert
    let key ← read host key
    let ca ← c.ca.mapM (read host)
    return some { cert, key, ca }
  | _, _ => .ok none

def optionsOf (c : CommandLine) (lifetime : Int) : Options :=
  { maxObject := max c.maxObject Options.leastMaxObject
    lifetime := lifetime.toNat
    writeOnce := c.writeOnce
    readOnce := c.bar }

structure Derived where
  log : List Event := []
  result : Except SetupFault Setup

def environment (env : String → Option String) : Except SetupFault (Option Quota × Int) := do
  let window ← integerOf env "REQPERIOD"
  let capacity ← integerOf env "REQCOUNT"
  let lifetime ← integerOf env "EXPIRATION"
  return (quotaOf window capacity, lifetime.getD 0)

def assemble {π : Type} (host : Host π) (c : CommandLine) (store : StoreAddress)
    (quota : Option Quota) (lifetime : Int) : Except SetupFault Setup := do
  let options := optionsOf c lifetime
  let tls ← materialOf host c
  return {
    listener := {
      address := c.ip
      port := c.port
      oneThread := c.oneThread
      tls
      idleSeconds := if 0 < c.timeout then some c.timeout else none
      bounds := Gateway.boundsOf options }
    store
    options
    quota
    logPath := c.log
    timed := c.stats }

def derive {π : Type} (host : Host π) (env : String → Option String) (c : CommandLine) :
    Derived :=
  match c.store? with
  | none => { result := .error .noStore }
  | some store =>
    match environment env with
    | .error e => { result := .error e }
    | .ok (quota, lifetime) =>
      { log := floorLog c, result := assemble host c store quota lifetime }

end Setup

end Depot
