import Depot.Text.Decimal

/-! # Store addresses

Where the store listens: on a local socket, or on a port of a host. -/

namespace Depot

inductive StoreAddress where
  | localSocket (path : String)
  | remote (host : String) (port : Nat)
  deriving Repr, DecidableEq

inductive StoreAddressFault where
  | noPort (text : String)
  | noHost (text : String)
  | badPort (port : String)
  | zeroPort
  deriving Repr, DecidableEq

def quoted (text : String) : String := "\x60" ++ text ++ "\x60"

def StoreAddressFault.message : StoreAddressFault → String
  | .noPort text => quoted text ++ " has no port"
  | .noHost text => quoted text ++ " has no host"
  | .badPort port => quoted port ++ " is not a port"
  | .zeroPort => "port must not be zero"

namespace StoreAddress

def render : StoreAddress → String
  | .localSocket path => "unix:" ++ path
  | .remote host port => host ++ ":" ++ toString port

def splitLast : List Char → Option (List Char × List Char)
  | [] => none
  | c :: text =>
    match splitLast text with
    | some (host, port) => some (c :: host, port)
    | none => if c = ':' then some ([], text) else none

/-- The host and port a text names; the port stands behind the last colon. -/
def parseTcp (text : String) : Except StoreAddressFault StoreAddress :=
  match splitLast text.toList with
  | none => .error (.noPort text)
  | some ([], _) => .error (.noHost text)
  | some (host, port) =>
    match Text.Decimal.readNat Text.Decimal.max16 port with
    | .error _ => .error (.badPort (String.ofList port))
    | .ok 0 => .error .zeroPort
    | .ok n => .ok (.remote (String.ofList host) n)

end StoreAddress

end Depot
