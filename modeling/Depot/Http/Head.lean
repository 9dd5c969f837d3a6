import Depot.Http.Syntax
import Depot.Http.Target
import Depot.Fault

/-! # Request heads

A head that keeps to the syntax is read into a method, a target and fields, and settles how many
bytes of body follow: as many as its first `content-length` says, none without one. Bodies framed
in any other way are refused. -/

namespace Depot.Http

structure Head where
  method : String
  target : Target
  version : Version
  fields : Fields
  deriving Repr, DecidableEq

def maxFields : Nat := 64

/-- The most bytes of a head, empty lines in front included. -/
def maxHead : Nat := 8192

/-- No head is shorter than this, so a shorter buffer is not looked at. -/
def minHead : Nat := 18

inductive LengthFault where
  | notText
  | notNumber (text : String)
  deriving Repr, DecidableEq

inductive ParseFault where
  | oversized (size : Nat)
  | tooManyFields
  | malformed (cause : HeadFault)
  | target
  | contentLength (cause : LengthFault)
  | transferEncoding (coding : String)
  /-- A message that does not fit the phase of the connection. -/
  | unexpected (reason : String)
  | read (cause : Fault)
  deriving Repr, DecidableEq

def HeadFault.text : HeadFault → String
  | .token => "invalid token"
  | .name => "invalid header name"
  | .value => "invalid header value"
  | .newLine => "invalid new line"
  | .version => "invalid HTTP version"
  | .tooManyFields => "too many headers"

def LengthFault.text : LengthFault → String
  | .notText => "value can't to_str"
  | .notNumber text => "value " ++ text ++ " is not u64"

def ParseFault.message : ParseFault → String
  | .oversized size =>
    "request head of " ++ toString size ++ " bytes exceeds " ++ toString maxHead
  | .tooManyFields => "more than " ++ toString maxFields ++ " header fields"
  | .malformed cause => "malformed header: " ++ cause.text
  | .target => "malformed request target"
  | .contentLength cause => "malformed content-length: " ++ cause.text
  | .transferEncoding coding => "transfer-encoding " ++ coding ++ " is not supported"
  | .unexpected reason => "unexpected frame: " ++ reason
  | .read cause => "read failed: " ++ cause.message

namespace Head

def path (h : Head) : String := h.target.path

def collect (fields : List (Bytes × Bytes)) : Fields :=
  fields.foldl
    (fun all (name, value) =>
      Fields.append (Text.Utf8.lossy (name.map Text.Ascii.toLower)) value all)
    []

def bodyLength (fields : Fields) : Except ParseFault Nat :=
  match fields.first? "transfer-encoding", fields.first? "content-length" with
  | some coding, _ => .error (.transferEncoding (Text.Utf8.lossy coding))
  | none, none => .ok 0
  | none, some value =>
    match Fields.textOf? value with
    | none => .error (.contentLength .notText)
    | some text =>
      match Text.Decimal.readNat Text.Decimal.max64 (Text.trim text.toList) with
      | .ok n => .ok n
      | .error _ => .error (.contentLength (.notNumber text))

def awaitsSign (h : Head) : Bool :=
  (h.fields.first? "expect").any fun value =>
    Text.Ascii.sameIgnoringCase value (Text.Utf8.encode "100-continue")

/-- What reading a head comes to. A fault found once the head is complete takes the head off the
buffer, so each fault comes with what is left. -/
inductive Read where
  | head (head : Head) (length : Nat) (rest : Bytes)
  | more
  | fault (e : ParseFault) (rest : Bytes)

/-- The fault, unless more bytes than a head may have are waiting for its end. -/
def wait (buffer : Bytes) : Read :=
  if buffer.length ≤ maxHead then .more else .fault (.oversized buffer.length) buffer

def readAny (buffer : Bytes) : Read :=
  match Syntax.head maxFields buffer with
  | .more => wait buffer
  | .fault .tooManyFields => .fault .tooManyFields buffer
  | .fault cause => .fault (.malformed cause) buffer
  | .value raw rest =>
    let size := buffer.length - rest.length
    if maxHead < size then .fault (.oversized size) buffer
    else
      match Target.parse? raw.target with
      | none => .fault .target buffer
      | some target =>
        let fields := collect raw.fields
        match bodyLength fields with
        | .error e => .fault e rest
        | .ok length =>
          .head ⟨Text.Utf8.lossy raw.method, target, raw.version, fields⟩ length rest

/-- Reads a head off a buffer; one too short for any head is left alone. -/
def read (buffer : Bytes) : Read :=
  if buffer.length < minHead then .more else readAny buffer

end Head

end Depot.Http
