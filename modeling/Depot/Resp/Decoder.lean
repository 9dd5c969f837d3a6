import Depot.Resp.Value
import Depot.Scanner

/-! # Reading store replies

Replies are read off the front of the bytes that have arrived. A reply is read whole or not at
all: while part of it is missing, nothing is taken. -/

namespace Depot.Resp

def maxBulk : Nat := 512 * 1024 * 1024

inductive Fault where
  | unknownKind (b : UInt8)
  | notNumber
  | oversized (length : Nat)
  | unterminated
  deriving Repr, DecidableEq

def Fault.message : Fault → String
  | .unknownKind b => "invalid reply type byte 0x" ++ Text.Ascii.hexByte b
  | .notNumber => "invalid length or integer line"
  | .oversized length => "bulk string of " ++ toString length ++ " bytes exceeds limit"
  | .unterminated => "bulk string not terminated by CRLF"

def textLine : Scanner Fault Bytes
  | [] => .more
  | b :: rest =>
    if b = Text.Ascii.cr ∧ rest.head? = some Text.Ascii.lf then .value [] rest.tail
    else
      match textLine rest with
      | .value text rest => .value (b :: text) rest
      | .more => .more
      | .fault e => .fault e

def numberOf (text : Bytes) : Scanner Fault Int :=
  match Text.Decimal.intOfBytes? text with
  | some n => pure n
  | none => .fail .notNumber

/-- As many bytes as announced, then a line end. Both bytes of the line end have to be there
before it is judged. -/
def bulkBody (length : Nat) : Scanner Fault Bytes := fun buffer =>
  match buffer.drop length with
  | a :: b :: rest =>
    if a = Text.Ascii.cr ∧ b = Text.Ascii.lf then .value (buffer.take length) rest
    else .fault .unterminated
  | _ => .more

def bulk (length : Int) : Scanner Fault Value :=
  match length with
  | .negSucc _ => pure .nil
  | .ofNat length => do
    if maxBulk < length then .fail (.oversized length)
    return .bulk (← bulkBody length)

mutual

/-- One reply. The fuel bounds depth and count together; every reply takes at least three bytes,
so as much fuel as there are bytes is never short. -/
def value : Nat → Scanner Fault Value
  | 0 => fun _ => .more
  | fuel + 1 => do
    let kind ← Scanner.byte
    let text ← textLine
    match Char.ofNat kind.toNat with
    | '+' => return .status (Text.Utf8.lossy text)
    | '-' => return .failure (Text.Utf8.lossy text)
    | ':' => return .integer (← numberOf text)
    | '$' => bulk (← numberOf text)
    | '*' =>
      match ← numberOf text with
      | .negSucc _ => return .nil
      | .ofNat count => return .array (← values fuel count)
    | _ => .fail (.unknownKind kind)

def values : Nat → Nat → Scanner Fault (List Value)
  | _, 0 => pure []
  | 0, _ + 1 => fun _ => .more
  | fuel + 1, count + 1 => do
    let item ← value fuel
    let items ← values fuel count
    return item :: items

end

def decode (buffer : Bytes) : Scan Fault Value := value (buffer.length + 1) buffer

structure Decoded where
  values : List Value
  rest : Bytes
  fault : Option Fault
  deriving Repr

/-- Reads replies while there are any; each takes bytes, so as many rounds as there are bytes are
enough. -/
def drain : Nat → Bytes → Decoded
  | 0, buffer => ⟨[], buffer, none⟩
  | rounds + 1, buffer =>
    match decode buffer with
    | .more => ⟨[], buffer, none⟩
    | .fault e => ⟨[], buffer, some e⟩
    | .value v rest =>
      let later := drain rounds rest
      { later with values := v :: later.values }

def read (buffer chunk : Bytes) : Decoded :=
  drain ((buffer ++ chunk).length) (buffer ++ chunk)

/-- What each chunk brings behind the buffered bytes, up to the first that brings a fault. -/
def readAll (buffer : Bytes) : List Bytes → List Decoded
  | [] => []
  | chunk :: chunks =>
    let decoded := read buffer chunk
    decoded :: if decoded.fault.isSome then [] else readAll decoded.rest chunks

end Depot.Resp
