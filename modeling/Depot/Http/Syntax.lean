import Depot.Scanner
import Depot.Text.Ascii
import Depot.Text.Utf8
import Depot.Http.Fields
import Depot.Http.Message
import Depot.Http.Target

/-! # The syntax of request heads

A head is any number of empty lines, a request line, field lines and an empty line. Lines end
with a line feed that a carriage return may precede. Method and field names are tokens, a target
is visible or wider characters, one blank sets the parts of the request line apart, no blank
precedes the colon of a field, and no field goes on in a second line. -/

namespace Depot.Http

open Text.Ascii (cr lf space tab isLetter isDigit)

inductive HeadFault where
  /-- A byte that no method or target holds, or an empty one of them. -/
  | token
  /-- A field name with a byte that is none of a token, or an empty one. -/
  | name
  | value
  /-- A carriage return without its line feed, or something behind the version. -/
  | newLine
  | version
  /-- More field lines than are read. -/
  | tooManyFields
  deriving Repr, DecidableEq

structure RawHead where
  method : Bytes
  target : Bytes
  version : Version
  fields : List (Bytes × Bytes)
  deriving Repr, DecidableEq

namespace Syntax

def tokenMarks : Bytes := Text.Utf8.encode "!#$%&'*+-.^_`|~"

def isTokenByte (b : UInt8) : Bool := isLetter b || isDigit b || tokenMarks.contains b

def isTargetByte (b : UInt8) : Bool := 0x21 ≤ b && b != 0x7F

def isBlank (b : UInt8) : Bool := b == space || b == tab

/-- Takes empty lines. The first byte of what follows them has to be there. -/
def emptyLines : Scanner HeadFault Unit
  | [] => .more
  | b :: rest =>
    if b = lf then emptyLines rest
    else if b = cr then
      match rest with
      | [] => .more
      | c :: rest => if c = lf then emptyLines rest else .fault .newLine
    else .value () (b :: rest)

def lineEnd (e : HeadFault) : Scanner HeadFault Unit := do
  let b ← Scanner.byte
  if b = cr then .expect e lf
  else if b = lf then return ()
  else .fail e

def method : Scanner HeadFault Bytes := do
  let name ← .span isTokenByte
  if name = [] then .fail .token
  .expect .token space
  return name

def target : Scanner HeadFault Bytes := do
  let bytes ← .span isTargetByte
  .expect .token space
  if bytes = [] then .fail .token
  if (Text.Utf8.decode? bytes).isNone then .fail .token
  return bytes

def version : Scanner HeadFault Version := do
  .literal .version (Text.Utf8.encode "HTTP/1.")
  let digit ← Scanner.byte
  if digit = 0x30 then return .http10
  else if digit = 0x31 then return .http11
  else .fail .version

def trimEnd (value : Bytes) : Bytes := (value.reverse.dropWhile isBlank).reverse

def field : Scanner HeadFault (Bytes × Bytes) := do
  let name ← .span isTokenByte
  if name = [] then .fail .name
  .expect .name Target.colon
  let _ ← .span isBlank
  let value ← .span isValueByte
  lineEnd .value
  return (name, trimEnd value)

/-- The empty line where the buffer starts with one, and else what the other scanner reads. The
first byte has to be there. -/
def unlessEmptyLine (others : Scanner HeadFault (List (Bytes × Bytes))) :
    Scanner HeadFault (List (Bytes × Bytes)) := fun buffer =>
  match buffer with
  | [] => .more
  | b :: _ =>
    if b = cr ∨ b = lf then (lineEnd .newLine >>= fun _ => pure []) buffer else others buffer

/-- Field lines up to the empty line, `room` of them at most. One line more is read to its end
before it counts as too many. -/
def fields : Nat → Scanner HeadFault (List (Bytes × Bytes))
  | 0 => unlessEmptyLine (field >>= fun _ => .fail .tooManyFields)
  | room + 1 => unlessEmptyLine do
    let first ← field
    let others ← fields room
    return first :: others

def head (room : Nat) : Scanner HeadFault RawHead := do
  emptyLines
  let method ← method
  let target ← target
  let version ← version
  lineEnd .newLine
  let fields ← fields room
  return { method, target, version, fields }

end Syntax

end Depot.Http
