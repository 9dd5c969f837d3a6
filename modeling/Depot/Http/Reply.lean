import Depot.Log
import Depot.Http.Fields
import Depot.Http.Message
import Depot.Http.Status

/-! # Replies

A reply is a status, a body and the three fields that the service sets by itself. What is sent is
its head, its body if there is one, and the end marker. -/

namespace Depot.Http

structure ReplyHead where
  status : Status := .ok
  version : Version := .http11
  fields : Fields := []
  deriving DecidableEq

structure Reply where
  status : Status
  contentType : Option String := none
  allow : Option String := none
  /-- Whether pages of any origin may read the reply. -/
  cors : Bool := false
  body : Bytes := []
  deriving DecidableEq

namespace Reply

def bare (status : Status) : Reply := { status }

/-- The bytes of a text as a field value, if no control character is among them. -/
def valueOf? (text : String) : Option Bytes :=
  let bytes := Text.Utf8.encode text
  if bytes.all isValueByte then some bytes else none

def optionalField (name : String) (text : Option String) : Fields :=
  match text.bind valueOf? with
  | some value => [⟨name, [value]⟩]
  | none => []

/-- The fields a reply asks for; texts that make no value are left out. -/
def fields (r : Reply) : Fields :=
  optionalField "content-type" r.contentType ++ optionalField "allow" r.allow ++
    if r.cors then [⟨"access-control-allow-origin", [Text.Utf8.encode "*"]⟩] else []

def dropped (sentence name : String) (text : Option String) : List Event :=
  match text with
  | none => []
  | some text =>
    if (valueOf? text).isSome then []
    else [.warn sentence [("cause", "failed to parse header value"), (name, text)]]

def log (r : Reply) : List Event :=
  dropped "drop invalid content-type" "content_type" r.contentType ++
    dropped "drop invalid allow header" "allow" r.allow

def head (r : Reply) : ReplyHead := { status := r.status, fields := r.fields }

def messages (r : Reply) : List (Message ReplyHead) :=
  .head r.head r.body.length :: (if r.body = [] then [] else [.chunk r.body]) ++ [.eof]

end Reply

end Depot.Http
