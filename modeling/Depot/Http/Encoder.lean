import Depot.Fault
import Depot.Http.Reply
import Depot.Text.Ascii

/-! # Writing responses

A head announces the length of its body in exactly one `content-length`. The body has to be as
long as announced before the next head is taken: more is refused where it would pass the length,
less where the body is ended. -/

namespace Depot.Http

inductive BodyFault where
  | tooLong
  /-- The body ended this many bytes early. -/
  | short (missing : Nat)
  deriving Repr, DecidableEq

inductive SendFault where
  | body (cause : BodyFault)
  | write (cause : Fault)
  deriving Repr, DecidableEq

def BodyFault.text : BodyFault → String
  | .tooLong => "response body longer than content-length"
  | .short missing => "response body short by " ++ toString missing ++ " bytes"

def SendFault.message : SendFault → String
  | .body cause => "response body does not match its length: " ++ cause.text
  | .write cause => "write failed: " ++ cause.message

/-- The status line. A status without a phrase keeps the blank before it. -/
def statusLine (status : Status) : Bytes :=
  Text.Utf8.encode ("HTTP/1.1 " ++ toString status.code ++ " " ++ status.phrase) ++ Text.Ascii.crlf

def ReplyHead.render (h : ReplyHead) (length : Nat) : Bytes :=
  statusLine h.status ++
    (h.fields.insert "content-length" (Text.Decimal.encode length)).render ++ Text.Ascii.crlf

structure Encoder where
  /-- The body bytes still owed; none while a head is due. -/
  owed : Option Nat := none
  deriving Repr, DecidableEq

namespace Encoder

structure Encoded where
  encoder : Encoder
  out : Bytes := []
  fault : Option SendFault := none
  log : List Event := []

/-- A head. Once it is due, its body is owed from then on, even if the head itself is of a version
that is not written. -/
def encodeHead (e : Encoder) (h : ReplyHead) (length : Nat) : Encoded :=
  match e.owed with
  | some _ =>
    { encoder := e
      fault := some (.write .invalidInput)
      log := [.error "expect payload item but receive response head" []] }
  | none =>
    match h.version with
    | .http11 => { encoder := ⟨some length⟩, out := h.render length }
    | version =>
      { encoder := ⟨some length⟩
        fault := some (.write .unsupported)
        log := [.error "unsupported http version" [("http_version", version.label)]] }

def misplaced (e : Encoder) : Encoded :=
  { encoder := e
    fault := some (.write .invalidInput)
    log := [.error "expect response header but receive payload item" []] }

/-- Some bytes of the body, written whole or not at all. -/
def encodeChunk (e : Encoder) (chunk : Bytes) : Encoded :=
  match e.owed with
  | none => e.misplaced
  | some owed =>
    if owed < chunk.length then
      { encoder := e
        fault := some (.body .tooLong)
        log := [.warn "response body longer than content-length"
          [("remaining", toString owed), ("chunk", toString chunk.length)]] }
    else { encoder := ⟨some (owed - chunk.length)⟩, out := chunk }

/-- The end of the body. A head is due again even if bytes were missing. -/
def encodeEof (e : Encoder) : Encoded :=
  match e.owed with
  | none => e.misplaced
  | some 0 => { encoder := ⟨none⟩ }
  | some missing => { encoder := ⟨none⟩, fault := some (.body (.short missing)) }

def encode (e : Encoder) : Message ReplyHead → Encoded
  | .head h length => e.encodeHead h length
  | .chunk bytes => e.encodeChunk bytes
  | .eof => e.encodeEof

def encodeAll (e : Encoder) : List (Message ReplyHead) → Encoded
  | [] => { encoder := e }
  | m :: messages =>
    let first := e.encode m
    match first.fault with
    | some _ => first
    | none =>
      let later := first.encoder.encodeAll messages
      { later with out := first.out ++ later.out, log := first.log ++ later.log }

end Encoder

end Depot.Http
