import Depot.Http.Head

/-! # Reading requests

A stream of requests is read as heads, each followed by the chunks of its body and one end
marker. A body takes exactly the announced bytes, so the next head starts right behind it. -/

namespace Depot.Http

structure Decoder where
  /-- The body bytes still due; none while a head is due. -/
  due : Option Nat := none
  deriving Repr, DecidableEq

namespace Decoder

inductive Step where
  | message (m : Message Head) (next : Decoder) (rest : Bytes)
  | more
  | fault (e : ParseFault) (rest : Bytes)

def step (d : Decoder) (buffer : Bytes) : Step :=
  match d.due with
  | some 0 => .message .eof ⟨none⟩ buffer
  | some due =>
    if buffer = [] then .more
    else
      let chunk := buffer.take due
      .message (.chunk chunk) ⟨some (due - chunk.length)⟩ (buffer.drop due)
  | none =>
    match Head.read buffer with
    | .head head length rest => .message (.head head length) ⟨some length⟩ rest
    | .more => .more
    | .fault e rest => .fault e rest

/-- Everything read off a buffer: the messages, where the reader stands then, what is left, and
the fault that stopped it. -/
structure Drained where
  messages : List (Message Head)
  decoder : Decoder
  rest : Bytes
  fault : Option ParseFault

def drain : Nat → Decoder → Bytes → Drained
  | 0, d, buffer => ⟨[], d, buffer, none⟩
  | rounds + 1, d, buffer =>
    match d.step buffer with
    | .more => ⟨[], d, buffer, none⟩
    | .fault e rest => ⟨[], d, rest, some e⟩
    | .message m next rest =>
      let later := drain rounds next rest
      { later with messages := m :: later.messages }

/-- Reads what a buffer holds. Each round takes a byte or ends a body, and every body has a head,
so twice as many rounds as there are bytes, and one for a body that is open, are enough. -/
def read (d : Decoder) (buffer : Bytes) : Drained := drain (2 * buffer.length + 2) d buffer

/-- What each chunk brings behind the buffered bytes, up to the first that brings a fault. -/
def readAll (d : Decoder) (buffer : Bytes) : List Bytes → List Drained
  | [] => []
  | chunk :: chunks =>
    let drained := d.read (buffer ++ chunk)
    drained :: if drained.fault.isSome then [] else drained.decoder.readAll drained.rest chunks

end Decoder

end Depot.Http
