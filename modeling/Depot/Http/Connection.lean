import Depot.Http.Block
import Depot.Http.Decoder
import Depot.Http.Encoder
import Depot.Http.Intake

/-! # Connections

A connection serves one request after another. It moves only on events: bytes that arrive, the end
of what the client sends, and time that passes. Each request is answered once it has arrived
whole, and the reply is written before the next head is looked at.

A client that sends what is no request gets a bare 400; one whose request is refused gets
nothing. Both end the connection. Where a connection may not stay idle, the clock starts anew with
every message that is complete, and not with every byte. Bytes that arrive at the very moment at
which the time is up still count. -/

namespace Depot.Http

inductive ConnectionFault where
  | parse (cause : ParseFault)
  | send (cause : SendFault)
  | refused (cause : Refusal)
  deriving Repr, DecidableEq

def ConnectionFault.message : ConnectionFault → String
  | .parse cause => "bad request: " ++ cause.message
  | .send cause => "cannot send response: " ++ cause.message
  | .refused cause => "request rejected: " ++ cause.message

/-- What a connection works for: requests are answered and events reported in a state that other
connections may share. -/
structure Responder (δ : Type) where
  respond : Request → StateM δ Reply
  report : Event → StateM δ Unit

/-- What a connection does that others see. -/
inductive Act where
  | wrote (bytes : Bytes)
  | called (request : Request)

def Act.bytes : Act → Bytes
  | .wrote bytes => bytes
  | .called _ => []

structure Connection where
  client : Address
  bounds : Bounds
  /-- The longest time, in milliseconds, between two messages. -/
  idle : Option Nat
  /-- Milliseconds since the connection was opened, now and at the last message. -/
  now : Nat := 0
  since : Nat := 0
  /-- Bytes that arrived and belong to no message yet, and the block they lie in. -/
  buffer : Bytes := []
  block : Block := {}
  decoder : Decoder := {}
  encoder : Encoder := {}
  intake : Option Intake := none
  /-- What was written and which requests were handed on so far, the latest first. -/
  acts : List Act := []
  outcome : Option (Except ConnectionFault Unit) := none

namespace Connection

variable {δ : Type}

/-- The sign for clients that wait for one before they send a body. -/
def interim : Bytes := Text.Utf8.encode "HTTP/1.1 100 Continue\r\n\r\n"

def isOpen (c : Connection) : Bool := c.outcome.isNone

def close (c : Connection) : Connection := { c with outcome := some (.ok ()) }

def fail (c : Connection) (e : ConnectionFault) : Connection :=
  { c with outcome := some (.error e) }

def write (c : Connection) (bytes : Bytes) : Connection :=
  { c with acts := .wrote bytes :: c.acts }

def call (c : Connection) (request : Request) : Connection :=
  { c with acts := .called request :: c.acts }

/-- What was done so far, in order. -/
def done (c : Connection) : List Act := c.acts.reverse

def sent (c : Connection) : Bytes := c.done.flatMap Act.bytes

def reportAll (d : Responder δ) : List Event → StateM δ Unit
  | [] => pure ()
  | event :: events => do
    d.report event
    reportAll d events

/-- Writes a reply whole. If it cannot be written, nothing of it is. -/
def reply (d : Responder δ) (r : Reply) (c : Connection) : StateM δ Connection := do
  let written := c.encoder.encodeAll r.messages
  reportAll d (r.log ++ written.log)
  match written.fault with
  | none => return { c with encoder := written.encoder }.write written.out
  | some cause => return { c with encoder := written.encoder }.fail (.send cause)

def refuse (d : Responder δ) (cause : ParseFault) (c : Connection) : StateM δ Connection := do
  let c ← reply d (.bare .badRequest) c
  return if c.isOpen then c.fail (.parse cause) else c

/-- A stream that breaks. Only between requests is there somebody to answer. -/
def broken (d : Responder δ) (cause : ParseFault) (c : Connection) : StateM δ Connection := do
  match c.intake with
  | some _ => return c.fail (.parse cause)
  | none =>
    d.report (.warn "can't receive next request"
      [("client_ip", c.client.render), ("cause", cause.message)])
    refuse d cause c

/-- Ends the body of the request that is being read: one that is complete is answered. -/
def complete (d : Responder δ) (x : Intake) (c : Connection) : StateM δ Connection := do
  match x.close with
  | .error reason => return c.fail (.refused reason)
  | .ok request =>
    let answer ← d.respond request
    reply d answer ({ c with intake := none }.call request)

def start (head : Head) (c : Connection) : Connection :=
  match Intake.ofHead head c.client c.bounds with
  | .error reason => c.fail (.refused reason)
  | .ok x =>
    let c := { c with intake := some x }
    if 0 < x.announced && head.awaitsSign then c.write interim else c

def handle (d : Responder δ) (m : Message Head) (c : Connection) : StateM δ Connection := do
  match c.intake, m with
  | none, .head head _ => return c.start head
  | none, _ =>
    d.report (.warn "receive body while expecting a request head" [("client_ip", c.client.render)])
    refuse d (.unexpected "body chunk before any request head") c
  | some _, .head .. => return c.fail (.parse (.unexpected "request head while reading a body"))
  | some x, .chunk bytes =>
    match x.take bytes with
    | (.refused reason, _) => return c.fail (.refused reason)
    | (_, x) => return { c with intake := some x }
  | some x, .eof => complete d x c

/-- The block once a message was taken off it. A head is kept until its body ends. -/
def blockAfter (m : Message Head) (count : Nat) (b : Block) : Block :=
  match m with
  | .head .. => (b.take count).keep true
  | .chunk _ => b.take count
  | .eof => (b.take count).keep false

def pump (d : Responder δ) : Nat → Connection → StateM δ Connection
  | 0, c => pure c
  | rounds + 1, c =>
    if c.isOpen then
      match c.decoder.step c.buffer with
      | .more => pure c
      | .fault cause rest => broken d cause { c with buffer := rest }
      | .message m decoder rest => do
        let block := blockAfter m (c.buffer.length - rest.length) c.block
        let c ← handle d m { c with decoder, buffer := rest, block, since := c.now }
        pump d rounds c
    else pure c

/-- Takes all messages that the buffer holds. Each takes a byte or ends a body, and every body has
a head, so twice as many rounds as there are bytes, and two more, are enough. -/
def settle (d : Responder δ) (c : Connection) : StateM δ Connection :=
  pump d (2 * c.buffer.length + 2) c

def receiveIn (d : Responder δ) : Nat → Bytes → Connection → StateM δ Connection
  | 0, _, c => pure c
  | portions + 1, bytes, c =>
    if bytes = [] ∨ !c.isOpen then pure c
    else do
      let waiting := c.buffer.length
      let block := c.block.forMore waiting
      let room := block.room waiting
      let c ← settle d { c with block, buffer := c.buffer ++ bytes.take room }
      receiveIn d portions (bytes.drop room) c

/-- Bytes that arrive. There is always room for one, so there are no more portions than bytes. -/
def receive (d : Responder δ) (bytes : Bytes) (c : Connection) : StateM δ Connection :=
  receiveIn d bytes.length bytes c

/-- Time that passes, in milliseconds. A connection idle for too long is closed, a body that was
being read counts as ended. At the very moment at which the time is up nothing happens yet: bytes
may arrive before more time passes. -/
def pass (d : Responder δ) (millis : Nat) (c : Connection) : StateM δ Connection := do
  let c := { c with now := c.now + millis }
  match c.idle with
  | none => return c
  | some idle =>
    if c.isOpen && c.since + idle < c.now then
      d.report (.info "connection idle timeout"
        [("client_ip", c.client.render), ("timeout_secs", toString (idle / 1000))])
      match c.intake with
      | none => return c.close
      | some x => complete d x c
    else return c

def finish (d : Responder δ) (c : Connection) : StateM δ Connection := do
  let c ← settle d c
  if !c.isOpen then return c
  else if c.buffer ≠ [] then broken d (.read .bytesRemaining) c
  else
    match c.intake with
    | none => return c.close
    | some x =>
      let c ← complete d x c
      return if c.isOpen then c.close else c

inductive Signal where
  | bytes (b : Bytes)
  | time (millis : Nat)
  | ended
  deriving Repr, DecidableEq

def step (d : Responder δ) (s : Signal) (c : Connection) : StateM δ Connection :=
  match s with
  | .bytes b => receive d b c
  | .time millis => pass d millis c
  | .ended => finish d c

def run (d : Responder δ) : List Signal → Connection → StateM δ Connection
  | [], c => pure c
  | s :: signals, c => do
    let c ← step d s c
    run d signals c

end Connection

end Depot.Http
