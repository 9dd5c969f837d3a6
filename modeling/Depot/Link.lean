import Depot.Store.Basic

/-! # The link to the store

One link carries the commands of all requests, each followed by the wait for its reply. Replies
are read off the stream in order, so one that comes early answers the next command.

A link that breaks is dropped at once, and with a watchdog the service goes down with it. Bytes
that are no reply break nothing by themselves: the command is answered with the fault, but the
stream counts as ended from then on, so that nothing behind the fault is taken for a reply. -/

namespace Depot

inductive Delivery where
  | bytes (b : Bytes)
  | hangUp
  deriving Repr, DecidableEq

/-- The other end of a link: what it does about the bytes of a command. -/
class Peer (π : Type) where
  hear : Bytes → π → List Delivery × π

structure Wire (π : Type) where
  peer : π
  buffer : Bytes := []
  /-- What the peer did and has not been read. -/
  underway : List Delivery := []
  /-- Whether the peer hung up so long ago that writing fails. -/
  cut : Bool := false
  /-- Whether bytes that are no reply ended the stream. -/
  ended : Bool := false

namespace Wire

variable {π : Type}

structure Waited where
  answer : Answer
  buffer : Bytes
  underway : List Delivery

/-- Reads on until the buffer starts with a reply or the stream ends. A peer that has nothing
underway and is not spoken to stays silent. Waiting for it has no end: that is a result of its own,
and what a run goes on to after it happens in no service. -/
def await (buffer : Bytes) (underway : List Delivery) : Waited :=
  match Resp.decode buffer with
  | .value v rest => ⟨.ok v, rest, underway⟩
  | .fault e => ⟨.error (.garbled e), buffer, underway⟩
  | .more =>
    match underway with
    | .bytes b :: later => await (buffer ++ b) later
    | .hangUp :: _ =>
      ⟨.error (.broken (if buffer = [] then .endOfStream else .bytesRemaining)), buffer,
        underway⟩
    | [] => ⟨.error (.broken .silence), buffer, []⟩
termination_by structural underway

/-- Whether the peer gets what is written: it does not once it is about to hang up. -/
def listens (s : Wire π) : Bool := !s.underway.contains .hangUp

def receive (s : Wire π) : Answer × Wire π :=
  if s.ended then (.error (.broken .endOfStream), s)
  else
    let waited := await s.buffer s.underway
    let ended := match waited.answer with
      | .error (.garbled _) => true
      | _ => false
    (waited.answer, { s with buffer := waited.buffer, underway := waited.underway, ended })

def write [Peer π] (bytes : Bytes) (s : Wire π) : Wire π :=
  if s.listens then
    let (deliveries, peer) := Peer.hear bytes s.peer
    { s with peer, underway := s.underway ++ deliveries }
  else s

def ask [Peer π] (c : Resp.Command) (s : Wire π) : Answer × Wire π :=
  if s.cut then (.error (.broken .brokenPipe), s) else (s.write c.encode).receive

def rest (s : Wire π) : Wire π := { s with cut := s.cut || !s.listens }

end Wire

structure Link (π : Type) where
  wire : Option (Wire π) := none
  up : Bool := false
  held : Bool := false
  /-- Whether the service goes down with the link. -/
  watchdog : Bool := false
  /-- What the peers of this link heard, oldest first. -/
  heard : List Bytes := []

inductive ConnectFault where
  | alreadyUp
  | busy
  | broken (cause : Fault)
  | store (text : String)
  deriving Repr, DecidableEq

def ConnectFault.message : ConnectFault → String
  | .alreadyUp => "store already connected"
  | .busy => "store connection is locked by another caller"
  | .broken cause => "store connect error: " ++ cause.message
  | .store text => "store refused the session: " ++ text

namespace Link

variable {π : Type}

def ping : Resp.Command := ⟨"PING", []⟩

def barrier (l : Link π) : Option ConnectFault :=
  if l.up then some .alreadyUp
  else if l.held then some .busy
  else if l.wire.isSome then some .alreadyUp
  else none

def verdict : Answer → Except ConnectFault Unit
  | .ok (.failure text) => .error (.store text)
  | .ok _ => .ok ()
  | .error (.broken cause) => .error (.broken cause)
  | .error e => .error (.store e.message)

def heardOf (c : Resp.Command) (s : Wire π) : List Bytes :=
  if !s.cut && s.listens then [c.encode] else []

/-- Tries a stream out and keeps it if it answers. -/
def tryOut [Peer π] (peer : π) (l : Link π) : Except ConnectFault Unit × Link π :=
  let fresh : Wire π := { peer }
  let (answer, wire) := fresh.ask ping
  let l := { l with heard := l.heard ++ heardOf ping fresh }
  match verdict answer with
  | .ok _ => (.ok (), { l with wire := some wire, up := true })
  | .error e => (.error e, l)

def establish [Peer π] (stream : Except Fault π) (l : Link π) :
    Except ConnectFault Unit × Link π :=
  match l.barrier with
  | some e => (.error e, l)
  | none =>
    match stream with
    | .error cause => (.error (.broken cause), l)
    | .ok peer => l.tryOut peer

def close (l : Link π) : Link π := { l with wire := none, up := false }

def closeLog (l : Link π) : List Event :=
  if l.wire.isSome then [.info "store disconnected" []] else []

/-- Holds the link, which has to be open, for several commands. -/
def hold (l : Link π) : Except NoAnswer (Link π) :=
  if l.wire.isSome then .ok { l with held := true } else .error .noLink

def release (l : Link π) : Link π := { l with held := false }

def rest (l : Link π) : Link π := { l with wire := l.wire.map Wire.rest }

def lossLog (l : Link π) (e : NoAnswer) : List Event :=
  if l.up then [.error "store connection lost" [("cause", e.message)]] else []

def lose (e : NoAnswer) : StateM (Service (Link π)) Unit := do
  modify fun s => { s.logging (s.store.lossLog e) with
    store := { s.store with wire := none, up := false } }
  if (← get).store.watchdog then Service.raise .linkLost

def carryOut [Peer π] (c : Resp.Command) : StateM (Service (Link π)) Answer := do
  let s ← get
  match s.store.wire with
  | none => return .error .noLink
  | some wire =>
    let (answer, next) := wire.ask c
    modify fun s => { s with
      store := { s.store with
        wire := some next
        heard := s.store.heard ++ heardOf c wire } }
    if let .error e := answer then
      if e.isLinkFailure then lose e
    return answer

instance [Peer π] : Store (Link π) where
  carryOut := carryOut

def carryOutAll [Peer π] : List Resp.Command → StateM (Service (Link π)) (List Answer)
  | [] => pure []
  | c :: commands => do
    let answer ← carryOut c
    let answers ← carryOutAll commands
    return answer :: answers

end Link

end Depot
