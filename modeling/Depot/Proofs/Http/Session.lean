import Depot.Http.Connection
import Depot.Proofs.Http.HeadReading

/-! # What a connection makes of a stream

`serve` takes all that a client sends before it closes as one stream and deals with one request
after another. It says nothing of buffers, of blocks or of when bytes arrive, and is what a
connection is held against. -/

namespace Depot.Http

variable {δ : Type}

/-- A reply as it is sent. -/
def Reply.render (r : Reply) : Bytes := r.head.render r.body.length ++ r.body

/-- The request of a head, sent by a client with a body. -/
def Head.request (head : Head) (method : Method) (client : Address) (length : Nat) (body : Bytes) :
    Request :=
  { client
    method
    path := head.path
    accept := head.fields.text? "accept"
    authorization := head.fields.text? "authorization"
    contentLength := length
    body }

/-- The method a head asks for, unless the head alone is refused. -/
def Head.admitted (head : Head) (length : Nat) (bounds : Bounds) : Except Refusal Method :=
  match Method.ofName? head.method with
  | none => .error (.method head.method)
  | some method =>
    let size := head.path.utf8ByteSize
    if size < bounds.minPath ∨ bounds.maxPath < size then
      .error (.pathLength size bounds.minPath bounds.maxPath)
    else if bounds.maxBody < length then .error (.bodyOverLimit length bounds.maxBody)
    else .ok method

/-- How a connection ends. -/
inductive Ending where
  /-- The client closed it between two requests. -/
  | closed
  /-- What came was no request. -/
  | unreadable
  | refused (reason : Refusal)
  deriving Repr, DecidableEq

/-- The request that is handed on, if the act is that. -/
def Act.request? : Act → Option Request
  | .wrote _ => none
  | .called request => some request

/-- What a connection comes to. -/
structure Session where
  /-- What is written and which requests are handed on, in order. -/
  acts : List Act := []
  ending : Ending

namespace Session

/-- All bytes written, in order. -/
def sent (s : Session) : Bytes := s.acts.flatMap Act.bytes

/-- The requests that were answered, in order. -/
def calls (s : Session) : List Request := s.acts.filterMap Act.request?

/-- A session that goes on as another after these acts. -/
def behind (s : Session) (acts : List Act) : Session := { s with acts := acts ++ s.acts }

end Session

/-- The bare 400 to what is no request. -/
def Act.badRequest : Act := .wrote (Reply.bare .badRequest).render

/-- The sign to go on, where a body is to come whose sender waits for it. -/
def Head.sign (head : Head) (length : Nat) : List Act :=
  if 0 < length && head.awaitsSign then [.wrote Connection.interim] else []

/-- Deals with a stream. The sign to go on is written where a body is to come whose sender waits
for it; a request is answered if its whole body follows, and only then. -/
def serve (d : Responder δ) (client : Address) (bounds : Bounds) (stream : Bytes) :
    StateM δ Session :=
  if stream = [] then pure { ending := .closed }
  else
    match _hread : Head.read stream with
    | .more => pure { acts := [.badRequest], ending := .unreadable }
    | .fault .. => pure { acts := [.badRequest], ending := .unreadable }
    | .head head length rest =>
      match head.admitted length bounds with
      | .error reason => pure { ending := .refused reason }
      | .ok method =>
        if rest.length < length then
          pure { acts := head.sign length, ending := .refused (.bodyCutShort rest.length length) }
        else do
          let request := head.request method client length (rest.take length)
          let reply ← d.respond request
          Connection.reportAll d reply.log
          let later ← serve d client bounds (rest.drop length)
          return later.behind (head.sign length ++ [.called request, .wrote reply.render])
termination_by stream.length
decreasing_by
  have hlt := (Head.rest_of_read_head _hread).2
  rw [List.length_drop]
  omega

/-- The same responder, which keeps a list of the requests it has answered. -/
def Responder.recording (d : Responder δ) : Responder (δ × List Request) where
  respond request := fun (s, calls) =>
    let (reply, s) := d.respond request s
    (reply, s, calls ++ [request])
  report event := fun (s, calls) => ((), (d.report event s).2, calls)

variable (d : Responder δ) (client : Address) (bounds : Bounds)

theorem serve_nil : serve d client bounds [] = pure { ending := .closed } := by
  rw [serve, if_pos rfl]

/-- What is no head is answered by a bare 400. -/
theorem serve_unreadable {stream : Bytes} (hne : stream ≠ [])
    (h : ∀ head length rest, Head.read stream ≠ .head head length rest) :
    serve d client bounds stream =
      pure { acts := [.badRequest], ending := .unreadable } := by
  rw [serve, if_neg hne]
  split
  · rfl
  · rfl
  · next hread => exact absurd hread (h _ _ _)

/-- Goes on with a stream inside the body of a request, of which some bytes have arrived. -/
def serveBody (request : Request) (arrived rest : Bytes) : StateM δ Session :=
  let due := request.contentLength - arrived.length
  let size := arrived.length + rest.length
  if rest.length < due then
    pure { ending := .refused (.bodyCutShort size request.contentLength) }
  else do
    let request := { request with body := arrived ++ rest.take due }
    let reply ← d.respond request
    Connection.reportAll d reply.log
    let later ← serve d client bounds (rest.drop due)
    return later.behind [.called request, .wrote reply.render]

/-- Behind a head that is admitted nothing of the body has arrived. -/
theorem serve_head {stream rest : Bytes} {head : Head} {length : Nat}
    (h : Head.read stream = .head head length rest) :
    serve d client bounds stream =
      match head.admitted length bounds with
      | .error reason => pure { ending := .refused reason }
      | .ok method => do
        let later ← serveBody d client bounds (head.request method client length []) [] rest
        return later.behind (head.sign length) := by
  have hne : stream ≠ [] := by
    rintro rfl
    exact absurd (Head.rest_of_read_head h).2 (Nat.not_lt_zero _)
  rw [serve, if_neg hne]
  split
  · next hread => rw [hread] at h; cases h
  · next hread => rw [hread] at h; cases h
  · next hread =>
    rw [hread] at h
    cases h
    cases head.admitted length bounds with
    | error reason => rfl
    | ok method =>
      simp only [serveBody, Head.request, List.length_nil, Nat.sub_zero, Nat.zero_add]
      split
      · simp [Session.behind]
      · simp [Session.behind, List.append_assoc]

end Depot.Http
