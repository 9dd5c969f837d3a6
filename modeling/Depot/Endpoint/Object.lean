import Depot.Endpoint.Basic
import Depot.Options
import Depot.Digest
import Depot.Z85

/-! # Objects

Clients post Z85 text under a token and get it back. Every request is checked before the store is
asked; a request that fails a check costs no command. What the store answers decides the status,
its error texts only reach the log. -/

namespace Depot.Endpoint.Object

open Resp (Command Value)

/-- The shortest body worth storing: one group of digits. -/
def minBody : Nat := 5

def fetchCommand (t : Token) : Command := ⟨"GET", [t.key]⟩

def burnCommand (t : Token) : Command := ⟨"DEL", [t.key]⟩

def putCommand (o : Options) (t : Token) (value : Bytes) : Command :=
  ⟨"SET",
    [t.key, value] ++
      (if 0 < o.lifetime then
        [Text.Utf8.encode "EX", Text.Decimal.encode o.lifetime] else []) ++
      (if o.writeOnce then [Text.Utf8.encode "NX"] else [])⟩

/-- The log line of a request: client, status, method, token. -/
def logLine (r : Http.Request) (remainder code : String) : String :=
  r.client.render ++ " " ++ code ++ " " ++ r.method.name ++ " " ++ remainder

def cause (d : Digest) (text : String) : List (String × String) :=
  [("algorithm", d.name), ("cause", text)]

def malformed (r : Http.Request) (remainder text : String) : Dialogue Outcome := do
  .report (.info (logLine r remainder "400") [])
  return .plain .badRequest text

/-- Deletes an object that has been read. The reader has it already, so a failure only leaves the
object where it is. -/
def burn (d : Digest) (t : Token) : Dialogue Unit := do
  match ← Dialogue.send (burnCommand t) with
  | .ok _ => return
  | .error e => .report (.warn "store DEL after read failed" (cause d e.message))

def get (d : Digest) (o : Options) (remainder : String) (r : Http.Request) : Dialogue Outcome :=
  match Token.parse d remainder with
  | .error _ => malformed r remainder "malformed request"
  | .ok t => do
    match ← Dialogue.send (fetchCommand t) with
    | .ok (.bulk value) =>
      if o.readOnce then
        burn d t
        .report (.info (logLine r remainder "200" ++ " BURNT") [])
      else .report (.info (logLine r remainder "200") [])
      return .plain .ok (Text.Utf8.lossy value)
    | .ok other =>
      if let .failure text := other then .report (.warn "store refused GET" (cause d text))
      .report (.info (logLine r remainder "404") [])
      return .plain .notFound "not found"
    | .error e =>
      .report (.error (logLine r remainder "503") (cause d e.message))
      return .plain .serviceUnavailable "service unavailable"

/-- What is wrong with an object that is posted, by the first check it fails. -/
def postFault? (d : Digest) (remainder : String) (body : Bytes) : Option String :=
  if remainder.utf8ByteSize ≠ d.tokenLength then some "malformed request - invalid url"
  else if body.length < minBody then some "malformed request - invalid length"
  else if !Z85.isText body then some "malformed request - invalid Z85"
  else none

/-- Stores an object and answers as the store does. -/
def store (d : Digest) (o : Options) (remainder : String) (r : Http.Request) (t : Token) :
    Dialogue Outcome := do
  match ← Dialogue.send (putCommand o t r.body) with
  | .ok .nil =>
    .report (.info (logLine r remainder "304" ++ " NOTMOD") [])
    return .plain .notModified "object immutable - not modified"
  | .ok (.failure text) =>
    .report (.error (logLine r remainder "417") (cause d text))
    return .plain .expectationFailed "redis reply error"
  | .ok value =>
    if value.isOk then
      .report (.info (logLine r remainder "200") [])
      return .plain .ok "ok"
    else
      .report (.error (logLine r remainder "500") [("algorithm", d.name), ("reply", value.kind)])
      return .plain .internalServerError "internal server error"
  | .error e =>
    if e.isLinkFailure then
      .report (.error (logLine r remainder "503") (cause d e.message))
      return .plain .serviceUnavailable "service unavailable"
    else
      .report (.error (logLine r remainder "500") (cause d e.message))
      return .plain .internalServerError "internal server error"

def post (d : Digest) (o : Options) (remainder : String) (r : Http.Request) : Dialogue Outcome :=
  match postFault? d remainder r.body with
  | some text => malformed r remainder text
  | none =>
    match Token.parse d remainder with
    | .error _ => malformed r remainder "malformed request - invalid token"
    | .ok t => store d o remainder r t

def endpoint (d : Digest) (o : Options) : Endpoint := fun flag remainder r =>
  if flag.isRaised then return .goingDown
  else
    match r.method with
    | .get => get d o remainder r
    | .post => post d o remainder r
    | _ => refuseMethod r "GET, POST"

end Depot.Endpoint.Object
