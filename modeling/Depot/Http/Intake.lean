import Depot.Http.Head
import Depot.Http.Request

/-! # Requests on their way in

A request is checked in three phases. Its head alone decides on the method, the length of the path
and the announced length of the body. Each chunk of the body has to keep within that length. At
the end the body has to be as long as announced. A request refused in any phase gets no reply. -/

namespace Depot.Http

structure Bounds where
  /-- The shortest and longest path, in bytes. -/
  minPath : Nat := 1
  maxPath : Nat := 2048
  maxBody : Nat := 10 * 1024 * 1024
  deriving Repr, DecidableEq

inductive Refusal where
  | method (name : String)
  | pathLength (length min max : Nat)
  | bodyOverLimit (announced max : Nat)
  | bodyOverrun (arrived announced : Nat)
  | bodyCutShort (arrived announced : Nat)
  deriving Repr, DecidableEq

def Refusal.message : Refusal → String
  | .method name => "unsupported method " ++ name
  | .pathLength length min max =>
    "url length " ++ toString length ++ " outside of [" ++ toString min ++ ", " ++ toString max ++
      "]"
  | .bodyOverLimit announced max =>
    "declared content-length " ++ toString announced ++ " exceeds the limit " ++ toString max
  | .bodyOverrun arrived announced =>
    "body overflow, " ++ toString arrived ++ " bytes received while " ++ toString announced ++
      " declared"
  | .bodyCutShort arrived announced =>
    "body truncated, " ++ toString arrived ++ " bytes received while " ++ toString announced ++
      " declared"

structure Intake where
  request : Request
  /-- The chunks of the body that were taken, the latest first. -/
  parts : List Bytes := []
  arrived : Nat := 0
  deriving Repr, DecidableEq

inductive Taken where
  | partly
  | whole
  | refused (reason : Refusal)
  deriving Repr, DecidableEq

namespace Intake

def announced (x : Intake) : Nat := x.request.contentLength

def body (x : Intake) : Bytes := x.parts.reverse.flatten

def ofHead (head : Head) (client : Address) (bounds : Bounds) : Except Refusal Intake :=
  match Method.ofName? head.method with
  | none => .error (.method head.method)
  | some method =>
    let length := head.path.utf8ByteSize
    let announced := head.fields.contentLength?.getD 0
    if length < bounds.minPath ∨ bounds.maxPath < length then
      .error (.pathLength length bounds.minPath bounds.maxPath)
    else if bounds.maxBody < announced then .error (.bodyOverLimit announced bounds.maxBody)
    else
      .ok {
        request := {
          client
          method
          path := head.path
          accept := head.fields.text? "accept"
          authorization := head.fields.text? "authorization"
          contentLength := announced } }

/-- Takes a chunk of the body whole, or refuses it and stays as it was. -/
def take (x : Intake) (chunk : Bytes) : Taken × Intake :=
  let arrived := x.arrived + chunk.length
  if x.announced < arrived then (.refused (.bodyOverrun arrived x.announced), x)
  else
    (if arrived = x.announced then .whole else .partly,
      { x with parts := chunk :: x.parts, arrived })

def close (x : Intake) : Except Refusal Request :=
  if x.arrived = x.announced then .ok { x.request with body := x.body }
  else .error (.bodyCutShort x.arrived x.announced)

end Intake

end Depot.Http
