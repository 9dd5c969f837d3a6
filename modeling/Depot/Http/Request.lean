import Depot.Address
import Depot.Http.Method
import Depot.Text.Ascii
import Depot.Http.Reply

/-! # Requests and drafts of replies

A request is what an endpoint may look at. What an endpoint settles besides the body of its answer
is a draft; with a body it becomes a reply. -/

namespace Depot.Http

structure Request where
  client : Address
  method : Method
  path : String
  accept : Option String := none
  authorization : Option String := none
  /-- The announced length of the body, zero without an announcement. -/
  contentLength : Nat := 0
  body : Bytes := []
  deriving Repr, DecidableEq

namespace Request

/-- Whether the client asked for exactly this media type, letter case aside. -/
def accepts (r : Request) (mediaType : String) : Bool :=
  r.accept.any fun accept =>
    Text.Ascii.sameIgnoringCase (Text.Utf8.encode accept) (Text.Utf8.encode mediaType)

def acceptsText (r : Request) : Bool := r.accepts "text/plain"
def acceptsJson (r : Request) : Bool := r.accepts "application/json"
def acceptsXml (r : Request) : Bool := r.accepts "application/xml"

end Request

structure Draft where
  status : Option Status := none
  contentType : Option String := none
  allow : Option String := none
  cors : Bool := false
  deriving DecidableEq

/-- The reply with the given body; the status is 200 unless another is settled. -/
def Draft.reply (d : Draft) (body : Bytes) : Reply :=
  { status := d.status.getD .ok
    contentType := d.contentType
    allow := d.allow
    cors := d.cors
    body }

end Depot.Http
