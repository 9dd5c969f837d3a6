import Mathlib.Logic.Function.Basic
import Depot.Digest
import Depot.Http.Request
import Depot.Options
import Depot.StopFlag
import Depot.Store.Volatile
import Depot.Z85

/-! # A shelf of objects

What the object routes promise their clients, without routes, commands or slots that are dropped
late: a map from tokens to objects with an optional deadline, and a reply to every request. -/

namespace Depot.Objects

open Http (Request)

/-- What a client sees of a reply. -/
structure Seen where
  status : Nat
  body : Bytes
  allow : Option String := none
  deriving Repr, DecidableEq

def Seen.of (r : Http.Reply) : Seen := ⟨r.status.code, r.body, r.allow⟩

/-- A reply with a text and no `allow`. -/
def Seen.text (status : Nat) (text : String) : Seen := ⟨status, Text.Utf8.encode text, none⟩

/-- The objects that are kept, under tokens in lower case, and what else decides on a reply. -/
structure Shelf where
  objects : String → Option Slot := fun _ => none
  /-- Milliseconds. -/
  now : Nat := 0
  offline : Bool := false
  down : Bool := false

/-- The token that a path names behind the route of its digest. -/
def token? (d : Digest) (suffix : String) : Option String :=
  if suffix.utf8ByteSize = d.tokenLength ∧ suffix.toList.all Text.Ascii.isHexDigit then
    some (String.ofList (suffix.toList.map Char.toLower))
  else none

namespace Shelf

/-- The object under a token, up to its deadline. -/
def live? (s : Shelf) (token : String) : Option Slot :=
  (s.objects token).filter fun slot => slot.deadline.all (s.now < ·)

def drop (token : String) (s : Shelf) : Shelf :=
  { s with objects := fun other => if other = token then none else s.objects other }

def put (token : String) (slot : Slot) (s : Shelf) : Shelf :=
  { s with objects := fun other => if other = token then some slot else s.objects other }

/-- An object as it is posted: it is gone `lifetime` seconds from now, or never. -/
def slot (o : Options) (body : Bytes) (s : Shelf) : Slot :=
  ⟨body, if o.lifetime = 0 then none else some (s.now + o.lifetime * 1000)⟩

def get (o : Options) (d : Digest) (suffix : String) (s : Shelf) : Seen × Shelf :=
  match token? d suffix with
  | none => (.text 400 "malformed request", s)
  | some token =>
    if s.offline then (.text 503 "service unavailable", s)
    else
      match s.live? token with
      | none => (.text 404 "not found", s)
      | some slot => (⟨200, slot.value, none⟩, if o.readOnce then s.drop token else s)

def post (o : Options) (d : Digest) (suffix : String) (body : Bytes) (s : Shelf) : Seen × Shelf :=
  if suffix.utf8ByteSize ≠ d.tokenLength then (.text 400 "malformed request - invalid url", s)
  else if body.length < 5 then (.text 400 "malformed request - invalid length", s)
  else if !Z85.isText body then (.text 400 "malformed request - invalid Z85", s)
  else
    match token? d suffix with
    | none => (.text 400 "malformed request - invalid token", s)
    | some token =>
      if s.offline then (.text 503 "service unavailable", s)
      else if o.writeOnce && (s.live? token).isSome then
        (.text 304 "object immutable - not modified", s)
      else (.text 200 "ok", s.put token (s.slot o body))

/-- The reply to a request on the route of a digest, and the shelf after it. -/
def answer (o : Options) (d : Digest) (suffix : String) (r : Request) (s : Shelf) : Seen × Shelf :=
  if s.down then (.text 503 "service unavailable: shutting down", s)
  else
    match r.method with
    | .get => s.get o d suffix
    | .post => s.post o d suffix r.body
    | _ => ({ Seen.text 405 "method not allowed" with allow := some "GET, POST" }, s)

end Shelf

/-- What may happen to a service. -/
inductive Happening where
  /-- A request on the route of a digest, and how long its endpoint takes. -/
  | request (d : Digest) (suffix : String) (r : Request) (elapsed : Nat)
  /-- Milliseconds that pass. -/
  | clock (millis : Nat)
  /-- The store goes off the net or comes back. -/
  | net (offline : Bool)
  | stop (reason : StopReason)

/-- What happens to a shelf, with the reply if it is a request. -/
def Shelf.step (o : Options) (s : Shelf) : Happening → Option Seen × Shelf
  | .request d suffix r _ => ((s.answer o d suffix r).1, (s.answer o d suffix r).2)
  | .clock millis => (none, { s with now := s.now + millis })
  | .net offline => (none, { s with offline })
  | .stop _ => (none, { s with down := true })

/-- The replies to the requests among what happens, in order. -/
def Shelf.run (o : Options) : List Happening → Shelf → List Seen
  | [], _ => []
  | h :: happenings, s => (s.step o h).1.toList ++ Shelf.run o happenings (s.step o h).2

/-- The milliseconds that pass. -/
def Happening.millis : Happening → Nat
  | .clock millis => millis
  | _ => 0

/-- The milliseconds that pass in all. -/
def elapsed : List Happening → Nat
  | [] => 0
  | h :: happenings => h.millis + elapsed happenings

variable {o : Options} {d : Digest} {s : Shelf}

theorem Shelf.live?_drop (token : String) (s : Shelf) :
    (s.drop token).live? = Function.update s.live? token none := by
  funext other
  simp only [live?, drop, Function.update_apply]
  split
  · rfl
  · rfl

theorem Shelf.live?_put (token : String) (s : Shelf) (body : Bytes) :
    (s.put token (s.slot o body)).live? = Function.update s.live? token (some (s.slot o body)) := by
  have hlive : (s.slot o body).deadline.all (s.now < ·) = true := by
    unfold slot
    by_cases hl : o.lifetime = 0
    · rw [if_pos hl]
      rfl
    · rw [if_neg hl, Option.all_some, decide_eq_true_eq]
      omega
  funext other
  simp only [live?, put, Function.update_apply]
  split
  · exact Option.filter_some_pos hlive
  · rfl

/-- Time that passes ends objects and starts none. -/
theorem Shelf.live?_later (s : Shelf) (millis : Nat) (token : String) :
    { s with now := s.now + millis }.live? token =
      (s.live? token).filter fun e => !e.isExpired (s.now + millis) := by
  unfold live?
  rw [Option.filter_filter]
  congr 1
  funext e
  unfold Slot.isExpired
  cases e.deadline with
  | none => rfl
  | some deadline =>
    simp only [Option.all_some, ← decide_not, ← Bool.decide_and, decide_eq_decide]
    omega

/-- A request changes objects only. -/
structure Shelf.Aside (s s' : Shelf) : Prop where
  now : s'.now = s.now
  offline : s'.offline = s.offline
  down : s'.down = s.down

theorem Shelf.Aside.refl (s : Shelf) : s.Aside s := ⟨rfl, rfl, rfl⟩

theorem Shelf.get_aside (o : Options) (d : Digest) (suffix : String) (s : Shelf) :
    s.Aside (s.get o d suffix).2 := by
  unfold get
  split
  · exact .refl s
  split
  · exact .refl s
  split
  · exact .refl s
  split
  · exact ⟨rfl, rfl, rfl⟩
  · exact .refl s

theorem Shelf.post_aside (o : Options) (d : Digest) (suffix : String) (body : Bytes) (s : Shelf) :
    s.Aside (s.post o d suffix body).2 := by
  unfold post
  split
  · exact .refl s
  split
  · exact .refl s
  split
  · exact .refl s
  split
  · exact .refl s
  split
  · exact .refl s
  split
  · exact .refl s
  · exact ⟨rfl, rfl, rfl⟩

theorem Shelf.answer_aside (o : Options) (d : Digest) (suffix : String) (r : Request) (s : Shelf) :
    s.Aside (s.answer o d suffix r).2 := by
  unfold answer
  split
  · exact .refl s
  split
  · exact s.get_aside o d suffix
  · exact s.post_aside o d suffix r.body
  · exact .refl s

theorem Shelf.now_step (o : Options) (s : Shelf) (h : Happening) :
    (s.step o h).2.now = s.now + h.millis := by
  cases h with
  | request d suffix r elapsed => exact (answer_aside o d suffix r s).now
  | clock millis => rfl
  | net offline => rfl
  | stop reason => rfl

/-- The token that a text is parsed as is the one it names. -/
theorem parse_eq {suffix token : String} (h : token? d suffix = some token) :
    Token.parse d suffix = .ok ⟨token⟩ := by
  unfold token? at h
  split at h
  · next hboth =>
    cases h
    unfold Token.parse
    rw [if_neg (not_not.mpr hboth.1), if_neg (by simp [hboth.2])]
  · cases h

theorem parse_error {suffix : String} (h : token? d suffix = none) :
    ∃ e, Token.parse d suffix = .error e := by
  unfold token? at h
  split at h
  · cases h
  · next hnot =>
    unfold Token.parse
    split
    · exact ⟨_, rfl⟩
    · next hlen =>
      rw [if_pos (by simpa [not_not.mp hlen] using hnot)]
      exact ⟨_, rfl⟩

end Depot.Objects
