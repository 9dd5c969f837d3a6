import Depot.Text.Utf8
import Depot.Text.Ascii

/-! # Request targets

A target is a path with an optional query, an absolute address with a scheme and an authority in
front of them, a bare authority, or a single asterisk. A fragment is cut off. -/

namespace Depot.Http

open Text.Ascii (isDigit isLetter toLower)

structure Target where
  scheme : Option String
  /-- Empty when the target is only a path. -/
  authority : String
  /-- The path as sent, which may be empty. -/
  written : String
  query : Option String
  deriving Repr, DecidableEq

namespace Target

def maxLength : Nat := 65534

def maxScheme : Nat := 64

/-- The path: an empty one is the root, save in a bare authority, which has none. -/
def path (t : Target) : String :=
  if t.written = "" ∧ (t.scheme.isSome ∨ t.query.isSome) then "/" else t.written

def render (t : Target) : String :=
  t.scheme.elim "" (· ++ "://") ++ t.authority ++ t.path ++ t.query.elim "" ("?" ++ ·)

def slash : UInt8 := 0x2F
def colon : UInt8 := 0x3A
def question : UInt8 := 0x3F
def hash : UInt8 := 0x23
def at_ : UInt8 := 0x40
def percent : UInt8 := 0x25
def bracketOpen : UInt8 := 0x5B
def bracketClose : UInt8 := 0x5D

/-! ## Path and query -/

/-- Bytes a path may hold: all visible ones but those that quote or set apart, and all that may be
part of a wider character. -/
def isPathByte (b : UInt8) : Bool :=
  b == 0x21 || b == 0x22 || (0x24 ≤ b && b ≤ 0x3B) || b == 0x3D || (0x40 ≤ b && b ≤ 0x5F) ||
    (0x61 ≤ b && b ≤ 0x7E) || 0x7F ≤ b

def isQueryByte (b : UInt8) : Bool :=
  b == 0x21 || (0x24 ≤ b && b ≤ 0x3B) || b == 0x3D || 0x3F ≤ b

/-- Path and query of the bytes behind the authority; what follows a `#` is left out. -/
def readPath? (bytes : Bytes) : Option (String × Option String) := do
  let kept := bytes.takeWhile (· != hash)
  let path := kept.takeWhile (· != question)
  guard (path.all isPathByte)
  match kept.drop path.length with
  | [] => return (← Text.Utf8.decode? path, none)
  | _ :: query =>
    guard (query.all isQueryByte)
    return (← Text.Utf8.decode? path, some (← Text.Utf8.decode? query))

/-! ## Authority -/

structure AuthorityScan where
  colons : Nat := 0
  opened : Bool := false
  closed : Bool := false
  percent : Bool := false

def authorityMarks : Bytes := Text.Utf8.encode "!$&'()*+,;=-._~"

/-- One more byte of an authority. Colons and percent signs count only behind the last `@` or
`]`: before it they belong to a user name or to an address in brackets. -/
def AuthorityScan.step (s : AuthorityScan) (b : UInt8) : Option AuthorityScan :=
  if b = colon then
    if s.colons < 8 then some { s with colons := s.colons + 1 } else none
  else if b = bracketOpen then
    if s.percent || s.opened then none else some { s with opened := true }
  else if b = bracketClose then
    if !s.opened || s.closed then none
    else some { s with closed := true, colons := 0, percent := false }
  else if b = at_ then some { s with colons := 0, percent := false }
  else if b = Target.percent then some { s with percent := true }
  else if isLetter b || isDigit b || authorityMarks.contains b then some s
  else none

/-- Whether the bytes are an authority: brackets in a pair, at most one colon for the port,
something behind the last `@`, no percent sign in the host. -/
def isAuthority (bytes : Bytes) : Bool :=
  match bytes.foldlM AuthorityScan.step {} with
  | none => false
  | some s =>
    s.opened == s.closed && s.colons ≤ 1 && bytes.getLast? != some at_ && !s.percent

def endsAuthority (b : UInt8) : Bool := b == slash || b == question || b == hash

/-! ## Scheme -/

def schemeMarks : Bytes := Text.Utf8.encode "+-.~"

def isSchemeByte (b : UInt8) : Bool := isLetter b || isDigit b || schemeMarks.contains b

/-- The scheme in front of `://`, if there is one, and what follows; nothing if it is too long.
The two known schemes are written in lower case. -/
def readScheme? (bytes : Bytes) : Option (Option String × Bytes) :=
  let low := bytes.map toLower
  if (Text.Utf8.encode "http://").isPrefixOf low then some (some "http", bytes.drop 7)
  else if (Text.Utf8.encode "https://").isPrefixOf low then some (some "https", bytes.drop 8)
  else if bytes.length ≤ 3 then some (none, bytes)
  else
    let name := bytes.takeWhile isSchemeByte
    if (Text.Utf8.encode "://").isPrefixOf (bytes.drop name.length) then
      if maxScheme < name.length then none
      else some (some (Text.Utf8.lossy name), bytes.drop (name.length + 3))
    else some (none, bytes)

/-! ## The whole target -/

def parse? (bytes : Bytes) : Option Target := do
  guard (bytes ≠ [] ∧ bytes.length ≤ maxLength)
  if bytes = Text.Utf8.encode "*" then return ⟨none, "", "*", none⟩
  if bytes.head? = some slash then
    let (path, query) ← readPath? bytes
    return ⟨none, "", path, query⟩
  let (scheme, bytes) ← readScheme? bytes
  let authority := bytes.takeWhile fun b => !endsAuthority b
  let rest := bytes.drop authority.length
  guard (isAuthority authority)
  if scheme.isNone then
    guard (rest = [])
    return ⟨none, Text.Utf8.lossy authority, "", none⟩
  guard (authority ≠ [])
  let (path, query) ← readPath? rest
  return ⟨scheme, Text.Utf8.lossy authority, path, query⟩

end Target

end Depot.Http
