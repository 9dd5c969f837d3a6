/-! # Network addresses

Addresses of both families with their text forms. The long form is written in lower case without
leading zeros, its longest run of two or more zero groups (the first of equals) folded to `::`,
and an embedded short address in dotted form. -/

namespace Depot

inductive Address where
  | v4 (a b c d : UInt8)
  | v6 (groups : Vector UInt16 8)
  deriving Repr, DecidableEq

namespace Address

def loopback : Address := .v4 127 0 0 1

def unspecified : Address := .v4 0 0 0 0

/-- The short address embedded under the prefix `::ffff:`, if the groups hold one. -/
def embedded? (groups : Vector UInt16 8) : Option Address :=
  if groups.toList.take 6 = [0, 0, 0, 0, 0, 0xFFFF] then
    let high := groups[6]
    let low := groups[7]
    some (.v4 (high >>> 8).toUInt8 high.toUInt8 (low >>> 8).toUInt8 low.toUInt8)
  else none

/-- One form for each host: an embedded short address stands for itself. -/
def canonical : Address → Address
  | .v6 groups => (embedded? groups).getD (.v6 groups)
  | address => address

/-! ## Writing -/

def dotted (a b c d : UInt8) : String :=
  toString a.toNat ++ "." ++ toString b.toNat ++ "." ++ toString c.toNat ++ "." ++ toString d.toNat

def colons (groups : List UInt16) : String :=
  ":".intercalate (groups.map fun g => String.ofList (Nat.toDigits 16 g.toNat))

def zerosAhead (groups : List UInt16) : Nat := (groups.takeWhile (· == 0)).length

/-- Start and length of the longest run of zero groups, the first of equals. -/
def zeroRun (groups : List UInt16) : Nat × Nat :=
  (List.range groups.length).foldl
    (fun best start =>
      let length := zerosAhead (groups.drop start)
      if best.2 < length then (start, length) else best)
    (0, 0)

def render : Address → String
  | .v4 a b c d => dotted a b c d
  | .v6 groups =>
    match embedded? groups with
    | some (.v4 a b c d) => "::ffff:" ++ dotted a b c d
    | _ =>
      let (start, length) := zeroRun groups.toList
      if 1 < length then
        colons (groups.toList.take start) ++ "::" ++ colons (groups.toList.drop (start + length))
      else colons groups.toList

def renderWithPort (address : Address) (port : Nat) : String :=
  match address with
  | .v4 .. => address.render ++ ":" ++ toString port
  | .v6 .. => "[" ++ address.render ++ "]:" ++ toString port

/-! ## Reading -/

/-- A decimal number of one to three digits below 256, without leading zeros, and what follows. -/
def readOctet (text : List Char) : Option (UInt8 × List Char) :=
  let digits := text.takeWhile Char.isDigit
  let n := Nat.ofDigitChars 10 digits 0
  if digits = [] ∨ 3 < digits.length ∨ 255 < n ∨ (digits.head? = some '0' ∧ 1 < digits.length) then
    none
  else some (UInt8.ofNat n, text.dropWhile Char.isDigit)

def readChar (c : Char) : List Char → Option (List Char)
  | [] => none
  | d :: text => if d = c then some text else none

def readDotted (text : List Char) : Option ((UInt8 × UInt8 × UInt8 × UInt8) × List Char) := do
  let (a, text) ← readOctet text
  let (b, text) ← readOctet (← readChar '.' text)
  let (c, text) ← readOctet (← readChar '.' text)
  let (d, text) ← readOctet (← readChar '.' text)
  return ((a, b, c, d), text)

def hexValue? (c : Char) : Option Nat :=
  if '0' ≤ c ∧ c ≤ '9' then some (c.toNat - '0'.toNat)
  else if 'a' ≤ c ∧ c ≤ 'f' then some (c.toNat - 'a'.toNat + 10)
  else if 'A' ≤ c ∧ c ≤ 'F' then some (c.toNat - 'A'.toNat + 10)
  else none

def readGroup (text : List Char) : Option (UInt16 × List Char) :=
  let digits := text.takeWhile fun c => (hexValue? c).isSome
  if digits = [] ∨ 4 < digits.length then none
  else
    let n := digits.foldl (fun n c => n * 16 + (hexValue? c).getD 0) 0
    some (UInt16.ofNat n, text.drop digits.length)

/-- Groups read up to a limit, whether a dotted pair ended them, and what follows. -/
structure Groups where
  groups : List UInt16
  dotted : Bool
  rest : List Char

/-- Reads up to `room` groups with colons between them; where at least two fit, a dotted address
may stand for the last two. Nothing is taken of a group that cannot be read. -/
def readGroups (first : Bool) : Nat → List Char → Groups
  | 0, text => ⟨[], false, text⟩
  | room + 1, text =>
    let start := if first then some text else readChar ':' text
    match if room = 0 then none else start.bind readDotted with
    | some ((a, b, c, d), rest) =>
      ⟨[a.toUInt16 <<< 8 ||| b.toUInt16, c.toUInt16 <<< 8 ||| d.toUInt16], true, rest⟩
    | none =>
      match start.bind readGroup with
      | some (g, rest) =>
        let later := readGroups false room rest
        { later with groups := g :: later.groups }
      | none => ⟨[], false, text⟩

def readLong (text : List Char) : Option (List UInt16 × List Char) :=
  let head := readGroups true 8 text
  if head.groups.length = 8 then some (head.groups, head.rest)
  else if head.dotted then none
  else do
    let rest ← readChar ':' (← readChar ':' head.rest)
    let tail := readGroups true (7 - head.groups.length) rest
    let zeros := 8 - head.groups.length - tail.groups.length
    return (head.groups ++ List.replicate zeros 0 ++ tail.groups, tail.rest)

def parse? (text : String) : Option Address :=
  match readDotted text.toList with
  | some ((a, b, c, d), []) => some (.v4 a b c d)
  | some _ => none
  | none =>
    match readLong text.toList with
    | some (groups, []) =>
      if h : groups.length = 8 then some (.v6 ⟨groups.toArray, by simpa using h⟩) else none
    | _ => none

end Address

end Depot
