import Depot.Bytes

/-! # UTF-8

Text is written as UTF-8 by `encode`. It is read one byte at a time by a machine whose states
say which bytes may come next (`State.step`). Strict reading (`decode?`) refuses at the first
byte that rules the text out; lossy reading puts one replacement character in place of each
longest start of a character that the next byte breaks off. -/

namespace Depot.Text.Utf8

def encode (text : String) : Bytes :=
  text.toList.flatMap String.utf8EncodeChar

/-- Where a reader stands between two bytes. -/
inductive State where
  | between
  /-- Inside a character: the next byte lies in `low`..`high`, `behind` more follow it, and
  `value` holds the bits read so far. -/
  | inside (behind : Nat) (low high : UInt8) (value : Nat)
  deriving Repr, DecidableEq

inductive Step where
  | char (c : Char)
  | more (q : State)
  | broken
  deriving Repr, DecidableEq

/-- The first byte of a character. The bounds on the second one keep out overlong forms,
surrogates and values past the last code point. -/
def firstByte (b : UInt8) : Step :=
  if b < 0x80 then .char (Char.ofNat b.toNat)
  else if b < 0xC2 then .broken
  else if b < 0xE0 then .more (.inside 0 0x80 0xBF (b.toNat - 0xC0))
  else if b = 0xE0 then .more (.inside 1 0xA0 0xBF 0)
  else if b = 0xED then .more (.inside 1 0x80 0x9F 0xD)
  else if b < 0xF0 then .more (.inside 1 0x80 0xBF (b.toNat - 0xE0))
  else if b = 0xF0 then .more (.inside 2 0x90 0xBF 0)
  else if b < 0xF4 then .more (.inside 2 0x80 0xBF (b.toNat - 0xF0))
  else if b = 0xF4 then .more (.inside 2 0x80 0x8F 4)
  else .broken

def State.step : State → UInt8 → Step
  | .between, b => firstByte b
  | .inside behind low high value, b =>
    if low ≤ b ∧ b ≤ high then
      let value := value * 64 + (b.toNat - 0x80)
      match behind with
      | 0 => .char (Char.ofNat value)
      | behind + 1 => .more (.inside behind 0x80 0xBF value)
    else .broken

/-- Strict reading of one byte; the characters so far are kept last first. -/
def read? : State × List Char → UInt8 → Option (State × List Char)
  | (q, read), b =>
    match q.step b with
    | .char c => some (.between, c :: read)
    | .more q => some (q, read)
    | .broken => none

def decode? (bytes : Bytes) : Option String :=
  match bytes.foldlM read? (.between, []) with
  | some (.between, read) => some (String.ofList read.reverse)
  | _ => none

def replacement : Char := '\uFFFD'

/-- Lossy reading of one byte. A byte that breaks a character off is read again from between
characters. -/
def readLossy : State × List Char → UInt8 → State × List Char
  | (q, read), b =>
    match q.step b with
    | .char c => (.between, c :: read)
    | .more q => (q, read)
    | .broken =>
      match q with
      | .between => (.between, replacement :: read)
      | .inside .. =>
        match firstByte b with
        | .char c => (.between, c :: replacement :: read)
        | .more q => (q, replacement :: read)
        | .broken => (.between, replacement :: replacement :: read)

def lossy (bytes : Bytes) : String :=
  match bytes.foldl readLossy (.between, []) with
  | (.between, read) => String.ofList read.reverse
  | (.inside .., read) => String.ofList (replacement :: read).reverse

/-- The text behind the first `count` bytes, if a character starts there. -/
def dropBytes? : Nat → List Char → Option (List Char)
  | 0, text => some text
  | _ + 1, [] => none
  | count + 1, c :: text =>
    if c.utf8Size ≤ count + 1 then dropBytes? (count + 1 - c.utf8Size) text else none
termination_by structural _ text => text

end Depot.Text.Utf8
