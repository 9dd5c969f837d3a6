import Depot.Bytes

/-! # ASCII

Letter case, digits and the two hexadecimal spellings, for bytes and for characters. -/

namespace Depot.Text.Ascii

def cr : UInt8 := 13
def lf : UInt8 := 10
def crlf : Bytes := [cr, lf]
def space : UInt8 := 32
def tab : UInt8 := 9

def isDigit (b : UInt8) : Bool := 0x30 ≤ b && b ≤ 0x39
def isUpper (b : UInt8) : Bool := 0x41 ≤ b && b ≤ 0x5A
def isLower (b : UInt8) : Bool := 0x61 ≤ b && b ≤ 0x7A
def isLetter (b : UInt8) : Bool := isUpper b || isLower b

/-- A letter in lower case; any other byte as it is. -/
def toLower (b : UInt8) : UInt8 := if isUpper b then b + 32 else b

/-- Equal but for the case of ASCII letters. -/
def sameIgnoringCase (a b : Bytes) : Bool := a.map toLower == b.map toLower

def isHexDigit (c : Char) : Bool :=
  ('0' ≤ c && c ≤ '9') || ('a' ≤ c && c ≤ 'f') || ('A' ≤ c && c ≤ 'F')

def hexByte (b : UInt8) : String :=
  String.ofList [Nat.digitChar (b.toNat / 16), Nat.digitChar (b.toNat % 16)]

end Depot.Text.Ascii
