import Depot.Text.Utf8
import Depot.Text.Ascii

/-! # Z85

Binary data as text: four bytes are one 32 bit word, most significant byte first, and a word is
five base 85 digits, most significant first, each a byte of the alphabet. Five digits reach past
32 bits, so some texts over the alphabet stand for nothing. -/

namespace Depot.Z85

def alphabet : Bytes :=
  Text.Utf8.encode
    "0123456789abcdefghijklmnopqrstuvwxyzABCDEFGHIJKLMNOPQRSTUVWXYZ.-:+=^!/*?&<>()[]\x7b\x7d@%$#"

inductive Fault where
  | length (actual group : Nat)
  | alphabet (b : UInt8)
  /-- A group of digits does not fit in 32 bits. -/
  | overflow
  deriving Repr, DecidableEq

def Fault.message : Fault → String
  | .length actual group =>
    "input length " ++ toString actual ++ " is not a multiple of " ++ toString group
  | .alphabet b => "byte 0x" ++ Text.Ascii.hexByte b ++ " is outside the z85 alphabet"
  | .overflow => "group does not fit in 32 bits"

def digit? (b : UInt8) : Option Nat := alphabet.idxOf? b

def digit (n : Nat) : UInt8 := alphabet.getD n 0

def isDigit (b : UInt8) : Bool := (digit? b).isSome

def isText (text : Bytes) : Bool := text.all isDigit

/-- The number four bytes spell, most significant first. -/
def wordOfBytes (a b c d : UInt8) : Nat :=
  ((a.toNat * 256 + b.toNat) * 256 + c.toNat) * 256 + d.toNat

def bytesOfWord (w : Nat) : Bytes :=
  [UInt8.ofNat (w / 256 / 256 / 256), UInt8.ofNat (w / 256 / 256), UInt8.ofNat (w / 256),
   UInt8.ofNat w]

def digitsOfWord (w : Nat) : Bytes :=
  [digit (w / 85 / 85 / 85 / 85 % 85), digit (w / 85 / 85 / 85 % 85), digit (w / 85 / 85 % 85),
   digit (w / 85 % 85), digit (w % 85)]

/-- The digits of each group of four bytes; bytes short of a group are left out. -/
def encodeGroups : Bytes → Bytes
  | a :: b :: c :: d :: rest => digitsOfWord (wordOfBytes a b c d) ++ encodeGroups rest
  | _ => []

def encode (data : Bytes) : Except Fault Bytes :=
  if data.length % 4 = 0 then .ok (encodeGroups data) else .error (.length data.length 4)

def wordBound : Nat := 0x100000000

/-- One more digit behind those worth `w`. -/
def appendDigit (w : Nat) (b : UInt8) : Except Fault Nat :=
  match digit? b with
  | none => .error (.alphabet b)
  | some d => if w * 85 + d < wordBound then .ok (w * 85 + d) else .error .overflow

def wordOfDigits (group : Bytes) : Except Fault Nat := group.foldlM appendDigit 0

/-- The bytes of each group of five digits; the first group that has no word is the fault. -/
def decodeGroups : Bytes → Except Fault Bytes
  | a :: b :: c :: d :: e :: rest => do
    let w ← wordOfDigits [a, b, c, d, e]
    let data ← decodeGroups rest
    return bytesOfWord w ++ data
  | _ => .ok []

def decode (text : Bytes) : Except Fault Bytes :=
  if text.length % 5 = 0 then decodeGroups text else .error (.length text.length 5)

end Depot.Z85
