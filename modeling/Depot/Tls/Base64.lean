import Depot.Text.Ascii

/-! # Base 64

Whether bytes are base 64: digits, six bits each, then either nothing or just as many `=` as bring
their number to a multiple of four. Blanks anywhere count for nothing. A single digit behind the
last group of four spells no byte. -/

namespace Depot.Tls.Base64

open Text.Ascii (isLetter isDigit)

def isBase64Digit (b : UInt8) : Bool := isLetter b || isDigit b || b == 0x2B || b == 0x2F

/-- Whether a byte counts for nothing. -/
def isBlank (b : UInt8) : Bool := b == 0x20 || (0x09 ≤ b && b ≤ 0x0D)

/-- Whether so much padding may follow so many digits. -/
def closes (digits pads : Nat) : Bool :=
  match digits % 4 with
  | 0 => pads == 0
  | 1 => false
  | left => pads == 0 || left + pads == 4

def isText (bytes : Bytes) : Bool :=
  let text := bytes.filter fun b => !isBlank b
  let digits := text.takeWhile isBase64Digit
  let padding := text.drop digits.length
  padding.all (· == 0x3D) && closes digits.length padding.length

end Depot.Tls.Base64
