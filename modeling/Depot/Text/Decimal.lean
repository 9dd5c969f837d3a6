import Depot.Text.Utf8

/-! # Decimal numbers

Numbers are written in plain decimal digits. They are read digit by digit into a bounded range;
one leading sign is allowed, blanks and separators are not. The first digit that is none, or that
takes the number out of range, decides the fault. -/

namespace Depot.Text.Decimal

def max16 : Nat := 0xFFFF
def max63 : Nat := 0x7FFFFFFFFFFFFFFF
def max64 : Nat := 0xFFFFFFFFFFFFFFFF

inductive Fault where
  | empty
  | badDigit
  | tooLarge
  | tooSmall
  deriving Repr, DecidableEq

def Fault.message : Fault → String
  | .empty => "cannot parse integer from empty string"
  | .badDigit => "invalid digit found in string"
  | .tooLarge => "number too large to fit in target type"
  | .tooSmall => "number too small to fit in target type"

def digit? (c : Char) : Option Nat :=
  if '0' ≤ c ∧ c ≤ '9' then some (c.toNat - '0'.toNat) else none

/-- Reads digits behind those worth `value`, up to `limit`; past it the answer is `out`. -/
def digits (limit : Nat) (out : Fault) (value : Nat) : List Char → Except Fault Nat
  | [] => .ok value
  | c :: text =>
    match digit? c with
    | none => .error .badDigit
    | some d =>
      if value * 10 + d ≤ limit then digits limit out (value * 10 + d) text else .error out

/-- Reads a number of 0..`limit`, with at most one `+` in front. -/
def readNat (limit : Nat) : List Char → Except Fault Nat
  | [] => .error .empty
  | ['+'] => .error .badDigit
  | '+' :: text => digits limit .tooLarge 0 text
  | text => digits limit .tooLarge 0 text

def readInt : List Char → Except Fault Int
  | ['-'] => .error .badDigit
  | '-' :: text => (digits (max63 + 1) .tooSmall 0 text).map fun n => -(n : Int)
  | text => (readNat max63 text).map Int.ofNat

def intOfBytes? (bytes : Bytes) : Option Int :=
  (Utf8.decode? bytes).bind fun text => (readInt text.toList).toOption

def encode (n : Nat) : Bytes := Utf8.encode (toString n)

end Depot.Text.Decimal
