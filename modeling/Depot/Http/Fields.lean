import Depot.Text.Decimal
import Depot.Text.Blank

/-! # Header fields

Fields are kept in the order in which their names first came, the values of one name together in
the order in which they came. Names are in lower case. -/

namespace Depot.Http

structure Field where
  name : String
  values : List Bytes
  deriving Repr, DecidableEq

abbrev Fields := List Field

/-- Whether a byte may stand in a value: anything but control bytes, the tab aside. -/
def isValueByte (b : UInt8) : Bool := b == 9 || (0x20 ≤ b && b != 0x7F)

def isVisible (b : UInt8) : Bool := b == 9 || (0x20 ≤ b && b < 0x7F)

namespace Fields

def append (name : String) (value : Bytes) : Fields → Fields
  | [] => [⟨name, [value]⟩]
  | field :: fields =>
    if field.name = name then { field with values := field.values ++ [value] } :: fields
    else field :: append name value fields

/-- Puts a value in place of all others of its name, where the first of them stood. -/
def insert (name : String) (value : Bytes) : Fields → Fields
  | [] => [⟨name, [value]⟩]
  | field :: fields =>
    if field.name = name then ⟨name, [value]⟩ :: fields
    else field :: insert name value fields

def values (fields : Fields) (name : String) : List Bytes :=
  ((List.find? (fun field => field.name == name) fields).map Field.values).getD []

def first? (fields : Fields) (name : String) : Option Bytes := (fields.values name).head?

def textOf? (value : Bytes) : Option String :=
  if value.all isVisible then some (Text.Utf8.lossy value) else none

def text? (fields : Fields) (name : String) : Option String :=
  (fields.first? name).bind textOf?

/-- The number the first `content-length` spells, blanks around it aside. -/
def contentLength? (fields : Fields) : Option Nat :=
  (fields.text? "content-length").bind fun text =>
    (Text.Decimal.readNat Text.Decimal.max64 (Text.trim text.toList)).toOption

def render (fields : Fields) : Bytes :=
  fields.flatMap fun field =>
    field.values.flatMap fun value =>
      Text.Utf8.encode field.name ++ Text.Utf8.encode ": " ++ value ++ [13, 10]

end Fields

end Depot.Http
