import Depot.Text.Decimal
import Depot.Text.Ascii

/-! # Store replies

The five reply kinds of the store's wire format, with one value for both nil forms. -/

namespace Depot.Resp

inductive Value where
  | status (text : String)
  | failure (text : String)
  | integer (n : Int)
  | bulk (bytes : Bytes)
  | nil
  | array (items : List Value)
  deriving Repr

namespace Value

/-- Whether the reply is a status that starts with `OK`. -/
def isOk : Value → Bool
  | .status text => ['O', 'K'].isPrefixOf text.toList
  | _ => false

def bytes? : Value → Option Bytes
  | .bulk bytes => some bytes
  | .status text => some (Text.Utf8.encode text)
  | _ => none

def kind : Value → String
  | .status _ => "status"
  | .failure _ => "error"
  | .integer _ => "integer"
  | .bulk _ => "string"
  | .nil => "nil"
  | .array _ => "array"

end Value

def line (kind : Char) (text : Bytes) : Bytes :=
  Text.Utf8.encode (String.ofList [kind]) ++ text ++ Text.Ascii.crlf

def bulkForm (bytes : Bytes) : Bytes :=
  line '$' (Text.Decimal.encode bytes.length) ++ bytes ++ Text.Ascii.crlf

def Value.encode : Value → Bytes
  | .status text => line '+' (Text.Utf8.encode text)
  | .failure text => line '-' (Text.Utf8.encode text)
  | .integer n => line ':' (Text.Utf8.encode (toString n))
  | .bulk bytes => bulkForm bytes
  | .nil => line '$' (Text.Utf8.encode "-1")
  | .array items => line '*' (Text.Decimal.encode items.length) ++ encodeAll items
where
  encodeAll : List Value → Bytes
    | [] => []
    | v :: items => v.encode ++ encodeAll items

end Depot.Resp
