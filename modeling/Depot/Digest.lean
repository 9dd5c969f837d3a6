import Depot.Text.Utf8
import Depot.Text.Ascii

/-! # Tokens

An object is named by the hexadecimal digest of its content. Six digest families exist; each has
its own token length and its own routes. Tokens are kept in lower case, so that two spellings of
one digest name one object. -/

namespace Depot

inductive Digest where
  | md5
  | sha1
  | sha224
  | sha256
  | sha384
  | sha512
  deriving Repr, DecidableEq

namespace Digest

/-- All families, in ascending size, which is the order of their routes. -/
def all : List Digest := [.md5, .sha1, .sha224, .sha256, .sha384, .sha512]

def name : Digest → String
  | .md5 => "md5"
  | .sha1 => "sha1"
  | .sha224 => "sha224"
  | .sha256 => "sha256"
  | .sha384 => "sha384"
  | .sha512 => "sha512"

def bits : Digest → Nat
  | .md5 => 128
  | .sha1 => 160
  | .sha224 => 224
  | .sha256 => 256
  | .sha384 => 384
  | .sha512 => 512

def tokenLength (d : Digest) : Nat := d.bits / 4

def route (d : Digest) : String := "/store/" ++ toString d.bits ++ "/"

end Digest

inductive TokenFault where
  | length (expected actual : Nat)
  | notHex
  deriving Repr, DecidableEq

def TokenFault.message : TokenFault → String
  | .length expected actual =>
    "token length " ++ toString actual ++ ", expected " ++ toString expected
  | .notHex => "token is not hexadecimal"

/-- The name of an object, in lower case. -/
structure Token where
  text : String
  deriving Repr, DecidableEq

namespace Token

/-- The token a text names in a family. Its length counts bytes, so a text with as many
characters but wider ones is refused for its length. -/
def parse (d : Digest) (text : String) : Except TokenFault Token :=
  if text.utf8ByteSize ≠ d.tokenLength then .error (.length d.tokenLength text.utf8ByteSize)
  else if !text.toList.all Text.Ascii.isHexDigit then .error .notHex
  else .ok ⟨String.ofList (text.toList.map Char.toLower)⟩

def key (t : Token) : Bytes := Text.Utf8.encode t.text

end Token

end Depot
