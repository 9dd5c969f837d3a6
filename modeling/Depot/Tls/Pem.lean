import Depot.Text.Utf8
import Depot.Tls.Base64

/-! # PEM

Blocks of base 64 between a line that begins and a line that ends a labelled section. Text outside
of sections is skipped, and so are sections whose label is not known, whatever they hold. A section
that begins inside another one takes its place and keeps its text. -/

namespace Depot.Tls.Pem

inductive Kind where
  | certificate
  | privateKey
  /-- Something that a server has no use for. -/
  | other
  deriving Repr, DecidableEq

inductive Fault where
  | start
  | unclosed
  | base64
  deriving Repr, DecidableEq

def labels : List (String × Kind) :=
  [("CERTIFICATE", .certificate), ("PRIVATE KEY", .privateKey), ("RSA PRIVATE KEY", .privateKey),
   ("EC PRIVATE KEY", .privateKey), ("PUBLIC KEY", .other), ("X509 CRL", .other),
   ("CERTIFICATE REQUEST", .other), ("ECHCONFIG", .other)]

def kindOf? (label : Bytes) : Option Kind :=
  (labels.find? fun (name, _) => Text.Utf8.encode name == label).map Prod.snd

def dash : UInt8 := 0x2D

def lines : Bytes → List Bytes
  | [] => [[]]
  | b :: bytes =>
    if b = Text.Ascii.cr ∨ b = Text.Ascii.lf then [] :: lines bytes
    else
      match lines bytes with
      | [] => [[b]]
      | line :: others => (b :: line) :: others

def opening : Bytes := Text.Utf8.encode "-----BEGIN "

/-- The label on a line that begins a section: all up to the five dashes at its end, between and
behind which blanks may stand. -/
def labelOf? (line : Bytes) : Option Bytes :=
  let text := line.drop opening.length
  let tail := (text.reverse.takeWhile fun b => b == dash || b == Text.Ascii.space).reverse
  if tail.count dash = 5 then
    some (text.take (text.length - tail.length) ++ tail.takeWhile (· != dash))
  else none

structure Section where
  label : Bytes
  /-- The lines of its text, the latest first. -/
  lines : List Bytes

def Section.text (s : Section) : Bytes := s.lines.reverse.flatten

def Section.endsWith (s : Section) (line : Bytes) : Bool :=
  (Text.Utf8.encode "-----END " ++ s.label ++ Text.Utf8.encode "-----").isPrefixOf line

def blocksFrom (current : Option Section) : List Bytes → List (Except Fault Kind)
  | [] => if current.isSome then [.error .unclosed] else []
  | line :: lines =>
    if opening.isPrefixOf line then
      match labelOf? line with
      | none => [.error .start]
      | some label => blocksFrom (some ⟨label, current.elim [] Section.lines⟩) lines
    else
      match current with
      | none => blocksFrom none lines
      | some s =>
        if s.endsWith line then
          match kindOf? s.label with
          | none => blocksFrom none lines
          | some kind =>
            if Base64.isText s.text then .ok kind :: blocksFrom none lines
            else [.error .base64]
        else blocksFrom (some { s with lines := line :: s.lines }) lines

def blocks (text : Bytes) : List (Except Fault Kind) := blocksFrom none (lines text)

/-- Whether there is a certificate; a fault anywhere decides. -/
def hasCertificate (text : Bytes) : Except Fault Bool :=
  (blocks text).foldlM (fun found block => block.map fun kind => found || kind == .certificate)
    false

/-- Whether a private key is among blocks; nothing behind it is looked at. -/
def keyAmong : List (Except Fault Kind) → Except Fault Bool
  | [] => .ok false
  | .error e :: _ => .error e
  | .ok .privateKey :: _ => .ok true
  | .ok _ :: others => keyAmong others

def hasKey (text : Bytes) : Except Fault Bool := keyAmong (blocks text)

end Depot.Tls.Pem
