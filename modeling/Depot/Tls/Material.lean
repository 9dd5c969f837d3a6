import Depot.Tls.Pem

/-! # TLS material

Certificates and a private key as text. They are checked for being there in this order: the
certificates of the server, those added to them, the key. What the blocks hold is not read here, so
material that passes is still turned down as no configuration. -/

namespace Depot.Tls

structure Material where
  cert : Bytes
  key : Bytes
  /-- Certificates to be added to the server's own. -/
  ca : Option Bytes := none
  deriving Repr, DecidableEq

inductive Fault where
  | certificate (cause : Pem.Fault)
  | noCertificate
  | key (cause : Pem.Fault)
  | noKey
  | config
  deriving Repr, DecidableEq

def Pem.Fault.text : Pem.Fault → String
  | .start => "illegal section start"
  | .unclosed => "section end missing"
  | .base64 => "invalid base 64"

def Fault.message : Fault → String
  | .certificate cause => "invalid certificate pem: " ++ cause.text
  | .noCertificate => "no certificate found in pem"
  | .key cause => "invalid private key pem: " ++ cause.text
  | .noKey => "no private key found in pem"
  | .config => "tls config error: unsupported key or certificate"

def certificateFault? (text : Bytes) : Option Fault :=
  match Pem.hasCertificate text with
  | .error cause => some (.certificate cause)
  | .ok false => some .noCertificate
  | .ok true => none

def keyFault? (text : Bytes) : Option Fault :=
  match Pem.hasKey text with
  | .error cause => some (.key cause)
  | .ok false => some .noKey
  | .ok true => none

/-- Why the material is turned down: the first check it fails, or else the last one. -/
def Material.fault (m : Material) : Fault :=
  ((certificateFault? m.cert).or ((m.ca.bind certificateFault?).or (keyFault? m.key))).getD .config

end Depot.Tls
