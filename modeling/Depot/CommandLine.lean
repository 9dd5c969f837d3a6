import Depot.Address
import Depot.StoreAddress
import Depot.Options

/-! # The command line

Options have long names, some have a short one, and most take a value: the next argument, or what
is attached to the option, with or without an equals sign. Short options may share one dash.

An option whose value is the next argument is settled only when the next option is met, or at the
end; until then nothing is wrong with it. An argument that fits nowhere is reported at once. When
all are settled the options are checked against each other.

Arguments are text here, and so are paths. A path whose bytes are no text in UTF-8 is left out. -/

namespace Depot

inductive Argument where
  | ip
  | port
  | oneThread
  | log
  | rsock
  | rtcp
  | cert
  | key
  | ca
  | maxObject
  | writeOnce
  | bar
  | timeout
  | stats
  | help
  | version
  deriving Repr, DecidableEq

namespace Argument

/-- All options with their long and short names. -/
def names : List (Argument × String × Option Char) :=
  [(.ip, "ip", some 'I'), (.port, "port", some 'P'),
   (.oneThread, "single-threaded", some 's'), (.log, "log", some 'l'),
   (.rsock, "rsock", none), (.rtcp, "rtcp", none), (.cert, "cert", none), (.key, "key", none),
   (.ca, "ca", none), (.maxObject, "maxpost", none), (.writeOnce, "immutable", none),
   (.bar, "bar", none), (.timeout, "timeout", none), (.stats, "stats", none),
   (.help, "help", some 'h'), (.version, "version", some 'V')]

def ofLong? (name : List Char) : Option Argument :=
  (names.find? fun (_, long, _) => long.toList == name).map Prod.fst

def ofShort? (c : Char) : Option Argument :=
  (names.find? fun (_, _, short) => short == some c).map Prod.fst

def takesValue : Argument → Bool
  | .oneThread | .writeOnce | .bar | .stats | .help | .version => false
  | _ => true

end Argument

inductive UsageProblem where
  | help
  | version
  | missingRequired
  /-- Options that exclude each other, or one given twice. -/
  | conflict
  | unknownArgument
  | invalidValue
  /-- A value for an option that takes none. -/
  | tooManyValues
  | badValue (reason : String)
  deriving Repr, DecidableEq

/-- Whether the program was misused. -/
def UsageProblem.isFailure : UsageProblem → Bool
  | .help | .version => false
  | _ => true

structure CommandLine where
  given : List Argument := []
  ip : Address := .unspecified
  port : Nat := 0
  oneThread : Bool := false
  log : Option String := none
  rsock : Option String := none
  rtcp : Option StoreAddress := none
  cert : Option String := none
  key : Option String := none
  ca : Option String := none
  maxObject : Nat := 10 * 1024 * 1024
  writeOnce : Bool := false
  bar : Bool := false
  timeout : Nat := 30
  stats : Bool := false
  deriving DecidableEq

namespace CommandLine

def store? (c : CommandLine) : Option StoreAddress :=
  c.rtcp.or (c.rsock.map StoreAddress.localSocket)

/-! ## Values -/

/-- A port, read as any number first. -/
def readPort (text : String) : Except UsageProblem Nat :=
  match Text.Decimal.readInt text.toList with
  | .error e => .error (.badValue e.message)
  | .ok n =>
    if 1 ≤ n ∧ n ≤ Text.Decimal.max16 then .ok n.toNat
    else .error (.badValue (toString n ++ " is not in 1..=65535"))

def readNumber (text : String) : Except UsageProblem Nat :=
  (Text.Decimal.readNat Text.Decimal.max64 text.toList).mapError fun e => .badValue e.message

def readAddress (text : String) : Except UsageProblem Address :=
  match Address.parse? text with
  | some address => .ok address
  | none => .error (.badValue "invalid IP address syntax")

def readPath (text : String) : Except UsageProblem (Option String) :=
  if text = "" then .error .invalidValue else .ok (some text)

def readTcp (text : String) : Except UsageProblem (Option StoreAddress) :=
  ((StoreAddress.parseTcp text).map some).mapError fun e => .badValue e.message

def assign (a : Argument) (value : String) (c : CommandLine) : Except UsageProblem CommandLine :=
  match a with
  | .ip => (readAddress value).map fun ip => { c with ip }
  | .port => (readPort value).map fun port => { c with port }
  | .log => (readPath value).map fun log => { c with log }
  | .rsock => (readPath value).map fun rsock => { c with rsock }
  | .rtcp => (readTcp value).map fun rtcp => { c with rtcp }
  | .cert => (readPath value).map fun cert => { c with cert }
  | .key => (readPath value).map fun key => { c with key }
  | .ca => (readPath value).map fun ca => { c with ca }
  | .maxObject => (readNumber value).map fun maxObject => { c with maxObject }
  | .timeout => (readNumber value).map fun timeout => { c with timeout }
  | .oneThread => .ok { c with oneThread := true }
  | .writeOnce => .ok { c with writeOnce := true }
  | .bar => .ok { c with bar := true }
  | .stats => .ok { c with stats := true }
  | .help => .error .help
  | .version => .error .version

def put (a : Argument) (value : String) (c : CommandLine) : Except UsageProblem CommandLine :=
  if c.given.contains a then .error .conflict
  else assign a value { c with given := a :: c.given }

/-! ## Arguments -/

structure Progress where
  line : CommandLine := {}
  /-- An option that waits to be settled, with its value once that has come. -/
  pending : Option (Argument × Option String) := none

namespace Progress

def settle (p : Progress) : Except UsageProblem Progress :=
  match p.pending with
  | none => .ok p
  | some (_, none) => .error .invalidValue
  | some (a, some value) => (p.line.put a value).map fun line => ⟨line, none⟩

def put (a : Argument) (value : String) (p : Progress) : Except UsageProblem Progress := do
  let p ← p.settle
  let line ← p.line.put a value
  return ⟨line, none⟩

def expect (a : Argument) (p : Progress) : Except UsageProblem Progress := do
  let p ← p.settle
  return { p with pending := some (a, none) }

def awaitsValue (p : Progress) : Bool :=
  match p.pending with
  | some (_, none) => true
  | _ => false

def supply (value : String) (p : Progress) : Progress :=
  { p with pending := p.pending.map fun (a, _) => (a, some value) }

end Progress

def readLong (name : List Char) (value : Option (List Char)) (p : Progress) :
    Except UsageProblem Progress :=
  match Argument.ofLong? name, value with
  | none, _ => .error .unknownArgument
  | some a, some value =>
    if a.takesValue then p.put a (String.ofList value) else .error .tooManyValues
  | some a, none => if a.takesValue then p.expect a else p.put a ""

/-- Short options behind one dash; the first that takes a value takes all that follows it. -/
def readShort : List Char → Progress → Except UsageProblem Progress
  | [], p => .ok p
  | c :: text, p =>
    match Argument.ofShort? c with
    | none => .error .unknownArgument
    | some a =>
      if a.takesValue then
        match text with
        | [] => p.expect a
        | '=' :: value => p.put a (String.ofList value)
        | value => p.put a (String.ofList value)
      else do
        let p ← p.put a ""
        readShort text p

def splitEquals (text : List Char) : List Char × Option (List Char) :=
  (text.takeWhile (· ≠ '='),
    match text.dropWhile (· ≠ '=') with
    | [] => none
    | _ :: value => some value)

/-- Reads arguments one by one. Behind two dashes there are no options, and nothing else is known
either. -/
def readAll : List String → Progress → Except UsageProblem Progress
  | [], p => .ok p
  | text :: texts, p =>
    match text.toList with
    | ['-', '-'] => if texts = [] then .ok p else .error .unknownArgument
    | '-' :: '-' :: long => do
      let (name, value) := splitEquals long
      readAll texts (← readLong name value p)
    | '-' :: c :: short => do readAll texts (← readShort (c :: short) p)
    | _ => if p.awaitsValue then readAll texts (p.supply text) else .error .unknownArgument

/-! ## All together -/

def lacks (c : CommandLine) (a other : Argument) : Bool :=
  c.given.contains a && !c.given.contains other

def check (c : CommandLine) : Except UsageProblem Unit :=
  if c.given.contains .rsock && c.given.contains .rtcp then .error .conflict
  else if !c.given.contains .port || !(c.given.contains .rsock || c.given.contains .rtcp) ||
      c.lacks .cert .key || c.lacks .key .cert || c.lacks .ca .cert then
    .error .missingRequired
  else .ok ()

def parse (arguments : List String) : Except UsageProblem CommandLine := do
  let p ← readAll arguments {}
  let p ← p.settle
  p.line.check
  return p.line

end CommandLine

end Depot
