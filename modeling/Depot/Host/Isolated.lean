import Depot.Host

/-! # An isolated machine

A machine with the usual directories, some devices, and no network. Streams lead nowhere unless
they are set up by hand, and clients do not get through. Ports below 1024 are for the
administrator; the service may take any other, on any address of the short family, embedded ones
too, and of the long one on the address that stands for all. -/

namespace Depot.Host.Isolated

/-! ## Files -/

inductive Node where
  /-- A device, empty for those who read it. -/
  | device
  | directory (entries : List (String × Node))

abbrev Directory := List (String × Node)

def empty : Node := .directory []

def top : Directory :=
  [("dev", .directory
      [("null", .device), ("zero", .device), ("full", .device), ("random", .device),
       ("urandom", .device), ("tty", .device), ("pts", empty), ("shm", empty)]),
   ("tmp", empty), ("etc", empty), ("proc", empty), ("sys", empty), ("home", empty),
   ("root", empty), ("opt", empty), ("run", empty), ("srv", empty), ("mnt", empty),
   ("media", empty), ("boot", empty), ("bin", empty), ("sbin", empty), ("lib", empty),
   ("lib64", empty),
   ("usr", .directory
      [("bin", empty), ("sbin", empty), ("lib", empty), ("lib64", empty), ("share", empty),
       ("include", empty), ("src", empty),
       ("local", .directory
         [("bin", empty), ("sbin", empty), ("lib", empty), ("share", empty), ("etc", empty)])]),
   ("var", .directory
      [("tmp", empty), ("log", empty), ("lib", empty), ("cache", empty), ("spool", empty)])]

inductive Place where
  | directory
  | device
  | vacant
  | refused (cause : SystemError)
  deriving Repr, DecidableEq

def maxName : Nat := 255

/-- The bytes of the longest path, and one more. -/
def pathRoom : Nat := 4096

/-- Walks along names from a directory, with the directories above it at hand. There is nothing
above the top, and a device has no names below it, not even an empty one. -/
def walk (here : Directory) (above : List Directory) : List String → Place
  | [] => .directory
  | name :: names =>
    if name = "" ∨ name = "." then walk here above names
    else if name = ".." then
      match above with
      | [] => walk here [] names
      | parent :: above => walk parent above names
    else if maxName < name.utf8ByteSize then .refused .nameTooLong
    else
      match here.lookup name with
      | some (.directory entries) => walk entries (here :: above) names
      | some .device => if names = [] then .device else .refused .notDirectory
      | none => if names = [] then .vacant else .refused .notFound

def pieces (mark : Char) : List Char → List (List Char)
  | [] => [[]]
  | c :: text =>
    if c = mark then [] :: pieces mark text
    else
      match pieces mark text with
      | [] => [[c]]
      | piece :: others => (c :: piece) :: others

def namesOf (text : List Char) : List String := (pieces '/' text).map String.ofList

/-- What a path leads to, from the top or from the directory of the service. -/
def place (path : String) : Place :=
  if pathRoom ≤ path.utf8ByteSize then .refused .nameTooLong
  else
    match path.toList with
    | '/' :: text => walk top [] (namesOf text)
    | text => walk [] [top] (namesOf text)

def named {α : Type} (path : String) (act : Except SystemError α) : Except Fault α :=
  if path.toList.contains '\x00' then .error .zeroInName else act.mapError .system

def readFile (path : String) : Except Fault Bytes :=
  named path <|
    match place path with
    | .device => .ok []
    | .directory => .error .isDirectory
    | .vacant => .error .notFound
    | .refused cause => .error cause

def withoutSlashes (path : String) : String :=
  String.ofList (path.toList.reverse.dropWhile (· = '/')).reverse

/-- Opens a file, new if there is none. A slash behind its name asks for a directory, which no file
is. -/
def openLog (path : String) : Except Fault Unit :=
  named path <|
    match place (withoutSlashes path) with
    | .refused cause => .error cause
    | .directory => .error .isDirectory
    | .device | .vacant => if withoutSlashes path = path then .ok () else .error .isDirectory

/-! ## Streams -/

/-- The bytes of the longest path of a socket, and one more. -/
def socketPathRoom : Nat := 108

/-- Why no stream leads to a socket. One whose path starts with a zero has a name and no place. -/
def socketRefusal (path : String) : Fault :=
  match path.toList with
  | [] | ['\x00'] => .system .invalidArgument
  | '\x00' :: _ =>
    if socketPathRoom < path.utf8ByteSize then .longSocketName else .system .connectionRefused
  | text =>
    if text.contains '\x00' then .zeroInPath
    else if socketPathRoom ≤ path.utf8ByteSize then .longPath
    else
      match place path with
      | .directory | .device => .system .connectionRefused
      | .vacant => .system .notFound
      | .refused cause => .system cause

def firstGroup : Address → Option Nat
  | .v4 .. => none
  | .v6 groups => some (groups.toList.headD 0).toNat

def isMulticast (address : Address) : Bool := (firstGroup address).any fun n => n / 0x100 == 0xFF

def isLocalToLine (address : Address) : Bool :=
  (firstGroup address).any fun n => n / 0x40 == 0x3FA

def maxShort : Nat := 0xFFFFFFFF

/-- The number that digits of a base spell, if they spell one that is not too large. -/
def valueOf? (base : Nat) (digits : List Char) : Option Nat :=
  if digits = [] then none
  else
    digits.foldlM
      (fun n c => do
        let d ← Address.hexValue? c
        if d < base ∧ n * base + d ≤ maxShort then some (n * base + d) else none)
      0

/-- A number as hosts are written in: behind a zero in base eight, behind a zero and an x in base
sixteen. -/
def number? : List Char → Option Nat
  | '0' :: 'x' :: digits => valueOf? 16 digits
  | '0' :: 'X' :: digits => valueOf? 16 digits
  | '0' :: d :: digits => valueOf? 8 (d :: digits)
  | digits => valueOf? 10 digits

/-- Whether a host is a short address in one to four numbers, the last of which makes up for those
that are left out. -/
def isNumbered (host : String) : Bool :=
  match (pieces '.' host.toList).mapM number? with
  | some [_] => true
  | some [a, b] => a < 0x100 && b < 0x1000000
  | some [a, b, c] => a < 0x100 && b < 0x100 && c < 0x10000
  | some [a, b, c, d] => a < 0x100 && b < 0x100 && c < 0x100 && d < 0x100
  | _ => false

/-- Why no stream leads to a host: no address is in reach, and the name of a host is not resolved,
other than the one of the machine itself. -/
def hostRefusal (host : String) : Fault :=
  match Address.parse? host with
  | some address =>
    .system (if isLocalToLine address then .invalidArgument else .networkUnreachable)
  | none =>
    if host.toList.contains '\x00' then .zeroInName
    else if isNumbered host || host.map Char.toLower == "localhost" then
      .system .networkUnreachable
    else .unresolved

def refusal : StoreAddress → Fault
  | .remote host _ => hostRefusal host
  | .localSocket path => socketRefusal path

/-! ## Ports -/

def owns (address : Address) : Bool :=
  match address.canonical with
  | .v4 .. => true
  | .v6 groups => groups.toList.all (· == 0)

def bind (address : Address) (port : Nat) : Except SystemError Unit :=
  if isMulticast address then .error .invalidArgument
  else if 0 < port ∧ port < 1024 then .error .accessDenied
  else if isLocalToLine address then .error .invalidArgument
  else if owns address then .ok ()
  else .error .addressNotAvailable

def host {π : Type} (streams : List (StoreAddress × π)) : Host π where
  readFile := readFile
  openLog := openLog
  dial d :=
    match streams.lookup d with
    | some peer => .ok peer
    | none => .error (refusal d)
  bind := bind
  reachable := false

end Depot.Host.Isolated
