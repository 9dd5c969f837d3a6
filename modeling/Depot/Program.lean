import Depot.Operation

/-! # The program

What the program does with a command line, up to its exit code. Help and version go to the standard
output and are no failures; whatever else stops the program makes it fail. -/

namespace Depot.Program

def version : String := "webstore 0.3.0\n"

def usageOf (a : Argument × String × Option Char) : String :=
  let (option, long, short) := a
  "  " ++ short.elim "    " (fun c => "-" ++ String.ofList [c] ++ ", ") ++ "--" ++ long ++
    (if option.takesValue then " <VALUE>" else "") ++ "\n"

def help : String :=
  "content addressed http storage gateway\n\nUsage: webstore [OPTIONS] --port <VALUE> " ++
    "<--rsock <VALUE>|--rtcp <VALUE>>\n\nOptions:\n" ++ String.join (Argument.names.map usageOf)

def usageError : UsageProblem → String
  | .help => help
  | .version => version
  | .missingRequired => "error: required arguments were not provided\n"
  | .conflict => "error: arguments cannot be used together, or more than once\n"
  | .unknownArgument => "error: unexpected argument found\n"
  | .invalidValue => "error: a value is required but none was supplied\n"
  | .tooManyValues => "error: unexpected value found\n"
  | .badValue reason => "error: invalid value: " ++ reason ++ "\n"

structure Exit where
  code : Nat
  stdout : String := ""
  stderr : String := ""
  log : List Event := []

def refuse (p : UsageProblem) : Exit :=
  if p.isFailure then { code := 1, stderr := usageError p }
  else { code := 0, stdout := usageError p }

def openLog {π : Type} (host : Host π) (c : CommandLine) : Except Exit Unit :=
  match c.log with
  | none => .ok ()
  | some path =>
    (host.openLog path).mapError fun cause =>
      { code := 1
        stderr := "webstore: cannot open log file " ++ path ++ ": " ++ cause.message ++ "\n" }

def settle {π : Type} (host : Host π) (env : String → Option String) (c : CommandLine) :
    Except Exit (Setup × List Event) :=
  let derived := Setup.derive host env c
  match derived.result with
  | .ok s => .ok (s, derived.log)
  | .error e =>
    .error { code := 1
             log := derived.log ++ [.error "invalid configuration" [("cause", e.message)]] }

def run {π : Type} [Peer π] (host : Host π) (env : String → Option String)
    (arguments : List String) (clients : List Operation.Client) :
    Except Exit (Operation.Ended × Service (Link π) × Exit) := do
  let c ← (CommandLine.parse arguments).mapError refuse
  openLog host c
  let (s, log) ← settle host env c
  let (ended, service) := Operation.run host s clients
  return (ended, service, { code := ended.exitCode, log := log ++ service.log ++ ended.log })

/-- The exit code if a program that still runs meets a signal in the end. A signal that the service
does not wait for leaves no code. -/
def codeAfter {α : Type} (signal : Nat) : Except Exit (Operation.Ended × α × Exit) → Option Nat
  | .error e => some e.code
  | .ok ({ result := .ok .signal, .. }, _, e) =>
    if Operation.stopSignals.contains signal then some e.code else none
  | .ok (_, _, e) => some e.code

def exitOf {α β : Type} : Except Exit (α × β × Exit) → Exit
  | .error e => e
  | .ok (_, _, e) => e

end Depot.Program
