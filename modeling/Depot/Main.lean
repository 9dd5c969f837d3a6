import Depot.Link.Script
import Depot.Program

/-! # Entry point

Looks up what the program may ask of the machine, runs it and writes what it reported. Streams to a
store are not offered here, so a start that gets that far ends with the link. -/

namespace Depot.Machine

def faultOf : IO.Error → Fault
  | .permissionDenied .. => .system .accessDenied
  | .inappropriateType .. => .system .isDirectory
  | _ => .system .notFound

def attempt {α : Type} (act : IO α) : IO (Except Fault α) := do
  try
    return .ok (← act)
  catch e => return .error (faultOf e)

def content (path : String) : IO (String × Except Fault Bytes) := do
  let read ← attempt (IO.FS.readBinFile path)
  return (path, read.map fun bytes => bytes.toList)

/-- A machine on which the given files were looked up. -/
def hostOf (files : List (String × Except Fault Bytes))
    (log : Except Fault Unit) : Host Script :=
  { readFile := fun path => (files.lookup path).getD (.error (.system .notFound))
    openLog := fun _ => log
    dial := fun _ => .error .unsupported
    bind := fun _ _ => .error .accessDenied }

def writeLog (file : Option String) (events : List Event) : IO Unit := do
  let text := String.join (events.map fun e => e.render ++ "\n")
  match file with
  | none => (← IO.getStderr).putStr text
  | some path =>
    if let .ok handle ← attempt (IO.FS.Handle.mk path .append) then handle.putStr text

end Depot.Machine

open Depot in
def main (arguments : List String) : IO UInt32 := do
  let line := (CommandLine.parse arguments).toOption
  let logPath := line.bind CommandLine.log
  let paths := [line.bind CommandLine.cert, line.bind CommandLine.key, line.bind CommandLine.ca]
  let files ← (paths.filterMap id).mapM Machine.content
  let log ← match logPath with
    | none => pure (.ok ())
    | some path => Machine.attempt (do let _ ← IO.FS.Handle.mk path .append)
  let names := ["REQPERIOD", "REQCOUNT", "EXPIRATION"]
  let values ← names.mapM fun name => do return (name, ← IO.getEnv name)
  let env := fun name => (values.lookup name).join
  let exit := Program.exitOf (Program.run (Machine.hostOf files log) env arguments [])
  IO.print exit.stdout
  IO.eprint exit.stderr
  Machine.writeLog logPath exit.log
  return UInt32.ofNat exit.code
