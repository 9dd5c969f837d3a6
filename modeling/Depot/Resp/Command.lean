import Depot.Resp.Value

/-! # Store commands

A command is a name and arguments that may hold any bytes. On the wire it is an array of bulk
strings, so no argument can end early or run into the next. -/

namespace Depot.Resp

structure Command where
  name : String
  args : List Bytes
  deriving Repr, DecidableEq

namespace Command

def encode (c : Command) : Bytes :=
  line '*' (Text.Decimal.encode (c.args.length + 1)) ++
    bulkForm (Text.Utf8.encode c.name) ++ c.args.flatMap bulkForm

/-- The name and the first argument; the others may be large. -/
def summary (c : Command) : String :=
  match c.args with
  | [] => c.name
  | key :: _ => c.name ++ " " ++ Text.Utf8.lossy key

def describe (c : Command) : String :=
  c.args.foldl (fun text arg => text ++ " " ++ Text.Utf8.lossy arg) c.name

/-- The command a store reads off a value: an array of bulk strings, of which the first is the
name. -/
def ofValue? : Value → Option Command
  | .array (.bulk name :: args) => do
    let args ← args.mapM fun arg =>
      match arg with
      | .bulk bytes => some bytes
      | _ => none
    return ⟨Text.Utf8.lossy name, args⟩
  | _ => none

end Command

end Depot.Resp
