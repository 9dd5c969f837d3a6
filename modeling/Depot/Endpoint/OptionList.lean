import Depot.Endpoint.Basic
import Depot.Options

/-! # The option list

Tells clients the storage options, each under its name or all of them at once. -/

namespace Depot.Endpoint.OptionList

def route : String := "/config/"

def digit (b : Bool) : String := if b then "1" else "0"

/-- The options by the names under which they are asked for, each with its line. -/
def lines (o : Options) : List (String × String) :=
  [("maxuploadsize", "MAXUPLOADSIZE: " ++ toString o.maxObject ++ " bytes\n"),
   ("expiration", "EXPIRATION: " ++ toString o.lifetime ++ " seconds\n"),
   ("immutable", "IMMUTABLE: " ++ digit o.writeOnce ++ "\n"),
   ("bar", "BAR: " ++ digit o.readOnce ++ "\n")]

def render (o : Options) (name : String) : String :=
  String.join (((lines o).filter fun line => name = "all" ∨ name = line.1).map Prod.snd)

def endpoint (o : Options) : Endpoint := fun flag remainder r =>
  if flag.isRaised then return .goingDown
  else
    match r.method with
    | .get =>
      let text := render o remainder
      return if text = "" then .plain .notFound ("Unknown Config Option: " ++ remainder ++ "\n")
        else .plain .ok text
    | _ => refuseMethod r "GET"

end Depot.Endpoint.OptionList
