/-! # Request methods

The methods that requests may use; a request with any other is turned away. -/

namespace Depot.Http

inductive Method where
  | get
  | post
  | put
  | delete
  | options
  deriving Repr, DecidableEq

namespace Method

def name : Method → String
  | .get => "GET"
  | .post => "POST"
  | .put => "PUT"
  | .delete => "DELETE"
  | .options => "OPTIONS"

/-- The method of a name, which is matched with its case. -/
def ofName? (name : String) : Option Method :=
  [get, post, put, delete, options].find? fun m => m.name == name

end Method

end Depot.Http
