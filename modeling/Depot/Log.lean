/-! # Log

What the service reports while it works: a level, a sentence and named fields, in the order in
which they were reported. -/

namespace Depot

inductive Level where
  | info
  | warn
  | error
  deriving Repr, DecidableEq

def Level.label : Level → String
  | .info => "INFO"
  | .warn => "WARN"
  | .error => "ERROR"

structure Event where
  level : Level
  text : String
  /-- Names and values, in the order in which they are written. -/
  fields : List (String × String) := []
  deriving Repr, DecidableEq

namespace Event

def info (text : String) (fields : List (String × String)) : Event := ⟨.info, text, fields⟩
def warn (text : String) (fields : List (String × String)) : Event := ⟨.warn, text, fields⟩
def error (text : String) (fields : List (String × String)) : Event := ⟨.error, text, fields⟩

/-- Level and sentence, then each field as `name=value`, all set apart by one blank. -/
def render (event : Event) : String :=
  event.fields.foldl (fun line (name, value) => line ++ " " ++ name ++ "=" ++ value)
    (event.level.label ++ " " ++ event.text)

end Event

end Depot
