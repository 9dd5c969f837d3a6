import Depot.Store.Basic

/-! # Dialogues with the store

Work that needs the store is written as a dialogue: it asks one command at a time, goes on with
the answer, and says what is to be logged on the way. What it asks depends on nothing but the
answers, so a dialogue can be run on any store, and several can take turns on one. -/

namespace Depot

/-- Work with the store, up to its result. -/
inductive Dialogue (α : Type) where
  | done (a : α)
  | note (event : Event) (next : Dialogue α)
  | ask (command : Resp.Command) (next : Answer → Dialogue α)

namespace Dialogue

variable {α β σ : Type}

def bind : Dialogue α → (α → Dialogue β) → Dialogue β
  | .done a, k => k a
  | .note event next, k => .note event (next.bind k)
  | .ask command next, k => .ask command fun answer => (next answer).bind k

instance : Monad Dialogue where
  pure := .done
  bind := bind

def report (event : Event) : Dialogue Unit := .note event (.done ())

def send (command : Resp.Command) : Dialogue Answer := .ask command .done

def run [Store σ] : Dialogue α → StateM (Service σ) α
  | .done a => pure a
  | .note event next => do
    Service.report event
    next.run
  | .ask command next => do
    let answer ← Store.carryOut command
    (next answer).run

end Dialogue

end Depot
