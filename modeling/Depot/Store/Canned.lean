import Depot.Store.Basic

/-! # A store with canned answers

Gives a list of answers, one per command, whatever is asked, and keeps what was asked. When the
list is used up it is not connected. -/

namespace Depot

structure Canned where
  answers : List Answer
  asked : List Resp.Command := []

namespace Canned

def carryOut (c : Resp.Command) (r : Canned) : Answer × Canned :=
  match r.answers with
  | [] => (.error .noLink, { r with asked := r.asked ++ [c] })
  | answer :: answers => (answer, ⟨answers, r.asked ++ [c]⟩)

instance : Store Canned where
  carryOut c := modifyGet fun s =>
    let (answer, store) := s.store.carryOut c
    (answer, { s with store })

end Canned

end Depot
