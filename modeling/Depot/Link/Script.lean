import Depot.Link

/-! # Peers that follow a script

A script says, command by command, what a peer writes and whether it hangs up. At the end of its
script a peer hears one more command and hangs up. -/

namespace Depot

structure Script where
  entries : List (List Delivery)
  deriving Repr, DecidableEq

namespace Script

/-- What a peer does: nothing comes behind a hang-up. -/
def hear (_ : Bytes) (s : Script) : List Delivery × Script :=
  match s.entries with
  | [] => ([.hangUp], s)
  | entry :: entries => (entry, ⟨entries⟩)

instance : Peer Script where
  hear := hear

end Script

end Depot
