import Depot.Address
import Depot.StoreAddress
import Depot.Fault

/-! # The host

What the service asks of the machine it runs on. -/

namespace Depot

/-- A machine on which stores are peers of type `π`. -/
structure Host (π : Type) where
  readFile : String → Except Fault Bytes
  openLog : String → Except Fault Unit
  dial : StoreAddress → Except Fault π
  bind : Address → Nat → Except SystemError Unit
  /-- Whether clients get through to ports that were taken. -/
  reachable : Bool := true

end Depot
