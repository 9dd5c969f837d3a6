import Depot.Proofs.Store.Interleaving

/-! # What a dialogue says to a store

A store can be taped: what it is asked and what it answers is written down, and nothing else changes
(`run_taped`). What a dialogue heeds, whatever it hears, can be read off the tape of any store
(`Heeds.told`). -/

namespace Depot

open Resp (Command)

/-- A store with a tape running. -/
structure Taped (σ : Type) where
  store : σ
  /-- The commands and their answers, oldest first. -/
  tape : List (Command × Answer) := []

namespace Service

variable {σ : Type}

def taped (s : Service σ) : Service (Taped σ) := { s with store := { store := s.store } }

def untaped (s : Service (Taped σ)) : Service σ := { s with store := s.store.store }

end Service

instance {σ : Type} [Store σ] : Store (Taped σ) where
  carryOut c := fun s =>
    let (answer, service) := Store.carryOut c s.untaped
    (answer, { service with store := ⟨service.store, s.store.tape ++ [(c, answer)]⟩ })

namespace Dialogue

variable {α σ : Type} [Store σ]

theorem run_untaped (x : Dialogue α) (s : Service (Taped σ)) :
    x.run s.untaped = ((x.run s).1, (x.run s).2.untaped) := by
  induction x generalizing s with
  | done a => rfl
  | note event next ih => exact ih { s with events := event :: s.events }
  | ask command next ih =>
    exact ih (Store.carryOut command s).1 (Store.carryOut command s).2

/-- A tape changes nothing. -/
theorem run_taped (x : Dialogue α) (s : Service σ) :
    x.run s = ((x.run s.taped).1, (x.run s.taped).2.untaped) :=
  run_untaped x s.taped

/-- A tape that goes on from some answers: each command on it is allowed after the answers before
it, and so is the result after all of them. -/
inductive Told (asks : List Answer → Command → Prop) (ends : List Answer → α → Prop) :
    List Answer → List (Command × Answer) → α → Prop
  | done {heard : List Answer} {a : α} : ends heard a → Told asks ends heard [] a
  | ask {heard : List Answer} {command : Command} {answer : Answer}
      {tape : List (Command × Answer)} {a : α} :
      asks heard command → Told asks ends (heard ++ [answer]) tape a →
      Told asks ends heard ((command, answer) :: tape) a

variable {asks : List Answer → Command → Prop} {ends : List Answer → α → Prop}
  {heard : List Answer}

theorem Heeds.told_after {x : Dialogue α} (h : x.Heeds asks ends heard) (s : Service (Taped σ)) :
    ∃ tape, (x.run s).2.store.tape = s.store.tape ++ tape ∧ Told asks ends heard tape (x.run s).1 := by
  induction x generalizing heard s with
  | done a => exact ⟨[], (List.append_nil _).symm, .done h⟩
  | note event next ih => exact ih h _
  | ask command next ih =>
    obtain ⟨tape, htape, htold⟩ := ih _ (h.2 _) _
    exact ⟨_ :: tape, htape.trans (List.append_assoc ..), .ask h.1 htold⟩

theorem Heeds.told {x : Dialogue α} (h : x.Heeds asks ends []) (s : Service σ) :
    Told asks ends [] (x.run s.taped).2.store.tape (x.run s.taped).1 := by
  obtain ⟨tape, htape, htold⟩ := h.told_after s.taped
  rwa [htape]

end Dialogue

end Depot
