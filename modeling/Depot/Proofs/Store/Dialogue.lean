import Depot.Store.Dialogue
import Depot.Store.Volatile

/-! # What dialogues come to

Some things hold of a dialogue's result whatever the store answers (`Always`). On one store a
dialogue often comes to one result and leaves one store behind, whatever was logged before, and the
stop flag stays as it is (`Reaches`): only a store that loses its link raises it. -/

namespace Depot.Dialogue

variable {α β : Type}

/-! ## On any store -/

/-- Whatever is answered, the result is as `Q` says. -/
def Always (Q : α → Prop) : Dialogue α → Prop
  | .done a => Q a
  | .note _ next => next.Always Q
  | .ask _ next => ∀ answer, (next answer).Always Q

section

variable {Q : α → Prop}

theorem Always.bind {R : β → Prop} {x : Dialogue β} {k : β → Dialogue α} (h : x.Always R)
    (hk : ∀ b, R b → (k b).Always Q) : (x >>= k).Always Q := by
  induction x with
  | done b => exact hk b h
  | note event next ih => exact ih h
  | ask command next ih => exact fun answer => ih answer (h answer)

theorem always_report {k : Unit → Dialogue α} (event : Event) (h : (k ()).Always Q) :
    (report event >>= k).Always Q := h

theorem always_send {k : Answer → Dialogue α} (command : Resp.Command)
    (h : ∀ answer, (k answer).Always Q) : (send command >>= k).Always Q := h

/-- A dialogue that ends, as it does on every store, ends with such a result. -/
theorem Always.run {σ : Type} [Store σ] {x : Dialogue α} (h : x.Always Q) (s : Service σ) :
    Q (x.run s).1 := by
  induction x generalizing s with
  | done a => exact h
  | note event next ih => exact ih h _
  | ask command next ih => exact ih _ (h _) _

end

/-! ## On one store -/

section

variable {σ : Type} [Store σ]

/-- What a dialogue comes to on a store: the result, and the store after it. -/
def Reaches (x : Dialogue α) (m : σ) (a : α) (m' : σ) : Prop :=
  ∀ flag events, ∃ events',
    x.run (⟨m, flag, events⟩ : Service σ) = (a, ⟨m', flag, events'⟩)

variable {m m₁ m' : σ} {a : α}

theorem reaches_pure (a : α) (m : σ) : Reaches (pure a) m a m :=
  fun _ events => ⟨events, rfl⟩

/-- A report goes to the log only. -/
theorem reaches_report {k : Unit → Dialogue α} (event : Event) (h : Reaches (k ()) m a m') :
    Reaches (report event >>= k) m a m' :=
  fun flag events => h flag (event :: events)

theorem run_bind (x : Dialogue β) (k : β → Dialogue α) (s : Service σ) :
    (x >>= k).run s = (k (x.run s).1).run (x.run s).2 := by
  induction x generalizing s with
  | done b => rfl
  | note event next ih => exact ih _
  | ask c next ih => exact ih _ _

/-- A dialogue in front of another one runs before it. -/
theorem Reaches.bind {x : Dialogue β} {k : β → Dialogue α} {b : β} (hx : Reaches x m b m₁)
    (h : Reaches (k b) m₁ a m') : Reaches (x >>= k) m a m' := by
  intro flag events
  obtain ⟨events₁, hrun⟩ := hx flag events
  rw [run_bind, hrun]
  exact h flag events₁

end

/-! The store in memory does nothing but carry out the command. -/

variable {m m₁ m' : Volatile} {a : α} {c : Resp.Command} {answer : Answer}

theorem reaches_carried (hc : m.carryOut c = (answer, m₁)) : Reaches (send c) m answer m₁ := by
  intro flag events
  refine ⟨events, ?_⟩
  have hstep : (send c).run (⟨m, flag, events⟩ : Service Volatile) =
      ((m.carryOut c).1, ⟨(m.carryOut c).2, flag, events⟩) := rfl
  rw [hstep, hc]

/-- A command is carried out, and its answer decides how to go on. -/
theorem reaches_send {k : Answer → Dialogue α} (hc : m.carryOut c = (answer, m₁))
    (h : Reaches (k answer) m₁ a m') : Reaches (send c >>= k) m a m' :=
  (reaches_carried hc).bind h

end Depot.Dialogue
