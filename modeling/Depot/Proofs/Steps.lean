import Mathlib.Data.List.Basic

/-! # Steps that may fail

What is done in two steps has both of them done, or the fault of one. What is done for one after
another of a list fails as the first does that fails (`mapM_eq_error_iff`). -/

namespace Depot

variable {α β ε : Type}

/-! ## Two steps -/

section

variable {x : Except ε α} {a : α} {b : β} {e : ε}

theorem exists_ok_of_bind {f : α → Except ε β} (h : x >>= f = .ok b) :
    ∃ a, x = .ok a ∧ f a = .ok b := by
  cases x with
  | error e => cases h
  | ok a => exact ⟨a, rfl, h⟩

theorem bind_eq_error_iff {f : α → Except ε β} :
    x >>= f = .error e ↔ x = .error e ∨ ∃ a, x = .ok a ∧ f a = .error e := by
  cases x <;> simp [bind, Except.bind]

theorem exists_ok_of_map {f : α → β} (h : x.map f = .ok b) : ∃ a, x = .ok a ∧ f a = b := by
  cases x with
  | error e => cases h
  | ok a => exact ⟨a, rfl, Except.ok.inj h⟩

theorem toOption_eq_some_iff : x.toOption = some a ↔ x = .ok a := by
  cases x <;> simp [Except.toOption]

end

/-! ## One after another -/

/-- The first of a list that is bad. -/
def FirstOf (bad : α → Prop) (as : List α) (a : α) : Prop :=
  ∃ before after, as = before ++ a :: after ∧ bad a ∧ ∀ other ∈ before, ¬bad other

variable {bad : α → Prop} {a first : α} {as : List α} {e : ε}

theorem not_firstOf_nil : ¬FirstOf bad [] first := by
  rintro ⟨before, after, hsplit, -⟩
  exact absurd hsplit.symm (List.append_ne_nil_of_right_ne_nil before (List.cons_ne_nil _ _))

theorem firstOf_cons :
    FirstOf bad (a :: as) first ↔ bad a ∧ first = a ∨ ¬bad a ∧ FirstOf bad as first := by
  constructor
  · rintro ⟨before, after, hsplit, hbad, hbefore⟩
    cases before with
    | nil =>
      obtain ⟨rfl, -⟩ := List.cons.inj hsplit
      exact .inl ⟨hbad, rfl⟩
    | cons other before =>
      obtain ⟨rfl, hrest⟩ := List.cons.inj hsplit
      rw [List.forall_mem_cons] at hbefore
      exact .inr ⟨hbefore.1, before, after, hrest, hbad, hbefore.2⟩
  · rintro (⟨hbad, rfl⟩ | ⟨hgood, before, after, rfl, hbad, hbefore⟩)
    · exact ⟨[], as, rfl, hbad, nofun⟩
    · exact ⟨a :: before, after, rfl, hbad, List.forall_mem_cons.mpr ⟨hgood, hbefore⟩⟩

/-- There is a first unless all are good. -/
theorem exists_firstOf : (∃ first, FirstOf bad as first) ↔ ∃ a ∈ as, bad a := by
  induction as with
  | nil => exact iff_of_false (fun ⟨_, h⟩ => not_firstOf_nil h) nofun
  | cons a as ih =>
    simp only [firstOf_cons, exists_or, exists_and_left, ih, exists_eq, and_true,
      List.exists_mem_cons_iff]
    by_cases ha : bad a <;> simp [ha]

/-- What is done for one after another fails as the first does that fails. -/
theorem mapM_eq_error_iff {f : α → Except ε β} (hbad : ∀ a, bad a ↔ ∃ e, f a = .error e) :
    as.mapM f = .error e ↔ ∃ first, FirstOf bad as first ∧ f first = .error e := by
  induction as with
  | nil =>
    refine iff_of_false nofun ?_
    rintro ⟨first, hfirst, -⟩
    exact not_firstOf_nil hfirst
  | cons a as ih =>
    simp only [firstOf_cons, hbad a, List.mapM_cons, bind_eq_error_iff]
    cases ha : f a with
    | error e' => simp [ha]
    | ok b => simp [ih, pure, Except.pure]

end Depot
