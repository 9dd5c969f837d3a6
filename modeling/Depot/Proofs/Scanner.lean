import Mathlib.Data.List.TakeWhile
import Depot.Scanner

/-! # Scanners on growing buffers

A scanner is incremental if what it says of a buffer stands once more bytes lie behind it: a value
stays the same value, with the new bytes behind the old rest, and a fault stays the same fault. A
value that only the new bytes complete reaches into them. A scanner is delimited if in addition
every value ends with a byte of its own. Both are kept by putting scanners one behind the other. -/

namespace Depot

namespace Scanner

variable {ε α β : Type} {p p' : Scanner ε α} {q q' : α → Scanner ε β}

theorem bind_apply (p : Scanner ε α) (q : α → Scanner ε β) (b : Bytes) :
    (p >>= q) b = match p b with
      | .value a rest => q a rest
      | .more => .more
      | .fault e => .fault e := rfl

/-- A bind that reads a value has read the two parts of it. -/
theorem bind_value {b : Bytes} {c : β} {rest : Bytes} (h : (p >>= q) b = .value c rest) :
    ∃ a r, p b = .value a r ∧ q a r = .value c rest := by
  rw [bind_apply] at h
  cases hp : p b with
  | value a r => rw [hp] at h; exact ⟨a, r, rfl, h⟩
  | more => rw [hp] at h; cases h
  | fault e => rw [hp] at h; cases h

/-- A bind wants more bytes for its first part or for its second. -/
theorem bind_more {b : Bytes} (h : (p >>= q) b = .more) :
    p b = .more ∨ ∃ a r, p b = .value a r ∧ q a r = .more := by
  rw [bind_apply] at h
  cases hp : p b with
  | value a r => rw [hp] at h; exact .inr ⟨a, r, rfl, h⟩
  | more => exact .inl rfl
  | fault e => rw [hp] at h; cases h

/-- A bind fails in its first part or in its second. -/
theorem bind_fault {b : Bytes} {e : ε} (h : (p >>= q) b = .fault e) :
    p b = .fault e ∨ ∃ a r, p b = .value a r ∧ q a r = .fault e := by
  rw [bind_apply] at h
  cases hp : p b with
  | value a r => rw [hp] at h; exact .inr ⟨a, r, rfl, h⟩
  | more => rw [hp] at h; cases h
  | fault e' => rw [hp] at h; exact .inl (by simpa using h)

/-- What the scanner says of a buffer stands however the buffer grows. -/
structure Incremental (p : Scanner ε α) : Prop where
  suffix {b : Bytes} {a : α} {rest : Bytes} : p b = .value a rest → rest <:+ b
  value_append {b : Bytes} {a : α} {rest : Bytes} (t : Bytes) :
    p b = .value a rest → p (b ++ t) = .value a (rest ++ t)
  fault_append {b : Bytes} {e : ε} (t : Bytes) : p b = .fault e → p (b ++ t) = .fault e
  /-- A value that was not there yet takes in all bytes that were. -/
  late {b t : Bytes} {a : α} {rest : Bytes} :
    p b = .more → p (b ++ t) = .value a rest → rest.length ≤ t.length

/-- An incremental scanner whose values take a byte and end with a byte they have taken. -/
structure Delimited (p : Scanner ε α) : Prop extends Incremental p where
  shorter {b : Bytes} {a : α} {rest : Bytes} : p b = .value a rest → rest.length < b.length
  later {b t : Bytes} {a : α} {rest : Bytes} :
    p b = .more → p (b ++ t) = .value a rest → rest.length < t.length

/-! ## The primitives -/

theorem incremental_pure (a : α) : Incremental (pure a : Scanner ε α) where
  suffix h := by cases h; exact List.suffix_refl _
  value_append t h := by cases h; rfl
  fault_append t h := by cases h
  late h := by cases h

theorem incremental_more : Incremental (fun _ => .more : Scanner ε α) where
  suffix h := by cases h
  value_append t h := by cases h
  fault_append t h := by cases h
  late h ht := by cases ht

theorem delimited_fail (e : ε) : Delimited (fail e : Scanner ε α) where
  suffix h := by cases h
  value_append t h := by cases h
  fault_append t h := h
  late h := by cases h
  shorter h := by cases h
  later h := by cases h

theorem delimited_byte : Delimited (byte : Scanner ε UInt8) where
  suffix {b _ _} h := by cases b <;> cases h; exact List.suffix_cons _ _
  value_append {b _ _} t h := by cases b <;> cases h; rfl
  fault_append {b _} t h := by cases b <;> cases h
  late {b t _ _} h ht := by
    cases b <;> cases h
    cases t <;> cases ht
    simp
  shorter {b _ _} h := by cases b <;> cases h; simp
  later {b t _ _} h ht := by
    cases b <;> cases h
    cases t <;> cases ht
    simp

/-- What `expect` makes of a buffer that has a byte. -/
theorem expect_cons (e : ε) (b c : UInt8) (rest : Bytes) :
    expect e b (c :: rest) = if c = b then .value () rest else .fault e := rfl

theorem expect_value {e : ε} {b : UInt8} {buffer rest : Bytes} {u : Unit}
    (h : expect e b buffer = .value u rest) : buffer = b :: rest := by
  cases buffer with
  | nil => cases h
  | cons c cs =>
    rw [expect_cons] at h
    split at h
    · next hc => cases h; rw [hc]
    · cases h

theorem delimited_expect (e : ε) (b : UInt8) : Delimited (expect e b) where
  suffix h := by rw [expect_value h]; exact List.suffix_cons _ _
  value_append t h := by rw [expect_value h, List.cons_append, expect_cons, if_pos rfl]
  fault_append {buffer _} t h := by
    cases buffer with
    | nil => cases h
    | cons c cs =>
      rw [expect_cons] at h
      rw [List.cons_append, expect_cons]
      split at h
      · cases h
      · next hc => rw [if_neg hc]; cases h; rfl
  late {buffer t _ _} h ht := by
    cases buffer with
    | nil => rw [List.nil_append] at ht; rw [expect_value ht]; simp
    | cons c cs => rw [expect_cons] at h; split at h <;> cases h
  shorter h := by rw [expect_value h]; simp
  later {buffer t _ _} h ht := by
    cases buffer with
    | nil => rw [List.nil_append] at ht; rw [expect_value ht]; simp
    | cons c cs => rw [expect_cons] at h; split at h <;> cases h

/-- A span is read off where the byte that stops it is there. -/
theorem span_append {test : UInt8 → Bool} {bytes rest : Bytes} {c : UInt8}
    (hb : ∀ b ∈ bytes, test b = true) (hc : test c = false) :
    (span test : Scanner ε Bytes) (bytes ++ c :: rest) = .value bytes (c :: rest) := by
  have hd : (bytes ++ c :: rest).dropWhile test = c :: rest := by
    rw [List.dropWhile_append_of_pos hb, List.dropWhile_cons_of_neg (by simp [hc])]
  have ht : (bytes ++ c :: rest).takeWhile test = bytes := by
    rw [List.takeWhile_append_of_pos hb, List.takeWhile_cons_of_neg (by simp [hc]),
      List.append_nil]
  simp only [span, hd, ht]

/-- What a span stops at is what the test drops down to. -/
theorem span_rest {test : UInt8 → Bool} {b bytes rest : Bytes}
    (h : (span test : Scanner ε Bytes) b = .value bytes rest) :
    bytes = b.takeWhile test ∧ rest = b.dropWhile test := by
  unfold span at h
  split at h
  · cases h
  · next c r hd => cases h; exact ⟨rfl, hd.symm⟩

theorem span_value {test : UInt8 → Bool} {b bytes rest : Bytes}
    (h : (span test : Scanner ε Bytes) b = .value bytes rest) :
    ∃ c r, rest = c :: r ∧ b = bytes ++ c :: r ∧ (∀ x ∈ bytes, test x = true) ∧
      test c = false := by
  obtain ⟨hbytes, hrest⟩ := span_rest h
  cases rest with
  | nil =>
    simp only [span, ← hrest] at h
    cases h
  | cons c r =>
    refine ⟨c, r, rfl, ?_, fun x hx => ?_, ?_⟩
    · rw [hbytes, hrest, List.takeWhile_append_dropWhile]
    · exact List.mem_takeWhile_imp (hbytes ▸ hx)
    · have hne : b.dropWhile test ≠ [] := by rw [← hrest]; exact List.cons_ne_nil _ _
      simpa [← hrest] using List.head_dropWhile_not test hne

theorem span_more {test : UInt8 → Bool} {b : Bytes}
    (h : (span test : Scanner ε Bytes) b = .more) : ∀ x ∈ b, test x = true := by
  unfold span at h
  split at h
  · next hd => exact List.dropWhile_eq_nil_iff.mp hd
  · cases h

theorem incremental_span (test : UInt8 → Bool) : Incremental (span test : Scanner ε Bytes) where
  suffix h := by
    obtain ⟨c, r, hr, hb, _, _⟩ := span_value h
    exact ⟨_, by rw [hr, hb]⟩
  value_append t h := by
    obtain ⟨c, r, rfl, rfl, ha, hc⟩ := span_value h
    rw [List.append_assoc, List.cons_append, span_append ha hc]
  fault_append t h := by
    unfold span at h
    split at h <;> cases h
  late {b t _ _} h ht := by
    -- no byte of `b` stops the span, so what it stops at lies in `t`
    rw [(span_rest ht).2, List.dropWhile_append_of_pos (span_more h)]
    exact (List.dropWhile_suffix test).length_le

/-! ## Scanners from scanners -/

theorem Incremental.bind (hp : Incremental p) (hq : ∀ a, Incremental (q a)) :
    Incremental (p >>= q) where
  suffix h := by
    obtain ⟨a, r, hpa, hqa⟩ := bind_value h
    exact ((hq a).suffix hqa).trans (hp.suffix hpa)
  value_append t h := by
    obtain ⟨a, r, hpa, hqa⟩ := bind_value h
    rw [bind_apply, hp.value_append t hpa]
    exact (hq a).value_append t hqa
  fault_append t h := by
    rw [bind_apply]
    obtain hpe | ⟨a, r, hpa, hqe⟩ := bind_fault h
    · rw [hp.fault_append t hpe]
    · rw [hp.value_append t hpa]
      exact (hq a).fault_append t hqe
  late h ht := by
    obtain ⟨a, r, hpa, hqa⟩ := bind_value ht
    obtain hpm | ⟨a', r', hpa', hqm⟩ := bind_more h
    · exact ((hq a).suffix hqa).length_le.trans (hp.late hpm hpa)
    · rw [hp.value_append _ hpa'] at hpa
      cases hpa
      exact (hq a).late hqm hqa

/-- A delimited scanner behind an incremental one ends the value of both. -/
theorem Incremental.bind_delimited (hp : Incremental p) (hq : ∀ a, Delimited (q a)) :
    Delimited (p >>= q) where
  toIncremental := hp.bind fun a => (hq a).toIncremental
  shorter h := by
    obtain ⟨a, r, hpa, hqa⟩ := bind_value h
    exact ((hq a).shorter hqa).trans_le (hp.suffix hpa).length_le
  later h ht := by
    obtain ⟨a, r, hpa, hqa⟩ := bind_value ht
    obtain hpm | ⟨a', r', hpa', hqm⟩ := bind_more h
    · exact ((hq a).shorter hqa).trans_le (hp.late hpm hpa)
    · rw [hp.value_append _ hpa'] at hpa
      cases hpa
      exact (hq a).later hqm hqa

/-- Behind a delimited scanner an incremental one may also stop where it is, as long as what it
waits for ends its value. -/
theorem Delimited.bind (hp : Delimited p) (hq : ∀ a, Incremental (q a))
    (hlater : ∀ {a b t c rest}, q a b = .more → q a (b ++ t) = .value c rest →
      rest.length < t.length) : Delimited (p >>= q) where
  toIncremental := hp.toIncremental.bind hq
  shorter h := by
    obtain ⟨a, r, hpa, hqa⟩ := bind_value h
    exact ((hq a).suffix hqa).length_le.trans_lt (hp.shorter hpa)
  later h ht := by
    obtain ⟨a, r, hpa, hqa⟩ := bind_value ht
    obtain hpm | ⟨a', r', hpa', hqm⟩ := bind_more h
    · exact ((hq a).suffix hqa).length_le.trans_lt (hp.later hpm hpa)
    · rw [hp.value_append _ hpa'] at hpa
      cases hpa
      exact hlater hqm hqa

/-- What is made of a value leaves its bytes as they are. -/
theorem Delimited.map (hp : Delimited p) (f : α → β) :
    Delimited (p >>= fun a => (Pure.pure (f a) : Scanner ε β)) :=
  hp.bind (fun a => incremental_pure (f a)) fun h _ => by cases h

theorem incremental_ite {c : Prop} [Decidable c] {p p' : Scanner ε α} (hp : Incremental p)
    (hp' : Incremental p') : Incremental (if c then p else p') := by
  split
  · exact hp
  · exact hp'

theorem delimited_ite {c : Prop} [Decidable c] {p p' : Scanner ε α} (hp : Delimited p)
    (hp' : Delimited p') : Delimited (if c then p else p') := by
  split
  · exact hp
  · exact hp'

theorem incremental_literal (e : ε) : ∀ bytes, Incremental (literal e bytes)
  | [] => incremental_pure ()
  | b :: bytes => (delimited_expect e b).toIncremental.bind fun _ => incremental_literal e bytes

theorem literal_append (e : ε) (bytes rest : Bytes) :
    literal e bytes (bytes ++ rest) = .value () rest := by
  induction bytes with
  | nil => rfl
  | cons b bytes ih =>
    rw [literal, bind_apply, List.cons_append, expect_cons, if_pos rfl]
    exact ih

/-! ## Scanners that find more -/

/-- The one scanner finds what the other one finds, and maybe more. -/
def Grows (p p' : Scanner ε α) : Prop := ∀ b, p b ≠ .more → p' b = p b

theorem Grows.refl (p : Scanner ε α) : Grows p p := fun _ _ => rfl

theorem Grows.trans {p'' : Scanner ε α} (h : Grows p p') (h' : Grows p' p'') : Grows p p'' := by
  intro b hb
  have hp := h b hb
  rw [← hp] at hb ⊢
  exact h' b hb

theorem grows_more (p : Scanner ε α) : Grows (fun _ => .more) p := fun _ h => absurd rfl h

theorem Grows.bind (hp : Grows p p') (hq : ∀ a, Grows (q a) (q' a)) :
    Grows (p >>= q) (p' >>= q') := by
  intro b hb
  rw [bind_apply] at hb ⊢
  rw [bind_apply]
  cases hpb : p b with
  | value a rest =>
    rw [hpb] at hb
    rw [hp b (by rw [hpb]; nofun), hpb]
    exact hq a rest hb
  | more =>
    rw [hpb] at hb
    exact absurd rfl hb
  | fault e => rw [hp b (by rw [hpb]; nofun), hpb]

end Scanner

end Depot
