import Mathlib.Data.FinEnum
import Depot.Proofs.Http.HeadSyntax
import Depot.Proofs.Text.Utf8

/-! # The grammar of request heads

A head may be worded in many ways: lines may end with or without a carriage return, empty lines may
stand in front, blanks around the value of a field. `HeadForm` says which bytes word a head, without
a word on how heads are read. The reader takes exactly such bytes off the front of a buffer, and
gives the head they word (`head_eq_value_iff`); where they have more field lines than it has room
for, it says so (`head_crowded`). -/

namespace Depot.Http.Syntax

open Scanner
open Text.Ascii (cr lf crlf space)

/-! ## The forms -/

inductive LineEnd : Bytes → Prop
  | bare : LineEnd [lf]
  | full : LineEnd crlf

inductive EmptyLines : Bytes → Prop
  | none : EmptyLines []
  | line {ending lines : Bytes} : LineEnd ending → EmptyLines lines → EmptyLines (ending ++ lines)

/-- Whether the bytes are a method or a field name. -/
structure Token (bytes : Bytes) : Prop where
  nonempty : bytes ≠ []
  plain : ∀ b ∈ bytes, isTokenByte b = true

structure TargetForm (bytes : Bytes) : Prop where
  nonempty : bytes ≠ []
  plain : ∀ b ∈ bytes, isTargetByte b = true
  text : (Text.Utf8.decode? bytes).isSome = true

/-- A field line. The blanks around its value are no part of the field. -/
inductive FieldForm : Bytes × Bytes → Bytes → Prop
  | line {name blanks value ending : Bytes} : Token name → (∀ b ∈ blanks, isBlank b = true) →
      (∀ b ∈ value, isValueByte b = true) → (∀ b ∈ value.head?, isBlank b = false) →
      LineEnd ending →
      FieldForm (name, trimEnd value) (name ++ Target.colon :: (blanks ++ (value ++ ending)))

/-- Field lines and the empty line behind them. -/
inductive FieldsForm : List (Bytes × Bytes) → Bytes → Prop
  | ended {ending : Bytes} : LineEnd ending → FieldsForm [] ending
  | line {field : Bytes × Bytes} {fields : List (Bytes × Bytes)} {line lines : Bytes} :
      FieldForm field line → FieldsForm fields lines → FieldsForm (field :: fields) (line ++ lines)

inductive HeadForm : RawHead → Bytes → Prop
  | lines {skipped method target ending lines : Bytes} {version : Version}
      {fields : List (Bytes × Bytes)} :
      EmptyLines skipped → Token method → TargetForm target →
      (version = .http10 ∨ version = .http11) → LineEnd ending → FieldsForm fields lines →
      HeadForm { method, target, version, fields }
        (skipped ++ (method ++ space :: (target ++ space ::
          (Text.Utf8.encode version.label ++ (ending ++ lines)))))

instance : DecidablePred Token := fun bytes =>
  decidable_of_iff (bytes ≠ [] ∧ ∀ b ∈ bytes, isTokenByte b = true)
    ⟨fun h => ⟨h.1, h.2⟩, fun h => ⟨h.nonempty, h.plain⟩⟩

variable {bytes lines ending t : Bytes}

/-- The bytes of a token are ASCII and end no line. -/
theorem isTokenByte_facts : ∀ b : UInt8, isTokenByte b = true →
    b < 0x80 ∧ b ≠ cr ∧ b ≠ lf := by decide +kernel

theorem Token.ascii (h : Token bytes) : Text.Utf8.Ascii bytes :=
  fun b hb => (isTokenByte_facts b (h.plain b hb)).1

/-- A token starts with a byte that starts no line end. -/
theorem Token.cons (h : Token bytes) : ∃ b bs, bytes = b :: bs ∧ b ≠ cr ∧ b ≠ lf := by
  cases bytes with
  | nil => exact absurd rfl h.nonempty
  | cons b bs => exact ⟨b, bs, rfl, (isTokenByte_facts b (h.plain b List.mem_cons_self)).2⟩

theorem LineEnd.cons (h : LineEnd ending) : ∃ b bs, ending = b :: bs ∧ (b = cr ∨ b = lf) := by
  cases h with
  | bare => exact ⟨lf, [], rfl, .inr rfl⟩
  | full => exact ⟨cr, [lf], rfl, .inl rfl⟩

/-! ## How long a wording is -/

theorem LineEnd.length_pos (h : LineEnd ending) : 0 < ending.length := by
  obtain ⟨b, bs, rfl, -⟩ := h.cons
  exact Nat.succ_pos _

theorem length_label {v : Version} (h : v = .http10 ∨ v = .http11) :
    (Text.Utf8.encode v.label).length = 8 := by
  obtain rfl | rfl := h
  · decide
  · decide

theorem FieldForm.three_le {f : Bytes × Bytes} (h : FieldForm f bytes) : 3 ≤ bytes.length := by
  cases h with
  | line hname _ _ _ hending =>
    have hn := List.length_pos_iff.mpr hname.nonempty
    have he := hending.length_pos
    simp only [List.length_append, List.length_cons]
    omega

theorem FieldsForm.length_le {all : List (Bytes × Bytes)} (h : FieldsForm all lines) :
    3 * all.length + 1 ≤ lines.length := by
  induction h with
  | ended hending => exact hending.length_pos
  | line hfield _ ih =>
    have hline := hfield.three_le
    simp only [List.length_append, List.length_cons]
    omega

/-- The parts of a wording whose lengths differ from head to head: the empty lines in front, the
method, the target, the end of the request line, and the field lines with the empty line. -/
theorem HeadForm.length_eq {raw : RawHead} (h : HeadForm raw bytes) :
    ∃ skipped ending lines, EmptyLines skipped ∧ LineEnd ending ∧ FieldsForm raw.fields lines ∧
      bytes.length = skipped.length + raw.method.length + raw.target.length + ending.length +
        lines.length + 10 := by
  cases h with
  | lines hskipped _ _ hversion hending hlines =>
    refine ⟨_, _, _, hskipped, hending, hlines, ?_⟩
    simp only [List.length_append, List.length_cons, length_label hversion]
    omega

theorem HeadForm.length_le {raw : RawHead} (h : HeadForm raw bytes) :
    raw.method.length + raw.target.length + 3 * raw.fields.length + 12 ≤ bytes.length := by
  obtain ⟨skipped, ending, lines, -, hending, hlines, hlength⟩ := h.length_eq
  have he := hending.length_pos
  have hl := hlines.length_le
  omega

theorem HeadForm.nonempty {raw : RawHead} (h : HeadForm raw bytes) :
    raw.method ≠ [] ∧ raw.target ≠ [] := by
  cases h with
  | lines _ hmethod htarget _ _ _ => exact ⟨hmethod.nonempty, htarget.nonempty⟩

/-! ## What is worded is read -/

theorem lineEnd_append (h : LineEnd ending) (e : HeadFault) (t : Bytes) :
    lineEnd e (ending ++ t) = .value () t := by
  cases h with
  | bare => rfl
  | full => rfl

theorem emptyLines_append_token (h : EmptyLines lines) {name : Bytes} (hname : Token name)
    (t : Bytes) : emptyLines (lines ++ (name ++ t)) = .value () (name ++ t) := by
  induction h with
  | none =>
    obtain ⟨b, bs, rfl, hcr, hlf⟩ := hname.cons
    exact emptyLines_stop hlf hcr _
  | line hending _ ih =>
    cases hending with
    | bare => exact (emptyLines_lf _).trans ih
    | full => exact (emptyLines_crlf _).trans ih

theorem method_append (h : Token bytes) (t : Bytes) :
    method (bytes ++ space :: t) = .value bytes t := by
  unfold method
  rw [bind_apply, span_append h.plain (by decide)]
  simp only [if_neg h.nonempty]
  rw [bind_apply, expect_cons, if_pos rfl]
  rfl

theorem target_append (h : TargetForm bytes) (t : Bytes) :
    target (bytes ++ space :: t) = .value bytes t := by
  have htext : ¬(Text.Utf8.decode? bytes).isNone = true := by
    simp [Option.isSome_iff_ne_none.mp h.text]
  unfold target
  rw [bind_apply, span_append h.plain (by decide)]
  simp only
  rw [bind_apply, expect_cons, if_pos rfl]
  simp only [if_neg h.nonempty, if_neg htext]
  rfl

theorem version_append {v : Version} (h : v = .http10 ∨ v = .http11) (t : Bytes) :
    version (Text.Utf8.encode v.label ++ t) = .value v t := by
  obtain ⟨digit, hlabel, hread⟩ : ∃ digit : UInt8,
      Text.Utf8.encode v.label = Text.Utf8.encode "HTTP/1." ++ [digit] ∧
        (digit = 0x30 ∧ v = .http10 ∨ digit = 0x31 ∧ v = .http11) := by
    obtain rfl | rfl := h
    · exact ⟨0x30, by decide, .inl ⟨rfl, rfl⟩⟩
    · exact ⟨0x31, by decide, .inr ⟨rfl, rfl⟩⟩
  unfold version
  rw [hlabel, List.append_assoc, bind_apply, literal_append]
  simp only
  rw [bind_apply]
  obtain ⟨rfl, rfl⟩ | ⟨rfl, rfl⟩ := hread
  · rfl
  · rfl

/-- A line end stops both the blanks and the value in front of it. -/
theorem LineEnd.stops (h : LineEnd ending) (t : Bytes) :
    ∃ b bs, ending ++ t = b :: bs ∧ isBlank b = false ∧ isValueByte b = false := by
  cases h with
  | bare => exact ⟨lf, t, rfl, by decide, by decide⟩
  | full => exact ⟨cr, lf :: t, rfl, by decide, by decide⟩

theorem field_append {f : Bytes × Bytes} (h : FieldForm f bytes) (t : Bytes) :
    field (bytes ++ t) = .value f t := by
  cases h with
  | @line name blanks value ending hname hblanks hvalue hfront hending =>
    obtain ⟨stop, behind, hstop, hstopBlank, hstopValue⟩ := hending.stops t
    -- behind the blanks stands the value or, if that is empty, the line end
    obtain ⟨c, cs, hcs, hc⟩ : ∃ c cs, value ++ (ending ++ t) = c :: cs ∧ isBlank c = false := by
      cases value with
      | nil => exact ⟨stop, behind, hstop, hstopBlank⟩
      | cons b bs => exact ⟨b, bs ++ (ending ++ t), rfl, hfront b rfl⟩
    have hskip : (span isBlank : Scanner HeadFault Bytes) (blanks ++ (value ++ (ending ++ t))) =
        .value blanks (value ++ (ending ++ t)) := by
      rw [hcs]
      exact span_append hblanks hc
    have htake : (span isValueByte : Scanner HeadFault Bytes) (value ++ (ending ++ t)) =
        .value value (ending ++ t) := by
      rw [hstop]
      exact span_append hvalue hstopValue
    unfold field
    simp only [List.append_assoc, List.cons_append]
    rw [bind_apply, span_append hname.plain (by decide +kernel)]
    simp only [if_neg hname.nonempty]
    rw [bind_apply, expect_cons, if_pos rfl]
    simp only
    rw [bind_apply, hskip]
    simp only
    rw [bind_apply, htake]
    simp only
    rw [bind_apply, lineEnd_append hending]
    rfl

theorem unlessEmptyLine_ended (h : LineEnd ending)
    (others : Scanner HeadFault (List (Bytes × Bytes))) (t : Bytes) :
    unlessEmptyLine others (ending ++ t) = .value [] t := by
  cases h with
  | bare => rfl
  | full => rfl

theorem unlessEmptyLine_field {f : Bytes × Bytes} (h : FieldForm f bytes)
    (others : Scanner HeadFault (List (Bytes × Bytes))) (t : Bytes) :
    unlessEmptyLine others (bytes ++ t) = others (bytes ++ t) := by
  cases h with
  | line hname =>
    obtain ⟨b, bs, rfl, hcr, hlf⟩ := hname.cons
    exact if_neg (by simp [hcr, hlf])

theorem fields_append {all : List (Bytes × Bytes)} (h : FieldsForm all lines) {room : Nat}
    (hroom : all.length ≤ room) (t : Bytes) : fields room (lines ++ t) = .value all t := by
  induction h generalizing room with
  | ended hending =>
    cases room with
    | zero => exact unlessEmptyLine_ended hending _ t
    | succ room => exact unlessEmptyLine_ended hending _ t
  | line hfield _ ih =>
    cases room with
    | zero => cases hroom
    | succ room =>
      rw [List.append_assoc, fields, unlessEmptyLine_field hfield, bind_apply, field_append hfield]
      simp only
      rw [bind_apply, ih (Nat.le_of_succ_le_succ hroom)]
      rfl

/-- The line for which there is no room left is read before it counts as too many. -/
theorem fields_crowded {all : List (Bytes × Bytes)} (h : FieldsForm all lines) {room : Nat}
    (hroom : room < all.length) (t : Bytes) :
    fields room (lines ++ t) = .fault .tooManyFields := by
  induction h generalizing room with
  | ended _ => cases hroom
  | line hfield _ ih =>
    rw [List.append_assoc]
    cases room with
    | zero =>
      rw [fields, unlessEmptyLine_field hfield, bind_apply, field_append hfield]
      rfl
    | succ room =>
      rw [fields, unlessEmptyLine_field hfield, bind_apply, field_append hfield]
      simp only
      rw [bind_apply, ih (Nat.lt_of_succ_lt_succ hroom)]

/-- Up to its field lines a head is read as it is worded. -/
theorem head_append {raw : RawHead} (h : HeadForm raw bytes) (room : Nat) (t : Bytes) :
    ∃ lines, FieldsForm raw.fields lines ∧ head room (bytes ++ t) =
      (fields room >>= fun all => pure { raw with fields := all }) (lines ++ t) := by
  cases h with
  | @lines skipped method target ending lines version all hskipped hmethod htarget hversion hending
      hlines =>
    refine ⟨lines, hlines, ?_⟩
    unfold head
    simp only [List.append_assoc, List.cons_append]
    rw [bind_apply, emptyLines_append_token hskipped hmethod]
    simp only
    rw [bind_apply, method_append hmethod]
    simp only
    rw [bind_apply, target_append htarget]
    simp only
    rw [bind_apply, version_append hversion]
    simp only
    rw [bind_apply, lineEnd_append hending]

/-- A head is read off the bytes that word it, and no byte behind them is touched. -/
theorem head_of_form {raw : RawHead} (h : HeadForm raw bytes) {room : Nat}
    (hroom : raw.fields.length ≤ room) (t : Bytes) : head room (bytes ++ t) = .value raw t := by
  obtain ⟨lines, hlines, hread⟩ := head_append h room t
  rw [hread, bind_apply, fields_append hlines hroom]
  rfl

theorem head_crowded {raw : RawHead} (h : HeadForm raw bytes) {room : Nat}
    (hroom : room < raw.fields.length) (t : Bytes) :
    head room (bytes ++ t) = .fault .tooManyFields := by
  obtain ⟨lines, hlines, hread⟩ := head_append h room t
  rw [hread, bind_apply, fields_crowded hlines hroom]

/-! ## What is read is worded -/

variable {b rest : Bytes}

theorem lineEnd_value {e : HeadFault} {u : Unit} (h : lineEnd e b = .value u rest) :
    ∃ ending, LineEnd ending ∧ b = ending ++ rest := by
  obtain ⟨c, r, hc, hr⟩ := bind_value h
  cases b with
  | nil => cases hc
  | cons c' b =>
    cases hc
    split at hr
    · next hcr =>
      rw [hcr, expect_value hr]
      exact ⟨crlf, .full, rfl⟩
    · split at hr
      · next hlf =>
        cases hr
        rw [hlf]
        exact ⟨[lf], .bare, rfl⟩
      · cases hr

theorem emptyLines_value {u : Unit} (h : emptyLines b = .value u rest) :
    ∃ lines, EmptyLines lines ∧ b = lines ++ rest := by
  induction b using emptyLines.induct with
  | case1 => cases h
  | case2 r ih =>
    rw [emptyLines_lf] at h
    obtain ⟨lines, hlines, rfl⟩ := ih h
    exact ⟨[lf] ++ lines, .line .bare hlines, rfl⟩
  | case3 _ => cases h
  | case4 r _ ih =>
    rw [emptyLines_crlf] at h
    obtain ⟨lines, hlines, rfl⟩ := ih h
    exact ⟨crlf ++ lines, .line .full hlines, rfl⟩
  | case5 c r hc _ =>
    rw [emptyLines_cr hc] at h
    cases h
  | case6 c r hlf hcr =>
    rw [emptyLines_stop hlf hcr] at h
    cases h
    exact ⟨[], .none, rfl⟩

/-- A scanner behind a check reads a value only where the check passes. -/
theorem check_value {α : Type} {c : Prop} [Decidable c] {e : HeadFault} {p : Scanner HeadFault α}
    {a : α} (h : (if c then Scanner.fail e >>= fun _ : PUnit => p else p) b = .value a rest) :
    ¬c ∧ p b = .value a rest := by
  by_cases hc : c
  · rw [if_pos hc] at h
    cases h
  · rw [if_neg hc] at h
    exact ⟨hc, h⟩

theorem method_value {name : Bytes} (h : method b = .value name rest) :
    Token name ∧ b = name ++ space :: rest := by
  obtain ⟨name', r, hspan, hrest⟩ := bind_value h
  obtain ⟨hne, hspaced⟩ := check_value hrest
  obtain ⟨u, r', hspace, hpure⟩ := bind_value hspaced
  cases hpure
  obtain ⟨c, cs, hcs, hb, hplain, -⟩ := span_value hspan
  rw [hcs] at hspace
  rw [hb, expect_value hspace]
  exact ⟨⟨hne, hplain⟩, rfl⟩

theorem target_value {name : Bytes} (h : target b = .value name rest) :
    TargetForm name ∧ b = name ++ space :: rest := by
  obtain ⟨name', r, hspan, hrest⟩ := bind_value h
  obtain ⟨u, r', hspace, hchecked⟩ := bind_value hrest
  obtain ⟨hne, hchecked'⟩ := check_value hchecked
  obtain ⟨htext, hpure⟩ := check_value hchecked'
  cases hpure
  obtain ⟨c, cs, hcs, hb, hplain, -⟩ := span_value hspan
  rw [hcs] at hspace
  rw [hb, expect_value hspace]
  exact ⟨⟨hne, hplain, Option.isSome_iff_ne_none.mpr (by simpa using htext)⟩, rfl⟩

theorem literal_value {e : HeadFault} {u : Unit} (h : literal e bytes b = .value u rest) :
    b = bytes ++ rest := by
  induction bytes generalizing b with
  | nil =>
    cases h
    rfl
  | cons c bytes ih =>
    obtain ⟨u, r, hc, h⟩ := bind_value h
    rw [expect_value hc, ih h]
    rfl

theorem version_value {v : Version} (h : version b = .value v rest) :
    (v = .http10 ∨ v = .http11) ∧ b = Text.Utf8.encode v.label ++ rest := by
  obtain ⟨u, r, hname, h⟩ := bind_value h
  obtain ⟨digit, r', hdigit, h⟩ := bind_value h
  have hr : r = digit :: r' := by
    cases r with
    | nil => cases hdigit
    | cons c r => cases hdigit; rfl
  rw [literal_value hname, hr]
  split at h
  · next hzero =>
    cases h
    rw [hzero]
    exact ⟨.inl rfl, rfl⟩
  · split at h
    · next hone =>
      cases h
      rw [hone]
      exact ⟨.inr rfl, rfl⟩
    · cases h

theorem field_value {f : Bytes × Bytes} (h : field b = .value f rest) :
    ∃ line, FieldForm f line ∧ b = line ++ rest := by
  obtain ⟨name, r₁, hname, h₁⟩ := bind_value h
  obtain ⟨hne, h₂⟩ := check_value h₁
  obtain ⟨u, r₂, hcolon, h₃⟩ := bind_value h₂
  obtain ⟨blanks, r₃, hblanks, h₄⟩ := bind_value h₃
  obtain ⟨value, r₄, hvalue, h₅⟩ := bind_value h₄
  obtain ⟨v, r₅, hending, hpure⟩ := bind_value h₅
  cases hpure
  obtain ⟨c₁, cs₁, hr₁, hb, hplain, -⟩ := span_value hname
  obtain ⟨c₃, cs₃, hr₃, hr₂, hallBlank, hfirst⟩ := span_value hblanks
  obtain ⟨c₄, cs₄, hr₄, hr₃', hallValue, -⟩ := span_value hvalue
  obtain ⟨ending, hend, hr₄'⟩ := lineEnd_value hending
  have hcut : r₁ = Target.colon :: (blanks ++ (value ++ (ending ++ rest))) := by
    rw [expect_value hcolon, hr₂, ← hr₃, hr₃', ← hr₄, hr₄']
  -- the blanks reach as far as they can, so the value does not start with one
  have hfront : ∀ b ∈ value.head?, isBlank b = false := by
    intro b hb
    obtain ⟨value', rfl⟩ := List.head?_eq_some_iff.mp hb
    rw [hr₃] at hr₃'
    cases hr₃'
    exact hfirst
  refine ⟨_, .line ⟨hne, hplain⟩ hallBlank hallValue hfront hend, ?_⟩
  rw [hb, ← hr₁, hcut]
  simp only [List.append_assoc, List.cons_append]

theorem unlessEmptyLine_value {others : Scanner HeadFault (List (Bytes × Bytes))}
    {all : List (Bytes × Bytes)} (h : unlessEmptyLine others b = .value all rest) :
    (∃ ending, LineEnd ending ∧ all = [] ∧ b = ending ++ rest) ∨ others b = .value all rest := by
  cases b with
  | nil => cases h
  | cons c cs =>
    simp only [unlessEmptyLine] at h
    split at h
    · obtain ⟨u, r, hending, hpure⟩ := bind_value h
      cases hpure
      obtain ⟨ending, hend, hb⟩ := lineEnd_value hending
      exact .inl ⟨ending, hend, rfl, hb⟩
    · exact .inr h

theorem fields_value {room : Nat} {all : List (Bytes × Bytes)}
    (h : fields room b = .value all rest) :
    ∃ lines, FieldsForm all lines ∧ all.length ≤ room ∧ b = lines ++ rest := by
  induction room generalizing b all with
  | zero =>
    obtain ⟨ending, hend, rfl, hb⟩ | hfield := unlessEmptyLine_value h
    · exact ⟨ending, .ended hend, Nat.le_refl 0, hb⟩
    · obtain ⟨f, r, -, hfail⟩ := bind_value hfield
      cases hfail
  | succ room ih =>
    obtain ⟨ending, hend, rfl, hb⟩ | hfield := unlessEmptyLine_value h
    · exact ⟨ending, .ended hend, Nat.zero_le _, hb⟩
    · obtain ⟨f, r, hf, hothers⟩ := bind_value hfield
      obtain ⟨others, r', hlater, hpure⟩ := bind_value hothers
      cases hpure
      obtain ⟨line, hline, rfl⟩ := field_value hf
      obtain ⟨lines, hlines, hle, rfl⟩ := ih hlater
      exact ⟨_, .line hline hlines, Nat.succ_le_succ hle, (List.append_assoc ..).symm⟩

theorem form_of_head {room : Nat} {raw : RawHead} (h : head room b = .value raw rest) :
    ∃ bytes, HeadForm raw bytes ∧ raw.fields.length ≤ room ∧ b = bytes ++ rest := by
  obtain ⟨u, r₁, hskipped, h₁⟩ := bind_value h
  obtain ⟨name, r₂, hmethod, h₂⟩ := bind_value h₁
  obtain ⟨place, r₃, htarget, h₃⟩ := bind_value h₂
  obtain ⟨v, r₄, hversion, h₄⟩ := bind_value h₃
  obtain ⟨w, r₅, hending, h₅⟩ := bind_value h₄
  obtain ⟨all, r₆, hfields, hpure⟩ := bind_value h₅
  cases hpure
  obtain ⟨skipped, hskip, rfl⟩ := emptyLines_value hskipped
  obtain ⟨htoken, rfl⟩ := method_value hmethod
  obtain ⟨hplace, rfl⟩ := target_value htarget
  obtain ⟨hv, rfl⟩ := version_value hversion
  obtain ⟨ending, hend, rfl⟩ := lineEnd_value hending
  obtain ⟨lines, hlines, hle, rfl⟩ := fields_value hfields
  refine ⟨_, .lines hskip htoken hplace hv hend hlines, hle, ?_⟩
  simp only [List.append_assoc, List.cons_append]

/-- **The reader reads the grammar.** A head is read off the front of a buffer exactly where bytes
that word it stand there, with no more field lines than there is room for. -/
theorem head_eq_value_iff {room : Nat} {raw : RawHead} :
    head room b = .value raw rest ↔
      raw.fields.length ≤ room ∧ ∃ bytes, HeadForm raw bytes ∧ b = bytes ++ rest := by
  constructor
  · intro h
    obtain ⟨bytes, hform, hle, hb⟩ := form_of_head h
    exact ⟨hle, bytes, hform, hb⟩
  · rintro ⟨hle, bytes, hform, rfl⟩
    exact head_of_form hform hle rest

end Depot.Http.Syntax
