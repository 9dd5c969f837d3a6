import Depot.Proofs.Http.Fields
import Depot.Proofs.Http.HeadReading
import Depot.Proofs.Http.HeadRendering
import Depot.Proofs.Text.Integer

/-! # What a head says of the length of its body

A head that is accepted has no `transfer-encoding`, and the number its first `content-length` spells
is the length of the body; a plus sign may stand in front of the digits (`framing_read`). If all its
`content-length` lines are digits and agree, that is the one way to read the length
(`Fields.Unambiguous`). But those behind the first are not looked at, so a head is accepted that says
two things (`ambiguous_read`). -/

namespace Depot.Http

open Text.Decimal (Spells SpellsNat max64)

/-! ## Values have no blanks around them -/

namespace Syntax

variable {bytes lines : Bytes}

theorem prefix_trimEnd (value : Bytes) : trimEnd value <+: value := by
  obtain ⟨front, hfront⟩ := List.dropWhile_suffix (l := value.reverse) isBlank
  refine ⟨front.reverse, ?_⟩
  rw [trimEnd, ← List.reverse_append, hfront, List.reverse_reverse]

/-- What a field line leaves of its value. -/
theorem value_trimEnd {value : Bytes} (hplain : ∀ b ∈ value, isValueByte b = true)
    (hfront : ∀ b ∈ value.head?, isBlank b = false) : Value (trimEnd value) where
  plain b hb := hplain b ((prefix_trimEnd value).subset hb)
  front b hb := by
    obtain ⟨bs, hbs⟩ := List.head?_eq_some_iff.mp hb
    obtain ⟨back, hback⟩ := prefix_trimEnd value
    refine hfront b ?_
    rw [← hback, hbs]
    rfl
  back b hb := by
    rw [trimEnd, List.getLast?_reverse] at hb
    have hkept := List.head?_dropWhile_not isBlank value.reverse
    rw [hb] at hkept
    exact hkept

theorem FieldForm.value {f : Bytes × Bytes} (h : FieldForm f bytes) : Value f.2 := by
  cases h with
  | line _ _ hvalue hfront _ => exact value_trimEnd hvalue hfront

theorem FieldsForm.values {all : List (Bytes × Bytes)} (h : FieldsForm all lines) :
    ∀ f ∈ all, Value f.2 := by
  induction h with
  | ended _ => exact fun f hf => absurd hf List.not_mem_nil
  | line hfield _ ih => exact List.forall_mem_cons.mpr ⟨hfield.value, ih⟩

theorem HeadForm.values {raw : RawHead} (h : HeadForm raw bytes) :
    ∀ f ∈ raw.fields, Value f.2 := by
  cases h with
  | lines _ _ _ _ _ hlines => exact hlines.values

end Syntax

/-! ## Reading a length -/

/-- Among visible bytes only the space and the tab are blanks, in text as in a field line. -/
theorem isBlank_visible : ∀ b : UInt8, isVisible b = true →
    b < 0x80 ∧ Text.isBlank (Char.ofNat b.toNat) = Syntax.isBlank b := by decide +kernel

theorem SpellsNat.visible {value : Bytes} {n : Nat} (h : SpellsNat value n) :
    value.all isVisible = true := by
  rw [List.all_eq_true]
  cases h with
  | plain hn => exact fun b hb => isVisible_digit (hn.digits b hb)
  | plus hn =>
    exact List.forall_mem_cons.mpr ⟨rfl, fun b hb => isVisible_digit (hn.digits b hb)⟩

/-- A value is read as a length if it spells one, and only then. -/
theorem readLength_iff {value : Bytes} (hvalue : Syntax.Value value) (n : Nat) :
    (∃ text, Fields.textOf? value = some text ∧
      Text.Decimal.readNat max64 (Text.trim text.toList) = .ok n) ↔
      SpellsNat value n ∧ n ≤ max64 := by
  by_cases hvisible : value.all isVisible = true
  · have hbytes := List.all_eq_true.mp hvisible
    have hascii : Text.Utf8.Ascii value := fun b hb => (isBlank_visible b (hbytes b hb)).1
    have hblank : ∀ b ∈ value, Syntax.isBlank b = false →
        Text.isBlank (Char.ofNat b.toNat) = false := fun b hb h =>
      (isBlank_visible b (hbytes b hb)).2.trans h
    have htrim : Text.trim (Text.Utf8.asciiText value).toList = (Text.Utf8.asciiText value).toList := by
      rw [Text.Utf8.toList_asciiText]
      refine Text.trim_of_ends ?_ ?_
      · rw [List.head?_map]
        intro c hc
        obtain ⟨b, hb, rfl⟩ := Option.map_eq_some_iff.mp hc
        exact hblank b (List.mem_of_mem_head? hb) (hvalue.front b hb)
      · rw [List.getLast?_map]
        intro c hc
        obtain ⟨b, hb, rfl⟩ := Option.map_eq_some_iff.mp hc
        exact hblank b (List.mem_of_mem_getLast? hb) (hvalue.back b hb)
    have htext : Fields.textOf? value = some (Text.Utf8.asciiText value) := by
      rw [Fields.textOf?, if_pos hvisible, Text.Utf8.lossy_ascii hascii]
    rw [htext, ← Text.Decimal.readNat_eq_ok_iff hascii]
    simp [htrim]
  · have htext : Fields.textOf? value = none := if_neg hvisible
    rw [htext]
    refine iff_of_false (by simp) fun h => hvisible (SpellsNat.visible h.1)

namespace Head

variable {fields : Fields} {n : Nat}

/-- The length of a body is found where no coding is named and the first `content-length`, if there
is one, spells it. -/
theorem bodyLength_eq_ok_iff
    (hvalues : ∀ value ∈ fields.values "content-length", Syntax.Value value) :
    bodyLength fields = .ok n ↔
      fields.values "transfer-encoding" = [] ∧
        match fields.values "content-length" with
        | [] => n = 0
        | first :: _ => SpellsNat first n ∧ n ≤ max64 := by
  unfold bodyLength Fields.first?
  cases hcoding : fields.values "transfer-encoding" with
  | cons coding codings => simp
  | nil =>
    cases hlengths : fields.values "content-length" with
    | nil => simp [eq_comm]
    | cons first others =>
      rw [hlengths] at hvalues
      simp only [List.head?_nil, List.head?_cons, true_and]
      rw [← readLength_iff (hvalues first List.mem_cons_self)]
      cases htext : Fields.textOf? first with
      | none => simp
      | some text =>
        cases hread : Text.Decimal.readNat max64 (Text.trim text.toList) with
        | ok m => simp [hread]
        | error e => simp [hread]

end Head

/-! ## Heads that are accepted -/

/-- Whether the fields of a head tell the length of its body in one way only. -/
structure Fields.Unambiguous (fields : Fields) (length : Nat) : Prop where
  coding : fields.values "transfer-encoding" = []
  lengths : fields.values "content-length" = [] ∧ length = 0 ∨
    fields.values "content-length" ≠ [] ∧
      ∀ value ∈ fields.values "content-length", Spells value length

namespace Head

variable {b rest : Bytes} {raw : RawHead}

theorem values_collect (lines : List (Bytes × Bytes)) (name : String) :
    (collect lines).values name = Fields.valuesOf lines name := by
  rw [Fields.collect_eq_grouped, Fields.values_grouped]

/-- No value of a complete head has a blank at either end. -/
theorem values_of_head (h : Syntax.head maxFields b = .value raw rest) (name : String) :
    ∀ value ∈ (collect raw.fields).values name, Syntax.Value value := by
  obtain ⟨-, bytes, hform, -⟩ := Syntax.head_eq_value_iff.mp h
  intro value hvalue
  rw [values_collect] at hvalue
  obtain ⟨line, hline, rfl⟩ := List.mem_map.mp hvalue
  exact hform.values line (List.mem_filter.mp hline).1

/-- Digits without a sign spell one number only. -/
theorem eq_of_spells {value : Bytes} {m n : Nat} (hm : SpellsNat value m) (hn : Spells value n) :
    m = n := by
  cases hm with
  | plain hm => exact hm.number.symm.trans hn.number
  | plus _ => exact absurd (hn.digits _ List.mem_cons_self) (by decide)

/-- **What is accepted, and what it says of its length.** The head of any buffer that is read has no
`transfer-encoding`, and if it has a `content-length`, the first spells the length of the body; where
all of them are digits and spell one number, the length is told in one way only. Of the complete
heads within the limits, just those with a coding or a first `content-length` that spells no number
are refused for it, whatever stands behind the first. -/
theorem framing_read (b : Bytes) :
    (∀ head length rest, read b = .head head length rest →
      head.fields.values "transfer-encoding" = [] ∧
      (∀ value ∈ head.fields.values "content-length", Syntax.Value value) ∧
      (head.fields.values "content-length" = [] ∧ length = 0 ∨
        ∃ first others, head.fields.values "content-length" = first :: others ∧
          SpellsNat first length ∧ length ≤ max64) ∧
      ((∃ n, ∀ value ∈ head.fields.values "content-length", Spells value n) →
        head.fields.Unambiguous length)) ∧
    ∀ raw rest target, Syntax.head maxFields b = .value raw rest → minHead ≤ b.length →
      b.length - rest.length ≤ maxHead → Target.parse? raw.target = some target →
      let sound := Fields.valuesOf raw.fields "transfer-encoding" = [] ∧
        ∀ first ∈ (Fields.valuesOf raw.fields "content-length").head?,
          ∃ n ≤ max64, SpellsNat first n
      (sound → ∃ head length, read b = .head head length rest) ∧
        (¬sound → ∃ e, read b = .fault e rest) := by
  constructor
  · intro head length rest h
    obtain ⟨-, raw, hraw, -, -, hlength, hhead⟩ := read_head h
    have hfields : head.fields = collect raw.fields := by rw [hhead]
    have hvalues := values_of_head hraw "content-length"
    rw [bodyLength_eq_ok_iff hvalues] at hlength
    rw [hfields]
    obtain ⟨hcoding, hlengths⟩ := hlength
    cases hall : (collect raw.fields).values "content-length" with
    | nil =>
      rw [hall] at hlengths
      exact ⟨hcoding, nofun, .inl ⟨rfl, hlengths⟩, fun _ => ⟨hcoding, .inl ⟨hall, hlengths⟩⟩⟩
    | cons first others =>
      rw [hall] at hlengths hvalues
      refine ⟨hcoding, hvalues, .inr ⟨first, others, rfl, hlengths⟩, ?_⟩
      rintro ⟨n, hagree⟩
      obtain rfl := eq_of_spells hlengths.1 (hagree first List.mem_cons_self)
      refine ⟨hcoding, .inr ⟨by rw [hall]; exact List.cons_ne_nil _ _, ?_⟩⟩
      rw [hall]
      exact hagree
  · intro raw rest target hraw hmin hsize htarget sound
    have hiff := fun n => bodyLength_eq_ok_iff (n := n) (values_of_head hraw "content-length")
    rw [read_eq_readAny hmin, readAny_value hraw, ofRaw, if_neg (Nat.not_lt.mpr hsize), htarget]
    simp only [values_collect] at hiff
    have hsound : sound ↔ ∃ n, bodyLength (collect raw.fields) = .ok n := by
      simp only [hiff, sound]
      cases Fields.valuesOf raw.fields "content-length" with
      | nil => simp
      | cons first others => simp [and_comm]
    cases hlength : bodyLength (collect raw.fields) with
    | ok n =>
      simp only
      exact ⟨fun _ => ⟨_, n, rfl⟩, fun hnot => absurd (hsound.mpr ⟨n, hlength⟩) hnot⟩
    | error e =>
      simp only
      refine ⟨fun hok => ?_, fun _ => ⟨e, rfl⟩⟩
      obtain ⟨n, hn⟩ := hsound.mp hok
      rw [hlength] at hn
      cases hn

/-- Two lines that agree, and blanks around the first. -/
theorem framing_read_agreed :
    let b := Text.Utf8.encode
      "POST /a HTTP/1.1\r\nContent-Length: \t 05 \r\ncontent-length:5\r\n\r\nhello"
    ∃ head rest, read b = .head head 5 rest ∧
      head.fields.values "content-length" = [Text.Utf8.encode "05", Text.Utf8.encode "5"] ∧
      head.fields.Unambiguous 5 := by
  intro b
  let head : Head := ⟨"POST", ⟨none, "", "/a", none⟩, .http11,
    [⟨"content-length", [Text.Utf8.encode "05", Text.Utf8.encode "5"]⟩]⟩
  have hread : read b = .head head 5 (Text.Utf8.encode "hello") := by decide +kernel
  have hagree : ∃ n, ∀ value ∈ head.fields.values "content-length", Spells value n := by
    refine ⟨5, fun value hvalue => ?_⟩
    have hmem : value = Text.Utf8.encode "05" ∨ value = Text.Utf8.encode "5" := by
      simpa [head, Fields.values] using hvalue
    obtain rfl | rfl := hmem
    · exact ⟨by decide +kernel, by decide +kernel, by decide +kernel⟩
    · exact ⟨by decide +kernel, by decide +kernel, by decide +kernel⟩
  exact ⟨head, _, hread, rfl, ((framing_read b).1 head 5 _ hread).2.2.2 hagree⟩

/-- A head that announces two lengths, and one that announces its length with a sign. -/
theorem ambiguous_read :
    let twice := Text.Utf8.encode
      "POST /a HTTP/1.1\r\nContent-Length: 0\r\nContent-Length: 5\r\n\r\nhello"
    let signed := Text.Utf8.encode "POST /a HTTP/1.1\r\nContent-Length: +5\r\n\r\nhello"
    (∃ head, read twice = .head head 0 (Text.Utf8.encode "hello") ∧
      ¬head.fields.Unambiguous 0) ∧
    ∃ head, read signed = .head head 5 (Text.Utf8.encode "hello") ∧
      ¬head.fields.Unambiguous 5 := by
  intro twice signed
  refine ⟨⟨⟨"POST", ⟨none, "", "/a", none⟩, .http11,
    [⟨"content-length", [Text.Utf8.encode "0", Text.Utf8.encode "5"]⟩]⟩, by decide +kernel, ?_⟩,
    ⟨⟨"POST", ⟨none, "", "/a", none⟩, .http11, [⟨"content-length", [Text.Utf8.encode "+5"]⟩]⟩,
      by decide +kernel, ?_⟩⟩
  · rintro ⟨-, ⟨hnone, -⟩ | ⟨-, hall⟩⟩
    · exact absurd hnone (by decide +kernel)
    · have hfive := (hall (Text.Utf8.encode "5") (by decide +kernel)).number
      exact absurd hfive (by decide +kernel)
  · rintro ⟨-, ⟨hnone, -⟩ | ⟨-, hall⟩⟩
    · exact absurd hnone (by decide +kernel)
    · have hdigits := (hall (Text.Utf8.encode "+5") (by decide +kernel)).digits
      exact absurd hdigits (by decide +kernel)

end Head

end Depot.Http
