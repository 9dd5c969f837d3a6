import Depot.Http.Head
import Depot.Proofs.Http.HeadGrammar

/-! # Heads are read back from how they are written

A head is written as a request line, a line for each field and an empty line, every one ended by
CRLF. If its parts are what the syntax allows there (`RawHead.Plain`), this is one way of wording
it, so reading takes exactly these bytes and gives the head back, whatever lies behind them
(`head_render`). -/

namespace Depot.Http

open Text.Ascii (crlf space)

/-- A field line. -/
def renderLine (field : Bytes × Bytes) : Bytes :=
  field.1 ++ Target.colon :: space :: (field.2 ++ crlf)

/-- The bytes of a head. -/
def RawHead.render (h : RawHead) : Bytes :=
  h.method ++ space :: (h.target ++ space :: (Text.Utf8.encode h.version.label ++ crlf ++
    (h.fields.flatMap renderLine ++ crlf)))

namespace Syntax

/-- Whether the bytes are a value as a field line gives it: no control bytes, no blank at either
end. -/
structure Value (bytes : Bytes) : Prop where
  plain : ∀ b ∈ bytes, isValueByte b = true
  front : ∀ b ∈ bytes.head?, isBlank b = false
  back : ∀ b ∈ bytes.getLast?, isBlank b = false

/-- Whether the bytes are a target in visible ASCII. -/
structure Visible (bytes : Bytes) : Prop where
  nonempty : bytes ≠ []
  plain : ∀ b ∈ bytes, 0x21 ≤ b ∧ b ≤ 0x7E

instance : DecidablePred Value := fun bytes =>
  decidable_of_iff ((∀ b ∈ bytes, isValueByte b = true) ∧ (∀ b ∈ bytes.head?, isBlank b = false) ∧
      ∀ b ∈ bytes.getLast?, isBlank b = false)
    ⟨fun h => ⟨h.1, h.2.1, h.2.2⟩, fun h => ⟨h.plain, h.front, h.back⟩⟩

instance : DecidablePred Visible := fun bytes =>
  decidable_of_iff (bytes ≠ [] ∧ ∀ b ∈ bytes, 0x21 ≤ b ∧ b ≤ 0x7E)
    ⟨fun h => ⟨h.1, h.2⟩, fun h => ⟨h.nonempty, h.plain⟩⟩

theorem Visible.ascii {bytes : Bytes} (h : Visible bytes) : Text.Utf8.Ascii bytes :=
  fun b hb => UInt8.lt_of_le_of_lt (h.plain b hb).2 (show (0x7E : UInt8) < 0x80 by decide)

theorem Visible.target {bytes : Bytes} (h : Visible bytes) : TargetForm bytes where
  nonempty := h.nonempty
  plain b hb := by
    obtain ⟨hlow, hhigh⟩ := h.plain b hb
    have hne : b ≠ 0x7F := fun he => absurd (he ▸ hhigh) (by decide)
    simp [isTargetByte, hlow, hne]
  text := by rw [Text.Utf8.decode?_ascii h.ascii]; rfl

/-- A value without a blank at its end is not cut. -/
theorem trimEnd_value {bytes : Bytes} (h : Value bytes) : trimEnd bytes = bytes := by
  have hkeep : bytes.reverse.dropWhile isBlank = bytes.reverse := by
    cases hr : bytes.reverse with
    | nil => rfl
    | cons b bs =>
      have hlast : bytes.getLast? = some b := by
        rw [List.getLast?_eq_head?_reverse, hr]
        rfl
      exact List.dropWhile_cons_of_neg (by simp [h.back b hlast])
  rw [trimEnd, hkeep, List.reverse_reverse]

theorem fieldForm_renderLine {f : Bytes × Bytes} (hn : Token f.1) (hv : Value f.2) :
    FieldForm f (renderLine f) := by
  have hblank : ∀ b ∈ [space], isBlank b = true := by simp [isBlank]
  have hform := FieldForm.line hn hblank hv.plain hv.front .full
  rwa [trimEnd_value hv] at hform

theorem fieldsForm_render {all : List (Bytes × Bytes)} (h : ∀ f ∈ all, Token f.1 ∧ Value f.2) :
    FieldsForm all (all.flatMap renderLine ++ crlf) := by
  induction all with
  | nil => exact .ended .full
  | cons f all ih =>
    obtain ⟨hf, hall⟩ := List.forall_mem_cons.mp h
    rw [List.flatMap_cons, List.append_assoc]
    exact .line (fieldForm_renderLine hf.1 hf.2) (ih hall)

end Syntax

/-! ## Whole heads -/

/-- Whether the parts of a head are what the syntax allows there. -/
structure RawHead.Plain (h : RawHead) : Prop where
  method : Syntax.Token h.method
  target : Syntax.Visible h.target
  version : h.version = .http10 ∨ h.version = .http11
  fields : ∀ f ∈ h.fields, Syntax.Token f.1 ∧ Syntax.Value f.2

instance : DecidablePred RawHead.Plain := fun h =>
  decidable_of_iff (Syntax.Token h.method ∧ Syntax.Visible h.target ∧
      (h.version = .http10 ∨ h.version = .http11) ∧
        ∀ f ∈ h.fields, Syntax.Token f.1 ∧ Syntax.Value f.2)
    ⟨fun p => ⟨p.1, p.2.1, p.2.2.1, p.2.2.2⟩, fun p => ⟨p.method, p.target, p.version, p.fields⟩⟩

/-- Writing a head is one way of wording it. -/
theorem RawHead.Plain.form {h : RawHead} (hp : h.Plain) : Syntax.HeadForm h h.render := by
  have hform := Syntax.HeadForm.lines .none hp.method hp.target.target hp.version .full
    (Syntax.fieldsForm_render hp.fields)
  rwa [← List.append_assoc (Text.Utf8.encode _)] at hform

/-- A head is read back, and no byte behind it is touched. -/
theorem Syntax.head_render {h : RawHead} (hp : h.Plain) {room : Nat}
    (hroom : h.fields.length ≤ room) (t : Bytes) : Syntax.head room (h.render ++ t) = .value h t :=
  head_of_form hp.form hroom t

/-- A head with a method of three bytes is as long as the shortest that is looked at. -/
theorem RawHead.minHead_le_render {h : RawHead} (hp : h.Plain) (hm : 3 ≤ h.method.length) :
    minHead ≤ h.render.length := by
  have ht : 1 ≤ h.target.length := List.length_pos_iff.mpr hp.target.nonempty
  simp only [RawHead.render, crlf, List.length_append, List.length_cons, List.length_nil,
    Syntax.length_label hp.version, minHead]
  omega

end Depot.Http
