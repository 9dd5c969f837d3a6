import Depot.Resp.Command
import Depot.Proofs.Text.Decimal
import Depot.Proofs.Resp.Streaming

/-! # Commands on the wire

A command goes out as a wire form of the array of its parts, the name first (`wireForm_encode`), so
what is read off commands sent one behind the other is just these arrays. The lengths in front of
the parts say where each ends, whatever bytes it holds: what is sent tells the commands apart
(`flatMap_encode_injective`). -/

namespace Depot.Resp

open Text.Ascii (cr crlf)
open Text.Decimal (max63)

variable {text text' bytes bytes' t t' : Bytes}

/-! ## Lengths and bulk strings -/

theorem isLine_decimal (n : Nat) : IsLine (Text.Decimal.encode n) := by
  refine isLine_of_not_mem fun hcr => ?_
  have hdigit := ((Text.Decimal.spells_encode n).digits cr hcr).1
  exact absurd hdigit (by decide)

/-- A line tells its text from what lies behind it. -/
theorem line_append_inj {kind : Char} (h : IsLine text) (h' : IsLine text')
    (heq : line kind text ++ t = line kind text' ++ t') : text = text' ∧ t = t' := by
  have hbehind : text ++ crlf ++ t = text' ++ crlf ++ t' := by
    simp only [line, List.append_assoc, List.append_cancel_left_eq] at heq
    simpa only [List.append_assoc] using heq
  have hread := textLine_append h t
  rw [hbehind, textLine_append h', Scan.value.injEq] at hread
  exact ⟨hread.1.symm, hread.2.symm⟩

theorem bulkForm_append_inj (h : bulkForm bytes ++ t = bulkForm bytes' ++ t') :
    bytes = bytes' ∧ t = t' := by
  simp only [bulkForm, List.append_assoc] at h
  obtain ⟨hlength, hbehind⟩ := line_append_inj (isLine_decimal _) (isLine_decimal _) h
  obtain ⟨rfl, ht⟩ := List.append_inj hbehind (Text.Decimal.encode_injective hlength)
  exact ⟨rfl, List.append_cancel_left ht⟩

theorem bulkForms_append_inj {parts parts' : List Bytes} (hlength : parts.length = parts'.length)
    (h : parts.flatMap bulkForm ++ t = parts'.flatMap bulkForm ++ t') :
    parts = parts' ∧ t = t' := by
  induction parts generalizing parts' with
  | nil =>
    obtain rfl := List.length_eq_zero_iff.mp hlength.symm
    exact ⟨rfl, h⟩
  | cons part parts ih =>
    cases parts' with
    | nil => cases hlength
    | cons part' parts' =>
      simp only [List.flatMap_cons, List.append_assoc] at h
      obtain ⟨rfl, hrest⟩ := bulkForm_append_inj h
      obtain ⟨rfl, ht⟩ := ih (Nat.succ.inj hlength) hrest
      exact ⟨rfl, ht⟩

theorem wireForm_bulkForm (h : bytes.length ≤ maxBulk) : WireForm (bulkForm bytes) (.bulk bytes) := by
  have hfits : bytes.length ≤ max63 := h.trans (by decide)
  have hform := WireForm.bulk (isLine_decimal _) (Text.Decimal.intOfBytes?_encode hfits) h
  rwa [← List.append_assoc] at hform

/-! ## Commands -/

namespace Command

/-- What a command sends, in order: its name goes out as an argument like the others. -/
def parts (c : Command) : List Bytes := Text.Utf8.encode c.name :: c.args

/-- The reply that has the wire form of the command. -/
def value (c : Command) : Value := .array (c.parts.map .bulk)

/-- The command has parts that fit a bulk string each, and no more of them than can be counted. -/
structure Sendable (c : Command) : Prop where
  parts_le : ∀ part ∈ c.parts, part.length ≤ maxBulk
  length_le : c.parts.length ≤ max63

variable {c c' : Command}

theorem encode_eq (c : Command) :
    c.encode = line '*' (Text.Decimal.encode c.parts.length) ++ c.parts.flatMap bulkForm := by
  rw [encode, parts, List.flatMap_cons, List.length_cons, List.append_assoc]

theorem encode_ne_nil (c : Command) : c.encode ≠ [] := by
  have hlength := length_line '*' (Text.Decimal.encode c.parts.length)
  intro hnil
  rw [encode_eq, List.append_eq_nil_iff] at hnil
  rw [hnil.1] at hlength
  exact absurd hlength (by simp)

theorem encode_append_inj (h : c.encode ++ t = c'.encode ++ t') : c = c' ∧ t = t' := by
  rw [encode_eq, encode_eq, List.append_assoc, List.append_assoc] at h
  obtain ⟨hcount, hparts⟩ := line_append_inj (isLine_decimal _) (isLine_decimal _) h
  obtain ⟨heq, ht⟩ := bulkForms_append_inj (Text.Decimal.encode_injective hcount) hparts
  obtain ⟨hname, hargs⟩ := List.cons.inj heq
  cases c
  cases c'
  simp only [mk.injEq]
  exact ⟨⟨Text.Utf8.encode_inj.mp hname, hargs⟩, ht⟩

/-- What is sent tells the commands: no argument reads as another one, or as a command. -/
theorem flatMap_encode_injective :
    Function.Injective fun commands : List Command => commands.flatMap encode := by
  intro commands others h
  induction commands generalizing others with
  | nil =>
    cases others with
    | nil => rfl
    | cons c' others => exact absurd (List.append_eq_nil_iff.mp h.symm).1 c'.encode_ne_nil
  | cons c commands ih =>
    cases others with
    | nil => exact absurd (List.append_eq_nil_iff.mp h).1 c.encode_ne_nil
    | cons c' others =>
      obtain ⟨rfl, hrest⟩ := encode_append_inj h
      rw [ih hrest]

theorem wireForm_encode (h : c.Sendable) : WireForm c.encode c.value := by
  have hcount := Text.Decimal.intOfBytes?_encode h.length_le
  have hforms : ∀ form ∈ c.parts.map fun part => (bulkForm part, Value.bulk part),
      WireForm form.1 form.2 := by
    intro form hform
    obtain ⟨part, hpart, rfl⟩ := List.mem_map.mp hform
    exact wireForm_bulkForm (h.parts_le part hpart)
  have harray := WireForm.array (isLine_decimal _) (by rw [List.length_map]; exact hcount) hforms
  rw [List.flatMap_map, List.map_map] at harray
  rw [encode_eq]
  exact harray

theorem delivers_encode {commands : List Command} (h : ∀ c ∈ commands, c.Sendable) :
    Delivers (commands.flatMap encode) (commands.map value) [] := by
  induction commands with
  | nil => exact .nothing
  | cons c commands ih =>
    obtain ⟨hc, hrest⟩ := List.forall_mem_cons.mp h
    exact .next (wireForm_encode hc) (ih hrest)

/-- **Commands are read as they were sent.** Off commands sent one behind the other, in whatever
chunks they arrive, one array of bulk strings is read for each, of the name and the arguments in
order; no byte is left, and there is no fault. No other commands are sent as the same bytes. -/
theorem feed_encode (commands : List Command) (h : ∀ c ∈ commands, c.Sendable) :
    (∀ chunks, chunks.flatten = commands.flatMap encode →
      feed [] chunks = ⟨commands.map value, [], none⟩) ∧
      ∀ others : List Command, others.flatMap encode = commands.flatMap encode →
        others = commands := by
  refine ⟨fun chunks hchunks => ?_, fun others heq => flatMap_encode_injective heq⟩
  have hvs := delivers_encode h
  rw [← hchunks] at hvs
  obtain ⟨hvalues, hfault, hrest⟩ := feed_eq hvs halts_nil
  cases hfeed : feed [] chunks with
  | mk values rest fault =>
    rw [hfeed] at hvalues hfault hrest
    rw [← hvalues, ← hfault, ← hrest rfl]

/-- A command with an argument that holds another command, and one with an empty argument. -/
theorem feed_encode_binary :
    let ping : Command := ⟨"PING", []⟩
    let commands : List Command := [⟨"SET", [crlf, ping.encode]⟩, ⟨"GET", [[]]⟩]
    feed [] [commands.flatMap encode] =
      ⟨[.array [.bulk (Text.Utf8.encode "SET"), .bulk crlf, .bulk ping.encode],
        .array [.bulk (Text.Utf8.encode "GET"), .bulk []]], [], none⟩ := by
  intro ping commands
  have h : ∀ c ∈ commands, c.Sendable := by
    rw [List.forall_mem_cons, List.forall_mem_singleton]
    exact ⟨⟨by decide +kernel, by decide +kernel⟩, ⟨by decide +kernel, by decide +kernel⟩⟩
  exact (feed_encode commands h).1 [_] (List.append_nil _)

end Command

end Depot.Resp
