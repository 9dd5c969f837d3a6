import Depot.Proofs.Text.Integer
import Depot.Proofs.Resp.WireForm

/-! # The reader and the grammar

The reader accepts the grammar of replies and nothing else: what it takes off a buffer is a wire
form of the reply it gives (`wireForm_of_value`), as it reads every wire form there is
(`decode_wireForm`). Since it reads in one way only, no wire form is the front of another one
(`WireForm.prefix_free`), and bytes that it gives up on are the front of nothing in the grammar. -/

namespace Depot.Resp

open Text.Ascii (crlf)
open Text.Decimal (intOfBytes? SpellsInt)

variable {fuel : Nat} {b text rest : Bytes} {kind : UInt8} {v : Value}

theorem numberOf_value {n : Int} (h : numberOf text b = .value n rest) :
    intOfBytes? text = some n ∧ b = rest := by
  cases hread : intOfBytes? text with
  | none =>
    rw [numberOf, hread] at h
    cases h
  | some m =>
    rw [numberOf_eq hread] at h
    cases h
    exact ⟨rfl, rfl⟩

theorem bulk_value {n : Int} (h : bulk n b = .value v rest) :
    n < 0 ∧ v = .nil ∧ rest = b ∨
      ∃ bytes, n = (bytes.length : Int) ∧ bytes.length ≤ maxBulk ∧ v = .bulk bytes ∧
        b = bytes ++ crlf ++ rest := by
  cases n with
  | negSucc m =>
    cases h
    exact .inl ⟨Int.negSucc_lt_zero m, rfl, rfl⟩
  | ofNat m =>
    right
    unfold bulk at h
    simp only at h
    split at h
    · cases h
    · next hmax =>
      obtain ⟨bytes, back, hbody, hv⟩ := Scanner.bind_value h
      cases hv
      obtain ⟨hb, rfl⟩ := bulkBody_value hbody
      exact ⟨bytes, rfl, Nat.le_of_not_lt hmax, rfl, hb⟩

/-- A reply starts with a line: the byte of its kind, and a text. -/
theorem value_inv (h : value (fuel + 1) b = .value v rest) :
    ∃ kind text back, b = kind :: (text ++ crlf ++ back) ∧ IsLine text ∧
      payload fuel kind text back = .value v rest := by
  rw [value_succ] at h
  obtain ⟨kind, behind, hkind, hbehind⟩ := Scanner.bind_value h
  obtain ⟨text, back, htext, hpayload⟩ := Scanner.bind_value hbehind
  obtain ⟨rfl, hline⟩ := textLine_value htext
  cases b with
  | nil => cases hkind
  | cons c b =>
    cases hkind
    exact ⟨kind, text, back, rfl, hline, hpayload⟩

theorem values_inv {count : Nat} {vs : List Value}
    (h : values (fuel + 1) (count + 1) b = .value vs rest) :
    ∃ item items back, value fuel b = .value item back ∧
      values fuel count back = .value items rest ∧ vs = item :: items := by
  rw [values_succ] at h
  obtain ⟨item, back, hitem, h⟩ := Scanner.bind_value h
  obtain ⟨items, back', hitems, h⟩ := Scanner.bind_value h
  cases h
  exact ⟨item, items, back, hitem, hitems, rfl⟩

/-- The byte of a kind and the text behind it are a line of that kind. -/
theorem line_cons {c : Char} (hc : c.toNat < 0x80) (h : Char.ofNat kind.toNat = c)
    (text rest : Bytes) : kind :: (text ++ crlf ++ rest) = line c text ++ rest := by
  have hvalid : kind.toNat.isValidChar := .inl (kind.toNat_lt.trans (by decide))
  have hbyte : kind.toNat = c.toNat := by
    rw [← h, Char.ofNat, dif_pos hvalid]
    rfl
  have hascii : Text.Utf8.Ascii [kind] := by
    rw [← hbyte] at hc
    simpa [Text.Utf8.Ascii, UInt8.lt_iff_toNat_lt] using hc
  have hkind := Text.Utf8.encode_asciiText hascii
  rw [Text.Utf8.asciiText, List.map_singleton, h] at hkind
  rw [line, hkind]
  simp

/-- What is behind the line of a reply, kind by kind. -/
theorem payload_cases (fuel : Nat) (kind : UInt8) (text : Bytes) :
    Char.ofNat kind.toNat = '+' ∧
        payload fuel kind text = pure (.status (Text.Utf8.lossy text)) ∨
      Char.ofNat kind.toNat = '-' ∧
        payload fuel kind text = pure (.failure (Text.Utf8.lossy text)) ∨
      Char.ofNat kind.toNat = ':' ∧
        payload fuel kind text = (numberOf text >>= fun n => pure (.integer n)) ∨
      Char.ofNat kind.toNat = '$' ∧ payload fuel kind text = (numberOf text >>= bulk) ∨
      Char.ofNat kind.toNat = '*' ∧
        payload fuel kind text = (numberOf text >>= fun
          | .negSucc _ => pure .nil
          | .ofNat count => values fuel count >>= fun items => pure (.array items)) ∨
      payload fuel kind text = .fail (.unknownKind kind) := by
  unfold payload
  split
  · next hkind => exact .inl ⟨hkind, rfl⟩
  · next hkind => exact .inr (.inl ⟨hkind, rfl⟩)
  · next hkind => exact .inr (.inr (.inl ⟨hkind, rfl⟩))
  · next hkind => exact .inr (.inr (.inr (.inl ⟨hkind, rfl⟩)))
  · next hkind => exact .inr (.inr (.inr (.inr (.inl ⟨hkind, rfl⟩))))
  · exact .inr (.inr (.inr (.inr (.inr rfl))))

/-- What is read behind the line of a reply completes a wire form, if what is read as the items of
an array are wire forms. -/
theorem wireForm_of_payload (hline : IsLine text)
    (hitems : ∀ count b vs rest, values fuel count b = .value vs rest →
      ∃ forms : List (Bytes × Value), forms.length = count ∧
        (∀ form ∈ forms, WireForm form.1 form.2) ∧ vs = forms.map Prod.snd ∧
        b = forms.flatMap Prod.fst ++ rest)
    (h : payload fuel kind text b = .value v rest) :
    ∃ w, WireForm w v ∧ kind :: (text ++ crlf ++ b) = w ++ rest := by
  obtain ⟨hkind, hp⟩ | ⟨hkind, hp⟩ | ⟨hkind, hp⟩ | ⟨hkind, hp⟩ | ⟨hkind, hp⟩ | hp :=
    payload_cases fuel kind text <;> rw [hp] at h
  · cases h
    exact ⟨_, .status hline, line_cons (by decide) hkind text b⟩
  · cases h
    exact ⟨_, .failure hline, line_cons (by decide) hkind text b⟩
  · obtain ⟨n, back, hread, hv⟩ := Scanner.bind_value h
    obtain ⟨hn, rfl⟩ := numberOf_value hread
    cases hv
    exact ⟨_, .integer hline hn, line_cons (by decide) hkind text b⟩
  · obtain ⟨n, back, hread, hv⟩ := Scanner.bind_value h
    obtain ⟨hn, rfl⟩ := numberOf_value hread
    obtain ⟨hneg, rfl, rfl⟩ | ⟨bytes, rfl, hmax, rfl, rfl⟩ := bulk_value hv
    · exact ⟨_, .noBulk hline hn hneg, line_cons (by decide) hkind text rest⟩
    · refine ⟨_, .bulk hline hn hmax, ?_⟩
      rw [line_cons (by decide) hkind, List.append_assoc, List.append_assoc, List.append_assoc]
  · obtain ⟨n, back, hread, hv⟩ := Scanner.bind_value h
    obtain ⟨hn, rfl⟩ := numberOf_value hread
    cases n with
    | negSucc m =>
      cases hv
      exact ⟨_, .noArray hline hn (Int.negSucc_lt_zero m), line_cons (by decide) hkind text b⟩
    | ofNat count =>
      obtain ⟨vs, behind, hvs, hv⟩ := Scanner.bind_value hv
      cases hv
      obtain ⟨forms, rfl, hforms, rfl, rfl⟩ := hitems count _ vs _ hvs
      refine ⟨_, .array hline hn hforms, ?_⟩
      rw [line_cons (by decide) hkind, List.append_assoc]
  · cases h

/-- What the reader takes for a reply is a wire form of it, and so are the parts of what it takes
for the items of an array. -/
theorem wireForm_of_reading (fuel : Nat) :
    (∀ b v rest, value fuel b = .value v rest → ∃ w, WireForm w v ∧ b = w ++ rest) ∧
    ∀ count b vs rest, values fuel count b = .value vs rest →
      ∃ forms : List (Bytes × Value), forms.length = count ∧
        (∀ form ∈ forms, WireForm form.1 form.2) ∧ vs = forms.map Prod.snd ∧
        b = forms.flatMap Prod.fst ++ rest := by
  induction fuel with
  | zero =>
    refine ⟨nofun, fun count b vs rest h => ?_⟩
    cases count with
    | zero => cases h; exact ⟨[], rfl, by simp, rfl, rfl⟩
    | succ count => cases h
  | succ fuel ih =>
    obtain ⟨hvalue, hvalues⟩ := ih
    refine ⟨fun b v rest h => ?_, fun count b vs rest h => ?_⟩
    · obtain ⟨kind, text, back, rfl, hline, hpayload⟩ := value_inv h
      exact wireForm_of_payload hline hvalues hpayload
    · cases count with
      | zero => cases h; exact ⟨[], rfl, by simp, rfl, rfl⟩
      | succ count =>
        obtain ⟨item, items, back, hitem, hitems, rfl⟩ := values_inv h
        obtain ⟨w, hw, rfl⟩ := hvalue b item back hitem
        obtain ⟨forms, rfl, hforms, rfl, rfl⟩ := hvalues count back items rest hitems
        refine ⟨(w, item) :: forms, rfl, List.forall_mem_cons.mpr ⟨hw, hforms⟩, rfl, ?_⟩
        rw [List.flatMap_cons, List.append_assoc]

/-- A reply is read exactly where the buffer starts with a wire form of it. -/
theorem decode_eq_value :
    decode b = .value v rest ↔ ∃ w, WireForm w v ∧ b = w ++ rest := by
  constructor
  · exact (wireForm_of_reading _).1 b v rest
  · rintro ⟨w, hw, rfl⟩
    exact decode_wireForm hw rest

/-- A buffer starts with one wire form at most, and that is a wire form of one reply. -/
theorem WireForm.prefix_free {w w' t t' : Bytes} {v v' : Value} (h : WireForm w v)
    (h' : WireForm w' v') (heq : w ++ t = w' ++ t') : w = w' ∧ v = v' := by
  have hread := decode_wireForm h t
  rw [heq, decode_wireForm h' t', Scan.value.injEq] at hread
  obtain ⟨rfl, rfl⟩ := hread
  exact ⟨List.append_cancel_right heq, rfl⟩

/-- What the reader gives up on is not the front of anything that starts with a wire form. -/
theorem WireForm.not_prefix_of_fault {e : Fault} {t w : Bytes} (h : decode b = .fault e)
    (hw : WireForm w v) : ¬ w <+: b ++ t := by
  rintro ⟨rest, hrest⟩
  have hread := decode_wireForm hw rest
  rw [hrest, decode_fault_append h] at hread
  cases hread

/-- **The reader accepts the grammar of replies.** A reply is read off a buffer, and bytes of it
taken, just if those bytes are a wire form of the reply, where the numbers of a wire form are
spelled as signed 64-bit numbers. No other front of the buffer, and no other buffer that starts with
the same bytes, has another wire form; and no fault is found in bytes that can be continued to
something that starts with one. -/
theorem decode_grammar :
    (∀ b v rest, decode b = .value v rest ↔ ∃ w, WireForm w v ∧ b = w ++ rest) ∧
      (∀ text n, intOfBytes? text = some n ↔ SpellsInt text n) ∧
      (∀ w w' t t' v v', WireForm w v → WireForm w' v' → w ++ t = w' ++ t' → w = w' ∧ v = v') ∧
      ∀ b e t w v, decode b = .fault e → WireForm w v → ¬ w <+: b ++ t :=
  ⟨fun _ _ _ => decode_eq_value, fun _ _ => Text.Decimal.intOfBytes?_eq_some,
    fun _ _ _ _ _ _ hw hw' heq => hw.prefix_free hw' heq,
    fun _ _ _ _ _ he hw => hw.not_prefix_of_fault he⟩

/-- `*2`, `$2` with a line end for its bytes, `:-07` is one wire form; what starts with the line
`:1-` is continued to none. -/
theorem decode_grammar_nested :
    (∃ w, WireForm w (.array [.bulk crlf, .integer (-7)]) ∧
      [0x2A, 0x32, 13, 10, 0x24, 0x32, 13, 10, 13, 10, 13, 10, 0x3A, 0x2D, 0x30, 0x37, 13, 10, 0x2B]
        = w ++ [0x2B]) ∧
      ∀ t w v, WireForm w v → ¬ w <+: [0x3A, 0x31, 0x2D, 13, 10] ++ t :=
  ⟨(decode_grammar.1 _ _ _).mp rfl,
    fun _ _ _ hw => decode_grammar.2.2.2 _ .notNumber _ _ _ rfl hw⟩

end Depot.Resp
