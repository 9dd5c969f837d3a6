import Depot.Digest
import Depot.Proofs.Text.Utf8

/-! # Texts that name tokens

A text names a token of a digest if its bytes are hexadecimal digits, as many as the digest has. The
key of the token is these bytes in lower case (`parse_eq_ok_iff`), so what texts name can be told
from their bytes. -/

namespace Depot

open Text.Utf8 (encode asciiText)
open Text.Ascii (isHexDigit sameIgnoringCase)

/-! ## Hexadecimal digits -/

namespace Text.Ascii

def hexDigits : Bytes := encode "0123456789abcdefABCDEF"

theorem isHexDigit_iff (b : UInt8) : isHexDigit (Char.ofNat b.toNat) = true ↔ b ∈ hexDigits := by
  have hall : ∀ i : Fin 256, isHexDigit (Char.ofNat (UInt8.ofNat i).toNat) = true ↔
      UInt8.ofNat i ∈ hexDigits := by decide +kernel
  have hb := hall ⟨b.toNat, b.toNat_lt⟩
  rwa [UInt8.ofNat_toNat] at hb

/-- A digit is plain ASCII. In lower case it is a digit that stays as it is, and the character of
that digit. -/
theorem hexDigits_facts : ∀ b ∈ hexDigits, b < 0x80 ∧ toLower b ∈ hexDigits ∧
    toLower (toLower b) = toLower b ∧
    (Char.ofNat b.toNat).toLower = Char.ofNat (toLower b).toNat := by
  decide +kernel

theorem lt_of_isHexDigit {c : Char} (h : isHexDigit c = true) : c.toNat < 128 := by
  simp only [isHexDigit, Char.le_def, UInt32.le_iff_toNat_le, Bool.or_eq_true, Bool.and_eq_true,
    decide_eq_true_eq] at h
  simp at h
  omega

/-- Text of digits only is the text of its bytes. -/
theorem exists_hex {text : String} (h : text.toList.all isHexDigit = true) :
    ∃ bytes, Utf8.Ascii bytes ∧ asciiText bytes = text :=
  Utf8.exists_ascii fun c hc => lt_of_isHexDigit (List.all_eq_true.mp h c hc)

/-- Hexadecimal digits take a byte each. -/
theorem utf8ByteSize_hex {text : String} (h : text.toList.all isHexDigit = true) :
    text.utf8ByteSize = text.toList.length := by
  obtain ⟨bytes, hascii, rfl⟩ := exists_hex h
  rw [Utf8.utf8ByteSize_eq, Utf8.encode_asciiText hascii, Utf8.toList_asciiText, List.length_map]

/-- Hexadecimal digits are the characters whose bytes are. -/
theorem all_isHexDigit_iff (text : String) :
    text.toList.all isHexDigit = true ↔ ∀ b ∈ encode text, b ∈ hexDigits := by
  constructor
  · intro hhex
    obtain ⟨bytes, hascii, rfl⟩ := exists_hex hhex
    rw [Utf8.toList_asciiText, List.all_map, List.all_eq_true] at hhex
    rw [Utf8.encode_asciiText hascii]
    exact fun b hb => (isHexDigit_iff b).mp (hhex b hb)
  · intro hbytes
    have hascii : Utf8.Ascii (encode text) := fun b hb => (hexDigits_facts b (hbytes b hb)).1
    rw [← Utf8.asciiText_encode hascii, Utf8.toList_asciiText, List.all_map, List.all_eq_true]
    exact fun b hb => (isHexDigit_iff b).mpr (hbytes b hb)

end Text.Ascii

open Text.Ascii (hexDigits hexDigits_facts toLower)

/-! ## Parsing -/

theorem Digest.tokenLength_inj {d d' : Digest} (h : d.tokenLength = d'.tokenLength) : d = d' := by
  revert h
  cases d <;> cases d' <;> decide

namespace Token

variable {d d' : Digest} {text other : String} {t t' : Token}

theorem key_inj : t.key = t'.key ↔ t = t' := by
  cases t
  cases t'
  rw [key, key, Text.Utf8.encode_inj, mk.injEq]

/-- The bytes of a text are as many hexadecimal digits as the digest has. -/
structure Names (d : Digest) (text : String) : Prop where
  length : (encode text).length = d.tokenLength
  digits : ∀ b ∈ encode text, b ∈ hexDigits

/-- Digits are lowered byte by byte. -/
theorem encode_lowered (h : ∀ b ∈ encode text, b ∈ hexDigits) :
    encode (String.ofList (text.toList.map Char.toLower)) = (encode text).map toLower := by
  have hascii : Text.Utf8.Ascii (encode text) := fun b hb => (hexDigits_facts b (h b hb)).1
  have hlowered : Text.Utf8.Ascii ((encode text).map toLower) := by
    intro b hb
    obtain ⟨c, hc, rfl⟩ := List.mem_map.mp hb
    exact (hexDigits_facts _ (hexDigits_facts c (h c hc)).2.1).1
  have hchars : text.toList.map Char.toLower =
      ((encode text).map toLower).map fun b => Char.ofNat b.toNat := by
    calc text.toList.map Char.toLower
        = ((encode text).map fun b => Char.ofNat b.toNat).map Char.toLower := by
          rw [← Text.Utf8.toList_asciiText, Text.Utf8.asciiText_encode hascii]
      _ = ((encode text).map toLower).map fun b => Char.ofNat b.toNat := by
          rw [List.map_map, List.map_map]
          exact List.map_congr_left fun b hb => (hexDigits_facts b (h b hb)).2.2.2
  rw [hchars]
  exact Text.Utf8.encode_asciiText hlowered

theorem parse_of_length (h : (encode text).length ≠ d.tokenLength) :
    parse d text = .error (.length d.tokenLength (encode text).length) := by
  rw [parse, Text.Utf8.utf8ByteSize_eq, if_pos h]

theorem Names.parse (h : Names d text) :
    ∃ t, Token.parse d text = .ok t ∧ t.key = (encode text).map toLower := by
  refine ⟨⟨String.ofList (text.toList.map Char.toLower)⟩, ?_, encode_lowered h.digits⟩
  have hhex := (Text.Ascii.all_isHexDigit_iff text).mpr h.digits
  rw [Token.parse, Text.Utf8.utf8ByteSize_eq, if_neg (not_not.mpr h.length), hhex]
  rfl

theorem names_of_parse (h : parse d text = .ok t) : Names d text := by
  unfold parse at h
  split at h
  · cases h
  · next hlength =>
    split at h
    · cases h
    · next hhex =>
      rw [Text.Utf8.utf8ByteSize_eq] at hlength
      exact ⟨not_not.mp hlength, (Text.Ascii.all_isHexDigit_iff text).mp (by simpa using hhex)⟩

/-- A text names just the token whose key is its digits in lower case. -/
theorem parse_eq_ok_iff :
    parse d text = .ok t ↔ Names d text ∧ t.key = (encode text).map toLower := by
  constructor
  · intro h
    have hnames := names_of_parse h
    obtain ⟨t', hparse, hkey⟩ := hnames.parse
    rw [h] at hparse
    cases hparse
    exact ⟨hnames, hkey⟩
  · rintro ⟨hnames, hkey⟩
    obtain ⟨t', hparse, hkey'⟩ := hnames.parse
    rw [hparse, key_inj.mp (hkey'.trans hkey.symm)]

theorem exists_parse_iff : (∃ t, parse d text = .ok t) ↔ Names d text :=
  ⟨fun ⟨_, h⟩ => names_of_parse h, fun h => (h.parse).imp fun _ => And.left⟩

/-- Texts name the same token if they differ in case only. -/
theorem eq_iff_sameIgnoringCase (h : parse d text = .ok t) (h' : parse d' other = .ok t') :
    t = t' ↔ sameIgnoringCase (encode text) (encode other) = true := by
  rw [← key_inj, (parse_eq_ok_iff.mp h).2, (parse_eq_ok_iff.mp h').2, sameIgnoringCase, beq_iff_eq]

/-- A token is a text that names it. -/
theorem parse_text (h : parse d text = .ok t) : parse d t.text = .ok t := by
  obtain ⟨hnames, hkey⟩ := parse_eq_ok_iff.mp h
  have hbytes : encode t.text = (encode text).map toLower := hkey
  refine parse_eq_ok_iff.mpr ⟨⟨?_, fun b hb => ?_⟩, ?_⟩
  · rw [hbytes, List.length_map, hnames.length]
  · rw [hbytes] at hb
    obtain ⟨c, hc, rfl⟩ := List.mem_map.mp hb
    exact (hexDigits_facts c (hnames.digits c hc)).2.1
  · rw [hkey, hbytes, List.map_map]
    exact List.map_congr_left fun b hb => (hexDigits_facts b (hnames.digits b hb)).2.2.1.symm

/-- No text names tokens of two digests. -/
theorem digest_unique (h : parse d text = .ok t) (h' : parse d' text = .ok t') : d = d' :=
  Digest.tokenLength_inj ((names_of_parse h).length.symm.trans (names_of_parse h').length)

end Token

end Depot
