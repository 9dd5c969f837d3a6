import Mathlib.Data.List.Basic
import Depot.Text.Utf8

/-! # Text in ASCII

Bytes below 128 spell one character each, so strict and lossy reading agree on them and writing
takes them back. Writing is one to one on all texts (`encode_inj`), and the bytes of one text start
those of another only where its characters do (`encode_prefix_iff`). -/

namespace Depot.Text.Utf8

/-- Whether the bytes are plain ASCII. -/
def Ascii (bytes : Bytes) : Prop := ∀ b ∈ bytes, b < 0x80

/-- The text of ASCII bytes. -/
def asciiText (bytes : Bytes) : String := String.ofList (bytes.map fun b => Char.ofNat b.toNat)

theorem toList_asciiText (bytes : Bytes) :
    (asciiText bytes).toList = bytes.map fun b => Char.ofNat b.toNat := String.toList_ofList

/-- Between characters an ASCII byte is a character. -/
theorem step_ascii {b : UInt8} (h : b < 0x80) :
    State.between.step b = .char (Char.ofNat b.toNat) := if_pos h

theorem foldlM_ascii {bytes : Bytes} (h : Ascii bytes) (read : List Char) :
    bytes.foldlM read? (.between, read) =
      some (.between, (bytes.map fun b => Char.ofNat b.toNat).reverse ++ read) := by
  induction bytes generalizing read with
  | nil => rfl
  | cons b bytes ih =>
    have hb : b < 0x80 := h b List.mem_cons_self
    have hrest : Ascii bytes := fun c hc => h c (List.mem_cons_of_mem _ hc)
    have hstep : read? (.between, read) b = some (.between, Char.ofNat b.toNat :: read) := by
      simp only [read?, step_ascii hb]
    rw [List.foldlM_cons, hstep]
    exact (ih hrest _).trans (by simp)

theorem foldl_ascii {bytes : Bytes} (h : Ascii bytes) (read : List Char) :
    bytes.foldl readLossy (.between, read) =
      (.between, (bytes.map fun b => Char.ofNat b.toNat).reverse ++ read) := by
  induction bytes generalizing read with
  | nil => rfl
  | cons b bytes ih =>
    have hb : b < 0x80 := h b List.mem_cons_self
    have hrest : Ascii bytes := fun c hc => h c (List.mem_cons_of_mem _ hc)
    have hstep : readLossy (.between, read) b = (.between, Char.ofNat b.toNat :: read) := by
      simp only [readLossy, step_ascii hb]
    rw [List.foldl_cons, hstep, ih hrest]
    simp

theorem decode?_ascii {bytes : Bytes} (h : Ascii bytes) :
    decode? bytes = some (asciiText bytes) := by
  unfold decode?
  rw [foldlM_ascii h]
  simp [asciiText]

theorem lossy_ascii {bytes : Bytes} (h : Ascii bytes) : lossy bytes = asciiText bytes := by
  unfold lossy
  rw [foldl_ascii h]
  simp [asciiText]

theorem toNat_ascii {b : UInt8} (h : b < 0x80) : (Char.ofNat b.toNat).toNat = b.toNat := by
  have hb : b.toNat < 128 := h
  have hvalid : b.toNat.isValidChar := .inl (by omega)
  rw [Char.ofNat, dif_pos hvalid]
  rfl

theorem encode_append (a b : String) : encode (a ++ b) = encode a ++ encode b := by
  simp [encode]

/-- The one byte of an ASCII character. -/
theorem utf8EncodeChar_ascii {b : UInt8} (h : b < 0x80) :
    String.utf8EncodeChar (Char.ofNat b.toNat) = [b] := by
  have hb : b.toNat < 128 := h
  have hv : (Char.ofNat b.toNat).val.toNat = b.toNat := toNat_ascii h
  unfold String.utf8EncodeChar
  rw [hv, if_pos (by omega)]
  simp

theorem encode_asciiText {bytes : Bytes} (h : Ascii bytes) : encode (asciiText bytes) = bytes := by
  unfold encode
  rw [toList_asciiText]
  induction bytes with
  | nil => rfl
  | cons b bytes ih =>
    rw [List.map_cons, List.flatMap_cons, utf8EncodeChar_ascii (h b List.mem_cons_self),
      ih fun c hc => h c (List.mem_cons_of_mem _ hc)]
    rfl

/-- Text of ASCII characters is the text of ASCII bytes. -/
theorem exists_ascii {text : String} (h : ∀ c ∈ text.toList, c.toNat < 128) :
    ∃ bytes, Ascii bytes ∧ asciiText bytes = text := by
  have hbyte : ∀ c ∈ text.toList, (UInt8.ofNat c.toNat).toNat = c.toNat := fun c hc =>
    UInt8.toNat_ofNat_of_lt' (show c.toNat < 2 ^ 8 by have := h c hc; omega)
  refine ⟨text.toList.map fun c => UInt8.ofNat c.toNat, fun b hb => ?_, ?_⟩
  · obtain ⟨c, hc, rfl⟩ := List.mem_map.mp hb
    have := h c hc
    rw [UInt8.lt_iff_toNat_lt, hbyte c hc]
    exact this
  · rw [asciiText, List.map_map, List.map_congr_left (g := id), List.map_id, String.ofList_toList]
    intro c hc
    simp only [Function.comp_apply, hbyte c hc, Char.ofNat_toNat, id]

theorem ascii_encode {text : String} (h : ∀ c ∈ text.toList, c.toNat < 128) :
    Ascii (encode text) := by
  obtain ⟨bytes, hbytes, rfl⟩ := exists_ascii h
  rwa [encode_asciiText hbytes]

theorem decode?_encode_ascii {text : String} (h : ∀ c ∈ text.toList, c.toNat < 128) :
    decode? (encode text) = some text := by
  obtain ⟨bytes, hbytes, rfl⟩ := exists_ascii h
  rw [encode_asciiText hbytes, decode?_ascii hbytes]

/-- ASCII bytes are taken back by writing what was read. -/
theorem encode_lossy_ascii {bytes : Bytes} (h : Ascii bytes) : encode (lossy bytes) = bytes := by
  rw [lossy_ascii h, encode_asciiText h]

theorem toByteArray_eq_encode (text : String) : text.toByteArray = (encode text).toByteArray := by
  rw [encode, ← List.utf8Encode, String.utf8Encode_toList]

theorem utf8ByteSize_eq (text : String) : text.utf8ByteSize = (encode text).length := by
  rw [← String.size_toByteArray, toByteArray_eq_encode, List.size_toByteArray]

/-- No two texts are written alike. -/
theorem encode_inj {a b : String} : encode a = encode b ↔ a = b := by
  refine ⟨fun h => ?_, congrArg encode⟩
  rw [← String.toByteArray_inj, toByteArray_eq_encode, toByteArray_eq_encode, h]

/-- Text whose bytes are ASCII is the text of them. -/
theorem asciiText_encode {text : String} (h : Ascii (encode text)) :
    asciiText (encode text) = text :=
  encode_inj.mp (encode_asciiText h)

/-! ## Bytes and characters -/

theorem dropBytes?_ofList (front text : List Char) :
    dropBytes? (String.ofList front).utf8ByteSize (front ++ text) = some text := by
  induction front with
  | nil => cases text <;> rfl
  | cons c front ih =>
    obtain ⟨size, hsize⟩ := Nat.exists_eq_add_one.mpr c.utf8Size_pos
    have hbytes : (String.ofList (c :: front)).utf8ByteSize =
        size + (String.ofList front).utf8ByteSize + 1 := by
      rw [String.ofList_cons, String.utf8ByteSize_append, String.utf8ByteSize_singleton]
      omega
    have hfits : c.utf8Size ≤ size + (String.ofList front).utf8ByteSize + 1 := by omega
    have hrest : size + (String.ofList front).utf8ByteSize + 1 - c.utf8Size =
        (String.ofList front).utf8ByteSize := by omega
    rw [hbytes, List.cons_append, dropBytes?, if_pos hfits, hrest, ih]

/-- Behind the bytes of a text comes what follows it. -/
theorem dropBytes?_append (front : String) (text : List Char) :
    dropBytes? front.utf8ByteSize (front.toList ++ text) = some text := by
  have hdrop := dropBytes?_ofList front.toList text
  rwa [String.ofList_toList] at hdrop

theorem utf8EncodeChar_append_inj {c c' : Char} {rest rest' : Bytes}
    (h : String.utf8EncodeChar c ++ rest = String.utf8EncodeChar c' ++ rest') :
    c = c' ∧ rest = rest' := by
  have hread : some c = some c' := by
    rw [← ByteArray.utf8DecodeChar?_utf8EncodeChar_append (b := rest.toByteArray),
      ← ByteArray.utf8DecodeChar?_utf8EncodeChar_append (b := rest'.toByteArray),
      ← List.toByteArray_append, ← List.toByteArray_append, h]
  cases hread
  exact ⟨rfl, List.append_cancel_left h⟩

theorem prefix_of_flatMap {cs cs' : List Char} {bytes : Bytes}
    (h : cs.flatMap String.utf8EncodeChar ++ bytes = cs'.flatMap String.utf8EncodeChar) :
    cs <+: cs' := by
  induction cs generalizing cs' with
  | nil => exact List.nil_prefix
  | cons c cs ih =>
    cases cs' with
    | nil =>
      have hnil := (List.append_eq_nil_iff.mp h).1
      rw [List.flatMap_cons, List.append_eq_nil_iff] at hnil
      exact absurd hnil.1 (by simp)
    | cons c' cs' =>
      rw [List.flatMap_cons, List.flatMap_cons, List.append_assoc] at h
      obtain ⟨hc, hrest⟩ := utf8EncodeChar_append_inj h
      rw [hc]
      exact List.prefix_cons_inj c' |>.mpr (ih hrest)

/-- Where the bytes of one text start those of another, so do its characters: none is cut. -/
theorem encode_prefix_iff {front text : String} :
    encode front <+: encode text ↔ ∃ rest, front ++ rest = text := by
  constructor
  · rintro ⟨bytes, h⟩
    obtain ⟨rest, hrest⟩ := prefix_of_flatMap h
    exact ⟨String.ofList rest, String.toList_inj.mp (by simpa using hrest)⟩
  · rintro ⟨rest, rfl⟩
    exact ⟨encode rest, (encode_append front rest).symm⟩

end Depot.Text.Utf8
