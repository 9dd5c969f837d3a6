import Mathlib.Data.List.TakeWhile
import Depot.Text.Blank
import Depot.Text.Decimal
import Depot.Proofs.Text.Utf8

/-! # Decimal numbers are read as what they spell

Text of digits only is read as the number it spells (`Nat.ofDigitChars`), leading zeros and all,
as long as that number is in range; trimming leaves such text alone. -/

namespace Depot.Text

theorem dropWhile_blanks {blanks rest : List Char} (hblanks : ∀ c ∈ blanks, isBlank c = true)
    (hrest : ∀ c ∈ rest.head?, isBlank c = false) :
    (blanks ++ rest).dropWhile isBlank = rest := by
  rw [List.dropWhile_append_of_pos hblanks]
  cases rest with
  | nil => rfl
  | cons c rest => exact List.dropWhile_cons_of_neg (by simp [hrest c rfl])

/-- Text without a blank at either end loses nothing when it is trimmed. -/
theorem trim_of_ends {text : List Char} (hfront : ∀ c ∈ text.head?, isBlank c = false)
    (hback : ∀ c ∈ text.getLast?, isBlank c = false) : trim text = text := by
  have hrev : ∀ c ∈ text.reverse.head?, isBlank c = false := by
    rw [List.head?_reverse]
    exact hback
  have hnone : ∀ c ∈ ([] : List Char), isBlank c = true := nofun
  have hfirst := dropWhile_blanks hnone hfront
  have hlast := dropWhile_blanks hnone hrev
  rw [List.nil_append] at hfirst hlast
  rw [trim, hfirst, hlast, List.reverse_reverse]

theorem trim_of_no_blank {text : List Char} (h : ∀ c ∈ text, isBlank c = false) :
    trim text = text :=
  trim_of_ends (fun c hc => h c (List.mem_of_mem_head? hc))
    fun c hc => h c (List.mem_of_mem_getLast? hc)

/-- Trimming takes blanks off both ends. -/
theorem trim_split (text : List Char) :
    ∃ front back, text = front ++ trim text ++ back ∧ (∀ c ∈ front, isBlank c = true) ∧
      ∀ c ∈ back, isBlank c = true := by
  refine ⟨text.takeWhile isBlank, ((text.dropWhile isBlank).reverse.takeWhile isBlank).reverse,
    ?_, fun c hc => List.mem_takeWhile_imp hc,
    fun c hc => List.mem_takeWhile_imp (List.mem_reverse.mp hc)⟩
  rw [trim, List.append_assoc, ← List.reverse_append, List.takeWhile_append_dropWhile,
    List.reverse_reverse, List.takeWhile_append_dropWhile]

/-- Blanks around text that has none are taken off. -/
theorem trim_append {front text back : List Char} (hfront : ∀ c ∈ front, isBlank c = true)
    (hback : ∀ c ∈ back, isBlank c = true) (htext : ∀ c ∈ text, isBlank c = false) :
    trim (front ++ text ++ back) = text := by
  have hback' : ∀ c ∈ back.reverse, isBlank c = true := fun c hc => hback c (List.mem_reverse.mp hc)
  cases text with
  | nil =>
    have hnone : (front ++ [] ++ back).dropWhile isBlank = [] :=
      List.dropWhile_eq_nil_iff.mpr (by simpa [or_imp, forall_and] using ⟨hfront, hback⟩)
    rw [trim, hnone]
    rfl
  | cons c cs =>
    have hfirst : (front ++ (c :: cs ++ back)).dropWhile isBlank = c :: cs ++ back :=
      dropWhile_blanks hfront (by simpa using htext c List.mem_cons_self)
    have hlast : (back.reverse ++ (c :: cs).reverse).dropWhile isBlank = (c :: cs).reverse :=
      dropWhile_blanks hback' fun d hd => htext d (List.mem_reverse.mp (List.mem_of_mem_head? hd))
    rw [trim, List.append_assoc, hfirst, List.reverse_append, hlast, List.reverse_reverse]

namespace Decimal

variable {limit value : Nat} {out : Fault} {text : List Char}

theorem isBlank_of_isDigit {c : Char} (h : c.isDigit = true) : isBlank c = false := by
  rw [Char.isDigit_iff_toNat] at h
  simp only [Char.reduceToNat] at h
  simp only [isBlank, blankRanges, List.any_cons, List.any_nil, Bool.or_false, Bool.or_eq_false_iff,
    Bool.and_eq_false_iff, decide_eq_false_iff_not]
  omega

theorem digit?_of_isDigit {c : Char} (h : c.isDigit = true) :
    digit? c = some (c.toNat - '0'.toNat) := by
  rw [Char.isDigit_iff_toNat] at h
  exact if_pos h

/-- Digits behind a value only add to it. -/
theorem le_ofDigitChars (text : List Char) (value : Nat) :
    value ≤ Nat.ofDigitChars 10 text value := by
  rw [Nat.ofDigitChars_eq_ofDigitChars_zero]
  have := Nat.le_mul_of_pos_left value (Nat.pow_pos (show 0 < 10 by omega) : 0 < 10 ^ text.length)
  omega

theorem digits_eq (h : ∀ c ∈ text, c.isDigit = true)
    (hle : Nat.ofDigitChars 10 text value ≤ limit) :
    digits limit out value text = .ok (Nat.ofDigitChars 10 text value) := by
  induction text generalizing value with
  | nil => rw [Nat.ofDigitChars_nil]; rfl
  | cons c text ih =>
    rw [Nat.ofDigitChars_cons, Nat.mul_comm] at hle ⊢
    have hfits := (le_ofDigitChars text _).trans hle
    simp only [digits, digit?_of_isDigit (h c List.mem_cons_self)]
    rw [if_pos hfits]
    exact ih (fun d hd => h d (List.mem_cons_of_mem _ hd)) hle

/-- Digits are read as the number they spell. -/
theorem readNat_eq (hne : text ≠ []) (h : ∀ c ∈ text, c.isDigit = true)
    (hle : Nat.ofDigitChars 10 text 0 ≤ limit) :
    readNat limit text = .ok (Nat.ofDigitChars 10 text 0) := by
  unfold readNat
  split
  · exact absurd rfl hne
  · exact absurd (h '+' (by simp)) (by decide)
  · exact absurd (h '+' (by simp)) (by decide)
  · exact digits_eq h hle

/-- The bytes are decimal digits that spell the number. -/
structure Spells (bytes : Bytes) (n : Nat) : Prop where
  nonempty : bytes ≠ []
  digits : ∀ b ∈ bytes, 0x30 ≤ b ∧ b ≤ 0x39
  number : Nat.ofDigitChars 10 (Utf8.asciiText bytes).toList 0 = n

variable {bytes : Bytes} {n : Nat}

theorem Spells.ascii (h : Spells bytes n) : Utf8.Ascii bytes :=
  fun b hb => UInt8.lt_of_le_of_lt (h.digits b hb).2 (show (0x39 : UInt8) < 0x80 by decide)

theorem Spells.isDigit (h : Spells bytes n) :
    ∀ c ∈ (Utf8.asciiText bytes).toList, c.isDigit = true := by
  intro c hc
  rw [Utf8.toList_asciiText] at hc
  obtain ⟨b, hb, rfl⟩ := List.mem_map.mp hc
  have hdigit := h.digits b hb
  simp only [UInt8.le_iff_toNat_le, UInt8.reduceToNat] at hdigit
  rw [Char.isDigit_iff_toNat, Utf8.toNat_ascii (h.ascii b hb)]
  exact hdigit

theorem Spells.text_ne_nil (h : Spells bytes n) : (Utf8.asciiText bytes).toList ≠ [] := by
  rw [Utf8.toList_asciiText]
  exact mt List.map_eq_nil_iff.mp h.nonempty

/-- What is spelt in digits is read, with or without trimming. -/
theorem Spells.read (h : Spells bytes n) (hn : n ≤ limit) :
    readNat limit (trim (Utf8.lossy bytes).toList) = .ok n := by
  have hblank : ∀ c ∈ (Utf8.asciiText bytes).toList, isBlank c = false :=
    fun c hc => isBlank_of_isDigit (h.isDigit c hc)
  rw [Utf8.lossy_ascii h.ascii, trim_of_no_blank hblank,
    readNat_eq h.text_ne_nil h.isDigit (h.number.trans_le hn), h.number]

/-! ## Numbers that were written -/

theorem toList_toString (n : Nat) : (toString n).toList = Nat.toDigits 10 n := by
  rw [Nat.toString_eq_ofList_toDigits, String.toList_ofList]

/-- A number is written in digits. -/
theorem isDigit_toString (n : Nat) : ∀ c ∈ (toString n).toList, c.isDigit = true := by
  rw [toList_toString]
  exact fun c hc => Nat.isDigit_of_mem_toDigits (by omega) (by omega) hc

theorem toList_toString_ne_nil (n : Nat) : (toString n).toList ≠ [] := by
  rw [toList_toString]
  exact Nat.toDigits_ne_nil

theorem ofDigitChars_toString (n : Nat) : Nat.ofDigitChars 10 (toString n).toList 0 = n := by
  rw [toList_toString, Nat.ofDigitChars_ten_toDigits]

/-- A number in range that was written in digits is read back. -/
theorem readNat_toString {n : Nat} (h : n ≤ limit) :
    readNat limit (toString n).toList = .ok n := by
  have hvalue := ofDigitChars_toString n
  rw [readNat_eq (toList_toString_ne_nil n) (isDigit_toString n) (hvalue.trans_le h), hvalue]

theorem lt_of_isDigit {c : Char} (h : c.isDigit = true) : c.toNat < 128 := by
  rw [Char.isDigit_iff_toNat] at h
  exact h.2.trans_lt (by decide)

/-- A number is spelt by the digits it is written in. -/
theorem spells_encode (n : Nat) : Spells (encode n) n := by
  have hdigits := isDigit_toString n
  obtain ⟨bytes, hbytes, htext⟩ := Utf8.exists_ascii fun c hc => lt_of_isDigit (hdigits c hc)
  have hencode : encode n = bytes := by rw [encode, ← htext, Utf8.encode_asciiText hbytes]
  rw [hencode]
  refine ⟨fun hnil => ?_, fun b hb => ?_, ?_⟩
  · have hne := toList_toString_ne_nil n
    rw [← htext, hnil] at hne
    exact hne rfl
  · have hdigit := hdigits (Char.ofNat b.toNat) (by
      rw [← htext, Utf8.toList_asciiText]
      exact List.mem_map_of_mem hb)
    rw [Char.isDigit_iff_toNat, Utf8.toNat_ascii (hbytes b hb)] at hdigit
    exact hdigit
  · rw [htext, ofDigitChars_toString]

theorem encode_injective : Function.Injective encode := fun m n h => by
  rw [← (spells_encode m).number, ← (spells_encode n).number, h]

/-- Digits without a sign are read as the number they spell. -/
theorem readInt_eq (hne : text ≠ []) (h : ∀ c ∈ text, c.isDigit = true)
    (hle : Nat.ofDigitChars 10 text 0 ≤ max63) :
    readInt text = .ok (Nat.ofDigitChars 10 text 0 : Int) := by
  unfold readInt
  split
  · exact absurd (h '-' (by simp)) (by decide)
  · exact absurd (h '-' (by simp)) (by decide)
  · rw [readNat_eq hne h hle]
    rfl

/-- A number within 63 bits that was written in digits is read back. -/
theorem intOfBytes?_encode {n : Nat} (h : n ≤ max63) : intOfBytes? (encode n) = some (n : Int) := by
  have hdigits := isDigit_toString n
  have hvalue := ofDigitChars_toString n
  have hread := readInt_eq (toList_toString_ne_nil n) hdigits (hvalue.trans_le h)
  rw [hvalue] at hread
  unfold intOfBytes? encode
  rw [Utf8.decode?_encode_ascii fun c hc => lt_of_isDigit (hdigits c hc), Option.bind_some, hread]
  rfl

end Decimal

end Depot.Text
