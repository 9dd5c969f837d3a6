import Mathlib.Algebra.Group.Nat.Defs
import Depot.Proofs.Steps
import Depot.Proofs.Text.Decimal

/-! # Which bytes are read as an integer

An integer is read off bytes that are all digits, leading zeros and all, with at most one sign in
front, as long as it fits 64 bits; nothing else is read as one (`intOfBytes?_eq_some`). -/

namespace Depot.Text

namespace Utf8

/-- Whether the character that is being read has a code past ASCII, whatever bytes complete it. -/
def State.Wide : State → Prop
  | .between => True
  | .inside behind low _ value =>
    0x80 ≤ low.toNat ∧ 0x80 ≤ value * 64 ^ (behind + 1) + (low.toNat - 0x80) * 64 ^ behind

variable {q q' : State} {b : UInt8} {c : Char}

theorem between_step (b : UInt8) : State.between.step b = firstByte b := rfl

theorem inside_step (behind : Nat) (low high : UInt8) (value : Nat) (b : UInt8) :
    (State.inside behind low high value).step b =
      if low ≤ b ∧ b ≤ high then
        match behind with
        | 0 => .char (Char.ofNat (value * 64 + (b.toNat - 0x80)))
        | behind + 1 => .more (.inside behind 0x80 0xBF (value * 64 + (b.toNat - 0x80)))
      else .broken := by
  cases behind <;> rfl

/-- A character goes on in a byte, and it does not get narrower. -/
theorem State.Wide.step_more (hq : q.Wide) (h : q.step b = .more q') :
    q' ≠ .between ∧ q'.Wide := by
  cases q with
  | between =>
    rw [between_step, firstByte] at h
    simp only [UInt8.lt_iff_toNat_lt, ← UInt8.toNat_inj, UInt8.reduceToNat] at h
    repeat' split at h
    all_goals cases h
    all_goals simp only [State.Wide, UInt8.reduceToNat]
    all_goals exact ⟨nofun, by omega⟩
  | inside behind low high value =>
    obtain ⟨hlow, hvalue⟩ := hq
    rw [inside_step] at h
    split at h
    · next hb =>
      have hb' : low.toNat ≤ b.toNat := hb.1
      cases behind with
      | zero => cases h
      | succ behind =>
        cases h
        refine ⟨nofun, le_rfl, ?_⟩
        have hbits : (low.toNat - 0x80) * 64 ^ (behind + 1) ≤
            (b.toNat - 0x80) * 64 ^ (behind + 1) := Nat.mul_le_mul_right _ (by omega)
        rw [Nat.pow_succ' (n := behind + 1), ← Nat.mul_assoc] at hvalue
        rw [Nat.add_mul]
        omega
    · cases h

/-- A code past ASCII is that of a character past ASCII, or of none, which is read as NUL. -/
theorem toNat_ofNat_wide {n : Nat} (h : 0x80 ≤ n) :
    (Char.ofNat n).toNat = 0 ∨ 0x80 ≤ (Char.ofNat n).toNat := by
  by_cases hvalid : n.isValidChar
  · rw [Char.ofNat, dif_pos hvalid]
    exact .inr h
  · rw [Char.ofNat, dif_neg hvalid]
    exact .inl rfl

/-- An ASCII character, NUL aside, is read off one ASCII byte between characters. -/
theorem State.Wide.step_char (hq : q.Wide) (h : q.step b = .char c) (hnul : c.toNat ≠ 0)
    (hc : c.toNat < 0x80) : q = .between ∧ b < 0x80 := by
  cases q with
  | between =>
    refine ⟨rfl, ?_⟩
    rw [between_step, firstByte] at h
    by_contra hb
    rw [if_neg hb] at h
    repeat' split at h
    all_goals exact Step.noConfusion h
  | inside behind low high value =>
    obtain ⟨hlow, hvalue⟩ := hq
    rw [inside_step] at h
    split at h
    · next hb =>
      have hb' : low.toNat ≤ b.toNat := hb.1
      cases behind with
      | zero =>
        obtain rfl := Step.char.inj h
        rw [Nat.zero_add, Nat.pow_zero, Nat.pow_one, Nat.mul_one] at hvalue
        have hcode : 0x80 ≤ value * 64 + (b.toNat - 0x80) := by omega
        have hwide := toNat_ofNat_wide hcode
        omega
      | succ behind => cases h
    · cases h

/-- Text in ASCII, without a NUL, is read off bytes in ASCII. -/
theorem ascii_of_foldlM {bytes : Bytes} {read read' : List Char} (hq : q.Wide)
    (h : bytes.foldlM read? (q, read) = some (.between, read'))
    (hread : ∀ c ∈ read', c.toNat ≠ 0 ∧ c.toNat < 0x80) :
    q = .between ∧ Ascii bytes ∧ read ⊆ read' := by
  induction bytes generalizing q read with
  | nil =>
    cases h
    exact ⟨rfl, fun b hb => absurd hb List.not_mem_nil, List.Subset.refl _⟩
  | cons b bytes ih =>
    rw [List.foldlM_cons] at h
    cases hstep : q.step b with
    | broken => simp [read?, hstep] at h
    | more q' =>
      simp only [read?, hstep] at h
      obtain ⟨hinside, hwide⟩ := hq.step_more hstep
      exact absurd (ih hwide h).1 hinside
    | char c =>
      simp only [read?, hstep] at h
      obtain ⟨-, hbytes, hsub⟩ := ih (q := .between) trivial h
      obtain ⟨hnul, hc⟩ := hread c (hsub List.mem_cons_self)
      obtain ⟨hbetween, hb⟩ := hq.step_char hstep hnul hc
      exact ⟨hbetween, List.forall_mem_cons.mpr ⟨hb, hbytes⟩,
        fun d hd => hsub (List.mem_cons_of_mem _ hd)⟩

/-- Bytes that are read as ASCII text without a NUL are that text. -/
theorem eq_asciiText_of_decode? {bytes : Bytes} {text : String} (h : decode? bytes = some text)
    (htext : ∀ c ∈ text.toList, c.toNat ≠ 0 ∧ c.toNat < 0x80) :
    Ascii bytes ∧ text = asciiText bytes := by
  have hascii : Ascii bytes := by
    unfold decode? at h
    split at h
    · next read hread =>
      cases h
      refine (ascii_of_foldlM (q := .between) trivial hread fun c hc => ?_).2.1
      exact htext c (by rw [String.toList_ofList]; exact List.mem_reverse.mpr hc)
    · cases h
  rw [decode?_ascii hascii] at h
  exact ⟨hascii, (Option.some.inj h).symm⟩

end Utf8

namespace Decimal

variable {limit value n : Nat} {out : Fault} {text : List Char}

theorem digit?_eq_some {c : Char} {d : Nat} (h : digit? c = some d) :
    c.isDigit = true ∧ d = c.toNat - '0'.toNat := by
  unfold digit? at h
  split at h
  · next hc =>
    cases h
    exact ⟨Char.isDigit_iff_toNat.mpr hc, rfl⟩
  · cases h

/-- What is read digit by digit is spelt in digits and in range. -/
theorem digits_ok (hvalue : value ≤ limit) (h : digits limit out value text = .ok n) :
    (∀ c ∈ text, c.isDigit = true) ∧ Nat.ofDigitChars 10 text value = n ∧ n ≤ limit := by
  induction text generalizing value with
  | nil =>
    cases h
    exact ⟨fun c hc => absurd hc List.not_mem_nil, Nat.ofDigitChars_nil, hvalue⟩
  | cons c text ih =>
    unfold digits at h
    split at h
    · cases h
    · next d hd =>
      obtain ⟨hdigit, rfl⟩ := digit?_eq_some hd
      split at h
      · next hle =>
        obtain ⟨hrest, hn, hlimit⟩ := ih hle h
        refine ⟨List.forall_mem_cons.mpr ⟨hdigit, hrest⟩, ?_, hlimit⟩
        rw [Nat.ofDigitChars_cons, Nat.mul_comm]
        exact hn
      · cases h

theorem readNat_ok (h : readNat limit text = .ok n) :
    ∃ digits, (text = digits ∨ text = '+' :: digits) ∧ digits ≠ [] ∧
      (∀ c ∈ digits, c.isDigit = true) ∧ Nat.ofDigitChars 10 digits 0 = n ∧ n ≤ limit := by
  unfold readNat at h
  split at h
  · cases h
  · cases h
  · next digits hne =>
    exact ⟨digits, .inr rfl, fun hnil => hne (by rw [hnil]), digits_ok (Nat.zero_le _) h⟩
  · next hne _ _ => exact ⟨text, .inl rfl, hne, digits_ok (Nat.zero_le _) h⟩

/-- Digits behind a plus sign are read as the number they spell. -/
theorem readNat_plus (hne : text ≠ []) (h : ∀ c ∈ text, c.isDigit = true)
    (hle : Nat.ofDigitChars 10 text 0 ≤ limit) :
    readNat limit ('+' :: text) = .ok (Nat.ofDigitChars 10 text 0) := by
  have hplus : readNat limit ('+' :: text) = digits limit .tooLarge 0 text := by
    cases text with
    | nil => exact absurd rfl hne
    | cons c text => rfl
  rw [hplus, digits_eq h hle]

/-- The bytes are decimal digits with at most one plus sign in front, and spell the number. -/
inductive SpellsNat : Bytes → Nat → Prop
  | plain {bytes : Bytes} {n : Nat} : Spells bytes n → SpellsNat bytes n
  | plus {bytes : Bytes} {n : Nat} : Spells bytes n → SpellsNat (0x2B :: bytes) n

/-- The bytes are decimal digits with at most one sign in front, and spell a number of 64 bits. -/
inductive SpellsInt : Bytes → Int → Prop
  | plain {bytes : Bytes} {n : Nat} : Spells bytes n → n ≤ max63 → SpellsInt bytes n
  | plus {bytes : Bytes} {n : Nat} : Spells bytes n → n ≤ max63 → SpellsInt (0x2B :: bytes) n
  | minus {bytes : Bytes} {n : Nat} :
      Spells bytes n → n ≤ max63 + 1 → SpellsInt (0x2D :: bytes) (-n)

variable {bytes : Bytes}

/-- Bytes in ASCII whose text is digits spell the number of these. -/
theorem spells_of_digits (hascii : Utf8.Ascii bytes) (hne : (Utf8.asciiText bytes).toList ≠ [])
    (hdigits : ∀ c ∈ (Utf8.asciiText bytes).toList, c.isDigit = true)
    (hn : Nat.ofDigitChars 10 (Utf8.asciiText bytes).toList 0 = n) : Spells bytes n := by
  rw [Utf8.toList_asciiText] at hdigits
  refine ⟨fun hnil => hne (by rw [hnil]; rfl), fun b hb => ?_, hn⟩
  have hdigit := hdigits _ (List.mem_map_of_mem hb)
  rw [Char.isDigit_iff_toNat, Utf8.toNat_ascii (hascii b hb)] at hdigit
  exact hdigit

/-- A sign in front of the digits is an ASCII byte in front of them. -/
theorem asciiText_cons {c : Char} {rest : List Char} (hascii : Utf8.Ascii bytes)
    (h : (Utf8.asciiText bytes).toList = c :: rest) :
    ∃ b bytes', bytes = b :: bytes' ∧ b.toNat = c.toNat ∧ Utf8.Ascii bytes' ∧
      (Utf8.asciiText bytes').toList = rest := by
  rw [Utf8.toList_asciiText] at h
  cases bytes with
  | nil => cases h
  | cons b bytes =>
    obtain ⟨hc, hrest⟩ := List.cons.inj h
    refine ⟨b, bytes, rfl, ?_, fun d hd => hascii d (List.mem_cons_of_mem _ hd), ?_⟩
    · rw [← hc, Utf8.toNat_ascii (hascii b List.mem_cons_self)]
    · rw [Utf8.toList_asciiText, hrest]

theorem toList_asciiText_cons (b : UInt8) (bytes : Bytes) :
    (Utf8.asciiText (b :: bytes)).toList =
      Char.ofNat b.toNat :: (Utf8.asciiText bytes).toList := by
  rw [Utf8.toList_asciiText, Utf8.toList_asciiText, List.map_cons]

theorem SpellsNat.ascii (h : SpellsNat bytes n) : Utf8.Ascii bytes := by
  cases h with
  | plain hn => exact hn.ascii
  | plus hn => exact List.forall_mem_cons.mpr ⟨by decide, hn.ascii⟩

/-- A number is read off ASCII that spells one in range, and off nothing else. -/
theorem readNat_eq_ok_iff (hascii : Utf8.Ascii bytes) :
    readNat limit (Utf8.asciiText bytes).toList = .ok n ↔ SpellsNat bytes n ∧ n ≤ limit := by
  constructor
  · intro h
    obtain ⟨digits, hplain | hplus, hne, hdigits, hn, hle⟩ := readNat_ok h
    · subst hplain
      exact ⟨.plain (spells_of_digits hascii hne hdigits hn), hle⟩
    · obtain ⟨b, bytes', rfl, hb, hbytes', rfl⟩ := asciiText_cons hascii hplus
      obtain rfl : b = 0x2B := UInt8.toNat_inj.mp hb
      exact ⟨.plus (spells_of_digits hbytes' hne hdigits hn), hle⟩
  · rintro ⟨hplain | hplus, hle⟩
    · rw [readNat_eq hplain.text_ne_nil hplain.isDigit (hplain.number.trans_le hle), hplain.number]
    · rw [toList_asciiText_cons]
      exact (readNat_plus hplus.text_ne_nil hplus.isDigit (hplus.number.trans_le hle)).trans
        (by rw [hplus.number])

/-- What is read as an integer is digits, with at most one sign in front. -/
theorem readInt_ok {n : Int} (h : readInt text = .ok n) :
    ∃ digits m, digits ≠ [] ∧ (∀ c ∈ digits, c.isDigit = true) ∧
      Nat.ofDigitChars 10 digits 0 = m ∧
      ((text = digits ∨ text = '+' :: digits) ∧ m ≤ max63 ∧ n = m ∨
        text = '-' :: digits ∧ m ≤ max63 + 1 ∧ n = -m) := by
  unfold readInt at h
  split at h
  · cases h
  · next digits hne =>
    obtain ⟨_, hcast, rfl⟩ := exists_ok_of_map h
    obtain ⟨m, hread, hm⟩ := exists_ok_of_bind hcast
    cases hm
    obtain ⟨hdigits, hm, hle⟩ := digits_ok (Nat.zero_le _) hread
    exact ⟨digits, m, fun hnil => hne (by rw [hnil]), hdigits, hm, .inr ⟨rfl, hle, rfl⟩⟩
  · obtain ⟨m, hread, rfl⟩ := exists_ok_of_map h
    obtain ⟨digits, htext, hne, hdigits, hm, hle⟩ := readNat_ok hread
    exact ⟨digits, m, hne, hdigits, hm, .inl ⟨htext, hle, rfl⟩⟩

theorem ascii_of_isDigit {c : Char} (h : c.isDigit = true) : c.toNat ≠ 0 ∧ c.toNat < 0x80 := by
  rw [Char.isDigit_iff_toNat] at h
  simp only [Char.reduceToNat] at h
  omega

/-- What is read as an integer has no character but digits and signs. -/
theorem isDigit_or_sign_of_readInt {n : Int} (h : readInt text = .ok n) :
    ∀ c ∈ text, c.isDigit = true ∨ c = '+' ∨ c = '-' := by
  obtain ⟨digits, m, -, hdigits, -, ⟨rfl | rfl, -⟩ | ⟨rfl, -⟩⟩ := readInt_ok h
  · exact fun c hc => .inl (hdigits c hc)
  · exact List.forall_mem_cons.mpr ⟨.inr (.inl rfl), fun c hc => .inl (hdigits c hc)⟩
  · exact List.forall_mem_cons.mpr ⟨.inr (.inr rfl), fun c hc => .inl (hdigits c hc)⟩

theorem ascii_of_readInt {n : Int} (h : readInt text = .ok n) :
    ∀ c ∈ text, c.toNat ≠ 0 ∧ c.toNat < 0x80 := by
  intro c hc
  obtain hdigit | rfl | rfl := isDigit_or_sign_of_readInt h c hc
  · exact ascii_of_isDigit hdigit
  · decide
  · decide

theorem isBlank_of_readInt {n : Int} (h : readInt text = .ok n) :
    ∀ c ∈ text, isBlank c = false := by
  intro c hc
  obtain hdigit | rfl | rfl := isDigit_or_sign_of_readInt h c hc
  · exact isBlank_of_isDigit hdigit
  · decide
  · decide

theorem spellsInt_of_read {n : Int} (h : intOfBytes? bytes = some n) : SpellsInt bytes n := by
  obtain ⟨text, hdecode, hread⟩ := Option.bind_eq_some_iff.mp h
  have hok : readInt text.toList = .ok n := toOption_eq_some_iff.mp hread
  obtain ⟨digits, m, hne, hdigits, hm, hcases⟩ := readInt_ok hok
  -- the text is ASCII throughout, so its bytes are its characters
  have htext := ascii_of_readInt hok
  obtain ⟨hbytes, rfl⟩ := Utf8.eq_asciiText_of_decode? hdecode htext
  obtain ⟨hplain | hplus, hle, rfl⟩ | ⟨hminus, hle, rfl⟩ := hcases
  · subst hplain
    exact .plain (spells_of_digits hbytes hne hdigits hm) hle
  · obtain ⟨b, bytes', rfl, hb, hbytes', rfl⟩ := asciiText_cons hbytes hplus
    obtain rfl : b = 0x2B := UInt8.toNat_inj.mp hb
    exact .plus (spells_of_digits hbytes' hne hdigits hm) hle
  · obtain ⟨b, bytes', rfl, hb, hbytes', rfl⟩ := asciiText_cons hbytes hminus
    obtain rfl : b = 0x2D := UInt8.toNat_inj.mp hb
    exact .minus (spells_of_digits hbytes' hne hdigits hm) hle

theorem readInt_plus (hne : text ≠ []) (h : ∀ c ∈ text, c.isDigit = true)
    (hle : Nat.ofDigitChars 10 text 0 ≤ max63) :
    readInt ('+' :: text) = .ok (Nat.ofDigitChars 10 text 0 : Int) := by
  have hread : readInt ('+' :: text) = (readNat max63 ('+' :: text)).map Int.ofNat := rfl
  rw [hread, readNat_plus hne h hle]
  rfl

/-- Digits behind a minus sign are read as the negative of the number they spell. -/
theorem readInt_minus (hne : text ≠ []) (h : ∀ c ∈ text, c.isDigit = true)
    (hle : Nat.ofDigitChars 10 text 0 ≤ max63 + 1) :
    readInt ('-' :: text) = .ok (-(Nat.ofDigitChars 10 text 0 : Int)) := by
  have hread : readInt ('-' :: text) =
      (digits (max63 + 1) .tooSmall 0 text).map fun n => -(n : Int) := by
    cases text with
    | nil => exact absurd rfl hne
    | cons c text => rfl
  rw [hread, digits_eq h hle]
  rfl

theorem read_of_spellsInt {n : Int} (h : SpellsInt bytes n) : intOfBytes? bytes = some n := by
  have hread {bytes : Bytes} {n : Int} (hbytes : Utf8.Ascii bytes)
      (h : readInt (Utf8.asciiText bytes).toList = .ok n) : intOfBytes? bytes = some n := by
    rw [intOfBytes?, Utf8.decode?_ascii hbytes, Option.bind_some, h]
    rfl
  cases h with
  | @plain _ n hn hle =>
    refine hread hn.ascii ?_
    rw [readInt_eq hn.text_ne_nil hn.isDigit (hn.number.trans_le hle), hn.number]
  | @plus bytes n hn hle =>
    refine hread (List.forall_mem_cons.mpr ⟨by decide, hn.ascii⟩) ?_
    rw [toList_asciiText_cons]
    exact (readInt_plus hn.text_ne_nil hn.isDigit (hn.number.trans_le hle)).trans
      (by rw [hn.number])
  | @minus bytes n hn hle =>
    refine hread (List.forall_mem_cons.mpr ⟨by decide, hn.ascii⟩) ?_
    rw [toList_asciiText_cons]
    exact (readInt_minus hn.text_ne_nil hn.isDigit (hn.number.trans_le hle)).trans
      (by rw [hn.number])

/-- **An integer is read off what spells it, and off nothing else.** -/
theorem intOfBytes?_eq_some {n : Int} : intOfBytes? bytes = some n ↔ SpellsInt bytes n :=
  ⟨spellsInt_of_read, read_of_spellsInt⟩

theorem SpellsInt.ascii {n : Int} (h : SpellsInt bytes n) : Utf8.Ascii bytes := by
  cases h with
  | plain hn => exact hn.ascii
  | plus hn => exact List.forall_mem_cons.mpr ⟨by decide, hn.ascii⟩
  | minus hn => exact List.forall_mem_cons.mpr ⟨by decide, hn.ascii⟩

theorem SpellsInt.le {n : Int} (h : SpellsInt bytes n) : n ≤ max63 := by
  cases h <;> omega

/-- Text is read as the integer that its bytes spell. -/
theorem readInt_eq_ok_iff {text : String} {n : Int} :
    readInt text.toList = .ok n ↔ SpellsInt (Utf8.encode text) n := by
  rw [← intOfBytes?_eq_some, intOfBytes?]
  constructor
  · intro h
    rw [Utf8.decode?_encode_ascii fun c hc => (ascii_of_readInt h c hc).2, Option.bind_some]
    exact toOption_eq_some_iff.mpr h
  · intro h
    have hascii := (intOfBytes?_eq_some.mp h).ascii
    rw [Utf8.decode?_ascii hascii, Utf8.asciiText_encode hascii, Option.bind_some] at h
    exact toOption_eq_some_iff.mp h

/-- A text is an integer of 64 bits with blanks around it. -/
inductive IntegerText : String → Int → Prop
  | intro {front text back : String} {n : Int} : (∀ c ∈ front.toList, isBlank c = true) →
      (∀ c ∈ back.toList, isBlank c = true) → SpellsInt (Utf8.encode text) n →
      IntegerText (front ++ text ++ back) n

theorem IntegerText.le {value : String} {n : Int} (h : IntegerText value n) : n ≤ max63 := by
  obtain ⟨-, -, hspells⟩ := h
  exact hspells.le

/-- Trimmed text is read as an integer if it is one with blanks around it, and only then. -/
theorem readInt_trim_iff {value : String} {n : Int} :
    readInt (trim value.toList) = .ok n ↔ IntegerText value n := by
  constructor
  · intro h
    obtain ⟨front, back, hsplit, hfront, hback⟩ := trim_split value.toList
    have hvalue : String.ofList front ++ String.ofList (trim value.toList) ++ String.ofList back =
        value := by
      rw [← String.ofList_append, ← String.ofList_append, ← hsplit, String.ofList_toList]
    have hspells : SpellsInt (Utf8.encode (String.ofList (trim value.toList))) n :=
      readInt_eq_ok_iff.mp (by rwa [String.toList_ofList])
    rw [← hvalue]
    exact .intro (by rwa [String.toList_ofList]) (by rwa [String.toList_ofList]) hspells
  · rintro ⟨hfront, hback, hspells⟩
    have hread := readInt_eq_ok_iff.mpr hspells
    rw [String.toList_append, String.toList_append,
      trim_append hfront hback (isBlank_of_readInt hread), hread]

end Decimal

end Depot.Text
