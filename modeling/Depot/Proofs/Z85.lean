import Mathlib.Data.List.GetD
import Mathlib.Data.Nat.Digits.Lemmas
import Depot.Z85

/-! # Z85 pairs data with texts

Writing data as text and reading text as data undo each other, so each text that can be read stands
for one piece of data and is what that data is written as (`encode_paired`). A text can be read if
it is made of groups of five digits that each spell a number of 32 bits; the fault of any other text
is that of its first group that does not (`Spoilt`). -/

namespace Depot.Z85

/-- The number that digits spell in base 85, the most significant first. -/
def worth (group : Bytes) : Nat := Nat.ofDigits 85 (group.map alphabet.idxOf).reverse

/-- The groups of five bytes of a text, in order. -/
def groups : Bytes → List Bytes
  | a :: b :: c :: d :: e :: rest => [a, b, c, d, e] :: groups rest
  | _ => []

/-- A group that has a word. -/
structure Sound (group : Bytes) : Prop where
  digits : isText group = true
  fits : worth group < 2 ^ 32

/-- A group that has no word, and the fault that is found with it: its first byte outside the
alphabet, and only if there is none, that it spells too large a number. -/
inductive Spoilt : Bytes → Fault → Prop
  | alphabet {front back : Bytes} {b : UInt8} :
      isText front = true → isDigit b = false → Spoilt (front ++ b :: back) (.alphabet b)
  | overflow {group : Bytes} : isText group = true → 2 ^ 32 ≤ worth group → Spoilt group .overflow

variable {group front back text data : Bytes} {a b c d e : UInt8} {fault : Fault} {w : Nat}

/-! ## Digits -/

theorem length_alphabet : alphabet.length = 85 := by decide +kernel

theorem nodup_alphabet : alphabet.Nodup := by decide +kernel

theorem isDigit_iff : isDigit b = true ↔ b ∈ alphabet := by
  rw [isDigit, digit?, List.isSome_idxOf?]

theorem digit?_of_isDigit (h : isDigit b = true) : digit? b = some (alphabet.idxOf b) := by
  obtain ⟨n, hn⟩ := Option.isSome_iff_exists.mp h
  rw [List.idxOf_eq_getD_idxOf?]
  unfold digit? at hn ⊢
  rw [hn, Option.getD_some]

theorem idxOf_lt (h : isDigit b = true) : alphabet.idxOf b < 85 :=
  length_alphabet ▸ List.idxOf_lt_length_iff.mpr (isDigit_iff.mp h)

theorem digit_idxOf (h : isDigit b = true) : digit (alphabet.idxOf b) = b := by
  have hlt := List.idxOf_lt_length_iff.mpr (isDigit_iff.mp h)
  rw [digit, List.getD_eq_getElem _ _ hlt, List.getElem_idxOf]

theorem digit_eq_get (h : w < 85) : digit w = alphabet.get ⟨w, length_alphabet.symm ▸ h⟩ :=
  List.getD_eq_getElem _ _ _

theorem isDigit_digit (h : w < 85) : isDigit (digit w) = true := by
  rw [isDigit_iff, digit_eq_get h]
  exact List.get_mem _ _

theorem idxOf_digit (h : w < 85) : alphabet.idxOf (digit w) = w := by
  rw [digit_eq_get h]
  exact nodup_alphabet.idxOf_getElem w _

theorem isText_append :
    isText (front ++ back) = true ↔ isText front = true ∧ isText back = true := by
  simp [isText]

theorem isText_cons : isText (b :: back) = true ↔ isDigit b = true ∧ isText back = true := by
  simp [isText]

/-! ## Words -/

theorem worth_nil : worth [] = 0 := rfl

theorem worth_concat (front : Bytes) (b : UInt8) :
    worth (front ++ [b]) = worth front * 85 + alphabet.idxOf b := by
  simp only [worth, List.map_append, List.map_cons, List.map_nil, List.reverse_append,
    List.reverse_singleton, List.singleton_append, Nat.ofDigits_cons]
  omega

theorem worth_lt (h : isText group = true) : worth group < 85 ^ group.length := by
  have hdigit : ∀ n ∈ (group.map alphabet.idxOf).reverse, n < 85 := by
    intro n hn
    obtain ⟨b, hb, rfl⟩ := List.mem_map.mp (List.mem_reverse.mp hn)
    exact idxOf_lt (List.all_eq_true.mp h b hb)
  have hlt := Nat.ofDigits_lt_base_pow_length (by decide) hdigit
  rwa [List.length_reverse, List.length_map] at hlt

/-- Four digits never reach past 32 bits. -/
theorem worth_lt_of_short (h : isText group = true) (hlen : group.length ≤ 4) :
    worth group < 85 ^ 4 :=
  (worth_lt h).trans_le (Nat.pow_le_pow_right (by decide) hlen)

theorem wordOfDigits_concat (h : wordOfDigits front = .ok w) (b : UInt8) :
    wordOfDigits (front ++ [b]) = appendDigit w b := by
  unfold wordOfDigits at h ⊢
  rw [List.foldlM_append, h]
  exact bind_pure (appendDigit w b)

theorem appendDigit_eq (h : isDigit b = true) (w : Nat) :
    appendDigit w b =
      if w * 85 + alphabet.idxOf b < 2 ^ 32 then .ok (w * 85 + alphabet.idxOf b)
      else .error .overflow := by
  unfold appendDigit
  rw [digit?_of_isDigit h]
  rfl

theorem wordOfDigits_short (h : isText group = true) (hlen : group.length ≤ 4) :
    wordOfDigits group = .ok (worth group) := by
  induction group using List.reverseRecOn with
  | nil => rfl
  | append_singleton front b ih =>
    have hlt := worth_lt_of_short h hlen
    obtain ⟨hfront, hb⟩ := isText_append.mp h
    rw [List.length_append, List.length_singleton] at hlen
    rw [worth_concat] at hlt ⊢
    rw [wordOfDigits_concat (ih hfront (by omega)), appendDigit_eq (isText_cons.mp hb).1,
      if_pos (hlt.trans (by decide))]

/-- A group of digits has the word it spells, if that has 32 bits. Only the last digit can reach
past them. -/
theorem wordOfDigits_text (h : isText group = true) (hlen : group.length = 5) :
    wordOfDigits group = if worth group < 2 ^ 32 then .ok (worth group) else .error .overflow := by
  obtain rfl | ⟨front, b, rfl⟩ := List.eq_nil_or_concat group
  · cases hlen
  · rw [List.concat_eq_append] at h hlen ⊢
    obtain ⟨hfront, hb⟩ := isText_append.mp h
    have hshort : front.length ≤ 4 := by
      rw [List.length_append, List.length_singleton] at hlen
      omega
    rw [wordOfDigits_concat (wordOfDigits_short hfront hshort),
      appendDigit_eq (isText_cons.mp hb).1, worth_concat]

theorem Sound.wordOfDigits_eq (h : Sound group) (hlen : group.length = 5) :
    wordOfDigits group = .ok (worth group) := by
  rw [wordOfDigits_text h.digits hlen, if_pos h.fits]

theorem Spoilt.wordOfDigits_eq (h : Spoilt group fault) (hlen : group.length = 5) :
    wordOfDigits group = .error fault := by
  cases h with
  | @alphabet front back b hfront hb =>
    have hshort : front.length ≤ 4 := by
      rw [List.length_append, List.length_cons] at hlen
      omega
    have hnone : digit? b = none := Option.not_isSome_iff_eq_none.mp (Bool.eq_false_iff.mp hb)
    have hstray : wordOfDigits (front ++ [b]) = .error (.alphabet b) := by
      rw [wordOfDigits_concat (wordOfDigits_short hfront hshort), appendDigit, hnone]
    unfold wordOfDigits at hstray ⊢
    rw [List.append_cons, List.foldlM_append, hstray]
    rfl
  | overflow hdigits hlarge => rw [wordOfDigits_text hdigits hlen, if_neg (Nat.not_lt.mpr hlarge)]

/-- A group has a word or a fault. -/
theorem sound_or_spoilt (group : Bytes) : Sound group ∨ ∃ fault, Spoilt group fault := by
  cases hstray : group.find? (!isDigit ·) with
  | some b =>
    obtain ⟨hb, front, back, rfl, hfront⟩ := List.find?_eq_some_iff_append.mp hstray
    refine .inr ⟨_, .alphabet (List.all_eq_true.mpr fun a ha => ?_) (by simpa using hb)⟩
    simpa using hfront a ha
  | none =>
    have hdigits : isText group = true := by simpa [isText] using hstray
    by_cases hfits : worth group < 2 ^ 32
    · exact .inl ⟨hdigits, hfits⟩
    · exact .inr ⟨_, .overflow hdigits (Nat.le_of_not_lt hfits)⟩

/-! ## Words of bytes -/

theorem wordOfBytes_lt (a b c d : UInt8) : wordOfBytes a b c d < 2 ^ 32 := by
  have ha := a.toNat_lt
  have hb := b.toNat_lt
  have hc := c.toNat_lt
  have hd := d.toNat_lt
  unfold wordOfBytes
  omega

theorem bytesOfWord_wordOfBytes (a b c d : UInt8) :
    bytesOfWord (wordOfBytes a b c d) = [a, b, c, d] := by
  have ha := a.toNat_lt
  have hb := b.toNat_lt
  have hc := c.toNat_lt
  have hd := d.toNat_lt
  unfold bytesOfWord wordOfBytes
  simp only [List.cons.injEq, and_true, ← UInt8.toNat_inj, UInt8.toNat_ofNat']
  omega

theorem exists_bytesOfWord (h : w < 2 ^ 32) :
    ∃ a b c d, bytesOfWord w = [a, b, c, d] ∧ wordOfBytes a b c d = w := by
  refine ⟨_, _, _, _, rfl, ?_⟩
  simp only [wordOfBytes, UInt8.toNat_ofNat']
  omega

/-! ## Words of digits -/

theorem worth_five (a b c d e : UInt8) :
    worth [a, b, c, d, e] =
      (((alphabet.idxOf a * 85 + alphabet.idxOf b) * 85 + alphabet.idxOf c) * 85 +
        alphabet.idxOf d) * 85 + alphabet.idxOf e := by
  have hfive : [a, b, c, d, e] = [] ++ [a] ++ [b] ++ [c] ++ [d] ++ [e] := rfl
  rw [hfive]
  simp only [worth_concat, worth_nil, Nat.zero_mul, Nat.zero_add]

theorem digitsOfWord_worth (h : isText [a, b, c, d, e] = true) :
    digitsOfWord (worth [a, b, c, d, e]) = [a, b, c, d, e] := by
  simp only [isText_cons] at h
  obtain ⟨ha, hb, hc, hd, he, -⟩ := h
  have hlta := idxOf_lt ha
  have hltb := idxOf_lt hb
  have hltc := idxOf_lt hc
  have hltd := idxOf_lt hd
  have hlte := idxOf_lt he
  rw [← digit_idxOf ha, ← digit_idxOf hb, ← digit_idxOf hc, ← digit_idxOf hd, ← digit_idxOf he,
    worth_five]
  simp only [idxOf_digit, hlta, hltb, hltc, hltd, hlte, digitsOfWord]
  congr <;> omega

theorem sound_digitsOfWord (h : w < 2 ^ 32) :
    Sound (digitsOfWord w) ∧ worth (digitsOfWord w) = w := by
  have hworth : worth (digitsOfWord w) = w := by
    rw [digitsOfWord, worth_five]
    simp only [idxOf_digit (Nat.mod_lt _ (by decide : 0 < 85))]
    omega
  refine ⟨⟨?_, hworth.symm ▸ h⟩, hworth⟩
  simp only [digitsOfWord, isText_cons, isDigit_digit (Nat.mod_lt _ (by decide : 0 < 85))]
  exact ⟨trivial, trivial, trivial, trivial, trivial, rfl⟩

/-! ## Groups -/

/-- Texts of whole groups are built group by group. -/
@[elab_as_elim]
theorem fives_induction {P : (text : Bytes) → text.length % 5 = 0 → Prop} (nil : P [] rfl)
    (five : ∀ a b c d e rest hrest h, P rest hrest → P (a :: b :: c :: d :: e :: rest) h) :
    ∀ text h, P text h
  | [], _ => nil
  | [_], h | [_, _], h | [_, _, _], h | [_, _, _, _], h => by simp at h
  | a :: b :: c :: d :: e :: rest, h => by
    have hrest : rest.length % 5 = 0 := by
      simp only [List.length_cons] at h
      omega
    exact five a b c d e rest hrest h (fives_induction nil five rest hrest)

/-- So is data of whole words. -/
@[elab_as_elim]
theorem fours_induction {P : (data : Bytes) → data.length % 4 = 0 → Prop} (nil : P [] rfl)
    (four : ∀ a b c d rest hrest h, P rest hrest → P (a :: b :: c :: d :: rest) h) :
    ∀ data h, P data h
  | [], _ => nil
  | [_], h | [_, _], h | [_, _, _], h => by simp at h
  | a :: b :: c :: d :: rest, h => by
    have hrest : rest.length % 4 = 0 := by
      simp only [List.length_cons] at h
      omega
    exact four a b c d rest hrest h (fours_induction nil four rest hrest)

/-- A text is one over the alphabet if its groups are. -/
theorem isText_iff_groups (h : text.length % 5 = 0) :
    isText text = true ↔ ∀ group ∈ groups text, isText group = true := by
  induction text, h using fives_induction with
  | nil => simp [groups, isText]
  | five a b c d e rest _ _ ih =>
    have hfront : a :: b :: c :: d :: e :: rest = [a, b, c, d, e] ++ rest := rfl
    rw [groups, List.forall_mem_cons, ← ih, hfront, isText_append]

theorem decodeGroups_sound (h : Sound [a, b, c, d, e]) (rest : Bytes) :
    decodeGroups (a :: b :: c :: d :: e :: rest) =
      (decodeGroups rest).map (bytesOfWord (worth [a, b, c, d, e]) ++ ·) := by
  rw [decodeGroups, h.wordOfDigits_eq rfl]
  rfl

theorem decodeGroups_spoilt (h : Spoilt [a, b, c, d, e] fault) (rest : Bytes) :
    decodeGroups (a :: b :: c :: d :: e :: rest) = .error fault := by
  rw [decodeGroups, h.wordOfDigits_eq rfl]
  rfl

/-- What data is written as can be read, and is that data. -/
theorem decodeGroups_encodeGroups (h : data.length % 4 = 0) :
    decodeGroups (encodeGroups data) = .ok data := by
  induction data, h using fours_induction with
  | nil => rfl
  | four a b c d rest _ _ ih =>
    obtain ⟨hsound, hworth⟩ := sound_digitsOfWord (wordOfBytes_lt a b c d)
    have hread := decodeGroups_sound hsound (encodeGroups rest)
    change decodeGroups (digitsOfWord (wordOfBytes a b c d) ++ encodeGroups rest) =
      (decodeGroups (encodeGroups rest)).map
        (bytesOfWord (worth (digitsOfWord (wordOfBytes a b c d))) ++ ·) at hread
    rw [hworth, ih, bytesOfWord_wordOfBytes] at hread
    exact hread

theorem encodeGroups_text (h : data.length % 4 = 0) :
    4 * (encodeGroups data).length = 5 * data.length ∧ isText (encodeGroups data) = true := by
  induction data, h using fours_induction with
  | nil => exact ⟨rfl, rfl⟩
  | four a b c d rest _ _ ih =>
    have hsound := (sound_digitsOfWord (wordOfBytes_lt a b c d)).1
    rw [encodeGroups, isText_append, List.length_append]
    refine ⟨?_, hsound.digits, ih.2⟩
    have hdigits : (digitsOfWord (wordOfBytes a b c d)).length = 5 := rfl
    simp only [List.length_cons]
    omega

/-- A text of sound groups can be read, and is what the data read is written as. -/
theorem decodeGroups_of_sound (h : text.length % 5 = 0)
    (hsound : ∀ group ∈ groups text, Sound group) :
    ∃ data, decodeGroups text = .ok data ∧ data.length % 4 = 0 ∧ encodeGroups data = text := by
  induction text, h using fives_induction with
  | nil => exact ⟨[], rfl, rfl, rfl⟩
  | five a b c d e rest _ _ ih =>
    rw [groups, List.forall_mem_cons] at hsound
    obtain ⟨data, hread, hlength, hwritten⟩ := ih hsound.2
    obtain ⟨p, q, r, s, hbytes, hword⟩ := exists_bytesOfWord hsound.1.fits
    refine ⟨p :: q :: r :: s :: data, ?_, ?_, ?_⟩
    · rw [decodeGroups_sound hsound.1, hread, hbytes]
      rfl
    · simp only [List.length_cons]
      omega
    · rw [encodeGroups, hword, digitsOfWord_worth hsound.1.digits, hwritten]
      rfl

/-- The fault of the first group of a text that has no word. -/
def FirstFault (text : Bytes) (fault : Fault) : Prop :=
  ∃ before group after, groups text = before ++ group :: after ∧
    (∀ group ∈ before, Sound group) ∧ Spoilt group fault

theorem sound_or_firstFault (text : Bytes) :
    (∀ group ∈ groups text, Sound group) ∨ ∃ fault, FirstFault text fault := by
  unfold FirstFault
  induction groups text with
  | nil => exact .inl nofun
  | cons first later ih =>
    obtain hfirst | ⟨fault, hspoilt⟩ := sound_or_spoilt first
    · obtain hlater | ⟨fault, before, group, after, rfl, hbefore, hspoilt⟩ := ih
      · exact .inl (List.forall_mem_cons.mpr ⟨hfirst, hlater⟩)
      · exact .inr ⟨fault, first :: before, group, after, rfl,
          List.forall_mem_cons.mpr ⟨hfirst, hbefore⟩, hspoilt⟩
    · exact .inr ⟨fault, [], first, later, rfl, nofun, hspoilt⟩

theorem FirstFault.decodeGroups_eq (h : FirstFault text fault) :
    decodeGroups text = .error fault := by
  obtain ⟨before, group, after, hgroups, hbefore, hspoilt⟩ := h
  induction before generalizing text with
  | nil =>
    match text, hgroups with
    | a :: b :: c :: d :: e :: rest, hgroups =>
      obtain ⟨rfl, -⟩ := List.cons.inj hgroups
      exact decodeGroups_spoilt hspoilt rest
  | cons first before ih =>
    rw [List.forall_mem_cons] at hbefore
    match text, hgroups with
    | a :: b :: c :: d :: e :: rest, hgroups =>
      obtain ⟨rfl, hrest⟩ := List.cons.inj hgroups
      rw [decodeGroups_sound hbefore.1, ih hrest hbefore.2]
      rfl

theorem sound_of_decodeGroups (h : decodeGroups text = .ok data) :
    ∀ group ∈ groups text, Sound group := by
  refine (sound_or_firstFault text).resolve_right ?_
  rintro ⟨fault, hfault⟩
  rw [hfault.decodeGroups_eq] at h
  cases h

theorem firstFault_of_decodeGroups (hlen : text.length % 5 = 0)
    (h : decodeGroups text = .error fault) : FirstFault text fault := by
  obtain hsound | ⟨found, hfound⟩ := sound_or_firstFault text
  · obtain ⟨data, hread, -⟩ := decodeGroups_of_sound hlen hsound
    rw [h] at hread
    cases hread
  · have hsame := hfound.decodeGroups_eq
    rw [h] at hsame
    cases hsame
    exact hfound

/-! ## Data and texts -/

theorem encode_eq_ok_iff :
    encode data = .ok text ↔ data.length % 4 = 0 ∧ encodeGroups data = text := by
  unfold encode
  split
  · next hlen => simp [hlen]
  · next hlen => simp [hlen]

theorem decode_eq_ok_iff :
    decode text = .ok data ↔ text.length % 5 = 0 ∧ decodeGroups text = .ok data := by
  unfold decode
  split
  · next hlen => simp [hlen]
  · next hlen => simp [hlen]

theorem decode_eq_error_iff :
    decode text = .error fault ↔
      if text.length % 5 = 0 then FirstFault text fault else fault = .length text.length 5 := by
  unfold decode
  split
  · next hlen => exact ⟨firstFault_of_decodeGroups hlen, FirstFault.decodeGroups_eq⟩
  · next hlen => rw [Except.error.injEq, eq_comm]

/-- Reading and writing undo each other. -/
theorem encode_iff_decode : encode data = .ok text ↔ decode text = .ok data := by
  rw [encode_eq_ok_iff, decode_eq_ok_iff]
  constructor
  · rintro ⟨hlen, rfl⟩
    have hlength := (encodeGroups_text hlen).1
    exact ⟨by omega, decodeGroups_encodeGroups hlen⟩
  · rintro ⟨hlen, hread⟩
    obtain ⟨data', hread', hlen', hwritten⟩ :=
      decodeGroups_of_sound hlen (sound_of_decodeGroups hread)
    rw [hread] at hread'
    cases hread'
    exact ⟨hlen', hwritten⟩

/-- **Data and texts are paired.** Data of whole words is written as a text over the alphabet with
five digits for four bytes. A text is what some data is written as exactly if it can be read, and it
can be read exactly if it is made of groups of five digits below 2^32 each. Any other text has the
fault of its length, or else of its first group without a word. -/
theorem encode_paired :
    (∀ data text, encode data = .ok text ↔ decode text = .ok data) ∧
      (∀ data, data.length % 4 = 0 → ∃ text, encode data = .ok text ∧
        4 * text.length = 5 * data.length ∧ isText text = true) ∧
      (∀ text, (∃ data, decode text = .ok data) ↔ text.length % 5 = 0 ∧ isText text = true ∧
        ∀ group ∈ groups text, worth group < 2 ^ 32) ∧
      ∀ text fault, decode text = .error fault ↔
        if text.length % 5 = 0 then FirstFault text fault else fault = .length text.length 5 := by
  refine ⟨fun data text => encode_iff_decode, fun data hlen => ?_, fun text => ?_,
    fun text fault => decode_eq_error_iff⟩
  · obtain ⟨hlength, htext⟩ := encodeGroups_text hlen
    exact ⟨_, encode_eq_ok_iff.mpr ⟨hlen, rfl⟩, hlength, htext⟩
  · simp only [decode_eq_ok_iff]
    constructor
    · rintro ⟨data, hlen, hread⟩
      have hsound := sound_of_decodeGroups hread
      exact ⟨hlen, (isText_iff_groups hlen).mpr fun g hg => (hsound g hg).digits,
        fun g hg => (hsound g hg).fits⟩
    · rintro ⟨hlen, htext, hfits⟩
      have hdigits := (isText_iff_groups hlen).mp htext
      obtain ⟨data, hread, -⟩ :=
        decodeGroups_of_sound hlen fun g hg => ⟨hdigits g hg, hfits g hg⟩
      exact ⟨data, hlen, hread⟩

/-- Two words, and a text whose second group has a byte outside the alphabet and whose third spells
too large a number. -/
theorem encode_paired_words :
    let data : Bytes := [0x86, 0x4F, 0xD2, 0x6F, 0xB5, 0x59, 0xF7, 0x5B]
    let text := Text.Utf8.encode "HelloWorld"
    let faulty := Text.Utf8.encode "Hello#### #####"
    data.length % 4 = 0 ∧ encode data = .ok text ∧ decode text = .ok data ∧
      (∃ written, encode data = .ok written ∧ 4 * written.length = 5 * 8) ∧
      FirstFault faulty (.alphabet 0x20) := by
  intro data text faulty
  obtain ⟨hpaired, hwritten, -, hfault⟩ := encode_paired
  have hlen : data.length % 4 = 0 := by decide
  have hencode : encode data = .ok text := by decide +kernel
  obtain ⟨written, hok, hlength, -⟩ := hwritten data hlen
  have hread : decode faulty = .error (.alphabet 0x20) := by decide +kernel
  have hfirst := (hfault faulty _).mp hread
  rw [if_pos (by decide +kernel)] at hfirst
  exact ⟨hlen, hencode, (hpaired data text).mp hencode, ⟨written, hok, hlength⟩, hfirst⟩

end Depot.Z85
