import Mathlib.Data.List.TakeWhile
import Depot.Address
import Depot.Proofs.Text.Decimal

/-! # Addresses read back as they were written

Reading the text of an address gives the address (`parse?_render`), so no two addresses have the
same text. A word of the long form is never taken for the start of a dotted address, since no dot
follows its digits, and the folded zeros are as many as the words around them leave room for. -/

namespace Depot.Address

/-! ## Words -/

theorem hexValue?_digitChar : ∀ d < 16, hexValue? (Nat.digitChar d) = some d := by decide

/-- The digits of a word spell it. -/
theorem foldl_toDigits (n : Nat) :
    (Nat.toDigits 16 n).foldl (fun n c => n * 16 + (hexValue? c).getD 0) 0 = n := by
  induction n using Nat.strongRecOn with
  | ind n ih =>
    rw [Nat.toDigits_eq_if (by decide)]
    by_cases h : n < 16
    · rw [if_pos h]
      simp [hexValue?_digitChar n h]
    · have hlast : n % 16 < 16 := Nat.mod_lt n (by decide)
      rw [if_neg h, List.foldl_append, ih (n / 16) (by omega)]
      simp only [List.foldl_cons, List.foldl_nil, hexValue?_digitChar _ hlast, Option.getD_some]
      omega

theorem isSome_of_mem_toDigits {n : Nat} {c : Char} (hc : c ∈ Nat.toDigits 16 n) :
    (hexValue? c).isSome = true := by
  induction n using Nat.strongRecOn with
  | ind n ih =>
    rw [Nat.toDigits_eq_if (by decide)] at hc
    split at hc
    · next h =>
      rw [List.mem_singleton.mp hc, hexValue?_digitChar n h]
      rfl
    · next h =>
      obtain hc | hc := List.mem_append.mp hc
      · exact ih (n / 16) (by omega) hc
      · rw [List.mem_singleton.mp hc, hexValue?_digitChar _ (Nat.mod_lt n (by decide))]
        rfl

/-- Taking while a test holds stops where a text ends whose first character fails it. -/
theorem takeWhile_append_of_head {p : Char → Bool} {text rest : List Char}
    (htext : ∀ c ∈ text, p c = true) (hrest : ∀ c ∈ rest.head?, p c = false) :
    (text ++ rest).takeWhile p = text ∧ (text ++ rest).dropWhile p = rest := by
  rw [List.takeWhile_append_of_pos htext, List.dropWhile_append_of_pos htext]
  cases rest with
  | nil => simp
  | cons c rest =>
    have hc : ¬p c = true := by simp [hrest c rfl]
    rw [List.takeWhile_cons_of_neg hc, List.dropWhile_cons_of_neg hc, List.append_nil]
    exact ⟨rfl, rfl⟩

theorem readGroup_append (g : UInt16) (rest : List Char)
    (hrest : ∀ c ∈ rest.head?, (hexValue? c).isSome = false) :
    readGroup (Nat.toDigits 16 g.toNat ++ rest) = some (g, rest) := by
  have hdigits := (takeWhile_append_of_head (p := fun c => (hexValue? c).isSome)
    (fun c hc => isSome_of_mem_toDigits (n := g.toNat) hc) hrest).1
  have hlength : (Nat.toDigits 16 g.toNat).length ≤ 4 :=
    (Nat.length_toDigits_le_iff (by decide) (by decide)).mpr g.toNat_lt
  unfold readGroup
  simp only [hdigits]
  rw [if_neg (by simp [Nat.toDigits_ne_nil]; omega), foldl_toDigits, List.drop_left,
    UInt16.ofNat_toNat]

theorem readOctet_append (b : UInt8) {rest : List Char}
    (hrest : ∀ c ∈ rest.head?, c.isDigit = false) :
    readOctet ((toString b.toNat).toList ++ rest) = some (b, rest) := by
  obtain ⟨hdigits, hbehind⟩ :=
    takeWhile_append_of_head (Text.Decimal.isDigit_toString b.toNat) hrest
  have hb : b.toNat < 256 := b.toNat_lt
  have hlength : (Nat.toDigits 10 b.toNat).length ≤ 3 :=
    (Nat.length_toDigits_le_iff (by decide) (by decide)).mpr (by omega)
  have hzero : ∀ n < 256,
      ¬((Nat.toDigits 10 n).head? = some '0' ∧ 1 < (Nat.toDigits 10 n).length) := by
    decide +kernel
  unfold readOctet
  simp only [hdigits, hbehind]
  rw [Text.Decimal.toList_toString, Nat.ofDigitChars_ten_toDigits, UInt8.ofNat_toNat, if_neg]
  rintro (hnil | hlong | hlarge | hfirst)
  · exact Nat.toDigits_ne_nil hnil
  · omega
  · omega
  · exact hzero _ hb hfirst

/-! ## Dotted addresses -/

theorem readDotted_append (a b c d : UInt8) (rest : List Char)
    (hrest : ∀ c ∈ rest.head?, c.isDigit = false) :
    readDotted ((dotted a b c d).toList ++ rest) = some ((a, b, c, d), rest) := by
  have hdot {text : List Char} : ∀ c ∈ ('.' :: text).head?, c.isDigit = false := by
    intro c hc
    cases hc
    decide
  have hchar (text : List Char) : readChar '.' ('.' :: text) = some text := rfl
  have hpoint : ".".toList = ['.'] := rfl
  unfold dotted readDotted
  simp only [String.toList_append, List.append_assoc, hpoint, List.cons_append, List.nil_append,
    readOctet_append a hdot, readOctet_append b hdot, readOctet_append c hdot,
    readOctet_append d hrest, hchar, bind, Option.bind]
  rfl

/-- Where no dot follows the first digits there is no dotted address. -/
theorem readDotted_eq_none {text : List Char}
    (h : (text.dropWhile Char.isDigit).head? ≠ some '.') : readDotted text = none := by
  have hrest : readChar '.' (text.dropWhile Char.isDigit) = none := by
    cases hdrop : text.dropWhile Char.isDigit with
    | nil => rfl
    | cons c rest =>
      rw [hdrop] at h
      exact if_neg fun hc => h (by rw [hc]; rfl)
  unfold readDotted
  cases hread : readOctet text with
  | none => rfl
  | some read =>
    obtain ⟨b, rest⟩ := read
    have hbehind : rest = text.dropWhile Char.isDigit := by
      unfold readOctet at hread
      simp only at hread
      split at hread
      · cases hread
      · cases hread
        rfl
    simp only [bind, Option.bind, hbehind, hrest]

/-! ## The long form -/

/-- The text of groups; all but a first one have a colon in front. -/
def spelt (first : Bool) : List UInt16 → List Char
  | [] => []
  | g :: groups => (if first then [] else [':']) ++ Nat.toDigits 16 g.toNat ++ spelt false groups

theorem toList_colons (groups : List UInt16) : (colons groups).toList = spelt true groups := by
  have hrest (g : UInt16) (groups : List UInt16) :
      [':'].intercalate ((g :: groups).map fun g => Nat.toDigits 16 g.toNat) =
        Nat.toDigits 16 g.toNat ++ spelt false groups := by
    induction groups generalizing g with
    | nil => simp [spelt]
    | cons g' groups ih =>
      have hnext := ih g'
      rw [List.map_cons] at hnext
      rw [List.map_cons, List.map_cons, List.intercalate_cons_cons, hnext, spelt]
      simp
  have hcolon : ":".toList = [':'] := rfl
  unfold colons
  rw [String.toList_intercalate, List.map_map, hcolon]
  cases groups with
  | nil => rfl
  | cons g groups =>
    rw [spelt]
    simpa [Function.comp_def] using hrest g groups

/-- Text at which groups end: its end, or folded zeros. -/
def Ends (rest : List Char) : Prop := rest = [] ∨ ∃ tail, rest = ':' :: ':' :: tail

/-- What follows a group in such text is a colon, if anything. -/
theorem head?_spelt {groups : List UInt16} {rest : List Char} (hrest : Ends rest) {c : Char}
    (hc : c ∈ (spelt false groups ++ rest).head?) : c = ':' := by
  cases groups with
  | nil =>
    obtain rfl | ⟨tail, rfl⟩ := hrest
    · cases hc
    · cases hc
      rfl
  | cons g groups =>
    cases hc
    rfl

/-- The digits of a group are not the start of a dotted address. -/
theorem readDotted_group (g : UInt16) {rest : List Char} (hrest : ∀ c ∈ rest.head?, c = ':') :
    readDotted (Nat.toDigits 16 g.toNat ++ rest) = none := by
  refine readDotted_eq_none fun hdot => ?_
  have hword : ∀ c ∈ Nat.toDigits 16 g.toNat, c ≠ '.' := by
    rintro c hc rfl
    exact absurd (isSome_of_mem_toDigits hc) (by decide)
  revert hdot hword
  induction Nat.toDigits 16 g.toNat with
  | nil =>
    intro hdot _
    cases rest with
    | nil => cases hdot
    | cons c rest =>
      rw [hrest c rfl, List.nil_append, List.dropWhile_cons_of_neg (by decide)] at hdot
      cases hdot
  | cons c text ih =>
    intro hdot hword
    rw [List.cons_append, List.dropWhile_cons] at hdot
    split at hdot
    · exact ih hdot fun d hd => hword d (List.mem_cons_of_mem c hd)
    · cases hdot
      exact hword '.' List.mem_cons_self rfl

/-! One step of reading groups: a word, or a dotted address in place of the last two. -/

theorem readGroups_word {first : Bool} {input text rest : List Char} {g : UInt16} (room : Nat)
    (hstart : (if first then some input else readChar ':' input) = some text)
    (hdotted : readDotted text = none) (hgroup : readGroup text = some (g, rest)) :
    readGroups first (room + 1) input =
      { readGroups false room rest with groups := g :: (readGroups false room rest).groups } := by
  have hnone : (if room = 0 then none else readDotted text) = none := by
    split
    · rfl
    · exact hdotted
  conv_lhs => rw [readGroups, hstart]
  simp only [Option.bind_some, hnone, hgroup]

theorem readGroups_dotted {first : Bool} {input text rest : List Char} {a b c d : UInt8}
    {room : Nat} (hroom : room ≠ 0)
    (hstart : (if first then some input else readChar ':' input) = some text)
    (hdotted : readDotted text = some ((a, b, c, d), rest)) :
    readGroups first (room + 1) input =
      ⟨[a.toUInt16 <<< 8 ||| b.toUInt16, c.toUInt16 <<< 8 ||| d.toUInt16], true, rest⟩ := by
  rw [readGroups, hstart, if_neg hroom]
  simp only [Option.bind_some, hdotted]

/-- Groups are read up to where they end, as long as there is room. -/
theorem readGroups_spelt (first : Bool) (groups : List UInt16) (room : Nat) (rest : List Char)
    (hroom : groups.length ≤ room) (hrest : Ends rest) :
    readGroups first room (spelt first groups ++ rest) = ⟨groups, false, rest⟩ := by
  induction groups generalizing first room with
  | nil =>
    have hstart (text : List Char) (htext : text = [] ∨ ∃ tail, text = ':' :: tail) :
        readDotted text = none ∧ readGroup text = none := by
      obtain rfl | ⟨tail, rfl⟩ := htext
      · exact ⟨rfl, rfl⟩
      · exact ⟨readDotted_eq_none (by rw [List.dropWhile_cons_of_neg (by decide)]; simp), rfl⟩
    cases room with
    | zero => rfl
    | succ room =>
      have hnone : ∀ text ∈ (if first then some rest else readChar ':' rest),
          readDotted text = none ∧ readGroup text = none := by
        intro text htext
        refine hstart text ?_
        obtain rfl | ⟨tail, rfl⟩ := hrest
        · cases first <;> cases htext
          exact .inl rfl
        · cases first <;> cases htext
          · exact .inr ⟨_, rfl⟩
          · exact .inr ⟨_, rfl⟩
      rw [spelt, List.nil_append, readGroups]
      cases hstart : (if first then some rest else readChar ':' rest) with
      | none => simp
      | some text =>
        obtain ⟨hdotted, hgroup⟩ := hnone text hstart
        simp [hdotted, hgroup]
  | cons g groups ih =>
    cases room with
    | zero => simp at hroom
    | succ room =>
      have hfollow : ∀ c ∈ (spelt false groups ++ rest).head?, c = ':' :=
        fun c hc => head?_spelt hrest hc
      have hstart : (if first then some (spelt first (g :: groups) ++ rest)
          else readChar ':' (spelt first (g :: groups) ++ rest)) =
          some (Nat.toDigits 16 g.toNat ++ (spelt false groups ++ rest)) := by
        cases first <;> simp [spelt, readChar]
      have hdotted := readDotted_group g hfollow
      have hgroup := readGroup_append g (spelt false groups ++ rest)
        fun c hc => by rw [hfollow c hc]; decide
      have hlater := ih false room (by simpa using hroom)
      rw [readGroups_word room hstart hdotted hgroup, hlater]

/-- The run of zeros that is folded is one. -/
theorem zeroRun_le (groups : List UInt16) :
    (zeroRun groups).2 ≤ zerosAhead (groups.drop (zeroRun groups).1) := by
  have hfold (starts : List Nat) (best : Nat × Nat)
      (hbest : best.2 ≤ zerosAhead (groups.drop best.1)) :
      let found := starts.foldl
        (fun best start =>
          let length := zerosAhead (groups.drop start)
          if best.2 < length then (start, length) else best) best
      found.2 ≤ zerosAhead (groups.drop found.1) := by
    induction starts generalizing best with
    | nil => exact hbest
    | cons start starts ih =>
      refine ih _ ?_
      simp only
      split
      · exact Nat.le_refl _
      · exact hbest
  exact hfold _ (0, 0) (Nat.zero_le _)

theorem take_zeros {groups : List UInt16} {n : Nat} (h : n ≤ zerosAhead groups) :
    groups.take n = List.replicate n 0 := by
  refine List.eq_replicate_iff.mpr ⟨?_, fun g hg => ?_⟩
  · rw [List.length_take]
    have := (List.takeWhile_prefix (l := groups) (· == 0)).length_le
    unfold zerosAhead at h
    omega
  · have hfront : groups.take n <+: groups.takeWhile (· == 0) :=
      List.prefix_of_prefix_length_le (List.take_prefix n groups) (List.takeWhile_prefix _)
        ((List.length_take_le n groups).trans h)
    simpa using List.mem_takeWhile_imp (hfront.subset hg)

/-- With the zeros put back in between, the groups around the run are all groups. -/
theorem unfold_zeroRun (groups : List UInt16) :
    groups.take (zeroRun groups).1 ++ List.replicate (zeroRun groups).2 0 ++
      groups.drop ((zeroRun groups).1 + (zeroRun groups).2) = groups := by
  rw [← take_zeros (zeroRun_le groups), List.append_assoc, ← List.drop_drop, List.take_append_drop,
    List.take_append_drop]

theorem zeroRun_fits (groups : List UInt16) (h : 0 < (zeroRun groups).2) :
    (zeroRun groups).1 + (zeroRun groups).2 ≤ groups.length := by
  have hzeros : zerosAhead (groups.drop (zeroRun groups).1) ≤
      (groups.drop (zeroRun groups).1).length := (List.takeWhile_prefix _).length_le
  have := zeroRun_le groups
  rw [List.length_drop] at hzeros
  omega

/-- A group is its two octets, one behind the other. -/
theorem octets_group (g : UInt16) :
    (g >>> 8).toUInt8.toUInt16 <<< 8 ||| g.toUInt8.toUInt16 = g := by
  have hg : g.toNat < 65536 := g.toNat_lt
  have hlow : g.toNat % 2 ^ 8 < 2 ^ 8 := Nat.mod_lt _ (by decide)
  have hhigh : (g.toNat / 2 ^ 8 % 2 ^ 8) <<< 8 % 2 ^ 16 = (g.toNat / 2 ^ 8) <<< 8 := by
    rw [Nat.shiftLeft_eq, Nat.shiftLeft_eq]
    omega
  rw [← UInt16.toNat_inj]
  simp only [UInt16.toNat_or, UInt16.toNat_shiftLeft, UInt8.toNat_toUInt16, UInt16.toNat_toUInt8,
    UInt16.toNat_shiftRight, UInt16.reduceToNat, Nat.reduceMod, Nat.shiftRight_eq_div_pow]
  rw [hhigh, ← Nat.shiftLeft_add_eq_or_of_lt hlow, Nat.shiftLeft_eq]
  omega

/-! ## All addresses -/

theorem readLong_folded {groups : List UInt16} (h : groups.length = 8)
    (hrun : 1 < (zeroRun groups).2) :
    readLong (spelt true (groups.take (zeroRun groups).1) ++
        ':' :: ':' :: spelt true (groups.drop ((zeroRun groups).1 + (zeroRun groups).2))) =
      some (groups, []) := by
  have hfits := zeroRun_fits groups (by omega)
  have hgroups := unfold_zeroRun groups
  revert hrun hfits hgroups
  generalize (zeroRun groups).1 = start
  generalize (zeroRun groups).2 = length
  intro hrun hfits hgroups
  have htake : (groups.take start).length = start := by rw [List.length_take]; omega
  have hdrop : (groups.drop (start + length)).length = 8 - (start + length) := by
    rw [List.length_drop, h]
  have hhead := readGroups_spelt true (groups.take start) 8
    (':' :: ':' :: spelt true (groups.drop (start + length))) (by omega) (.inr ⟨_, rfl⟩)
  have htail := readGroups_spelt true (groups.drop (start + length)) (7 - start) [] (by omega)
    (.inl rfl)
  rw [List.append_nil] at htail
  have hchar (text : List Char) : readChar ':' (':' :: text) = some text := rfl
  have hzeros : 8 - start - (8 - (start + length)) = length := by omega
  unfold readLong
  simp only [hhead, htake, hchar, htail, hdrop, hzeros, hgroups, bind, Option.bind]
  rw [if_neg (by omega)]
  rfl

theorem readLong_whole {groups : List UInt16} (h : groups.length = 8) :
    readLong (spelt true groups) = some (groups, []) := by
  have hhead := readGroups_spelt true groups 8 [] (by omega) (.inl rfl)
  rw [List.append_nil] at hhead
  unfold readLong
  simp only [hhead]
  rw [if_pos h]

/-- The groups that embed a short address. -/
def embedding (a b c d : UInt8) : List UInt16 :=
  [0, 0, 0, 0, 0, 0xFFFF, a.toUInt16 <<< 8 ||| b.toUInt16, c.toUInt16 <<< 8 ||| d.toUInt16]

/-- The groups that an embedded address was found in embed it. -/
theorem toList_embedded {groups : Vector UInt16 8} {short : Address}
    (h : embedded? groups = some short) :
    ∃ a b c d, short = .v4 a b c d ∧ groups.toList = embedding a b c d := by
  unfold embedded? at h
  split at h
  · next hfront =>
    cases h
    have hlast : groups.toList.drop 6 = [groups[6], groups[7]] := by
      refine List.ext_getElem (by simp) fun i hi _ => ?_
      have hi : i < 2 := by simpa using hi
      obtain rfl | rfl : i = 0 ∨ i = 1 := by omega
      · simp
      · simp
    refine ⟨_, _, _, _, rfl, ?_⟩
    rw [embedding, octets_group, octets_group, ← List.take_append_drop 6 groups.toList, hfront,
      hlast]
    rfl
  · cases h

/-- Behind the word `ffff` stands a dotted address. -/
theorem readGroups_embedded (a b c d : UInt8) :
    readGroups true 7 ('f' :: 'f' :: 'f' :: 'f' :: ':' :: (dotted a b c d).toList) =
      ⟨[0xFFFF, a.toUInt16 <<< 8 ||| b.toUInt16, c.toUInt16 <<< 8 ||| d.toUInt16], true, []⟩ := by
  have hword : Nat.toDigits 16 (0xFFFF : UInt16).toNat = ['f', 'f', 'f', 'f'] := by
    decide +kernel
  have hcolon : ∀ x ∈ (':' :: (dotted a b c d).toList).head?, x = ':' := by
    intro x hx
    cases hx
    rfl
  have hnot := readDotted_group 0xFFFF hcolon
  have hgroup := readGroup_append 0xFFFF (':' :: (dotted a b c d).toList)
    fun x hx => by rw [hcolon x hx]; decide
  have hdotted := readDotted_append a b c d [] (by simp)
  rw [hword] at hnot hgroup
  rw [List.append_nil] at hdotted
  have hlast : readGroups false 6 (':' :: (dotted a b c d).toList) =
      ⟨[a.toUInt16 <<< 8 ||| b.toUInt16, c.toUInt16 <<< 8 ||| d.toUInt16], true, []⟩ :=
    readGroups_dotted (by decide) rfl hdotted
  rw [readGroups_word 6 rfl hnot hgroup, hlast]

theorem readLong_embedded (a b c d : UInt8) :
    readLong (':' :: ':' :: 'f' :: 'f' :: 'f' :: 'f' :: ':' :: (dotted a b c d).toList) =
      some (embedding a b c d, []) := by
  have hhead : readGroups true 8
      (':' :: ':' :: 'f' :: 'f' :: 'f' :: 'f' :: ':' :: (dotted a b c d).toList) = ⟨[], false, _⟩ :=
    readGroups_spelt true [] 8 _ (Nat.zero_le 8) (.inr ⟨_, rfl⟩)
  have hchar (text : List Char) : readChar ':' (':' :: text) = some text := rfl
  unfold readLong
  simp only [hhead, hchar, List.length_nil, Nat.sub_zero, readGroups_embedded, bind, Option.bind]
  rfl

/-- No text of groups starts with a dotted address. -/
theorem readDotted_spelt (groups : List UInt16) {rest : List Char} (hrest : Ends rest) :
    readDotted (spelt true groups ++ rest) = none := by
  cases groups with
  | nil =>
    obtain rfl | ⟨tail, rfl⟩ := hrest
    · rfl
    · exact readDotted_eq_none (by simp [spelt])
  | cons g groups =>
    rw [spelt, if_pos rfl, List.nil_append, List.append_assoc]
    exact readDotted_group g fun c hc => head?_spelt hrest hc

theorem parse?_long {text : String} {groups : Vector UInt16 8}
    (hdotted : readDotted text.toList = none)
    (hlong : readLong text.toList = some (groups.toList, [])) :
    parse? text = some (.v6 groups) := by
  unfold parse?
  simp only [hdotted, hlong]
  rw [dif_pos (by simp)]
  rfl

/-- What is written of an address is read as that address. -/
theorem parse?_render (address : Address) : parse? address.render = some address := by
  cases address with
  | v4 a b c d =>
    have hread := readDotted_append a b c d [] (by simp)
    rw [List.append_nil] at hread
    unfold parse? render
    simp only [hread]
  | v6 groups =>
    have hlength : groups.toList.length = 8 := by simp
    cases hembedded : embedded? groups with
    | some short =>
      obtain ⟨a, b, c, d, rfl, hgroups⟩ := toList_embedded hembedded
      have htext : (render (.v6 groups)).toList =
          ':' :: ':' :: 'f' :: 'f' :: 'f' :: 'f' :: ':' :: (dotted a b c d).toList := by
        simp only [render, hembedded, String.toList_append]
        rfl
      refine parse?_long ?_ ?_
      · rw [htext]
        exact readDotted_spelt [] (.inr ⟨_, rfl⟩)
      · rw [htext, readLong_embedded, hgroups]
    | none =>
      by_cases hrun : 1 < (zeroRun groups.toList).2
      · have htext : (render (.v6 groups)).toList =
            spelt true (groups.toList.take (zeroRun groups.toList).1) ++ ':' :: ':' ::
              spelt true (groups.toList.drop ((zeroRun groups.toList).1 +
                (zeroRun groups.toList).2)) := by
          simp only [render, hembedded, if_pos hrun, String.toList_append, toList_colons]
          simp
        refine parse?_long ?_ ?_
        · rw [htext]
          exact readDotted_spelt _ (.inr ⟨_, rfl⟩)
        · rw [htext]
          exact readLong_folded hlength hrun
      · have htext : (render (.v6 groups)).toList = spelt true groups.toList := by
          simp only [render, hembedded, if_neg hrun, toList_colons]
        refine parse?_long ?_ ?_
        · rw [htext, ← List.append_nil (spelt true groups.toList)]
          exact readDotted_spelt _ (.inl rfl)
        · rw [htext]
          exact readLong_whole hlength

theorem render_inj {a b : Address} : a.render = b.render ↔ a = b := by
  refine ⟨fun h => ?_, congrArg render⟩
  have hparse := parse?_render a
  rw [h, parse?_render b] at hparse
  exact (Option.some.inj hparse).symm

end Depot.Address
