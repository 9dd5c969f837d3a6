import Depot.Proofs.Scanner
import Depot.Resp.Decoder

/-! # Reading replies off a growing buffer

What is read of the bytes at hand stands when more bytes come: a reply stays the reply it is, and
bytes that are none stay none (`decode_append`, `decode_fault_append`). The reader counts its fuel
down through the parts of an array; with more fuel it still reads what it read with less
(`value_grows`). -/

namespace Depot.Resp

open Scanner (Incremental Grows incremental_pure incremental_more)
open Text.Ascii (cr lf crlf)

/-! ## Lines -/

/-- A text that can stand in a line: the first line end behind it is the one of its line. -/
def IsLine (text : Bytes) : Prop := ¬ crlf <:+: text

theorem isLine_nil : IsLine [] := by
  rintro ⟨front, back, h⟩
  simp [crlf] at h

theorem isLine_of_not_mem {text : Bytes} (h : cr ∉ text) : IsLine text :=
  fun hline => h (hline.subset (by simp [crlf]))

/-- A byte in front of a text leaves it a line unless both bytes of a line end meet. -/
theorem isLine_cons {b : UInt8} {text : Bytes} :
    IsLine (b :: text) ↔ ¬ (b = cr ∧ text.head? = some lf) ∧ IsLine text := by
  unfold IsLine
  rw [List.infix_cons_iff, not_or, and_congr_left_iff]
  intro _
  cases text with
  | nil => simp [crlf]
  | cons c text => simp [crlf, List.cons_prefix_cons, eq_comm]

theorem textLine_append {text : Bytes} (h : IsLine text) (rest : Bytes) :
    textLine (text ++ crlf ++ rest) = .value text rest := by
  induction text with
  | nil => rfl
  | cons b text ih =>
    obtain ⟨hb, htext⟩ := isLine_cons.mp h
    have hhead : ¬ (b = cr ∧ (text ++ crlf ++ rest).head? = some lf) := by
      cases text with
      | nil => rintro ⟨-, ⟨⟩⟩
      | cons c text => exact hb
    rw [List.cons_append, List.cons_append, textLine, if_neg hhead, ih htext]

theorem textLine_value {b text rest : Bytes} (h : textLine b = .value text rest) :
    b = text ++ crlf ++ rest ∧ IsLine text := by
  induction b generalizing text rest with
  | nil => cases h
  | cons c b ih =>
    rw [textLine] at h
    split at h
    · next hend =>
      cases h
      obtain ⟨b', rfl⟩ := List.head?_eq_some_iff.mp hend.2
      rw [hend.1]
      exact ⟨rfl, isLine_nil⟩
    · next hinside =>
      split at h
      · next text' rest' hline =>
        cases h
        obtain ⟨rfl, htext'⟩ := ih hline
        refine ⟨rfl, isLine_cons.mpr ⟨fun hmeet => hinside ⟨hmeet.1, ?_⟩, htext'⟩⟩
        obtain ⟨text'', rfl⟩ := List.head?_eq_some_iff.mp hmeet.2
        rfl
      · cases h
      · cases h

theorem textLine_shorter {b text rest : Bytes} (h : textLine b = .value text rest) :
    rest.length < b.length := by
  rw [(textLine_value h).1]
  simp only [crlf, List.length_append, List.length_cons]
  omega

theorem textLine_ne_fault (b : Bytes) (e : Fault) : textLine b ≠ .fault e := by
  induction b generalizing e with
  | nil => nofun
  | cons c b ih =>
    rw [textLine]
    split
    · nofun
    · split
      · nofun
      · nofun
      · next hline => exact absurd hline (ih _)

theorem incremental_textLine : Incremental textLine where
  suffix h := by
    obtain ⟨rfl, -⟩ := textLine_value h
    exact List.suffix_append _ _
  value_append t h := by
    obtain ⟨rfl, htext⟩ := textLine_value h
    rw [List.append_assoc _ _ t, textLine_append htext]
  fault_append t h := absurd h (textLine_ne_fault _ _)
  late {b t text rest} h ht := by
    obtain ⟨hsplit, htext⟩ := textLine_value ht
    by_contra hlong
    -- the line would end within the bytes that were there
    obtain ⟨back, hback⟩ : text ++ crlf <+: b := by
      refine List.prefix_of_prefix_length_le ⟨rest, hsplit.symm⟩ (List.prefix_append b t) ?_
      have hlength := congrArg List.length hsplit
      simp only [List.length_append] at hlength ⊢
      omega
    rw [← hback, textLine_append htext] at h
    cases h

/-! ## Bulk strings -/

theorem bulkBody_append (bytes rest : Bytes) :
    bulkBody bytes.length (bytes ++ crlf ++ rest) = .value bytes rest := by
  have hdrop : (bytes ++ crlf ++ rest).drop bytes.length = cr :: lf :: rest := by
    rw [List.append_assoc, List.drop_left]
    rfl
  unfold bulkBody
  simp only [hdrop, and_self, if_true]
  rw [List.append_assoc, List.take_left]

theorem bulkBody_value {length : Nat} {b bytes rest : Bytes}
    (h : bulkBody length b = .value bytes rest) :
    b = bytes ++ crlf ++ rest ∧ bytes.length = length := by
  unfold bulkBody at h
  split at h
  · next c d r hdrop =>
    split at h
    · next hend =>
      cases h
      have hlength := congrArg List.length hdrop
      rw [List.length_drop, List.length_cons, List.length_cons] at hlength
      refine ⟨?_, by rw [List.length_take]; omega⟩
      rw [List.append_assoc]
      calc b = b.take length ++ b.drop length := (List.take_append_drop length b).symm
        _ = b.take length ++ (crlf ++ rest) := by rw [hdrop, hend.1, hend.2]; rfl
    · cases h
  · cases h

/-- As long as the line end is not there in full, it is waited for. -/
theorem bulkBody_more {length : Nat} {b : Bytes} (h : bulkBody length b = .more) :
    b.length < length + 2 := by
  unfold bulkBody at h
  split at h
  · split at h
    · cases h
    · cases h
  · next hdrop =>
    have hlength : (b.drop length).length < 2 := by
      generalize b.drop length = tail at hdrop
      cases tail with
      | nil => exact Nat.zero_lt_two
      | cons c tail =>
        cases tail with
        | nil => exact Nat.one_lt_two
        | cons d r => exact absurd rfl (hdrop c d r)
    rw [List.length_drop] at hlength
    omega

theorem incremental_bulkBody (length : Nat) : Incremental (bulkBody length) where
  suffix h := by
    obtain ⟨rfl, -⟩ := bulkBody_value h
    exact List.suffix_append _ _
  value_append t h := by
    obtain ⟨rfl, rfl⟩ := bulkBody_value h
    rw [List.append_assoc _ _ t, bulkBody_append]
  fault_append {b e} t h := by
    unfold bulkBody at h ⊢
    split at h
    · next c d r hdrop =>
      have hlength : length ≤ b.length := by
        have hdropped := congrArg List.length hdrop
        rw [List.length_drop, List.length_cons] at hdropped
        omega
      simp only [List.drop_append_of_le_length hlength, hdrop, List.cons_append]
      split at h
      · cases h
      · next hend => rw [if_neg hend, h]
    · cases h
  late {b t bytes rest} h ht := by
    obtain ⟨hsplit, rfl⟩ := bulkBody_value ht
    have hshort := bulkBody_more h
    have hlength := congrArg List.length hsplit
    simp only [List.length_append, crlf, List.length_cons, List.length_nil] at hlength
    omega

/-! ## Values -/

/-- What is behind the line of a reply, by its kind. -/
def payload (fuel : Nat) (kind : UInt8) (text : Bytes) : Scanner Fault Value :=
  match Char.ofNat kind.toNat with
  | '+' => return .status (Text.Utf8.lossy text)
  | '-' => return .failure (Text.Utf8.lossy text)
  | ':' => return .integer (← numberOf text)
  | '$' => do bulk (← numberOf text)
  | '*' => do
    match ← numberOf text with
    | .negSucc _ => return .nil
    | .ofNat count => return .array (← values fuel count)
  | _ => .fail (.unknownKind kind)

theorem value_succ (fuel : Nat) :
    value (fuel + 1) = Scanner.byte >>= fun kind => textLine >>= payload fuel kind := rfl

theorem values_succ (fuel count : Nat) :
    values (fuel + 1) (count + 1) =
      value fuel >>= fun item => values fuel count >>= fun items => pure (item :: items) := rfl

theorem incremental_numberOf (text : Bytes) : Incremental (numberOf text) := by
  unfold numberOf
  split
  · exact incremental_pure _
  · exact (Scanner.delimited_fail _).toIncremental

theorem incremental_bulk (length : Int) : Incremental (bulk length) := by
  cases length with
  | negSucc n => exact incremental_pure _
  | ofNat n =>
    have hbody : Incremental (bulkBody n >>= fun bytes => pure (Value.bulk bytes)) :=
      (incremental_bulkBody n).bind fun _ => incremental_pure _
    unfold bulk
    simp only
    split
    · exact (Scanner.delimited_fail _).toIncremental.bind fun _ => hbody
    · exact hbody

theorem incremental_payload {fuel : Nat} (h : ∀ count, Incremental (values fuel count))
    (kind : UInt8) (text : Bytes) : Incremental (payload fuel kind text) := by
  unfold payload
  split
  · exact incremental_pure _
  · exact incremental_pure _
  · exact (incremental_numberOf text).bind fun _ => incremental_pure _
  · exact (incremental_numberOf text).bind incremental_bulk
  · refine (incremental_numberOf text).bind fun count => ?_
    cases count with
    | negSucc n => exact incremental_pure _
    | ofNat n => exact (h n).bind fun _ => incremental_pure _
  · exact (Scanner.delimited_fail _).toIncremental

/-- Replies are read off a growing buffer, with any fuel. -/
theorem incremental_reading (fuel : Nat) :
    Incremental (value fuel) ∧ ∀ count, Incremental (values fuel count) := by
  induction fuel with
  | zero =>
    refine ⟨incremental_more, fun count => ?_⟩
    cases count with
    | zero => exact incremental_pure _
    | succ count => exact incremental_more
  | succ fuel ih =>
    constructor
    · rw [value_succ]
      exact Scanner.delimited_byte.toIncremental.bind fun kind =>
        incremental_textLine.bind (incremental_payload ih.2 kind)
    · intro count
      cases count with
      | zero => exact incremental_pure _
      | succ count =>
        rw [values_succ]
        exact ih.1.bind fun _ => (ih.2 count).bind fun _ => incremental_pure _

/-! ## Fuel -/

theorem grows_payload {fuel : Nat}
    (h : ∀ count, Grows (values fuel count) (values (fuel + 1) count)) (kind : UInt8)
    (text : Bytes) : Grows (payload fuel kind text) (payload (fuel + 1) kind text) := by
  unfold payload
  split
  · exact Grows.refl _
  · exact Grows.refl _
  · exact Grows.refl _
  · exact Grows.refl _
  · refine (Grows.refl _).bind fun count => ?_
    cases count with
    | negSucc n => exact Grows.refl _
    | ofNat n => exact (h n).bind fun _ => Grows.refl _
  · exact Grows.refl _

theorem grows_succ (fuel : Nat) :
    Grows (value fuel) (value (fuel + 1)) ∧
      ∀ count, Grows (values fuel count) (values (fuel + 1) count) := by
  induction fuel with
  | zero =>
    refine ⟨Scanner.grows_more _, fun count => ?_⟩
    cases count with
    | zero => exact Grows.refl _
    | succ count => exact Scanner.grows_more _
  | succ fuel ih =>
    constructor
    · rw [value_succ, value_succ]
      exact (Grows.refl _).bind fun kind => (Grows.refl _).bind (grows_payload ih.2 kind)
    · intro count
      cases count with
      | zero => exact Grows.refl _
      | succ count =>
        rw [values_succ, values_succ]
        exact ih.1.bind fun _ => (ih.2 count).bind fun _ => Grows.refl _

/-- What is read with some fuel is read with more. -/
theorem grows_value {fuel fuel' : Nat} (h : fuel ≤ fuel') : Grows (value fuel) (value fuel') := by
  induction h with
  | refl => exact Grows.refl _
  | step _ ih => exact ih.trans (grows_succ _).1

/-! ## Buffers that grow -/

theorem decode_append {b rest : Bytes} {v : Value} (h : decode b = .value v rest) (t : Bytes) :
    decode (b ++ t) = .value v (rest ++ t) := by
  have hread : value (b.length + 1) (b ++ t) = .value v (rest ++ t) :=
    (incremental_reading _).1.value_append t h
  have hfuel : b.length + 1 ≤ (b ++ t).length + 1 := by simp
  rw [← hread]
  exact grows_value hfuel _ (by rw [hread]; nofun)

theorem decode_fault_append {b : Bytes} {e : Fault} (h : decode b = .fault e) (t : Bytes) :
    decode (b ++ t) = .fault e := by
  have hread : value (b.length + 1) (b ++ t) = .fault e :=
    (incremental_reading _).1.fault_append t h
  have hfuel : b.length + 1 ≤ (b ++ t).length + 1 := by simp
  rw [← hread]
  exact grows_value hfuel _ (by rw [hread]; nofun)

end Depot.Resp
