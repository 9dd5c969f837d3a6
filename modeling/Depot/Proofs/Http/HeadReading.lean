import Depot.Proofs.Http.HeadSyntax

/-! # Reading heads off a growing buffer

What is read off a buffer is read off every longer one: a head with its length, and a fault. Only
the name of a fault may change, and only if the first 8192 bytes of the buffer hold neither the end
of the head nor what is wrong with it (`Overlong`): then it depends on how much has arrived whether
the head is found to be too long or malformed. -/

namespace Depot.Http.Head

deriving instance DecidableEq for Read

/-- The first bytes of the buffer, as many as a head may have, neither end the head nor rule it
out, and more bytes follow them. -/
def Overlong (b : Bytes) : Prop :=
  maxHead < b.length ∧ Syntax.head maxFields (b.take maxHead) = .more

theorem Overlong.append {b : Bytes} (h : Overlong b) (t : Bytes) : Overlong (b ++ t) := by
  obtain ⟨hlen, hmore⟩ := h
  refine ⟨by simp only [List.length_append]; omega, ?_⟩
  rwa [List.take_append_of_le_length hlen.le]

theorem overlong_of_more {b : Bytes} (hlen : maxHead < b.length)
    (h : Syntax.head maxFields b = .more) : Overlong b := by
  refine ⟨hlen, ?_⟩
  have hsplit := List.take_append_drop maxHead b
  cases ht : Syntax.head maxFields (b.take maxHead) with
  | more => rfl
  | value raw rest =>
    have hv := (Syntax.delimited_head maxFields).value_append (b.drop maxHead) ht
    rw [hsplit, h] at hv
    cases hv
  | fault e =>
    have hf := (Syntax.delimited_head maxFields).fault_append (b.drop maxHead) ht
    rw [hsplit, h] at hf
    cases hf

/-- What a complete head comes to, given how many bytes it has. -/
def ofRaw (raw : RawHead) (size : Nat) (buffer rest : Bytes) : Read :=
  if maxHead < size then .fault (.oversized size) buffer
  else
    match Target.parse? raw.target with
    | none => .fault .target buffer
    | some target =>
      match bodyLength (collect raw.fields) with
      | .error e => .fault e rest
      | .ok length =>
        .head ⟨Text.Utf8.lossy raw.method, target, raw.version, collect raw.fields⟩ length rest

theorem readAny_value {b rest : Bytes} {raw : RawHead}
    (h : Syntax.head maxFields b = .value raw rest) :
    readAny b = ofRaw raw (b.length - rest.length) b rest := by
  unfold readAny
  rw [h]
  rfl

theorem readAny_more {b : Bytes} (h : Syntax.head maxFields b = .more) : readAny b = wait b := by
  unfold readAny
  rw [h]

/-- The name under which a fault of the syntax is reported. -/
def syntaxFault : HeadFault → ParseFault
  | .tooManyFields => .tooManyFields
  | cause => .malformed cause

theorem readAny_fault {b : Bytes} {cause : HeadFault} (h : Syntax.head maxFields b = .fault cause) :
    readAny b = .fault (syntaxFault cause) b := by
  unfold readAny
  rw [h]
  cases cause <;> rfl

theorem read_of_short {b : Bytes} (h : b.length < minHead) : read b = .more := if_pos h

theorem read_eq_readAny {b : Bytes} (h : minHead ≤ b.length) : read b = readAny b :=
  if_neg (by omega)

theorem minHead_le_of_read {b : Bytes} (h : read b ≠ .more) : minHead ≤ b.length := by
  by_contra hlt
  exact h (read_of_short (by omega))

/-- A head is read off a complete head of the syntax that is not too long, has a target and
announces a length. -/
theorem read_head {b rest : Bytes} {head : Head} {length : Nat}
    (h : read b = .head head length rest) :
    minHead ≤ b.length ∧ ∃ raw, Syntax.head maxFields b = .value raw rest ∧
      b.length - rest.length ≤ maxHead ∧ Target.parse? raw.target = some head.target ∧
      bodyLength (collect raw.fields) = .ok length ∧
      head = ⟨Text.Utf8.lossy raw.method, head.target, raw.version, collect raw.fields⟩ := by
  have hmin := minHead_le_of_read (show read b ≠ .more by rw [h]; exact Read.noConfusion)
  rw [read_eq_readAny hmin] at h
  refine ⟨hmin, ?_⟩
  cases hs : Syntax.head maxFields b with
  | more => rw [readAny_more hs, wait] at h; split at h <;> cases h
  | fault cause => rw [readAny_fault hs] at h; cases h
  | value raw r =>
    rw [readAny_value hs, ofRaw] at h
    split at h
    · cases h
    · next hsize =>
      split at h
      · cases h
      · next target ht =>
        split at h
        · cases h
        · next n hn =>
          cases h
          exact ⟨raw, rfl, by omega, ht, hn, rfl⟩

/-- A head that is read takes bytes off the front. -/
theorem rest_of_read_head {b rest : Bytes} {head : Head} {length : Nat}
    (h : read b = .head head length rest) : rest <:+ b ∧ rest.length < b.length := by
  obtain ⟨_, raw, hraw, _⟩ := read_head h
  exact ⟨(Syntax.delimited_head _).suffix hraw, (Syntax.delimited_head _).shorter hraw⟩

/-- No length is found only for what one of the two framing fields says. -/
theorem bodyLength_error {fields : Fields} {e : ParseFault} (h : bodyLength fields = .error e) :
    (∃ coding, e = .transferEncoding coding) ∨ ∃ cause, e = .contentLength cause := by
  unfold bodyLength at h
  split at h
  · cases h
    exact .inl ⟨_, rfl⟩
  · cases h
  · split at h
    · cases h
      exact .inr ⟨_, rfl⟩
    · split at h
      · cases h
      · cases h
        exact .inr ⟨_, rfl⟩

/-- The length that frames a body is the one that its request announces. -/
theorem contentLength_of_bodyLength {fields : Fields} {length : Nat}
    (h : bodyLength fields = .ok length) : fields.contentLength?.getD 0 = length := by
  unfold bodyLength at h
  unfold Fields.contentLength? Fields.text?
  split at h
  · cases h
  · next hvalue =>
    rw [hvalue]
    cases h
    rfl
  · next value _ hvalue =>
    rw [hvalue, Option.bind_some]
    split at h
    · cases h
    · next text htext =>
      rw [htext, Option.bind_some]
      split at h
      · next n hn => cases h; rw [hn]; rfl
      · cases h

theorem contentLength_of_read {b rest : Bytes} {head : Head} {length : Nat}
    (h : read b = .head head length rest) : head.fields.contentLength?.getD 0 = length := by
  obtain ⟨_, raw, _, _, _, hlength, hhead⟩ := read_head h
  rw [hhead]
  exact contentLength_of_bodyLength hlength

/-- A head is read off every longer buffer. -/
theorem read_head_append {b rest : Bytes} {head : Head} {length : Nat} (t : Bytes)
    (h : read b = .head head length rest) : read (b ++ t) = .head head length (rest ++ t) := by
  obtain ⟨hmin, raw, hraw, hsize, htarget, hlength, hhead⟩ := read_head h
  have hsub : (b ++ t).length - (rest ++ t).length = b.length - rest.length := by
    simp only [List.length_append]
    omega
  rw [read_eq_readAny (by simp only [List.length_append]; omega),
    readAny_value ((Syntax.delimited_head _).value_append t hraw), hsub, ofRaw,
    if_neg (by omega)]
  simp only [htarget, hlength]
  rw [← hhead]

/-- A fault of a complete head does not depend on what lies behind the head. -/
theorem ofRaw_fault_append {raw : RawHead} {size : Nat} {b r rest : Bytes} {e : ParseFault}
    (t : Bytes) (h : ofRaw raw size b r = .fault e rest) :
    ∃ rest', ofRaw raw size (b ++ t) (r ++ t) = .fault e rest' := by
  unfold ofRaw at h ⊢
  split at h
  · next hsize =>
    cases h
    exact ⟨_, if_pos hsize⟩
  · next hsize =>
    rw [if_neg hsize]
    cases ht : Target.parse? raw.target with
    | none =>
      simp only [ht] at h
      cases h
      exact ⟨_, rfl⟩
    | some target =>
      simp only [ht] at h
      cases hn : bodyLength (collect raw.fields) with
      | ok n => simp only [hn] at h; cases h
      | error e' =>
        simp only [hn] at h
        cases h
        exact ⟨_, rfl⟩

/-- Whatever a buffer that is too long for its head grows to, the head does not end in time. -/
theorem readAny_of_late {b : Bytes} (t : Bytes) (hlen : maxHead < b.length)
    (hmore : Syntax.head maxFields b = .more) :
    ∃ e rest, readAny (b ++ t) = .fault e rest := by
  have hlong : maxHead < (b ++ t).length := by
    rw [List.length_append]
    omega
  cases ht : Syntax.head maxFields (b ++ t) with
  | fault cause => exact ⟨_, _, readAny_fault ht⟩
  | more =>
    rw [readAny_more ht, wait, if_neg (by omega)]
    exact ⟨_, _, rfl⟩
  | value raw r =>
    have hlate := (Syntax.delimited_head _).later hmore ht
    rw [readAny_value ht, ofRaw, if_pos (by simp only [List.length_append]; omega)]
    exact ⟨_, _, rfl⟩

/-- What rules a buffer out rules every longer one out, for the same reason unless the buffer is
overlong. -/
theorem read_fault_append {b rest : Bytes} {e : ParseFault} (t : Bytes)
    (h : read b = .fault e rest) :
    ∃ e' rest', read (b ++ t) = .fault e' rest' ∧ (e = e' ∨ Overlong b) := by
  have hmin := minHead_le_of_read (show read b ≠ .more by rw [h]; exact Read.noConfusion)
  rw [read_eq_readAny hmin] at h
  rw [read_eq_readAny (by simp only [List.length_append]; omega)]
  cases hs : Syntax.head maxFields b with
  | fault cause =>
    rw [readAny_fault hs] at h
    cases h
    exact ⟨_, _, readAny_fault ((Syntax.delimited_head _).fault_append t hs), .inl rfl⟩
  | value raw r =>
    have hsize : (b ++ t).length - (r ++ t).length = b.length - r.length := by
      simp only [List.length_append]
      omega
    rw [readAny_value hs] at h
    obtain ⟨rest', hsame⟩ := ofRaw_fault_append t h
    rw [readAny_value ((Syntax.delimited_head _).value_append t hs), hsize]
    exact ⟨e, rest', hsame, .inl rfl⟩
  | more =>
    rw [readAny_more hs, wait] at h
    split at h
    · cases h
    · next hlen =>
      obtain ⟨e', rest', hlate⟩ := readAny_of_late t (by omega) hs
      exact ⟨e', rest', hlate, .inr (overlong_of_more (by omega) hs)⟩

end Depot.Http.Head
