import Depot.Http.Head
import Depot.Proofs.Scanner

/-! # The syntax of heads is incremental

Every scanner of the head syntax keeps its answer when bytes are added, and a whole head ends with
the line feed of its empty line (`delimited_head`). So a head is read off the same bytes whatever
lies behind it, and what is wrong with a head is wrong with it for good. -/

namespace Depot.Http.Syntax

open Scanner
open Text.Ascii (cr lf)

theorem emptyLines_lf (rest : Bytes) : emptyLines (lf :: rest) = emptyLines rest := by
  rw [emptyLines.eq_def]
  exact if_pos rfl

theorem emptyLines_crlf (rest : Bytes) :
    emptyLines (cr :: lf :: rest) = emptyLines rest := by
  rw [emptyLines.eq_def]
  exact (if_neg (by decide)).trans (if_pos rfl)

theorem emptyLines_cr {c : UInt8} (hc : c ≠ lf) (rest : Bytes) :
    emptyLines (cr :: c :: rest) = .fault .newLine := by
  rw [emptyLines.eq_def]
  exact ((if_neg (by decide)).trans (if_pos rfl)).trans (if_neg hc)

/-- Empty lines end before any other byte, which is not taken. -/
theorem emptyLines_stop {b : UInt8} (hl : b ≠ lf) (hc : b ≠ cr) (rest : Bytes) :
    emptyLines (b :: rest) = .value () (b :: rest) := by
  rw [emptyLines.eq_def]
  exact (if_neg hl).trans (if_neg hc)

theorem suffix_of_emptyLines {b rest : Bytes} {u : Unit} (h : emptyLines b = .value u rest) :
    rest <:+ b := by
  induction b using emptyLines.induct with
  | case1 => cases h
  | case2 r ih => rw [emptyLines_lf] at h; exact (ih h).trans (List.suffix_cons _ _)
  | case3 _ => cases h
  | case4 r _ ih =>
    rw [emptyLines_crlf] at h
    exact (ih h).trans ((List.suffix_cons _ _).trans (List.suffix_cons _ _))
  | case5 c r hc _ => rw [emptyLines_cr hc] at h; cases h
  | case6 b r hl hc => rw [emptyLines_stop hl hc] at h; cases h; exact List.suffix_refl _

/-- What empty lines come to when bytes are added. -/
theorem emptyLines_append (b t : Bytes) :
    match emptyLines b with
    | .value u rest => emptyLines (b ++ t) = .value u (rest ++ t)
    | .more => ∀ u rest, emptyLines (b ++ t) = .value u rest → rest.length ≤ t.length
    | .fault e => emptyLines (b ++ t) = .fault e := by
  induction b using emptyLines.induct with
  | case1 =>
    -- what is left of the bytes that came later is at most all of them
    exact fun u rest h => (suffix_of_emptyLines h).length_le
  | case2 r ih =>
    rw [emptyLines_lf, List.cons_append, emptyLines_lf]
    exact ih
  | case3 _ =>
    intro u rest h
    cases t with
    | nil => cases h
    | cons c t =>
      by_cases hc : c = lf
      · subst hc
        rw [List.cons_append, List.nil_append, emptyLines_crlf] at h
        exact (suffix_of_emptyLines h).length_le.trans (by simp)
      · rw [List.cons_append, List.nil_append, emptyLines_cr hc] at h
        cases h
  | case4 r _ ih =>
    rw [emptyLines_crlf, List.cons_append, List.cons_append, emptyLines_crlf]
    exact ih
  | case5 c r hc _ => rw [emptyLines_cr hc, List.cons_append, List.cons_append, emptyLines_cr hc]
  | case6 b r hl hc =>
    rw [emptyLines_stop hl hc, List.cons_append, emptyLines_stop hl hc]
    rfl

theorem incremental_emptyLines : Incremental emptyLines where
  suffix h := suffix_of_emptyLines h
  value_append {b _ _} t h := by
    have happend := emptyLines_append b t
    rwa [h] at happend
  fault_append {b _} t h := by
    have happend := emptyLines_append b t
    rwa [h] at happend
  late {b t _ _} h ht := by
    have happend := emptyLines_append b t
    rw [h] at happend
    exact happend _ _ ht

theorem delimited_lineEnd (e : HeadFault) : Delimited (lineEnd e) := by
  refine delimited_byte.bind (fun b => ?_) fun {b _ _ _ _} h ht => ?_
  · exact incremental_ite (delimited_expect e lf).toIncremental
      (incremental_ite (incremental_pure ()) (delimited_fail e).toIncremental)
  · -- only behind a carriage return is there something to wait for
    by_cases hb : b = cr
    · rw [if_pos hb] at h ht
      exact (delimited_expect e lf).later h ht
    · rw [if_neg hb] at h
      split at h <;> cases h

theorem incremental_method : Incremental method :=
  (incremental_span _).bind fun name =>
    have read := (delimited_expect HeadFault.token Text.Ascii.space).toIncremental.bind fun _ =>
      incremental_pure name
    incremental_ite ((delimited_fail _).toIncremental.bind fun _ => read) read

theorem incremental_target : Incremental target :=
  (incremental_span _).bind fun bytes =>
    (delimited_expect HeadFault.token Text.Ascii.space).toIncremental.bind fun _ =>
      have read := incremental_ite (c := (Text.Utf8.decode? bytes).isNone = true)
        ((delimited_fail HeadFault.token).toIncremental.bind fun _ => incremental_pure bytes)
        (incremental_pure bytes)
      incremental_ite ((delimited_fail _).toIncremental.bind fun _ => read) read

theorem incremental_version : Incremental version :=
  (incremental_literal _ _).bind fun _ => delimited_byte.toIncremental.bind fun _ =>
    incremental_ite (incremental_pure _)
      (incremental_ite (incremental_pure _) (delimited_fail _).toIncremental)

theorem delimited_field : Delimited field :=
  (incremental_span _).bind_delimited fun name =>
    have read := (delimited_expect HeadFault.name Target.colon).toIncremental.bind_delimited
      fun _ => (incremental_span isBlank).bind_delimited fun _ =>
        (incremental_span isValueByte).bind_delimited fun value =>
          (delimited_lineEnd .value).map fun _ => (name, trimEnd value)
    delimited_ite ((delimited_fail _).toIncremental.bind_delimited fun _ => read) read

/-- The empty line that ends the fields. -/
theorem delimited_lastLine :
    Delimited (lineEnd .newLine >>= fun _ =>
      (pure [] : Scanner HeadFault (List (Bytes × Bytes)))) :=
  (delimited_lineEnd .newLine).map fun _ => []

/-- The first byte decides between the empty line and what else may stand there. -/
theorem unlessEmptyLine_cons (others : Scanner HeadFault (List (Bytes × Bytes))) (b : UInt8) :
    ∃ q, (∀ rest, unlessEmptyLine others (b :: rest) = q (b :: rest)) ∧
      (Delimited others → Delimited q) := by
  by_cases hb : b = cr ∨ b = lf
  · exact ⟨_, fun _ => if_pos hb, fun _ => delimited_lastLine⟩
  · exact ⟨_, fun _ => if_neg hb, id⟩

theorem delimited_unlessEmptyLine {others : Scanner HeadFault (List (Bytes × Bytes))}
    (h : Delimited others) : Delimited (unlessEmptyLine others) := by
  have shorter {b : Bytes} {a rest} (hv : unlessEmptyLine others b = .value a rest) :
      rest <:+ b ∧ rest.length < b.length := by
    cases b with
    | nil => cases hv
    | cons b bs =>
      obtain ⟨q, hq, hd⟩ := unlessEmptyLine_cons others b
      rw [hq] at hv
      exact ⟨(hd h).suffix hv, (hd h).shorter hv⟩
  have later {b t : Bytes} {a rest} (hm : unlessEmptyLine others b = .more)
      (hv : unlessEmptyLine others (b ++ t) = .value a rest) : rest.length < t.length := by
    cases b with
    | nil => exact (shorter hv).2
    | cons b bs =>
      obtain ⟨q, hq, hd⟩ := unlessEmptyLine_cons others b
      rw [hq] at hm
      rw [List.cons_append, hq] at hv
      exact (hd h).later hm hv
  refine { suffix := fun hv => (shorter hv).1, shorter := fun hv => (shorter hv).2, later,
           late := fun hm hv => (later hm hv).le, value_append := ?_, fault_append := ?_ }
  · intro b a rest t hv
    cases b with
    | nil => cases hv
    | cons b bs =>
      obtain ⟨q, hq, hd⟩ := unlessEmptyLine_cons others b
      rw [hq] at hv
      rw [List.cons_append, hq]
      exact (hd h).value_append t hv
  · intro b e t hv
    cases b with
    | nil => cases hv
    | cons b bs =>
      obtain ⟨q, hq, hd⟩ := unlessEmptyLine_cons others b
      rw [hq] at hv
      rw [List.cons_append, hq]
      exact (hd h).fault_append t hv

theorem delimited_fields : ∀ room, Delimited (fields room)
  | 0 => delimited_unlessEmptyLine
      (delimited_field.toIncremental.bind_delimited fun _ => delimited_fail _)
  | room + 1 => delimited_unlessEmptyLine
      (delimited_field.toIncremental.bind_delimited fun first =>
        (delimited_fields room).map (first :: ·))

/-- A head is read off its own bytes, the last of which ends its empty line. -/
theorem delimited_head (room : Nat) : Delimited (head room) :=
  incremental_emptyLines.bind_delimited fun _ =>
    incremental_method.bind_delimited fun _ =>
      incremental_target.bind_delimited fun _ =>
        incremental_version.bind_delimited fun _ =>
          (delimited_lineEnd _).toIncremental.bind_delimited fun _ =>
            (delimited_fields room).map _

end Depot.Http.Syntax
