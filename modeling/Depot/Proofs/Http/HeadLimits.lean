import Depot.Proofs.Http.Decoding
import Depot.Proofs.Http.HeadRendering

/-! # How long a head may be, and how short

A head of more than 8192 bytes or 64 field lines is refused, wherever the stream is cut, and a head
within both limits never is for its size (`sizes_limited`). No more than 8192 bytes wait for the
end of a head. At the other end a buffer of less than 18 bytes is not looked at, although a complete
head may have as few as 14: what is read there is what a look at it would read exactly if it has 18
bytes (`read_agrees`). -/

namespace Depot.Http

open Message (merge)
open Syntax (HeadForm EmptyLines LineEnd FieldsForm head_of_form head_crowded)
open Text.Ascii (crlf)

/-- Whether a head is refused for its size. -/
def ParseFault.ofSize : ParseFault → Bool
  | .oversized _ => true
  | .tooManyFields => true
  | _ => false

/-- Whether a head, worded by these bytes, keeps to the limits. -/
def RawHead.Within (raw : RawHead) (bytes : Bytes) : Prop :=
  bytes.length ≤ maxHead ∧ raw.fields.length ≤ maxFields

namespace Head

variable {raw : RawHead} {bytes b t rest : Bytes} {e : ParseFault}

/-- A complete head is never waited for. -/
theorem ofRaw_ne_more (raw : RawHead) (size : Nat) (b rest : Bytes) :
    ofRaw raw size b rest ≠ .more := by
  unfold ofRaw
  split
  · nofun
  · split
    · nofun
    · split
      · nofun
      · nofun

/-- No more bytes wait for the end of a head than a head may have. -/
theorem length_le_of_more (h : read b = .more) : b.length ≤ maxHead := by
  by_cases hshort : b.length < minHead
  · exact Nat.le_of_lt (Nat.lt_trans hshort (by decide))
  · rw [read_eq_readAny (Nat.le_of_not_lt hshort)] at h
    cases hs : Syntax.head maxFields b with
    | value raw rest =>
      rw [readAny_value hs] at h
      exact absurd h (ofRaw_ne_more _ _ _ _)
    | more =>
      rw [readAny_more hs, wait] at h
      split at h
      · assumption
      · cases h
    | fault cause =>
      rw [readAny_fault hs] at h
      cases h

/-- Only a complete head is found to have a fault that is not of its size or its syntax. -/
theorem ofSize_of_ofRaw {size : Nat} (h : ofRaw raw size b t = .fault e rest) :
    e.ofSize = true ↔ maxHead < size := by
  unfold ofRaw at h
  split at h
  · next hsize =>
    cases h
    exact iff_of_true rfl hsize
  · next hsize =>
    suffices hother : e.ofSize = false by simp [hother, hsize]
    split at h
    · cases h
      rfl
    · split at h
      · next hlength =>
        cases h
        obtain ⟨coding, rfl⟩ | ⟨cause, rfl⟩ := bodyLength_error hlength
        · rfl
        · rfl
      · cases h

/-! ## Parts of a head -/

/-- A part of a head that has room for its field lines is waited on. -/
theorem more_of_part (h : HeadForm raw bytes) (hroom : raw.fields.length ≤ maxFields)
    (hpart : b <+: bytes) (hlt : b.length < bytes.length) :
    Syntax.head maxFields b = .more := by
  obtain ⟨u, rfl⟩ := hpart
  have hwhole := head_of_form h hroom []
  rw [List.append_nil] at hwhole
  cases hb : Syntax.head maxFields b with
  | more => rfl
  | fault cause =>
    rw [(Syntax.delimited_head _).fault_append u hb] at hwhole
    cases hwhole
  | value raw' rest =>
    rw [(Syntax.delimited_head _).value_append u hb] at hwhole
    have hnil : rest ++ u = [] := (Scan.value.inj hwhole).2
    rw [(List.append_eq_nil_iff.mp hnil).2, List.append_nil] at hlt
    exact absurd hlt (Nat.lt_irrefl _)

/-- Bytes that agree with a head and what follows it are a part of the head, or hold all of it. -/
theorem part_or_whole (h : b <+: bytes ++ t) :
    (b <+: bytes ∧ b.length < bytes.length) ∨ ∃ u, b = bytes ++ u := by
  rcases Nat.lt_or_ge b.length bytes.length with hlt | hge
  · exact .inl ⟨List.prefix_of_prefix_length_le h (List.prefix_append _ _) (Nat.le_of_lt hlt), hlt⟩
  · obtain ⟨u, hu⟩ := List.prefix_of_prefix_length_le (List.prefix_append bytes t) h hge
    exact .inr ⟨u, hu.symm⟩

/-- A head within the limits is not refused for its size, on whatever part of it and of what
follows. -/
theorem fault_within (h : HeadForm raw bytes) (hwithin : raw.Within bytes)
    (hb : b <+: bytes ++ t) (hread : read b = .fault e rest) : e.ofSize = false := by
  obtain ⟨hsize, hroom⟩ := hwithin
  have hmin := minHead_le_of_read (show read b ≠ .more by rw [hread]; exact Read.noConfusion)
  rw [read_eq_readAny hmin] at hread
  obtain ⟨hpart, hlt⟩ | ⟨u, rfl⟩ := part_or_whole hb
  · rw [readAny_more (more_of_part h hroom hpart hlt), wait, if_pos (by omega)] at hread
    cases hread
  · rw [readAny_value (head_of_form h hroom u)] at hread
    have hiff := ofSize_of_ofRaw hread
    rw [List.length_append, Nat.add_sub_cancel] at hiff
    simpa using mt hiff.mp (Nat.not_lt.mpr hsize)

/-- A head beyond the limits is refused for its size, on whatever part of it is found wrong. -/
theorem fault_beyond (h : HeadForm raw bytes) (hbeyond : ¬raw.Within bytes)
    (hb : b <+: bytes ++ t) (hread : read b = .fault e rest) : e.ofSize = true := by
  have hmin := minHead_le_of_read (show read b ≠ .more by rw [hread]; exact Read.noConfusion)
  rw [read_eq_readAny hmin] at hread
  obtain ⟨u, hu⟩ := hb
  cases hs : Syntax.head maxFields b with
  | more =>
    rw [readAny_more hs, wait] at hread
    split at hread
    · cases hread
    · cases hread
      rfl
  | fault cause =>
    -- the syntax allows the head, so all that can be wrong with it is how many lines it has
    have hwhole := (Syntax.delimited_head maxFields).fault_append u hs
    rw [hu] at hwhole
    rcases Nat.lt_or_ge maxFields raw.fields.length with hroom | hroom
    · rw [head_crowded h hroom t] at hwhole
      cases hwhole
      rw [readAny_fault hs] at hread
      cases hread
      rfl
    · rw [head_of_form h hroom t] at hwhole
      cases hwhole
  | value raw' rest' =>
    have hwhole := (Syntax.delimited_head maxFields).value_append u hs
    rw [hu] at hwhole
    rcases Nat.lt_or_ge maxFields raw.fields.length with hroom | hroom
    · rw [head_crowded h hroom t] at hwhole
      cases hwhole
    · rw [head_of_form h hroom t] at hwhole
      have hrest : t = rest' ++ u := (Scan.value.inj hwhole).2
      have hlength := congrArg List.length hu
      rw [hrest] at hlength
      simp only [List.length_append] at hlength
      rw [readAny_value hs] at hread
      have hlong : maxHead < bytes.length := by
        by_contra hle
        exact hbeyond ⟨Nat.le_of_not_lt hle, hroom⟩
      exact (ofSize_of_ofRaw hread).mpr (by omega)

/-- A head beyond the limits is refused once it is complete. -/
theorem refused_beyond (h : HeadForm raw bytes) (hbeyond : ¬raw.Within bytes) (t : Bytes) :
    ∃ e rest, read (bytes ++ t) = .fault e rest := by
  have hle := h.length_le
  have hmin : minHead ≤ (bytes ++ t).length := by
    have hlong : minHead ≤ bytes.length := by
      rcases Nat.lt_or_ge maxFields raw.fields.length with hroom | hroom
      · unfold maxFields at hroom
        unfold minHead
        omega
      · by_contra hlt
        refine hbeyond ⟨?_, hroom⟩
        unfold minHead at hlt
        unfold maxHead
        omega
    rw [List.length_append]
    omega
  rw [read_eq_readAny hmin]
  rcases Nat.lt_or_ge maxFields raw.fields.length with hroom | hroom
  · exact ⟨_, _, readAny_fault (head_crowded h hroom t)⟩
  · rw [readAny_value (head_of_form h hroom t), ofRaw, List.length_append, Nat.add_sub_cancel,
      if_pos (Nat.lt_of_not_le fun hle => hbeyond ⟨hle, hroom⟩)]
    exact ⟨_, _, rfl⟩

end Head

/-! ## Runs over chunks -/

namespace Decoder

variable {d d' : Decoder} {b back back' rest : Bytes} {ms ms' : List (Message Head)}

/-- What is read of a buffer is what is delivered of it, and then what is read of the rest. -/
theorem Yields.read_after (h : Yields d b ms d' back) : d.read b = (d'.read back).after ms := by
  induction h with
  | nothing => rfl
  | next hn _ ih =>
    rw [read_message hn, ih]
    rfl

/-- Of two heads that come to be due in a stream, one of which is faulty, the faulty one is not the
earlier one. -/
theorem Yields.ahead {e : ParseFault} (h : Yields d b ms ⟨none⟩ back)
    (h' : Yields d b ms' ⟨none⟩ back') (hf : Head.read back' = .fault e rest) :
    ∃ later, ms' = ms ++ later ∧ Yields ⟨none⟩ back later ⟨none⟩ back' := by
  generalize hd : (⟨none⟩ : Decoder) = due at h
  induction h generalizing ms' with
  | nothing =>
    subst hd
    exact ⟨ms', rfl, h'⟩
  | next hn _ ih =>
    cases h' with
    | nothing =>
      cases hn with
      | head hr =>
        rw [hf] at hr
        cases hr
    | next hn' hy' =>
      have hs := hn.step
      rw [hn'.step] at hs
      cases hs
      obtain ⟨later, rfl, hlater⟩ := ih hy' hd
      exact ⟨later, rfl, hlater⟩

/-- What is delivered where a head is due starts with that head. -/
theorem Yields.head_first {m : Message Head} {d' : Decoder}
    (h : Yields ⟨none⟩ back (m :: ms) d' back') :
    ∃ head length rest, m = .head head length ∧ Head.read back = .head head length rest := by
  cases h with
  | next hn _ =>
    cases hn with
    | head hr => exact ⟨_, _, _, rfl, hr⟩

/-- A run that has no fault waits for more where it stands. -/
theorem step_of_feed {chunks : List Bytes} (h : (({} : Decoder).feed [] chunks).fault = none) :
    (({} : Decoder).feed [] chunks).decoder.step (({} : Decoder).feed [] chunks).rest = .more := by
  have halike := feed_cut step_nil h
  rw [← halike.decoder, ← halike.rest]
  exact step_of_read (halike.fault.trans h)

/-- How far a run gets in a stream in which a head is due behind these messages: to this head and
further, or not past it. -/
theorem feed_at_head {chunks : List Bytes} (h : Yields {} chunks.flatten ms {} back) :
    let run := ({} : Decoder).feed [] chunks
    (∃ head length rest later, Head.read back = .head head length rest ∧
      merge run.messages = merge (ms ++ .head head length :: later)) ∨
    merge run.messages = merge ms ∧
      ((run.fault = none ∧ Head.read back = .more) ∨
        ∃ e seen rest, run.fault = some e ∧ seen <+: back ∧ Head.read seen = .fault e rest) := by
  intro run
  cases hrun : run.fault with
  | none =>
    have halike := feed_cut step_nil hrun
    rw [List.nil_append, h.read_after] at halike
    obtain ⟨hmore, hread⟩ | ⟨e, rest, -, -, hread⟩ | ⟨m, d', b', hn, hread⟩ :=
      read_cases ⟨none⟩ back
    · rw [hread] at halike
      obtain ⟨-, hhead⟩ | ⟨due, hdue, -⟩ := step_more_iff.mp hmore
      · refine .inr ⟨?_, .inl ⟨rfl, hhead⟩⟩
        rw [← halike.messages]
        exact congrArg merge (List.append_nil ms)
      · cases hdue
    · rw [hread] at halike
      have hfault := halike.fault
      rw [hrun] at hfault
      cases hfault
    · rw [hread] at halike
      cases hn with
      | head hr => exact .inl ⟨_, _, _, _, hr, halike.messages.symm⟩
  | some e =>
    obtain ⟨ms', back', seen, rest, hy, hms, hseen, hread, -⟩ := yields_of_feed step_nil hrun
    obtain ⟨e', rest', hread', -⟩ := fault_of_prefix hseen hread
    obtain ⟨later, rfl, hlater⟩ := h.ahead hy hread'
    cases later with
    | nil =>
      cases hlater
      rw [List.append_nil] at hms
      exact .inr ⟨hms.symm, .inr ⟨e, seen, rest, rfl, hseen, hread⟩⟩
    | cons m later =>
      obtain ⟨head, length, rest'', rfl, hhead⟩ := hlater.head_first
      exact .inl ⟨head, length, rest'', later, hhead, hms.symm⟩

/-- **Heads are limited in size, and by nothing but the limits.** However a stream is cut, no more
than 8192 bytes ever wait for the end of a head. Of a head that is due somewhere in the stream: if it
is beyond a limit the run stops there and says so, once the head is there in full. If it is within
both, then however little of it is there, and whatever follows it, the run gets past it or is not
stopped there by its size. -/
theorem sizes_limited (chunks : List Bytes) :
    let run := ({} : Decoder).feed [] chunks
    (run.fault = none → run.decoder.due = none → run.rest.length ≤ maxHead) ∧
    ∀ ms back raw bytes, Yields {} chunks.flatten ms {} back → HeadForm raw bytes →
      (¬raw.Within bytes → bytes <+: back →
        merge run.messages = merge ms ∧ ∃ e, run.fault = some e ∧ e.ofSize = true) ∧
      (raw.Within bytes → ∀ t, back <+: bytes ++ t →
        (∃ head length rest later, Head.read back = .head head length rest ∧
          merge run.messages = merge (ms ++ .head head length :: later)) ∨
        (merge run.messages = merge ms ∧ ∀ e, run.fault = some e → e.ofSize = false)) := by
  intro run
  refine ⟨fun hfault hdue => ?_, fun ms back raw bytes hyields hform => ⟨?_, ?_⟩⟩
  · obtain ⟨-, hmore⟩ | ⟨due, hdecoder, -⟩ := step_more_iff.mp (step_of_feed hfault)
    · exact Head.length_le_of_more hmore
    · rw [hdecoder] at hdue
      cases hdue
  · rintro hbeyond ⟨t, rfl⟩
    obtain ⟨e, rest, hrefused⟩ := Head.refused_beyond hform hbeyond t
    obtain ⟨head, length, rest', later, hread, -⟩ | ⟨hms, ⟨-, hmore⟩ | hstop⟩ :=
      feed_at_head hyields
    · rw [hrefused] at hread
      cases hread
    · rw [hrefused] at hmore
      cases hmore
    · obtain ⟨e, seen, rest, hfault, hseen, hread⟩ := hstop
      exact ⟨hms, e, hfault, Head.fault_beyond hform hbeyond hseen hread⟩
  · intro hwithin t hback
    obtain hpast | ⟨hms, ⟨hnone, -⟩ | hstop⟩ := feed_at_head hyields
    · exact .inl hpast
    · refine .inr ⟨hms, fun e he => ?_⟩
      rw [hnone] at he
      cases he
    · obtain ⟨e, seen, rest, hfault, hseen, hread⟩ := hstop
      refine .inr ⟨hms, fun e' he => ?_⟩
      rw [hfault] at he
      cases he
      exact Head.fault_within hform hwithin (hseen.trans hback) hread

/-- Two heads, each cut in two: one with as many field lines as there may be, and one with one line
more. -/
theorem sizes_limited_crowded :
    let raw : Nat → RawHead := fun n => ⟨Text.Utf8.encode "GET", Text.Utf8.encode "/", .http11,
      List.replicate n (Text.Utf8.encode "a", Text.Utf8.encode "b")⟩
    let run : Nat → Drained := fun n =>
      ({} : Decoder).feed [] [(raw n).render.take 90, (raw n).render.drop 90]
    (raw 64).Within (raw 64).render ∧ ¬(raw 65).Within (raw 65).render ∧
      (∃ e, (run 65).fault = some e ∧ e.ofSize = true) ∧
      ((∃ head length rest later, Head.read (raw 64).render = .head head length rest ∧
          merge (run 64).messages = merge ([] ++ .head head length :: later)) ∨
        (merge (run 64).messages = merge [] ∧ ∀ e, (run 64).fault = some e → e.ofSize = false)) := by
  intro raw run
  have hget : Syntax.Token (Text.Utf8.encode "GET") := by decide +kernel
  have hroot : Syntax.Visible (Text.Utf8.encode "/") := by decide +kernel
  have hform : ∀ n, HeadForm (raw n) (raw n).render := by
    intro n
    refine RawHead.Plain.form ⟨hget, hroot, .inr rfl, fun f hf => ?_⟩
    rw [List.eq_of_mem_replicate hf]
    decide +kernel
  have hyields : ∀ n, Yields {} [(raw n).render.take 90, (raw n).render.drop 90].flatten [] {}
      (raw n).render := by
    intro n
    rw [List.flatten_cons, List.flatten_singleton, List.take_append_drop]
    exact .nothing
  have hwithin : (raw 64).Within (raw 64).render := ⟨by decide +kernel, by decide +kernel⟩
  have hbeyond : ¬(raw 65).Within (raw 65).render := fun h => absurd h.2 (by decide +kernel)
  refine ⟨hwithin, hbeyond, ?_, ?_⟩
  · exact (((sizes_limited _).2 _ _ _ _ (hyields 65) (hform 65)).1 hbeyond (List.prefix_refl _)).2
  · exact ((sizes_limited _).2 _ _ _ _ (hyields 64) (hform 64)).2 hwithin []
      (List.prefix_append _ _)

end Decoder

/-! ## Buffers that are not looked at -/

namespace Head

/-- **A complete head is read exactly if 18 bytes are there.** With less it is left waiting, although
a look at the buffer would complete it; the shortest such head has 14 bytes. How long a head is
depends on the empty lines in front of it, on its method and target, and on how its lines end: a
method of three bytes and lines ended by CRLF are enough. -/
theorem read_agrees {b rest : Bytes} {raw : RawHead}
    (h : Syntax.head maxFields b = .value raw rest) :
    (read b = readAny b ↔ minHead ≤ b.length) ∧ (b.length < minHead → read b = .more) ∧
    14 ≤ b.length - rest.length ∧
    ∃ skipped ending lines, EmptyLines skipped ∧ LineEnd ending ∧ FieldsForm raw.fields lines ∧
      b.length = skipped.length + raw.method.length + raw.target.length + ending.length +
        lines.length + 10 + rest.length ∧
      (3 ≤ raw.method.length → ending = crlf → crlf <:+ lines → read b = readAny b) := by
  obtain ⟨-, bytes, hform, rfl⟩ := Syntax.head_eq_value_iff.mp h
  obtain ⟨skipped, ending, lines, hskipped, hending, hlines, hlength⟩ := hform.length_eq
  have hmethod := List.length_pos_iff.mpr hform.nonempty.1
  have htarget := List.length_pos_iff.mpr hform.nonempty.2
  have hle := hform.length_le
  have hiff : read (bytes ++ rest) = readAny (bytes ++ rest) ↔ minHead ≤ (bytes ++ rest).length := by
    refine ⟨fun hsame => ?_, read_eq_readAny⟩
    apply minHead_le_of_read
    rw [hsame, readAny_value h]
    exact ofRaw_ne_more _ _ _ _
  rw [List.length_append] at hiff ⊢
  refine ⟨hiff, fun hshort => read_of_short (by rw [List.length_append]; exact hshort), by omega,
    skipped, ending, lines, hskipped, hending, hlines, by omega, ?_⟩
  rintro hthree rfl hcrlf
  have htwo := hcrlf.length_le
  have hends : crlf.length = 2 := rfl
  refine hiff.mpr ?_
  unfold minHead
  omega

/-- A head of 16 bytes is read once two bytes of the next request are there. -/
theorem read_agrees_behind :
    let b := Text.Utf8.encode "GET / HTTP/1.1\n\nGE"
    let raw : RawHead := ⟨Text.Utf8.encode "GET", Text.Utf8.encode "/", .http11, []⟩
    Syntax.head maxFields b = .value raw (Text.Utf8.encode "GE") ∧ read b = readAny b := by
  intro b raw
  have h : Syntax.head maxFields b = .value raw (Text.Utf8.encode "GE") := by decide +kernel
  exact ⟨h, (read_agrees h).1.mpr (by decide +kernel)⟩

/-- Without them it is a complete request, of which nothing is ever delivered. -/
theorem complete_unread :
    let b := Text.Utf8.encode "GET / HTTP/1.1\n\n"
    readAny b = .head ⟨"GET", ⟨none, "", "/", none⟩, .http11, []⟩ 0 [] ∧ read b = .more ∧
      (({} : Decoder).feed [] [b]).messages = [] ∧ (({} : Decoder).feed [] [b]).fault = none := by
  decide +kernel

end Head

end Depot.Http
