import Depot.Http.Decoder
import Depot.Proofs.Http.HeadReading

/-! # Reading requests from a stream that arrives in pieces

A run of the reader over chunks delivers what reading the whole stream at once delivers, up to the
cuts of bodies (`Message.merge`): `feed_cut` says it of one run, `feed_cuts` compares two. Each
step of the reader is one of three kinds (`Next`), and none of them is taken back by bytes that
arrive later. -/

namespace Depot.Http

namespace Message

variable {η : Type}

/-- A message in front of others. A chunk in front of a chunk makes one chunk with it. -/
def glue : Message η → List (Message η) → List (Message η)
  | .chunk a, .chunk b :: ms => .chunk (a ++ b) :: ms
  | m, ms => m :: ms

/-- The messages, with the chunks of each body put together. -/
def merge (ms : List (Message η)) : List (Message η) := ms.foldr glue []

theorem merge_cons (m : Message η) (ms : List (Message η)) :
    merge (m :: ms) = glue m (merge ms) := rfl

theorem glue_chunks (a b : Bytes) (ms : List (Message η)) :
    glue (.chunk a) (glue (.chunk b) ms) = glue (.chunk (a ++ b)) ms := by
  match ms with
  | [] => rfl
  | .chunk c :: ms => simp [glue]
  | .head .. :: ms => rfl
  | .eof :: ms => rfl

/-- Merged messages weigh the same in front of others. -/
theorem foldr_glue_merge (ms ns : List (Message η)) :
    (merge ms).foldr glue ns = ms.foldr glue ns := by
  induction ms with
  | nil => rfl
  | cons m ms ih =>
    rw [merge_cons, List.foldr_cons, ← ih]
    match m, merge ms with
    | .chunk a, .chunk b :: ms => exact (glue_chunks a b (ms.foldr glue ns)).symm
    | .chunk a, [] => rfl
    | .chunk a, .head .. :: ms => rfl
    | .chunk a, .eof :: ms => rfl
    | .head .., ms => rfl
    | .eof, ms => rfl

theorem merge_append (ms ns : List (Message η)) :
    merge (ms ++ ns) = (merge ms).foldr glue (merge ns) := by
  rw [foldr_glue_merge, merge, List.foldr_append]
  rfl

end Message

namespace Decoder

open Message (merge)

variable {d d' : Decoder} {b b' t : Bytes} {m : Message Head}

/-! ## One step -/

/-- What a step that delivers a message does. -/
inductive Next : Decoder → Bytes → Message Head → Decoder → Bytes → Prop
  /-- Where a head is due it is read, and its body is due then. -/
  | head {b rest : Bytes} {head : Head} {length : Nat} :
      Head.read b = .head head length rest → Next ⟨none⟩ b (.head head length) ⟨some length⟩ rest
  /-- Where bytes of a body are due, those that are there are taken. -/
  | chunk {b : Bytes} {due : Nat} : b ≠ [] →
      Next ⟨some (due + 1)⟩ b (.chunk (b.take (due + 1))) ⟨some (due + 1 - b.length)⟩
        (b.drop (due + 1))
  /-- A body of which no byte is due is ended. -/
  | eof {b : Bytes} : Next ⟨some 0⟩ b .eof ⟨none⟩ b

theorem Next.step (h : Next d b m d' b') : d.step b = .message m d' b' := by
  cases h with
  | head hr => simp only [Decoder.step, hr]
  | chunk hb =>
    simp only [Decoder.step, if_neg hb, List.length_take]
    congr 3
    omega
  | eof => rfl

theorem next_of_step (h : d.step b = .message m d' b') : Next d b m d' b' := by
  obtain ⟨due⟩ := d
  match due with
  | some 0 => cases h; exact .eof
  | some (due + 1) =>
    by_cases hb : b = []
    · simp only [Decoder.step, if_pos hb] at h
      cases h
    · rw [(Next.chunk hb).step] at h
      cases h
      exact .chunk hb
  | none =>
    cases hr : Head.read b with
    | head head length rest => rw [(Next.head hr).step] at h; cases h; exact .head hr
    | more => simp only [Decoder.step, hr] at h; cases h
    | fault e rest => simp only [Decoder.step, hr] at h; cases h

theorem step_fault_iff {e : ParseFault} {rest : Bytes} :
    d.step b = .fault e rest ↔ d = ⟨none⟩ ∧ Head.read b = .fault e rest := by
  constructor
  · intro h
    obtain ⟨due⟩ := d
    match due with
    | some 0 => cases h
    | some (due + 1) => simp only [Decoder.step] at h; split at h <;> cases h
    | none =>
      cases hr : Head.read b <;> simp only [Decoder.step, hr] at h <;> cases h
      exact ⟨rfl, rfl⟩
  · rintro ⟨rfl, hr⟩
    simp only [Decoder.step, hr]

theorem step_more_iff :
    d.step b = .more ↔
      (d = ⟨none⟩ ∧ Head.read b = .more) ∨ ∃ due, d = ⟨some (due + 1)⟩ ∧ b = [] := by
  constructor
  · intro h
    obtain ⟨due⟩ := d
    match due with
    | some 0 => cases h
    | some (due + 1) =>
      refine .inr ⟨due, rfl, ?_⟩
      simp only [Decoder.step] at h
      split at h
      · assumption
      · cases h
    | none =>
      cases hr : Head.read b <;> simp only [Decoder.step, hr] at h <;> cases h
      exact .inl ⟨rfl, rfl⟩
  · rintro (⟨rfl, hr⟩ | ⟨due, rfl, rfl⟩)
    · simp only [Decoder.step, hr]
    · rfl

/-- Twice the bytes that wait, and one more for a body that is open. -/
def weight (d : Decoder) (b : Bytes) : Nat := 2 * b.length + d.due.isSome.toNat

/-- Every message takes a byte or ends a body. -/
theorem Next.weight_lt (h : Next d b m d' b') : weight d' b' < weight d b := by
  cases h with
  | head hr =>
    have := (Head.rest_of_read_head hr).2
    simp [weight]
    omega
  | chunk hb =>
    have := List.length_pos_iff.mpr hb
    simp [weight]
    omega
  | eof => simp [weight]

/-! ## Reading a buffer -/

/-- The same reading with messages in front. -/
def Drained.after (r : Drained) (ms : List (Message Head)) : Drained :=
  { r with messages := ms ++ r.messages }

theorem drain_more (h : d.step b = .more) (rounds : Nat) : d.drain rounds b = ⟨[], d, b, none⟩ := by
  cases rounds with
  | zero => rfl
  | succ rounds => simp only [drain, h]

/-- More rounds than the weight of the buffer change nothing. -/
theorem drain_rounds {rounds rounds' : Nat} (h : weight d b < rounds)
    (h' : weight d b < rounds') : d.drain rounds b = d.drain rounds' b := by
  induction rounds generalizing d b rounds' with
  | zero => omega
  | succ rounds ih =>
    obtain ⟨rounds', rfl⟩ := Nat.exists_eq_add_of_lt (show 0 < rounds' by omega)
    cases hs : d.step b with
    | more => rw [drain_more hs, drain_more hs]
    | fault e rest => simp only [drain, hs]
    | message m d' b' =>
      have hlt := (next_of_step hs).weight_lt
      have hrest : d'.drain rounds b' = d'.drain rounds' b' := ih (by omega) (by omega)
      simp only [drain, hs, Nat.zero_add, hrest]

theorem weight_lt_rounds (d : Decoder) (b : Bytes) : weight d b < 2 * b.length + 2 := by
  have := Bool.toNat_le d.due.isSome
  unfold weight
  omega

theorem read_more (h : d.step b = .more) : d.read b = ⟨[], d, b, none⟩ := drain_more h _

theorem read_fault {e : ParseFault} {rest : Bytes} (h : d.step b = .fault e rest) :
    d.read b = ⟨[], d, rest, some e⟩ := by
  simp only [read, drain, h]

theorem read_message (h : Next d b m d' b') : d.read b = (d'.read b').after [m] := by
  have hlt := h.weight_lt
  have hd := weight_lt_rounds d b
  have hd' := weight_lt_rounds d' b'
  have hrounds : d'.drain (2 * b.length + 1) b' = d'.read b' := drain_rounds (by omega) hd'
  rw [read, drain, h.step]
  simp only [hrounds]
  rfl

/-- Two readings that differ at most in how bodies were cut. -/
structure Alike (r s : Drained) : Prop where
  messages : merge r.messages = merge s.messages
  decoder : r.decoder = s.decoder
  rest : r.rest = s.rest
  fault : r.fault = s.fault

theorem Alike.refl (r : Drained) : Alike r r := ⟨rfl, rfl, rfl, rfl⟩

theorem Alike.trans {r s u : Drained} (h : Alike r s) (h' : Alike s u) : Alike r u :=
  ⟨h.messages.trans h'.messages, h.decoder.trans h'.decoder, h.rest.trans h'.rest,
    h.fault.trans h'.fault⟩

theorem Alike.after {r s : Drained} (h : Alike r s) (ms : List (Message Head)) :
    Alike (r.after ms) (s.after ms) := by
  refine ⟨?_, h.decoder, h.rest, h.fault⟩
  simp only [Drained.after, Message.merge_append, h.messages]

/-- A step on the bytes that are there is no loss for those that come: what is read behind it is
what is read of the longer buffer, but for the cut of a body. -/
theorem Next.read_append (h : Next d b m d' b') (t : Bytes) :
    Alike (d.read (b ++ t)) ((d'.read (b' ++ t)).after [m]) := by
  cases h with
  | head hr =>
    rw [read_message (.head (Head.read_head_append t hr))]
    exact .refl _
  | eof =>
    rw [read_message .eof]
    exact .refl _
  | @chunk _ due hb =>
    have hbt : b ++ t ≠ [] := by simp [hb]
    by_cases hlen : due + 1 ≤ b.length
    · -- the body ends within the bytes that are there
      rw [read_message (.chunk hbt), List.take_append_of_le_length hlen,
        List.drop_append_of_le_length hlen,
        show due + 1 - (b ++ t).length = due + 1 - b.length by simp; omega]
      exact .refl _
    · have htake : b.take (due + 1) = b := List.take_of_length_le (by omega)
      have hdrop : b.drop (due + 1) = [] := List.drop_of_length_le (by omega)
      obtain ⟨still, hstill⟩ := Nat.exists_eq_add_of_lt (show b.length < due + 1 by omega)
      rw [htake, hdrop, List.nil_append]
      by_cases ht : t = []
      · subst ht
        rw [List.append_nil, read_message (.chunk hb), htake, hdrop]
        exact .refl _
      · -- the body goes on in the bytes that come
        have hrest : due + 1 - b.length = still + 1 := by omega
        rw [read_message (.chunk hbt), hrest, read_message (.chunk ht)]
        rw [show (b ++ t).take (due + 1) = b ++ t.take (still + 1) by
            rw [List.take_append, htake, hrest],
          show (b ++ t).drop (due + 1) = t.drop (still + 1) by
            rw [List.drop_append, hdrop, hrest, List.nil_append],
          show due + 1 - (b ++ t).length = still + 1 - t.length by simp; omega]
        refine ⟨?_, rfl, rfl, rfl⟩
        simp only [Drained.after, List.singleton_append, Message.merge_cons]
        exact (Message.glue_chunks _ _ _).symm

/-- What a reading comes to, by what the reader does first. -/
theorem read_cases (d : Decoder) (b : Bytes) :
    (d.step b = .more ∧ d.read b = ⟨[], d, b, none⟩) ∨
    (∃ e rest, d = ⟨none⟩ ∧ Head.read b = .fault e rest ∧ d.read b = ⟨[], d, rest, some e⟩) ∨
    ∃ m d' b', Next d b m d' b' ∧ d.read b = (d'.read b').after [m] := by
  cases hs : d.step b with
  | more => exact .inl ⟨rfl, read_more hs⟩
  | fault e rest =>
    obtain ⟨hd, hr⟩ := step_fault_iff.mp hs
    exact .inr (.inl ⟨e, rest, hd, hr, read_fault hs⟩)
  | message m d' b' =>
    have hn := next_of_step hs
    exact .inr (.inr ⟨m, d', b', hn, read_message hn⟩)

/-- A reading without a fault goes on until more bytes are needed. -/
theorem step_of_read (h : (d.read b).fault = none) :
    (d.read b).decoder.step (d.read b).rest = .more := by
  induction hw : weight d b using Nat.strongRecOn generalizing d b with
  | _ w ih =>
    obtain ⟨hs, hr⟩ | ⟨e, rest, _, _, hr⟩ | ⟨m, d', b', hn, hr⟩ := read_cases d b
    · rw [hr]
      exact hs
    · rw [hr] at h
      cases h
    · rw [hr] at h ⊢
      exact ih _ (hw ▸ hn.weight_lt) h rfl

/-- A buffer may be read before more bytes come. -/
theorem read_append (h : (d.read b).fault = none) (t : Bytes) :
    Alike (d.read (b ++ t))
      (((d.read b).decoder.read ((d.read b).rest ++ t)).after (d.read b).messages) := by
  induction hw : weight d b using Nat.strongRecOn generalizing d b with
  | _ w ih =>
    obtain ⟨_, hr⟩ | ⟨e, rest, _, _, hr⟩ | ⟨m, d', b', hn, hr⟩ := read_cases d b
    · rw [hr]
      exact .refl _
    · rw [hr] at h
      cases h
    · rw [hr] at h ⊢
      exact (hn.read_append t).trans ((ih _ (hw ▸ hn.weight_lt) h rfl).after [m])

/-! ## Where a fault lies -/

/-- The reader delivers messages one after another. -/
inductive Yields : Decoder → Bytes → List (Message Head) → Decoder → Bytes → Prop
  | nothing {d : Decoder} {b : Bytes} : Yields d b [] d b
  | next {d d' d'' : Decoder} {b b' b'' : Bytes} {m : Message Head} {ms : List (Message Head)} :
      Next d b m d' b' → Yields d' b' ms d'' b'' → Yields d b (m :: ms) d'' b''

variable {back : Bytes} {ms : List (Message Head)}

/-- Nothing is delivered of a body without bytes. -/
theorem Yields.eq_of_nil {due : Nat} (h : Yields ⟨some (due + 1)⟩ [] ms d' b') :
    d' = ⟨some (due + 1)⟩ := by
  cases h with
  | nothing => rfl
  | next hn _ =>
    cases hn with
    | chunk hb => exact absurd rfl hb

/-- What is delivered up to a head stays the same as bytes are added: no body was cut. -/
theorem Yields.append (h : Yields d b ms ⟨none⟩ back) (t : Bytes) :
    Yields d (b ++ t) ms ⟨none⟩ (back ++ t) := by
  generalize hd : (⟨none⟩ : Decoder) = due at h ⊢
  induction h with
  | nothing => exact .nothing
  | @next _ _ _ b _ _ _ _ hn hys ih =>
    refine .next ?_ (ih hd)
    cases hn with
    | head hr => exact .head (Head.read_head_append t hr)
    | eof => exact .eof
    | @chunk _ due hb =>
      have hlen : due + 1 ≤ b.length := by
        by_contra hlt
        obtain ⟨still, hstill⟩ := Nat.exists_eq_add_of_lt (show b.length < due + 1 by omega)
        rw [List.drop_of_length_le (by omega),
          show due + 1 - b.length = still + 1 by omega] at hys
        rw [hys.eq_of_nil] at hd
        cases hd
      have hn : Next ⟨some (due + 1)⟩ (b ++ t) _ _ _ := .chunk (by simp [hb])
      rwa [List.take_append_of_le_length hlen, List.drop_append_of_le_length hlen,
        show due + 1 - (b ++ t).length = due + 1 - b.length by simp; omega] at hn

/-- A fault is one of the head that is due behind the messages delivered. -/
theorem yields_of_fault {e : ParseFault} (h : (d.read b).fault = some e) :
    ∃ back rest, Yields d b (d.read b).messages ⟨none⟩ back ∧ Head.read back = .fault e rest ∧
      (d.read b).decoder = ⟨none⟩ := by
  induction hw : weight d b using Nat.strongRecOn generalizing d b with
  | _ w ih =>
    obtain ⟨_, hr⟩ | ⟨e', rest, hd, hf, hr⟩ | ⟨m, d', b', hn, hr⟩ := read_cases d b
    · rw [hr] at h
      cases h
    · rw [hr] at h ⊢
      cases h
      exact ⟨b, rest, hd ▸ .nothing, hf, hd⟩
    · rw [hr] at h ⊢
      obtain ⟨back, rest, hy, hf, hd⟩ := ih _ (hw ▸ hn.weight_lt) h rfl
      exact ⟨back, rest, .next hn hy, hf, hd⟩

/-- Messages delivered up to a faulty head are all that is read. -/
theorem Yields.read {e : ParseFault} {rest : Bytes} (h : Yields d b ms ⟨none⟩ back)
    (hf : Head.read back = .fault e rest) : d.read b = ⟨ms, ⟨none⟩, rest, some e⟩ := by
  generalize hd : (⟨none⟩ : Decoder) = due at h ⊢
  induction h with
  | nothing => exact read_fault (step_fault_iff.mpr ⟨hd.symm, hf⟩)
  | next hn _ ih =>
    rw [read_message hn, ih hf hd]
    rfl

/-- There is one faulty head at most. -/
theorem Yields.unique {ms' : List (Message Head)} {back' : Bytes} {e e' : ParseFault}
    {rest rest' : Bytes} (h : Yields d b ms ⟨none⟩ back) (hf : Head.read back = .fault e rest)
    (h' : Yields d b ms' ⟨none⟩ back') (hf' : Head.read back' = .fault e' rest') :
    ms = ms' ∧ back = back' := by
  generalize hd : (⟨none⟩ : Decoder) = due at h
  induction h generalizing ms' with
  | nothing =>
    subst hd
    cases h' with
    | nothing => exact ⟨rfl, rfl⟩
    | next hn _ => cases hn with | head hr => rw [hf] at hr; cases hr
  | next hn _ ih =>
    cases h' with
    | nothing => cases hn with | head hr => rw [hf'] at hr; cases hr
    | next hn' hy' =>
      have hs := hn.step
      rw [hn'.step] at hs
      cases hs
      obtain ⟨hms, hback⟩ := ih hf hy' hd
      exact ⟨by rw [hms], hback⟩

/-! ## Runs over chunks -/

/-- A reading with those that follow it, as one: all messages, and where the last one stands. -/
def Drained.through (r : Drained) : List Drained → Drained
  | [] => r
  | next :: later => (next.through later).after r.messages

/-- A run over chunks as one reading. -/
def feed (d : Decoder) (b : Bytes) (chunks : List Bytes) : Drained :=
  Drained.through ⟨[], d, b, none⟩ (d.readAll b chunks)

theorem Drained.after_nil (r : Drained) : r.after [] = r := rfl

theorem feed_nil (d : Decoder) (b : Bytes) : d.feed b [] = ⟨[], d, b, none⟩ := rfl

theorem feed_cons (d : Decoder) (b chunk : Bytes) (chunks : List Bytes) :
    d.feed b (chunk :: chunks) =
      if (d.read (b ++ chunk)).fault.isSome then d.read (b ++ chunk)
      else ((d.read (b ++ chunk)).decoder.feed (d.read (b ++ chunk)).rest chunks).after
        (d.read (b ++ chunk)).messages := by
  unfold feed
  rw [readAll, Drained.through, Drained.after_nil]
  by_cases hf : (d.read (b ++ chunk)).fault.isSome = true
  · simp only [if_pos hf, Drained.through]
  · have hnone : (d.read (b ++ chunk)).fault = none := by simpa using hf
    simp only [if_neg hf]
    cases (d.read (b ++ chunk)).decoder.readAll (d.read (b ++ chunk)).rest chunks with
    | nil => simp only [Drained.through, Drained.after, List.append_nil, ← hnone]
    | cons next later => simp only [Drained.through, Drained.after_nil]

/-- A run reads what one look at its bytes reads, up to those that a fault leaves unread. -/
theorem feed_alike (chunks : List Bytes) (h : d.step b = .more) :
    ∃ seen unseen, chunks.flatten = seen ++ unseen ∧
      Alike (d.read (b ++ seen)) (d.feed b chunks) ∧
      ((d.feed b chunks).fault = none → unseen = []) := by
  induction chunks generalizing d b with
  | nil =>
    refine ⟨[], [], rfl, ?_, fun _ => rfl⟩
    rw [List.append_nil, read_more h, feed_nil]
    exact .refl _
  | cons chunk chunks ih =>
    rw [feed_cons]
    cases hf : (d.read (b ++ chunk)).fault with
    | some e =>
      refine ⟨chunk, chunks.flatten, List.flatten_cons, ?_, fun hn => ?_⟩
      · rw [if_pos (by rfl)]
        exact .refl _
      · rw [if_pos (by rfl), hf] at hn
        cases hn
    | none =>
      obtain ⟨seen, unseen, hsplit, halike, hall⟩ := ih (step_of_read hf)
      refine ⟨chunk ++ seen, unseen, ?_, ?_, ?_⟩
      · rw [List.flatten_cons, hsplit, List.append_assoc]
      · rw [if_neg (by simp), ← List.append_assoc]
        exact (read_append hf seen).trans (halike.after _)
      · rw [if_neg (by simp)]
        exact hall

/-- A run with a fault ends at a head that the part of it which had arrived rules out. -/
theorem yields_of_feed {chunks : List Bytes} {e : ParseFault} (h : d.step b = .more)
    (hf : (d.feed b chunks).fault = some e) :
    ∃ ms back seen rest, Yields d (b ++ chunks.flatten) ms ⟨none⟩ back ∧
      merge ms = merge (d.feed b chunks).messages ∧ seen <+: back ∧
      Head.read seen = .fault e rest ∧ (d.feed b chunks).decoder = ⟨none⟩ := by
  obtain ⟨seen, unseen, hsplit, halike, _⟩ := feed_alike chunks h
  obtain ⟨back, rest, hy, hr, hd⟩ := yields_of_fault (halike.fault.trans hf)
  refine ⟨_, back ++ unseen, back, rest, ?_, halike.messages, List.prefix_append _ _, hr,
    halike.decoder ▸ hd⟩
  rw [hsplit, ← List.append_assoc]
  exact hy.append unseen

/-- A head that part of its bytes rule out is ruled out by all of them. -/
theorem fault_of_prefix {seen back rest : Bytes} {e : ParseFault} (h : seen <+: back)
    (hf : Head.read seen = .fault e rest) :
    ∃ e' rest', Head.read back = .fault e' rest' ∧ (e = e' ∨ Head.Overlong back) := by
  obtain ⟨t, rfl⟩ := h
  obtain ⟨e', rest', hr, he⟩ := Head.read_fault_append t hf
  exact ⟨e', rest', hr, he.imp_right fun ho => ho.append t⟩

/-- Two parts of one head that both rule it out do so for one reason, unless it is overlong. -/
theorem same_fault {seen seen' back rest rest' : Bytes} {e e' : ParseFault}
    (h : seen <+: back) (h' : seen' <+: back) (hf : Head.read seen = .fault e rest)
    (hf' : Head.read seen' = .fault e' rest') : e = e' ∨ Head.Overlong back := by
  obtain ⟨u, hu⟩ := h
  obtain ⟨u', hu'⟩ := h'
  obtain ⟨e₁, rest₁, hr, he⟩ := Head.read_fault_append u hf
  obtain ⟨e₂, rest₂, hr', he'⟩ := Head.read_fault_append u' hf'
  rw [hu] at hr
  rw [hu', hr] at hr'
  cases hr'
  obtain rfl | ho := he
  · obtain rfl | ho' := he'
    · exact .inl rfl
    · exact .inr (hu' ▸ ho'.append u')
  · exact .inr (hu ▸ ho.append u)

/-- A run without a fault reads what one look at the whole stream reads. -/
theorem feed_cut {chunks : List Bytes} (h : d.step b = .more)
    (hf : (d.feed b chunks).fault = none) :
    Alike (d.read (b ++ chunks.flatten)) (d.feed b chunks) := by
  obtain ⟨seen, unseen, hsplit, halike, hall⟩ := feed_alike chunks h
  rw [hsplit, hall hf, List.append_nil]
  exact halike

/-- If one look at the whole stream finds no fault, no run over it does. -/
theorem fault_of_read {chunks : List Bytes} (h : d.step b = .more)
    (hf : (d.read (b ++ chunks.flatten)).fault = none) : (d.feed b chunks).fault = none := by
  cases hx : (d.feed b chunks).fault with
  | none => rfl
  | some e =>
    obtain ⟨ms, back, seen, rest, hy, _, hseen, hr, _⟩ := yields_of_feed h hx
    obtain ⟨e', rest', hr', _⟩ := fault_of_prefix hseen hr
    rw [hy.read hr'] at hf
    cases hf

/-- If one run over a stream has a fault, so has every other. -/
theorem fault_of_feed {chunks chunks' : List Bytes} (h : d.step b = .more)
    (heq : chunks.flatten = chunks'.flatten) (hf : (d.feed b chunks').fault = none) :
    (d.feed b chunks).fault = none := by
  have hwhole := (feed_cut h hf).fault
  rw [hf, ← heq] at hwhole
  exact fault_of_read h hwhole

/-- A fresh reader waits for a head. -/
theorem step_nil : ({} : Decoder).step [] = .more := rfl

/-- **How a stream is cut does not matter.** Two runs of a fresh reader over the same stream
deliver the same heads with the same lengths, the same ends of bodies and the same bytes between
them, and stand in the same place. Either none has a fault, and then both leave the same bytes; or
both have one, at the head that is due behind the messages delivered, and it is the same fault
unless that head is overlong. -/
theorem feed_cuts (xs ys : List Bytes) (h : xs.flatten = ys.flatten) :
    let r := ({} : Decoder).feed [] xs
    let s := ({} : Decoder).feed [] ys
    merge r.messages = merge s.messages ∧ r.decoder = s.decoder ∧
      (r.fault = none ↔ s.fault = none) ∧ (r.fault = none → r.rest = s.rest) ∧
      (r.fault ≠ none → ∃ ms back e rest, Yields {} xs.flatten ms {} back ∧
        merge ms = merge r.messages ∧ Head.read back = .fault e rest ∧
        (r.fault = s.fault ∨ Head.Overlong back)) := by
  intro r s
  have hiff : r.fault = none ↔ s.fault = none :=
    ⟨fault_of_feed step_nil h.symm, fault_of_feed step_nil h⟩
  cases hr : r.fault with
  | none =>
    have hs := hiff.mp hr
    have hxs := feed_cut step_nil hr
    have hys := feed_cut step_nil hs
    rw [h] at hxs
    exact ⟨hxs.messages.symm.trans hys.messages, hxs.decoder.symm.trans hys.decoder,
      by simp [hs], fun _ => hxs.rest.symm.trans hys.rest, fun hn => absurd rfl hn⟩
  | some e =>
    cases hs : s.fault with
    | none => rw [hiff.mpr hs] at hr; cases hr
    | some e' =>
      obtain ⟨ms, back, seen, rest, hy, hms, hseen, hread, hdec⟩ := yields_of_feed step_nil hr
      obtain ⟨ms', back', seen', rest', hy', hms', hseen', hread', hdec'⟩ :=
        yields_of_feed step_nil hs
      obtain ⟨e₁, rest₁, hback, _⟩ := fault_of_prefix hseen hread
      obtain ⟨e₂, rest₂, hback', _⟩ := fault_of_prefix hseen' hread'
      -- both runs stop at the head that one look at the stream finds faulty
      rw [← h] at hy'
      obtain ⟨rfl, rfl⟩ := hy.unique hback hy' hback'
      refine ⟨hms.symm.trans hms', hdec.trans hdec'.symm, by simp, nofun,
        fun _ => ⟨ms, back, e₁, rest₁, hy, hms, hback, ?_⟩⟩
      exact (same_fault hseen hseen' hread hread').imp_left fun he => by rw [he]

/-- A body of two bytes with a request behind it, cut inside the head and inside the body. -/
theorem feed_cuts_inside :
    let post := Text.Utf8.encode "POST /a HTTP/1.1\r\ncontent-length: 2\r\n\r\n"
    let get := Text.Utf8.encode "GET /b HTTP/1.1\r\n\r\n"
    let xs := [post.take 7, post.drop 7 ++ [1], 2 :: get]
    let ys := [post ++ [1, 2] ++ get]
    xs.flatten = ys.flatten ∧
      merge (({} : Decoder).feed [] xs).messages = merge (({} : Decoder).feed [] ys).messages := by
  intro post get xs ys
  have h : xs.flatten = ys.flatten := by
    simp only [xs, ys, List.flatten_cons, List.flatten_nil, List.append_nil, List.append_assoc,
      List.cons_append, List.nil_append]
    rw [← List.append_assoc, List.take_append_drop]
  exact ⟨h, (feed_cuts xs ys h).1⟩

end Decoder

end Depot.Http
