import Depot.Http.Encoder

/-! # A body behind each head

A writer of responses that goes on behind its faults keeps every response whole until it loses count
(`isLapse`): a body is ended early, or a head that announces a body is of a version that is not
written. Up to there the bytes written are heads, each with as many bytes behind it as it announced,
and only behind the last one some may be missing (`framed_until_lapse`). From there on that is lost:
behind a body that was ended early the next head is taken all the same (`framed_short_body`), and
bytes are taken behind a head that was never written. Those are the two refusals that do not leave
the encoder as it was; none of them writes anything (`refused_kept_iff`). -/

namespace Depot.Http

namespace Encoder

/-! ## What a message comes to -/

/-- All that a message can come to. -/
inductive Encodes (e : Encoder) : Message ReplyHead → Encoded → Prop
  | head {head : ReplyHead} {length : Nat} : e.owed = none → head.version = .http11 →
      Encodes e (.head head length) { encoder := ⟨some length⟩, out := head.render length }
  /-- A head of a version that is not written leaves its body owed. -/
  | unwritten {head : ReplyHead} {length : Nat} {log : List Event} :
      e.owed = none → head.version ≠ .http11 →
      Encodes e (.head head length)
        { encoder := ⟨some length⟩, fault := some (.write .unsupported), log }
  | headInBody {head : ReplyHead} {length owed : Nat} {log : List Event} : e.owed = some owed →
      Encodes e (.head head length) { encoder := e, fault := some (.write .invalidInput), log }
  | chunk {bytes : Bytes} {owed : Nat} : e.owed = some owed → bytes.length ≤ owed →
      Encodes e (.chunk bytes) { encoder := ⟨some (owed - bytes.length)⟩, out := bytes }
  | overlong {bytes : Bytes} {owed : Nat} {log : List Event} :
      e.owed = some owed → owed < bytes.length →
      Encodes e (.chunk bytes) { encoder := e, fault := some (.body .tooLong), log }
  | strayChunk {bytes : Bytes} {log : List Event} : e.owed = none →
      Encodes e (.chunk bytes) { encoder := e, fault := some (.write .invalidInput), log }
  | eof : e.owed = some 0 → Encodes e .eof { encoder := ⟨none⟩ }
  /-- A body that is ended early is taken for done. -/
  | short {missing : Nat} : e.owed = some missing → 0 < missing →
      Encodes e .eof { encoder := ⟨none⟩, fault := some (.body (.short missing)) }
  | strayEof {log : List Event} : e.owed = none →
      Encodes e .eof { encoder := e, fault := some (.write .invalidInput), log }

theorem encodes (e : Encoder) (m : Message ReplyHead) : Encodes e m (e.encode m) := by
  cases m with
  | head head length =>
    simp only [encode, encodeHead]
    cases howed : e.owed with
    | some owed => exact .headInBody howed
    | none =>
      cases hversion : head.version with
      | http11 => exact .head howed hversion
      | _ => exact .unwritten howed (by rw [hversion]; decide)
  | chunk bytes =>
    simp only [encode, encodeChunk]
    cases howed : e.owed with
    | none => exact .strayChunk howed
    | some owed =>
      by_cases hlong : owed < bytes.length
      · simp only [if_pos hlong]
        exact .overlong howed hlong
      · simp only [if_neg hlong]
        exact .chunk howed (Nat.le_of_not_lt hlong)
  | eof =>
    simp only [encode, encodeEof]
    cases howed : e.owed with
    | none => exact .strayEof howed
    | some owed =>
      cases owed with
      | zero => exact .eof howed
      | succ owed => exact .short howed (Nat.succ_pos owed)

/-! ## Going on behind faults -/

/-- What comes of messages written one after the other, whether or not there were faults before. -/
def encodeEach (e : Encoder) : List (Message ReplyHead) → List (Message ReplyHead × Encoded)
  | [] => []
  | m :: messages => (m, e.encode m) :: (e.encode m).encoder.encodeEach messages

/-- Where the encoder stands behind messages. -/
def after (e : Encoder) (messages : List (Message ReplyHead)) : Encoder :=
  messages.foldl (fun e m => (e.encode m).encoder) e

/-- The head a step took, with the length it announced. -/
def acceptedHead? : Message ReplyHead × Encoded → Option (ReplyHead × Nat)
  | (.head head length, result) => if result.fault = none then some (head, length) else none
  | (.chunk _, _) => none
  | (.eof, _) => none

/-- The heads that were taken, in order. -/
def accepted (steps : List (Message ReplyHead × Encoded)) : List (ReplyHead × Nat) :=
  steps.filterMap acceptedHead?

/-- All that was written. -/
def written (steps : List (Message ReplyHead × Encoded)) : Bytes :=
  steps.flatMap fun step => step.2.out

/-- The steps at which the encoder loses count: a body is ended early, or a head that announces a
body is not written. -/
def isLapse : Message ReplyHead × Encoded → Bool
  | (_, { fault := some (.body (.short _)), .. }) => true
  | (.head _ length, { fault := some (.write .unsupported), .. }) => 0 < length
  | _ => false

/-- The bytes are the heads in order, and behind each as many bytes as it announced; behind the
last, some may be missing. -/
inductive Framed : List (ReplyHead × Nat) → Bytes → Nat → Prop
  | nothing : Framed [] [] 0
  | response {heads : List (ReplyHead × Nat)} {front body : Bytes} {head : ReplyHead}
      {length missing : Nat} :
      Framed heads front 0 → body.length + missing = length →
      Framed (heads ++ [(head, length)]) (front ++ (head.render length ++ body)) missing

section

variable {e : Encoder} {m : Message ReplyHead} {heads : List (ReplyHead × Nat)} {out : Bytes}
  {missing : Nat}

theorem encodeEach_append (e : Encoder) (ms ns : List (Message ReplyHead)) :
    e.encodeEach (ms ++ ns) = e.encodeEach ms ++ (e.after ms).encodeEach ns := by
  induction ms generalizing e with
  | nil => rfl
  | cons m ms ih => rw [List.cons_append, encodeEach, ih, encodeEach]; rfl

/-- Bytes that are missing may follow. -/
theorem Framed.append (h : Framed heads out missing) {chunk : Bytes}
    (hchunk : chunk.length ≤ missing) :
    Framed heads (out ++ chunk) (missing - chunk.length) := by
  cases h with
  | nothing =>
    have hnil : chunk = [] := List.length_eq_zero_iff.mp (Nat.le_zero.mp hchunk)
    rw [hnil]
    exact .nothing
  | @response heads front body head length _ hfront hlength =>
    have hbody : (body ++ chunk).length + (missing - chunk.length) = length := by
      rw [List.length_append]
      omega
    have hframed : Framed _ (front ++ (head.render length ++ (body ++ chunk))) _ :=
      .response hfront hbody
    simp only [List.append_assoc] at hframed ⊢
    exact hframed

/-- The bytes that heads and their bodies take. -/
def span : List (ReplyHead × Nat) → Nat
  | [] => 0
  | (head, length) :: heads => (head.render length).length + length + span heads

theorem span_concat (heads : List (ReplyHead × Nat)) (head : ReplyHead) (length : Nat) :
    span (heads ++ [(head, length)]) = span heads + ((head.render length).length + length) := by
  induction heads with
  | nil => exact Nat.add_comm _ 0
  | cons first heads ih =>
    rw [List.cons_append, span, span, ih]
    exact (Nat.add_assoc ..).symm

/-- The heads alone settle how many bytes there are, those that are missing counted in. -/
theorem Framed.length_eq (h : Framed heads out missing) : out.length + missing = span heads := by
  induction h with
  | nothing => rfl
  | response _ hlength ih =>
    rw [span_concat]
    simp only [List.length_append] at ih ⊢
    omega

/-- No more bytes follow than are missing. -/
theorem Framed.length_le (h : Framed heads out missing) {more : Bytes} {missing' : Nat}
    (h' : Framed heads (out ++ more) missing') : more.length ≤ missing := by
  have hlength := h.length_eq
  have hlength' := h'.length_eq
  rw [List.length_append] at hlength'
  omega

/-- A head stands behind whole bodies only. -/
theorem Framed.whole (h : Framed heads out missing) {head : ReplyHead} {length missing' : Nat}
    (h' : Framed (heads ++ [(head, length)]) (out ++ head.render length) missing') :
    missing = 0 := by
  have hlength := h.length_eq
  have hfront : ∃ front body : Bytes, Framed heads front 0 ∧
      (front ++ (head.render length ++ body)).length = (out ++ head.render length).length := by
    generalize hheads : heads ++ [(head, length)] = heads', hout : out ++ head.render length = out'
      at h'
    cases h' with
    | nothing => simp at hheads
    | response hfront _ =>
      obtain ⟨rfl, hlast⟩ := List.append_inj' hheads rfl
      cases hlast
      exact ⟨_, _, hfront, rfl⟩
  obtain ⟨front, body, hframed, hsame⟩ := hfront
  have hlength' := hframed.length_eq
  simp only [List.length_append] at hsame
  omega

/-- As long as the encoder keeps count, a message leaves behind each head what it announced, less
the bytes that are owed. -/
theorem encode_framed (h : Framed heads out (e.owed.getD 0))
    (hcount : isLapse (m, e.encode m) = false) :
    Framed (heads ++ accepted [(m, e.encode m)]) (out ++ (e.encode m).out)
      ((e.encode m).encoder.owed.getD 0) := by
  have hencodes := encodes e m
  have hsame : Framed (heads ++ []) (out ++ []) (e.owed.getD 0) := by simpa using h
  generalize e.encode m = result at hcount hencodes ⊢
  cases hencodes with
  | @head head length howed _ =>
    rw [howed] at h
    have hframed : Framed (heads ++ [(head, length)]) (out ++ (head.render length ++ [])) length :=
      .response h (Nat.zero_add length)
    rw [List.append_nil] at hframed
    exact hframed
  | @unwritten head length _ howed _ =>
    have hlength : length = 0 := by simpa [isLapse] using hcount
    rw [howed] at hsame
    rw [hlength]
    exact hsame
  | headInBody _ => exact hsame
  | chunk howed hfits =>
    rw [howed] at h
    rw [← List.append_nil heads] at h
    exact h.append hfits
  | overlong _ _ => exact hsame
  | strayChunk _ => exact hsame
  | eof howed =>
    rw [howed] at hsame
    exact hsame
  | short _ _ => simp [isLapse] at hcount
  | strayEof _ => exact hsame

theorem accepted_cons (step : Message ReplyHead × Encoded)
    (steps : List (Message ReplyHead × Encoded)) :
    accepted (step :: steps) = accepted [step] ++ accepted steps := by
  have hcons : step :: steps = [step] ++ steps := rfl
  rw [hcons]
  exact List.filterMap_append

theorem encodeEach_framed {messages : List (Message ReplyHead)}
    (h : Framed heads out (e.owed.getD 0))
    (hcount : ∀ step ∈ e.encodeEach messages, isLapse step = false) :
    Framed (heads ++ accepted (e.encodeEach messages)) (out ++ written (e.encodeEach messages))
      ((e.after messages).owed.getD 0) := by
  induction messages generalizing e heads out with
  | nil => simpa [encodeEach, accepted, written, after] using h
  | cons m messages ih =>
    rw [encodeEach, List.forall_mem_cons] at hcount
    have hlater := ih (encode_framed h hcount.1) hcount.2
    rw [List.append_assoc, List.append_assoc] at hlater
    rw [encodeEach, accepted_cons]
    exact hlater

/-- Behind a lapse some next message is taken that no frame has room for: a head, where a body was
ended early, or a byte, where the head was not written. -/
theorem lost_of_lapse (h : Framed heads out (e.owed.getD 0))
    (hlapse : isLapse (m, e.encode m) = true) :
    ∃ next, ((e.encode m).encoder.encode next).fault = none ∧
      ∀ missing', ¬Framed (heads ++ accepted (e.encodeEach [m, next]))
        (out ++ written (e.encodeEach [m, next])) missing' := by
  have hencodes := encodes e m
  simp only [encodeEach]
  generalize e.encode m = result at hlapse hencodes ⊢
  cases hencodes with
  | short howed hpos =>
    rw [howed] at h
    refine ⟨.head {} 0, rfl, fun missing' h' => ?_⟩
    have hwritten : Framed (heads ++ [(({} : ReplyHead), 0)]) (out ++ ReplyHead.render {} 0)
        missing' := by
      simpa [accepted, List.filterMap_cons, acceptedHead?, written, encode, encodeHead] using h'
    exact Nat.ne_of_gt hpos (h.whole hwritten)
  | @unwritten head length _ howed _ =>
    have hpos : 0 < length := by simpa [isLapse] using hlapse
    have htaken : (⟨some length⟩ : Encoder).encode (.chunk [0]) =
        { encoder := ⟨some (length - 1)⟩, out := [0] } := if_neg (Nat.not_lt.mpr hpos)
    rw [howed] at h
    refine ⟨.chunk [0], by rw [htaken], fun missing' h' => ?_⟩
    have hwritten : Framed heads (out ++ [0]) missing' := by
      simpa [accepted, List.filterMap_cons, acceptedHead?, written, htaken] using h'
    exact absurd (h.length_le hwritten) (by decide)
  | _ => cases hlapse

end

/-- **Each response is whole before the next head, until the encoder loses count.** Faults in
between that are no lapse change nothing. A lapse does not show in the bytes yet, but some next
message is taken that makes them heads and bodies no more. -/
theorem framed_until_lapse (messages : List (Message ReplyHead))
    (hcount : ∀ step ∈ ({} : Encoder).encodeEach messages, isLapse step = false) :
    let run := fun more => ({} : Encoder).encodeEach (messages ++ more)
    let e := ({} : Encoder).after messages
    ∃ missing, Framed (accepted (run [])) (written (run [])) missing ∧
      (∀ head length, (e.encode (.head head length)).fault = none → missing = 0) ∧
      ∀ m, isLapse (m, e.encode m) = true →
        ∃ next, ((e.encode m).encoder.encode next).fault = none ∧
          ∀ missing', ¬Framed (accepted (run [m, next])) (written (run [m, next])) missing' := by
  intro run e
  have hrun : ∀ more, run more = ({} : Encoder).encodeEach messages ++ e.encodeEach more :=
    fun more => encodeEach_append {} messages more
  have hframed : Framed (accepted (run [])) (written (run [])) (e.owed.getD 0) := by
    have hall := encodeEach_framed (e := {}) .nothing hcount
    rw [hrun, encodeEach, List.append_nil]
    exact hall
  refine ⟨_, hframed, fun head length haccepted => ?_, fun m hlapse => ?_⟩
  · have hencodes := encodes e (.head head length)
    generalize e.encode (.head head length) = result at haccepted hencodes
    cases hencodes with
    | head howed _ => rw [howed]; rfl
    | unwritten _ _ => cases haccepted
    | headInBody _ => cases haccepted
  · obtain ⟨next, htaken, hlost⟩ := lost_of_lapse hframed hlapse
    refine ⟨next, htaken, fun missing' h' => hlost missing' ?_⟩
    simp only [hrun, encodeEach, List.append_nil] at h' ⊢
    simpa [accepted, written] using h'

/-- Faults that are no lapse: a head inside a body, a chunk that is too long, and an end that comes
twice. -/
theorem framed_until_lapse_faults :
    let messages : List (Message ReplyHead) :=
      [.head {} 3, .chunk [1], .head {} 0, .chunk [2, 3, 4], .chunk [2, 3], .eof, .eof, .head {} 2]
    let run := ({} : Encoder).encodeEach messages
    (∀ step ∈ run, isLapse step = false) ∧ accepted run = [({}, 3), ({}, 2)] ∧
      ∃ missing, Framed (accepted run) (written run) missing := by
  intro messages run
  have hcount : ∀ step ∈ run, isLapse step = false := by decide +kernel
  obtain ⟨missing, hframed, -⟩ := framed_until_lapse messages hcount
  exact ⟨hcount, by decide +kernel, missing, hframed⟩

/-- Two bytes of five have been written when the body is ended, and the next head is taken. -/
theorem framed_short_body :
    let bare : ReplyHead := {}
    let run := ({} : Encoder).encodeEach [.head bare 5, .chunk [97, 98], .eof, .head bare 0]
    run.map (fun step => step.2.fault) = [none, none, some (.body (.short 3)), none] ∧
      ∀ missing, ¬Framed (accepted run) (written run) missing := by
  intro bare run
  refine ⟨by decide +kernel, fun missing h => ?_⟩
  have hbody : Framed ([] ++ [(bare, 5)]) ([] ++ (bare.render 5 ++ [97, 98])) 3 :=
    .response .nothing rfl
  rw [List.nil_append, List.nil_append] at hbody
  have haccepted : accepted run = [(bare, 5)] ++ [(bare, 0)] := by decide +kernel
  have hwritten : written run = bare.render 5 ++ [97, 98] ++ bare.render 0 := by decide +kernel
  rw [haccepted, hwritten] at h
  exact absurd (hbody.whole h) (by decide)

end Encoder

/-! ## What a refused message leaves behind -/

/-- The faults behind which the encoder stands where it would without them: a head is due although
bytes are missing, or a body although its head is. -/
def SendFault.movesOn : SendFault → Bool
  | .body (.short _) => true
  | .write .unsupported => true
  | _ => false

namespace Encoder

/-- Where the encoder stands behind a message that was refused. -/
inductive Refused (e : Encoder) : Message ReplyHead → SendFault → Encoder → Prop
  | kept {m : Message ReplyHead} {cause : SendFault} : cause.movesOn = false → Refused e m cause e
  | short {missing : Nat} : e.owed = some missing → 0 < missing →
      Refused e .eof (.body (.short missing)) ⟨none⟩
  | unwritten {head : ReplyHead} {length : Nat} : e.owed = none → head.version ≠ .http11 →
      Refused e (.head head length) (.write .unsupported) ⟨some length⟩

theorem Encodes.refused {e : Encoder} {m : Message ReplyHead} {result : Encoded}
    {cause : SendFault} (h : Encodes e m result) (hf : result.fault = some cause) :
    result.out = [] ∧ Refused e m cause result.encoder := by
  cases h with
  | head _ _ => cases hf
  | chunk _ _ => cases hf
  | eof _ => cases hf
  | unwritten howed hversion => cases hf; exact ⟨rfl, .unwritten howed hversion⟩
  | short howed hpos => cases hf; exact ⟨rfl, .short howed hpos⟩
  | headInBody _ => cases hf; exact ⟨rfl, .kept rfl⟩
  | overlong _ _ => cases hf; exact ⟨rfl, .kept rfl⟩
  | strayChunk _ => cases hf; exact ⟨rfl, .kept rfl⟩
  | strayEof _ => cases hf; exact ⟨rfl, .kept rfl⟩

/-- Whether a body is due shows in what comes of the next chunk, even of one without bytes. -/
theorem encodeEach_ne (owed : Nat) :
    encodeEach ⟨none⟩ [.chunk []] ≠ encodeEach ⟨some owed⟩ [.chunk []] := by
  intro h
  have hfault := congrArg (List.map fun step => step.2.fault) h
  simp [encodeEach, encode, encodeChunk, misplaced] at hfault

/-- **A refused message writes nothing, and most leave the encoder as it was.** What comes of later
messages is what would come of them without the one that was refused, unless that ended a body early
or was a head of a version that is not written. -/
theorem refused_kept_iff (e : Encoder) (m : Message ReplyHead) {cause : SendFault}
    (h : (e.encode m).fault = some cause) :
    (e.encode m).out = [] ∧ Refused e m cause (e.encode m).encoder ∧
      ((∀ later, (e.encode m).encoder.encodeEach later = e.encodeEach later) ↔
        cause.movesOn = false) := by
  obtain ⟨hout, hrefused⟩ := (encodes e m).refused h
  refine ⟨hout, hrefused, ?_⟩
  obtain ⟨owed⟩ := e
  generalize (encode _ m).encoder = e' at hrefused ⊢
  cases hrefused with
  | kept hkept => exact iff_of_true (fun _ => rfl) hkept
  | short howed _ =>
    obtain rfl : owed = _ := howed
    exact iff_of_false (fun hsame => encodeEach_ne _ (hsame _)) nofun
  | unwritten howed _ =>
    obtain rfl : owed = _ := howed
    exact iff_of_false (fun hsame => encodeEach_ne _ (hsame _).symm) nofun

/-- A chunk one byte too long in the middle of a body. -/
theorem refused_kept_iff_overlong :
    let e := ({} : Encoder).after [.head {} 3, .chunk [1]]
    (e.encode (.chunk [2, 3, 4])).fault = some (.body .tooLong) ∧
      (e.encode (.chunk [2, 3, 4])).out = [] ∧
      ∀ later, (e.encode (.chunk [2, 3, 4])).encoder.encodeEach later = e.encodeEach later := by
  intro e
  have hfault : (e.encode (.chunk [2, 3, 4])).fault = some (.body .tooLong) := by decide +kernel
  obtain ⟨hout, -, hiff⟩ := refused_kept_iff e (.chunk [2, 3, 4]) hfault
  exact ⟨hfault, hout, hiff.mpr rfl⟩

/-- A head of an old version is refused. The next head would have been written before it, and is
refused behind it, while the body of the one that was not written is taken. -/
theorem unwritten_head_moves_on :
    let old : Message ReplyHead := .head { version := .http10 } 2
    let e := ({} : Encoder)
    let e' := (e.encode old).encoder
    (e.encode old).fault = some (.write .unsupported) ∧
      (e.encode (.head {} 0)).fault = none ∧
      (e'.encode (.head {} 0)).fault = some (.write .invalidInput) ∧
      (e.encode (.chunk [97, 98])).fault = some (.write .invalidInput) ∧
      (e'.encode (.chunk [97, 98])).out = [97, 98] := by
  decide +kernel

end Encoder

end Depot.Http
