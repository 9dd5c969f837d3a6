import Mathlib.Tactic.Simps.Basic
import Depot.Proofs.Http.Decoding
import Depot.Proofs.Http.Session

/-! # A connection serves its stream

However the bytes of a client are cut and delayed, a connection without an idle limit does with
them what `serve` does with the whole stream, and does it as soon as it can: `run_serves`. Between
two messages a connection is between two requests or inside a body (`Leads`); each message it takes
keeps what the bytes still to come lead to. -/

namespace Depot.Http

variable {δ : Type}

/-! ## Replies -/

/-- The chunks of a body of the length that is owed are written as they are, and a head is due
again behind them. -/
theorem Encoder.encodeAll_body (chunks : List Bytes) (messages : List (Message ReplyHead)) :
    (⟨some chunks.flatten.length⟩ : Encoder).encodeAll (chunks.map .chunk ++ .eof :: messages) =
      let later := ({} : Encoder).encodeAll messages
      { later with out := chunks.flatten ++ later.out } := by
  induction chunks with
  | nil => rfl
  | cons chunk chunks ih =>
    have hchunk : (⟨some (chunk :: chunks).flatten.length⟩ : Encoder).encode (.chunk chunk) =
        { encoder := ⟨some chunks.flatten.length⟩, out := chunk } := by
      simp [encode, encodeChunk]
    rw [List.map_cons, List.cons_append, encodeAll, hchunk]
    simp only [ih, List.flatten_cons, List.append_assoc, List.nil_append]

/-- A head is written whole, with a body of the length it announces, however that is cut. -/
theorem Encoder.encodeAll_response {head : ReplyHead} (h : head.version = .http11)
    (chunks : List Bytes) (messages : List (Message ReplyHead)) :
    ({} : Encoder).encodeAll
        (.head head chunks.flatten.length :: (chunks.map .chunk ++ .eof :: messages)) =
      let later := ({} : Encoder).encodeAll messages
      { later with out := head.render chunks.flatten.length ++ (chunks.flatten ++ later.out) } := by
  have hhead : ({} : Encoder).encode (.head head chunks.flatten.length) =
      { encoder := ⟨some chunks.flatten.length⟩, out := head.render chunks.flatten.length } := by
    simp [encode, encodeHead, h]
  rw [encodeAll, hhead]
  simp only [encodeAll_body, List.nil_append]

/-- The chunks in which the body of a reply is sent: one, if there is a body. -/
def Reply.chunks (r : Reply) : List Bytes := if r.body = [] then [] else [r.body]

theorem Reply.flatten_chunks (r : Reply) : r.chunks.flatten = r.body := by
  unfold chunks
  split
  · next hb => rw [hb, List.flatten_nil]
  · rw [List.flatten_cons, List.flatten_nil, List.append_nil]

theorem Reply.messages_eq (r : Reply) :
    r.messages = .head r.head r.chunks.flatten.length :: (r.chunks.map .chunk ++ [.eof]) := by
  rw [flatten_chunks, messages, chunks]
  split
  · rfl
  · rfl

/-- A reply is written whole: its head announces the length its body has. -/
theorem Encoder.encodeAll_messages (r : Reply) :
    ({} : Encoder).encodeAll r.messages = { encoder := {}, out := r.render } := by
  have hhead : r.head.version = .http11 := rfl
  rw [r.messages_eq, encodeAll_response hhead, r.flatten_chunks]
  simp only [encodeAll, List.append_nil, Reply.render]

namespace Connection

variable (d : Responder δ) (c : Connection) (s : δ)

theorem bind_run {α β : Type} (m : StateM δ α) (f : α → StateM δ β) (s : δ) :
    (m >>= f) s = f (m s).1 (m s).2 := rfl

theorem pure_run {α : Type} (a : α) (s : δ) : (pure a : StateM δ α) s = (a, s) := rfl

theorem reply_eq (r : Reply) (he : c.encoder = {}) :
    reply d r c s = (c.write r.render, (reportAll d r.log s).2) := by
  unfold reply
  rw [he, Encoder.encodeAll_messages, bind_run]
  simp only [List.append_nil, pure_run]
  rw [← he]

theorem refuse_eq (cause : ParseFault) (he : c.encoder = {}) (ho : c.outcome = none) :
    refuse d cause c s =
      ((c.write (Reply.bare .badRequest).render).fail (.parse cause), s) := by
  unfold refuse
  rw [bind_run, reply_eq d c s _ he]
  have hopen : (c.write (Reply.bare .badRequest).render).isOpen = true := by
    simp [isOpen, write, ho]
  simp only [hopen, if_true, pure_run]
  rfl

theorem done_write (bytes : Bytes) : (c.write bytes).done = c.done ++ [.wrote bytes] :=
  List.reverse_cons

theorem done_call (request : Request) : (c.call request).done = c.done ++ [.called request] :=
  List.reverse_cons

theorem sent_write (bytes : Bytes) : (c.write bytes).sent = c.sent ++ bytes := by
  simp [sent, done_write, Act.bytes]

/-- A request that is handed on is not written. -/
theorem sent_call (request : Request) : (c.call request).sent = c.sent := by
  simp [sent, done_call, Act.bytes]

/-- What is reported of a stream that is no request. -/
def noRequest (client : Address) (cause : ParseFault) : Event :=
  .warn "can't receive next request" [("client_ip", client.render), ("cause", cause.message)]

theorem broken_eq (cause : ParseFault) (hi : c.intake = none) (he : c.encoder = {})
    (ho : c.outcome = none) :
    broken d cause c s = ((c.write (Reply.bare .badRequest).render).fail (.parse cause),
      (d.report (noRequest c.client cause) s).2) := by
  unfold broken
  rw [hi]
  exact refuse_eq d c _ cause he ho

end Connection

/-! ## Blocks -/

/-- What waits in the block fits into it. -/
structure Block.Fits (b : Block) (waiting : Nat) : Prop where
  size : 0 < b.size
  room : b.taken + waiting ≤ b.size

/-- There is room for more in the block that is read into next. -/
theorem Block.Fits.forMore {b : Block} {waiting : Nat} (h : b.Fits waiting) :
    0 < (b.forMore waiting).room waiting := by
  have hsize := h.size
  have hroom := h.room
  unfold Block.forMore
  by_cases hfree : 0 < b.room waiting
  · rwa [if_pos hfree]
  · rw [if_neg hfree]
    unfold Block.room at hfree ⊢
    by_cases hkept : b.kept = true
    · rw [if_pos hkept]
      simp only
      omega
    · rw [if_neg hkept]
      by_cases hfront : waiting ≤ b.taken
      · rw [if_pos hfront]
        simp only
        omega
      · rw [if_neg hfront]
        simp only
        omega

/-- Bytes that fit behind those that wait may join them. -/
theorem Block.fits_of_room {b : Block} {waiting more : Nat} (h : 0 < b.room waiting)
    (hmore : more ≤ b.room waiting) : b.Fits (waiting + more) := by
  unfold Block.room at h hmore
  exact ⟨by omega, by omega⟩

theorem Connection.blockAfter_fits {b : Block} {waiting left : Nat} (m : Message Head)
    (h : b.Fits waiting) (hleft : left ≤ waiting) :
    (Connection.blockAfter m (waiting - left) b).Fits left := by
  have hsize := h.size
  have hroom := h.room
  cases m with
  | head head length => exact ⟨hsize, by simp only [blockAfter, Block.take, Block.keep]; omega⟩
  | chunk bytes => exact ⟨hsize, by simp only [blockAfter, Block.take]; omega⟩
  | eof => exact ⟨hsize, by simp only [blockAfter, Block.take, Block.keep]; omega⟩

/-! ## Heads and bodies -/

/-- The intake of a head asks for what the head asks for. -/
theorem Intake.ofHead_eq {head : Head} {length : Nat} (client : Address) (bounds : Bounds)
    (h : head.fields.contentLength?.getD 0 = length) :
    ofHead head client bounds =
      (head.admitted length bounds).map fun method =>
        { request := head.request method client length [] } := by
  unfold ofHead Head.admitted Head.request
  rw [h]
  cases Method.ofName? head.method with
  | none => rfl
  | some method =>
    simp only
    split
    · rfl
    · split
      · rfl
      · rfl

/-- What an intake still waits for is what the reader still owes. -/
theorem Intake.due_eq {x : Intake} {due : Nat} (harrived : x.arrived = x.body.length)
    (hdue : x.arrived + due = x.announced) : x.request.contentLength - x.body.length = due := by
  have hannounced : x.announced = x.request.contentLength := rfl
  omega

theorem serveBody_append (d : Responder δ) (client : Address) (bounds : Bounds)
    (request : Request) (arrived chunk rest : Bytes)
    (h : chunk.length ≤ request.contentLength - arrived.length) :
    serveBody d client bounds request (arrived ++ chunk) rest =
      serveBody d client bounds request arrived (chunk ++ rest) := by
  have hdue : request.contentLength - (arrived ++ chunk).length =
      request.contentLength - arrived.length - chunk.length := by
    rw [List.length_append]
    omega
  have hshort : (chunk ++ rest).length < request.contentLength - arrived.length ↔
      rest.length < request.contentLength - (arrived ++ chunk).length := by
    rw [hdue, List.length_append]
    omega
  have htake : (chunk ++ rest).take (request.contentLength - arrived.length) =
      chunk ++ rest.take (request.contentLength - (arrived ++ chunk).length) := by
    rw [List.take_append, List.take_of_length_le h, hdue]
  have hdrop : (chunk ++ rest).drop (request.contentLength - arrived.length) =
      rest.drop (request.contentLength - (arrived ++ chunk).length) := by
    rw [List.drop_append, List.drop_of_length_le h, hdue, List.nil_append]
  unfold serveBody
  simp only [hshort, htake, hdrop, List.append_assoc]
  simp only [List.length_append, Nat.add_assoc]

namespace Connection

/-- An open connection between two of its messages. -/
structure Ready (c : Connection) : Prop where
  isOpen : c.outcome = none
  encoder : c.encoder = {}
  idle : c.idle = none
  block : c.block.Fits c.buffer.length

/-- What a connection comes to once it has met the bytes still to come and the end of the stream:
all that it will have done, how it will have ended and the state it will have left. -/
inductive Leads (d : Responder δ) (c : Connection) (t : Bytes) (s : δ) :
    List Act → Ending → δ → Prop
  /-- Between two requests the rest of the stream is served. -/
  | between {session : Session} {s' : δ} : c.Ready → c.decoder = ⟨none⟩ → c.intake = none →
      serve d c.client c.bounds (c.buffer ++ t) s = (session, s') →
      Leads d c t s (c.done ++ session.acts) session.ending s'
  /-- Inside a body its rest comes first. -/
  | inside {x : Intake} {due : Nat} {session : Session} {s' : δ} : c.Ready →
      c.decoder = ⟨some due⟩ → c.intake = some x → x.arrived = x.body.length →
      x.arrived + due = x.announced →
      serveBody d c.client c.bounds x.request x.body (c.buffer ++ t) s = (session, s') →
      Leads d c t s (c.done ++ session.acts) session.ending s'
  | closed : c.outcome = some (.ok ()) → Leads d c t s c.done .closed s
  | refused {reason : Refusal} : c.outcome = some (.error (.refused reason)) →
      Leads d c t s c.done (.refused reason) s
  /-- What is no request has been reported when the connection ends. -/
  | unreadable {cause reported : ParseFault} {s₀ : δ} :
      c.outcome = some (.error (.parse cause)) →
      s = (d.report (noRequest c.client reported) s₀).2 → Leads d c t s c.done .unreadable s₀

variable {d : Responder δ} {c : Connection} {t : Bytes} {s s' : δ} {out : List Act} {ending : Ending}

theorem Leads.ready (h : Leads d c t s out ending s') (ho : c.isOpen = true) : c.Ready := by
  rw [isOpen, Option.isNone_iff_eq_none] at ho
  cases h with
  | between hr => exact hr
  | inside hr => exact hr
  | closed hc => rw [ho] at hc; cases hc
  | refused hc => rw [ho] at hc; cases hc
  | unreadable hc => rw [ho] at hc; cases hc

/-- Once a connection has ended, nothing that may come matters. -/
theorem Leads.ended (h : Leads d c t s out ending s') (ho : c.isOpen = false) (t' : Bytes) :
    Leads d c t' s out ending s' := by
  cases h with
  | between hr => rw [isOpen, hr.isOpen] at ho; cases ho
  | inside hr => rw [isOpen, hr.isOpen] at ho; cases ho
  | closed hc => exact .closed hc
  | refused hc => exact .refused hc
  | unreadable hc hs => exact .unreadable hc hs

theorem Leads.between_of_due (h : Leads d c t s out ending s') (ho : c.isOpen = true)
    (hd : c.decoder = ⟨none⟩) :
    ∃ session, c.intake = none ∧ serve d c.client c.bounds (c.buffer ++ t) s = (session, s') ∧
      out = c.done ++ session.acts ∧ ending = session.ending := by
  cases h with
  | between _ _ hi hs => exact ⟨_, hi, hs, rfl, rfl⟩
  | inside _ hd' => rw [hd] at hd'; cases hd'
  | closed hc => rw [isOpen, hc] at ho; cases ho
  | refused hc => rw [isOpen, hc] at ho; cases ho
  | unreadable hc => rw [isOpen, hc] at ho; cases ho

theorem Leads.inside_of_due {due : Nat} (h : Leads d c t s out ending s') (ho : c.isOpen = true)
    (hd : c.decoder = ⟨some due⟩) :
    ∃ x session, c.intake = some x ∧ x.arrived = x.body.length ∧ x.arrived + due = x.announced ∧
      serveBody d c.client c.bounds x.request x.body (c.buffer ++ t) s = (session, s') ∧
      out = c.done ++ session.acts ∧ ending = session.ending := by
  cases h with
  | between _ hd' => rw [hd] at hd'; cases hd'
  | inside _ hd' hi harrived hdue hs =>
    rw [hd] at hd'
    cases hd'
    exact ⟨_, _, hi, harrived, hdue, hs, rfl, rfl⟩
  | closed hc => rw [isOpen, hc] at ho; cases ho
  | refused hc => rw [isOpen, hc] at ho; cases ho
  | unreadable hc => rw [isOpen, hc] at ho; cases ho

/-! ## Messages -/

/-- A head that was taken off the stream starts its request, or is refused. -/
theorem start_leads {head : Head} {length : Nat} {stream : Bytes} {session : Session}
    (hr : c.Ready) (hd : c.decoder = ⟨some length⟩)
    (hread : Head.read stream = .head head length (c.buffer ++ t))
    (hs : serve d c.client c.bounds stream s = (session, s')) :
    Leads d (c.start head) t s (c.done ++ session.acts) session.ending s' := by
  rw [serve_head d c.client c.bounds hread] at hs
  unfold start
  rw [Intake.ofHead_eq c.client c.bounds (Head.contentLength_of_read hread)]
  cases hadm : head.admitted length c.bounds with
  | error reason =>
    rw [hadm] at hs
    cases hs
    rw [List.append_nil]
    exact .refused (c := c.fail (.refused reason)) rfl
  | ok method =>
    rw [hadm] at hs
    obtain ⟨rfl, rfl⟩ := Prod.mk.inj hs
    let x : Intake := { request := head.request method c.client length [] }
    have hdue : x.arrived + length = x.announced := Nat.zero_add length
    change Leads d (if 0 < length && head.awaitsSign then
      ({ c with intake := some x } : Connection).write interim else { c with intake := some x }) t s
      _ _ _
    by_cases hsign : (0 < length && head.awaitsSign) = true
    · have hin : Leads d (({ c with intake := some x } : Connection).write interim) t s _ _ _ :=
        .inside ⟨hr.isOpen, hr.encoder, hr.idle, hr.block⟩ hd rfl rfl hdue rfl
      rw [done_write, List.append_assoc] at hin
      rw [if_pos hsign, Head.sign, if_pos hsign]
      exact hin
    · have hin : Leads d ({ c with intake := some x } : Connection) t s _ _ _ :=
        .inside ⟨hr.isOpen, hr.encoder, hr.idle, hr.block⟩ hd rfl rfl hdue rfl
      rw [if_neg hsign, Head.sign, if_neg hsign]
      exact hin

/-- A chunk of a body, as long as the body lets it be, is taken. -/
theorem take_leads {chunk : Bytes} {x : Intake} {due left : Nat} {session : Session}
    (hr : c.Ready) (hd : c.decoder = ⟨some left⟩) (harrived : x.arrived = x.body.length)
    (hdue : x.arrived + due = x.announced) (hleft : chunk.length + left = due)
    (hs : serveBody d c.client c.bounds x.request x.body (chunk ++ (c.buffer ++ t)) s =
      (session, s')) :
    ∃ y, x.take chunk = (if left = 0 then .whole else .partly, y) ∧
      Leads d { c with intake := some y } t s (c.done ++ session.acts) session.ending s' := by
  let y : Intake := { x with parts := chunk :: x.parts, arrived := x.arrived + chunk.length }
  have hbody : y.body = x.body ++ chunk := by simp [y, Intake.body]
  have hfits : chunk.length ≤ x.request.contentLength - x.body.length := by
    rw [Intake.due_eq harrived hdue]
    omega
  rw [← serveBody_append d _ _ _ _ _ _ hfits, ← hbody] at hs
  refine ⟨y, ?_, .inside ⟨hr.isOpen, hr.encoder, hr.idle, hr.block⟩ hd rfl ?_ ?_ hs⟩
  · have hwhole : x.arrived + chunk.length = x.announced ↔ left = 0 := by omega
    unfold Intake.take
    rw [if_neg (by omega)]
    simp only [hwhole, y]
  · rw [hbody, List.length_append, ← harrived]
  · change x.arrived + chunk.length + left = x.announced
    omega

/-- A body that is whole is answered, and the next request is due. -/
theorem complete_leads {x : Intake} {session : Session} (hr : c.Ready) (hd : c.decoder = ⟨none⟩)
    (harrived : x.arrived = x.body.length) (hwhole : x.arrived = x.announced)
    (hs : serveBody d c.client c.bounds x.request x.body (c.buffer ++ t) s = (session, s')) :
    Leads d (complete d x c s).1 t (complete d x c s).2 (c.done ++ session.acts)
      session.ending s' := by
  have hdue : x.request.contentLength - x.body.length = 0 := Intake.due_eq harrived hwhole
  have hclose : x.close = .ok { x.request with body := x.body } := if_pos hwhole
  unfold serveBody at hs
  simp only [hdue, Nat.not_lt_zero, if_false, List.take_zero, List.append_nil, List.drop_zero] at hs
  let request : Request := { x.request with body := x.body }
  cases hanswer : d.respond request s with
  | mk answer s₁ =>
  let called : Connection := { c with intake := none }.call request
  have hrun : complete d x c s =
      (called.write answer.render, (reportAll d answer.log s₁).2) := by
    unfold complete
    rw [hclose]
    simp only [bind_run]
    rw [hanswer]
    exact reply_eq d called _ _ hr.encoder
  cases hlater : serve d c.client c.bounds (c.buffer ++ t) (reportAll d answer.log s₁).2 with
  | mk later s₂ =>
  simp only [bind_run, pure_run] at hs
  rw [hanswer] at hs
  simp only [hlater] at hs
  obtain ⟨hsession, hstate⟩ := Prod.mk.inj hs
  subst hsession hstate
  have hnext : Leads d (called.write answer.render) t
      (reportAll d answer.log s₁).2 _ later.ending s₂ :=
    .between ⟨hr.isOpen, hr.encoder, hr.idle, hr.block⟩ hd rfl hlater
  rw [done_write, done_call, List.append_assoc, List.append_assoc] at hnext
  rw [hrun]
  exact hnext

/-- Where no head can come of the stream, the connection says so and ends. -/
theorem broken_leads (h : Leads d c t s out ending s') (ho : c.isOpen = true)
    (hd : c.decoder = ⟨none⟩) (hne : c.buffer ++ t ≠ [])
    (hread : ∀ head length rest, Head.read (c.buffer ++ t) ≠ .head head length rest)
    (cause : ParseFault) (rest : Bytes) :
    Leads d (broken d cause { c with buffer := rest } s).1 t
      (broken d cause { c with buffer := rest } s).2 out ending s' := by
  have hr := h.ready ho
  obtain ⟨session, hi, hs, rfl, rfl⟩ := h.between_of_due ho hd
  rw [serve_unreadable d c.client c.bounds hne hread] at hs
  cases hs
  rw [broken_eq d { c with buffer := rest } s cause hi hr.encoder hr.isOpen]
  have hend : Leads d ((({ c with buffer := rest } : Connection).write
      (Reply.bare .badRequest).render).fail (.parse cause)) t
        (d.report (noRequest c.client cause) s).2 _ .unreadable s := .unreadable rfl rfl
  change Leads d _ t _ (({ c with buffer := rest } : Connection).write
      (Reply.bare .badRequest).render).done _ _ at hend
  rw [done_write] at hend
  exact hend

/-- The connection once a message was taken off its buffer. -/
def after (c : Connection) (m : Message Head) (decoder : Decoder) (rest : Bytes) : Connection :=
  { c with
    decoder
    buffer := rest
    block := blockAfter m (c.buffer.length - rest.length) c.block
    since := c.now }

theorem Ready.after (h : c.Ready) (m : Message Head) (decoder : Decoder) (rest : Bytes)
    (hrest : rest.length ≤ c.buffer.length) : (c.after m decoder rest).Ready :=
  ⟨h.isOpen, h.encoder, h.idle, blockAfter_fits m h.block hrest⟩

/-- A message that is taken off the buffer and handled changes nothing of what the stream leads
to. -/
theorem handle_leads {m : Message Head} {decoder : Decoder} {rest : Bytes}
    (h : Leads d c t s out ending s') (ho : c.isOpen = true)
    (hn : Decoder.Next c.decoder c.buffer m decoder rest) :
    Leads d (handle d m (c.after m decoder rest) s).1 t (handle d m (c.after m decoder rest) s).2
      out ending s' := by
  have hr := h.ready ho
  generalize hd : c.decoder = due, hb : c.buffer = buffer at hn
  cases hn with
  | head hread =>
    subst hb
    obtain ⟨session, hi, hs, rfl, rfl⟩ := h.between_of_due ho hd
    have hrest := (Head.rest_of_read_head hread).2.le
    unfold handle
    rw [show (c.after _ _ _).intake = none from hi]
    exact start_leads (hr.after _ _ _ hrest) rfl (Head.read_head_append t hread) hs
  | @chunk _ due hne =>
    subst hb
    obtain ⟨x, session, hi, harrived, hdue, hs, rfl, rfl⟩ := h.inside_of_due ho hd
    have hlen : (c.buffer.take (due + 1)).length + (due + 1 - c.buffer.length) = due + 1 := by
      rw [List.length_take]
      omega
    rw [← List.take_append_drop (due + 1) c.buffer, List.append_assoc] at hs
    have hafter := hr.after (.chunk (c.buffer.take (due + 1))) ⟨some (due + 1 - c.buffer.length)⟩
      (c.buffer.drop (due + 1)) (by rw [List.length_drop]; omega)
    obtain ⟨y, hy, hleads⟩ := take_leads hafter rfl harrived hdue hlen hs
    unfold handle
    rw [show (c.after _ _ _).intake = some x from hi]
    simp only [hy]
    split
    · exact hleads
    · exact hleads
  | eof =>
    subst hb
    obtain ⟨x, session, hi, harrived, hdue, hs, rfl, rfl⟩ := h.inside_of_due ho hd
    unfold handle
    rw [show (c.after _ _ _).intake = some x from hi]
    exact complete_leads (hr.after .eof ⟨none⟩ c.buffer le_rfl) rfl harrived hdue hs

/-! What is done with a message has nothing to do with where messages come from, so it leaves the
reader where the message left it. -/

/-- A connection with the inlet of another: the bytes that wait, their block and reader, the clock
and its limit. -/
@[simps]
def withInlet (inlet c : Connection) : Connection :=
  { c with
    idle := inlet.idle
    now := inlet.now
    since := inlet.since
    buffer := inlet.buffer
    block := inlet.block
    decoder := inlet.decoder }

/-- Whether something that is done to a connection has nothing to do with its inlet. -/
def Apart (f : Connection → StateM δ Connection) : Prop :=
  ∀ inlet c s, f (withInlet inlet c) s = (withInlet inlet (f c s).1, (f c s).2)

theorem Apart.bind {f g : Connection → StateM δ Connection} (hf : Apart f) (hg : Apart g) :
    Apart fun c => f c >>= g := by
  intro inlet c s
  simp only [bind_run, hf inlet c s]
  exact hg inlet _ _

/-- The inlet stays as it is. -/
theorem Apart.kept {f : Connection → StateM δ Connection} (h : Apart f) (c : Connection) (s : δ) :
    (f c s).1 = withInlet c (f c s).1 :=
  congrArg Prod.fst (h c c s)

/-- Two connections that read on alike. -/
def SameReader (c c' : Connection) : Prop := c'.decoder = c.decoder ∧ c'.buffer = c.buffer

theorem Apart.sameReader {f : Connection → StateM δ Connection} (h : Apart f) (c : Connection)
    (s : δ) : SameReader c (f c s).1 := by
  rw [h.kept]
  exact ⟨rfl, rfl⟩

theorem reply_apart (r : Reply) : Apart (reply d r) := by
  intro inlet c s
  unfold reply
  simp only [bind_run, withInlet_encoder]
  cases (c.encoder.encodeAll r.messages).fault with
  | none => rfl
  | some cause => rfl

theorem refuse_apart (cause : ParseFault) : Apart (refuse d cause) := by
  refine (reply_apart _).bind fun inlet c s => ?_
  have hopen : (withInlet inlet c).isOpen = c.isOpen := rfl
  rw [hopen]
  cases c.isOpen with
  | false => rfl
  | true => rfl

theorem complete_apart (x : Intake) : Apart (complete d x) := by
  intro inlet c s
  unfold complete
  cases x.close with
  | error reason => rfl
  | ok request => exact reply_apart _ inlet ({ c with intake := none }.call request) _

theorem start_apart (head : Head) : Apart fun c => (pure (c.start head) : StateM δ Connection) := by
  intro inlet c s
  simp only [pure_run, start, withInlet_client, withInlet_bounds]
  cases Intake.ofHead head c.client c.bounds with
  | error reason => rfl
  | ok x =>
    simp only
    split
    · rfl
    · rfl

theorem handle_apart (m : Message Head) : Apart (handle d m) := by
  intro inlet c s
  unfold handle
  simp only [withInlet_intake, withInlet_client]
  cases c.intake with
  | none =>
    cases m with
    | head head length => exact start_apart head inlet c s
    | chunk bytes => exact refuse_apart _ inlet c _
    | eof => exact refuse_apart _ inlet c _
  | some x =>
    cases m with
    | head head length => rfl
    | chunk bytes =>
      simp only
      rcases x.take bytes with ⟨taken, y⟩
      cases taken with
      | partly => rfl
      | whole => rfl
      | refused reason => rfl
    | eof => exact complete_apart x inlet c s

theorem broken_apart (cause : ParseFault) : Apart (broken d cause) := by
  intro inlet c s
  unfold broken
  simp only [withInlet_intake, withInlet_client]
  cases c.intake with
  | some x => rfl
  | none => exact refuse_apart cause inlet c _

/-! ## Signals -/

/-- A stream that breaks ends its connection. -/
theorem broken_closed (cause : ParseFault) : (broken d cause c s).1.isOpen = false := by
  unfold broken
  cases c.intake with
  | some x => rfl
  | none =>
    simp only [refuse, bind_run, pure_run]
    split
    · rfl
    · next ho => simpa using ho

/-- With rounds enough, taking what the buffer holds goes on until the connection has ended or more
bytes are needed. -/
theorem pump_settled {rounds : Nat} (h : Decoder.weight c.decoder c.buffer < rounds) :
    (pump d rounds c s).1.isOpen = false ∨
      (pump d rounds c s).1.decoder.step (pump d rounds c s).1.buffer = .more := by
  induction rounds generalizing c s with
  | zero => exact absurd h (Nat.not_lt_zero _)
  | succ rounds ih =>
    unfold pump
    cases ho : c.isOpen with
    | false => exact .inl ho
    | true =>
      rw [if_pos rfl]
      cases hs : c.decoder.step c.buffer with
      | more => exact .inr hs
      | fault cause rest => exact .inl (broken_closed cause)
      | message m decoder rest =>
        have hweight := (Decoder.next_of_step hs).weight_lt
        obtain ⟨hdecoder, hbuffer⟩ :=
          (handle_apart (d := d) m).sameReader (c.after m decoder rest) s
        refine ih (c := (handle d m (c.after m decoder rest) s).1) ?_
        rw [hdecoder, hbuffer]
        change Decoder.weight decoder rest < rounds
        omega

/-- Nothing more can be taken off the buffer of a connection that is open. -/
def Settled (c : Connection) : Prop := c.isOpen = true → c.decoder.step c.buffer = .more

theorem settle_settled : (settle d c s).1.Settled := by
  intro ho
  obtain hclosed | hmore :=
    pump_settled (d := d) (s := s) (Decoder.weight_lt_rounds c.decoder c.buffer)
  · exact absurd (hclosed.symm.trans ho) Bool.false_ne_true
  · exact hmore

theorem receiveIn_settled (portions : Nat) (bytes : Bytes) (h : c.Settled) :
    (receiveIn d portions bytes c s).1.Settled := by
  induction portions generalizing bytes c s with
  | zero => exact h
  | succ portions ih =>
    unfold receiveIn
    split
    · exact h
    · exact ih _ settle_settled

/-- Taking what the buffer holds changes nothing of what the stream leads to. -/
theorem pump_leads (rounds : Nat) (h : Leads d c t s out ending s') :
    Leads d (pump d rounds c s).1 t (pump d rounds c s).2 out ending s' := by
  induction rounds generalizing c s with
  | zero => exact h
  | succ rounds ih =>
    unfold pump
    cases ho : c.isOpen with
    | false => exact h
    | true =>
      rw [if_pos rfl]
      cases hs : c.decoder.step c.buffer with
      | more => exact h
      | fault cause rest =>
        obtain ⟨hd, hread⟩ := Decoder.step_fault_iff.mp hs
        obtain ⟨_, _, hread', _⟩ := Head.read_fault_append t hread
        have hmin := Head.minHead_le_of_read (show Head.read c.buffer ≠ .more by rw [hread]; nofun)
        have hne : c.buffer ++ t ≠ [] := by
          intro he
          rw [(List.append_eq_nil_iff.mp he).1] at hmin
          exact absurd hmin (by decide)
        exact broken_leads h ho hd hne (fun _ _ _ => by rw [hread']; nofun) cause rest
      | message m decoder rest => exact ih (handle_leads h ho (Decoder.next_of_step hs))

/-- Bytes that arrive move from the stream into the buffer. -/
theorem Leads.arrive {block : Block} {count : Nat} {bytes : Bytes}
    (h : Leads d c (bytes ++ t) s out ending s')
    (hready : Ready { c with block, buffer := c.buffer ++ bytes.take count }) :
    Leads d { c with block, buffer := c.buffer ++ bytes.take count } (bytes.drop count ++ t) s
      out ending s' := by
  have hstream : (c.buffer ++ bytes.take count) ++ (bytes.drop count ++ t) =
      c.buffer ++ (bytes ++ t) := by
    rw [List.append_assoc, ← List.append_assoc (bytes.take count), List.take_append_drop]
  cases h with
  | between _ hd hi hs => exact .between hready hd hi (hstream ▸ hs)
  | inside _ hd hi harrived hdue hs => exact .inside hready hd hi harrived hdue (hstream ▸ hs)
  | closed hc => exact .closed hc
  | refused hc => exact .refused hc
  | unreadable hc hs => exact .unreadable hc hs

/-- Bytes that arrive are bytes that were to come. -/
theorem receiveIn_leads {portions : Nat} {bytes : Bytes} (hp : bytes.length ≤ portions)
    (h : Leads d c (bytes ++ t) s out ending s') :
    Leads d (receiveIn d portions bytes c s).1 t (receiveIn d portions bytes c s).2 out ending
      s' := by
  induction portions generalizing bytes c s with
  | zero =>
    rw [List.length_eq_zero_iff.mp (Nat.le_zero.mp hp), List.nil_append] at h
    exact h
  | succ portions ih =>
    unfold receiveIn
    by_cases hidle : bytes = [] ∨ (!c.isOpen) = true
    · rw [if_pos hidle]
      obtain rfl | hclosed := hidle
      · exact h
      · exact h.ended (by simpa using hclosed) t
    · rw [if_neg hidle]
      have ho : c.isOpen = true := by
        cases hc : c.isOpen with
        | true => rfl
        | false => exact absurd (.inr (by rw [hc]; rfl)) hidle
      have hr := h.ready ho
      have hroom := hr.block.forMore
      simp only [bind_run]
      generalize hblock : c.block.forMore c.buffer.length = block at hroom ⊢
      generalize hcount : block.room c.buffer.length = room at hroom ⊢
      have hready : Ready { c with block, buffer := c.buffer ++ bytes.take room } :=
        ⟨hr.isOpen, hr.encoder, hr.idle, by
          rw [List.length_append]
          exact Block.fits_of_room (hcount ▸ hroom) (by rw [hcount, List.length_take]; omega)⟩
      refine ih ?_ (pump_leads _ (h.arrive hready))
      rw [List.length_drop]
      have hpos : 0 < bytes.length :=
        List.length_pos_iff.mpr fun he => hidle (.inl he)
      omega

/-- Without an idle limit, or once the connection has ended, time does nothing. -/
theorem pass_eq (millis : Nat) (h : c.isOpen = true → c.idle = none) :
    pass d millis c s = ({ c with now := c.now + millis }, s) := by
  unfold pass
  simp only
  cases hidle : c.idle with
  | none => rfl
  | some idle =>
    have hclosed : ({ c with now := c.now + millis, idle := some idle } : Connection).isOpen =
        false := by
      cases ho : c.isOpen with
      | true => rw [h ho] at hidle; cases hidle
      | false => exact ho
    simp only [hclosed, Bool.false_and]
    rfl

theorem pass_leads (millis : Nat) (h : Leads d c t s out ending s') :
    Leads d (pass d millis c s).1 t (pass d millis c s).2 out ending s' := by
  rw [pass_eq millis fun ho => (h.ready ho).idle]
  cases h with
  | between hr hd hi hs => exact .between ⟨hr.isOpen, hr.encoder, hr.idle, hr.block⟩ hd hi hs
  | inside hr hd hi harrived hdue hs =>
    exact .inside ⟨hr.isOpen, hr.encoder, hr.idle, hr.block⟩ hd hi harrived hdue hs
  | closed hc => exact .closed hc
  | refused hc => exact .refused hc
  | unreadable hc hs => exact .unreadable hc hs

/-- A body that the stream ends in is refused as cut short. -/
theorem starved_leads {due : Nat} (h : Leads d c [] s out ending s') (ho : c.isOpen = true)
    (hd : c.decoder = ⟨some (due + 1)⟩) (hb : c.buffer = []) :
    ∃ x, c.intake = some x ∧
      Leads d (complete d x c s).1 [] (complete d x c s).2 out ending s' ∧
      (complete d x c s).1.isOpen = false := by
  obtain ⟨x, session, hi, harrived, hdue, hs, rfl, rfl⟩ := h.inside_of_due ho hd
  have hshort : ¬x.arrived = x.announced := by omega
  have hclose : x.close = .error (.bodyCutShort x.arrived x.announced) := if_neg hshort
  refine ⟨x, hi, ?_⟩
  rw [List.append_nil, hb] at hs
  unfold serveBody at hs
  rw [Intake.due_eq harrived hdue] at hs
  simp only [List.length_nil, Nat.zero_lt_succ, if_true, Nat.add_zero] at hs
  cases hs
  rw [List.append_nil]
  simp only [complete, hclose]
  rw [← harrived]
  exact ⟨.refused (c := c.fail (.refused (.bodyCutShort x.arrived x.announced))) rfl, rfl⟩

/-- At the end of the stream nothing is to come any more: a body that is being read was cut short,
and bytes left over are no request. -/
theorem finish_leads (h : Leads d c [] s out ending s') :
    Leads d (finish d c s).1 [] (finish d c s).2 out ending s' ∧
      (finish d c s).1.isOpen = false := by
  have hleads : Leads d (settle d c s).1 [] (settle d c s).2 out ending s' := pump_leads _ h
  have hsettled := settle_settled (d := d) (c := c) (s := s)
  unfold finish
  rw [bind_run]
  generalize (settle d c s).1 = c₁, (settle d c s).2 = s₁ at hleads hsettled ⊢
  cases ho : c₁.isOpen with
  | false => exact ⟨hleads, ho⟩
  | true =>
    simp only [Bool.not_true, Bool.false_eq_true, if_false]
    obtain ⟨hd, hread⟩ | ⟨due, hd, hb⟩ := Decoder.step_more_iff.mp (hsettled ho)
    · by_cases hb : c₁.buffer = []
      · obtain ⟨session, hi, hs, rfl, rfl⟩ := hleads.between_of_due ho hd
        rw [List.append_nil, hb, serve_nil] at hs
        cases hs
        rw [if_neg (not_not.mpr hb), hi, List.append_nil]
        exact ⟨.closed (c := c₁.close) rfl, rfl⟩
      · rw [if_pos hb]
        have hall : c₁.buffer ++ [] = c₁.buffer := List.append_nil _
        exact ⟨broken_leads hleads ho hd (by rwa [hall])
          (fun _ _ _ => by rw [hall, hread]; nofun) _ c₁.buffer, broken_closed _⟩
    · obtain ⟨x, hi, hcompleted, hclosed⟩ := starved_leads hleads ho hd hb
      rw [if_neg (not_not.mpr hb), hi]
      simp only [bind_run, pure_run, hclosed, Bool.false_eq_true, if_false]
      exact ⟨hcompleted, trivial⟩

/-! ## Runs -/

/-- The bytes that signals bring. -/
def received (signals : List Signal) : Bytes :=
  signals.flatMap fun
    | .bytes b => b
    | _ => []

theorem run_append (signals later : List Signal) (c : Connection) (s : δ) :
    run d (signals ++ later) c s = run d later (run d signals c s).1 (run d signals c s).2 := by
  induction signals generalizing c s with
  | nil => rfl
  | cons signal signals ih => exact ih _ _

/-- A run of bytes and time, while the client stays. -/
theorem run_leads {signals : List Signal} (hopen : .ended ∉ signals) (hc : c.Settled)
    (h : Leads d c (received signals ++ t) s out ending s') :
    Leads d (run d signals c s).1 t (run d signals c s).2 out ending s' ∧
      (run d signals c s).1.Settled := by
  induction signals generalizing c s with
  | nil => exact ⟨h, hc⟩
  | cons signal signals ih =>
    rw [List.mem_cons, not_or] at hopen
    cases signal with
    | bytes b =>
      have hb : Leads d c (b ++ (received signals ++ t)) s out ending s' := by
        rwa [← List.append_assoc]
      exact ih hopen.2 (receiveIn_settled _ _ hc) (receiveIn_leads le_rfl hb)
    | time millis =>
      have hpassed : (pass d millis c s).1.Settled := by
        rw [pass_eq millis fun ho => (h.ready ho).idle]
        exact hc
      exact ih hopen.2 hpassed (pass_leads millis h)
    | ended => exact absurd rfl hopen.1

/-- While more may come, a connection has done all that the bytes so far lead to; only what is no
request yet is not answered so far. -/
theorem Leads.waiting (h : Leads d c [] s out ending s') (hc : c.Settled) :
    (c.done = out ∨
      ending = .unreadable ∧ c.isOpen = true ∧ out = c.done ++ [.badRequest]) ∧
      (c.isOpen = true → s = s') := by
  cases ho : c.isOpen with
  | false =>
    refine ⟨.inl ?_, nofun⟩
    cases h with
    | between hr => rw [isOpen, hr.isOpen] at ho; cases ho
    | inside hr => rw [isOpen, hr.isOpen] at ho; cases ho
    | _ => rfl
  | true =>
    obtain ⟨hd, hread⟩ | ⟨due, hd, hb⟩ := Decoder.step_more_iff.mp (hc ho)
    · obtain ⟨session, -, hs, rfl, rfl⟩ := h.between_of_due ho hd
      rw [List.append_nil] at hs
      by_cases hb : c.buffer = []
      · rw [hb, serve_nil] at hs
        cases hs
        exact ⟨.inl (List.append_nil _).symm, fun _ => rfl⟩
      · rw [serve_unreadable d c.client c.bounds hb fun _ _ _ => by rw [hread]; nofun] at hs
        cases hs
        exact ⟨.inr ⟨rfl, rfl, rfl⟩, fun _ => rfl⟩
    · obtain ⟨x, session, -, harrived, hdue, hs, rfl, rfl⟩ := h.inside_of_due ho hd
      rw [List.append_nil, hb] at hs
      unfold serveBody at hs
      rw [Intake.due_eq harrived hdue] at hs
      simp only [List.length_nil, Nat.zero_lt_succ, if_true] at hs
      cases hs
      exact ⟨.inl (List.append_nil _).symm, fun _ => rfl⟩

/-- How a connection has ended, where `serve` knows of it. -/
def ending? (c : Connection) : Option Ending :=
  match c.outcome with
  | some (.ok ()) => some .closed
  | some (.error (.parse _)) => some .unreadable
  | some (.error (.refused reason)) => some (.refused reason)
  | _ => none

/-- A connection that has ended did so where the stream led it. Where that was no request, the
state differs by the report of it. -/
theorem Leads.of_ended (h : Leads d c t s out ending s') (ho : c.isOpen = false) :
    c.done = out ∧ c.ending? = some ending ∧ (ending ≠ .unreadable → s = s') ∧
      (ending = .unreadable → ∃ cause, s = (d.report (noRequest c.client cause) s').2) := by
  cases h with
  | between hr => rw [isOpen, hr.isOpen] at ho; cases ho
  | inside hr => rw [isOpen, hr.isOpen] at ho; cases ho
  | closed hc => exact ⟨rfl, by rw [ending?, hc], fun _ => rfl, nofun⟩
  | refused hc => exact ⟨rfl, by rw [ending?, hc], fun _ => rfl, nofun⟩
  | unreadable hc hs =>
    exact ⟨rfl, by rw [ending?, hc], fun hne => absurd rfl hne, fun _ => ⟨_, hs⟩⟩

theorem reportAll_recording (log : List Event) (calls : List Request) :
    reportAll d.recording log (s, calls) = ((), (reportAll d log s).2, calls) := by
  induction log generalizing s with
  | nil => rfl
  | cons event log ih => exact ih

end Connection

open Connection (bind_run pure_run reportAll_recording)

/-- Whether a recording responder does what the one it records does, and its list grows by the
calls. -/
def Recorded (run : StateM δ Session) (recording : StateM (δ × List Request) Session) : Prop :=
  ∀ s calls, recording (s, calls) = ((run s).1, (run s).2, calls ++ (run s).1.calls)

theorem recorded_pure (session : Session) (h : session.calls = []) :
    Recorded (pure session : StateM δ Session) (pure session) := by
  intro s calls
  simp only [pure_run, h, List.append_nil]

/-- What is only written in front of a session calls nobody. -/
theorem Recorded.behind {run : StateM δ Session} {recording : StateM (δ × List Request) Session}
    (h : Recorded run recording) {acts : List Act} (hacts : acts.filterMap Act.request? = []) :
    Recorded (do return (← run).behind acts) (do return (← recording).behind acts) := by
  intro s calls
  simp only [bind_run, pure_run, h s calls, Session.calls, Session.behind, List.filterMap_append,
    hacts, List.nil_append]

theorem Head.request?_sign (head : Head) (length : Nat) :
    (head.sign length).filterMap Act.request? = [] := by
  unfold sign
  split <;> rfl

theorem recorded_serveBody (d : Responder δ) (client : Address) (bounds : Bounds)
    (request : Request) (arrived rest : Bytes)
    (h : ∀ stream, stream.length ≤ rest.length →
      Recorded (serve d client bounds stream) (serve d.recording client bounds stream)) :
    Recorded (serveBody d client bounds request arrived rest)
      (serveBody d.recording client bounds request arrived rest) := by
  unfold serveBody
  simp only
  split
  · exact recorded_pure _ rfl
  · intro s calls
    have hrest := h (rest.drop (request.contentLength - arrived.length)) (by simp)
    generalize ({ request with body := _ } : Request) = whole
    have hcall : d.recording.respond whole (s, calls) =
        ((d.respond whole s).1, (d.respond whole s).2, calls ++ [whole]) := rfl
    simp only [bind_run, hcall, reportAll_recording, pure_run, hrest _ _, Session.calls,
      Session.behind, List.append_assoc]
    rfl

/-- A recording responder serves as the one it records, and its list holds the calls. -/
theorem recorded_serve (d : Responder δ) (client : Address) (bounds : Bounds) (stream : Bytes) :
    Recorded (serve d client bounds stream) (serve d.recording client bounds stream) := by
  induction hn : stream.length using Nat.strongRecOn generalizing stream with
  | _ n ih =>
    by_cases hne : stream = []
    · rw [hne, serve_nil, serve_nil]
      exact recorded_pure _ rfl
    · cases hread : Head.read stream with
      | more =>
        have hno (head length rest) : Head.read stream ≠ .head head length rest := by
          rw [hread]; nofun
        rw [serve_unreadable _ _ _ hne hno, serve_unreadable _ _ _ hne hno]
        exact recorded_pure _ rfl
      | fault e rest =>
        have hno (head length rest) : Head.read stream ≠ .head head length rest := by
          rw [hread]; nofun
        rw [serve_unreadable _ _ _ hne hno, serve_unreadable _ _ _ hne hno]
        exact recorded_pure _ rfl
      | head head length rest =>
        rw [serve_head _ _ _ hread, serve_head _ _ _ hread]
        cases head.admitted length bounds with
        | error reason => exact recorded_pure _ rfl
        | ok method =>
          have hlt := (Head.rest_of_read_head hread).2
          refine Recorded.behind (recorded_serveBody d client bounds _ _ _ fun later hlater => ?_)
            (head.request?_sign length)
          exact ih later.length (by omega) later rfl

namespace Connection

/-- What the bytes so far lead to is what a new connection without an idle limit stands before. -/
theorem fresh_leads (d : Responder δ) (client : Address) (bounds : Bounds) {signals : List Signal}
    (hopen : .ended ∉ signals) (s : δ) :
    let waiting := run d signals { client, bounds, idle := none } s
    let served := serve d client bounds (received signals) s
    Leads d waiting.1 [] waiting.2 served.1.acts served.1.ending served.2 ∧
      waiting.1.Settled := by
  intro waiting served
  have hready : Ready { client, bounds, idle := none } :=
    ⟨rfl, rfl, rfl, ⟨show 0 < 8192 by decide, show 0 + 0 ≤ 8192 by decide⟩⟩
  have hleads : Leads d { client, bounds, idle := none } (received signals ++ []) s served.1.acts
      served.1.ending served.2 := by
    rw [List.append_nil]
    exact .between hready rfl rfl rfl
  exact run_leads hopen (fun _ => Decoder.step_nil) hleads

/-- A new connection without an idle limit comes to what `serve` says of its stream. -/
theorem run_fresh (d : Responder δ) (client : Address) (bounds : Bounds) {signals : List Signal}
    (hopen : .ended ∉ signals) (s : δ) :
    let ended := run d (signals ++ [.ended]) { client, bounds, idle := none } s
    let served := serve d client bounds (received signals) s
    ended.1.done = served.1.acts ∧ ended.1.ending? = some served.1.ending ∧
      (served.1.ending ≠ .unreadable → ended.2 = served.2) ∧
      (served.1.ending = .unreadable →
        ∃ cause, ended.2 = (d.report (noRequest ended.1.client cause) served.2).2) := by
  obtain ⟨hleads, -⟩ := fresh_leads d client bounds hopen s
  obtain ⟨hend, hclosed⟩ := finish_leads hleads
  rw [run_append]
  exact hend.of_ended hclosed

/-- **A connection serves its stream request by request.** However the bytes are cut and delayed,
what it does and in which order, what is written, how the connection ends and which requests are
answered, is what `serve` says of the whole stream: a reply is written before the next request is
handed on. While the client stays nothing is held back: all that `serve` says of the bytes so far
has been done, but that what is no request yet is answered only at the end. The state left behind is
that of `serve` too; only where no request was found, what is reported of it may depend on how much
had arrived. -/
theorem run_serves (d : Responder δ) (client : Address) (bounds : Bounds) (signals : List Signal)
    (hopen : .ended ∉ signals) (s : δ) :
    let fresh : Connection := { client, bounds, idle := none }
    let waiting := run d signals fresh s
    let ended := run d (signals ++ [.ended]) fresh s
    let recorded := run d.recording (signals ++ [.ended]) fresh (s, [])
    let served := serve d client bounds (received signals) s
    ended.1.done = served.1.acts ∧
      ended.1.sent = served.1.sent ∧ ended.1.ending? = some served.1.ending ∧
      recorded.2.2 = served.1.calls ∧
      (served.1.ending ≠ .unreadable → ended.2 = served.2) ∧
      (served.1.ending = .unreadable →
        ∃ cause, ended.2 = (d.report (noRequest ended.1.client cause) served.2).2) ∧
      (waiting.1.done = served.1.acts ∨
        served.1.ending = .unreadable ∧ waiting.1.isOpen = true ∧
          served.1.acts = waiting.1.done ++ [.badRequest]) ∧
      (waiting.1.isOpen = true → waiting.2 = served.2) := by
  intro fresh waiting ended recorded served
  obtain ⟨hdone, hending, hsame, hreport⟩ := run_fresh d client bounds hopen s
  obtain ⟨_, _, hsame', hreport'⟩ := run_fresh d.recording client bounds hopen (s, [])
  rw [recorded_serve d client bounds (received signals) s []] at hsame' hreport'
  have hcalls : recorded.2.2 = served.1.calls := by
    by_cases hread : served.1.ending = .unreadable
    · obtain ⟨cause, hstate⟩ := hreport' hread
      exact congrArg Prod.snd hstate
    · exact congrArg Prod.snd (hsame' hread)
  obtain ⟨hleads, hsettled⟩ := fresh_leads d client bounds hopen s
  obtain ⟨hwaits, hstate⟩ := hleads.waiting hsettled
  exact ⟨hdone, congrArg (List.flatMap Act.bytes) hdone, hending, hcalls, hsame, hreport, hwaits,
    hstate⟩

/-- Two requests, the first with a body whose sender waits for the sign, in three pieces with time
between them, and then bytes that are no request. The reply to the first is written before the
second is handed on. -/
theorem run_serves_pieces :
    let text := Text.Utf8.encode
    let echo : Responder Unit :=
      { respond := fun request => pure { status := .ok, body := request.body }
        report := fun _ => pure () }
    let signals : List Signal :=
      [.bytes (text "POST /a HTTP/1.1\r\nExpect: 100-continue\r\nContent-Le"), .time 70000,
        .bytes (text "ngth: 3\r\n\r\nab"), .time 5, .bytes (text "cGET /b HTTP/1.1\r\n\r\nGET /")]
    let fresh : Connection := { client := .v4 127 0 0 1, bounds := {}, idle := none }
    let served := serve echo fresh.client fresh.bounds (received signals) ()
    .ended ∉ signals ∧
      (run echo (signals ++ [.ended]) fresh ()).1.done = served.1.acts ∧
      served.1.acts.map (fun act => act.request?.map Request.path) =
        [none, some "/a", none, some "/b", none, none] ∧
      (run echo (signals ++ [.ended]) fresh ()).1.sent = served.1.sent ∧
      served.1.sent =
        text ("HTTP/1.1 100 Continue\r\n\r\nHTTP/1.1 200 OK\r\ncontent-length: 3\r\n\r\nabc" ++
          "HTTP/1.1 200 OK\r\ncontent-length: 0\r\n\r\n" ++
          "HTTP/1.1 400 Bad Request\r\ncontent-length: 0\r\n\r\n") := by
  intro text echo signals fresh served
  have hopen : .ended ∉ signals := by simp [signals]
  obtain ⟨hdone, hsent, -⟩ := run_serves echo fresh.client fresh.bounds signals hopen ()
  refine ⟨hopen, hdone, ?_, hsent, hsent.symm.trans ?_⟩
  · rw [← hdone]
    decide +kernel
  · decide +kernel

end Connection

end Depot.Http
