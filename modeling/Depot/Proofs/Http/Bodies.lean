import Depot.Proofs.Http.Serving
import Depot.Proofs.Steps

/-! # The reader and the intake agree on every body

How long a body is, is told twice: the reader that cuts the stream into messages tells it by its own
look at the fields of the head, and the intake that gathers the body by another. Each keeps a count
of its own. They agree on every stream and every cut of it (`bodies_agree`): heads and bodies take
turns, an intake takes every chunk and tells the last one from the others, and a connection never
comes to the faults that stand for a disagreement. -/

namespace Depot.Http

/-! ## What is delivered of one request -/

/-- What a reader has delivered of a request: its head with the length of its body, the body in
chunks, and whether the end of the body was among it. -/
structure Delivered where
  head : Head
  length : Nat
  chunks : List Bytes := []
  ended : Bool := false

namespace Delivered

/-- The messages of a body. -/
def bodyMessages (chunks : List Bytes) (ended : Bool) : List (Message Head) :=
  chunks.map .chunk ++ if ended then [.eof] else []

def messages (r : Delivered) : List (Message Head) :=
  .head r.head r.length :: bodyMessages r.chunks r.ended

/-- So many bytes of the body are due. -/
structure Due (r : Delivered) (due : Nat) : Prop where
  announced : r.head.fields.contentLength?.getD 0 = r.length
  nonempty : ∀ chunk ∈ r.chunks, chunk ≠ []
  length_eq : r.chunks.flatten.length + due = r.length

theorem head_of_mem {r : Delivered} {head : Head} {length : Nat}
    (h : .head head length ∈ r.messages) : head = r.head := by
  rw [messages, List.mem_cons] at h
  obtain h | h := h
  · cases h
    rfl
  · unfold bodyMessages at h
    split at h <;> simp at h

/-- A request that has been delivered to its end. -/
structure Whole (r : Delivered) : Prop where
  due : r.Due 0
  ended : r.ended = true

end Delivered

namespace Decoder

open Delivered (Whole)

/-- Requests that were delivered one behind the other, and the reader behind them: it waits for the
next head, or the last of them is still due in part. -/
inductive Stands : List Delivered → Decoder → Prop
  | between {requests : List Delivered} : (∀ r ∈ requests, Whole r) → Stands requests ⟨none⟩
  | inside {requests : List Delivered} {r : Delivered} {due : Nat} : (∀ r ∈ requests, Whole r) →
      r.Due due → r.ended = false → Stands (requests ++ [r]) ⟨some due⟩

variable {d d' : Decoder} {b b' : Bytes} {m : Message Head} {requests : List Delivered}

theorem flatMap_concat (requests : List Delivered) (r : Delivered) :
    (requests ++ [r]).flatMap Delivered.messages =
      requests.flatMap Delivered.messages ++ r.messages := by
  rw [List.flatMap_append, List.flatMap_singleton]

/-- A message belongs to the request that is due. -/
theorem Next.stands (h : Next d b m d' b') (hs : Stands requests d) :
    ∃ requests', requests'.flatMap Delivered.messages =
      requests.flatMap Delivered.messages ++ [m] ∧ Stands requests' d' := by
  cases h with
  | @head _ _ head length hread =>
    cases hs with
    | between hwhole =>
      refine ⟨requests ++ [⟨head, length, [], false⟩], flatMap_concat _ _, .inside hwhole ?_ rfl⟩
      exact ⟨Head.contentLength_of_read hread, nofun, Nat.zero_add length⟩
  | @chunk _ due hne =>
    cases hs with
    | @inside requests r _ hwhole hdue hended =>
      refine ⟨requests ++ [{ r with chunks := r.chunks ++ [b.take (due + 1)] }], ?_,
        .inside hwhole ⟨hdue.announced, ?_, ?_⟩ hended⟩
      · simp [Delivered.messages, Delivered.bodyMessages, hended]
      · rw [List.forall_mem_append]
        refine ⟨hdue.nonempty, ?_⟩
        simpa using hne
      · have hlength := hdue.length_eq
        simp only [List.flatten_append, List.flatten_cons, List.flatten_nil, List.append_nil,
          List.length_append, List.length_take]
        omega
  | eof =>
    cases hs with
    | @inside requests r _ hwhole hdue hended =>
      refine ⟨requests ++ [{ r with ended := true }], ?_, .between ?_⟩
      · simp [Delivered.messages, Delivered.bodyMessages, hended]
      · rw [List.forall_mem_append]
        refine ⟨hwhole, ?_⟩
        rw [List.forall_mem_singleton]
        exact ⟨⟨hdue.announced, hdue.nonempty, hdue.length_eq⟩, rfl⟩

/-- What is read of a buffer goes on where the requests before it stopped. -/
theorem read_stands (hs : Stands requests d) (b : Bytes) :
    ∃ requests', requests'.flatMap Delivered.messages =
      requests.flatMap Delivered.messages ++ (d.read b).messages ∧
      Stands requests' (d.read b).decoder := by
  induction hw : weight d b using Nat.strongRecOn generalizing d b requests with
  | _ w ih =>
    obtain ⟨_, hr⟩ | ⟨e, rest, _, _, hr⟩ | ⟨m, d', b', hn, hr⟩ := read_cases d b
    · exact ⟨requests, by rw [hr, List.append_nil], by rw [hr]; exact hs⟩
    · exact ⟨requests, by rw [hr, List.append_nil], by rw [hr]; exact hs⟩
    · obtain ⟨requests₁, hmessages₁, hs₁⟩ := hn.stands hs
      obtain ⟨requests₂, hmessages₂, hs₂⟩ := ih _ (hw ▸ hn.weight_lt) hs₁ b' rfl
      refine ⟨requests₂, ?_, by rw [hr]; exact hs₂⟩
      rw [hmessages₂, hmessages₁, hr, List.append_assoc]
      rfl

theorem feed_stands (hs : Stands requests d) (b : Bytes) (chunks : List Bytes) :
    ∃ requests', requests'.flatMap Delivered.messages =
      requests.flatMap Delivered.messages ++ (d.feed b chunks).messages ∧
      Stands requests' (d.feed b chunks).decoder := by
  induction chunks generalizing d b requests with
  | nil => exact ⟨requests, (List.append_nil _).symm, hs⟩
  | cons chunk chunks ih =>
    obtain ⟨requests₁, hmessages₁, hs₁⟩ := read_stands hs (b ++ chunk)
    rw [feed_cons]
    split
    · exact ⟨requests₁, hmessages₁, hs₁⟩
    · obtain ⟨requests₂, hmessages₂, hs₂⟩ := ih hs₁ (d.read (b ++ chunk)).rest
      refine ⟨requests₂, ?_, hs₂⟩
      rw [hmessages₂, hmessages₁, List.append_assoc]
      rfl

/-- A run ends between two requests, or inside a body of which bytes are due. -/
theorem feed_settled (h : d.step b = .more) (chunks : List Bytes) :
    (d.feed b chunks).decoder ≠ ⟨some 0⟩ := by
  intro hdone
  cases hf : (d.feed b chunks).fault with
  | some e =>
    obtain ⟨_, _, _, _, _, _, _, _, hnone⟩ := yields_of_feed h hf
    rw [hdone] at hnone
    cases hnone
  | none =>
    have halike := feed_cut h hf
    have hmore := step_of_read (halike.fault.trans hf)
    rw [halike.decoder, hdone] at hmore
    cases hmore

/-- All requests but the last are whole, and of the last one bytes are due unless its end was
delivered. -/
theorem Stands.settled (hs : Stands requests d) (hd : d ≠ ⟨some 0⟩) :
    (∀ r ∈ requests.dropLast, r.ended = true) ∧
      ∀ r ∈ requests, ∃ due, r.Due due ∧ (r.ended = true ↔ due = 0) := by
  cases hs with
  | between hwhole =>
    exact ⟨fun r hr => (hwhole r (List.dropLast_subset _ hr)).ended,
      fun r hr => ⟨0, (hwhole r hr).due, iff_of_true (hwhole r hr).ended rfl⟩⟩
  | @inside before r due hwhole hdue hended =>
    rw [List.dropLast_concat]
    refine ⟨fun r hr => (hwhole r hr).ended, ?_⟩
    rw [List.forall_mem_append, List.forall_mem_singleton]
    refine ⟨fun r hr => ⟨0, (hwhole r hr).due, iff_of_true (hwhole r hr).ended rfl⟩, due, hdue, ?_⟩
    have hleft : due ≠ 0 := fun hz => hd (by rw [hz])
    exact iff_of_false (by rw [hended]; exact Bool.false_ne_true) hleft

end Decoder

/-! ## What an intake makes of it -/

/-- What the messages say of each chunk: it makes its body whole if the end is the next message. -/
def Message.verdicts : List (Message Head) → List Taken
  | [] => []
  | .chunk _ :: ms => (if ms.head? = some .eof then .whole else .partly) :: verdicts ms
  | _ :: ms => verdicts ms

/-- A chunk is the last of its body if no byte is due behind it: every other chunk has one. -/
theorem Message.verdicts_cons {chunk : Bytes} {chunks : List Bytes} {due : Nat} {ended : Bool}
    (hne : ∀ chunk ∈ chunks, chunk ≠ []) (hended : ended = true ↔ due = 0) :
    verdicts (Delivered.bodyMessages (chunk :: chunks) ended) =
      (if chunks.flatten.length + due = 0 then .whole else .partly) ::
        verdicts (Delivered.bodyMessages chunks ended) := by
  have hlast : (Delivered.bodyMessages chunks ended).head? = some .eof ↔
      chunks.flatten.length + due = 0 := by
    cases chunks with
    | nil =>
      rw [List.flatten_nil, List.length_nil, Nat.zero_add, ← hended]
      cases ended with
      | true => exact iff_of_true rfl rfl
      | false => exact iff_of_false nofun nofun
    | cons next chunks =>
      have hpos := List.length_pos_iff.mpr (hne next List.mem_cons_self)
      refine iff_of_false nofun ?_
      rw [List.flatten_cons, List.length_append]
      omega
  have hstep : verdicts (Delivered.bodyMessages (chunk :: chunks) ended) =
      (if (Delivered.bodyMessages chunks ended).head? = some .eof then .whole else .partly) ::
        verdicts (Delivered.bodyMessages chunks ended) := rfl
  simp only [hstep, hlast]

namespace Intake

/-- Takes one chunk after another and keeps on, whatever is said of them. -/
def takeEach (x : Intake) : List Bytes → List Taken × Intake
  | [] => ([], x)
  | chunk :: chunks =>
    let later := (x.take chunk).2.takeEach chunks
    ((x.take chunk).1 :: later.1, later.2)

/-- An intake and the reader agree on what was delivered of a request. -/
structure Agrees (x : Intake) (r : Delivered) : Prop where
  announced : x.announced = r.length
  verdicts : (x.takeEach r.chunks).1 = Message.verdicts r.messages
  /-- The intake closes at the end of the body, and nowhere else. -/
  closes : (∃ request, (x.takeEach r.chunks).2.close = .ok request) ↔
    r.ended = true ∨ r.length = 0
  body : ∀ request, (x.takeEach r.chunks).2.close = .ok request → request.body = r.chunks.flatten

/-- A chunk within the announced length is taken. -/
theorem take_due {x : Intake} {chunk : Bytes} {due : Nat}
    (h : x.arrived + (chunk.length + due) = x.announced) :
    x.take chunk = (if due = 0 then .whole else .partly,
      { x with parts := chunk :: x.parts, arrived := x.arrived + chunk.length }) := by
  have hwhole : x.arrived + chunk.length = x.announced ↔ due = 0 := by omega
  unfold take
  rw [if_neg (by omega)]
  simp only [hwhole]

/-- The verdicts on the chunks of a body are those of the reader. Each chunk has a byte, so none but
the last can reach the announced length. -/
theorem takeEach_due {x : Intake} {chunks : List Bytes} {due : Nat} {ended : Bool}
    (h : x.arrived + (chunks.flatten.length + due) = x.announced)
    (hne : ∀ chunk ∈ chunks, chunk ≠ []) (hended : ended = true ↔ due = 0) :
    x.takeEach chunks =
      (Message.verdicts (Delivered.bodyMessages chunks ended),
        { x with
          parts := chunks.reverse ++ x.parts
          arrived := x.arrived + chunks.flatten.length }) := by
  induction chunks generalizing x with
  | nil => cases ended <;> rfl
  | cons chunk chunks ih =>
    rw [List.forall_mem_cons] at hne
    rw [List.flatten_cons, List.length_append, Nat.add_assoc] at h
    simp only [takeEach, take_due h]
    rw [ih ((Nat.add_assoc ..).trans h) hne.2]
    simp only [Message.verdicts_cons hne.2 hended, List.reverse_cons, List.append_assoc,
      List.cons_append, List.nil_append, List.flatten_cons, List.length_append, Nat.add_assoc]

theorem close_iff (x : Intake) : (∃ request, x.close = .ok request) ↔ x.arrived = x.announced := by
  unfold close
  by_cases hall : x.arrived = x.announced
  · rw [if_pos hall]
    exact iff_of_true ⟨_, rfl⟩ hall
  · rw [if_neg hall]
    exact iff_of_false nofun hall

/-- A fresh intake has nothing of the body yet, and asks for the announced length. -/
theorem fresh_of_ofHead {head : Head} {client : Address} {bounds : Bounds} {x : Intake}
    (h : ofHead head client bounds = .ok x) :
    x.parts = [] ∧ x.arrived = 0 ∧ x.announced = head.fields.contentLength?.getD 0 := by
  rw [ofHead_eq client bounds rfl] at h
  obtain ⟨method, -, rfl⟩ := exists_ok_of_map h
  exact ⟨rfl, rfl, rfl⟩

/-- An intake agrees with what is delivered of its request. -/
theorem agrees_of_due {r : Delivered} {due : Nat} {client : Address} {bounds : Bounds} {x : Intake}
    (hdue : r.Due due) (hended : r.ended = true ↔ due = 0)
    (h : ofHead r.head client bounds = .ok x) : x.Agrees r := by
  obtain ⟨hparts, harrived, hannounced⟩ := fresh_of_ofHead h
  rw [hdue.announced] at hannounced
  have hlength := hdue.length_eq
  have hall : x.arrived + (r.chunks.flatten.length + due) = x.announced := by omega
  have heach := takeEach_due hall hdue.nonempty hended
  refine ⟨hannounced, ?_, ?_, ?_⟩
  · rw [heach]
    rfl
  · rw [close_iff, heach, hended]
    change x.arrived + r.chunks.flatten.length = x.announced ↔ _
    omega
  · intro request hclose
    rw [heach] at hclose
    unfold close at hclose
    split at hclose
    · cases hclose
      simp [body, hparts]
    · cases hclose

end Intake

/-! ## What never ends a connection -/

/-- The faults that stand for a disagreement: between the reader and the intake of a connection, or
between the announced length of a reply and its body. -/
def ConnectionFault.ofDisagreement : ConnectionFault → Bool
  | .refused (.bodyOverrun ..) => true
  | .parse (.unexpected _) => true
  | .send _ => true
  | _ => false

theorem Head.bodyLength_fault {fields : Fields} {e : ParseFault}
    (h : bodyLength fields = .error e) :
    (ConnectionFault.parse e).ofDisagreement = false := by
  obtain ⟨coding, rfl⟩ | ⟨cause, rfl⟩ := bodyLength_error h
  · rfl
  · rfl

/-- Reading a head never finds a message out of place. -/
theorem Head.read_fault {b rest : Bytes} {e : ParseFault} (h : read b = .fault e rest) :
    (ConnectionFault.parse e).ofDisagreement = false := by
  have hne : read b ≠ .more := by
    intro hmore
    rw [hmore] at h
    cases h
  rw [read_eq_readAny (minHead_le_of_read hne)] at h
  cases hs : Syntax.head maxFields b with
  | fault cause =>
    rw [readAny_fault hs] at h
    cases h
    cases cause <;> rfl
  | more =>
    rw [readAny_more hs, wait] at h
    split at h
    · cases h
    · cases h
      rfl
  | value raw rest =>
    rw [readAny_value hs, ofRaw] at h
    split at h
    · cases h
      rfl
    · split at h
      · cases h
        rfl
      · split at h
        · next hfields =>
          cases h
          exact bodyLength_fault hfields
        · cases h

/-- The head alone never has a body refused as too long for what was announced. -/
theorem Intake.ofHead_refused {head : Head} {client : Address} {bounds : Bounds} {reason : Refusal}
    (h : ofHead head client bounds = .error reason) :
    (ConnectionFault.refused reason).ofDisagreement = false := by
  unfold ofHead at h
  split at h
  · cases h
    rfl
  · simp only at h
    split at h
    · cases h
      rfl
    · split at h
      · cases h
        rfl
      · cases h

namespace Connection

/-- A connection whose reader and intake ask for the same bytes. -/
inductive Aligned (c : Connection) : Prop
  | between : c.outcome = none → c.encoder = {} → c.decoder = ⟨none⟩ → c.intake = none → Aligned c
  | inside {x : Intake} {due : Nat} : c.outcome = none → c.encoder = {} → c.decoder = ⟨some due⟩ →
      c.intake = some x → x.arrived + due = x.announced → Aligned c
  | ended {result : Except ConnectionFault Unit} : c.outcome = some result →
      (∀ e, result = .error e → e.ofDisagreement = false) → Aligned c

variable {δ : Type} {d : Responder δ} {c : Connection} {s : δ}

/-- What was written, and when, is no matter. -/
theorem Aligned.of_same {c' : Connection} (h : c.Aligned) (ho : c'.outcome = c.outcome)
    (he : c'.encoder = c.encoder) (hd : c'.decoder = c.decoder) (hi : c'.intake = c.intake) :
    c'.Aligned := by
  cases h with
  | between ho' he' hd' hi' =>
    exact .between (ho.trans ho') (he.trans he') (hd.trans hd') (hi.trans hi')
  | inside ho' he' hd' hi' hdue =>
    exact .inside (ho.trans ho') (he.trans he') (hd.trans hd') (hi.trans hi') hdue
  | ended hresult hno => exact .ended (ho.trans hresult) hno

theorem Aligned.fail {e : ConnectionFault} (h : e.ofDisagreement = false) (c : Connection) :
    (c.fail e).Aligned :=
  .ended rfl fun e' he => by cases he; exact h

theorem Aligned.close (c : Connection) : c.close.Aligned := .ended rfl nofun

/-- A connection that is open is between two requests or inside a body. -/
theorem Aligned.of_open (h : c.Aligned) (ho : c.isOpen = true) :
    c.outcome = none ∧ c.encoder = {} ∧
      (c.decoder = ⟨none⟩ ∧ c.intake = none ∨
        ∃ x due, c.decoder = ⟨some due⟩ ∧ c.intake = some x ∧ x.arrived + due = x.announced) := by
  cases h with
  | between hopen he hd hi => exact ⟨hopen, he, .inl ⟨hd, hi⟩⟩
  | inside hopen he hd hi hdue => exact ⟨hopen, he, .inr ⟨_, _, hd, hi, hdue⟩⟩
  | ended hresult => rw [isOpen, hresult] at ho; cases ho

/-- Whatever breaks a stream is no disagreement, unless it says so itself. -/
theorem Aligned.broken (h : c.Aligned) (ho : c.isOpen = true) {cause : ParseFault}
    (hcause : (ConnectionFault.parse cause).ofDisagreement = false) :
    (broken d cause c s).1.Aligned := by
  obtain ⟨hopen, he, ⟨_, hi⟩ | ⟨x, _, _, hi, _⟩⟩ := h.of_open ho
  · rw [broken_eq d c s cause hi he hopen]
    exact .fail hcause _
  · unfold Connection.broken
    rw [hi]
    exact .fail hcause c

theorem start_aligned {head : Head} {length : Nat} (hopen : c.outcome = none) (he : c.encoder = {})
    (hd : c.decoder = ⟨some length⟩) (hannounced : head.fields.contentLength?.getD 0 = length) :
    (c.start head).Aligned := by
  unfold start
  cases hx : Intake.ofHead head c.client c.bounds with
  | error reason =>
    exact .fail (Intake.ofHead_refused hx) c
  | ok x =>
    obtain ⟨_, harrived, hx⟩ := Intake.fresh_of_ofHead hx
    have hdue : x.arrived + length = x.announced := by omega
    simp only
    split
    · exact .inside hopen he hd rfl hdue
    · exact .inside hopen he hd rfl hdue

/-- A body at whose end the reader waits for a head is whole, so it is answered; one that is cut
short is refused. -/
theorem complete_aligned {x : Intake} (hopen : c.outcome = none) (he : c.encoder = {})
    (hd : x.arrived = x.announced → c.decoder = ⟨none⟩) : (complete d x c s).1.Aligned := by
  unfold complete
  by_cases hall : x.arrived = x.announced
  · have hclose : x.close = .ok { x.request with body := x.body } := if_pos hall
    rw [hclose]
    simp only [bind_run]
    rw [reply_eq d (call { c with intake := none } _) _ _ he]
    exact .between hopen he (hd hall) rfl
  · have hclose : x.close = .error (.bodyCutShort x.arrived x.announced) := if_neg hall
    rw [hclose]
    exact .fail rfl c

/-- A message keeps reader and intake together. -/
theorem handle_aligned {m : Message Head} {decoder : Decoder} {rest : Bytes} (h : c.Aligned)
    (ho : c.isOpen = true) (hn : Decoder.Next c.decoder c.buffer m decoder rest) :
    (handle d m (c.after m decoder rest) s).1.Aligned := by
  obtain ⟨hopen, he, hphase⟩ := h.of_open ho
  generalize hd : c.decoder = reader at hn hphase
  cases hn with
  | head hread =>
    obtain ⟨_, hi⟩ | ⟨_, _, hd', _⟩ := hphase
    · unfold handle
      rw [show (c.after _ _ _).intake = none from hi]
      exact start_aligned hopen he rfl (Head.contentLength_of_read hread)
    · cases hd'
  | @chunk _ due hne =>
    obtain ⟨hd', _⟩ | ⟨x, _, hd', hi, hdue⟩ := hphase
    · cases hd'
    · cases hd'
      have hlen : (c.buffer.take (due + 1)).length + (due + 1 - c.buffer.length) = due + 1 := by
        rw [List.length_take]
        omega
      have htake := Intake.take_due (x := x) (by rw [hlen]; exact hdue)
      unfold handle
      rw [show (c.after _ _ _).intake = some x from hi]
      simp only [htake]
      split
      all_goals
        refine .inside hopen he rfl rfl ?_
        change x.arrived + _ + _ = x.announced
        omega
  | eof =>
    obtain ⟨hd', _⟩ | ⟨x, _, hd', hi, hdue⟩ := hphase
    · cases hd'
    · cases hd'
      unfold handle
      rw [show (c.after _ _ _).intake = some x from hi]
      exact complete_aligned hopen he fun _ => rfl

theorem pump_aligned (rounds : Nat) (h : c.Aligned) : (pump d rounds c s).1.Aligned := by
  induction rounds generalizing c s with
  | zero => exact h
  | succ rounds ih =>
    unfold pump
    cases ho : c.isOpen with
    | false => exact h
    | true =>
      rw [if_pos rfl]
      cases hs : c.decoder.step c.buffer with
      | more => exact h
      | fault cause rest =>
        have hsame : ({ c with buffer := rest } : Connection).Aligned := h.of_same rfl rfl rfl rfl
        exact hsame.broken ho (Head.read_fault (Decoder.step_fault_iff.mp hs).2)
      | message m decoder rest => exact ih (handle_aligned h ho (Decoder.next_of_step hs))

/-- An aligned connection that has taken all messages its buffer holds. -/
structure Rests (c : Connection) : Prop where
  aligned : c.Aligned
  settled : c.Settled

theorem settle_rests (h : c.Aligned) : (settle d c s).1.Rests :=
  ⟨pump_aligned _ h, settle_settled⟩

/-- A body that is being read while nothing is left to take is not whole. -/
theorem Rests.arrived_lt (h : c.Rests) (ho : c.isOpen = true) {x : Intake}
    (hi : c.intake = some x) : x.arrived < x.announced := by
  obtain ⟨_, _, ⟨_, hi'⟩ | ⟨x', due, hd, hi', hdue⟩⟩ := h.aligned.of_open ho
  · rw [hi] at hi'
    cases hi'
  · rw [hi] at hi'
    cases hi'
    have hmore := h.settled ho
    rw [hd] at hmore
    obtain ⟨hd', _⟩ | ⟨due', hd', _⟩ := Decoder.step_more_iff.mp hmore
    · cases hd'
    · cases hd'
      omega

/-- Ending it refuses the request. -/
theorem Rests.complete_eq (h : c.Rests) (ho : c.isOpen = true) {x : Intake}
    (hi : c.intake = some x) :
    complete d x c s = (c.fail (.refused (.bodyCutShort x.arrived x.announced)), s) := by
  have hclose : x.close = .error (.bodyCutShort x.arrived x.announced) :=
    if_neg (h.arrived_lt ho hi).ne
  unfold complete
  rw [hclose]
  rfl

theorem Rests.cutShort (h : c.Rests) (ho : c.isOpen = true) {x : Intake} (hi : c.intake = some x) :
    (complete d x c s).1.Rests := by
  rw [h.complete_eq ho hi]
  exact ⟨.fail rfl c, nofun⟩

theorem receiveIn_rests (portions : Nat) (bytes : Bytes) (h : c.Rests) :
    (receiveIn d portions bytes c s).1.Rests := by
  induction portions generalizing bytes c s with
  | zero => exact h
  | succ portions ih =>
    unfold receiveIn
    split
    · exact h
    · exact ih _ (settle_rests (h.aligned.of_same rfl rfl rfl rfl))

theorem Rests.later (h : c.Rests) (millis : Nat) :
    ({ c with now := c.now + millis } : Connection).Rests :=
  ⟨h.aligned.of_same rfl rfl rfl rfl, h.settled⟩

theorem pass_rests (millis : Nat) (h : c.Rests) : (pass d millis c s).1.Rests := by
  have hlater := h.later millis
  unfold pass
  generalize ({ c with now := c.now + millis } : Connection) = c at hlater ⊢
  cases c.idle with
  | none => exact hlater
  | some idle =>
    simp only
    split
    · next hidle =>
      rw [Bool.and_eq_true] at hidle
      rw [bind_run]
      cases hi : c.intake with
      | none => exact ⟨.close _, nofun⟩
      | some x => exact hlater.cutShort hidle.1 hi
    · exact hlater

theorem finish_rests (h : c.Aligned) : (finish d c s).1.Rests := by
  have hrests := settle_rests (d := d) (s := s) h
  unfold finish
  rw [bind_run]
  generalize (settle d c s).1 = c₁, (settle d c s).2 = s₁ at hrests ⊢
  cases ho : c₁.isOpen with
  | false => exact hrests
  | true =>
    simp only [Bool.not_true, Bool.false_eq_true, if_false]
    split
    · exact ⟨hrests.aligned.broken ho rfl, fun hb => by rw [broken_closed] at hb; cases hb⟩
    · cases hi : c₁.intake with
      | none => exact ⟨.close _, nofun⟩
      | some x =>
        have hcut := hrests.cutShort (d := d) (s := s₁) ho hi
        simp only [bind_run]
        split
        · exact ⟨.close _, nofun⟩
        · exact hcut

theorem run_rests (signals : List Signal) (h : c.Rests) : (run d signals c s).1.Rests := by
  induction signals generalizing c s with
  | nil => exact h
  | cons signal signals ih =>
    refine ih ?_
    cases signal with
    | bytes b => exact receiveIn_rests _ _ h
    | time millis => exact pass_rests millis h
    | ended => exact finish_rests h.aligned

theorem fresh_rests (client : Address) (bounds : Bounds) (idle : Option Nat) :
    ({ client, bounds, idle } : Connection).Rests :=
  ⟨.between rfl rfl rfl rfl, fun _ => Decoder.step_nil⟩

/-- A connection that ends by a fault does not end by one of those that stand for a
disagreement. -/
theorem Rests.fault (h : c.Rests) {e : ConnectionFault} (ho : c.outcome = some (.error e)) :
    e.ofDisagreement = false := by
  cases h.aligned with
  | between hopen => rw [ho] at hopen; cases hopen
  | inside hopen => rw [ho] at hopen; cases hopen
  | ended hresult hno => rw [ho] at hresult; cases hresult; exact hno e rfl

end Connection

/-- **Reader and intake agree on every body.** However a stream is cut, what is read of it is one
request behind the other, each a head, the chunks of its body and one end; only the last may be
without its end. An intake that starts from a head asks for the length that the reader announces,
takes every chunk, finds the body whole at the chunk before the end, and closes if and only if the
end was read. So no connection, whatever its client sends and however long it waits, ends by a body
that is too long, by a message out of place or by a reply that is not as long as announced. -/
theorem bodies_agree (client : Address) (bounds : Bounds) (chunks : List Bytes) :
    (∃ requests : List Delivered,
      (({} : Decoder).feed [] chunks).messages = requests.flatMap Delivered.messages ∧
      (∀ r ∈ requests.dropLast, r.ended = true) ∧
      ∀ r ∈ requests, ∀ x, Intake.ofHead r.head client bounds = .ok x → x.Agrees r) ∧
    ∀ {δ : Type} (d : Responder δ) (idle : Option Nat) (signals : List Connection.Signal) (s : δ) e,
      (Connection.run d signals { client, bounds, idle } s).1.outcome = some (.error e) →
        e.ofDisagreement = false := by
  constructor
  · have hfresh : Decoder.Stands [] {} := .between nofun
    obtain ⟨requests, hmessages, hstands⟩ := Decoder.feed_stands hfresh [] chunks
    obtain ⟨hended, hdue⟩ := hstands.settled (Decoder.feed_settled Decoder.step_nil chunks)
    refine ⟨requests, hmessages.symm, hended, fun r hr x hx => ?_⟩
    obtain ⟨due, hdue, hiff⟩ := hdue r hr
    exact Intake.agrees_of_due hdue hiff hx
  · intro δ d idle signals s e he
    exact (Connection.run_rests signals (Connection.fresh_rests client bounds idle)).fault he

/-- A body of three bytes in two pieces, and one that stops while its client idles. -/
theorem bodies_agree_pieces :
    let head := Text.Utf8.encode "POST /a HTTP/1.1\r\nContent-Length: 3\r\n\r\n"
    let client : Address := .v4 127 0 0 1
    let echo : Responder Unit :=
      { respond := fun request => pure { status := .ok, body := request.body }
        report := fun _ => pure () }
    let cut := ConnectionFault.refused (.bodyCutShort 1 3)
    (∃ r x, Intake.ofHead r.head client {} = .ok x ∧ x.Agrees r ∧
      .head r.head 3 ∈ (({} : Decoder).feed [] [head ++ [97, 98], [99]]).messages) ∧
    (Connection.run echo [.bytes (head ++ [97]), .time 1001]
      { client, bounds := {}, idle := some 1000 } ()).1.outcome = some (.error cut) ∧
    cut.ofDisagreement = false := by
  intro head client echo cut
  have hcut : (Connection.run echo [.bytes (head ++ [97]), .time 1001]
      { client, bounds := {}, idle := some 1000 } ()).1.outcome = some (.error cut) := by
    decide +kernel
  have hagree := bodies_agree client {} [head ++ [97, 98], [99]]
  refine ⟨?_, hcut, hagree.2 echo (some 1000) _ () cut hcut⟩
  let post : Head :=
    { method := "POST"
      target := { scheme := none, authority := "", written := "/a", query := none }
      version := .http11
      fields := [⟨"content-length", [[51]]⟩] }
  let x : Intake := { request := { client, method := .post, path := "/a", contentLength := 3 } }
  have hx : Intake.ofHead post client {} = .ok x := by decide +kernel
  have hmem : .head post 3 ∈ (({} : Decoder).feed [] [head ++ [97, 98], [99]]).messages := by
    decide +kernel
  obtain ⟨requests, hmessages, _, hagrees⟩ := hagree.1
  rw [hmessages] at hmem ⊢
  obtain ⟨r, hr, hhead⟩ := List.mem_flatMap.mp hmem
  have hpost := Delivered.head_of_mem hhead
  rw [hpost] at hx hhead
  exact ⟨r, x, hx, hagrees r hr x hx, List.mem_flatMap.mpr ⟨r, hr, hhead⟩⟩

end Depot.Http
