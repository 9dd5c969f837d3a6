import Depot.Proofs.Http.Client
import Depot.Proofs.Http.Serving

/-! # What a connection has sent

A responder that keeps a list of what it was asked and what it answered (`Responder.logging`) makes
a connection do just what the responder itself makes it do (`run_follows`). Whatever happens to the
connection, all it has sent are the replies of that list in order, with signs to go on between them
and, where the stream was no request, a bare 400 at the end (`run_kept`). -/

namespace Depot.Http

variable {δ γ α β : Type}

/-- The same responder, which keeps a list of the requests it has answered, each with its reply. -/
def Responder.logging (d : Responder δ) : Responder (δ × List (Request × Reply)) where
  respond request := fun (s, log) =>
    let (reply, s) := d.respond request s
    (reply, s, log ++ [(request, reply)])
  report event := fun (s, log) => ((), (d.report event s).2, log)

/-! ## Keeping a list changes nothing -/

/-- Whether a run with more to its state gives what the other run gives, and leaves the state that
it leaves. -/
def Follows (m' : StateM (δ × γ) α) (m : StateM δ α) : Prop :=
  ∀ s more, (m' (s, more)).1 = (m s).1 ∧ (m' (s, more)).2.1 = (m s).2

theorem follows_pure (a : α) : Follows (pure a : StateM (δ × γ) α) (pure a) :=
  fun _ _ => ⟨rfl, rfl⟩

theorem Follows.bind {m' : StateM (δ × γ) α} {m : StateM δ α} {k' : α → StateM (δ × γ) β}
    {k : α → StateM δ β} (h : Follows m' m) (hk : ∀ a, Follows (k' a) (k a)) :
    Follows (m' >>= k') (m >>= k) := by
  intro s more
  obtain ⟨hresult, hstate⟩ := h s more
  rw [Connection.bind_run, Connection.bind_run, hresult, ← hstate]
  exact hk _ _ _

theorem follows_ite {p : Prop} [Decidable p] {m' n' : StateM (δ × γ) α} {m n : StateM δ α}
    (hm : Follows m' m) (hn : Follows n' n) :
    Follows (if p then m' else n') (if p then m else n) := by
  split
  · exact hm
  · exact hn

namespace Connection

variable (d : Responder δ) (c : Connection)

theorem respond_follows (r : Request) : Follows (d.logging.respond r) (d.respond r) :=
  fun _ _ => ⟨rfl, rfl⟩

theorem report_follows (event : Event) : Follows (d.logging.report event) (d.report event) :=
  fun _ _ => ⟨rfl, rfl⟩

theorem reportAll_follows (log : List Event) : Follows (reportAll d.logging log) (reportAll d log) := by
  induction log with
  | nil => exact follows_pure ()
  | cons event log ih => exact (report_follows d event).bind fun _ => ih

theorem reply_follows (r : Reply) : Follows (reply d.logging r c) (reply d r c) := by
  refine (reportAll_follows d _).bind fun _ => ?_
  cases (c.encoder.encodeAll r.messages).fault with
  | none => exact follows_pure _
  | some cause => exact follows_pure _

theorem refuse_follows (cause : ParseFault) :
    Follows (refuse d.logging cause c) (refuse d cause c) :=
  (reply_follows d c _).bind fun _ => follows_pure _

theorem broken_follows (cause : ParseFault) :
    Follows (broken d.logging cause c) (broken d cause c) := by
  unfold broken
  cases c.intake with
  | none => exact (report_follows d _).bind fun _ => refuse_follows d c cause
  | some x => exact follows_pure _

theorem complete_follows (x : Intake) : Follows (complete d.logging x c) (complete d x c) := by
  unfold complete
  cases x.close with
  | error reason => exact follows_pure _
  | ok request => exact (respond_follows d request).bind fun answer => reply_follows d _ answer

theorem handle_follows (m : Message Head) : Follows (handle d.logging m c) (handle d m c) := by
  unfold handle
  cases c.intake with
  | none =>
    cases m with
    | head head length => exact follows_pure _
    | chunk bytes => exact (report_follows d _).bind fun _ => refuse_follows d c _
    | eof => exact (report_follows d _).bind fun _ => refuse_follows d c _
  | some x =>
    cases m with
    | head head length => exact follows_pure _
    | chunk bytes =>
      simp only
      split
      · exact follows_pure _
      · exact follows_pure _
    | eof => exact complete_follows d c x

theorem pump_follows (rounds : Nat) : Follows (pump d.logging rounds c) (pump d rounds c) := by
  induction rounds generalizing c with
  | zero => exact follows_pure c
  | succ rounds ih =>
    unfold pump
    refine follows_ite ?_ (follows_pure c)
    cases c.decoder.step c.buffer with
    | more => exact follows_pure c
    | fault cause rest => exact broken_follows d _ cause
    | message m decoder rest => exact (handle_follows d _ m).bind fun c => ih c

theorem receiveIn_follows (portions : Nat) (bytes : Bytes) :
    Follows (receiveIn d.logging portions bytes c) (receiveIn d portions bytes c) := by
  induction portions generalizing c bytes with
  | zero => exact follows_pure c
  | succ portions ih =>
    unfold receiveIn
    exact follows_ite (follows_pure c) ((pump_follows d _ _).bind fun c => ih c _)

theorem pass_follows (millis : Nat) : Follows (pass d.logging millis c) (pass d millis c) := by
  unfold pass
  simp only
  cases c.idle with
  | none => exact follows_pure _
  | some idle =>
    refine follows_ite ((report_follows d _).bind fun _ => ?_) (follows_pure _)
    cases c.intake with
    | none => exact follows_pure _
    | some x => exact complete_follows d _ x

theorem finish_follows : Follows (finish d.logging c) (finish d c) := by
  refine (pump_follows d c _).bind fun c => ?_
  refine follows_ite (follows_pure c) (follows_ite (broken_follows d c _) ?_)
  cases c.intake with
  | none => exact follows_pure _
  | some x => exact (complete_follows d c x).bind fun _ => follows_pure _

/-- With a list kept on the side, a connection does the same. -/
theorem run_follows (signals : List Signal) : Follows (run d.logging signals c) (run d signals c) := by
  induction signals generalizing c with
  | nil => exact follows_pure c
  | cons signal signals ih =>
    refine Follows.bind ?_ fun c => ih c
    cases signal with
    | bytes b => exact receiveIn_follows d c _ b
    | time millis => exact pass_follows d c millis
    | ended => exact finish_follows d c

end Connection

/-! ## What has been sent -/

/-- Bytes that are replies, one behind the other, and signs to go on between them. -/
inductive Transcript : Bytes → List Reply → Prop
  | nothing : Transcript [] []
  | sign {sent : Bytes} {replies : List Reply} :
      Transcript sent replies → Transcript (sent ++ Connection.interim) replies
  | reply {sent : Bytes} {replies : List Reply} (r : Reply) :
      Transcript sent replies → Transcript (sent ++ r.render) (replies ++ [r])

section

variable {sent : Bytes} {replies : List Reply}

open Client (finals isBodiless)

/-- A client reads the replies off, if their statuses let them have a body. -/
theorem Transcript.finals_append (h : Transcript sent replies)
    (hall : ∀ r ∈ replies, isBodiless r.status.code = false) (t : Bytes) :
    finals (sent ++ t) = (finals t).map (replies.map Response.of ++ ·) := by
  induction h generalizing t with
  | nothing => simp
  | sign _ ih => rw [List.append_assoc, ih hall, Client.finals_interim]
  | reply r _ ih =>
    have hbefore := fun r' hr' => hall r' (List.mem_append_left [r] hr')
    have hr := hall r (List.mem_append_right _ List.mem_cons_self)
    rw [List.append_assoc, ih hbefore, Client.finals_render hr, Option.map_map, List.map_append]
    simp only [Function.comp_def, List.append_assoc, List.map_cons, List.map_nil,
      List.cons_append, List.nil_append]

theorem Transcript.finals (h : Transcript sent replies)
    (hall : ∀ r ∈ replies, isBodiless r.status.code = false) :
    Client.finals sent = some (replies.map Response.of) := by
  have hread := h.finals_append hall []
  rw [List.append_nil, Client.finals_nil, Option.map_some, List.append_nil] at hread
  exact hread

/-- A reply stands behind those before it. -/
theorem Transcript.split {before after : List Reply} {r : Reply}
    (h : Transcript sent (before ++ r :: after)) :
    ∃ front back, sent = front ++ (r.render ++ back) ∧ Transcript front before := by
  generalize hall : before ++ r :: after = replies at h
  induction h generalizing after with
  | nothing => simp at hall
  | sign _ ih =>
    obtain ⟨front, back, rfl, hfront⟩ := ih hall
    exact ⟨front, back ++ Connection.interim, by simp only [List.append_assoc], hfront⟩
  | @reply sent replies last hbefore ih =>
    cases List.eq_nil_or_concat after with
    | inl hnil =>
      subst hnil
      obtain ⟨rfl, hlast⟩ := List.append_inj' hall rfl
      cases hlast
      exact ⟨sent, [], by rw [List.append_nil], hbefore⟩
    | inr hconcat =>
      obtain ⟨after', last', rfl⟩ := hconcat
      rw [List.concat_eq_append, ← List.cons_append, ← List.append_assoc] at hall
      obtain ⟨rfl, -⟩ := List.append_inj' hall rfl
      obtain ⟨front, back, rfl, hfront⟩ := ih rfl
      exact ⟨front, back ++ last.render, by simp only [List.append_assoc], hfront⟩

/-- A client is lost behind a reply whose status has no body, if what the reply has for a body does
not look like a response. -/
theorem Transcript.finals_none {before after : List Reply} {r : Reply}
    (h : Transcript sent (before ++ r :: after))
    (hbefore : ∀ r ∈ before, isBodiless r.status.code = false)
    (hr : isBodiless r.status.code = true) (hfinal : 200 ≤ r.status.code)
    (hbody : ∀ t, r.body ++ t ≠ [] ∧ ¬ Client.protocol <+: r.body ++ t) :
    Client.finals sent = none := by
  obtain ⟨front, back, rfl, hfront⟩ := h.split
  obtain ⟨hne, hstart⟩ := hbody back
  rw [hfront.finals_append hbefore, Client.finals_render_bodiless hr hfinal,
    Client.finals_of_not_prefix hne hstart]
  rfl

end

namespace Connection

/-- What may stand behind the last reply: where the stream was no request, a bare 400. -/
def Closing (c : Connection) (last : List Reply) : Prop :=
  last = [] ∨ last = [.bare .badRequest] ∧ c.ending? = some .unreadable

/-- What holds of a connection and the list of its exchanges at any time, if `P` holds of every
state of the responder and `Q` of every reply. -/
structure Kept (P : δ → Prop) (Q : Reply → Prop) (c : Connection)
    (logged : δ × List (Request × Reply)) : Prop where
  encoder : c.encoder = {}
  state : P logged.1
  replies : ∀ exchange ∈ logged.2, Q exchange.2
  sent : ∃ last, Transcript c.sent (logged.2.map Prod.snd ++ last) ∧ c.Closing last

/-- A responder that keeps to `P`, and replies as `Q` says. -/
structure Keeps (P : δ → Prop) (Q : Reply → Prop) (d : Responder δ) : Prop where
  respond {s : δ} (r : Request) : P s → Q (d.respond r s).1 ∧ P (d.respond r s).2
  report {s : δ} (event : Event) : P s → P (d.report event s).2

variable {P : δ → Prop} {Q : Reply → Prop} {d : Responder δ} {c : Connection} {s : δ}
  {log : List (Request × Reply)}

/-- Behind the replies of an open connection stands nothing. -/
theorem Kept.transcript (h : Kept P Q c (s, log)) (ho : c.outcome = none) :
    Transcript c.sent (log.map Prod.snd) := by
  obtain ⟨last, hsent, rfl | ⟨-, hend⟩⟩ := h.sent
  · rwa [List.append_nil] at hsent
  · rw [ending?, ho] at hend
    cases hend

theorem Transcript.closing (h : Transcript c.sent (log.map Prod.snd)) :
    ∃ last, Transcript c.sent (log.map Prod.snd ++ last) ∧ c.Closing last :=
  ⟨[], by rwa [List.append_nil], .inl rfl⟩

theorem reportAll_logging (events : List Event) :
    reportAll d.logging events (s, log) = ((), (reportAll d events s).2, log) := by
  induction events generalizing s with
  | nil => rfl
  | cons event events ih => exact ih

theorem Keeps.reportAll (hd : Keeps P Q d) (events : List Event) (h : P s) :
    P (reportAll d events s).2 := by
  induction events generalizing s with
  | nil => exact h
  | cons event events ih => exact ih (hd.report event h)

/-- A report sends nothing. -/
theorem Kept.report (h : Kept P Q c (s, log)) (hd : Keeps P Q d) (event : Event) :
    Kept P Q c ((d.report event s).2, log) :=
  ⟨h.encoder, hd.report event h.state, h.replies, h.sent⟩

/-- A connection that fails sends nothing more. -/
theorem Kept.fail (h : Kept P Q c (s, log)) (ho : c.outcome = none) (e : ConnectionFault) :
    Kept P Q (c.fail e) (s, log) :=
  ⟨h.encoder, h.state, h.replies, Transcript.closing (c := c.fail e) (h.transcript ho)⟩

theorem Kept.close (h : Kept P Q c (s, log)) (ho : c.outcome = none) :
    Kept P Q c.close (s, log) :=
  ⟨h.encoder, h.state, h.replies, Transcript.closing (c := c.close) (h.transcript ho)⟩

theorem start_kept (h : Kept P Q c (s, log)) (ho : c.outcome = none) (head : Head) :
    Kept P Q (c.start head) (s, log) := by
  unfold start
  split
  · exact h.fail ho _
  · next x _ =>
    simp only
    split
    · refine ⟨h.encoder, h.state, h.replies, Transcript.closing ?_⟩
      rw [sent_write]
      exact (h.transcript ho).sign
    · exact ⟨h.encoder, h.state, h.replies, h.sent⟩

/-- A request that is complete is answered, and the reply stands behind those before it. -/
theorem complete_kept (hd : Keeps P Q d) (h : Kept P Q c (s, log)) (ho : c.outcome = none)
    (x : Intake) :
    Kept P Q (complete d.logging x c (s, log)).1 (complete d.logging x c (s, log)).2 := by
  unfold complete
  cases x.close with
  | error reason => exact h.fail ho _
  | ok request =>
    obtain ⟨hreply, hstate⟩ := hd.respond request h.state
    have hrespond : d.logging.respond request (s, log) =
        ((d.respond request s).1, (d.respond request s).2,
          log ++ [(request, (d.respond request s).1)]) := rfl
    simp only [bind_run, hrespond]
    let called : Connection := { c with intake := none }.call request
    have hsent : called.sent = c.sent := sent_call _ _
    rw [reply_eq d.logging called _ _ h.encoder, reportAll_logging]
    refine ⟨h.encoder, hd.reportAll _ hstate, ?_, Transcript.closing ?_⟩
    · simp only [List.mem_append, List.mem_singleton]
      rintro exchange (hbefore | rfl)
      · exact h.replies exchange hbefore
      · exact hreply
    · rw [sent_write, hsent, List.map_append]
      exact (h.transcript ho).reply _

theorem refuse_kept (h : Kept P Q c (s, log)) (ho : c.outcome = none) (cause : ParseFault) :
    Kept P Q (refuse d.logging cause c (s, log)).1 (refuse d.logging cause c (s, log)).2 := by
  rw [refuse_eq d.logging c (s, log) cause h.encoder ho]
  refine ⟨h.encoder, h.state, h.replies, [.bare .badRequest], ?_, .inr ⟨rfl, rfl⟩⟩
  have hsent := sent_write c (Reply.bare .badRequest).render
  exact hsent ▸ (h.transcript ho).reply _

theorem broken_kept (hd : Keeps P Q d) (h : Kept P Q c (s, log)) (ho : c.outcome = none)
    (cause : ParseFault) :
    Kept P Q (broken d.logging cause c (s, log)).1 (broken d.logging cause c (s, log)).2 := by
  unfold broken
  cases c.intake with
  | some x => exact h.fail ho _
  | none => exact refuse_kept (h.report hd _) ho cause

theorem handle_kept (hd : Keeps P Q d) (h : Kept P Q c (s, log)) (ho : c.outcome = none)
    (m : Message Head) :
    Kept P Q (handle d.logging m c (s, log)).1 (handle d.logging m c (s, log)).2 := by
  unfold handle
  cases c.intake with
  | none =>
    cases m with
    | head head length => exact start_kept h ho head
    | chunk bytes => exact refuse_kept (h.report hd _) ho _
    | eof => exact refuse_kept (h.report hd _) ho _
  | some x =>
    cases m with
    | head head length => exact h.fail ho _
    | chunk bytes =>
      simp only
      obtain ⟨taken, y⟩ := x.take bytes
      cases taken with
      | refused reason => exact h.fail ho _
      | partly => exact ⟨h.encoder, h.state, h.replies, h.sent⟩
      | whole => exact ⟨h.encoder, h.state, h.replies, h.sent⟩
    | eof => exact complete_kept hd h ho x

theorem isOpen_iff : c.isOpen = true ↔ c.outcome = none := Option.isNone_iff_eq_none

theorem pump_kept (hd : Keeps P Q d) (rounds : Nat) (h : Kept P Q c (s, log)) :
    Kept P Q (pump d.logging rounds c (s, log)).1 (pump d.logging rounds c (s, log)).2 := by
  induction rounds generalizing c s log with
  | zero => exact h
  | succ rounds ih =>
    unfold pump
    split
    · next ho =>
      rw [isOpen_iff] at ho
      cases c.decoder.step c.buffer with
      | more => exact h
      | fault cause rest =>
        have hnext : Kept P Q { c with buffer := rest } (s, log) :=
          ⟨h.encoder, h.state, h.replies, h.sent⟩
        exact broken_kept hd hnext ho cause
      | message m decoder rest =>
        have hnext : Kept P Q { c with
            decoder, buffer := rest, since := c.now
            block := blockAfter m (c.buffer.length - rest.length) c.block } (s, log) :=
          ⟨h.encoder, h.state, h.replies, h.sent⟩
        exact ih (handle_kept hd hnext ho m)
    · exact h

theorem settle_kept (hd : Keeps P Q d) (h : Kept P Q c (s, log)) :
    Kept P Q (settle d.logging c (s, log)).1 (settle d.logging c (s, log)).2 :=
  pump_kept hd _ h

theorem receiveIn_kept (hd : Keeps P Q d) (portions : Nat) (bytes : Bytes)
    (h : Kept P Q c (s, log)) :
    Kept P Q (receiveIn d.logging portions bytes c (s, log)).1
      (receiveIn d.logging portions bytes c (s, log)).2 := by
  induction portions generalizing c s log bytes with
  | zero => exact h
  | succ portions ih =>
    unfold receiveIn
    split
    · exact h
    · have hnext : Kept P Q { c with
          block := c.block.forMore c.buffer.length
          buffer := c.buffer ++ bytes.take ((c.block.forMore c.buffer.length).room c.buffer.length) }
          (s, log) := ⟨h.encoder, h.state, h.replies, h.sent⟩
      exact ih _ (settle_kept hd hnext)

theorem pass_kept (hd : Keeps P Q d) (millis : Nat) (h : Kept P Q c (s, log)) :
    Kept P Q (pass d.logging millis c (s, log)).1 (pass d.logging millis c (s, log)).2 := by
  unfold pass
  simp only
  cases c.idle with
  | none => exact ⟨h.encoder, h.state, h.replies, h.sent⟩
  | some idle =>
    simp only
    split
    · next hlate =>
      have ho : c.outcome = none := isOpen_iff.mp (Bool.and_eq_true_iff.mp hlate).1
      have hnext (intake : Option Intake) :
          Kept P Q { c with now := c.now + millis, idle := some idle, intake } (s, log) :=
        ⟨h.encoder, h.state, h.replies, h.sent⟩
      cases c.intake with
      | none => exact ((hnext none).report hd _).close ho
      | some x => exact complete_kept hd ((hnext (some x)).report hd _) ho x
    · exact ⟨h.encoder, h.state, h.replies, h.sent⟩

theorem finish_kept (hd : Keeps P Q d) (h : Kept P Q c (s, log)) :
    Kept P Q (finish d.logging c (s, log)).1 (finish d.logging c (s, log)).2 := by
  have hsettled := settle_kept hd h
  unfold finish
  rw [bind_run]
  generalize settle d.logging c (s, log) = settled at hsettled ⊢
  obtain ⟨c, s, log⟩ := settled
  simp only at hsettled ⊢
  split
  · exact hsettled
  · next ho =>
    have ho : c.outcome = none := isOpen_iff.mp (by simpa using ho)
    split
    · exact broken_kept hd hsettled ho _
    · cases c.intake with
      | none => exact hsettled.close ho
      | some x =>
        have hcompleted := complete_kept hd hsettled ho x
        simp only [bind_run]
        generalize complete d.logging x c (s, log) = completed at hcompleted ⊢
        obtain ⟨c, s, log⟩ := completed
        simp only [pure_run]
        split
        · next ho => exact hcompleted.close (isOpen_iff.mp ho)
        · exact hcompleted

/-- **A connection sends the replies to its requests.** At any time, whatever came in and however
long it took, what has been sent are the replies of the exchanges, in order. -/
theorem run_kept (hd : Keeps P Q d) (signals : List Signal) (h : Kept P Q c (s, log)) :
    Kept P Q (run d.logging signals c (s, log)).1 (run d.logging signals c (s, log)).2 := by
  induction signals generalizing c s log with
  | nil => exact h
  | cons signal signals ih =>
    have hstep : Kept P Q (step d.logging signal c (s, log)).1
        (step d.logging signal c (s, log)).2 := by
      cases signal with
      | bytes b => exact receiveIn_kept hd _ b h
      | time millis => exact pass_kept hd millis h
      | ended => exact finish_kept hd h
    exact ih hstep

end Connection

end Depot.Http
