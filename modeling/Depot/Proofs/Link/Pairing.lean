import Depot.Proofs.Link.Moves
import Depot.Proofs.Resp.WireForm

/-! # Each command gets its own reply

A peer that answers each command it hears with one reply, in pieces cut wherever, is paired up with
the commands: the reply to the first command is the answer to the first, and so on, since each reply
is taken off the stream whole and nothing else is (`Idle`). Bytes that are no reply put an end to
that. Their command is told so; the next command is sent, but gets nothing of what the peer writes,
and the link is gone (`replies_paired`). -/

namespace Depot.Link

open Resp (Command Value WireForm decode)
open Text.Utf8 (encode)

variable {π : Type}

/-- What a peer writes in pieces. -/
def written (pieces : List Bytes) : List Delivery := pieces.map .bytes

/-- The peer hears the commands in order and answers each with a wire form of the reply, in
pieces. -/
inductive Answers [Peer π] : π → List (Command × Value) → π → Prop
  | nil {peer : π} : Answers peer [] peer
  | cons {peer peer₁ peer' : π} {c : Command} {pieces : List Bytes} {v : Value}
      {exchanged : List (Command × Value)} :
      Peer.hear c.encode peer = (written pieces, peer₁) → WireForm pieces.flatten v →
      Answers peer₁ exchanged peer' → Answers peer ((c, v) :: exchanged) peer'

/-! ## Reading -/

theorem await_value {buffer rest : Bytes} {v : Value} (h : decode buffer = .value v rest)
    (underway : List Delivery) : Wire.await buffer underway = ⟨.ok v, rest, underway⟩ := by
  unfold Wire.await
  rw [h]

theorem await_fault {buffer : Bytes} {e : Resp.Fault} (h : decode buffer = .fault e)
    (underway : List Delivery) :
    Wire.await buffer underway = ⟨.error (.garbled e), buffer, underway⟩ := by
  unfold Wire.await
  rw [h]

/-- What is missing is waited for. -/
theorem await_more {buffer : Bytes} (h : decode buffer = .more) (piece : Bytes)
    (pieces : List Bytes) :
    Wire.await buffer (written (piece :: pieces)) =
      Wire.await (buffer ++ piece) (written pieces) := by
  rw [written, List.map_cons, Wire.await, h]
  rfl

/-- A whole reply is read, wherever its pieces were cut. -/
theorem await_reply {buffer : Bytes} {pieces : List Bytes} {v : Value}
    (h : decode (buffer ++ pieces.flatten) = .value v []) :
    ∃ left, left.flatten = [] ∧ Wire.await buffer (written pieces) = ⟨.ok v, [], written left⟩ := by
  induction pieces generalizing buffer with
  | nil =>
    rw [List.flatten_nil, List.append_nil] at h
    exact ⟨[], rfl, await_value h _⟩
  | cons piece pieces ih =>
    cases hbuffer : decode buffer with
    | value v' rest =>
      have hgrown := Resp.decode_append hbuffer (piece :: pieces).flatten
      rw [h, Scan.value.injEq] at hgrown
      obtain ⟨rfl, hrest⟩ := hgrown
      obtain ⟨rfl, hleft⟩ := List.append_eq_nil_iff.mp hrest.symm
      exact ⟨piece :: pieces, hleft, await_value hbuffer _⟩
    | more =>
      rw [List.flatten_cons, ← List.append_assoc] at h
      obtain ⟨left, hleft, hawait⟩ := ih h
      exact ⟨left, hleft, (await_more hbuffer piece pieces).trans hawait⟩
    | fault e =>
      rw [Resp.decode_fault_append hbuffer] at h
      cases h

/-- Bytes that are no reply are found out, wherever they were cut. -/
theorem await_garbled {buffer : Bytes} {pieces : List Bytes} {e : Resp.Fault}
    (h : decode (buffer ++ pieces.flatten) = .fault e) :
    ∃ buffer' left, Wire.await buffer (written pieces) =
      ⟨.error (.garbled e), buffer', written left⟩ := by
  induction pieces generalizing buffer with
  | nil =>
    rw [List.flatten_nil, List.append_nil] at h
    exact ⟨buffer, [], await_fault h _⟩
  | cons piece pieces ih =>
    cases hbuffer : decode buffer with
    | value v' rest =>
      rw [Resp.decode_append hbuffer] at h
      cases h
    | more =>
      rw [List.flatten_cons, ← List.append_assoc] at h
      obtain ⟨buffer', left, hawait⟩ := ih h
      exact ⟨buffer', left, (await_more hbuffer piece pieces).trans hawait⟩
    | fault e' =>
      rw [Resp.decode_fault_append hbuffer] at h
      cases h
      exact ⟨buffer, piece :: pieces, await_fault hbuffer _⟩

/-! ## Streams between two commands -/

/-- All that the peer wrote has been read. -/
structure Idle (wire : Wire π) (peer : π) : Prop where
  peer : wire.peer = peer
  buffer : wire.buffer = []
  underway : ∃ left, wire.underway = written left ∧ left.flatten = []
  cut : wire.cut = false
  ended : wire.ended = false

/-- The stream has ended, though the peer is still there. -/
structure Ended (wire : Wire π) : Prop where
  underway : ∃ left, wire.underway = written left
  cut : wire.cut = false
  ended : wire.ended = true

theorem listens_written {wire : Wire π} {left : List Bytes} (h : wire.underway = written left) :
    wire.listens = true := by
  have hhangUp : Delivery.hangUp ∉ wire.underway := by simp [h, written]
  simp [Wire.listens, hhangUp]

theorem idle_fresh (peer : π) : Idle ({ peer } : Wire π) peer :=
  ⟨rfl, rfl, ⟨[], rfl, rfl⟩, rfl, rfl⟩

/-- Nothing changes for a stream while nothing is sent. -/
theorem Idle.rest {wire : Wire π} {peer : π} (h : Idle wire peer) : Idle wire.rest peer := by
  obtain ⟨left, hunderway, -⟩ := h.underway
  refine ⟨h.peer, h.buffer, h.underway, ?_, h.ended⟩
  simp [Wire.rest, h.cut, listens_written hunderway]

theorem Ended.rest {wire : Wire π} (h : Ended wire) : Ended wire.rest := by
  obtain ⟨left, hunderway⟩ := h.underway
  refine ⟨h.underway, ?_, h.ended⟩
  simp [Wire.rest, h.cut, listens_written hunderway]

variable {wire : Wire π} {peer peer' : π} {c : Command}

theorem heardOf_written {left : List Bytes} (hcut : wire.cut = false)
    (h : wire.underway = written left) (c : Command) : heardOf c wire = [c.encode] := by
  simp [heardOf, hcut, listens_written h]

theorem Idle.heardOf (h : Idle wire peer) (c : Command) : heardOf c wire = [c.encode] := by
  obtain ⟨left, hunderway, -⟩ := h.underway
  exact heardOf_written h.cut hunderway c

theorem Ended.heardOf (h : Ended wire) (c : Command) : Link.heardOf c wire = [c.encode] := by
  obtain ⟨left, hunderway⟩ := h.underway
  exact heardOf_written h.cut hunderway c

theorem receive_reply {buffer rest : Bytes} {underway left : List Delivery} {v : Value}
    (h : Wire.await buffer underway = ⟨.ok v, rest, left⟩) (peer : π) :
    (⟨peer, buffer, underway, false, false⟩ : Wire π).receive =
      (.ok v, ⟨peer, rest, left, false, false⟩) := by
  simp [Wire.receive, h]

theorem receive_garbled {buffer rest : Bytes} {underway left : List Delivery} {e : Resp.Fault}
    (h : Wire.await buffer underway = ⟨.error (.garbled e), rest, left⟩) (peer : π) :
    (⟨peer, buffer, underway, false, false⟩ : Wire π).receive =
      (.error (.garbled e), ⟨peer, rest, left, false, true⟩) := by
  simp [Wire.receive, h]

variable [Peer π]

/-- A peer that is there hears the command, and then its reply is read. -/
theorem ask_written {left : List Bytes} (hcut : wire.cut = false)
    (h : wire.underway = written left) {deliveries : List Delivery}
    (hhear : Peer.hear c.encode wire.peer = (deliveries, peer')) :
    wire.ask c =
      { wire with peer := peer', underway := wire.underway ++ deliveries }.receive := by
  simp [Wire.ask, hcut, Wire.write, listens_written h, hhear]

/-- Nothing but what the peer writes about a command is read for it. -/
theorem Idle.ask_eq {pieces : List Bytes} (h : Idle wire peer)
    (hhear : Peer.hear c.encode peer = (written pieces, peer')) :
    ∃ left, left.flatten = pieces.flatten ∧
      wire.ask c = (⟨peer', [], written left, false, false⟩ : Wire π).receive := by
  obtain ⟨left, hunderway, hleft⟩ := h.underway
  refine ⟨left ++ pieces, by rw [List.flatten_append, hleft, List.nil_append], ?_⟩
  rw [← h.peer] at hhear
  rw [ask_written h.cut hunderway hhear, hunderway, h.buffer, h.cut, h.ended, written, written,
    written, List.map_append]

/-- A command gets the reply the peer gives to it. -/
theorem Idle.ask {pieces : List Bytes} {v : Value} (h : Idle wire peer)
    (hhear : Peer.hear c.encode peer = (written pieces, peer')) (hv : WireForm pieces.flatten v) :
    (wire.ask c).1 = .ok v ∧ Idle (wire.ask c).2 peer' := by
  obtain ⟨left, hleft, hask⟩ := h.ask_eq hhear
  have hdecode := Resp.decode_wireForm hv []
  rw [← hleft, List.append_nil, ← List.nil_append left.flatten] at hdecode
  obtain ⟨left', hleft', hawait⟩ := await_reply hdecode
  rw [hask, receive_reply hawait]
  exact ⟨rfl, rfl, rfl, ⟨left', rfl, hleft'⟩, rfl, rfl⟩

/-- A command is told that what the peer wrote is no reply. -/
theorem Idle.ask_garbled {pieces : List Bytes} {e : Resp.Fault} (h : Idle wire peer)
    (hhear : Peer.hear c.encode peer = (written pieces, peer'))
    (he : decode pieces.flatten = .fault e) :
    (wire.ask c).1 = .error (.garbled e) ∧ Ended (wire.ask c).2 := by
  obtain ⟨left, hleft, hask⟩ := h.ask_eq hhear
  rw [← hleft, ← List.nil_append left.flatten] at he
  obtain ⟨buffer, left', hawait⟩ := await_garbled he
  rw [hask, receive_garbled hawait]
  exact ⟨rfl, ⟨left', rfl⟩, rfl, rfl⟩

/-- On a stream that has ended no command gets anything. -/
theorem Ended.ask (h : Ended wire) (c : Command) :
    (wire.ask c).1 = .error (.broken .endOfStream) := by
  obtain ⟨left, hunderway⟩ := h.underway
  rw [ask_written h.cut hunderway rfl]
  simp [Wire.receive, h.ended]

/-! ## Moves between two commands -/

/-- The link is up, on a stream of which something is true. -/
structure Carries (good : Wire π → Prop) (s : Service (Link π)) : Prop where
  up : s.store.up = true
  wire : ∃ wire, s.store.wire = some wire ∧ good wire

def Move.command? : Move π → Option Command
  | .execute c => some c
  | _ => none

/-- The answer to a command, if the move is one. -/
def answer? : Move π × Result → Option Answer
  | (.execute _, .answered answer) => some answer
  | _ => none

variable {s s' : Service (Link π)} {m : Move π} {r : Result} {good : Wire π → Prop}
  {exchanged : List (Command × Value)} {moves : List (Move π)}

/-- As long as nobody sends a command or closes the link, all that can happen to the stream is that
time passes. -/
theorem Moved.quiet (h : Moved s m r s') (hs : Carries good s)
    (hrest : ∀ wire, good wire → good wire.rest) (hm : m ≠ .disconnect) (hc : m.command? = none) :
    Carries good s' ∧ s'.store.heard = s.store.heard ∧ answer? (m, r) = none := by
  have hbarrier : s.store.barrier ≠ none := by simp [barrier, hs.up]
  cases h with
  | connect htried =>
    cases htried with
    | barred _ => exact ⟨hs, rfl, rfl⟩
    | unopened hnone _ => exact absurd hnone hbarrier
    | refused hnone _ _ => exact absurd hnone hbarrier
    | opened hnone _ _ => exact absurd hnone hbarrier
  | takeLater _ => exact ⟨hs, rfl, rfl⟩
  | take _ => exact ⟨⟨hs.up, hs.wire⟩, rfl, rfl⟩
  | takeNothing _ => exact ⟨hs, rfl, rfl⟩
  | give => exact ⟨⟨hs.up, hs.wire⟩, rfl, rfl⟩
  | execute _ => cases hc
  | disconnectLater _ => exact absurd rfl hm
  | disconnect => exact absurd rfl hm
  | pause =>
    obtain ⟨wire, hwire, hgood⟩ := hs.wire
    exact ⟨⟨hs.up, wire.rest, by rw [hwire]; rfl, hrest wire hgood⟩, rfl, rfl⟩
  | stop => exact ⟨⟨hs.up, hs.wire⟩, rfl, rfl⟩

theorem quiet_after (hs : Carries good s) (hrest : ∀ wire, good wire → good wire.rest)
    (hmoves : ∀ m ∈ moves, m ≠ .disconnect ∧ m.command? = none) :
    Carries good (after moves s) ∧ (after moves s).store.heard = s.store.heard := by
  induction moves generalizing s with
  | nil => exact ⟨hs, rfl⟩
  | cons m moves ih =>
    rw [List.forall_mem_cons] at hmoves
    obtain ⟨hstep, hheard, -⟩ := (moved m s).quiet hs hrest hmoves.1.1 hmoves.1.2
    obtain ⟨hafter, hrestHeard⟩ := ih hstep hmoves.2
    exact ⟨hafter, hrestHeard.trans hheard⟩

/-! ## Runs -/

/-- A command gets its reply, and the stream is ready for the next one. -/
theorem Carries.execute {pieces : List Bytes} {v : Value} (hs : Carries (Idle · peer) s)
    (hhear : Peer.hear c.encode peer = (written pieces, peer')) (hv : WireForm pieces.flatten v) :
    ((Move.execute c).step s).1 = .answered (.ok v) ∧
      ((Move.execute c).step s).2.store.heard = s.store.heard ++ [c.encode] ∧
      Carries (Idle · peer') ((Move.execute c).step s).2 := by
  obtain ⟨wire, hwire, hidle⟩ := hs.wire
  obtain ⟨hanswer, hnext⟩ := hidle.ask hhear hv
  have hkept : ∀ cause, (wire.ask c).1 ≠ .error (.broken cause) := by
    rw [hanswer]
    nofun
  rw [execute_eq, carryOut_kept hwire hkept, hanswer, hidle.heardOf]
  exact ⟨rfl, rfl, hs.up, (wire.ask c).2, rfl, hnext⟩

/-- A command is told that what came for it is no reply, and the stream has ended. -/
theorem Carries.execute_garbled {pieces : List Bytes} {e : Resp.Fault}
    (hs : Carries (Idle · peer) s) (hhear : Peer.hear c.encode peer = (written pieces, peer'))
    (he : decode pieces.flatten = .fault e) :
    ((Move.execute c).step s).1 = .answered (.error (.garbled e)) ∧
      ((Move.execute c).step s).2.store.heard = s.store.heard ++ [c.encode] ∧
      Carries Ended ((Move.execute c).step s).2 := by
  obtain ⟨wire, hwire, hidle⟩ := hs.wire
  obtain ⟨hanswer, hnext⟩ := hidle.ask_garbled hhear he
  have hkept : ∀ cause, (wire.ask c).1 ≠ .error (.broken cause) := by
    rw [hanswer]
    nofun
  rw [execute_eq, carryOut_kept hwire hkept, hanswer, hidle.heardOf]
  exact ⟨rfl, rfl, hs.up, (wire.ask c).2, rfl, hnext⟩

/-- The answers to commands are the replies to them, in order. -/
theorem answers_paired (hs : Carries (Idle · peer) s) (hpeer : Answers peer exchanged peer')
    (hmoves : ∀ m ∈ moves, m ≠ .disconnect)
    (hcommands : moves.filterMap Move.command? = exchanged.map Prod.fst) :
    (trace moves s).filterMap answer? = exchanged.map (fun x => .ok x.2) ∧
      (after moves s).store.heard = s.store.heard ++ exchanged.map (fun x => x.1.encode) ∧
      Carries (Idle · peer') (after moves s) := by
  induction moves generalizing s peer exchanged with
  | nil =>
    obtain rfl : exchanged = [] := by simpa using hcommands.symm
    cases hpeer
    exact ⟨rfl, (List.append_nil _).symm, hs⟩
  | cons m moves ih =>
    rw [List.forall_mem_cons] at hmoves
    have hafter : after (m :: moves) s = after moves (m.step s).2 := rfl
    rw [hafter, trace, List.filterMap_cons]
    cases hc : m.command? with
    | none =>
      rw [List.filterMap_cons_none hc] at hcommands
      obtain ⟨hstep, hheard, hanswer⟩ :=
        (moved m s).quiet hs (fun _ => Idle.rest) hmoves.1 hc
      rw [hanswer, ← hheard]
      exact ih hstep hpeer hmoves.2 hcommands
    | some c =>
      obtain rfl : m = .execute c := by
        cases m <;> simp [Move.command?] at hc
        rw [hc]
      rw [List.filterMap_cons_some hc] at hcommands
      cases hpeer with
      | nil => cases hcommands
      | cons hhear hv hrest =>
        rw [List.map_cons, List.cons_eq_cons] at hcommands
        obtain ⟨rfl, hcommands⟩ := hcommands
        obtain ⟨hresult, hheard, hstep⟩ := hs.execute hhear hv
        obtain ⟨hanswers, hheardRest, hend⟩ := ih hstep hrest hmoves.2 hcommands
        rw [hresult, hheardRest, hheard, List.append_assoc]
        exact ⟨congrArg _ hanswers, rfl, hend⟩

/-- What is true once bytes that are no reply have been read. -/
structure Doomed (s : Service (Link π)) : Prop where
  up : s.store.up = true
  /-- The next command is sent, whatever is done in between, but gets no answer, whatever the peer
  writes, and the link is gone. -/
  next : ∀ waits : List (Move π), (∀ m ∈ waits, m ≠ .disconnect ∧ m.command? = none) → ∀ c,
    let ran := (Move.execute c).step (after waits s)
    ran.1 = .answered (.error (.broken .endOfStream)) ∧
      ran.2.store.heard = s.store.heard ++ [c.encode] ∧
      ran.2.store.up = false ∧ ran.2.store.wire = none
  /-- No command gets an answer any more until an attempt to connect succeeds. -/
  never : ∀ later : List (Move π), (∀ x ∈ trace later s, x.2 ≠ .connected (.ok ())) →
    ∀ x ∈ trace later s, ∀ v, x.2 ≠ .answered (.ok v)

theorem Carries.execute_ended (hs : Carries Ended s) (c : Command) :
    let ran := (Move.execute c).step s
    ran.1 = .answered (.error (.broken .endOfStream)) ∧
      ran.2.store.heard = s.store.heard ++ [c.encode] ∧
      ran.2.store.up = false ∧ ran.2.store.wire = none := by
  obtain ⟨wire, hwire, hended⟩ := hs.wire
  obtain ⟨events, hrun⟩ := carryOut_broken hwire (hended.ask c)
  rw [execute_eq, hrun, hended.heardOf]
  exact ⟨rfl, rfl, rfl, rfl⟩

/-- If the stream, as far as there is one, has ended, then no command gets an answer, and it stays
that way until an attempt to connect succeeds. -/
theorem Moved.ended (h : Moved s m r s') (hs : ∀ wire, s.store.wire = some wire → Ended wire)
    (hr : r ≠ .connected (.ok ())) :
    (∀ v, r ≠ .answered (.ok v)) ∧ ∀ wire, s'.store.wire = some wire → Ended wire := by
  cases h with
  | connect htried =>
    cases htried with
    | opened _ _ _ => exact absurd rfl hr
    | _ => exact ⟨nofun, hs⟩
  | execute hexecuted =>
    cases hexecuted with
    | noLink _ => exact ⟨nofun, hs⟩
    | answered hwire hask hkept =>
      have hanswer := congrArg Prod.fst hask
      rw [(hs _ hwire).ask] at hanswer
      exact absurd hanswer.symm (hkept _)
    | broken _ _ => exact ⟨nofun, nofun⟩
  | disconnect => exact ⟨nofun, nofun⟩
  | pause =>
    refine ⟨nofun, fun wire hwire => ?_⟩
    obtain ⟨wire', hwire', rfl⟩ := Option.map_eq_some_iff.mp hwire
    exact (hs wire' hwire').rest
  | _ => exact ⟨nofun, hs⟩

theorem never_answered (hs : ∀ wire, s.store.wire = some wire → Ended wire)
    (hr : ∀ x ∈ trace moves s, x.2 ≠ .connected (.ok ())) :
    ∀ x ∈ trace moves s, ∀ v, x.2 ≠ .answered (.ok v) := by
  induction moves generalizing s with
  | nil => exact fun x hx => absurd hx List.not_mem_nil
  | cons m moves ih =>
    rw [trace, List.forall_mem_cons] at hr ⊢
    obtain ⟨hanswer, hstep⟩ := (moved m s).ended hs hr.1
    exact ⟨hanswer, ih hstep hr.2⟩

theorem Carries.doomed (hs : Carries Ended s) : Doomed s where
  up := hs.up
  next waits hwaits c := by
    obtain ⟨hafter, hheard⟩ := quiet_after hs (fun _ => Ended.rest) hwaits
    rw [← hheard]
    exact hafter.execute_ended c
  never later hr := by
    obtain ⟨wire, hwire, hended⟩ := hs.wire
    refine never_answered (fun wire' hwire' => ?_) hr
    rw [hwire] at hwire'
    cases hwire'
    exact hended

/-! ## From the greeting on -/

/-- A stream is tried out with a greeting, and the link opens if the reply to it is no failure. -/
theorem connect_step (hbarrier : s.store.barrier = none) (peer : π) :
    (Move.connect (.ok peer)).step s =
      match verdict (({ peer } : Wire π).ask ping).1 with
      | .ok _ => (.connected (.ok ()), { s with store := { s.store with
          wire := some (({ peer } : Wire π).ask ping).2
          up := true
          heard := s.store.heard ++ [ping.encode] } })
      | .error e => (.connected (.error e), { s with store := { s.store with
          heard := s.store.heard ++ [ping.encode] } }) := by
  rw [connect_eq]
  unfold establish
  rw [hbarrier]
  simp only [tryOut]
  cases verdict (({ peer } : Wire π).ask ping).1 with
  | ok u => rfl
  | error e => rfl

/-- The reply to the greeting opens the link or is handed on. -/
theorem connect_reply {pieces : List Bytes} {v : Value} (hfree : s.store.barrier = none)
    (hhear : Peer.hear ping.encode peer = (written pieces, peer'))
    (hv : WireForm pieces.flatten v) :
    let connected := (Move.connect (.ok peer)).step s
    connected.2.store.heard = s.store.heard ++ [ping.encode] ∧
      (∀ text, v = .failure text →
        connected.1 = .connected (.error (.store text)) ∧ connected.2.store.wire = none) ∧
      ((∀ text, v ≠ .failure text) →
        connected.1 = .connected (.ok ()) ∧ Carries (Idle · peer') connected.2) := by
  obtain ⟨hgreeting, hidle⟩ := (idle_fresh peer).ask hhear hv
  have hstep := connect_step hfree peer
  rw [hgreeting] at hstep
  rw [hstep]
  cases v with
  | failure text =>
    exact ⟨rfl, fun text' h => by cases h; exact ⟨rfl, wire_of_free hfree⟩,
      fun h => absurd rfl (h text)⟩
  | _ => exact ⟨rfl, nofun, fun _ => ⟨rfl, rfl, _, rfl, hidle⟩⟩

/-- Bytes that are no reply to the greeting keep the link from being opened. -/
theorem connect_garbled {pieces : List Bytes} {e : Resp.Fault} (hfree : s.store.barrier = none)
    (hhear : Peer.hear ping.encode peer = (written pieces, peer'))
    (he : decode pieces.flatten = .fault e) :
    (Move.connect (.ok peer)).step s =
      (.connected (.error (.store (NoAnswer.garbled e).message)),
        { s with store := { s.store with heard := s.store.heard ++ [ping.encode] } }) := by
  obtain ⟨hgreeting, -⟩ := (idle_fresh peer).ask_garbled hhear he
  rw [connect_step hfree, hgreeting]
  rfl

/-- The replies of a peer to the greeting and to the commands after it are paired up with them, on a
link that was free. The reply to the greeting opens the link or, if it is a failure, is handed on.
From then on the reply to a command is its answer, whether the link is held or not, the peer hears
the commands in order, and no byte is left over, up to bytes that are no reply: their command is
told so, and nothing that comes behind them is an answer to anything (`Doomed`). Bytes that are no
reply to the greeting keep the link from being opened. -/
theorem replies_paired (s : Service (Link π)) (peer peer' : π) (greeting : Value)
    (exchanged : List (Command × Value)) (moves : List (Move π)) (hfree : s.store.barrier = none)
    (hpeer : Answers peer ((ping, greeting) :: exchanged) peer')
    (hmoves : ∀ m ∈ moves, m ≠ .disconnect)
    (hcommands : moves.filterMap Move.command? = exchanged.map Prod.fst) :
    let connected := (Move.connect (.ok peer)).step s
    let s' := after moves connected.2
    connected.2.store.heard = s.store.heard ++ [ping.encode] ∧
      (∀ text, greeting = .failure text →
        connected.1 = .connected (.error (.store text)) ∧ connected.2.store.wire = none) ∧
      ((∀ text, greeting ≠ .failure text) →
        connected.1 = .connected (.ok ()) ∧
        (trace moves connected.2).filterMap answer? = exchanged.map (fun x => .ok x.2) ∧
        s'.store.heard = connected.2.store.heard ++ exchanged.map (fun x => x.1.encode) ∧
        Carries (Idle · peer') s' ∧
        ∀ c pieces peer'' e, Peer.hear c.encode peer' = (written pieces, peer'') →
          decode pieces.flatten = .fault e →
            let ran := (Move.execute c).step s'
            ran.1 = .answered (.error (.garbled e)) ∧
              ran.2.store.heard = s'.store.heard ++ [c.encode] ∧ Doomed ran.2) ∧
      ∀ peer₁ pieces peer₂ e, Peer.hear ping.encode peer₁ = (written pieces, peer₂) →
        decode pieces.flatten = .fault e →
          (Move.connect (.ok peer₁)).step s =
            (.connected (.error (.store (NoAnswer.garbled e).message)),
              { s with store := { s.store with heard := s.store.heard ++ [ping.encode] } }) := by
  intro connected s'
  cases hpeer with
  | cons hhear hv hrest =>
    obtain ⟨hheard, hfailure, hopened⟩ := connect_reply hfree hhear hv
    refine ⟨hheard, hfailure, fun hgreeting => ?_, fun _ _ _ _ => connect_garbled hfree⟩
    obtain ⟨hresult, hcarries⟩ := hopened hgreeting
    obtain ⟨hanswers, hheardAll, hend⟩ := answers_paired hcarries hrest hmoves hcommands
    refine ⟨hresult, hanswers, hheardAll, hend, fun c pieces peer'' e hhear he => ?_⟩
    obtain ⟨hgarbled, hheardLast, hended⟩ := hend.execute_garbled hhear he
    exact ⟨hgarbled, hheardLast, hended.doomed⟩

/-- A peer says `hello` in two pieces to a command sent while the link is held, and something that
is no reply to the next one; the one after that gets nothing, though there is more to read. -/
theorem replies_paired_script :
    let say (text : String) : Bytes := encode text
    let peer : Script := ⟨[written [say "+PO", say "NG\r\n"],
      written [say "$5\r\nhel", say "lo\r\n"], written [say "?\r\n", say ":1\r\n"],
      written [say "+OK\r\n"]]⟩
    let get : Command := ⟨"GET", [encode "k"]⟩
    let moves : List (Move Script) := [.take, .execute get, .give, .pause]
    let connected := (Move.connect (.ok peer)).step ({ store := {} } : Service (Link Script))
    let ran := (Move.execute get).step (after moves connected.2)
    connected.1 = .connected (.ok ()) ∧
      (trace moves connected.2).filterMap answer? = [.ok (.bulk (encode "hello"))] ∧
      ran.1 = .answered (.error (.garbled (.unknownKind 0x3F))) ∧
      ((Move.execute get).step ran.2).1 = .answered (.error (.broken .endOfStream)) := by
  intro say peer get moves connected ran
  have hpong : WireForm [say "+PO", say "NG\r\n"].flatten (.status "PONG") := by
    have hline : [say "+PO", say "NG\r\n"].flatten = Resp.line '+' (encode "PONG") := by
      decide +kernel
    have hread : Text.Utf8.lossy (encode "PONG") = "PONG" := by decide +kernel
    rw [hline, ← hread]
    exact .status (by unfold Resp.IsLine; decide +kernel)
  have hhello : WireForm [say "$5\r\nhel", say "lo\r\n"].flatten (.bulk (encode "hello")) := by
    have hline : [say "$5\r\nhel", say "lo\r\n"].flatten =
        Resp.line '$' (encode "5") ++ (encode "hello" ++ Text.Ascii.crlf) := by decide +kernel
    rw [hline]
    exact .bulk (by unfold Resp.IsLine; decide +kernel) (by decide +kernel) (by decide +kernel)
  have hpeer : Answers peer [(ping, .status "PONG"), (get, .bulk (encode "hello"))] _ :=
    .cons rfl hpong (.cons rfl hhello .nil)
  obtain ⟨-, -, hopened, -⟩ := replies_paired ({ store := {} } : Service (Link Script)) peer _
    (.status "PONG") [(get, .bulk (encode "hello"))] moves rfl hpeer (by simp [moves]) rfl
  obtain ⟨hconnected, hanswers, -, -, hgarbled⟩ := hopened nofun
  obtain ⟨hran, -, hdoomed⟩ :=
    hgarbled get [say "?\r\n", say ":1\r\n"] _ (.unknownKind 0x3F) rfl rfl
  obtain ⟨hnext, -⟩ := hdoomed.next [] nofun get
  exact ⟨hconnected, hanswers, hran, hnext⟩

end Depot.Link
