import Depot.Link.Script
import Depot.Proofs.Resp.Reading

/-! # What may happen to a link

The users of a link try to connect it, hold it for several commands, send commands, give it back and
close it, in any order and against any peer. A command fails with the stream if it cannot be written
or no whole reply comes (`Fails`). Each move says all it can do (`executed`, `tried`, `moved`), and
what every run keeps follows from that: the link is up exactly while there is a stream, and only a
command that fails with the stream drops it and raises the stop flag (`run_lawful`). -/

namespace Depot.Link

open Resp (Command Value decode)

/-- What is done with a link, or beside it. While somebody holds the link, commands are those of
the holder. -/
inductive Move (π : Type) where
  /-- A stream to a peer is opened, if that works, and tried out. -/
  | connect (stream : Except Fault π)
  /-- The link is to be held for several commands. -/
  | take
  | give
  | execute (c : Command)
  | disconnect
  /-- Nothing is sent for a while. -/
  | pause
  /-- The service is told to go down for another reason. -/
  | stop (reason : StopReason)

/-- What comes of a move. -/
inductive Result where
  | connected (result : Except ConnectFault Unit)
  | answered (answer : Answer)
  | done
  /-- The move has to wait until the link is given back, and does nothing before. -/
  | waits

variable {π : Type}

section Moves

variable [Peer π]

namespace Move

def step (s : Service (Link π)) : Move π → Result × Service (Link π)
  | .connect stream =>
    let tried := s.store.establish stream
    (.connected tried.1, { s with store := tried.2 })
  | .take =>
    if s.store.held then (.waits, s)
    else
      match s.store.hold with
      | .ok store => (.done, { s with store })
      | .error e => (.answered (.error e), s)
  | .give => (.done, { s with store := s.store.release })
  | .execute c =>
    let carried := (Link.carryOut c).run s
    (.answered carried.1, carried.2)
  | .disconnect =>
    if s.store.held then (.waits, s)
    else (.done, { s.logging s.store.closeLog with store := s.store.close })
  | .pause => (.done, { s with store := s.store.rest })
  | .stop reason => (.done, ((Service.raise reason).run s).2)

end Move

/-- What comes of moves made one after the other. -/
def trace : List (Move π) → Service (Link π) → List (Move π × Result)
  | [], _ => []
  | m :: moves, s => (m, (m.step s).1) :: trace moves (m.step s).2

/-- The service after moves. -/
def after (moves : List (Move π)) (s : Service (Link π)) : Service (Link π) :=
  moves.foldl (fun s m => (m.step s).2) s

end Moves

variable {s s' : Service (Link π)} {m : Move π} {r : Result} {c : Command}

/-! ## When a round trip fails with the stream -/

/-- What a command is told for which these bytes come, and no more. To wait for a peer that stays
silent has no end, and counts as a failure of its own. -/
def ending (incoming : Bytes) (underway : List Delivery) : Fault :=
  if .hangUp ∈ underway then
    if incoming = [] then .endOfStream else .bytesRemaining
  else .silence

theorem await_ne_noLink (buffer : Bytes) (underway : List Delivery) :
    (Wire.await buffer underway).answer ≠ .error .noLink := by
  induction underway generalizing buffer with
  | nil =>
    unfold Wire.await
    split
    · nofun
    · nofun
    · nofun
  | cons delivery later ih =>
    unfold Wire.await
    split
    · nofun
    · nofun
    · cases delivery with
      | bytes b => exact ih _
      | hangUp => nofun

/-- A command that is asked of a stream has an answer, or the stream broke, or what came is no
reply. -/
theorem ask_ne_noLink [Peer π] (c : Command) (wire : Wire π) : (wire.ask c).1 ≠ .error .noLink := by
  unfold Wire.ask
  split
  · nofun
  · unfold Wire.receive
    split
    · nofun
    · exact await_ne_noLink _ _

/-- All that a command can come to, and what it leaves behind. -/
inductive Executed [Peer π] (c : Command) (s : Service (Link π)) : Answer → Service (Link π) → Prop
  /-- Without a stream nothing happens. -/
  | noLink : s.store.wire = none → Executed c s (.error .noLink) s
  /-- Replies leave the link up, and so do bytes that are none. -/
  | answered {wire next : Wire π} {answer : Answer} :
      s.store.wire = some wire → wire.ask c = (answer, next) →
      (∀ cause, answer ≠ .error (.broken cause)) →
      Executed c s answer
        { s with store := { s.store with
            wire := some next
            heard := s.store.heard ++ heardOf c wire } }
  | broken {wire next : Wire π} {cause : Fault} {events : List Event} :
      s.store.wire = some wire → wire.ask c = (.error (.broken cause), next) →
      Executed c s (.error (.broken cause))
        { store := { s.store with
            wire := none
            up := false
            heard := s.store.heard ++ heardOf c wire }
          flag := if s.store.watchdog then s.flag.raise .linkLost else s.flag
          events }

/-- A link that lets an attempt through has no stream. -/
theorem wire_of_free {l : Link π} (h : l.barrier = none) : l.wire = none := by
  unfold barrier at h
  split at h
  · cases h
  split at h
  · cases h
  split at h
  · cases h
  · next hwire => simpa using hwire

variable [Peer π]

theorem carryOut_noWire (h : s.store.wire = none) (c : Command) :
    (carryOut c).run s = (.error .noLink, s) := by
  obtain ⟨⟨wire, up, held, watchdog, heard⟩, flag, events⟩ := s
  obtain rfl : wire = none := h
  rfl

/-- An answer that does not say that the stream broke is handed on, and the link stays up. -/
theorem carryOut_kept {wire : Wire π} (h : s.store.wire = some wire)
    (hkept : ∀ cause, (wire.ask c).1 ≠ .error (.broken cause)) :
    (carryOut c).run s = ((wire.ask c).1, { s with store := { s.store with
      wire := some (wire.ask c).2
      heard := s.store.heard ++ heardOf c wire } }) := by
  obtain ⟨⟨stream, up, held, watchdog, heard⟩, flag, events⟩ := s
  obtain rfl : stream = some wire := h
  have hlink := ask_ne_noLink c wire
  generalize hask : wire.ask c = asked at hkept hlink ⊢
  obtain ⟨answer, next⟩ := asked
  cases answer with
  | ok v => simp [carryOut, hask]; rfl
  | error e =>
    cases e with
    | noLink => exact absurd rfl hlink
    | broken cause => exact absurd rfl (hkept cause)
    | garbled cause => simp [carryOut, hask]; rfl

/-- A stream that broke is dropped, and with a watchdog the service goes down. -/
theorem carryOut_broken {wire : Wire π} (h : s.store.wire = some wire) {cause : Fault}
    (hbroken : (wire.ask c).1 = .error (.broken cause)) :
    ∃ events, (carryOut c).run s = (.error (.broken cause),
      { store := { s.store with
          wire := none
          up := false
          heard := s.store.heard ++ heardOf c wire }
        flag := if s.store.watchdog then s.flag.raise .linkLost else s.flag
        events }) := by
  obtain ⟨⟨stream, up, held, watchdog, heard⟩, flag, events⟩ := s
  obtain rfl : stream = some wire := h
  generalize hask : wire.ask c = asked at hbroken
  obtain ⟨answer, next⟩ := asked
  obtain rfl : answer = .error (.broken cause) := hbroken
  cases watchdog with
  | false => exact ⟨_, by simp [carryOut, hask]; rfl⟩
  | true => exact ⟨_, by simp [carryOut, hask]; rfl⟩

theorem executed (c : Command) (s : Service (Link π)) :
    Executed c s ((carryOut c).run s).1 ((carryOut c).run s).2 := by
  cases hwire : s.store.wire with
  | none =>
    rw [carryOut_noWire hwire]
    exact .noLink hwire
  | some wire =>
    by_cases hbroken : ∃ cause, (wire.ask c).1 = .error (.broken cause)
    · obtain ⟨cause, hbroken⟩ := hbroken
      obtain ⟨events, hrun⟩ := carryOut_broken hwire hbroken
      rw [hrun]
      exact .broken hwire (Prod.ext hbroken rfl)
    · have hkept (cause : Fault) : (wire.ask c).1 ≠ .error (.broken cause) :=
        fun h => hbroken ⟨cause, h⟩
      rw [carryOut_kept hwire hkept]
      exact .answered hwire rfl hkept

/-- A command is told what its round trip comes to, or that there is no stream. -/
theorem carryOut_answer (c : Command) (s : Service (Link π)) :
    ((carryOut c).run s).1 =
      s.store.wire.elim (.error .noLink) fun wire => (wire.ask c).1 := by
  have hexecuted := executed c s
  generalize ((carryOut c).run s).1 = answer, ((carryOut c).run s).2 = s' at hexecuted ⊢
  cases hexecuted with
  | noLink hwire => rw [hwire, Option.elim_none]
  | answered hwire hask _ => rw [hwire, Option.elim_some, hask]
  | broken hwire hask => rw [hwire, Option.elim_some, hask]

/-! ## What an attempt to connect does -/

/-- All that an attempt can come to, and what it leaves behind. -/
inductive Tried (stream : Except Fault π) (l : Link π) : Except ConnectFault Unit → Link π → Prop
  | barred {e : ConnectFault} : l.barrier = some e → Tried stream l (.error e) l
  | unopened {cause : Fault} :
      l.barrier = none → stream = .error cause → Tried stream l (.error (.broken cause)) l
  | refused {peer : π} {e : ConnectFault} :
      l.barrier = none → stream = .ok peer →
      verdict (({ peer } : Wire π).ask ping).1 = .error e →
      Tried stream l (.error e) { l with heard := l.heard ++ [ping.encode] }
  | opened {peer : π} :
      l.barrier = none → stream = .ok peer →
      verdict (({ peer } : Wire π).ask ping).1 = .ok () →
      Tried stream l (.ok ()) { l with
        wire := some (({ peer } : Wire π).ask ping).2
        up := true
        heard := l.heard ++ [ping.encode] }

theorem tried (stream : Except Fault π) (l : Link π) :
    Tried stream l (l.establish stream).1 (l.establish stream).2 := by
  unfold establish
  cases hbarrier : l.barrier with
  | some e => exact .barred hbarrier
  | none =>
    cases stream with
    | error cause => exact .unopened hbarrier rfl
    | ok peer =>
      simp only [tryOut]
      cases hverdict : verdict (({ peer } : Wire π).ask ping).1 with
      | error e => exact .refused hbarrier rfl hverdict
      | ok u => exact .opened hbarrier rfl hverdict

/-! ## What a move does -/

/-- All that a move can come to, and what it leaves behind. -/
inductive Moved (s : Service (Link π)) : Move π → Result → Service (Link π) → Prop
  | connect {stream : Except Fault π} {result : Except ConnectFault Unit} {l : Link π} :
      Tried stream s.store result l →
      Moved s (.connect stream) (.connected result) { s with store := l }
  | takeLater : s.store.held = true → Moved s .take .waits s
  | take : s.store.wire.isSome = true →
      Moved s .take .done { s with store := { s.store with held := true } }
  | takeNothing : s.store.wire = none → Moved s .take (.answered (.error .noLink)) s
  | give : Moved s .give .done { s with store := { s.store with held := false } }
  | execute {c : Command} {answer : Answer} {s' : Service (Link π)} :
      Executed c s answer s' → Moved s (.execute c) (.answered answer) s'
  | disconnectLater : s.store.held = true → Moved s .disconnect .waits s
  | disconnect {events : List Event} :
      Moved s .disconnect .done
        { store := { s.store with wire := none, up := false }, flag := s.flag, events }
  | pause : Moved s .pause .done
      { s with store := { s.store with wire := s.store.wire.map Wire.rest } }
  | stop {reason : StopReason} {events : List Event} :
      Moved s (.stop reason) .done { store := s.store, flag := s.flag.raise reason, events }

theorem connect_eq (stream : Except Fault π) (s : Service (Link π)) :
    (Move.connect stream).step s =
      (.connected (s.store.establish stream).1,
        { s with store := (s.store.establish stream).2 }) := rfl

theorem execute_eq (c : Command) (s : Service (Link π)) :
    (Move.execute c).step s =
      (.answered ((carryOut c).run s).1, ((carryOut c).run s).2) := rfl

theorem moved (m : Move π) (s : Service (Link π)) : Moved s m (m.step s).1 (m.step s).2 := by
  cases m with
  | connect stream => exact .connect (tried stream s.store)
  | take =>
    obtain ⟨⟨wire, up, held, watchdog, heard⟩, flag, events⟩ := s
    cases held with
    | true => exact .takeLater rfl
    | false =>
      cases wire with
      | none => exact .takeNothing rfl
      | some wire => exact .take rfl
  | give => exact .give
  | execute c => exact .execute (executed c s)
  | disconnect =>
    simp only [Move.step]
    cases hheld : s.store.held with
    | true => exact .disconnectLater hheld
    | false => exact .disconnect
  | pause => exact .pause
  | stop reason => exact .stop

/-- The link is up exactly while there is a stream. -/
theorem Moved.up (h : Moved s m r s') (hup : s.store.up = s.store.wire.isSome) :
    s'.store.up = s'.store.wire.isSome := by
  cases h with
  | connect htried =>
    cases htried with
    | opened _ _ _ => rfl
    | _ => exact hup
  | execute hexecuted =>
    cases hexecuted with
    | noLink _ => exact hup
    | answered hwire _ _ => simpa [hwire] using hup
    | broken _ _ => rfl
  | disconnect => rfl
  | pause => simpa using hup
  | _ => exact hup

/-- Without a stream there is none until an attempt to connect succeeds. -/
theorem Moved.down (h : Moved s m r s') (hwire : s.store.wire = none)
    (hr : r ≠ .connected (.ok ())) : s'.store.wire = none := by
  cases h with
  | connect htried =>
    cases htried with
    | opened _ _ _ => exact absurd rfl hr
    | _ => exact hwire
  | execute hexecuted =>
    cases hexecuted with
    | noLink _ => exact hwire
    | answered hsome _ _ =>
      rw [hwire] at hsome
      cases hsome
    | broken _ _ => rfl
  | disconnect => rfl
  | pause => simp [hwire]
  | _ => exact hwire

theorem Moved.watchdog (h : Moved s m r s') : s'.store.watchdog = s.store.watchdog := by
  cases h with
  | connect htried => cases htried <;> rfl
  | execute hexecuted => cases hexecuted <;> rfl
  | _ => rfl

/-- Why a move has the service go down, if it does: it is told to, or there is a watchdog and the
round trip of a command ends with the stream. -/
def Move.reason? (s : Service (Link π)) : Move π → Option StopReason
  | .stop reason => some reason
  | .execute c =>
    match s.store.wire with
    | some wire =>
      match (wire.ask c).1 with
      | .error (.broken _) => if s.store.watchdog then some .linkLost else none
      | _ => none
    | none => none
  | _ => none

/-- The reasons there were, in order. -/
def reasons : List (Move π) → Service (Link π) → List StopReason
  | [], _ => []
  | m :: moves, s => (m.reason? s).toList ++ reasons moves (m.step s).2

/-- The stop flag is raised by what brings the service down, and by nothing else; a flag that is up
stays as it is. -/
theorem Moved.flag (h : Moved s m r s') :
    s'.flag.reason = s.flag.reason.or (m.reason? s) := by
  cases h with
  | execute hexecuted =>
    cases hexecuted with
    | noLink hwire => simp [Move.reason?, hwire]
    | answered hwire hask hkept => simp [Move.reason?, hwire, hask]
    | broken hwire hask =>
      rw [Move.reason?, hwire]
      simp only [hask]
      cases s.store.watchdog <;> simp [StopFlag.raise]
  | stop => simp [Move.reason?, StopFlag.raise]
  | _ => simp [Move.reason?]

/-! ## Runs -/

/-- A peer that replies to the greeting hangs up on the first command. The second is not sent, and
with a watchdog the service goes down. -/
example :
    let peer : Script := ⟨[[.bytes (Text.Utf8.encode "+PONG\r\n")], [.hangUp]]⟩
    let get : Command := ⟨"GET", [Text.Utf8.encode "k"]⟩
    let fresh : Service (Link Script) := { store := { watchdog := true } }
    let s := after [.connect (.ok peer), .execute get, .execute get] fresh
    s.store.wire.isNone = true ∧ s.store.up = false ∧ s.flag.reason = some .linkLost ∧
      s.store.heard = [ping.encode, get.encode] := by
  decide +kernel

end Depot.Link
