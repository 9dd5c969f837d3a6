import Mathlib.Data.List.Infix
import Depot.Proofs.Http.Bodies

/-! # When a connection has idled for too long

An observer who reads along with a connection and has two stopwatches (`Watch`), one for the last
byte and one for the last message, can tell when an idle limit ends it: `idle_measured`. It is the
last message that counts, be it a head, a piece of a body or its end. The two differ only while a
head has arrived in part, and then a client that never stops sending may be cut off
(`idle_between_bytes`).

What a connection reads, and what it does with that, has nothing to do with the limit
(`Heedless`). -/

namespace Depot.Http

variable {δ : Type}

namespace Message

variable {η : Type}

theorem glue_ne_nil (m : Message η) (ms : List (Message η)) : glue m ms ≠ [] := by
  unfold glue
  split <;> exact List.cons_ne_nil _ _

theorem merge_eq_nil {ms : List (Message η)} : merge ms = [] ↔ ms = [] := by
  cases ms with
  | nil => exact iff_of_true rfl rfl
  | cons m ms => exact iff_of_false (glue_ne_nil m (merge ms)) (List.cons_ne_nil m ms)

end Message

namespace Decoder

variable {d : Decoder} {b : Bytes}

theorem Next.length_le {d' : Decoder} {b' : Bytes} {m : Message Head} (h : Next d b m d' b') :
    b'.length ≤ b.length := by
  cases h with
  | head hread => exact (Head.rest_of_read_head hread).2.le
  | chunk _ => simp
  | eof => exact le_rfl

/-- A reading without a message leaves everything as it was. -/
theorem read_of_no_message (hf : (d.read b).fault = none) (hm : (d.read b).messages = []) :
    d.read b = ⟨[], d, b, none⟩ := by
  obtain ⟨_, hr⟩ | ⟨e, rest, _, _, hr⟩ | ⟨m, d', b', _, hr⟩ := read_cases d b
  · exact hr
  · rw [hr] at hf
    cases hf
  · rw [hr] at hm
    cases hm

/-- However bodies were cut, there are messages or there are none. -/
theorem Alike.messages_eq_nil {r s : Drained} (h : Alike r s) :
    r.messages = [] ↔ s.messages = [] := by
  rw [← Message.merge_eq_nil, h.messages, Message.merge_eq_nil]

end Decoder

namespace Connection

/-! ## The limit -/

/-- The connection under another idle limit. -/
@[simps]
def withLimit (idle : Option Nat) (c : Connection) : Connection := { c with idle }

/-- Whether something that is done to a connection does not look at its idle limit. -/
def Heedless (f : Connection → StateM δ Connection) : Prop :=
  ∀ idle c s, f (withLimit idle c) s = (withLimit idle (f c s).1, (f c s).2)

theorem Heedless.bind {f g : Connection → StateM δ Connection} (hf : Heedless f)
    (hg : Heedless g) : Heedless fun c => f c >>= g := by
  intro idle c s
  simp only [bind_run, hf idle c s]
  exact hg idle _ _

theorem Apart.heedless {f : Connection → StateM δ Connection} (h : Apart f) : Heedless f := by
  intro idle c s
  have hlimit := h (withLimit idle c) c s
  have hkept := h.kept c s
  change f (withLimit idle c) s = _ at hlimit
  rw [hlimit, hkept]
  rfl

variable {d : Responder δ} {c c₁ c₂ : Connection} {s : δ}

theorem pump_heedless (rounds : Nat) : Heedless (pump d rounds) := by
  induction rounds with
  | zero => exact fun _ _ _ => rfl
  | succ rounds ih =>
    intro idle c s
    unfold pump
    have hopen : (withLimit idle c).isOpen = c.isOpen := rfl
    simp only [hopen, withLimit_decoder, withLimit_buffer]
    split
    · cases c.decoder.step c.buffer with
      | more => rfl
      | fault cause rest =>
        exact (broken_apart cause).heedless idle { c with buffer := rest } s
      | message m decoder rest =>
        exact (handle_apart m).heedless.bind ih idle (c.after m decoder rest) s
    · rfl

theorem receiveIn_heedless (portions : Nat) (bytes : Bytes) :
    Heedless (receiveIn d portions bytes) := by
  induction portions generalizing bytes with
  | zero => exact fun _ _ _ => rfl
  | succ portions ih =>
    intro idle c s
    unfold receiveIn
    have hopen : (withLimit idle c).isOpen = c.isOpen := rfl
    simp only [hopen]
    split
    · rfl
    · exact (pump_heedless _).bind (ih _) idle { c with block := _, buffer := _ } s

theorem settle_heedless : Heedless (settle d) := fun idle c s => pump_heedless _ idle c s

theorem finish_heedless : Heedless (finish d) := by
  refine (settle_heedless).bind fun idle c s => ?_
  have hopen : (withLimit idle c).isOpen = c.isOpen := rfl
  simp only [hopen, withLimit_intake, withLimit_buffer]
  split
  · rfl
  split
  · exact (broken_apart _).heedless idle c s
  cases c.intake with
  | none => rfl
  | some x =>
    refine (complete_apart x).heedless.bind (fun idle c s => ?_) idle c s
    have hopen : (withLimit idle c).isOpen = c.isOpen := rfl
    rw [hopen]
    split
    · rfl
    · rfl

theorem Heedless.idle {f : Connection → StateM δ Connection} (h : Heedless f) (c : Connection)
    (s : δ) : (f c s).1.idle = c.idle :=
  congrArg (fun run => run.1.idle) (h c.idle c s)

/-! ## What is read, and when -/

/-- The connection has become another by a reading of what had arrived. -/
structure Reads (c : Connection) (r : Decoder.Drained) (c' : Connection) : Prop where
  fault : r.fault = none
  decoder : c'.decoder = r.decoder
  buffer : c'.buffer = r.rest
  block : c'.block.Fits c'.buffer.length
  now : c'.now = c.now
  since : c'.since = if r.messages = [] then c.since else c.now

theorem Reads.nothing (hmore : c.decoder.step c.buffer = .more)
    (h : c.block.Fits c.buffer.length) : c.Reads (c.decoder.read (c.buffer ++ [])) c := by
  rw [List.append_nil, Decoder.read_more hmore]
  exact ⟨rfl, rfl, rfl, h, rfl, rfl⟩

/-- A reading that goes on where another stopped. -/
theorem Reads.trans {r r₁ r₂ : Decoder.Drained} (h₁ : c.Reads r₁ c₁) (h₂ : c₁.Reads r₂ c₂)
    (h : Decoder.Alike r (r₂.after r₁.messages)) : c.Reads r c₂ := by
  refine ⟨h.fault.trans h₂.fault, h₂.decoder.trans h.decoder.symm, h₂.buffer.trans h.rest.symm,
    h₂.block, h₂.now.trans h₁.now, ?_⟩
  have hnone : r.messages = [] ↔ r₁.messages = [] ∧ r₂.messages = [] := by
    rw [h.messages_eq_nil]
    exact List.append_eq_nil_iff
  rw [h₂.since, h₁.since, h₁.now]
  by_cases hm₂ : r₂.messages = []
  · simp only [hnone, hm₂, and_true, if_true]
  · simp only [hnone, hm₂, and_false, if_false]

theorem handle_reads {m : Message Head} {decoder : Decoder} {rest : Bytes}
    (hn : Decoder.Next c.decoder c.buffer m decoder rest) (h : c.block.Fits c.buffer.length) :
    c.Reads ⟨[m], decoder, rest, none⟩ (handle d m (c.after m decoder rest) s).1 := by
  rw [(handle_apart m).kept]
  exact ⟨rfl, rfl, rfl, blockAfter_fits m h hn.length_le, rfl, rfl⟩

/-- Taking what the buffer holds reads it, unless that ends the connection. -/
theorem pump_reads {rounds : Nat} (hrounds : Decoder.weight c.decoder c.buffer < rounds)
    (hblock : c.block.Fits c.buffer.length) (ho : (pump d rounds c s).1.isOpen = true) :
    c.Reads (c.decoder.read c.buffer) (pump d rounds c s).1 := by
  induction rounds generalizing c s with
  | zero => exact absurd hrounds (Nat.not_lt_zero _)
  | succ rounds ih =>
    unfold pump at ho ⊢
    split at ho
    · next hopen =>
      rw [if_pos hopen]
      cases hs : c.decoder.step c.buffer with
      | more =>
        have hnothing := Reads.nothing hs hblock
        rwa [List.append_nil] at hnothing
      | fault cause rest =>
        simp only [hs] at ho
        rw [broken_closed] at ho
        cases ho
      | message m decoder rest =>
        simp only [hs] at ho
        have hn := Decoder.next_of_step hs
        have hreads := handle_reads (d := d) (s := s) hn hblock
        have hlater := ih (c := (handle d m (c.after m decoder rest) s).1) (by
          rw [hreads.decoder, hreads.buffer]
          exact Nat.lt_of_lt_of_le hn.weight_lt (Nat.le_of_lt_succ hrounds)) hreads.block ho
        refine hreads.trans hlater ?_
        rw [hreads.decoder, hreads.buffer, Decoder.read_message hn]
        exact .refl _
    · next hclosed =>
      exact absurd ho hclosed

theorem receiveIn_closed (portions : Nat) (bytes : Bytes) (s : δ) (ho : c.isOpen = false) :
    receiveIn d portions bytes c s = (c, s) := by
  cases portions with
  | zero => rfl
  | succ portions =>
    unfold receiveIn
    rw [if_pos (.inr (by rw [ho]; rfl))]
    rfl

/-- Bytes that arrive are read behind those that wait, unless that ends the connection. -/
theorem receiveIn_reads {portions : Nat} {bytes : Bytes} (hp : bytes.length ≤ portions)
    (hmore : c.decoder.step c.buffer = .more) (hblock : c.block.Fits c.buffer.length)
    (ho : (receiveIn d portions bytes c s).1.isOpen = true) :
    c.Reads (c.decoder.read (c.buffer ++ bytes)) (receiveIn d portions bytes c s).1 := by
  induction portions generalizing bytes c s with
  | zero =>
    rw [List.length_eq_zero_iff.mp (Nat.le_zero.mp hp)]
    exact .nothing hmore hblock
  | succ portions ih =>
    unfold receiveIn at ho ⊢
    split at ho
    · next hidle =>
      rw [if_pos hidle]
      obtain rfl | hclosed := hidle
      · exact .nothing hmore hblock
      · rw [show c.isOpen = true from ho] at hclosed
        cases hclosed
    · next hidle =>
      rw [if_neg hidle]
      have hroom := hblock.forMore
      simp only [bind_run] at ho ⊢
      generalize c.block.forMore c.buffer.length = block at hroom ho ⊢
      generalize hcount : block.room c.buffer.length = room at hroom ho ⊢
      generalize hmid : settle d { c with block, buffer := c.buffer ++ bytes.take room } s = mid
        at ho ⊢
      have hopen : mid.1.isOpen = true := by
        cases hmidOpen : mid.1.isOpen with
        | true => rfl
        | false =>
          rw [receiveIn_closed portions _ mid.2 hmidOpen, hmidOpen] at ho
          cases ho
      -- the bytes that there is room for are read, and the others behind them
      have hfirst : c.Reads (c.decoder.read (c.buffer ++ bytes.take room)) mid.1 := by
        have hfits : block.Fits (c.buffer ++ bytes.take room).length := by
          rw [List.length_append]
          exact Block.fits_of_room (hcount ▸ hroom) (by rw [hcount, List.length_take]; omega)
        subst hmid
        have hreads := pump_reads (Decoder.weight_lt_rounds _ _) hfits hopen
        exact ⟨hreads.fault, hreads.decoder, hreads.buffer, hreads.block, hreads.now, hreads.since⟩
      have hsettled : mid.1.decoder.step mid.1.buffer = .more := by
        rw [hfirst.decoder, hfirst.buffer]
        exact Decoder.step_of_read hfirst.fault
      have hfewer : (bytes.drop room).length ≤ portions := by
        have hpos := List.length_pos_iff.mpr fun he => hidle (.inl he)
        rw [List.length_drop]
        omega
      have hlater := ih hfewer hsettled hfirst.block ho
      have happend := Decoder.read_append hfirst.fault (bytes.drop room)
      rw [← hfirst.decoder, ← hfirst.buffer, List.append_assoc, List.take_append_drop] at happend
      exact hfirst.trans hlater happend

/-! ## Ends -/

theorem finish_closed : (finish d c s).1.isOpen = false := by
  unfold finish
  simp only [bind_run]
  generalize (settle d c s).1 = c, (settle d c s).2 = s
  cases ho : c.isOpen with
  | false => exact ho
  | true =>
    simp only [Bool.not_true, Bool.false_eq_true, if_false]
    split
    · exact broken_closed _
    · cases c.intake with
      | none => rfl
      | some x =>
        simp only [bind_run, pure_run]
        split
        · rfl
        · next hclosed => simpa using hclosed

/-- A connection that has ended stays so. -/
theorem step_closed (signal : Signal) (ho : c.isOpen = false) :
    (step d signal c s).1.isOpen = false := by
  cases signal with
  | bytes b =>
    change (receiveIn d b.length b c s).1.isOpen = false
    rwa [receiveIn_closed _ _ _ ho]
  | time millis =>
    change (pass d millis c s).1.isOpen = false
    rwa [pass_eq millis fun hopen => absurd (ho.symm.trans hopen) Bool.false_ne_true]
  | ended => exact finish_closed

theorem open_of_step {signal : Signal} (ho : (step d signal c s).1.isOpen = true) :
    c.isOpen = true := by
  cases hopen : c.isOpen with
  | true => rfl
  | false => rw [step_closed signal hopen] at ho; cases ho

theorem run_concat (signals : List Signal) (signal : Signal) (c : Connection) (s : δ) :
    run d (signals ++ [signal]) c s =
      step d signal (run d signals c s).1 (run d signals c s).2 :=
  run_append signals [signal] c s

theorem open_of_run {signals : List Signal} (ho : (run d signals c s).1.isOpen = true) :
    c.isOpen = true := by
  induction signals generalizing c s with
  | nil => exact ho
  | cons signal signals ih => exact open_of_step (ih ho)

/-! ## What an observer of the stream measures -/

/-- An observer who reads along with a connection and has two stopwatches. -/
structure Watch where
  reader : Decoder := {}
  /-- The bytes that belong to no message yet. -/
  waiting : Bytes := []
  /-- Milliseconds since the last byte. -/
  quiet : Nat := 0
  /-- Milliseconds since the last message. -/
  stalled : Nat := 0

namespace Watch

def step (w : Watch) : Signal → Watch
  | .bytes b =>
    let read := w.reader.read (w.waiting ++ b)
    { reader := read.decoder
      waiting := read.rest
      quiet := if b = [] then w.quiet else 0
      stalled := if read.messages = [] then w.stalled else 0 }
  | .time millis => { w with quiet := w.quiet + millis, stalled := w.stalled + millis }
  | .ended => w

def after (signals : List Signal) : Watch := signals.foldl step {}

theorem after_concat (signals : List Signal) (signal : Signal) :
    after (signals ++ [signal]) = (after signals).step signal := List.foldl_concat _ _ _ _

/-- Whether a stopwatch never shows more than a limit. -/
def InTime (clock : Watch → Nat) (limit : Nat) (signals : List Signal) : Prop :=
  ∀ before ∈ signals.inits, clock (after before) ≤ limit

instance (clock : Watch → Nat) (limit : Nat) (signals : List Signal) :
    Decidable (InTime clock limit signals) :=
  inferInstanceAs (Decidable (∀ before ∈ signals.inits, clock (after before) ≤ limit))

variable {clock : Watch → Nat} {limit : Nat} {signals : List Signal}

theorem inTime_concat (signal : Signal) :
    InTime clock limit (signals ++ [signal]) ↔
      InTime clock limit signals ∧ clock (after (signals ++ [signal])) ≤ limit := by
  simp only [InTime, List.mem_inits, List.prefix_concat_iff, or_imp, forall_and, forall_eq,
    and_comm]

theorem InTime.now (h : InTime clock limit signals) : clock (after signals) ≤ limit :=
  h signals (List.mem_inits _ _ |>.mpr List.prefix_rfl)

/-- What holds of a watch as long as the stream is not broken: the two stopwatches differ only
while a part of a head waits. -/
structure Sound (w : Watch) : Prop where
  settled : w.reader.step w.waiting = .more
  quiet_le : w.quiet ≤ w.stalled
  quiet_eq : w.waiting = [] → w.quiet = w.stalled

theorem Sound.bytes {w : Watch} {b : Bytes} (h : w.Sound)
    (hf : (w.reader.read (w.waiting ++ b)).fault = none) : (w.step (.bytes b)).Sound := by
  by_cases hm : (w.reader.read (w.waiting ++ b)).messages = []
  · have hread := Decoder.read_of_no_message hf hm
    have hsettled := Decoder.step_of_read hf
    have hstep : w.step (.bytes b) =
        { w with waiting := w.waiting ++ b, quiet := if b = [] then w.quiet else 0 } := by
      simp only [step, hread, if_true]
    rw [hread] at hsettled
    rw [hstep]
    by_cases hb : b = []
    · simp only [hb, List.append_nil, if_true]
      exact h
    · -- of the head that is due more bytes have arrived
      simp only [hb, if_false]
      refine ⟨hsettled, Nat.zero_le _, fun hnone => ?_⟩
      exact absurd (List.append_eq_nil_iff.mp hnone).2 hb
  · have hb : b ≠ [] := by
      rintro rfl
      rw [List.append_nil, Decoder.read_more h.settled] at hm
      exact hm rfl
    have hzero : (w.step (.bytes b)).quiet = 0 ∧ (w.step (.bytes b)).stalled = 0 :=
      ⟨if_neg hb, if_neg hm⟩
    exact ⟨Decoder.step_of_read hf, by rw [hzero.1, hzero.2], fun _ => hzero.1.trans hzero.2.symm⟩

theorem Sound.time {w : Watch} (h : w.Sound) (millis : Nat) : (w.step (.time millis)).Sound :=
  ⟨h.settled, Nat.add_le_add_right h.quiet_le millis, fun hw => by
    simp only [step, h.quiet_eq hw]⟩

end Watch

/-- An observer who has read what the connection has, and whose stopwatch runs with its clock. -/
structure Watched (w : Watch) (c : Connection) : Prop where
  sound : w.Sound
  decoder : c.decoder = w.reader
  buffer : c.buffer = w.waiting
  block : c.block.Fits c.buffer.length
  clock : c.now = c.since + w.stalled

theorem Watched.fresh (client : Address) (bounds : Bounds) (idle : Option Nat) :
    Watched {} { client, bounds, idle } :=
  ⟨⟨Decoder.step_nil, le_rfl, fun _ => rfl⟩, rfl, rfl,
    ⟨show 0 < 8192 by decide, show 0 + 0 ≤ 8192 by decide⟩, rfl⟩

theorem Watched.read {w : Watch} {b : Bytes} (h : Watched w c)
    (hr : c.Reads (c.decoder.read (c.buffer ++ b)) c₁) : Watched (w.step (.bytes b)) c₁ := by
  rw [h.decoder, h.buffer] at hr
  refine ⟨h.sound.bytes hr.fault, hr.decoder, hr.buffer, hr.block, ?_⟩
  have hclock := h.clock
  have hsince := hr.since
  have hnow := hr.now
  simp only [Watch.step]
  split at hsince
  · next hnone =>
    rw [if_pos hnone]
    omega
  · next hsome =>
    rw [if_neg hsome]
    omega

/-! ## Time that passes -/

/-- Time within the limit moves the clock and does nothing else. -/
theorem pass_within {millis : Nat}
    (h : ∀ limit, c.idle = some limit → c.now + millis ≤ c.since + limit) :
    pass d millis c s = ({ c with now := c.now + millis }, s) := by
  unfold pass
  simp only
  cases hidle : c.idle with
  | none => rfl
  | some limit =>
    have hwithin := h limit hidle
    have hlate : ¬c.since + limit < c.now + millis := by omega
    simp only [hlate, decide_false, Bool.and_false, Bool.false_eq_true, if_false]
    rfl

/-- The connection as an idle limit ends it: a body that was being read is refused. -/
def expired (c : Connection) : Connection :=
  match c.intake with
  | none => c.close
  | some x => c.fail (.refused (.bodyCutShort x.arrived x.announced))

/-- What is reported of it. -/
def timeout (client : Address) (limit : Nat) : Event :=
  .info "connection idle timeout"
    [("client_ip", client.render), ("timeout_secs", toString (limit / 1000))]

theorem expired_closed (c : Connection) : c.expired.isOpen = false := by
  unfold expired
  cases c.intake with
  | none => rfl
  | some x => rfl

/-- Time beyond the limit ends an open connection. -/
theorem pass_beyond {millis limit : Nat} (h : c.Rests) (ho : c.isOpen = true)
    (hidle : c.idle = some limit) (hlate : c.since + limit < c.now + millis) :
    pass d millis c s =
      (expired { c with now := c.now + millis }, (d.report (timeout c.client limit) s).2) := by
  have hlater := h.later millis
  change ({ c with now := c.now + millis } : Connection).isOpen = true at ho
  change ({ c with now := c.now + millis } : Connection).idle = some limit at hidle
  change ({ c with now := c.now + millis } : Connection).since + limit <
    ({ c with now := c.now + millis } : Connection).now at hlate
  change _ = (_, (d.report (timeout ({ c with now := c.now + millis } : Connection).client _) s).2)
  unfold pass expired
  generalize ({ c with now := c.now + millis } : Connection) = late at hlater ho hidle hlate ⊢
  simp only [hidle, ho, hlate, decide_true, Bool.and_true, if_true, bind_run]
  cases hi : late.intake with
  | none => rfl
  | some x => exact hlater.complete_eq ho hi

/-- A connection that stays open as time passes is within its limit. -/
theorem pass_open {millis : Nat} (h : c.Rests) (ho : (pass d millis c s).1.isOpen = true) :
    (∀ limit, c.idle = some limit → c.now + millis ≤ c.since + limit) ∧
      pass d millis c s = ({ c with now := c.now + millis }, s) := by
  have hwithin (limit : Nat) (hidle : c.idle = some limit) :
      c.now + millis ≤ c.since + limit := by
    by_contra hlate
    cases hopen : c.isOpen with
    | false =>
      have hclosed := step_closed (d := d) (s := s) (.time millis) hopen
      exact absurd (hclosed.symm.trans ho) Bool.false_ne_true
    | true =>
      rw [pass_beyond h hopen hidle (by omega), expired_closed] at ho
      cases ho
  exact ⟨hwithin, pass_within hwithin⟩

theorem Watched.next {w : Watch} (h : Watched w c) (hrests : c.Rests) (signal : Signal)
    (ho : (step d signal c s).1.isOpen = true) :
    Watched (w.step signal) (step d signal c s).1 := by
  cases signal with
  | bytes b =>
    refine h.read (receiveIn_reads le_rfl ?_ h.block ho)
    rw [h.decoder, h.buffer]
    exact h.sound.settled
  | time millis =>
    change (pass d millis c s).1.isOpen = true at ho
    change Watched _ (pass d millis c s).1
    rw [(pass_open hrests ho).2]
    have hclock : c.now + millis = c.since + (w.stalled + millis) := by
      rw [h.clock, Nat.add_assoc]
    exact ⟨h.sound.time millis, h.decoder, h.buffer, h.block, hclock⟩
  | ended =>
    rw [show step d .ended c s = finish d c s from rfl, finish_closed] at ho
    cases ho

/-! ## Runs -/

theorem step_idle (signal : Signal) : (step d signal c s).1.idle = c.idle := by
  cases signal with
  | bytes b => exact (receiveIn_heedless _ b).idle c s
  | ended => exact (finish_heedless).idle c s
  | time millis =>
    change (pass d millis c s).1.idle = ({ c with now := c.now + millis } : Connection).idle
    unfold pass
    generalize ({ c with now := c.now + millis } : Connection) = late
    cases hidle : late.idle with
    | none => exact hidle
    | some limit =>
      simp only
      split
      · rw [bind_run]
        cases late.intake with
        | none => exact hidle
        | some x => exact ((complete_apart x).heedless.idle _ _).trans hidle
      · exact hidle

theorem run_idle (signals : List Signal) (c : Connection) (s : δ) :
    (run d signals c s).1.idle = c.idle := by
  induction signals generalizing c s with
  | nil => rfl
  | cons signal signals ih => exact (ih _ _).trans (step_idle signal)

open Watch (InTime)

section

variable (client : Address) (bounds : Bounds) (signals : List Signal)

theorem run_watched {idle : Option Nat}
    (ho : (run d signals { client, bounds, idle } s).1.isOpen = true) :
    Watched (Watch.after signals) (run d signals { client, bounds, idle } s).1 := by
  induction signals using List.reverseRecOn with
  | nil => exact .fresh client bounds idle
  | append_singleton signals signal ih =>
    rw [run_concat] at ho ⊢
    rw [Watch.after_concat]
    exact (ih (open_of_step ho)).next (run_rests signals (fresh_rests client bounds idle)) signal ho

/-- While a connection is open, its stream has never been broken. -/
theorem run_sound {idle : Option Nat}
    (ho : (run d signals { client, bounds, idle } s).1.isOpen = true) :
    ∀ before ∈ signals.inits, (Watch.after before).Sound := by
  intro before hbefore
  obtain ⟨later, rfl⟩ := (List.mem_inits _ _).mp hbefore
  rw [run_append] at ho
  exact (run_watched client bounds before (open_of_run ho)).sound

variable {limit : Nat}

/-- In time a connection does what it does without a limit. -/
theorem run_inTime (h : InTime Watch.stalled limit signals) :
    run d signals { client, bounds, idle := some limit } s =
      (withLimit (some limit) (run d signals { client, bounds, idle := none } s).1,
        (run d signals { client, bounds, idle := none } s).2) := by
  induction signals using List.reverseRecOn with
  | nil => rfl
  | append_singleton signals signal ih =>
    obtain ⟨hbefore, hnow⟩ := (Watch.inTime_concat signal).mp h
    have hwatched (ho : (run d signals { client, bounds, idle := none } s).1.isOpen = true) :=
      run_watched client bounds signals ho
    have hidle := run_idle (d := d) signals { client, bounds, idle := none } s
    rw [run_concat, run_concat, ih hbefore]
    generalize run d signals { client, bounds, idle := none } s = free at hwatched hidle ⊢
    cases signal with
    | bytes b => exact receiveIn_heedless _ b (some limit) free.1 free.2
    | ended => exact finish_heedless (some limit) free.1 free.2
    | time millis =>
      change pass d millis (withLimit (some limit) free.1) free.2 =
        (withLimit (some limit) (pass d millis free.1 free.2).1, (pass d millis free.1 free.2).2)
      rw [pass_eq millis fun _ => hidle]
      cases hopen : free.1.isOpen with
      | false =>
        have hclosed : (withLimit (some limit) free.1).isOpen = true →
            (withLimit (some limit) free.1).idle = none :=
          fun ho => absurd (hopen.symm.trans ho) Bool.false_ne_true
        rw [pass_eq millis hclosed]
        rfl
      | true =>
        -- the stopwatch shows how far the clock is from the last message
        have hclock := (hwatched hopen).clock
        rw [Watch.after_concat] at hnow
        change (Watch.after signals).stalled + millis ≤ limit at hnow
        rw [pass_within fun other hother => ?_]
        · rfl
        · cases hother
          change free.1.now + millis ≤ free.1.since + limit
          omega

/-- Only a connection that is in time stays open. -/
theorem inTime_of_open
    (ho : (run d signals { client, bounds, idle := some limit } s).1.isOpen = true) :
    InTime Watch.stalled limit signals := by
  induction signals using List.reverseRecOn with
  | nil =>
    intro before hbefore
    rw [List.mem_singleton.mp hbefore]
    exact Nat.zero_le limit
  | append_singleton signals signal ih =>
    have hrests := run_rests (d := d) (s := s) signals (fresh_rests client bounds (some limit))
    have hidle := run_idle (d := d) signals { client, bounds, idle := some limit } s
    rw [run_concat] at ho
    have hopen := open_of_step ho
    have hwatched := run_watched client bounds signals hopen
    refine (Watch.inTime_concat signal).mpr ⟨ih hopen, ?_⟩
    have hnow := (ih hopen).now
    rw [Watch.after_concat]
    -- of all signals only time sets a stopwatch forward
    cases signal with
    | bytes b =>
      simp only [Watch.step]
      split
      · exact hnow
      · exact Nat.zero_le _
    | ended => exact hnow
    | time millis =>
      have hwithin := (pass_open hrests ho).1 limit hidle
      have hclock := hwatched.clock
      change (Watch.after signals).stalled + millis ≤ limit
      omega

end

/-- **An idle limit ends a connection once its client has completed no message for so long.** After
any signals a connection is open if and only if it would be so without the limit and the time
since the last message has never gone beyond it. Until then the limit changes nothing; the first
time that goes beyond it ends the connection. Whoever is in time by his messages is so by his bytes,
and the other way round if his heads arrive whole. -/
theorem idle_measured (d : Responder δ) (client : Address) (bounds : Bounds) (limit : Nat)
    (signals : List Signal) (s : δ) :
    let free := run d signals { client, bounds, idle := none } s
    let held := run d signals { client, bounds, idle := some limit } s
    (held.1.isOpen = true ↔ free.1.isOpen = true ∧ InTime Watch.stalled limit signals) ∧
      (InTime Watch.stalled limit signals → held = (withLimit (some limit) free.1, free.2)) ∧
      (held.1.isOpen = true → ∀ millis, limit < (Watch.after signals).stalled + millis →
        pass d millis held.1 held.2 =
          (expired { held.1 with now := held.1.now + millis },
            (d.report (timeout held.1.client limit) held.2).2)) ∧
      (free.1.isOpen = true →
        (InTime Watch.stalled limit signals → InTime Watch.quiet limit signals) ∧
        ((∀ before ∈ signals.inits, (Watch.after before).waiting = []) →
          InTime Watch.quiet limit signals → InTime Watch.stalled limit signals)) := by
  intro free held
  have hsame (h : InTime Watch.stalled limit signals) :
      held = (withLimit (some limit) free.1, free.2) := run_inTime client bounds signals h
  refine ⟨⟨fun ho => ?_, fun ⟨hfree, h⟩ => ?_⟩, hsame, fun ho millis hlate => ?_, fun ho => ?_⟩
  · have h := inTime_of_open client bounds signals ho
    rw [hsame h] at ho
    exact ⟨ho, h⟩
  · rw [hsame h]
    exact hfree
  · have hclock : held.1.now = held.1.since + (Watch.after signals).stalled :=
      (run_watched client bounds signals ho).clock
    have hrests := run_rests (d := d) (s := s) signals (fresh_rests client bounds (some limit))
    exact pass_beyond hrests ho (run_idle signals _ s) (by omega)
  · have hsound := run_sound client bounds signals ho
    refine ⟨fun h before hbefore => ?_, fun hwhole h before hbefore => ?_⟩
    · exact (hsound before hbefore).quiet_le.trans (h before hbefore)
    · rw [← (hsound before hbefore).quiet_eq (hwhole before hbefore)]
      exact h before hbefore

/-- A body that comes in byte by byte: each restarts the clock, until one is missed. -/
theorem idle_measured_body :
    let head := Text.Utf8.encode "POST /a HTTP/1.1\r\nContent-Length: 3\r\n\r\n"
    let client : Address := .v4 127 0 0 1
    let echo : Responder Unit :=
      { respond := fun request => pure { status := .ok, body := request.body }
        report := fun _ => pure () }
    let signals : List Signal := [.bytes (head ++ [97]), .time 900, .bytes [98], .time 900]
    let held := run echo signals { client, bounds := {}, idle := some 1000 } ()
    InTime Watch.stalled 1000 signals ∧ held.1.isOpen = true ∧
      1000 < (Watch.after signals).stalled + 101 ∧
      (pass echo 101 held.1 held.2).1.outcome =
        some (.error (.refused (.bodyCutShort 2 3))) := by
  intro head client echo signals held
  have htime : InTime Watch.stalled 1000 signals := by decide +kernel
  have hfree : (run echo signals { client, bounds := {}, idle := none } ()).1.isOpen = true := by
    decide +kernel
  have hlate : 1000 < (Watch.after signals).stalled + 101 := by decide +kernel
  obtain ⟨hiff, _, hended, _⟩ := idle_measured echo client {} 1000 signals ()
  have hopen : held.1.isOpen = true := hiff.mpr ⟨hfree, htime⟩
  refine ⟨htime, hopen, hlate, ?_⟩
  rw [hended hopen 101 hlate]
  decide +kernel

/-- A client that never lets the limit pass without a byte is cut off all the same, if its head
comes in pieces. -/
theorem idle_between_bytes :
    let text := Text.Utf8.encode
    let client : Address := .v4 127 0 0 1
    let echo : Responder Unit :=
      { respond := fun request => pure { status := .ok, body := request.body }
        report := fun _ => pure () }
    let signals : List Signal :=
      [.bytes (text "GET /a"), .time 60, .bytes (text " HTTP/1.1\r\n"), .time 60]
    InTime Watch.quiet 100 signals ∧
      (run echo signals { client, bounds := {}, idle := none } ()).1.outcome = none ∧
      (run echo signals { client, bounds := {}, idle := some 100 } ()).1.outcome =
        some (.ok ()) := by
  decide +kernel

end Connection

end Depot.Http
