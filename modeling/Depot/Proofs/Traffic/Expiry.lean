import Depot.Proofs.Traffic.Windows

/-! # Counters and their ends

The clock does not stop while a client is let in: a window may end between the lookup of its counter
and the update (`Made.late`). The counter is gone then, and raising it makes a new one that has no
deadline. So an address keeps its windows up to its first late attempt, and is counted for good from
there on (`counters_end`). -/

namespace Depot

open Text.Decimal (encode)

/-- A store in memory whose clock runs while it is used: the next pause passes before each
command. -/
structure Paced where
  store : Volatile
  /-- Milliseconds. -/
  pauses : List Nat

instance : Store Paced where
  carryOut c := modifyGet fun s =>
    let (answer, store) := (s.store.store.elapse (s.store.pauses.headD 0)).carryOut c
    (answer, { s with store := ⟨store, s.store.pauses.tail⟩ })

theorem Dialogue.reaches_paced {m m' : Volatile} {pause : Nat} {c : Resp.Command} {answer : Answer}
    (pauses : List Nat) (hc : (m.elapse pause).carryOut c = (answer, m')) :
    Reaches (send c) (⟨m, pause :: pauses⟩ : Paced) answer ⟨m', pauses⟩ := by
  intro flag events
  refine ⟨events, ?_⟩
  have hstep : (send c).run (⟨⟨m, pause :: pauses⟩, flag, events⟩ : Service Paced) =
      (((m.elapse pause).carryOut c).1, ⟨⟨((m.elapse pause).carryOut c).2, pauses⟩, flag, events⟩) :=
    rfl
  rw [hstep, hc]

namespace Volatile

/-- The slots that are still live at a time. -/
def remaining (live : Bytes → Option Slot) (now : Nat) : Bytes → Option Slot :=
  fun key => (live key).filter fun e => !e.isExpired now

theorem Shows.elapse {m : Volatile} {now millis : Nat} {live : Bytes → Option Slot}
    (h : m.Shows now live) (hclock : now + millis ≤ Text.Decimal.max64) :
    (m.elapse millis).Shows (now + millis) (remaining live (now + millis)) := by
  obtain rfl := h.now
  refine ⟨(m.live?_elapse millis hclock []).1, h.online, funext fun key => ?_⟩
  rw [(m.live?_elapse millis hclock key).2, h.live]
  rfl

end Volatile

namespace Traffic

open Volatile (remaining)

/-! ## Attempts, one at a time -/

/-- A client attempts to get in. -/
structure Attempt where
  client : Address
  /-- The milliseconds before the counter is looked up. -/
  wait : Nat := 0
  /-- The milliseconds between the lookup and the update. -/
  gap : Nat := 0

/-- What was made of an attempt. -/
structure Made where
  address : Address
  /-- The time of the lookup. -/
  looked : Nat
  /-- The time of the update, if there is one. -/
  settled : Nat
  /-- The counter that was found. -/
  counter : Option Slot
  admitted : Bool
  deriving Repr, DecidableEq

/-- The record of an attempt that begins on a store. -/
def Attempt.made (a : Attempt) (m : Volatile) (admitted : Bool) : Made where
  address := a.client.canonical
  looked := m.now + a.wait
  settled := m.now + a.wait + a.gap
  counter := (m.elapse a.wait).live? (Quota.key a.client.canonical)
  admitted

/-- Whether a window ended while a client was let into it. -/
def Made.late (l : Quota) (x : Made) : Bool :=
  x.counter.any fun e => decide (Quota.countOf e.value < l.capacity) && e.isExpired x.settled

/-- The store with the counters, and the attempts so far. -/
structure Door where
  store : Volatile
  made : List Made := []

namespace Door

/-- The attempts of an address, in order. -/
def of (d : Door) (address : Address) : List Made := d.made.filter (·.address = address)

/-- The next attempt is only begun when the one before it is settled. -/
def attempt (l : Quota) (d : Door) (a : Attempt) : Door :=
  let decided := (l.allows a.client).run (⟨⟨d.store, [a.wait, a.gap]⟩, {}, []⟩ : Service Paced)
  { store := decided.2.store.store
    made := d.made ++ [a.made d.store decided.1] }

def run (l : Quota) (attempts : List Attempt) (d : Door) : Door := attempts.foldl (attempt l) d

end Door

/-- The milliseconds that attempts take in all, at most. -/
def Attempt.millis : List Attempt → Nat
  | [] => 0
  | a :: attempts => a.wait + a.gap + millis attempts

variable {l : Quota} {m : Volatile} {now wait gap n : Nat} {live : Bytes → Option Slot}
  {client : Address}

/-! ## What an attempt does to the counters -/

/-- The answer to a lookup. -/
theorem lookup_paced (h : m.Shows now live) (client : Address) (wait gap : Nat)
    (hclock : now + wait ≤ Text.Decimal.max64) :
    ∃ m₁, (Dialogue.send (Quota.lookupCommand client)).Reaches (⟨m, [wait, gap]⟩ : Paced)
        (.ok ((remaining live (now + wait) (Quota.key client)).elim .nil fun e => .bulk e.value))
        ⟨m₁, [gap]⟩ ∧
      m₁.Shows (now + wait) (remaining live (now + wait)) := by
  obtain ⟨m₁, hget, hshows⟩ := Volatile.carryOut_get (h.elapse hclock) (Quota.key client)
  exact ⟨m₁, Dialogue.reaches_paced [gap] hget, hshows⟩

/-- A first attempt opens a window at the time of its update. -/
theorem opens_paced (hl : Bounded l) (h : m.Shows now live)
    (hcounter : remaining live (now + wait) (Quota.key client) = none)
    (hclock : now + wait + gap ≤ Text.Decimal.max64) :
    ∃ m', (l.check client).Reaches (⟨m, [wait, gap]⟩ : Paced) true ⟨m', []⟩ ∧
      m'.Shows (now + wait + gap)
        (Function.update (remaining (remaining live (now + wait)) (now + wait + gap))
          (Quota.key client) (some ⟨encode 1, some (now + wait + gap + l.window * 1000)⟩)) := by
  obtain ⟨m₁, hget, hshows⟩ := lookup_paced h client wait gap (by omega)
  rw [hcounter] at hget
  have hterms := Objects.readTerms_seconds {} hl.window_pos hl.window_le []
  obtain ⟨m₂, hset, hopened⟩ := Volatile.carryOut_set (hshows.elapse hclock) (Quota.key client)
    (Text.Utf8.encode "1") (hterms.trans rfl) (by rintro _ ⟨⟩; exact hl.window_pos)
  have hone : Text.Utf8.encode "1" = encode 1 := by decide +kernel
  rw [hone] at hopened
  refine ⟨m₂, hget.bind ?_, hopened⟩
  exact (update_reaches _ _ _ (Dialogue.reaches_paced [] hset)).bind
    (Dialogue.reaches_report _ (Dialogue.reaches_pure true _))

/-- A counter after its update: one that is gone starts anew, and then it has no deadline. -/
def raised (n : Nat) (deadline : Option Nat) (now : Nat) : Slot :=
  if Slot.isExpired ⟨encode n, deadline⟩ now then ⟨encode 1, none⟩ else ⟨encode (n + 1), deadline⟩

/-- The counter that was found is raised, or a new one begun, whatever became of it since. -/
theorem carryOut_raise (h : m.Shows now live) {deadline : Option Nat}
    (hcounter : live (Quota.key client) = some ⟨encode n, deadline⟩) (hn : n < Text.Decimal.max63)
    (hclock : now + gap ≤ Text.Decimal.max64) :
    ∃ answer m', (m.elapse gap).carryOut (Quota.raiseCommand client) = (answer, m') ∧
      m'.Shows (now + gap) (Function.update (remaining live (now + gap)) (Quota.key client)
        (some (raised n deadline (now + gap)))) := by
  have hleft : remaining live (now + gap) (Quota.key client) =
      if Slot.isExpired ⟨encode n, deadline⟩ (now + gap) then none
      else some ⟨encode n, deadline⟩ := by
    rw [remaining, hcounter, Option.filter_some]
    cases Slot.isExpired ⟨encode n, deadline⟩ (now + gap) <;> rfl
  unfold raised
  split at hleft
  · next hexp =>
    obtain ⟨m', hincr, hshows⟩ := Volatile.carryOut_incr_missing (h.elapse hclock) hleft
    rw [if_pos hexp]
    exact ⟨_, m', hincr, hshows⟩
  · next hlive =>
    obtain ⟨m', hincr, hshows⟩ := Volatile.carryOut_incr (h.elapse hclock) hn hleft
    rw [if_neg hlive]
    exact ⟨_, m', hincr, hshows⟩

/-- A further attempt is let in while there is room, and counted at the time of its update. -/
theorem raises_paced (hl : Bounded l) (h : m.Shows now live) {deadline : Option Nat}
    (hcounter : remaining live (now + wait) (Quota.key client) = some ⟨encode n, deadline⟩)
    (hroom : n < l.capacity) (hclock : now + wait + gap ≤ Text.Decimal.max64) :
    ∃ m', (l.check client).Reaches (⟨m, [wait, gap]⟩ : Paced) true ⟨m', []⟩ ∧
      m'.Shows (now + wait + gap)
        (Function.update (remaining (remaining live (now + wait)) (now + wait + gap))
          (Quota.key client) (some (raised n deadline (now + wait + gap)))) := by
  obtain ⟨m₁, hget, hshows⟩ := lookup_paced h client wait gap (by omega)
  rw [hcounter] at hget
  obtain ⟨answer, m₂, hincr, hraised⟩ :=
    carryOut_raise hshows hcounter (hroom.trans_le hl.capacity_le) hclock
  refine ⟨m₂, hget.bind ?_, hraised⟩
  simp only [Option.elim_some, hl.reads hroom.le, if_pos hroom]
  exact (update_reaches _ _ _ (Dialogue.reaches_paced [] hincr)).bind
    (Dialogue.reaches_report _ (Dialogue.reaches_pure true _))

/-- An attempt without room changes nothing. -/
theorem denies_paced (hl : Bounded l) (h : m.Shows now live) {deadline : Option Nat}
    (hcounter : remaining live (now + wait) (Quota.key client) = some ⟨encode n, deadline⟩)
    (hn : n ≤ l.capacity) (hfull : ¬ n < l.capacity) (gap : Nat) (hclock : now + wait ≤ Text.Decimal.max64) :
    ∃ m', (l.check client).Reaches (⟨m, [wait, gap]⟩ : Paced) false ⟨m', [gap]⟩ ∧
      m'.Shows (now + wait) (remaining live (now + wait)) := by
  obtain ⟨m₁, hget, hshows⟩ := lookup_paced h client wait gap hclock
  rw [hcounter] at hget
  refine ⟨m₁, hget.bind ?_, hshows⟩
  simp only [Option.elim_some, hl.reads hn, if_neg hfull]
  exact Dialogue.reaches_report _ (Dialogue.reaches_pure false _)

/-! ## How the counter of an address stands -/

/-- An attempt that comes within a window that was opened before. -/
def InWindow (l : Quota) (mine : List Made) (x : Made) : Prop :=
  ∃ y ∈ mine, y.counter = none ∧ y.settled ≤ x.looked ∧ x.looked < y.settled + l.window * 1000

/-- Attempts of one address that keep its windows: no window ended while somebody was let into it,
and who was turned away came within one. -/
structure OnTime (l : Quota) (mine : List Made) : Prop where
  never_late : ∀ x ∈ mine, x.late l = false
  denied : ∀ x ∈ mine, x.admitted = false → InWindow l mine x

/-- The attempts of an address up to its first late one, that one, and those after it: there is room
for as many as the capacity says less one, and never again. -/
structure Overrun (l : Quota) (mine first : List Made) (y : Made) (rest : List Made) : Prop where
  split : mine = first ++ y :: rest
  before : OnTime l first
  late : y.late l = true
  decisions : rest.map Made.admitted =
    (List.range rest.length).map fun i => decide (1 + i < l.capacity)

/-- How the counter of an address stands at a time, after attempts of that address. -/
inductive Standing (l : Quota) (now : Nat) (mine : List Made) : Option Slot → Prop
  | clear : OnTime l mine → Standing l now mine none
  | counting {y : Made} {n : Nat} : OnTime l mine → y ∈ mine → y.counter = none → y.settled ≤ now →
      now < y.settled + l.window * 1000 → n ≤ l.capacity →
      Standing l now mine (some ⟨encode n, some (y.settled + l.window * 1000)⟩)
  | endless {first rest : List Made} {y : Made} : Overrun l mine first y rest →
      Standing l now mine (some ⟨encode (min l.capacity (1 + rest.length)), none⟩)

variable {mine : List Made} {x : Made} {counter : Option Slot}

theorem InWindow.append (h : InWindow l mine x) (z : Made) : InWindow l (mine ++ [z]) x := by
  obtain ⟨y, hy, hopened⟩ := h
  exact ⟨y, List.mem_append_left _ hy, hopened⟩

theorem OnTime.append (h : OnTime l mine) (hx : x.late l = false)
    (hdenied : x.admitted = false → InWindow l mine x) : OnTime l (mine ++ [x]) where
  never_late z hz := by
    rcases List.mem_append.mp hz with hz | hz
    · exact h.never_late z hz
    · rw [List.mem_singleton.mp hz]
      exact hx
  denied z hz hout := by
    rcases List.mem_append.mp hz with hz | hz
    · exact (h.denied z hz hout).append x
    · obtain rfl := List.mem_singleton.mp hz
      exact (hdenied hout).append z

theorem Overrun.append {first rest : List Made} {y : Made} (h : Overrun l mine first y rest)
    (hx : x.admitted = decide (1 + rest.length < l.capacity)) :
    Overrun l (mine ++ [x]) first y (rest ++ [x]) where
  split := by rw [h.split, List.append_assoc, List.cons_append]
  before := h.before
  late := h.late
  decisions := by
    rw [List.map_append, h.decisions, List.length_append, List.length_singleton, List.range_succ,
      List.map_append, List.map_singleton, List.map_singleton, hx]

/-- Time that passes only ends windows. -/
theorem Standing.later (h : Standing l now mine counter) (millis : Nat) :
    Standing l (now + millis) mine (counter.filter fun e => !e.isExpired (now + millis)) := by
  cases h with
  | clear htime => exact .clear htime
  | @counting y n htime hy hopener hsettled _ hn =>
    by_cases hend : now + millis < y.settled + l.window * 1000
    · rw [Option.filter_some_pos (by simpa [Slot.isExpired] using hend)]
      exact .counting htime hy hopener (by omega) hend hn
    · rw [Option.filter_some_neg (by simpa [Slot.isExpired] using hend)]
      exact .clear htime
  | endless hover =>
    rw [Option.filter_some_pos rfl]
    exact .endless hover

/-- A counter spells how many were let in. -/
theorem Standing.spelt (h : Standing l now mine counter) {e : Slot} (he : counter = some e) :
    ∃ n deadline, n ≤ l.capacity ∧ e = ⟨encode n, deadline⟩ := by
  cases h with
  | clear => cases he
  | counting _ _ _ _ _ hn =>
    cases he
    exact ⟨_, _, hn, rfl⟩
  | endless =>
    cases he
    exact ⟨_, _, Nat.min_le_left _ _, rfl⟩

/-- Who finds no counter is never late. -/
theorem late_of_none (h : x.counter = none) : x.late l = false := by
  unfold Made.late
  rw [h]
  rfl

theorem late_of_some (hl : Bounded l) {deadline : Option Nat}
    (h : x.counter = some ⟨encode n, deadline⟩) (hn : n ≤ l.capacity) :
    x.late l = (decide (n < l.capacity) && Slot.isExpired ⟨encode n, deadline⟩ x.settled) := by
  unfold Made.late
  rw [h, Option.any_some, hl.reads hn]

theorem Standing.onTime (h : Standing l now mine none) : OnTime l mine := by
  cases h with
  | clear htime => exact htime

/-- The host itself is let in without being counted. -/
theorem Standing.passed (h : Standing l now mine none) (hcounter : x.counter = none)
    (hx : x.admitted = true) : Standing l now (mine ++ [x]) none :=
  .clear (h.onTime.append (late_of_none hcounter) fun hout => nomatch hx.symm.trans hout)

theorem Standing.opened (hl : Bounded l) (h : Standing l now mine none)
    (hcounter : x.counter = none) (hx : x.admitted = true) :
    Standing l x.settled (mine ++ [x])
      (some ⟨encode 1, some (x.settled + l.window * 1000)⟩) := by
  have htime := h.onTime.append (late_of_none hcounter) fun hout => nomatch hx.symm.trans hout
  have hwindow := hl.window_pos
  exact .counting htime (List.mem_append_right _ (List.mem_singleton_self x)) hcounter le_rfl
    (by omega) hl.capacity_pos

/-- An attempt that is counted keeps the window, or is the late one. -/
theorem Standing.raised (hl : Bounded l) {deadline : Option Nat}
    (h : Standing l x.looked mine (some ⟨encode n, deadline⟩)) (hle : x.looked ≤ x.settled)
    (hcounter : x.counter = some ⟨encode n, deadline⟩) (hx : x.admitted = true)
    (hroom : n < l.capacity) :
    Standing l x.settled (mine ++ [x]) (some (raised n deadline x.settled)) := by
  have hlate := late_of_some hl hcounter hroom.le
  rw [decide_eq_true hroom, Bool.true_and] at hlate
  generalize hstood : some (⟨encode n, deadline⟩ : Slot) = stood at h
  unfold Traffic.raised
  cases h with
  | clear => cases hstood
  | @counting y n' htime hy hopener hsettled hopen hn =>
    obtain ⟨hsame, rfl⟩ := Slot.mk.inj (Option.some.inj hstood)
    obtain rfl := Text.Decimal.encode_injective hsame
    split
    · next hexp =>
      -- the window has ended since the lookup, so this attempt is the late one
      have hover : Overrun l (mine ++ [x]) mine x [] := ⟨rfl, htime, hlate.trans hexp, rfl⟩
      have hone : min l.capacity (1 + ([] : List Made).length) = 1 := by
        rw [List.length_nil]
        omega
      have hendless : Standing l x.settled (mine ++ [x]) _ := .endless hover
      rwa [hone] at hendless
    · next hlive =>
      have hin := htime.append (hlate.trans (Bool.eq_false_iff.mpr hlive))
        fun hout => nomatch hx.symm.trans hout
      have hopen : x.settled < y.settled + l.window * 1000 := by
        simpa [Slot.isExpired] using hlive
      exact .counting hin (List.mem_append_left _ hy) hopener (hsettled.trans hle) hopen hroom
  | @endless first rest y hover =>
    obtain ⟨hsame, rfl⟩ := Slot.mk.inj (Option.some.inj hstood)
    obtain rfl := Text.Decimal.encode_injective hsame
    -- the late one was before: its counter has no deadline, so it cannot be gone
    have hdecision : x.admitted = decide (1 + rest.length < l.capacity) := by
      rw [hx, eq_comm, decide_eq_true_eq]
      omega
    have hendless : Standing l x.settled (mine ++ [x]) _ := .endless (hover.append hdecision)
    have hnext : min l.capacity (1 + (rest ++ [x]).length) =
        min l.capacity (1 + rest.length) + 1 := by
      rw [List.length_append, List.length_singleton]
      omega
    rwa [hnext] at hendless

/-- An attempt for which there is no room comes in the window, or after the late one. -/
theorem Standing.denied (hl : Bounded l) {deadline : Option Nat}
    (h : Standing l x.looked mine (some ⟨encode n, deadline⟩))
    (hcounter : x.counter = some ⟨encode n, deadline⟩) (hx : x.admitted = false)
    (hn : n ≤ l.capacity) (hfull : ¬ n < l.capacity) :
    Standing l x.looked (mine ++ [x]) (some ⟨encode n, deadline⟩) := by
  have hlate := late_of_some hl hcounter hn
  rw [decide_eq_false hfull, Bool.false_and] at hlate
  generalize hstood : some (⟨encode n, deadline⟩ : Slot) = stood at h ⊢
  cases h with
  | clear => cases hstood
  | @counting y n' htime hy hopener hsettled hopen hn' =>
    have hin := htime.append hlate fun _ => ⟨y, hy, hopener, hsettled, hopen⟩
    exact .counting hin (List.mem_append_left _ hy) hopener hsettled hopen hn'
  | @endless first rest y hover =>
    obtain ⟨hsame, -⟩ := Slot.mk.inj (Option.some.inj hstood)
    obtain rfl := Text.Decimal.encode_injective hsame
    have hdecision : x.admitted = decide (1 + rest.length < l.capacity) := by
      rw [hx, eq_comm, decide_eq_false_iff_not]
      omega
    have hendless : Standing l x.looked (mine ++ [x]) _ := .endless (hover.append hdecision)
    have hsame : min l.capacity (1 + (rest ++ [x]).length) = min l.capacity (1 + rest.length) := by
      rw [List.length_append, List.length_singleton]
      omega
    rwa [hsame] at hendless

/-! ## The counters of all addresses -/

/-- The counter of every address stands as the attempts of that address say, and the host itself has
none. -/
structure Tracks (l : Quota) (d : Door) (now : Nat) (live : Bytes → Option Slot) : Prop where
  shows : d.store.Shows now live
  stands : ∀ address, Standing l now (d.of address) (live (Quota.key address))
  host : live (Quota.key Address.loopback) = none

theorem Door.of_append (store store' : Volatile) (made : List Made) (x : Made)
    (address : Address) :
    Door.of ⟨store', made ++ [x]⟩ address =
      if x.address = address then Door.of ⟨store, made⟩ address ++ [x]
      else Door.of ⟨store, made⟩ address := by
  unfold Door.of
  rw [List.filter_append, List.filter_singleton]
  split
  · next haddress => rw [decide_eq_true haddress, cond_true]
  · next haddress => rw [decide_eq_false haddress, cond_false, List.append_nil]

variable {d : Door} {store' : Volatile} {slot : Slot}

theorem Tracks.elapse (h : Tracks l d now live) (millis : Nat)
    (hclock : now + millis ≤ Text.Decimal.max64) :
    Tracks l { d with store := d.store.elapse millis } (now + millis)
      (remaining live (now + millis)) where
  shows := h.shows.elapse hclock
  stands address := (h.stands address).later millis
  host := by rw [remaining, h.host, Option.filter_none]

/-- The host passes. -/
theorem Tracks.pass (h : Tracks l d now live) (hx : x.address = Address.loopback)
    (hcounter : x.counter = none) (hadmitted : x.admitted = true) :
    Tracks l ⟨d.store, d.made ++ [x]⟩ now live where
  shows := h.shows
  stands address := by
    have hstands := h.stands address
    rw [Door.of_append d.store]
    split
    · next haddress =>
      rw [hx] at haddress
      rw [← haddress, h.host] at hstands ⊢
      exact hstands.passed hcounter hadmitted
    · exact hstands
  host := h.host

/-- An attempt concerns the counter of its address alone, since each address has one of its own. -/
theorem Tracks.count (h : Tracks l d now live) (hx : x.address ≠ Address.loopback)
    (hslot : Standing l now (d.of x.address ++ [x]) (some slot))
    (hshows : store'.Shows now (Function.update live (Quota.key x.address) (some slot))) :
    Tracks l ⟨store', d.made ++ [x]⟩ now
      (Function.update live (Quota.key x.address) (some slot)) where
  shows := hshows
  stands address := by
    rw [Door.of_append d.store, Function.update_apply]
    simp only [Quota.key_inj, eq_comm (a := address)]
    split
    · next haddress =>
      rw [← haddress]
      exact hslot
    · exact h.stands address
  host := by
    rw [Function.update_apply, if_neg (mt Quota.key_inj.mp (Ne.symm hx))]
    exact h.host

/-- The door after an attempt. -/
theorem attempt_eq {a : Attempt} {admitted : Bool} {pauses : List Nat}
    (h : (l.allows a.client).Reaches (⟨d.store, [a.wait, a.gap]⟩ : Paced) admitted
      ⟨store', pauses⟩) :
    d.attempt l a = ⟨store', d.made ++ [a.made d.store admitted]⟩ := by
  obtain ⟨events, hrun⟩ := h {} []
  unfold Door.attempt
  simp only [hrun]

/-- An attempt that is counted leaves counters that stand as the attempts say. -/
theorem Tracks.counted (h : Tracks l d now live) (hl : Bounded l) {a : Attempt}
    (hhost : a.client.canonical ≠ Address.loopback)
    (hclock : now + a.wait + a.gap ≤ Text.Decimal.max64) :
    ∃ now' live', now' ≤ now + a.wait + a.gap ∧ Tracks l (d.attempt l a) now' live' := by
  obtain rfl := h.shows.now
  have hlooked := h.elapse a.wait (by omega)
  have hsettled := hlooked.elapse a.gap hclock
  have hfound := congrFun hlooked.shows.live (Quota.key a.client.canonical)
  have hstands := hlooked.stands a.client.canonical
  have hcheck : l.allows a.client = l.check a.client.canonical := if_neg hhost
  cases hcounter : remaining live (d.store.now + a.wait) (Quota.key a.client.canonical) with
  | none =>
    obtain ⟨m', hreaches, hshows⟩ := opens_paced hl h.shows hcounter hclock
    rw [← hcheck] at hreaches
    rw [hcounter] at hstands
    have hopened := hstands.opened (x := a.made d.store true) hl (hfound.trans hcounter) rfl
    have hcounted := hsettled.count (x := a.made d.store true) hhost hopened hshows
    rw [← attempt_eq hreaches] at hcounted
    exact ⟨_, _, le_rfl, hcounted⟩
  | some e =>
    obtain ⟨n, deadline, hn, rfl⟩ := hstands.spelt hcounter
    rw [hcounter] at hstands
    by_cases hroom : n < l.capacity
    · obtain ⟨m', hreaches, hshows⟩ := raises_paced hl h.shows hcounter hroom hclock
      rw [← hcheck] at hreaches
      have hraised := hstands.raised (x := a.made d.store true) hl (Nat.le_add_right _ _)
        (hfound.trans hcounter) rfl hroom
      have hcounted := hsettled.count (x := a.made d.store true) hhost hraised hshows
      rw [← attempt_eq hreaches] at hcounted
      exact ⟨_, _, le_rfl, hcounted⟩
    · obtain ⟨m', hreaches, hshows⟩ :=
        denies_paced hl h.shows hcounter hn hroom a.gap (by omega)
      rw [← hcheck] at hreaches
      have hdenied := hstands.denied (x := a.made d.store false) hl (hfound.trans hcounter) rfl
        hn hroom
      -- without an update the time between the commands does not pass
      have hsame : Function.update (remaining live (d.store.now + a.wait))
          (Quota.key a.client.canonical) (some ⟨encode n, deadline⟩) =
          remaining live (d.store.now + a.wait) := by
        rw [← hcounter, Function.update_eq_self]
      rw [← hsame] at hshows
      have hcounted := hlooked.count (x := a.made d.store false) hhost hdenied hshows
      rw [← attempt_eq hreaches] at hcounted
      exact ⟨_, _, Nat.le_add_right _ _, hcounted⟩

/-- Every attempt, the clock not wrapping, leaves counters that stand as the attempts say. -/
theorem Tracks.attempt (h : Tracks l d now live) (hl : Bounded l) (a : Attempt)
    (hclock : now + a.wait + a.gap ≤ Text.Decimal.max64) :
    ∃ now' live', now' ≤ now + a.wait + a.gap ∧ Tracks l (d.attempt l a) now' live' := by
  by_cases hhost : a.client.canonical = Address.loopback
  · have hlooked := h.elapse a.wait (by omega)
    have hfound : (a.made d.store true).counter = none := by
      rw [Attempt.made, hlooked.shows.live, hhost]
      exact hlooked.host
    have hpass : (l.allows a.client).Reaches (⟨d.store, [a.wait, a.gap]⟩ : Paced) true
        ⟨d.store, [a.wait, a.gap]⟩ := by
      rw [Quota.allows, if_pos hhost]
      exact Dialogue.reaches_pure true _
    refine ⟨now, live, by omega, ?_⟩
    rw [attempt_eq hpass]
    exact h.pass hhost hfound rfl
  · exact h.counted hl hhost hclock

theorem Tracks.run (h : Tracks l d now live) (hl : Bounded l) (attempts : List Attempt)
    (hclock : now + Attempt.millis attempts ≤ Text.Decimal.max64) :
    ∃ now' live', now' ≤ now + Attempt.millis attempts ∧ Tracks l (d.run l attempts) now' live' := by
  induction attempts generalizing d now live with
  | nil => exact ⟨now, live, le_rfl, h⟩
  | cons a attempts ih =>
    rw [Attempt.millis] at hclock ⊢
    obtain ⟨now₁, live₁, hle₁, h₁⟩ := h.attempt hl a (by omega)
    obtain ⟨now₂, live₂, hle₂, h₂⟩ := ih h₁ (by omega)
    exact ⟨now₂, live₂, by omega, h₂⟩

/-- A counter that is not for good goes with its window. -/
theorem Standing.ends (h : Standing l now mine counter) (millis : Nat) :
    let left := counter.filter fun e => !e.isExpired (now + millis)
    (OnTime l mine ∧
      (∀ e, left = some e → ∃ deadline, e.deadline = some deadline ∧ now + millis < deadline ∧
        deadline ≤ now + l.window * 1000) ∧
      (l.window * 1000 ≤ millis → left = none)) ∨
    ∃ first y rest, Overrun l mine first y rest ∧
      left = some ⟨encode (min l.capacity (1 + rest.length)), none⟩ := by
  intro left
  cases h with
  | clear htime => exact .inl ⟨htime, nofun, fun _ => rfl⟩
  | @counting y n htime hy hopener hsettled _ hn =>
    refine .inl ⟨htime, fun e he => ?_, fun hend => ?_⟩
    · obtain ⟨he, hlive⟩ := Option.filter_eq_some_iff.mp he
      cases he
      exact ⟨_, rfl, by simpa [Slot.isExpired] using hlive, by omega⟩
    · exact Option.filter_some_neg (by simp [Slot.isExpired]; omega)
  | @endless first rest y hover => exact .inr ⟨first, y, rest, hover, Option.filter_some_pos rfl⟩

/-- **Counters end with their windows, up to the first late attempt of their address.** Attempts are
settled one at a time on a store in memory that had no counter yet, and its clock, which does not
wrap, runs before, between and after their commands. As long as no window of an address ended while
somebody was let into it, every counter of the address has a deadline, no further ahead than a window
is long, so it goes by itself, and who is turned away comes within a window that was opened before.
Once a window did end so, the counter of the address stays for good: as many more attempts are let in
as the capacity says less one, and none after them, however late. A lookup changes no counter, so
`later` also covers the states between the two commands of an attempt. -/
theorem counters_end (window capacity : Int) (l : Quota)
    (hl : Quota.ofInts? window capacity = some l) (hwindow : window ≤ Text.Decimal.max63)
    (hcapacity : capacity ≤ Text.Decimal.max63) (m : Volatile) (hon : m.offline = false)
    (hclear : ∀ address, m.live? (Quota.key address) = none) (attempts : List Attempt) (later : Nat)
    (hclock : m.now + Attempt.millis attempts + later ≤ Text.Decimal.max64) (address : Address) :
    let d := Door.run l attempts { store := m }
    let mine := d.of address
    let counter := (d.store.elapse later).live? (Quota.key address)
    (OnTime l mine ∧
      (∀ e, counter = some e → ∃ deadline, e.deadline = some deadline ∧
        d.store.now + later < deadline ∧ deadline ≤ d.store.now + l.window * 1000) ∧
      (l.window * 1000 ≤ later → counter = none)) ∨
    ∃ first y rest, Overrun l mine first y rest ∧
      counter = some ⟨encode (min l.capacity (1 + rest.length)), none⟩ := by
  intro d mine counter
  have hbounded := bounded_of_ofInts? hl hwindow hcapacity
  have hfresh : Tracks l { store := m } m.now m.live? :=
    { shows := ⟨rfl, hon, rfl⟩
      stands := fun address => by
        rw [hclear]
        exact .clear ⟨nofun, nofun⟩
      host := hclear Address.loopback }
  obtain ⟨now, live, hle, htracks⟩ := hfresh.run hbounded attempts (by omega)
  obtain rfl := htracks.shows.now
  have hcounter := congrFun (htracks.elapse later (by omega)).shows.live (Quota.key address)
  have hends := (htracks.stands address).ends later
  rw [show counter = _ from hcounter]
  exact hends

/-- A window of two seconds ends between the two commands of a second attempt: its counter stays. -/
theorem counters_end_late :
    let l : Quota := ⟨2, 2⟩
    let client : Address := .v4 192 168 1 20
    let attempts : List Attempt := [{ client }, { client, wait := 1999, gap := 1 },
      { client, wait := 1000000 }, { client, wait := 1000000 }]
    let d := Door.run l attempts { store := {} }
    ∃ first y rest, Overrun l (d.of client) first y rest ∧
      (d.store.elapse 1000000).live? (Quota.key client) =
        some ⟨encode (min l.capacity (1 + rest.length)), none⟩ := by
  intro l client attempts d
  have hends := counters_end 2 2 l rfl (by decide) (by decide) {} rfl (fun _ => rfl) attempts
    1000000 (by decide) client
  rcases hends with ⟨htime, -⟩ | hover
  · have hlate : ¬ ∀ x ∈ d.of client, x.late l = false := by decide +kernel
    exact absurd htime.never_late hlate
  · exact hover

/-- Two thousand seconds after its window of two seconds was opened, a client is turned away, by a
counter without a deadline. -/
theorem counter_outlasts_window :
    let l : Quota := ⟨2, 2⟩
    let client : Address := .v4 192 168 1 20
    let attempts : List Attempt := [{ client }, { client, wait := 1999, gap := 1 },
      { client, wait := 1000000 }, { client, wait := 1000000 }]
    let d := Door.run l attempts { store := {} }
    d.store.live? (Quota.key client) = some ⟨Text.Utf8.encode "2", none⟩ ∧
      ∃ x ∈ d.of client, x.admitted = false ∧
        ∀ y ∈ d.of client, y.counter = none → y.settled + 2000000 ≤ x.looked := by
  decide +kernel

end Traffic

end Depot
