import Mathlib.Logic.Function.Basic
import Depot.Proofs.Traffic.Turns

/-! # Fixed windows

What a quota promises its clients, without counters or commands: the first attempt of an address
opens a window, as many attempts as the capacity says are let in before the window ends, and the
next attempt after its end opens a new one (`Windows`). A service whose counters lie in a store in
memory keeps that promise to every address, whatever else its clients do
(`decisions_windowed`). -/

namespace Depot.Traffic

/-- A window: when it was opened, and the decisions on the attempts made in it, in order. -/
structure Window where
  /-- Milliseconds. -/
  opened : Nat
  decisions : List Bool
  deriving DecidableEq

namespace Window

/-- The first moment behind the window. -/
def stop (l : Quota) (w : Window) : Nat := w.opened + l.window * 1000

/-- How many attempts were let in. -/
def admissions (w : Window) : Nat := w.decisions.count true

end Window

/-- The last window of each address, and what else decides on an attempt. -/
structure Windows where
  last : Address → Option Window := fun _ => none
  now : Nat := 0
  offline : Bool := false

namespace Windows

/-- The window of an address, up to its end. -/
def open? (l : Quota) (s : Windows) (address : Address) : Option Window :=
  (s.last address).filter fun w => s.now < w.stop l

def put (address : Address) (w : Window) (s : Windows) : Windows :=
  { s with last := Function.update s.last address (some w) }

/-- A client attempts to get in. The host itself always does; while there is no way to count, nobody
else does. -/
def attempt (l : Quota) (client : Address) (s : Windows) : Bool × Windows :=
  if client.canonical = Address.loopback then (true, s)
  else if s.offline then (false, s)
  else
    match s.open? l client.canonical with
    | none => (true, s.put client.canonical ⟨s.now, [true]⟩)
    | some w =>
      let admitted := decide (w.decisions.length < l.capacity)
      (admitted, s.put client.canonical ⟨w.opened, w.decisions ++ [admitted]⟩)

def step (l : Quota) (s : Windows) : Turn → Option Bool × Windows
  | .arrival client => ((s.attempt l client).1, (s.attempt l client).2)
  | .happening (.clock millis) => (none, { s with now := s.now + millis })
  | .happening (.net offline) => (none, { s with offline })
  | .happening _ => (none, s)

/-- The decisions on the attempts among turns, in order. -/
def run (l : Quota) : List Turn → Windows → List Bool
  | [], _ => []
  | t :: turns, s => (s.step l t).1.toList ++ run l turns (s.step l t).2

def after (l : Quota) (turns : List Turn) (s : Windows) : Windows :=
  turns.foldl (fun s t => (s.step l t).2) s

end Windows

/-- The milliseconds that pass. -/
def Turn.millis : Turn → Nat
  | .arrival _ => 0
  | .happening h => h.millis

/-- The milliseconds that pass in all. -/
def elapsed : List Turn → Nat
  | [] => 0
  | t :: turns => t.millis + elapsed turns

variable {l : Quota} {m m' : Volatile} {s : Windows} {address client : Address} {w : Window}

namespace Windows

theorem open?_put (l : Quota) (s : Windows) {client : Address} {w : Window} (h : s.now < w.stop l)
    (address : Address) :
    (s.put client w).open? l address = if address = client then some w else s.open? l address := by
  simp only [open?, put, Function.update_apply]
  by_cases haddress : address = client
  · rw [if_pos haddress, if_pos haddress]
    exact Option.filter_some_pos (decide_eq_true h)
  · rw [if_neg haddress, if_neg haddress]
    rfl

/-- The window of an address is one that has not ended. -/
theorem open?_eq_some (h : s.open? l address = some w) :
    s.last address = some w ∧ s.now < w.stop l := by
  obtain ⟨hlast, hopen⟩ := Option.filter_eq_some_iff.mp h
  exact ⟨hlast, by simpa using hopen⟩

/-- Time that passes ends windows. -/
theorem open?_later (l : Quota) (s : Windows) (millis : Nat) (address : Address) :
    { s with now := s.now + millis }.open? l address =
      (s.open? l address).filter fun w => s.now + millis < w.stop l := by
  unfold open?
  rw [Option.filter_filter]
  congr 1
  funext w
  simp only [← Bool.decide_and, decide_eq_decide]
  omega

end Windows

/-! ## Decisions in a window -/

/-- The decisions in a window: the first attempts are let in, as many as the capacity says. -/
def Window.Fair (l : Quota) (w : Window) : Prop :=
  w.decisions = (List.range w.decisions.length).map fun i => decide (i < l.capacity)

theorem Window.Fair.append (h : w.Fair l) :
    Window.Fair l ⟨w.opened, w.decisions ++ [decide (w.decisions.length < l.capacity)]⟩ := by
  unfold Window.Fair at h ⊢
  rw [List.length_append, List.length_singleton, List.range_succ, List.map_append, ← h]
  rfl

/-- As many are let in as attempt it, up to the capacity. -/
theorem Window.Fair.admissions (h : w.Fair l) :
    w.admissions = min w.decisions.length l.capacity := by
  have hcount (n : Nat) :
      ((List.range n).map fun i => decide (i < l.capacity)).count true = min n l.capacity := by
    induction n with
    | zero => simp
    | succ n ih =>
      rw [List.range_succ, List.map_append, List.count_append, ih]
      by_cases hn : n < l.capacity
      · simp [hn]
        omega
      · simp [hn]
        omega
  unfold Window.admissions
  rw [h, hcount, List.length_map, List.length_range]

/-- The slot in which a window is counted. -/
def Window.slot (l : Quota) (w : Window) : Slot :=
  ⟨Text.Decimal.encode w.admissions, some (w.stop l)⟩

/-! ## Counters keep windows -/

/-- A quota whose numbers can be written to the store and are read from it again. -/
structure Bounded (l : Quota) : Prop where
  window_pos : 0 < l.window
  window_le : l.window ≤ Text.Decimal.max63
  capacity_pos : 0 < l.capacity
  capacity_le : l.capacity ≤ Text.Decimal.max63

/-- The store counts in the windows that are open. -/
structure Counts (l : Quota) (m : Volatile) (s : Windows) : Prop where
  now : m.now = s.now
  offline : m.offline = s.offline
  live : ∀ address, m.live? (Quota.key address) = (s.open? l address).map (Window.slot l)
  fair : ∀ address w, s.last address = some w → w.Fair l

theorem Counts.shows (h : Counts l m s) (hon : s.offline = false) : m.Shows s.now m.live? :=
  ⟨h.now, h.offline.trans hon, rfl⟩

/-- A store that shows the same still counts in the windows. -/
theorem Counts.same (h : Counts l m s) (hon : s.offline = false) (hm : m'.Shows s.now m.live?) :
    Counts l m' s where
  now := hm.now
  offline := hm.online.trans hon.symm
  live address := by rw [hm.live, h.live]
  fair := h.fair

/-- A change of the counter of an address is a change of its window, since each address has a
counter of its own. -/
theorem Counts.put (h : Counts l m s) (hon : s.offline = false) (hopen : s.now < w.stop l)
    (hfair : w.Fair l)
    (hm : m'.Shows s.now (Function.update m.live? (Quota.key client) (some (w.slot l)))) :
    Counts l m' (s.put client w) where
  now := hm.now
  offline := hm.online.trans hon.symm
  live address := by
    rw [hm.live, Function.update_apply, Windows.open?_put l s hopen, h.live]
    simp only [Quota.key_inj]
    split
    · rfl
    · rfl
  fair address w' hw' := by
    simp only [Windows.put, Function.update_apply] at hw'
    split at hw'
    · cases hw'
      exact hfair
    · exact h.fair address w' hw'

theorem countOf_encode {n : Nat} (h : n ≤ Text.Decimal.max64) :
    Quota.countOf (Text.Decimal.encode n) = n := by
  have hdigits := Text.Decimal.isDigit_toString n
  unfold Quota.countOf Text.Decimal.encode
  rw [Text.Utf8.decode?_encode_ascii fun c hc => Text.Decimal.lt_of_isDigit (hdigits c hc),
    Option.bind_some, Text.trim_of_no_blank fun c hc =>
      Text.Decimal.isBlank_of_isDigit (hdigits c hc), Text.Decimal.readNat_toString h]
  rfl

/-- Every count up to the capacity is read as it was written. -/
theorem Bounded.reads {n : Nat} (hl : Bounded l) (hn : n ≤ l.capacity) :
    Quota.countOf (Text.Decimal.encode n) = n := by
  have hcapacity := hl.capacity_le
  have hbounds : Text.Decimal.max63 ≤ Text.Decimal.max64 := by decide
  exact countOf_encode (by omega)

/-- A command whose answer decides nothing is carried out, and the log told if it failed. -/
theorem update_reaches {σ : Type} [Store σ] {m m' : σ} {c : Resp.Command} {answer : Answer}
    (address : Address) (refused failed : String)
    (hc : (Dialogue.send c).Reaches m answer m') :
    (Quota.update address c refused failed).Reaches m () m' := by
  refine hc.bind ?_
  split
  · exact Dialogue.reaches_report _ (Dialogue.reaches_pure () m')
  · exact Dialogue.reaches_pure () m'
  · exact Dialogue.reaches_report _ (Dialogue.reaches_pure () m')

/-- The counter of an open window can be raised: it is far from its bound. -/
theorem Counts.raise (h : Counts l m s) (hl : Bounded l) (hon : s.offline = false)
    (hopen : s.open? l address = some w) (hroom : w.admissions < l.capacity) :
    ∃ m', m.carryOut (Quota.raiseCommand address) = (.ok (.integer (w.admissions + 1)), m') ∧
      m'.Shows s.now (Function.update m.live? (Quota.key address)
        (some ⟨Text.Decimal.encode (w.admissions + 1), some (w.stop l)⟩)) := by
  have hslot : m.live? (Quota.key address) = some (w.slot l) := by rw [h.live, hopen]; rfl
  exact Volatile.carryOut_incr (h.shows hon) (hroom.trans_le hl.capacity_le) hslot

/-- The first attempt opens a window and is counted in it. -/
theorem Counts.enter (h : Counts l m s) (hl : Bounded l) (hon : s.offline = false)
    (client : Address) :
    ∃ m', m.carryOut (l.openCommand client) = (.ok (.status "OK"), m') ∧
      Counts l m' (s.put client ⟨s.now, [true]⟩) := by
  have hterms := Objects.readTerms_seconds {} hl.window_pos hl.window_le []
  have hset := Volatile.carryOut_set (h.shows hon) (Quota.key client) (Text.Utf8.encode "1")
    (hterms.trans rfl) (by rintro _ ⟨⟩; exact hl.window_pos)
  obtain ⟨m', hrun, hshows⟩ := hset
  have hopen : s.now < Window.stop l ⟨s.now, [true]⟩ := by
    have := hl.window_pos
    simp only [Window.stop]
    omega
  have hfair : Window.Fair l ⟨s.now, [true]⟩ := by simp [Window.Fair, hl.capacity_pos]
  have hone : Text.Utf8.encode "1" = Text.Decimal.encode 1 := by decide +kernel
  rw [hone] at hshows
  exact ⟨m', hrun, h.put hon hopen hfair hshows⟩

/-- A further attempt is let in if it is among the first, and then it is counted. -/
theorem Counts.proceed (h : Counts l m s) (hl : Bounded l) (hon : s.offline = false)
    (hopen : s.open? l client = some w) :
    let admitted := decide (w.decisions.length < l.capacity)
    let next := s.put client ⟨w.opened, w.decisions ++ [admitted]⟩
    (w.admissions < l.capacity ↔ admitted = true) ∧
      if admitted then
        ∃ m', m.carryOut (Quota.raiseCommand client) = (.ok (.integer (w.admissions + 1)), m') ∧
          Counts l m' next
      else Counts l m next := by
  intro admitted next
  obtain ⟨hlast, hstop⟩ := Windows.open?_eq_some hopen
  have hfair := h.fair client w hlast
  have hadmissions := hfair.admissions
  have hcount : Window.admissions ⟨w.opened, w.decisions ++ [admitted]⟩ =
      w.admissions + if admitted then 1 else 0 := by
    simp only [Window.admissions, List.count_append, List.count_singleton, beq_iff_eq]
  have hiff : w.admissions < l.capacity ↔ admitted = true := by
    rw [decide_eq_true_eq]
    omega
  refine ⟨hiff, ?_⟩
  split
  · next hin =>
    obtain ⟨m', hrun, hshows⟩ := h.raise hl hon hopen (hiff.mpr hin)
    refine ⟨m', hrun, h.put hon hstop hfair.append ?_⟩
    rw [if_pos hin] at hcount
    rw [Window.slot, hcount]
    exact hshows
  · next hout =>
    have hslot : m.live? (Quota.key client) =
        some (Window.slot l ⟨w.opened, w.decisions ++ [admitted]⟩) := by
      rw [h.live, hopen, Option.map_some, Window.slot, Window.slot, hcount, if_neg hout]
      rfl
    refine h.put hon hstop hfair.append ?_
    rw [← hslot, Function.update_eq_self]
    exact h.shows hon

/-- An attempt is decided as the windows say, and the store counts on in them. -/
theorem attempt_reaches (h : Counts l m s) (hl : Bounded l) (client : Address) :
    ∃ m', (l.allows client).Reaches m (s.attempt l client).1 m' ∧
      Counts l m' (s.attempt l client).2 := by
  unfold Quota.allows Windows.attempt
  by_cases hloopback : client.canonical = Address.loopback
  · rw [if_pos hloopback, if_pos hloopback]
    exact ⟨m, Dialogue.reaches_pure true m, h⟩
  rw [if_neg hloopback, if_neg hloopback]
  have hend (event : Event) (admitted : Bool) (m' : Volatile) :
      (do Dialogue.report event; return admitted : Dialogue Bool).Reaches m' admitted m' :=
    Dialogue.reaches_report event (Dialogue.reaches_pure admitted m')
  cases hoff : s.offline with
  | true =>
    have hfail := Volatile.carryOut_offline (h.offline.trans hoff)
      (Quota.lookupCommand client.canonical)
    exact ⟨m, Dialogue.reaches_send hfail (hend _ false m), h⟩
  | false =>
    obtain ⟨m₁, hget, hshows⟩ := Volatile.carryOut_get (h.shows hoff) (Quota.key client.canonical)
    have hcounts := h.same hoff hshows
    rw [h.live] at hget
    simp only [Bool.false_eq_true, if_false]
    cases hopen : s.open? l client.canonical with
    | none =>
      rw [hopen] at hget
      obtain ⟨m₂, hset, hentered⟩ := hcounts.enter hl hoff client.canonical
      refine ⟨m₂, Dialogue.reaches_send hget ?_, hentered⟩
      exact (update_reaches _ _ _ (Dialogue.reaches_carried hset)).bind (hend _ true m₂)
    | some w =>
      rw [hopen] at hget
      obtain ⟨hiff, hproceed⟩ := hcounts.proceed hl hoff hopen
      have hread : Quota.countOf (w.slot l).value = w.admissions := by
        have hadmissions := (h.fair _ w (Windows.open?_eq_some hopen).1).admissions
        exact hl.reads (by omega)
      -- the quota decides by the count it reads, the windows by the attempts made
      by_cases hroom : w.admissions < l.capacity
      · have hin := hiff.mp hroom
        rw [if_pos hin] at hproceed
        obtain ⟨m₂, hraise, hproceeds⟩ := hproceed
        refine ⟨m₂, Dialogue.reaches_send hget ?_, hproceeds⟩
        simp only [Option.map_some, Option.elim_some, hread, if_pos hroom, hin]
        exact (update_reaches _ _ _ (Dialogue.reaches_carried hraise)).bind (hend _ true m₂)
      · have hout := mt hiff.mpr hroom
        rw [if_neg hout] at hproceed
        refine ⟨m₁, Dialogue.reaches_send hget ?_, hproceed⟩
        simp only [Option.map_some, Option.elim_some, hread, if_neg hroom,
          Bool.eq_false_iff.mpr hout]
        exact hend _ false m₁

/-- Time that passes, the clock not wrapping, ends counters with their windows. -/
theorem Counts.elapse {millis : Nat} (h : Counts l m s)
    (hclock : s.now + millis ≤ Text.Decimal.max64) :
    Counts l (m.elapse millis) { s with now := s.now + millis } := by
  rw [← h.now] at hclock
  refine ⟨?_, h.offline, fun address => ?_, h.fair⟩
  · rw [(m.live?_elapse millis hclock []).1, h.now]
  · rw [(m.live?_elapse millis hclock _).2, s.open?_later, h.live, h.now, Option.filter_map]
    congr 2
    funext w
    simp only [Function.comp_apply, Slot.isExpired, Window.slot, ← decide_not, decide_eq_decide]
    omega

/-! ## Turns -/

variable {o : Options} {g : Gateway Volatile}

/-- Every turn, the clock not wrapping, is decided as the windows say, and the store counts on in
them: requests have no counter of their own. -/
theorem step_counts (hg : Serves o l g) (hl : Bounded l) (h : Counts l g.service.store s) (t : Turn)
    (hclock : s.now + t.millis ≤ Text.Decimal.max64) :
    (t.step g).1.decision? = (s.step l t).1 ∧
      Counts l (t.step g).2.service.store (s.step l t).2 := by
  cases t with
  | arrival client =>
    obtain ⟨m', hreaches, hcounts⟩ := attempt_reaches h hl client
    obtain ⟨events, hstep⟩ := arrival_step hg hreaches
    rw [hstep]
    exact ⟨rfl, hcounts⟩
  | happening happening =>
    cases happening with
    | request d suffix r elapsed =>
      have hspares := step_frame hg (t := .happening (.request d suffix r elapsed)) rfl
      refine ⟨rfl, hspares.store.now.trans h.now, hspares.store.offline.trans h.offline,
        fun address => ?_, h.fair⟩
      rw [hspares.store.live? (Quota.key_notMem address d suffix), h.live]
      rfl
    | clock millis => exact ⟨rfl, h.elapse hclock⟩
    | net offline => exact ⟨rfl, h.now, rfl, h.live, h.fair⟩
    | stop reason => exact ⟨rfl, h.now, h.offline, h.live, h.fair⟩

theorem Windows.now_attempt (l : Quota) (client : Address) (s : Windows) :
    (s.attempt l client).2.now = s.now := by
  unfold attempt
  split
  · rfl
  split
  · rfl
  split
  · rfl
  · rfl

theorem Windows.now_step (l : Quota) (s : Windows) (t : Turn) :
    (s.step l t).2.now = s.now + t.millis := by
  cases t with
  | arrival client => exact now_attempt l client s
  | happening happening => cases happening <;> rfl

/-- Turns are decided one by one. -/
theorem decisions_cons (t : Turn) (turns : List Turn) (g : Gateway Volatile) :
    decisions (t :: turns) g = (t.step g).1.decision?.toList ++ decisions turns (t.step g).2 := by
  unfold decisions
  rw [trace, List.filterMap_cons]
  cases (t.step g).1.decision? with
  | none => rfl
  | some admitted => rfl

theorem decisions_counted (hg : Serves o l g) (hl : Bounded l) (h : Counts l g.service.store s)
    (turns : List Turn) (hclock : s.now + elapsed turns ≤ Text.Decimal.max64) :
    decisions turns g = Windows.run l turns s ∧
      Counts l (after turns g).service.store (Windows.after l turns s) := by
  induction turns generalizing g s with
  | nil => exact ⟨rfl, h⟩
  | cons t turns ih =>
    rw [elapsed, ← Nat.add_assoc] at hclock
    obtain ⟨hdecision, hnext⟩ := step_counts hg hl h t (by omega)
    obtain ⟨hrest, hlast⟩ := ih (step_serves hg t) hnext (by rw [Windows.now_step]; exact hclock)
    refine ⟨?_, hlast⟩
    rw [decisions_cons, Windows.run, hdecision, hrest]

theorem bounded_of_ofInts? {window capacity : Int} (hl : Quota.ofInts? window capacity = some l)
    (hwindow : window ≤ Text.Decimal.max63) (hcapacity : capacity ≤ Text.Decimal.max63) :
    Bounded l := by
  unfold Quota.ofInts? at hl
  split at hl
  · cases hl
    constructor <;> simp only <;> omega
  · cases hl

/-- The host's own address as a client of the long form has it. -/
def mappedLoopback : Address := .v6 #v[0, 0, 0, 0, 0, 0xFFFF, 0x7F00, 1]

/-- The host itself is let in, and no command is sent for it. -/
theorem allows_loopback (g : Gateway Volatile) {client : Address}
    (h : client.canonical = Address.loopback) : (Gateway.allows client).run g = (true, g) := by
  obtain ⟨service, routes, quota, bounds, idle⟩ := g
  cases quota with
  | none => rfl
  | some l =>
    have hdialogue : l.allows client = pure true := if_pos h
    have hrun : (Gateway.allows client).run
        (⟨service, routes, some l, bounds, idle⟩ : Gateway Volatile) =
        let decided := (l.allows client).run service
        (decided.1, ⟨decided.2, routes, some l, bounds, idle⟩) := rfl
    rw [hrun, hdialogue]
    rfl

/-- A service whose store in memory has no counter yet decides on all attempts as fixed windows do,
one to each canonical address, whatever requests come in between, as long as the clock does not
wrap. The first attempts in a window are let in, as many as the capacity says; the counter of an
open window lasts to its end and is the number of attempts that were let in, so it can always be
raised; and no command is sent for the host itself. -/
theorem decisions_windowed (o : Options) (timed : Bool) (window capacity : Int) (l : Quota)
    (hl : Quota.ofInts? window capacity = some l) (hwindow : window ≤ Text.Decimal.max63)
    (hcapacity : capacity ≤ Text.Decimal.max63) (service : Service Volatile)
    (hclear : ∀ address, service.store.live? (Quota.key address) = none) (turns : List Turn)
    (hclock : service.store.now + elapsed turns ≤ Text.Decimal.max64) :
    ∃ routes log, routeTable o timed = .ok (routes, log) ∧
      let g : Gateway Volatile := { service, routes, quota := some l }
      let s : Windows := { now := service.store.now, offline := service.store.offline }
      let m := (after turns g).service.store
      decisions turns g = Windows.run l turns s ∧
      (∀ address, match (Windows.after l turns s).open? l address with
        | none => m.live? (Quota.key address) = none
        | some w =>
          w.decisions = (List.range w.decisions.length).map (fun i => decide (i < l.capacity)) ∧
          m.live? (Quota.key address) =
            some ⟨Text.Decimal.encode w.admissions, some (w.stop l)⟩ ∧
          (w.admissions < l.capacity → m.offline = false →
            ∃ m', m.carryOut (Quota.raiseCommand address) =
              (.ok (.integer (w.admissions + 1)), m'))) ∧
      ∀ client ∈ [Address.loopback, mappedLoopback],
        (Gateway.allows client).run (after turns g) = (true, after turns g) := by
  obtain ⟨routes, log, htable, hcores⟩ := routeTable_cores o timed
  refine ⟨routes, log, htable, ?_⟩
  intro g s m
  have hbounded := bounded_of_ofInts? hl hwindow hcapacity
  have hfresh : Counts l service.store s := ⟨rfl, rfl, hclear, fun _ _ h => nomatch h⟩
  obtain ⟨hdecisions, hcounts⟩ :=
    decisions_counted (g := g) ⟨hcores, rfl⟩ hbounded hfresh turns hclock
  refine ⟨hdecisions, fun address => ?_, fun client hclient => ?_⟩
  · have hlive := hcounts.live address
    split
    · next hopen =>
      rw [hopen] at hlive
      exact hlive
    · next w hopen =>
      rw [hopen] at hlive
      refine ⟨hcounts.fair address w (Windows.open?_eq_some hopen).1, hlive, fun hroom hon => ?_⟩
      obtain ⟨m', hraise, -⟩ := hcounts.raise hbounded (hcounts.offline.symm.trans hon) hopen hroom
      exact ⟨m', hraise⟩
  · have hcanonical : client.canonical = Address.loopback := by
      revert client
      decide
    exact allows_loopback _ hcanonical

/-- Two connections in two seconds: both spellings of one address share a window, which ends on the
millisecond, another address has its own, and the host is not counted. -/
theorem decisions_windowed_spellings :
    let short : Address := .v4 192 168 1 20
    let long : Address := .v6 #v[0, 0, 0, 0, 0, 0xFFFF, 0xC0A8, 0x0114]
    let other : Address := .v6 #v[0x2001, 0xDB8, 0, 0, 0, 0, 0, 1]
    let post : Turn := .happening (.request .md5 "0123456789abcdef0123456789abcdef"
      ⟨other, .post, "", none, none, 5, Text.Utf8.encode "Hello"⟩ 7)
    let turns : List Turn := [.arrival short, .arrival long, .arrival short, post, .arrival other,
      .happening (.clock 1999), .arrival long, .happening (.clock 1), .arrival long,
      .arrival mappedLoopback]
    ∃ routes log, routeTable {} false = .ok (routes, log) ∧
      decisions turns { service := { store := { now := 1000 } }, routes, quota := some ⟨2, 2⟩ } =
        [true, true, false, true, false, true, true] := by
  intro short long other post turns
  obtain ⟨routes, log, htable, hdecisions, -⟩ := decisions_windowed {} false 2 2 ⟨2, 2⟩ rfl
    (by decide) (by decide) { store := { now := 1000 } } (fun _ => rfl) turns (by decide)
  refine ⟨routes, log, htable, hdecisions.trans ?_⟩
  decide +kernel

end Depot.Traffic
