import Mathlib
import Depot.Proofs.Steps
import Depot.Proofs.Store.Volatile
import Depot.Proofs.Text.Integer

/-! # The store in memory as a map with deadlines

What the store in memory promises its callers, without slots that are dropped late: a map in which a
slot is there until its deadline and not from then on (`TimedMap`). Whatever happens to the store,
it answers as the map does, and it makes no difference when slots that have expired are dropped
(`sights_timed`). -/

namespace Depot

open Resp (Command Value)
open Text.Utf8 (encode)
open Text.Ascii (sameIgnoringCase)
open Text.Decimal (SpellsInt intOfBytes? intOfBytes?_eq_some max63 max64)

/-- A map in which slots cannot be seen from their deadlines on. -/
structure TimedMap where
  slots : Bytes → Option Slot := fun _ => none
  /-- Milliseconds. -/
  now : Nat := 0
  offline : Bool := false
  /-- The commands carried out so far, oldest first. -/
  history : List Command := []

namespace TimedMap

/-- What can be seen under a key. -/
def visible? (t : TimedMap) (key : Bytes) : Option Slot :=
  (t.slots key).filter fun e => e.deadline.all (t.now < ·)

def put (key : Bytes) (e : Slot) (t : TimedMap) : TimedMap :=
  { t with slots := Function.update t.slots key (some e) }

/-! ## The options of a `SET` -/

inductive Term where
  | onlyNew
  | seconds (n : Nat)
  deriving DecidableEq

def Term.seconds? : Term → Option Nat
  | .onlyNew => none
  | .seconds n => some n

/-- The options in order, or what is wrong with the first that cannot be read. -/
def readAll : List Bytes → Except String (List Term)
  | [] => .ok []
  | option :: options =>
    if sameIgnoringCase option (encode "NX") then (readAll options).map (.onlyNew :: ·)
    else if sameIgnoringCase option (encode "EX") then
      match options with
      | [] => .error Volatile.notInteger
      | digits :: options =>
        match intOfBytes? digits with
        | none => .error Volatile.notInteger
        | some n =>
          if 0 < n then (readAll options).map (.seconds n.toNat :: ·)
          else .error Volatile.badExpiry
    else .error Volatile.badSyntax

/-- How options are spelt: in upper or lower case, in any order, each as often as you like. -/
inductive Spelt : List Bytes → List Term → Prop
  | nil : Spelt [] []
  | onlyNew {option : Bytes} {options : List Bytes} {terms : List Term} :
      sameIgnoringCase option (encode "NX") = true → Spelt options terms →
      Spelt (option :: options) (.onlyNew :: terms)
  | seconds {option digits : Bytes} {n : Nat} {options : List Bytes} {terms : List Term} :
      sameIgnoringCase option (encode "EX") = true → SpellsInt digits n → 0 < n →
      Spelt options terms → Spelt (option :: digits :: options) (.seconds n :: terms)

/-- The deadline that options set: the last one counts, and without one there is none. -/
def deadline (terms : List Term) (now : Nat) : Option Nat :=
  (terms.filterMap Term.seconds?).getLast?.map fun n => now + n * 1000

/-! ## Commands -/

def set (key value : Bytes) (terms : List Term) (t : TimedMap) : Value × TimedMap :=
  if .onlyNew ∈ terms ∧ (t.visible? key).isSome then (.nil, t)
  else (.status "OK", t.put key ⟨value, deadline terms t.now⟩)

/-- Takes out some keys and counts those, each once, under which there was something. -/
def delete (keys : List Bytes) (t : TimedMap) : Value × TimedMap :=
  (.integer (keys.toFinset.filter fun key => (t.visible? key).isSome).card,
    { t with slots := fun key => if key ∈ keys then none else t.slots key })

/-- Adds one to the number under a key. The deadline stays; a number that was not there is one, and
has no deadline. -/
def increment (key : Bytes) (t : TimedMap) : Value × TimedMap :=
  match t.visible? key with
  | none => (.integer 1, t.put key ⟨encode "1", none⟩)
  | some e =>
    match intOfBytes? e.value with
    | none => (.failure Volatile.notInteger, t)
    | some n =>
      if n < max63 then (.integer (n + 1), t.put key ⟨encode (toString (n + 1)), e.deadline⟩)
      else (.failure Volatile.wouldOverflow, t)

def perform (c : Command) (t : TimedMap) : Value × TimedMap :=
  match c.name.map Char.toUpper, c.args with
  | "PING", [] => (.status "PONG", t)
  | "GET", [key] => ((t.visible? key).elim .nil fun e => .bulk e.value, t)
  | "DEL", key :: keys => t.delete (key :: keys)
  | "INCR", [key] => t.increment key
  | "SET", key :: value :: options =>
    match readAll options with
    | .ok terms => t.set key value terms
    | .error text => (.failure text, t)
  | name, _ => (.failure (Volatile.unknown name), t)

def carryOut (c : Command) (t : TimedMap) : Answer × TimedMap :=
  if t.offline then (.error (.broken .connectionReset), t)
  else
    let (value, t) := { t with history := t.history ++ [c] }.perform c
    (.ok value, t)

end TimedMap

/-! ## What happens -/

namespace Volatile

/-- What may happen to a store in memory. -/
inductive Happening where
  | command (c : Command)
  /-- Somebody looks at a value. -/
  | look (key : Bytes)
  /-- Milliseconds that pass. -/
  | clock (millis : Nat)
  | net (offline : Bool)
  /-- Of the slots under some keys those are dropped that have expired. -/
  | sweep (keys : List Bytes)

/-- What somebody gets to see of it. -/
inductive Sight where
  | answer (answer : Answer)
  | value (value : Option Bytes)

def Happening.isSweep : Happening → Bool
  | .sweep _ => true
  | _ => false

/-- The milliseconds that pass. -/
def Happening.millis : Happening → Nat
  | .clock millis => millis
  | _ => 0

/-- The milliseconds that pass in all. -/
def elapsed : List Happening → Nat
  | [] => 0
  | h :: happenings => h.millis + elapsed happenings

def sweep (keys : List Bytes) (m : Volatile) : Volatile := keys.foldl (fun m key => m.settle key) m

def step (m : Volatile) : Happening → Option Sight × Volatile
  | .command c => (some (.answer (m.carryOut c).1), (m.carryOut c).2)
  | .look key => (some (.value (m.peek key).1), (m.peek key).2)
  | .clock millis => (none, m.elapse millis)
  | .net offline => (none, m.cutOff offline)
  | .sweep keys => (none, m.sweep keys)

/-- What is seen of what happens, in order. -/
def sights : List Happening → Volatile → List Sight
  | [], _ => []
  | h :: happenings, m => (m.step h).1.toList ++ sights happenings (m.step h).2

def after (happenings : List Happening) (m : Volatile) : Volatile :=
  happenings.foldl (fun m h => (m.step h).2) m

end Volatile

namespace TimedMap

open Volatile (Happening Sight)

def step (t : TimedMap) : Happening → Option Sight × TimedMap
  | .command c => (some (.answer (t.carryOut c).1), (t.carryOut c).2)
  | .look key => (some (.value ((t.visible? key).map Slot.value)), t)
  | .clock millis => (none, { t with now := t.now + millis })
  | .net offline => (none, { t with offline })
  | .sweep _ => (none, t)

def sights : List Happening → TimedMap → List Sight
  | [], _ => []
  | h :: happenings, t => (t.step h).1.toList ++ sights happenings (t.step h).2

def after (happenings : List Happening) (t : TimedMap) : TimedMap :=
  happenings.foldl (fun t h => (t.step h).2) t

/-- The map that a store in memory stands for. -/
def of (m : Volatile) : TimedMap := ⟨m.find?, m.now, m.offline, m.history⟩

/-! ## Options are read as they are spelt -/

theorem spelt_of_readAll {options : List Bytes} {terms : List Term}
    (h : readAll options = .ok terms) : Spelt options terms := by
  fun_induction readAll options generalizing terms with
  | case1 =>
    cases h
    exact .nil
  | case2 option options hnew ih =>
    obtain ⟨rest, hrest, rfl⟩ := exists_ok_of_map h
    exact .onlyNew hnew (ih hrest)
  | case5 option _ hex digits options n hread hpos ih =>
    obtain ⟨rest, hrest, rfl⟩ := exists_ok_of_map h
    obtain ⟨n, rfl⟩ := Int.eq_ofNat_of_zero_le hpos.le
    exact .seconds hex (intOfBytes?_eq_some.mp hread) (Int.natCast_pos.mp hpos) (ih hrest)
  | _ => cases h

/-- No spelling stands for both. -/
theorem not_new_of_seconds {option : Bytes} (h : sameIgnoringCase option (encode "EX") = true) :
    ¬sameIgnoringCase option (encode "NX") = true := by
  intro hnew
  rw [sameIgnoringCase, beq_iff_eq] at h hnew
  exact absurd (h.symm.trans hnew) (by decide +kernel)

theorem readAll_of_spelt {options : List Bytes} {terms : List Term} (h : Spelt options terms) :
    readAll options = .ok terms := by
  induction h with
  | nil => rfl
  | onlyNew hnew _ ih =>
    rw [readAll.eq_def]
    simp only [if_pos hnew, ih]
    rfl
  | seconds hex hdigits hpos _ ih =>
    rw [readAll.eq_def]
    simp only [if_neg (not_new_of_seconds hex), if_pos hex, intOfBytes?_eq_some.mpr hdigits, ih,
      if_pos (Int.natCast_pos.mpr hpos)]
    rfl

/-- Read from left to right, options come to the last of their expiries. -/
theorem readTerms_eq (options : List Bytes) (acc : Volatile.SetTerms) :
    Volatile.readTerms acc options = (readAll options).map fun terms =>
      { seconds := (terms.filterMap Term.seconds?).getLast?.or acc.seconds
        onlyNew := acc.onlyNew || decide (.onlyNew ∈ terms) } := by
  fun_induction readAll options generalizing acc with
  | case1 => simp [Volatile.readTerms, Except.map]
  | case2 option options hnew ih =>
    rw [Volatile.readTerms.eq_def]
    simp only [if_pos hnew, ih]
    cases readAll options with
    | error text => rfl
    | ok terms => simp [Except.map, Term.seconds?]
  | case3 option hnew hex =>
    rw [Volatile.readTerms.eq_def]
    simp only [if_neg hnew, if_pos hex]
    rfl
  | case4 option hnew hex digits options hread =>
    rw [Volatile.readTerms.eq_def]
    simp only [if_neg hnew, if_pos hex, hread]
    rfl
  | case5 option hnew hex digits options n hread hpos ih =>
    rw [Volatile.readTerms.eq_def]
    simp only [if_neg hnew, if_pos hex, hread, if_pos hpos, ih]
    cases readAll options with
    | error text => rfl
    | ok terms =>
      simp only [Except.map, List.filterMap_cons, Term.seconds?, List.getLast?_cons]
      cases (terms.filterMap Term.seconds?).getLast? <;> simp
  | case6 option hnew hex digits options n hread hpos =>
    rw [Volatile.readTerms.eq_def]
    simp only [if_neg hnew, if_pos hex, hread, if_neg hpos]
    rfl
  | case7 option options hnew hex =>
    rw [Volatile.readTerms.eq_def]
    simp only [if_neg hnew, if_neg hex]
    rfl

/-! ## The store resembles the map -/

variable {m : Volatile} {t : TimedMap} {key : Bytes} {e : Slot}

/-- The store is to its callers what the map is. -/
structure Resembles (m : Volatile) (t : TimedMap) : Prop where
  now : m.now = t.now
  offline : m.offline = t.offline
  history : m.history = t.history
  live : m.live? = t.visible?

theorem isExpired_eq (e : Slot) (now : Nat) : (!e.isExpired now) = e.deadline.all (now < ·) := by
  unfold Slot.isExpired
  cases e.deadline with
  | none => rfl
  | some deadline =>
    rw [Option.all_some, ← decide_not, decide_eq_decide]
    omega

theorem resembles_of (m : Volatile) : Resembles m (of m) := by
  refine ⟨rfl, rfl, rfl, funext fun key => ?_⟩
  simp only [Volatile.live?, isExpired_eq]
  rfl

theorem Resembles.settle (h : Resembles m t) (key : Bytes) : Resembles (m.settle key) t := by
  obtain ⟨hnow, hoffline, hlive⟩ := m.settle_spec key
  refine ⟨hnow.trans h.now, hoffline.trans h.offline, ?_, hlive.trans h.live⟩
  rw [← h.history]
  unfold Volatile.settle
  split
  · split
    · rfl
    · rfl
  · rfl

/-- A slot that is put in can be seen as long as its deadline lies ahead. -/
theorem visible?_put (t : TimedMap) (key : Bytes) (h : e.deadline.all (t.now < ·) = true) :
    (t.put key e).visible? = Function.update t.visible? key (some e) := by
  funext key'
  simp only [visible?, put, Function.update_apply]
  split
  · exact Option.filter_some_pos h
  · rfl

theorem Resembles.insert (h : Resembles m t) (key : Bytes)
    (hahead : e.deadline.all (t.now < ·) = true) : Resembles (m.insert key e) (t.put key e) := by
  have hfresh : e.isExpired m.now = false := by
    rw [← Bool.not_eq_true', isExpired_eq, h.now, hahead]
  refine ⟨h.now, h.offline, h.history, ?_⟩
  rw [Volatile.live?_insert m key e hfresh, visible?_put t key hahead, h.live]

theorem Resembles.remove (h : Resembles m t) (key : Bytes) :
    Resembles (m.remove key) (t.delete [key]).2 := by
  refine ⟨h.now, h.offline, h.history, ?_⟩
  rw [Volatile.live?_remove, h.live]
  funext key'
  simp only [visible?, delete, Function.update_apply, List.mem_singleton]
  split
  · rfl
  · rfl

theorem Spelt.seconds_pos {options : List Bytes} {terms : List Term} (h : Spelt options terms) :
    ∀ n ∈ terms.filterMap Term.seconds?, 0 < n := by
  induction h with
  | nil => simp
  | onlyNew _ _ ih => exact ih
  | seconds _ _ hpos _ ih => exact List.forall_mem_cons.mpr ⟨hpos, ih⟩

/-- A deadline that is set lies ahead. -/
theorem Spelt.deadline_ahead {options : List Bytes} {terms : List Term} (h : Spelt options terms)
    (now : Nat) : (deadline terms now).all (now < ·) = true := by
  unfold deadline
  cases hlast : (terms.filterMap Term.seconds?).getLast? with
  | none => rfl
  | some n =>
    have hpos := h.seconds_pos n (List.mem_of_getLast? hlast)
    rw [Option.map_some, Option.all_some, decide_eq_true_eq]
    omega

theorem Resembles.set (h : Resembles m t) (key value : Bytes) {options : List Bytes}
    {terms : List Term} (hread : readAll options = .ok terms) :
    ∃ read, Volatile.readTerms {} options = .ok read ∧
      (m.set key value read).1 = (t.set key value terms).1 ∧
      Resembles (m.set key value read).2 (t.set key value terms).2 := by
  have hterms := readTerms_eq options {}
  rw [hread] at hterms
  refine ⟨_, hterms, ?_⟩
  have hset : m.set key value
      { seconds := (terms.filterMap Term.seconds?).getLast?.or none
        onlyNew := false || decide (.onlyNew ∈ terms) } =
      if .onlyNew ∈ terms ∧ (t.visible? key).isSome then (.nil, m.settle key)
      else (.status "OK", m.insert key ⟨value, deadline terms t.now⟩) := by
    unfold Volatile.set deadline
    rw [Volatile.current?_eq, h.live, h.now]
    simp
  rw [hset, TimedMap.set]
  split
  · exact ⟨rfl, h.settle key⟩
  · exact ⟨rfl, h.insert key ((spelt_of_readAll hread).deadline_ahead t.now)⟩

theorem Resembles.increment (h : Resembles m t) (key : Bytes) :
    (m.increment key).1 = (t.increment key).1 ∧
      Resembles (m.increment key).2 (t.increment key).2 := by
  have hsettled := h.settle key
  unfold Volatile.increment TimedMap.increment
  rw [Volatile.current?_eq, h.live]
  cases hvisible : t.visible? key with
  | none => exact ⟨rfl, hsettled.insert key rfl⟩
  | some e =>
    have hahead : e.deadline.all (t.now < ·) = true := (Option.filter_eq_some_iff.mp hvisible).2
    simp only [Option.elim_some, Option.bind_some]
    cases intOfBytes? e.value with
    | none => exact ⟨rfl, hsettled⟩
    | some n =>
      simp only
      split
      · exact ⟨rfl, hsettled.insert key hahead⟩
      · exact ⟨rfl, hsettled⟩

/-- One more key is deleted, and counted if something was there. -/
def deleteNext (x : Nat × Volatile) (key : Bytes) : Nat × Volatile :=
  (if (x.2.current? key).isSome then x.1 + 1 else x.1, (x.2.settle key).remove key)

/-- Counts add up, whatever number the count begins at. -/
theorem foldl_deleteNext (keys : List Bytes) (n : Nat) (x : Nat × Volatile) :
    keys.foldl deleteNext (n + x.1, x.2) =
      (n + (keys.foldl deleteNext x).1, (keys.foldl deleteNext x).2) := by
  induction keys generalizing x with
  | nil => rfl
  | cons key keys ih =>
    have hnext : deleteNext (n + x.1, x.2) key =
        (n + (deleteNext x key).1, (deleteNext x key).2) := by
      unfold deleteNext
      split
      · rfl
      · rfl
    rw [List.foldl_cons, List.foldl_cons, hnext, ih]

theorem delete_cons (key : Bytes) (keys : List Bytes) (m : Volatile) :
    m.delete (key :: keys) =
      ((if (m.live? key).isSome then 1 else 0) + (((m.settle key).remove key).delete keys).1,
        (((m.settle key).remove key).delete keys).2) := by
  have hnext : deleteNext (0, m) key =
      ((if (m.live? key).isSome then 1 else 0) + 0, (m.settle key).remove key) := by
    unfold deleteNext
    rw [Volatile.current?_eq]
    dsimp only
    split
    · rfl
    · rfl
  have hfold (keys : List Bytes) (m : Volatile) : m.delete keys = keys.foldl deleteNext (0, m) := rfl
  rw [hfold, hfold, List.foldl_cons, hnext, foldl_deleteNext keys _ (0, _)]

/-- Each key counts once: taking one out first leaves the others to be counted. -/
theorem card_visible (key : Bytes) (keys : List Bytes) (t : TimedMap) :
    ((key :: keys).toFinset.filter fun k => (t.visible? k).isSome).card =
      (if (t.visible? key).isSome then 1 else 0) +
        (keys.toFinset.filter fun k => (((t.delete [key]).2).visible? k).isSome).card := by
  have hothers : (keys.toFinset.filter fun k => (((t.delete [key]).2).visible? k).isSome) =
      ((key :: keys).toFinset.filter fun k => (t.visible? k).isSome).erase key := by
    ext k
    have hvisible : (t.delete [key]).2.visible? k = if k = key then none else t.visible? k := by
      simp only [visible?, delete, List.mem_singleton]
      split
      · rfl
      · rfl
    simp only [Finset.mem_filter, Finset.mem_erase, List.mem_toFinset, List.mem_cons, hvisible]
    by_cases hk : k = key
    · simp [hk]
    · simp [hk]
  rw [hothers]
  split
  · next hsome =>
    rw [Nat.add_comm, Finset.card_erase_add_one]
    simpa using hsome
  · next hnone =>
    rw [Nat.zero_add, Finset.erase_eq_of_notMem]
    simpa using hnone

theorem delete_delete (key : Bytes) (keys : List Bytes) (t : TimedMap) :
    ((t.delete [key]).2.delete keys).2 = (t.delete (key :: keys)).2 := by
  have hslots : (fun k => if k ∈ keys then none else if k ∈ [key] then none else t.slots k) =
      fun k => if k ∈ key :: keys then none else t.slots k := by
    funext k
    by_cases hk : k = key
    · simp [hk]
    · simp [hk]
  unfold TimedMap.delete
  rw [hslots]

theorem Resembles.delete (h : Resembles m t) (keys : List Bytes) :
    Value.integer (m.delete keys).1 = (t.delete keys).1 ∧
      Resembles (m.delete keys).2 (t.delete keys).2 := by
  -- each key is deleted from what the one before it left, so store and map change on the way
  induction keys generalizing m t with
  | nil => exact ⟨rfl, h.now, h.offline, h.history, h.live⟩
  | cons key keys ih =>
    obtain ⟨hcount, hrest⟩ := ih ((h.settle key).remove key)
    have hcard : (((m.settle key).remove key).delete keys).1 =
        (keys.toFinset.filter fun k => (((t.delete [key]).2).visible? k).isSome).card :=
      Int.natCast_inj.mp (Value.integer.inj hcount)
    rw [delete_cons, h.live, ← delete_delete]
    refine ⟨?_, hrest⟩
    rw [hcard, ← card_visible]
    rfl

theorem Resembles.perform (h : Resembles m t) (c : Command) :
    (m.perform c).1 = (t.perform c).1 ∧ Resembles (m.perform c).2 (t.perform c).2 := by
  unfold TimedMap.perform
  split
  · next hname hargs =>
    have hrun : m.perform c = (.status "PONG", m) := by
      unfold Volatile.perform
      simp only [hname, hargs]
    rw [hrun]
    exact ⟨rfl, h⟩
  · next key hname hargs =>
    have hrun : m.perform c =
        ((m.current? key).elim .nil fun e => .bulk e.value, m.settle key) := by
      unfold Volatile.perform
      simp only [hname, hargs]
    rw [hrun, Volatile.current?_eq, h.live]
    exact ⟨rfl, h.settle key⟩
  · next key keys hname hargs =>
    have hrun : m.perform c =
        (.integer (m.delete (key :: keys)).1, (m.delete (key :: keys)).2) := by
      unfold Volatile.perform
      simp only [hname, hargs]
    rw [hrun]
    exact h.delete (key :: keys)
  · next key hname hargs =>
    have hrun : m.perform c = m.increment key := by
      unfold Volatile.perform
      simp only [hname, hargs]
    rw [hrun]
    exact h.increment key
  · next key value options hname hargs =>
    cases hread : readAll options with
    | error text =>
      have hterms : Volatile.readTerms {} options = .error text := by
        rw [readTerms_eq, hread]
        rfl
      have hrun : m.perform c = (.failure text, m) := by
        unfold Volatile.perform
        simp only [hname, hargs, hterms]
      rw [hrun]
      exact ⟨rfl, h⟩
    | ok terms =>
      obtain ⟨read, hterms, hset⟩ := h.set key value hread
      have hrun : m.perform c = m.set key value read := by
        unfold Volatile.perform
        simp only [hname, hargs, hterms]
      rw [hrun]
      exact hset
  · next hping hget hdel hincr hset =>
    -- the map knows a command by the same patterns, so the store does not know this one either
    have hrun : m.perform c = (.failure (Volatile.unknown (c.name.map Char.toUpper)), m) := by
      unfold Volatile.perform
      dsimp only
      split
      · next hname hargs => exact absurd hargs (hping hname)
      · next key hname hargs => exact absurd hargs (hget key hname)
      · next key keys hname hargs => exact absurd hargs (hdel key keys hname)
      · next key hname hargs => exact absurd hargs (hincr key hname)
      · next key value options hname hargs => exact absurd hargs (hset key value options hname)
      · rfl
    rw [hrun]
    exact ⟨rfl, h⟩

theorem Resembles.carryOut (h : Resembles m t) (c : Command) :
    (m.carryOut c).1 = (t.carryOut c).1 ∧ Resembles (m.carryOut c).2 (t.carryOut c).2 := by
  unfold Volatile.carryOut TimedMap.carryOut
  by_cases hoffline : t.offline = true
  · rw [if_pos (h.offline.trans hoffline), if_pos hoffline]
    exact ⟨rfl, h⟩
  · rw [if_neg (h.offline ▸ hoffline), if_neg hoffline]
    have hlogged : Resembles { m with history := m.history ++ [c] }
        { t with history := t.history ++ [c] } :=
      ⟨h.now, h.offline, congrArg (· ++ [c]) h.history, h.live⟩
    obtain ⟨hvalue, hrest⟩ := hlogged.perform c
    exact ⟨congrArg Except.ok hvalue, hrest⟩

theorem Resembles.elapse (h : Resembles m t) {millis : Nat} (hclock : t.now + millis ≤ max64) :
    Resembles (m.elapse millis) { t with now := t.now + millis } := by
  rw [← h.now] at hclock
  refine ⟨?_, h.offline, h.history, funext fun key => ?_⟩
  · rw [(m.live?_elapse millis hclock []).1, h.now]
  · rw [(m.live?_elapse millis hclock key).2, h.live, h.now]
    simp only [visible?, Option.filter_filter, isExpired_eq]
    congr 1
    funext e
    cases e.deadline with
    | none => rfl
    | some deadline =>
      simp only [Option.all_some, ← Bool.decide_and, decide_eq_decide]
      omega

theorem Resembles.sweep (h : Resembles m t) (keys : List Bytes) : Resembles (m.sweep keys) t := by
  induction keys generalizing m with
  | nil => exact h
  | cons key keys ih => exact ih (h.settle key)

/-- Whatever happens, the clock not wrapping, looks the same on the store and on the map. -/
theorem Resembles.step (h : Resembles m t) (happening : Happening)
    (hclock : t.now + happening.millis ≤ max64) :
    (m.step happening).1 = (t.step happening).1 ∧
      Resembles (m.step happening).2 (t.step happening).2 := by
  cases happening with
  | command c =>
    obtain ⟨hanswer, hrest⟩ := h.carryOut c
    exact ⟨congrArg (some ∘ Sight.answer) hanswer, hrest⟩
  | look key =>
    refine ⟨?_, h.settle key⟩
    simp only [Volatile.step, Volatile.peek, Volatile.current?_eq, h.live, TimedMap.step]
  | clock millis => exact ⟨rfl, h.elapse hclock⟩
  | net offline => exact ⟨rfl, h.now, rfl, h.history, h.live⟩
  | sweep keys => exact ⟨rfl, h.sweep keys⟩

/-- Whether an answer says that nothing was there or that nothing was done. -/
def Refuses : Answer → Prop
  | .ok .nil => True
  | .ok (.failure _) => True
  | .ok _ => False
  | .error _ => True

/-- A command that is refused leaves the map as it is. -/
theorem perform_refused {c : Command} (h : Refuses (.ok (t.perform c).1)) : (t.perform c).2 = t := by
  revert h
  unfold perform
  split
  · exact fun _ => rfl
  · exact fun _ => rfl
  · exact fun h => False.elim h
  · unfold increment
    split
    · exact fun h => False.elim h
    · split
      · exact fun _ => rfl
      · split
        · exact fun h => False.elim h
        · exact fun _ => rfl
  · split
    · unfold set
      split
      · exact fun _ => rfl
      · exact fun h => False.elim h
    · exact fun _ => rfl
  · exact fun _ => rfl

theorem carryOut_refused {c : Command} (h : Refuses (t.carryOut c).1) :
    (t.carryOut c).2.visible? = t.visible? := by
  revert h
  unfold carryOut
  split
  · exact fun _ => rfl
  · intro h
    change (perform c _).2.visible? = _
    rw [perform_refused h]
    rfl

/-! ## Runs -/

/-- A command changes slots only. -/
theorem perform_frame (t : TimedMap) (c : Command) :
    ∃ slots, (t.perform c).2 = { t with slots } := by
  unfold perform
  split
  · exact ⟨_, rfl⟩
  · exact ⟨_, rfl⟩
  · exact ⟨_, rfl⟩
  · unfold increment
    split
    · exact ⟨_, rfl⟩
    · split
      · exact ⟨_, rfl⟩
      · split
        · exact ⟨_, rfl⟩
        · exact ⟨_, rfl⟩
  · split
    · unfold set
      split
      · exact ⟨_, rfl⟩
      · exact ⟨_, rfl⟩
    · exact ⟨_, rfl⟩
  · exact ⟨_, rfl⟩

theorem now_step (t : TimedMap) (happening : Happening) :
    (t.step happening).2.now = t.now + happening.millis := by
  cases happening with
  | command c =>
    change (t.carryOut c).2.now = t.now
    unfold carryOut
    split
    · rfl
    · obtain ⟨slots, hslots⟩ := perform_frame { t with history := t.history ++ [c] } c
      change (perform c _).2.now = t.now
      rw [hslots]
  | look key => rfl
  | clock millis => rfl
  | net offline => rfl
  | sweep keys => rfl

theorem Resembles.run (h : Resembles m t) (happenings : List Happening)
    (hclock : t.now + Volatile.elapsed happenings ≤ max64) :
    Volatile.sights happenings m = t.sights happenings ∧
      Resembles (m.after happenings) (t.after happenings) := by
  induction happenings generalizing m t with
  | nil => exact ⟨rfl, h⟩
  | cons happening happenings ih =>
    rw [Volatile.elapsed, ← Nat.add_assoc] at hclock
    obtain ⟨hsight, hnext⟩ := h.step happening (by omega)
    obtain ⟨hrest, hlast⟩ := ih hnext (by rw [now_step]; exact hclock)
    refine ⟨?_, hlast⟩
    rw [Volatile.sights, sights, hsight, hrest]

/-- On the map there is nothing to drop. -/
theorem sights_unswept (t : TimedMap) (happenings : List Happening) :
    t.sights (happenings.filter fun h => !h.isSweep) = t.sights happenings := by
  induction happenings generalizing t with
  | nil => rfl
  | cons happening happenings ih =>
    cases happening with
    | sweep keys => exact ih t
    | _ => exact congrArg _ (ih _)

theorem elapsed_unswept (happenings : List Happening) :
    Volatile.elapsed (happenings.filter fun h => !h.isSweep) = Volatile.elapsed happenings := by
  induction happenings with
  | nil => rfl
  | cons happening happenings ih =>
    cases happening with
    | sweep keys => exact ih.trans (Nat.zero_add _).symm
    | _ => exact congrArg (_ + ·) ih

end TimedMap

open TimedMap (Spelt readAll Refuses) in
/-- **A store in memory is a map with deadlines.** Whatever happens to it, as long as the clock does
not wrap: it answers every command as the map does, shows the same values and keeps the same
history, where the options of a `SET` count in any order, spelling and number. A command that is
refused leaves alone what is live, and dropping slots that have expired, whenever that is done, is
not to be seen. -/
theorem Volatile.sights_timed (m : Volatile) (happenings : List Volatile.Happening)
    (hclock : m.now + Volatile.elapsed happenings ≤ max64) :
    let t := TimedMap.of m
    let ended := m.after happenings
    sights happenings m = t.sights happenings ∧
      ended.history = (t.after happenings).history ∧
      ended.live? = (t.after happenings).visible? ∧
      (∀ options terms, readAll options = .ok terms ↔ Spelt options terms) ∧
      (∀ c, Refuses (ended.carryOut c).1 → (ended.carryOut c).2.live? = ended.live?) ∧
      sights happenings m = sights (happenings.filter fun h => !h.isSweep) m := by
  intro t ended
  have hstart : TimedMap.Resembles m t := TimedMap.resembles_of m
  obtain ⟨hsights, hended⟩ := hstart.run happenings hclock
  obtain ⟨hunswept, _⟩ := hstart.run (happenings.filter fun h => !h.isSweep)
    (by rwa [TimedMap.elapsed_unswept])
  refine ⟨hsights, hended.history, hended.live, fun options terms => ?_, fun c hrefused => ?_, ?_⟩
  · exact ⟨TimedMap.spelt_of_readAll, TimedMap.readAll_of_spelt⟩
  · obtain ⟨hanswer, hnext⟩ := hended.carryOut c
    rw [hanswer] at hrefused
    rw [hnext.live, TimedMap.carryOut_refused hrefused, hended.live]
  · rw [hsights, hunswept, TimedMap.sights_unswept]

/-- Two counters and an object at the ends of their times: the expiry that is named last counts, in
either case, a number that is raised keeps its deadline, a key that is named twice counts once, and
slots that are over are swept away unseen. -/
theorem Volatile.sights_timed_minute :
    let command (name : String) (args : List String) : Volatile.Happening :=
      .command ⟨name, args.map encode⟩
    let happenings : List Volatile.Happening :=
      [command "SET" ["n", "41", "EX", "9", "nx", "eX", "2"], command "set" ["k", "v"],
        .clock 1999, command "Incr" ["n"], command "SET" ["n", "7", "NX"], .look (encode "n"),
        .clock 1, .look (encode "n"), .sweep [encode "n", encode "k"], command "INCR" ["n"],
        command "DEL" ["n", "k", "n", "none"], command "SET" ["k", "v", "EX", "0"], .net true,
        command "GET" ["k"]]
    1000 + Volatile.elapsed happenings ≤ max64 ∧
      Volatile.sights happenings { now := 1000 } =
        [.answer (.ok (.status "OK")), .answer (.ok (.status "OK")), .answer (.ok (.integer 42)),
          .answer (.ok .nil), .value (some (encode "42")), .value none,
          .answer (.ok (.integer 1)), .answer (.ok (.integer 2)),
          .answer (.ok (.failure Volatile.badExpiry)),
          .answer (.error (.broken .connectionReset))] := by
  intro command happenings
  have hclock : 1000 + Volatile.elapsed happenings ≤ max64 := by decide
  obtain ⟨hsights, -⟩ := Volatile.sights_timed { now := 1000 } happenings hclock
  refine ⟨hclock, hsights.trans ?_⟩
  cbv

end Depot
