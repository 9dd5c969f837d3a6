import Mathlib.Logic.Function.Basic
import Depot.Proofs.Text.Decimal
import Depot.Store.Volatile

/-! # The store in memory as a map

Slots are dropped late, when they are next looked at, so the slots that are kept say less than those
that are live (`live?`). Every command is described by what it does to the live slots: to drop an
expired one does nothing to them. -/

namespace Depot.Volatile

open Resp (Command Value)

variable {m : Volatile} {key key' : Bytes} {e : Slot}

/-- The slot under a key, unless it has expired. -/
def live? (m : Volatile) (key : Bytes) : Option Slot :=
  (m.find? key).filter fun e => !e.isExpired m.now

theorem lookup_filter_ne (slots : List (Bytes × Slot)) (key key' : Bytes) :
    (slots.filter fun (k, _) => k != key).lookup key' =
      if key' = key then none else slots.lookup key' := by
  induction slots with
  | nil => simp
  | cons slot slots ih =>
    obtain ⟨k, e⟩ := slot
    rw [List.filter_cons]
    by_cases hk : k = key
    · rw [if_neg (by simp [hk]), ih]
      by_cases hkey : key' = key
      · rw [if_pos hkey, if_pos hkey]
      · have hne : (key' == k) = false := by simp [hk, hkey]
        rw [if_neg hkey, if_neg hkey, List.lookup_cons, hne]
    · rw [if_pos (by simp [hk]), List.lookup_cons, List.lookup_cons, ih]
      by_cases hkey : key' = key
      · have hne : (key' == k) = false := by simp [hkey, Ne.symm hk]
        simp only [hne, if_pos hkey]
      · simp only [if_neg hkey]

theorem find?_remove (m : Volatile) (key key' : Bytes) :
    (m.remove key).find? key' = if key' = key then none else m.find? key' :=
  lookup_filter_ne m.slots key key'

theorem find?_insert (m : Volatile) (key key' : Bytes) (e : Slot) :
    (m.insert key e).find? key' = if key' = key then some e else m.find? key' := by
  have hrest := find?_remove m key key'
  unfold find? at hrest ⊢
  unfold insert
  rw [List.lookup_cons]
  by_cases hkey : key' = key
  · rw [if_pos hkey, hkey, beq_self_eq_true]
  · have hne : (key' == key) = false := by simp [hkey]
    rw [if_neg hkey, hne, hrest, if_neg hkey]

theorem live?_remove (m : Volatile) (key : Bytes) :
    (m.remove key).live? = Function.update m.live? key none := by
  funext key'
  unfold live?
  rw [find?_remove, Function.update_apply]
  by_cases hkey : key' = key
  · rw [if_pos hkey, if_pos hkey, Option.filter_none]
  · rw [if_neg hkey, if_neg hkey]
    rfl

theorem live?_insert (m : Volatile) (key : Bytes) (e : Slot) (h : e.isExpired m.now = false) :
    (m.insert key e).live? = Function.update m.live? key (some e) := by
  funext key'
  unfold live?
  rw [find?_insert, Function.update_apply]
  have hnow : (m.insert key e).now = m.now := rfl
  by_cases hkey : key' = key
  · rw [if_pos hkey, if_pos hkey, Option.filter_some, hnow, h]
    rfl
  · rw [if_neg hkey, if_neg hkey, hnow]

/-- Dropping a slot that has expired leaves the clock and the live slots alone. -/
theorem settle_spec (m : Volatile) (key : Bytes) :
    (m.settle key).now = m.now ∧ (m.settle key).offline = m.offline ∧
      (m.settle key).live? = m.live? := by
  unfold settle
  cases hfind : m.find? key with
  | none => exact ⟨rfl, rfl, rfl⟩
  | some e =>
    simp only
    cases hexp : e.isExpired m.now with
    | false => exact ⟨rfl, rfl, rfl⟩
    | true =>
      refine ⟨rfl, rfl, ?_⟩
      rw [if_pos rfl, live?_remove, Function.update_eq_self_iff]
      simp [live?, hfind, hexp, Option.filter_some]

theorem current?_eq (m : Volatile) (key : Bytes) : m.current? key = m.live? key := by
  unfold current? settle live?
  cases hfind : m.find? key with
  | none => simp [hfind]
  | some e =>
    simp only
    cases hexp : e.isExpired m.now with
    | false => simp [hfind, hexp, Option.filter_some]
    | true => simp [find?_remove, hexp, Option.filter_some]

/-- A store on the net, as its clients see it: the time and the live slots. -/
structure Shows (m : Volatile) (now : Nat) (live : Bytes → Option Slot) : Prop where
  now : m.now = now
  online : m.offline = false
  live : m.live? = live

variable {now : Nat} {live : Bytes → Option Slot}

theorem Shows.settle (h : m.Shows now live) (key : Bytes) : (m.settle key).Shows now live := by
  obtain ⟨hnow, hoffline, hlive⟩ := settle_spec m key
  exact ⟨hnow.trans h.now, hoffline.trans h.online, hlive.trans h.live⟩

/-- What a command that is carried out does to the store, its place in the history aside. -/
theorem carryOut_online (h : m.Shows now live) (c : Command) :
    ∃ m₁ : Volatile, m₁.Shows now live ∧
      m.carryOut c = (.ok (m₁.perform c).1, (m₁.perform c).2) := by
  refine ⟨{ m with history := m.history ++ [c] }, ⟨h.now, h.online, h.live⟩, ?_⟩
  unfold carryOut
  rw [if_neg (by simp [h.online])]

theorem carryOut_offline (h : m.offline = true) (c : Command) :
    m.carryOut c = (.error (.broken .connectionReset), m) := if_pos h

/-! Command names are matched in upper case. -/

theorem perform_get (m : Volatile) (key : Bytes) :
    m.perform ⟨"GET", [key]⟩ =
      ((m.current? key).elim .nil fun e => .bulk e.value, m.settle key) := by
  have hname : "GET".map Char.toUpper = "GET" := by decide +kernel
  unfold perform
  simp only [hname]

theorem perform_del (m : Volatile) (key : Bytes) :
    m.perform ⟨"DEL", [key]⟩ =
      (.integer (if (m.current? key).isSome then 1 else 0 : Nat), (m.settle key).remove key) := by
  have hname : "DEL".map Char.toUpper = "DEL" := by decide +kernel
  unfold perform
  simp only [hname]
  rfl

theorem perform_set (m : Volatile) (key value : Bytes) {options : List Bytes} {terms : SetTerms}
    (hterms : readTerms {} options = .ok terms) :
    m.perform ⟨"SET", key :: value :: options⟩ = m.set key value terms := by
  have hname : "SET".map Char.toUpper = "SET" := by decide +kernel
  unfold perform
  simp only [hname, hterms]

theorem perform_incr (m : Volatile) (key : Bytes) :
    m.perform ⟨"INCR", [key]⟩ = m.increment key := by
  have hname : "INCR".map Char.toUpper = "INCR" := by decide +kernel
  unfold perform
  simp only [hname]

theorem carryOut_get (h : m.Shows now live) (key : Bytes) :
    ∃ m', m.carryOut ⟨"GET", [key]⟩ = (.ok ((live key).elim .nil fun e => .bulk e.value), m') ∧
      m'.Shows now live := by
  obtain ⟨m₁, h₁, hrun⟩ := carryOut_online h ⟨"GET", [key]⟩
  rw [hrun, perform_get, current?_eq, h₁.live]
  exact ⟨_, rfl, h₁.settle key⟩

theorem carryOut_del (h : m.Shows now live) (key : Bytes) :
    ∃ m', m.carryOut ⟨"DEL", [key]⟩ =
        (.ok (.integer (if (live key).isSome then 1 else 0 : Nat)), m') ∧
      m'.Shows now (Function.update live key none) := by
  obtain ⟨m₁, h₁, hrun⟩ := carryOut_online h ⟨"DEL", [key]⟩
  have hsettled := h₁.settle key
  rw [hrun, perform_del, current?_eq, h₁.live]
  exact ⟨_, rfl, hsettled.now, hsettled.online, by rw [live?_remove, hsettled.live]⟩

/-- The slot that a `SET` makes at a time. -/
def SetTerms.slot (terms : SetTerms) (value : Bytes) (now : Nat) : Slot :=
  ⟨value, terms.seconds.map fun seconds => now + seconds * 1000⟩

theorem carryOut_set {options : List Bytes} {terms : SetTerms} (h : m.Shows now live)
    (key value : Bytes) (hterms : readTerms {} options = .ok terms)
    (hseconds : ∀ seconds ∈ terms.seconds, 0 < seconds) :
    if terms.onlyNew && (live key).isSome then
      ∃ m', m.carryOut ⟨"SET", key :: value :: options⟩ = (.ok .nil, m') ∧ m'.Shows now live
    else
      ∃ m', m.carryOut ⟨"SET", key :: value :: options⟩ = (.ok (.status "OK"), m') ∧
        m'.Shows now (Function.update live key (some (terms.slot value now))) := by
  obtain ⟨m₁, h₁, hrun⟩ := carryOut_online h ⟨"SET", key :: value :: options⟩
  have hset : m₁.set key value terms =
      if terms.onlyNew && (live key).isSome then (.nil, m₁.settle key)
      else (.status "OK", m₁.insert key (terms.slot value now)) := by
    unfold set SetTerms.slot
    rw [current?_eq, h₁.live, h₁.now]
  rw [hrun, perform_set m₁ key value hterms, hset]
  split
  · exact ⟨_, rfl, h₁.settle key⟩
  · have hexp : (terms.slot value now).isExpired m₁.now = false := by
      unfold SetTerms.slot Slot.isExpired
      cases hs : terms.seconds with
      | none => rfl
      | some seconds =>
        have := hseconds seconds hs
        simp only [Option.map_some, h₁.now, decide_eq_false_iff_not]
        omega
    exact ⟨_, rfl, h₁.now, h₁.online, by rw [live?_insert _ _ _ hexp, h₁.live]⟩

/-- A number that is raised stays as long as it would have stayed. -/
theorem carryOut_incr (h : m.Shows now live) {n : Nat} (hn : n < Text.Decimal.max63)
    {deadline : Option Nat} (hslot : live key = some ⟨Text.Decimal.encode n, deadline⟩) :
    ∃ m', m.carryOut ⟨"INCR", [key]⟩ = (.ok (.integer (n + 1)), m') ∧
      m'.Shows now (Function.update live key (some ⟨Text.Decimal.encode (n + 1), deadline⟩)) := by
  obtain ⟨m₁, h₁, hrun⟩ := carryOut_online h ⟨"INCR", [key]⟩
  have hsettled := h₁.settle key
  have hexp :
      Slot.isExpired ⟨Text.Decimal.encode (n + 1), deadline⟩ (m₁.settle key).now = false := by
    have hlive : m₁.live? key = some ⟨Text.Decimal.encode n, deadline⟩ := by rw [h₁.live, hslot]
    have hfresh := (Option.filter_eq_some_iff.mp hlive).2
    rw [hsettled.now, ← h₁.now]
    simpa [Slot.isExpired] using hfresh
  have hincrement : m₁.increment key = (.integer (n + 1),
      (m₁.settle key).insert key ⟨Text.Decimal.encode (n + 1), deadline⟩) := by
    have hread := Text.Decimal.intOfBytes?_encode (n := n) (by omega)
    unfold increment
    rw [current?_eq, h₁.live, hslot]
    simp only [Option.elim_some, hread]
    rw [if_pos (by exact_mod_cast hn)]
    rfl
  rw [hrun, perform_incr, hincrement]
  exact ⟨_, rfl, hsettled.now, hsettled.online, by rw [live?_insert _ _ _ hexp, hsettled.live]⟩

/-- A number that is missing counts from zero, and what is counted then has no deadline. -/
theorem carryOut_incr_missing (h : m.Shows now live) (hslot : live key = none) :
    ∃ m', m.carryOut ⟨"INCR", [key]⟩ = (.ok (.integer 1), m') ∧
      m'.Shows now (Function.update live key (some ⟨Text.Decimal.encode 1, none⟩)) := by
  obtain ⟨m₁, h₁, hrun⟩ := carryOut_online h ⟨"INCR", [key]⟩
  have hsettled := h₁.settle key
  have hincrement : m₁.increment key =
      (.integer 1, (m₁.settle key).insert key ⟨Text.Decimal.encode 1, none⟩) := by
    unfold increment
    rw [current?_eq, h₁.live, hslot]
    rfl
  rw [hrun, perform_incr, hincrement]
  refine ⟨_, rfl, hsettled.now, hsettled.online, ?_⟩
  rw [live?_insert _ _ _ rfl, hsettled.live]

/-- Time that passes, the clock not wrapping, ends slots and starts none. -/
theorem live?_elapse (m : Volatile) (millis : Nat) (h : m.now + millis ≤ Text.Decimal.max64)
    (key : Bytes) :
    (m.elapse millis).now = m.now + millis ∧ (m.elapse millis).live? key =
      (m.live? key).filter fun e => !e.isExpired (m.now + millis) := by
  have hnow : (m.elapse millis).now = m.now + millis := Nat.mod_eq_of_lt (by omega)
  refine ⟨hnow, ?_⟩
  have hfind : (m.elapse millis).find? key = m.find? key := rfl
  have hlater : (fun e : Slot => !e.isExpired m.now && !e.isExpired (m.now + millis)) =
      fun e => !e.isExpired (m.now + millis) := by
    funext e
    unfold Slot.isExpired
    cases e.deadline with
    | none => rfl
    | some deadline =>
      simp only [← decide_not, ← Bool.decide_and, decide_eq_decide]
      omega
  unfold live?
  rw [hfind, hnow, Option.filter_filter, hlater]

end Depot.Volatile
