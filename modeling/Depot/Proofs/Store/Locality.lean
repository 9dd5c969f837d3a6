import Mathlib.Data.Set.Basic
import Depot.Proofs.Store.Dialogue
import Depot.Proofs.Store.Volatile

/-! # Commands look at the slot they name

What a command on one key answers and puts in its slot depends on that slot and the clock alone
(`Keyed`). So it comes out the same on two stores that agree on some keys (`Agree`) if its key is
one of them, and it changes no slot under any other key (`Frame`). The same holds of work with the
store all of whose commands stay within a set of keys (`Dialogue.Within`). Slots that have expired
count here as long as they are kept, so nothing is assumed of the clock. -/

namespace Depot

namespace Volatile

open Resp (Command Value)

variable {keys : Set Bytes} {key : Bytes} {slot slot' : Option Slot} {c : Command}
  {m m' m₁ m₂ m₁' m₂' : Volatile}

/-- Two stores with the same clock and net that keep the same slots under some keys. -/
structure Agree (keys : Set Bytes) (m₁ m₂ : Volatile) : Prop where
  now : m₁.now = m₂.now
  offline : m₁.offline = m₂.offline
  slots : ∀ key ∈ keys, m₁.find? key = m₂.find? key

/-- What changed from one store to the other are slots under some keys. -/
structure Frame (keys : Set Bytes) (m m' : Volatile) : Prop where
  now : m'.now = m.now
  offline : m'.offline = m.offline
  slots : ∀ key ∉ keys, m'.find? key = m.find? key

theorem Frame.refl (keys : Set Bytes) (m : Volatile) : Frame keys m m := ⟨rfl, rfl, fun _ _ => rfl⟩

theorem Frame.trans (h : Frame keys m m₁) (h₁ : Frame keys m₁ m') : Frame keys m m' :=
  ⟨h₁.now.trans h.now, h₁.offline.trans h.offline,
    fun key hkey => (h₁.slots key hkey).trans (h.slots key hkey)⟩

/-- Changes outside the keys leave stores in agreement. -/
theorem Agree.frame {keys' : Set Bytes} (h : Agree keys m₁ m₂) (h₁ : Frame keys' m₁ m₁')
    (hkeys : ∀ key ∈ keys, key ∉ keys') : Agree keys m₁' m₂ := by
  refine ⟨h₁.now.trans h.now, h₁.offline.trans h.offline, fun key hkey => ?_⟩
  rw [h₁.slots key (hkeys key hkey), h.slots key hkey]

/-- A slot outside the frame is live as before. -/
theorem Frame.live? (h : Frame keys m m') (hkey : key ∉ keys) : m'.live? key = m.live? key := by
  unfold Volatile.live?
  rw [h.slots key hkey, h.now]

/-! ## Changes to one slot -/

/-- All that changed from one store to the other is the slot under a key. -/
structure Puts (key : Bytes) (slot : Option Slot) (m m' : Volatile) : Prop where
  now : m'.now = m.now
  offline : m'.offline = m.offline
  find : ∀ key', m'.find? key' = if key' = key then slot else m.find? key'

theorem Puts.refl (key : Bytes) (m : Volatile) : Puts key (m.find? key) m m := by
  refine ⟨rfl, rfl, fun key' => ?_⟩
  split
  · next hkey => rw [hkey]
  · rfl

theorem Puts.trans (h : Puts key slot m m₁) (h₁ : Puts key slot' m₁ m') : Puts key slot' m m' := by
  refine ⟨h₁.now.trans h.now, h₁.offline.trans h.offline, fun key' => ?_⟩
  rw [h₁.find, h.find]
  split
  · rfl
  · rfl

theorem puts_remove (m : Volatile) (key : Bytes) : Puts key none m (m.remove key) :=
  ⟨rfl, rfl, find?_remove m key⟩

theorem puts_insert (m : Volatile) (key : Bytes) (e : Slot) :
    Puts key (some e) m (m.insert key e) :=
  ⟨rfl, rfl, fun key' => find?_insert m key key' e⟩

theorem puts_settle (m : Volatile) (key : Bytes) : Puts key (m.live? key) m (m.settle key) := by
  obtain ⟨hnow, hoffline, -⟩ := settle_spec m key
  refine ⟨hnow, hoffline, fun key' => ?_⟩
  by_cases hkey : key' = key
  · rw [if_pos hkey, hkey, ← current?_eq]
    rfl
  · rw [if_neg hkey]
    unfold settle
    split
    · split
      · rw [find?_remove, if_neg hkey]
      · rfl
    · rfl

theorem Puts.frame (h : Puts key slot m m') (hkey : key ∈ keys) : Frame keys m m' := by
  refine ⟨h.now, h.offline, fun key' hkey' => ?_⟩
  have hne : key' ≠ key := fun heq => hkey' (heq ▸ hkey)
  rw [h.find, if_neg hne]

/-- The same change made to stores that agree leaves them in agreement. -/
theorem Agree.puts (h : Agree keys m₁ m₂) (h₁ : Puts key slot m₁ m₁') (h₂ : Puts key slot m₂ m₂') :
    Agree keys m₁' m₂' := by
  refine ⟨h₁.now.trans (h.now.trans h₂.now.symm),
    h₁.offline.trans (h.offline.trans h₂.offline.symm), fun key' hkey' => ?_⟩
  rw [h₁.find, h₂.find, h.slots key' hkey']

/-! ## Commands on one key -/

/-- The slot, unless it has expired. -/
def liveAt (now : Nat) (slot : Option Slot) : Option Slot := slot.filter fun e => !e.isExpired now

/-- What a command answers and puts under its key is decided by the clock and what is there. -/
def Keyed (key : Bytes) (c : Command) : Prop :=
  ∃ effect : Nat → Option Slot → Value × Option Slot, ∀ m : Volatile,
    (m.perform c).1 = (effect m.now (m.find? key)).1 ∧
      Puts key (effect m.now (m.find? key)).2 m (m.perform c).2

theorem keyed_get (key : Bytes) : Keyed key ⟨"GET", [key]⟩ := by
  refine ⟨fun now slot => ((liveAt now slot).elim .nil fun e => .bulk e.value, liveAt now slot),
    fun m => ?_⟩
  rw [perform_get, current?_eq]
  exact ⟨rfl, puts_settle m key⟩

theorem keyed_del (key : Bytes) : Keyed key ⟨"DEL", [key]⟩ := by
  refine ⟨fun now slot => (.integer (if (liveAt now slot).isSome then 1 else 0 : Nat), none),
    fun m => ?_⟩
  rw [perform_del, current?_eq]
  exact ⟨rfl, (puts_settle m key).trans (puts_remove _ key)⟩

theorem keyed_set (key value : Bytes) (options : List Bytes) :
    Keyed key ⟨"SET", key :: value :: options⟩ := by
  cases hterms : readTerms {} options with
  | error text =>
    refine ⟨fun _ slot => (.failure text, slot), fun m => ?_⟩
    have hname : "SET".map Char.toUpper = "SET" := by decide +kernel
    unfold perform
    simp only [hname, hterms]
    exact ⟨trivial, .refl key m⟩
  | ok terms =>
    refine ⟨fun now slot =>
      if terms.onlyNew && (liveAt now slot).isSome then (.nil, liveAt now slot)
      else (.status "OK", some (terms.slot value now)), fun m => ?_⟩
    have hlive : m.live? key = liveAt m.now (m.find? key) := rfl
    beta_reduce
    rw [perform_set m key value hterms, set, current?_eq, ← hlive]
    split
    · exact ⟨rfl, puts_settle m key⟩
    · exact ⟨rfl, puts_insert m key _⟩

/-- What is counted under a key: the number a slot spells, or zero where there is none. -/
def countedIn (slot : Option Slot) : Option Int :=
  slot.elim (some 0) fun e => Text.Decimal.intOfBytes? e.value

/-- What raising the number in a slot answers and leaves there. -/
def raised (slot : Option Slot) : Value × Option Slot :=
  match countedIn slot with
  | none => (.failure notInteger, slot)
  | some n =>
    if n < Text.Decimal.max63 then
      (.integer (n + 1), some ⟨Text.Utf8.encode (toString (n + 1)), slot.bind Slot.deadline⟩)
    else (.failure wouldOverflow, slot)

theorem keyed_incr (key : Bytes) : Keyed key ⟨"INCR", [key]⟩ := by
  refine ⟨fun now slot => raised (liveAt now slot), fun m => ?_⟩
  have hlive : m.live? key = liveAt m.now (m.find? key) := rfl
  have hcount : (m.live? key).elim (some 0) (fun e => Text.Decimal.intOfBytes? e.value) =
      countedIn (m.live? key) := rfl
  beta_reduce
  rw [perform_incr, increment, current?_eq, hcount, ← hlive, raised]
  cases countedIn (m.live? key) with
  | none => exact ⟨rfl, puts_settle m key⟩
  | some n =>
    simp only
    split
    · exact ⟨rfl, (puts_settle m key).trans (puts_insert _ key _)⟩
    · exact ⟨rfl, puts_settle m key⟩

/-- A command on one of some keys is answered alike by stores that agree on these, and the stores
agree on them afterwards. -/
theorem Keyed.carryOut (h : Keyed key c) (hkey : key ∈ keys) (hm : Agree keys m₁ m₂) :
    ∃ answer m₁' m₂', m₁.carryOut c = (answer, m₁') ∧ m₂.carryOut c = (answer, m₂') ∧
      Agree keys m₁' m₂' ∧ Frame keys m₁ m₁' ∧ Frame keys m₂ m₂' := by
  obtain ⟨effect, heffect⟩ := h
  cases hoffline : m₁.offline with
  | true =>
    have hoffline₂ : m₂.offline = true := hm.offline.symm.trans hoffline
    exact ⟨_, m₁, m₂, carryOut_offline hoffline c, carryOut_offline hoffline₂ c, hm,
      .refl keys m₁, .refl keys m₂⟩
  | false =>
    have hrun (m : Volatile) (hon : m.offline = false) :
        ∃ m', m.carryOut c = (.ok (effect m.now (m.find? key)).1, m') ∧
          Puts key (effect m.now (m.find? key)).2 m m' := by
      obtain ⟨hanswer, hputs⟩ := heffect { m with history := m.history ++ [c] }
      refine ⟨_, ?_, hputs.now, hputs.offline, hputs.find⟩
      unfold Volatile.carryOut
      rw [if_neg (by simp [hon])]
      exact congrArg (fun value => (Except.ok value, _)) hanswer
    obtain ⟨m₁', hrun₁, hputs₁⟩ := hrun m₁ hoffline
    obtain ⟨m₂', hrun₂, hputs₂⟩ := hrun m₂ (hm.offline.symm.trans hoffline)
    rw [← hm.now, ← hm.slots key hkey] at hrun₂ hputs₂
    exact ⟨_, m₁', m₂', hrun₁, hrun₂, hm.puts hputs₁ hputs₂, hputs₁.frame hkey, hputs₂.frame hkey⟩

end Volatile

namespace Dialogue

open Volatile (Agree Frame Keyed)

variable {α β : Type} {keys : Set Bytes}

/-- Work that stays within some keys: it comes to the same on stores that agree on these, and
changes nothing else. -/
def Within (keys : Set Bytes) (x : Dialogue α) : Prop :=
  ∀ m₁ m₂ : Volatile, Agree keys m₁ m₂ → ∃ a m₁' m₂', x.Reaches m₁ a m₁' ∧ x.Reaches m₂ a m₂' ∧
    Agree keys m₁' m₂' ∧ Frame keys m₁ m₁' ∧ Frame keys m₂ m₂'

theorem within_pure (keys : Set Bytes) (a : α) : Within keys (pure a : Dialogue α) :=
  fun m₁ m₂ hm => ⟨a, m₁, m₂, reaches_pure a m₁, reaches_pure a m₂, hm, .refl keys m₁,
    .refl keys m₂⟩

theorem Within.bind {x : Dialogue β} {k : β → Dialogue α} (hx : Within keys x)
    (hk : ∀ b, Within keys (k b)) : Within keys (x >>= k) := by
  intro m₁ m₂ hm
  obtain ⟨b, n₁, n₂, hx₁, hx₂, hn, hframe₁, hframe₂⟩ := hx m₁ m₂ hm
  obtain ⟨a, m₁', m₂', hk₁, hk₂, hm', hframe₁', hframe₂'⟩ := hk b n₁ n₂ hn
  exact ⟨a, m₁', m₂', hx₁.bind hk₁, hx₂.bind hk₂, hm', hframe₁.trans hframe₁',
    hframe₂.trans hframe₂'⟩

theorem within_report {k : Unit → Dialogue α} (event : Event) (hk : Within keys (k ())) :
    Within keys (report event >>= k) := by
  intro m₁ m₂ hm
  obtain ⟨a, m₁', m₂', hk₁, hk₂, hrest⟩ := hk m₁ m₂ hm
  exact ⟨a, m₁', m₂', reaches_report event hk₁, reaches_report event hk₂, hrest⟩

theorem within_send {k : Answer → Dialogue α} {key : Bytes} {c : Resp.Command} (hc : Keyed key c)
    (hkey : key ∈ keys) (hk : ∀ answer, Within keys (k answer)) :
    Within keys (send c >>= k) := by
  intro m₁ m₂ hm
  obtain ⟨answer, n₁, n₂, hc₁, hc₂, hn, hframe₁, hframe₂⟩ := hc.carryOut hkey hm
  obtain ⟨a, m₁', m₂', hk₁, hk₂, hm', hframe₁', hframe₂'⟩ := hk answer n₁ n₂ hn
  exact ⟨a, m₁', m₂', reaches_send hc₁ hk₁, reaches_send hc₂ hk₂, hm', hframe₁.trans hframe₁',
    hframe₂.trans hframe₂'⟩

end Dialogue

end Depot
