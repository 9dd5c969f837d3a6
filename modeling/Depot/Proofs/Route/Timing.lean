import Mathlib.Algebra.Group.Action.Defs
import Mathlib.Algebra.GroupWithZero.Nat
import Mathlib.Algebra.Order.BigOperators.Group.List
import Mathlib.Algebra.Order.Group.Nat
import Mathlib.Data.List.Rotate
import Depot.Route.Timing

/-! # What a timing averages

A timing that was given durations keeps the last hundred of them: a duration lies in the slot that
its position names, until the one a hundred places behind it is written there (`Keeps`). Turned to
its oldest slot a full ring is those durations in order, so its average is theirs
(`average_windowed`). -/

namespace Depot.Route.Timing

/-- The timing that was given these durations. -/
def ofList (nanos : List Nat) : Timing := nanos.foldl (fun t nanos => t.push nanos) {}

theorem ofList_concat (nanos : List Nat) (last : Nat) :
    ofList (nanos ++ [last]) = (ofList nanos).push last := by
  rw [ofList, List.foldl_concat]
  rfl

/-- The durations a timing was given, told by what is left of them. -/
structure Keeps (t : Timing) (nanos : List Nat) : Prop where
  pushed : t.pushed.toNat = nanos.length
  /-- The last hundred lie where they were written. -/
  slots : ∀ i < nanos.length, nanos.length ≤ i + timingSlots →
    t.ring[i % timingSlots]? = nanos[i]?.map UInt64.ofNatClamp
  hasAverage : t.hasAverage = true ↔ timingSlots < nanos.length

theorem keeps_fresh : Keeps {} [] :=
  ⟨rfl, nofun, iff_of_false Bool.false_ne_true (Nat.not_lt_zero _)⟩

variable {t : Timing} {nanos : List Nat}

theorem Keeps.push (h : t.Keeps nanos) (hsize : nanos.length + 1 < 2 ^ 64) (last : Nat) :
    (t.push last).Keeps (nanos ++ [last]) := by
  have hpushed : (t.pushed + 1).toNat = nanos.length + 1 := by
    rw [UInt64.toNat_add, h.pushed, UInt64.toNat_one, Nat.mod_eq_of_lt hsize]
  have hnext : t.next.val = nanos.length % timingSlots := by rw [← h.pushed]; rfl
  have hsize' : (nanos ++ [last]).length = nanos.length + 1 := by simp
  refine ⟨?_, ?_, ?_⟩
  · rw [hsize']
    exact hpushed
  · intro i hi hrecent
    rw [hsize'] at hi hrecent
    have hring : (t.push last).ring[i % timingSlots]? =
        if t.next.val = i % timingSlots then some (UInt64.ofNatClamp last)
        else t.ring[i % timingSlots]? := Vector.getElem?_set t.next.isLt
    rw [hring, hnext]
    by_cases hlast : i = nanos.length
    · rw [hlast, if_pos rfl, List.getElem?_concat_length]
      rfl
    · -- fewer than a hundred places apart, so not in one slot
      have hslot : nanos.length % timingSlots ≠ i % timingSlots := by
        unfold timingSlots at hrecent ⊢
        omega
      rw [if_neg hslot, List.getElem?_append_left (by omega)]
      exact h.slots i (by omega) (by omega)
  · have hmore : (1 : UInt64) < t.pushed + 1 ↔ 1 < nanos.length + 1 := by
      rw [UInt64.lt_iff_toNat_lt, hpushed]
      rfl
    rw [hsize', Timing.push]
    simp only [Bool.or_eq_true, Bool.and_eq_true, decide_eq_true_eq, beq_iff_eq, h.hasAverage,
      hmore, hnext]
    unfold timingSlots
    omega

/-- Fewer than 2 ^ 64 durations are kept count of. -/
theorem keeps_ofList (h : nanos.length < 2 ^ 64) : (ofList nanos).Keeps nanos := by
  induction nanos using List.reverseRecOn with
  | nil => exact keeps_fresh
  | append_singleton nanos last ih =>
    rw [List.length_append, List.length_singleton] at h
    rw [ofList_concat]
    exact (ih (by omega)).push h last

/-- Turned to its oldest slot, a full ring is the last hundred durations in order. -/
theorem Keeps.rotate_ring (h : t.Keeps nanos) (hfull : timingSlots ≤ nanos.length) :
    t.ring.toList.rotate nanos.length =
      (nanos.drop (nanos.length - timingSlots)).map UInt64.ofNatClamp := by
  have hlength : t.ring.toList.length = timingSlots := Vector.length_toList
  apply List.ext_getElem?
  intro k
  by_cases hk : k < timingSlots
  · have hslot : (k + nanos.length) % timingSlots =
        (nanos.length - timingSlots + k) % timingSlots := by
      unfold timingSlots at hfull ⊢
      omega
    have hkept := h.slots (nanos.length - timingSlots + k) (by omega) (by omega)
    rw [List.getElem?_rotate (by rwa [hlength]), hlength, hslot, Vector.getElem?_toList, hkept,
      List.getElem?_map, List.getElem?_drop]
  · rw [List.getElem?_eq_none (by rw [List.length_rotate, hlength]; omega),
      List.getElem?_eq_none (by rw [List.length_map, List.length_drop]; omega)]

/-- Within 128 bits a sum of words is exact. -/
theorem toNat_foldl (words : List UInt64) (total : BitVec 128)
    (h : total.toNat + (words.map UInt64.toNat).sum < 2 ^ 128) :
    (words.foldl (fun total nanos => total + nanos.toBitVec.setWidth 128) total).toNat =
      total.toNat + (words.map UInt64.toNat).sum := by
  induction words generalizing total with
  | nil => rfl
  | cons word words ih =>
    rw [List.map_cons, List.sum_cons] at h ⊢
    have hword : (word.toBitVec.setWidth 128).toNat = word.toNat :=
      BitVec.toNat_setWidth_of_le (by decide)
    have hnext : (total + word.toBitVec.setWidth 128).toNat = total.toNat + word.toNat := by
      rw [BitVec.toNat_add, hword, Nat.mod_eq_of_lt (by omega)]
    rw [List.foldl_cons, ih _ (by omega), hnext]
    omega

theorem toNat_ofNatClamp (n : Nat) : (UInt64.ofNatClamp n).toNat = min n (2 ^ 64 - 1) := by
  unfold UInt64.ofNatClamp
  split
  · next hn =>
    have hle : n ≤ 2 ^ 64 - 1 := Nat.le_sub_one_of_lt hn
    rw [Nat.min_eq_left hle]
    exact UInt64.toNat_ofNatLT
  · next hn =>
    have hge : 2 ^ 64 - 1 ≤ n := (Nat.sub_le _ _).trans (Nat.le_of_not_lt hn)
    rw [Nat.min_eq_right hge]
    rfl

theorem sum_ring_le (t : Timing) :
    (t.ring.toList.map UInt64.toNat).sum ≤ timingSlots * (2 ^ 64 - 1) := by
  have hword : ∀ n ∈ t.ring.toList.map UInt64.toNat, n ≤ 2 ^ 64 - 1 := by
    intro n hn
    obtain ⟨word, -, rfl⟩ := List.mem_map.mp hn
    exact Nat.le_sub_one_of_lt word.toNat_lt
  have hsum := List.sum_le_card_nsmul _ _ hword
  rwa [List.length_map, Vector.length_toList, smul_eq_mul] at hsum

/-- A hundred words add up to less than 128 bits. -/
theorem toNat_total (t : Timing) : t.total.toNat = (t.ring.toList.map UInt64.toNat).sum := by
  have hfits : (t.ring.toList.map UInt64.toNat).sum < 2 ^ 128 :=
    (sum_ring_le t).trans_lt (by decide)
  have hsum := toNat_foldl t.ring.toList 0 (by simpa using hfits)
  rwa [show (0 : BitVec 128).toNat = 0 from rfl, Nat.zero_add] at hsum

theorem toNat_total_div (t : Timing) :
    (t.total / BitVec.ofNat 128 timingSlots).toNat =
      (t.ring.toList.map UInt64.toNat).sum / timingSlots := by
  rw [BitVec.toNat_udiv, toNat_total]
  rfl

/-- The hundredth part of a hundred words is a word. -/
theorem toNat_total_div_lt (t : Timing) :
    (t.total / BitVec.ofNat 128 timingSlots).toNat < 2 ^ 64 := by
  rw [toNat_total_div]
  exact Nat.div_lt_of_lt_mul ((sum_ring_le t).trans_lt (by decide))

theorem average?_eq (t : Timing) :
    t.average? =
      if t.hasAverage then some ((t.ring.toList.map UInt64.toNat).sum / timingSlots) else none := by
  have hfits : min (t.total / BitVec.ofNat 128 timingSlots).toNat (2 ^ 64 - 1) =
      (t.total / BitVec.ofNat 128 timingSlots).toNat :=
    Nat.min_eq_left (Nat.le_sub_one_of_lt (toNat_total_div_lt t))
  rw [average?, toNat_ofNatClamp, hfits, toNat_total_div]

/-- A full ring adds up to the last hundred durations. -/
theorem Keeps.sum_ring (h : t.Keeps nanos) (hfull : timingSlots ≤ nanos.length) :
    (t.ring.toList.map UInt64.toNat).sum =
      ((nanos.drop (nanos.length - timingSlots)).map fun n => min n (2 ^ 64 - 1)).sum := by
  have hturned := ((t.ring.toList.rotate_perm nanos.length).map UInt64.toNat).sum_eq
  rw [← hturned, h.rotate_ring hfull, List.map_map]
  simp only [Function.comp_def, toNat_ofNatClamp]

/-- **The average is that of the last hundred durations.** A timing that was given fewer than
2 ^ 64 durations has none up to the hundredth, and from then on the hundredth part, rounded down, of
what the last hundred add up to, each of at most 64 bits. Nothing overflows on the way: the
durations are counted, the ring is added up and its hundredth part is taken without loss. -/
theorem average_windowed (nanos : List Nat) (h : nanos.length < 2 ^ 64) :
    (ofList nanos).average? =
        (if nanos.length ≤ 100 then none
        else some
          (((nanos.drop (nanos.length - 100)).map fun n => min n (2 ^ 64 - 1)).sum / 100)) ∧
      (ofList nanos).pushed.toNat = nanos.length ∧
      (ofList nanos).total.toNat = ((ofList nanos).ring.toList.map UInt64.toNat).sum ∧
      ((ofList nanos).total / BitVec.ofNat 128 timingSlots).toNat < 2 ^ 64 := by
  have ht : (ofList nanos).Keeps nanos := keeps_ofList h
  refine ⟨?_, ht.pushed, toNat_total _, toNat_total_div_lt _⟩
  rw [average?_eq]
  by_cases hfew : nanos.length ≤ 100
  · rw [if_neg (mt ht.hasAverage.mp (Nat.not_lt_of_ge hfew)), if_pos hfew]
  · have hmany : timingSlots < nanos.length := Nat.lt_of_not_le hfew
    rw [if_pos (ht.hasAverage.mpr hmany), if_neg hfew, ht.sum_ring hmany.le]
    rfl

/-- The first hundred and one durations: the first of them is left out, and the longest counts as
no more than 64 bits. -/
theorem average_windowed_past_full :
    let nanos := 7 :: List.replicate 99 2 ++ [2 ^ 70]
    (ofList (nanos.take 100)).average? = none ∧
      (ofList nanos).average? = some ((99 * 2 + (2 ^ 64 - 1)) / 100) := by
  intro nanos
  have hlength : nanos.length = 101 := by decide +kernel
  have hfirst := (average_windowed (nanos.take 100) (by rw [List.length_take, hlength]; decide)).1
  have hlast := (average_windowed nanos (by rw [hlength]; decide)).1
  refine ⟨hfirst.trans (by decide +kernel), hlast.trans (by decide +kernel)⟩

end Depot.Route.Timing
