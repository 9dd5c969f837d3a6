import Depot.Proofs.Resp.Grammar

/-! # Reading replies off a stream of chunks

However a stream is cut into chunks, the reader gives the same replies up to the same fault
(`feed_recut`): its readings of single buffers are put together to the one way in which the stream
falls into wire forms (`Delivers`) and stops at what is none (`Halts`). -/

namespace Depot.Resp

variable {b b' rest rest' : Bytes} {vs vs' : List Value} {fault fault' : Option Fault}

/-! ## Streams of wire forms -/

/-- The buffer is wire forms of the values, one behind the other, and then the rest. -/
inductive Delivers : Bytes → List Value → Bytes → Prop
  | nothing {b : Bytes} : Delivers b [] b
  | next {w b rest : Bytes} {v : Value} {vs : List Value} :
      WireForm w v → Delivers b vs rest → Delivers (w ++ b) (v :: vs) rest

/-- No reply is read off the buffer, for a fault or for want of bytes. -/
def Halts (b : Bytes) (fault : Option Fault) : Prop := decode b = fault.elim .more .fault

theorem halts_nil : Halts [] none := rfl

theorem Halts.ne_value {v : Value} (h : Halts b fault) : decode b ≠ .value v rest := by
  rw [h]
  cases fault <;> nofun

theorem Halts.fault_unique (h : Halts b fault) (h' : Halts b fault') : fault = fault' := by
  have heq := h.symm.trans h'
  cases fault <;> cases fault' <;> cases heq <;> rfl

/-- A fault is there to stay. -/
theorem Halts.append {e : Fault} (h : Halts b (some e)) (t : Bytes) : Halts (b ++ t) (some e) :=
  decode_fault_append h t

theorem Delivers.append (h : Delivers b vs rest) (t : Bytes) :
    Delivers (b ++ t) vs (rest ++ t) := by
  induction h with
  | nothing => exact .nothing
  | next hw _ ih => rw [List.append_assoc]; exact .next hw ih

theorem Delivers.trans (h : Delivers b vs rest) (h' : Delivers rest vs' rest') :
    Delivers b (vs ++ vs') rest' := by
  induction h with
  | nothing => exact h'
  | next hw _ ih => exact .next hw (ih h')

/-- There is one way to read a buffer until nothing more is read. -/
theorem Delivers.unique (h : Delivers b vs rest) (hstop : Halts rest fault)
    (h' : Delivers b vs' rest') (hstop' : Halts rest' fault') : vs = vs' ∧ rest = rest' := by
  induction h generalizing vs' with
  | nothing =>
    cases h' with
    | nothing => exact ⟨rfl, rfl⟩
    | next hw _ => exact absurd (decode_wireForm hw _) hstop.ne_value
  | @next w b rest v vs hw hvs ih =>
    generalize hb : w ++ b = whole at h'
    cases h' with
    | nothing => exact absurd (hb ▸ decode_wireForm hw b) hstop'.ne_value
    | next hw' hvs' =>
      obtain ⟨rfl, rfl⟩ := hw.prefix_free hw' hb
      obtain rfl := List.append_cancel_left hb
      obtain ⟨rfl, rfl⟩ := ih hstop hvs'
      exact ⟨rfl, rfl⟩

/-! ## Readings -/

/-- A reading takes the wire forms that are there, and stops where there is none. -/
theorem drain_delivers {rounds : Nat} (h : b.length ≤ rounds) :
    Delivers b (drain rounds b).values (drain rounds b).rest ∧
      Halts (drain rounds b).rest (drain rounds b).fault := by
  induction rounds generalizing b with
  | zero =>
    obtain rfl := List.length_eq_zero_iff.mp (Nat.le_zero.mp h)
    exact ⟨.nothing, halts_nil⟩
  | succ rounds ih =>
    cases hread : decode b with
    | more =>
      simp only [drain, hread]
      exact ⟨.nothing, hread⟩
    | fault e =>
      simp only [drain, hread]
      exact ⟨.nothing, hread⟩
    | value v rest =>
      obtain ⟨w, hw, rfl⟩ := decode_eq_value.mp hread
      -- a wire form has a byte, so a round fewer is enough for what is behind it
      have hpos := hw.length_pos
      rw [List.length_append] at h
      obtain ⟨hvs, hstop⟩ := ih (b := rest) (by omega)
      simp only [drain, hread]
      exact ⟨.next hw hvs, hstop⟩

theorem read_delivers (buffer chunk : Bytes) :
    Delivers (buffer ++ chunk) (read buffer chunk).values (read buffer chunk).rest ∧
      Halts (read buffer chunk).rest (read buffer chunk).fault :=
  drain_delivers (Nat.le_refl _)

/-- Where no reply is read, nothing is taken. -/
theorem read_halts {buffer chunk : Bytes} (h : Halts (buffer ++ chunk) fault) :
    read buffer chunk = ⟨[], buffer ++ chunk, fault⟩ := by
  obtain ⟨hvs, hstop⟩ := read_delivers buffer chunk
  obtain ⟨hvalues, hrest⟩ := Delivers.nothing.unique h hvs hstop
  rw [← hrest] at hstop
  rw [hvalues, hrest, h.fault_unique hstop]

/-! ## Runs over chunks -/

/-- A reading with the values of those before it. -/
def Decoded.after (d : Decoded) (values : List Value) : Decoded :=
  { d with values := values ++ d.values }

/-- A reading with those that follow it, as one: all values, and where the last one stands. -/
def Decoded.through (d : Decoded) : List Decoded → Decoded
  | [] => d
  | next :: later => (next.through later).after d.values

/-- A run over chunks as one reading. -/
def feed (buffer : Bytes) (chunks : List Bytes) : Decoded :=
  Decoded.through ⟨[], buffer, none⟩ (readAll buffer chunks)

theorem feed_nil (buffer : Bytes) : feed buffer [] = ⟨[], buffer, none⟩ := rfl

theorem feed_cons (buffer chunk : Bytes) (chunks : List Bytes) :
    feed buffer (chunk :: chunks) =
      if (read buffer chunk).fault.isSome then read buffer chunk
      else (feed (read buffer chunk).rest chunks).after (read buffer chunk).values := by
  unfold feed
  rw [readAll, Decoded.through]
  by_cases hfault : (read buffer chunk).fault.isSome = true
  · simp only [if_pos hfault, Decoded.through]
    rfl
  · have hnone : (read buffer chunk).fault = none := by simpa using hfault
    simp only [if_neg hfault]
    cases readAll (read buffer chunk).rest chunks with
    | nil => simp only [Decoded.through, Decoded.after, List.append_nil, ← hnone, List.nil_append]
    | cons next later => simp only [Decoded.through, Decoded.after, List.nil_append]

/-- A run reads what can be read of all its bytes, up to a fault. What it leaves of them is what it
has buffered, and behind that what a fault kept it from looking at. -/
theorem feed_delivers (chunks : List Bytes) (h : Halts b none) :
    ∃ unseen, Delivers (b ++ chunks.flatten) (feed b chunks).values
        ((feed b chunks).rest ++ unseen) ∧
      Halts ((feed b chunks).rest ++ unseen) (feed b chunks).fault ∧
      ((feed b chunks).fault = none → unseen = []) := by
  induction chunks generalizing b with
  | nil =>
    refine ⟨[], ?_, ?_, fun _ => rfl⟩
    · rw [feed_nil]
      exact .nothing
    · rw [feed_nil, List.append_nil]
      exact h
  | cons chunk chunks ih =>
    obtain ⟨hvs, hstop⟩ := read_delivers b chunk
    rw [List.flatten_cons, ← List.append_assoc, feed_cons]
    cases hfault : (read b chunk).fault with
    | some e =>
      rw [hfault] at hstop
      rw [if_pos (by simp), hfault]
      exact ⟨chunks.flatten, hvs.append _, hstop.append _, nofun⟩
    | none =>
      rw [hfault] at hstop
      obtain ⟨unseen, hlater, hlast, hall⟩ := ih hstop
      rw [if_neg (by simp)]
      exact ⟨unseen, (hvs.append _).trans hlater, hlast, hall⟩

/-- A run gives what its bytes are known to fall into. -/
theorem feed_eq {chunks : List Bytes} (h : Delivers chunks.flatten vs rest)
    (hstop : Halts rest fault) :
    (feed [] chunks).values = vs ∧ (feed [] chunks).fault = fault ∧
      (fault = none → (feed [] chunks).rest = rest) := by
  obtain ⟨unseen, hvs, hlast, hall⟩ := feed_delivers chunks halts_nil
  rw [List.nil_append] at hvs
  obtain ⟨hvalues, hrest⟩ := hvs.unique hlast h hstop
  rw [hrest] at hlast
  have hfault := hlast.fault_unique hstop
  refine ⟨hvalues, hfault, fun hnone => ?_⟩
  rw [hall (hfault.trans hnone), List.append_nil] at hrest
  exact hrest

/-- **How a stream of replies is cut does not matter.** Two runs over the same bytes give the same
replies and the same fault, and where there is none the same bytes stay buffered. Each reading
takes the wire forms of the replies it gives, and leaves what lies behind them as it is: all of the
buffer, if it starts with none. -/
theorem feed_recut (xs ys : List Bytes) (h : xs.flatten = ys.flatten) :
    (feed [] xs).values = (feed [] ys).values ∧ (feed [] xs).fault = (feed [] ys).fault ∧
      ((feed [] xs).fault = none → (feed [] xs).rest = (feed [] ys).rest) ∧
      ∀ buffer chunk,
        Delivers (buffer ++ chunk) (read buffer chunk).values (read buffer chunk).rest ∧
        Halts (read buffer chunk).rest (read buffer chunk).fault ∧
        ∀ fault, Halts (buffer ++ chunk) fault →
          read buffer chunk = ⟨[], buffer ++ chunk, fault⟩ := by
  obtain ⟨unseen, hys, hlast, hall⟩ := feed_delivers ys halts_nil
  rw [List.nil_append, ← h] at hys
  obtain ⟨hvalues, hfault, hrest⟩ := feed_eq hys hlast
  refine ⟨hvalues, hfault, fun hnone => ?_, fun buffer chunk => ?_⟩
  · have hnone' := hfault.symm.trans hnone
    rw [hrest hnone', hall hnone', List.append_nil]
  · obtain ⟨hvs, hstop⟩ := read_delivers buffer chunk
    exact ⟨hvs, hstop, fun _ => read_halts⟩

/-- An array in an array, cut inside the inner one and inside a line end, with a fault behind it. -/
theorem feed_recut_nested :
    let xs : List Bytes :=
      [[0x2A, 0x31, 13, 10, 0x2A, 0x31, 13], [10, 0x24, 0x30], [13, 10, 13, 10, 0x3F, 13], [10]]
    let ys : List Bytes := [[0x2A, 0x31, 13, 10, 0x2A, 0x31, 13, 10, 0x24, 0x30, 13, 10, 13, 10,
      0x3F, 13, 10]]
    xs.flatten = ys.flatten ∧ (feed [] ys).values = [.array [.array [.bulk []]]] ∧
      (feed [] xs).values = (feed [] ys).values ∧ (feed [] xs).fault = (feed [] ys).fault := by
  intro xs ys
  have h : xs.flatten = ys.flatten := rfl
  exact ⟨h, rfl, (feed_recut xs ys h).1, (feed_recut xs ys h).2.1⟩

end Depot.Resp
