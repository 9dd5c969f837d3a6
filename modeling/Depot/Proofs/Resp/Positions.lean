import Depot.Proofs.Resp.Grammar

/-! # Reading replies at positions of a buffer

The reader hands on what is left of its buffer. Here it is as a reader that keeps the buffer and
hands on positions in it (`Cursor.value`). It takes slices between two positions, and a slice that
does not lie in the buffer is an outcome of its own, as is an array that lies too deep; it also
counts the items that an array sets out to read. At a position it finds what the reader finds in the
bytes there (`Follows`), and every reply takes three bytes of them. That bounds the depth, the
positions, and the items of an array, whatever count it announces (`value_within`). -/

namespace Depot.Resp

open Text.Ascii (cr lf crlf)

variable {α β : Type} {buffer text rest : Bytes} {pos start size : Nat}

/-- What is found from a position on. -/
inductive Finding (α : Type) where
  | value (a : α) (stop : Nat)
  | more
  | fault (e : Fault)
  /-- A slice was taken that does not lie in the buffer. -/
  | outside
  /-- Arrays lie deeper in one another than was provided for. -/
  | deep

/-- A finding, and how many items were set out to be read for it. The items of items are theirs. -/
structure Visit (α : Type) where
  finding : Finding α
  items : Nat := 0

def Cursor (α : Type) := Nat → Visit α

/-- What is behind the line of a reply, by its kind, for a reader of any sort. -/
def payloadBy {m : Type → Type} [Monad m] (fail : Fault → m Value) (number : m Int)
    (bulk : Int → m Value) (values : Nat → m (List Value)) (kind : UInt8) (text : Bytes) :
    m Value :=
  match Char.ofNat kind.toNat with
  | '+' => return .status (Text.Utf8.lossy text)
  | '-' => return .failure (Text.Utf8.lossy text)
  | ':' => return .integer (← number)
  | '$' => do bulk (← number)
  | '*' => do
    match ← number with
    | .negSucc _ => return .nil
    | .ofNat count => return .array (← values count)
  | _ => fail (.unknownKind kind)

theorem payload_eq (fuel : Nat) (kind : UInt8) (text : Bytes) :
    payload fuel kind text =
      payloadBy Scanner.fail (numberOf text) bulk (values fuel) kind text := rfl

/-- The bytes between two positions of a buffer. -/
def slice? (buffer : Bytes) (start stop : Nat) : Option Bytes :=
  if start ≤ stop ∧ stop ≤ buffer.length then some ((buffer.drop start).take (stop - start))
  else none

/-- Where the first line end is. -/
def lineEnd? (bytes : Bytes) : Option Nat := bytes.tails.findIdx? crlf.isPrefixOf

namespace Cursor

def bind (p : Cursor α) (q : α → Cursor β) : Cursor β := fun pos =>
  match (p pos).finding with
  | .value a stop => { q a stop with items := (p pos).items + (q a stop).items }
  | .more => ⟨.more, (p pos).items⟩
  | .fault e => ⟨.fault e, (p pos).items⟩
  | .outside => ⟨.outside, (p pos).items⟩
  | .deep => ⟨.deep, (p pos).items⟩

instance : Monad Cursor where
  pure a := fun pos => { finding := .value a pos }
  bind := bind

def fail (e : Fault) : Cursor α := fun _ => { finding := .fault e }

/-- What is read as an item counts as one, whatever it took. -/
def item (p : Cursor α) : Cursor α := fun pos => ⟨(p pos).finding, 1⟩

def byte (buffer : Bytes) : Cursor UInt8 := fun pos =>
  match buffer[pos]? with
  | some b => { finding := .value b (pos + 1) }
  | none => { finding := .more }

def textLine (buffer : Bytes) : Cursor Bytes := fun pos =>
  match slice? buffer pos buffer.length with
  | none => { finding := .more }
  | some behind =>
    match lineEnd? behind with
    | none => { finding := .more }
    | some length =>
      match slice? behind 0 length with
      | some text => { finding := .value text (pos + length + 2) }
      | none => { finding := .outside }

def numberOf (text : Bytes) : Cursor Int :=
  match Text.Decimal.intOfBytes? text with
  | some n => pure n
  | none => fail .notNumber

def bulkBody (buffer : Bytes) (length : Nat) : Cursor Bytes := fun pos =>
  if buffer.length < pos + length + 2 then { finding := .more }
  else
    match slice? buffer (pos + length) (pos + length + 2) with
    | none => { finding := .outside }
    | some mark =>
      if mark = crlf then
        match slice? buffer pos (pos + length) with
        | some bytes => { finding := .value bytes (pos + length + 2) }
        | none => { finding := .outside }
      else { finding := .fault .unterminated }

def bulk (buffer : Bytes) (length : Int) : Cursor Value :=
  match length with
  | .negSucc _ => pure .nil
  | .ofNat length => do
    if maxBulk < length then fail (.oversized length)
    return .bulk (← bulkBody buffer length)

/-- As many items as an array announces, one behind the other. -/
def values (p : Cursor Value) : Nat → Cursor (List Value)
  | 0 => pure []
  | count + 1 => do
    let v ← p.item
    let vs ← values p count
    return v :: vs

/-- What is behind the line of a reply, by its kind. -/
def payload (buffer : Bytes) (p : Cursor Value) (kind : UInt8) (text : Bytes) : Cursor Value :=
  payloadBy fail (numberOf text) (bulk buffer) (values p) kind text

/-- One reply, with arrays in it that lie up to so deep in one another. -/
def value (buffer : Bytes) : Nat → Cursor Value
  | 0 => fun _ => { finding := .deep }
  | depth + 1 => do
    let kind ← byte buffer
    let text ← textLine buffer
    payload buffer (value buffer depth) kind text

end Cursor

/-! ## Slices -/

theorem slice?_eq (buffer : Bytes) {stop : Nat} (h : start ≤ stop)
    (hstop : stop ≤ buffer.length) :
    slice? buffer start stop = some ((buffer.drop start).take (stop - start)) := if_pos ⟨h, hstop⟩

/-- A line is read up to its end. -/
theorem textLine_eq (b : Bytes) :
    textLine b = match lineEnd? b with
      | some length => .value (b.take length) (b.drop (length + 2))
      | none => .more := by
  induction b with
  | nil => rfl
  | cons c b ih =>
    have hend : crlf.isPrefixOf (c :: b) = true ↔ c = cr ∧ b.head? = some lf := by
      rw [List.isPrefixOf_iff_prefix]
      cases b with
      | nil => simp [crlf]
      | cons d b => simp [crlf, List.cons_prefix_cons, eq_comm]
    have hstep : lineEnd? (c :: b) =
        if crlf.isPrefixOf (c :: b) then some 0 else (lineEnd? b).map (· + 1) := by
      rw [lineEnd?, List.tails, List.findIdx?_cons]
      rfl
    rw [textLine, hstep, ih]
    by_cases h : c = cr ∧ b.head? = some lf
    · rw [if_pos h, if_pos (hend.mpr h)]
      cases b <;> rfl
    · rw [if_neg h, if_neg (mt hend.mp h)]
      cases lineEnd? b <;> rfl

theorem lineEnd?_le {b : Bytes} {length : Nat} (h : lineEnd? b = some length) :
    length + 2 ≤ b.length := by
  have hline := textLine_eq b
  rw [h] at hline
  obtain ⟨hb, -⟩ := textLine_value hline
  have hlength := congrArg List.length hb
  simp only [crlf, List.length_append, List.length_take, List.length_drop, List.length_cons,
    List.length_nil] at hlength
  omega

/-! ## Cursors that follow scanners -/

/-- At a position the same is found as in the bytes there, and it takes `size` bytes at least. -/
inductive Tells (buffer : Bytes) (pos size : Nat) : Finding α → Scan Fault α → Prop
  | value {a : α} {stop : Nat} : pos + size ≤ stop → stop ≤ buffer.length →
      Tells buffer pos size (.value a stop) (.value a (buffer.drop stop))
  | more : Tells buffer pos size .more .more
  | fault (e : Fault) : Tells buffer pos size (.fault e) (.fault e)

namespace Tells

variable {f : Finding α} {s s' : Scan Fault α} {pos' size' : Nat} {a : α}

theorem mono (h : Tells buffer pos size f s) (hle : pos' + size' ≤ pos + size) :
    Tells buffer pos' size' f s := by
  cases h with
  | value hstop hin => exact .value (hle.trans hstop) hin
  | more => exact .more
  | fault e => exact .fault e

/-- A finding tells of one outcome only. -/
theorem scan_unique (h : Tells buffer pos size f s) (h' : Tells buffer pos size f s') : s = s' := by
  cases h <;> cases h' <;> rfl

theorem of_value (h : Tells buffer pos size f (.value a rest)) :
    ∃ stop, f = .value a stop ∧ pos + size ≤ stop ∧ stop ≤ buffer.length ∧
      rest = buffer.drop stop := by
  cases h with
  | value hstop hin => exact ⟨_, rfl, hstop, hin, rfl⟩

end Tells

/-- From `start` on a cursor tells what a scanner does. -/
def Follows (buffer : Bytes) (start size : Nat) (p : Cursor α) (q : Scanner Fault α) : Prop :=
  ∀ pos, start ≤ pos → pos ≤ buffer.length →
    Tells buffer pos size (p pos).finding (q (buffer.drop pos))

namespace Cursor

theorem bind_of_value {p : Cursor α} {q : α → Cursor β} {a : α} {stop : Nat}
    (h : (p pos).finding = .value a stop) :
    (p >>= q) pos = { q a stop with items := (p pos).items + (q a stop).items } := by
  show bind p q pos = _
  rw [bind, h]

theorem bind_of_more {p : Cursor α} {q : α → Cursor β} (h : (p pos).finding = .more) :
    (p >>= q) pos = ⟨.more, (p pos).items⟩ := by
  show bind p q pos = _
  rw [bind, h]

theorem bind_of_fault {p : Cursor α} {q : α → Cursor β} {e : Fault}
    (h : (p pos).finding = .fault e) : (p >>= q) pos = ⟨.fault e, (p pos).items⟩ := by
  show bind p q pos = _
  rw [bind, h]

end Cursor

theorem Follows.pure (a : α) :
    Follows buffer start 0 (Pure.pure a) (Pure.pure a : Scanner Fault α) :=
  fun _ _ hpos => .value (Nat.le_refl _) hpos

theorem Follows.fail (e : Fault) :
    Follows buffer start size (Cursor.fail e : Cursor α) (Scanner.fail e) :=
  fun _ _ _ => .fault e

theorem Follows.bind {m n : Nat} {p : Cursor α} {p' : Scanner Fault α} {q : α → Cursor β}
    {q' : α → Scanner Fault β} (hp : Follows buffer start m p p')
    (hq : ∀ a, Follows buffer (start + m) n (q a) (q' a)) :
    Follows buffer start (m + n) (p >>= q) (p' >>= q') := by
  intro pos hstart hpos
  have hfirst := hp pos hstart hpos
  rw [Scanner.bind_apply]
  generalize hf : (p pos).finding = f at hfirst
  generalize p' (buffer.drop pos) = s at hfirst
  cases hfirst with
  | value hstop hin =>
    rw [Cursor.bind_of_value hf]
    exact (hq _ _ (by omega) hin).mono (by omega)
  | more =>
    rw [Cursor.bind_of_more hf]
    exact .more
  | fault e =>
    rw [Cursor.bind_of_fault hf]
    exact .fault e

theorem follows_byte : Follows buffer start 1 (Cursor.byte buffer) Scanner.byte := by
  intro pos _ hpos
  unfold Cursor.byte
  obtain hlt | rfl := Nat.lt_or_eq_of_le hpos
  · rw [List.getElem?_eq_getElem hlt, List.drop_eq_getElem_cons hlt]
    exact .value (Nat.le_refl _) hlt
  · rw [List.getElem?_eq_none (Nat.le_refl _), List.drop_length]
    exact .more

theorem follows_textLine : Follows buffer start 2 (Cursor.textLine buffer) textLine := by
  intro pos _ hpos
  unfold Cursor.textLine
  have hbehind : slice? buffer pos buffer.length = some (buffer.drop pos) := by
    rw [slice?_eq buffer hpos (Nat.le_refl _), ← List.length_drop, List.take_length]
  rw [textLine_eq, hbehind]
  simp only
  cases hend : lineEnd? (buffer.drop pos) with
  | none => exact .more
  | some length =>
    have hle := lineEnd?_le hend
    simp only [slice?_eq _ (Nat.zero_le length) (show length ≤ (buffer.drop pos).length by omega),
      Nat.sub_zero, List.drop_drop]
    rw [List.length_drop] at hle
    exact .value (by omega) (by omega)

theorem follows_numberOf (text : Bytes) :
    Follows buffer start 0 (Cursor.numberOf text) (numberOf text) := by
  unfold Cursor.numberOf numberOf
  cases Text.Decimal.intOfBytes? text with
  | some n => exact .pure n
  | none => exact .fail .notNumber

theorem follows_bulkBody (length : Nat) :
    Follows buffer start 0 (Cursor.bulkBody buffer length) (bulkBody length) := by
  intro pos _ hpos
  unfold Cursor.bulkBody bulkBody
  rw [List.drop_drop]
  by_cases hshort : buffer.length < pos + length + 2
  · have hfew : (buffer.drop (pos + length)).length < 2 := by rw [List.length_drop]; omega
    rw [if_pos hshort]
    match buffer.drop (pos + length), hfew with
    | [], _ => exact .more
    | [_], _ => exact .more
  · have hmark := slice?_eq buffer (Nat.le_add_right (pos + length) 2) (by omega)
    have hbytes := slice?_eq buffer (Nat.le_add_right pos length) (by omega)
    have hfirst : pos + length < buffer.length := by omega
    have hsecond : pos + length + 1 < buffer.length := by omega
    rw [if_neg hshort, hmark, hbytes, Nat.add_sub_cancel_left, Nat.add_sub_cancel_left,
      List.drop_eq_getElem_cons hfirst, List.drop_eq_getElem_cons hsecond]
    simp only [List.take_succ_cons, List.take_zero, crlf, List.cons.injEq, and_true]
    split
    · exact .value (by omega) (by omega)
    · exact .fault .unterminated

theorem follows_bulk (length : Int) :
    Follows buffer start 0 (Cursor.bulk buffer length) (bulk length) := by
  cases length with
  | negSucc n => exact .pure Value.nil
  | ofNat length =>
    have hbody : Follows buffer start 0
        (Cursor.bulkBody buffer length >>= fun bytes => pure (Value.bulk bytes))
        (bulkBody length >>= fun bytes => pure (Value.bulk bytes)) :=
      (follows_bulkBody length).bind fun bytes => .pure (Value.bulk bytes)
    have hfault : Follows buffer start 0 (Cursor.fail (.oversized length) : Cursor PUnit)
        (Scanner.fail (.oversized length)) := .fail _
    unfold Cursor.bulk bulk
    simp only
    split
    · exact hfault.bind fun _ => hbody
    · exact hbody

/-- The items of an array are read one after the other, with the fuel that is left for each. -/
theorem follows_values {p : Cursor Value}
    (hp : ∀ pos fuel, start ≤ pos → buffer.length ≤ pos + fuel →
      Follows buffer pos 3 p (value fuel)) (count : Nat) {fuel : Nat}
    (hfuel : buffer.length < start + fuel) :
    Follows buffer start 0 (Cursor.values p count) (values fuel count) := by
  induction count generalizing start fuel with
  | zero =>
    have hnone : values fuel 0 = pure [] := by cases fuel <;> rfl
    rw [hnone]
    exact .pure []
  | succ count ih =>
    cases fuel with
    | zero =>
      -- without fuel there is no position left to start from
      intro pos hstart hpos
      omega
    | succ fuel =>
      have hfirst : Follows buffer start 3 p.item (value fuel) :=
        hp start fuel (Nat.le_refl _) (by omega)
      have hlater : Follows buffer (start + 3) 0 (Cursor.values p count) (values fuel count) :=
        ih (fun pos fuel hpos => hp pos fuel (by omega)) (by omega)
      have hboth := hfirst.bind fun v => hlater.bind fun vs => .pure (v :: vs)
      rw [values_succ]
      exact fun pos hstart hpos => (hboth pos hstart hpos).mono (by omega)

theorem follows_payload {p : Cursor Value} {fuel : Nat}
    (hvalues : ∀ count, Follows buffer start 0 (Cursor.values p count) (values fuel count))
    (kind : UInt8) (text : Bytes) :
    Follows buffer start 0 (Cursor.payload buffer p kind text) (payload fuel kind text) := by
  rw [payload_eq]
  unfold Cursor.payload payloadBy
  split
  · exact .pure _
  · exact .pure _
  · exact (follows_numberOf text).bind fun n => .pure (Value.integer n)
  · exact (follows_numberOf text).bind follows_bulk
  · refine (follows_numberOf text).bind (n := 0) fun n => ?_
    cases n with
    | negSucc n => exact .pure Value.nil
    | ofNat count => exact (hvalues count).bind fun items => .pure (Value.array items)
  · exact .fail _

/-- With more depth than there are bytes the cursor follows the reader. -/
theorem follows_value {depth fuel : Nat} (hdepth : buffer.length < start + depth)
    (hfuel : buffer.length ≤ start + fuel) :
    Follows buffer start 3 (Cursor.value buffer depth) (value fuel) := by
  induction depth generalizing start fuel with
  | zero =>
    intro pos hstart hpos
    omega
  | succ depth ih =>
    cases fuel with
    | zero =>
      -- the end of the buffer is left, where both want a byte
      intro pos hstart hpos
      obtain rfl : pos = buffer.length := by omega
      have hend : (Cursor.byte buffer buffer.length).finding = .more := by
        rw [Cursor.byte, List.getElem?_eq_none (Nat.le_refl _)]
      rw [Cursor.value, Cursor.bind_of_more hend]
      exact .more
    | succ fuel =>
      have hvalues (count : Nat) : Follows buffer (start + 1 + 2) 0
          (Cursor.values (Cursor.value buffer depth) count) (values fuel count) :=
        follows_values (fun pos fuel hpos hfuel => ih (by omega) hfuel) count (by omega)
      rw [value_succ]
      exact follows_byte.bind fun kind =>
        follows_textLine.bind (n := 0) (follows_payload hvalues kind)

/-! ## Items -/

namespace Cursor

theorem items_bind (p : Cursor α) (q : α → Cursor β) (pos : Nat) :
    ((p >>= q) pos).items = (p pos).items + match (p pos).finding with
      | .value a stop => (q a stop).items
      | _ => 0 := by
  show (bind p q pos).items = _
  unfold bind
  cases (p pos).finding <;> rfl

theorem items_map (p : Cursor α) (f : α → β) (pos : Nat) :
    ((p >>= fun a => Pure.pure (f a) : Cursor β) pos).items = (p pos).items := by
  rw [items_bind]
  cases (p pos).finding <;> rfl

theorem items_byte (pos : Nat) : (byte buffer pos).items = 0 := by
  unfold byte
  split <;> rfl

theorem items_textLine (pos : Nat) : (textLine buffer pos).items = 0 := by
  unfold textLine
  split
  · rfl
  split
  · rfl
  split <;> rfl

theorem items_numberOf (text : Bytes) (pos : Nat) : (numberOf text pos).items = 0 := by
  unfold numberOf
  cases Text.Decimal.intOfBytes? text <;> rfl

variable {p : Cursor Value} {q : Scanner Fault Value}

/-- An array sets out to read an item for every three bytes, and one that may not be there. -/
theorem items_values (hp : Follows buffer start 3 p q) (count : Nat) (hstart : start ≤ pos)
    (hpos : pos ≤ buffer.length) :
    (values p count pos).items ≤ (buffer.length - pos) / 3 + 1 := by
  induction count generalizing pos with
  | zero => exact Nat.zero_le _
  | succ count ih =>
    have htells : Tells buffer pos 3 (p.item pos).finding (q (buffer.drop pos)) :=
      hp pos hstart hpos
    have hitem : (p.item pos).items = 1 := rfl
    rw [values, items_bind, hitem]
    generalize (p.item pos).finding = f at htells ⊢
    generalize q (buffer.drop pos) = s at htells
    cases htells with
    | value hstop hin =>
      -- three bytes are gone for the item, which pays for the one it counts
      have hlater := ih (hstart.trans (by omega)) hin
      simp only [items_map]
      omega
    | more => exact Nat.le_add_left 1 _
    | fault e => exact Nat.le_add_left 1 _

theorem items_array (hp : Follows buffer start 3 p q) (text : Bytes) (hstart : start ≤ pos)
    (hpos : pos ≤ buffer.length) :
    (payload buffer p 0x2A text pos).items ≤ (buffer.length - pos) / 3 + 1 := by
  have harray : payload buffer p 0x2A text = numberOf text >>= fun
      | .negSucc _ => Pure.pure .nil
      | .ofNat count => values p count >>= fun vs => Pure.pure (.array vs) := rfl
  rw [harray, items_bind, items_numberOf, Nat.zero_add, numberOf]
  cases Text.Decimal.intOfBytes? text with
  | none => exact Nat.zero_le _
  | some n =>
    cases n with
    | negSucc n => exact Nat.zero_le _
    | ofNat count =>
      have hitems := items_values hp count hstart hpos
      rw [← items_map (values p count) Value.array] at hitems
      exact hitems

/-- A bind that finds a value has found one in its first part, and counts the items of both. -/
theorem bind_value {p : Cursor α} {q : α → Cursor β} {b : β} {stop : Nat}
    (h : ((p >>= q) pos).finding = .value b stop) :
    ∃ a next, (p pos).finding = .value a next ∧ (q a next).finding = .value b stop ∧
      ((p >>= q) pos).items = (p pos).items + (q a next).items := by
  cases hf : (p pos).finding with
  | value a next =>
    rw [bind_of_value hf] at h ⊢
    exact ⟨a, next, rfl, h, rfl⟩
  | _ =>
    change (bind p q pos).finding = _ at h
    rw [bind, hf] at h
    cases h

theorem items_of_values {count stop : Nat} {vs : List Value}
    (h : (values p count pos).finding = .value vs stop) :
    (values p count pos).items = vs.length := by
  induction count generalizing pos vs with
  | zero =>
    cases h
    rfl
  | succ count ih =>
    rw [values] at h ⊢
    obtain ⟨v, next, -, hrest, hitems⟩ := bind_value h
    obtain ⟨vs', last, hvs, hpure, -⟩ := bind_value hrest
    cases hpure
    have hitem : (p.item pos).items = 1 := rfl
    rw [hitems, items_map, ih hvs, hitem, List.length_cons, Nat.add_comm]

theorem bulk_ne_array {n : Int} {vs : List Value} {stop : Nat} :
    (bulk buffer n pos).finding ≠ .value (.array vs) stop := by
  intro h
  cases n with
  | negSucc n => cases h
  | ofNat length =>
    unfold bulk at h
    simp only at h
    split at h
    · obtain ⟨_, _, hfail, -⟩ := bind_value h
      cases hfail
    · obtain ⟨bytes, next, -, hpure, -⟩ := bind_value h
      cases hpure

theorem items_of_payload {kind : UInt8} {vs : List Value} {stop : Nat}
    (h : (payload buffer p kind text pos).finding = .value (.array vs) stop) :
    (payload buffer p kind text pos).items = vs.length := by
  generalize hq : payload buffer p kind text = q at h ⊢
  unfold payload payloadBy at hq
  split at hq <;> subst hq
  · cases h
  · cases h
  · obtain ⟨n, next, -, hpure, -⟩ := bind_value h
    cases hpure
  · obtain ⟨n, next, -, hbulk, -⟩ := bind_value h
    exact absurd hbulk bulk_ne_array
  · obtain ⟨n, next, -, hrest, hitems⟩ := bind_value h
    rw [hitems, items_numberOf, Nat.zero_add]
    cases n with
    | negSucc n => cases hrest
    | ofNat count =>
      obtain ⟨vs', last, hvs, hpure, -⟩ := bind_value hrest
      cases hpure
      simp only [items_map]
      exact items_of_values hvs
  · cases h

/-- The items of an array that is read are counted. -/
theorem items_of_value {depth stop : Nat} {vs : List Value}
    (h : (value buffer depth pos).finding = .value (.array vs) stop) :
    (value buffer depth pos).items = vs.length := by
  cases depth with
  | zero => cases h
  | succ depth =>
    rw [value] at h ⊢
    obtain ⟨kind, behind, -, hline, hitems⟩ := bind_value h
    obtain ⟨text, next, -, hpayload, hitems'⟩ := bind_value hline
    rw [hitems, hitems', items_byte, items_textLine, Nat.zero_add, Nat.zero_add]
    exact items_of_payload hpayload

/-- Behind the line of a reply it is read by its kind. -/
theorem value_line {b : UInt8} (hstart : start ≤ buffer.length) (htext : IsLine text)
    (h : buffer.drop start = b :: (text ++ crlf ++ rest)) (depth : Nat) :
    ∃ next, start + 3 ≤ next ∧ next ≤ buffer.length ∧ rest = buffer.drop next ∧
      value buffer (depth + 1) start = payload buffer (value buffer depth) b text next := by
  have hfirst := follows_byte start (Nat.le_refl _) hstart
  rw [h] at hfirst
  obtain ⟨behind, hbyte, hbehind, hin, hdrop⟩ := Tells.of_value hfirst
  have hsecond := follows_textLine behind (Nat.le_refl _) hin
  rw [← hdrop, textLine_append htext] at hsecond
  obtain ⟨next, hline, hnext, hin', hrest⟩ := Tells.of_value hsecond
  refine ⟨next, by omega, hin', hrest, ?_⟩
  rw [value, bind_of_value hbyte, bind_of_value hline, items_byte, items_textLine, Nat.zero_add,
    Nat.zero_add]

end Cursor

/-! ## Readings within the buffer -/

/-- **Reading stays within the buffer and moves on.** Fuel for each byte behind a position is never
short, and neither is depth: from there no slice is taken that does not lie in the buffer, and what
is found is what the reader finds of the bytes there. A reply ends three bytes further on at least
and at the end of the buffer at most. So an array, whatever count it announces, sets out to read no
more items of its own than one for every three bytes behind its line, and one; if it is read, these
are its items. -/
theorem value_within (buffer : Bytes) (start : Nat) (hstart : start ≤ buffer.length) :
    (∀ fuel, buffer.length - start ≤ fuel →
      value fuel (buffer.drop start) = decode (buffer.drop start)) ∧
    ∀ depth, buffer.length - start < depth →
      let visit := Cursor.value buffer depth start
      Tells buffer start 3 visit.finding (decode (buffer.drop start)) ∧
      visit.finding ≠ .outside ∧ visit.finding ≠ .deep ∧
      (∀ v stop, visit.finding = .value v stop → start + 3 ≤ stop ∧ stop ≤ buffer.length) ∧
      (∀ text rest, IsLine text → buffer.drop start = line '*' text ++ rest →
        visit.items ≤ rest.length / 3 + 1) ∧
      ∀ vs stop, visit.finding = .value (.array vs) stop → visit.items = vs.length := by
  have htells {depth fuel : Nat} (hdepth : buffer.length - start < depth)
      (hfuel : buffer.length - start ≤ fuel) :
      Tells buffer start 3 (Cursor.value buffer depth start).finding
        (value fuel (buffer.drop start)) :=
    follows_value (by omega) (by omega) start (Nat.le_refl _) hstart
  have hdecode : buffer.length - start ≤ (buffer.drop start).length + 1 := by
    rw [List.length_drop]
    omega
  refine ⟨fun fuel hfuel => ?_, fun depth hdepth => ?_⟩
  · exact (htells (Nat.lt_succ_self _) hfuel).scan_unique (htells (Nat.lt_succ_self _) hdecode)
  · intro visit
    have hvisit : Tells buffer start 3 visit.finding (decode (buffer.drop start)) :=
      htells hdepth hdecode
    refine ⟨hvisit, fun hout => ?_, fun hdeep => ?_, fun v stop hvalue => ?_,
      fun text rest htext hline => ?_, fun _ _ => Cursor.items_of_value⟩
    · rw [hout] at hvisit
      cases hvisit
    · rw [hdeep] at hvisit
      cases hvisit
    · rw [hvalue] at hvisit
      generalize decode (buffer.drop start) = s at hvisit
      cases hvisit with
      | value hstop hin => exact ⟨hstop, hin⟩
    · obtain ⟨depth, rfl⟩ : ∃ n, depth = n + 1 := ⟨depth - 1, by omega⟩
      have hkind : Char.ofNat (0x2A : UInt8).toNat = '*' := rfl
      rw [← line_cons (by decide) hkind] at hline
      obtain ⟨next, hnext, hin, rfl, hvalue⟩ := Cursor.value_line hstart htext hline depth
      have hitems : Follows buffer next 3 (Cursor.value buffer depth) (value buffer.length) :=
        follows_value (by omega) (by omega)
      rw [List.length_drop]
      have hbound := Cursor.items_array hitems text (Nat.le_refl _) hin
      rwa [← hvalue] at hbound

/-- Behind another reply an array announces as many items as can be counted. Two are there: a third
one is looked for, and then more bytes are waited for. -/
theorem value_within_announced :
    let text := Text.Decimal.encode Text.Decimal.max63
    let items : Bytes := [0x3A, 0x31, 13, 10, 0x3A, 0x32, 13, 10]
    let buffer := line '+' [] ++ (line '*' text ++ items)
    3 ≤ buffer.length ∧ buffer.length - 3 < 40 ∧ IsLine text ∧
      (Cursor.value buffer 40 3).finding = .more ∧ decode (buffer.drop 3) = .more ∧
      (Cursor.value buffer 40 3).items = 3 ∧ (Cursor.value buffer 40 3).items ≤ 8 / 3 + 1 := by
  intro text items buffer
  have hstart : 3 ≤ buffer.length := by decide +kernel
  have hdepth : buffer.length - 3 < 40 := by decide +kernel
  have htext : IsLine text := isLine_of_not_mem (by decide +kernel)
  have hline : buffer.drop 3 = line '*' text ++ items := by decide +kernel
  have hthree : (Cursor.value buffer 40 3).items = 3 := by decide +kernel
  have hfinding : (Cursor.value buffer 40 3).finding = .more := rfl
  obtain ⟨htells, -, -, -, hitems, -⟩ := (value_within buffer 3 hstart).2 40 hdepth
  rw [hfinding] at htells
  exact ⟨hstart, hdepth, htext, hfinding, htells.scan_unique .more, hthree,
    hitems text items htext hline⟩

end Depot.Resp
