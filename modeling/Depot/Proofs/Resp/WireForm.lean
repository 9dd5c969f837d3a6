import Depot.Proofs.Resp.Reading

/-! # Wire forms of replies

The grammar of replies (`WireForm`): a line for each kind, behind it the bytes of a bulk string or
the wire forms of the items of an array. A reply is read off the front of a buffer that starts with
a wire form of it, and nothing else of the buffer is taken (`decode_wireForm`); before the last byte
of the wire form is there, nothing is read (`decode_cut`). -/

namespace Depot.Resp

open Text.Ascii (cr lf crlf)
open Text.Decimal (intOfBytes?)

inductive WireForm : Bytes → Value → Prop
  | status {text : Bytes} : IsLine text → WireForm (line '+' text) (.status (Text.Utf8.lossy text))
  | failure {text : Bytes} :
      IsLine text → WireForm (line '-' text) (.failure (Text.Utf8.lossy text))
  | integer {text : Bytes} {n : Int} :
      IsLine text → intOfBytes? text = some n → WireForm (line ':' text) (.integer n)
  | bulk {text bytes : Bytes} :
      IsLine text → intOfBytes? text = some (bytes.length : Int) → bytes.length ≤ maxBulk →
      WireForm (line '$' text ++ (bytes ++ crlf)) (.bulk bytes)
  | noBulk {text : Bytes} {n : Int} :
      IsLine text → intOfBytes? text = some n → n < 0 → WireForm (line '$' text) .nil
  | noArray {text : Bytes} {n : Int} :
      IsLine text → intOfBytes? text = some n → n < 0 → WireForm (line '*' text) .nil
  /-- An array has a wire form for each of its items. -/
  | array {text : Bytes} {forms : List (Bytes × Value)} :
      IsLine text → intOfBytes? text = some (forms.length : Int) →
      (∀ form ∈ forms, WireForm form.1 form.2) →
      WireForm (line '*' text ++ forms.flatMap Prod.fst) (.array (forms.map Prod.snd))

theorem length_line (kind : Char) (text : Bytes) : text.length + 2 ≤ (line kind text).length := by
  rw [line, List.length_append, List.length_append]
  simp [crlf]

/-- Behind its line a reply is read by its kind. -/
theorem value_line {kind : Char} {b : UInt8} (hkind : Text.Utf8.encode (String.ofList [kind]) = [b])
    {text : Bytes} (htext : IsLine text) {fuel : Nat} (hfuel : (line kind text).length ≤ fuel)
    (rest : Bytes) : value fuel (line kind text ++ rest) = payload (fuel - 1) b text rest := by
  have hlength := length_line kind text
  obtain ⟨fuel, rfl⟩ : ∃ n, fuel = n + 1 := ⟨fuel - 1, by omega⟩
  have hline : line kind text ++ rest = b :: (text ++ crlf ++ rest) := by
    rw [line, hkind]
    simp
  have hbyte : (Scanner.byte : Scanner Fault UInt8) (b :: (text ++ crlf ++ rest)) =
      .value b (text ++ crlf ++ rest) := rfl
  rw [value_succ, hline, Scanner.bind_apply, hbyte]
  simp only
  rw [Scanner.bind_apply, textLine_append htext, Nat.add_sub_cancel]

theorem numberOf_eq {text : Bytes} {n : Int} (h : intOfBytes? text = some n) :
    numberOf text = pure n := by
  unfold numberOf
  rw [h]

/-- The items of an array are read one after the other. -/
theorem values_forms {forms : List (Bytes × Value)} {fuel : Nat}
    (hitems : ∀ form ∈ forms, ∀ fuel rest, form.1.length ≤ fuel →
      value fuel (form.1 ++ rest) = .value form.2 rest)
    (hpos : ∀ form ∈ forms, 0 < form.1.length)
    (hfuel : (forms.flatMap Prod.fst).length < fuel) (rest : Bytes) :
    values fuel forms.length (forms.flatMap Prod.fst ++ rest) =
      .value (forms.map Prod.snd) rest := by
  induction forms generalizing fuel with
  | nil => cases fuel <;> rfl
  | cons form forms ih =>
    obtain ⟨fuel, rfl⟩ : ∃ n, fuel = n + 1 := ⟨fuel - 1, by omega⟩
    rw [List.flatMap_cons, List.length_append] at hfuel
    have hform := hpos form List.mem_cons_self
    have hitem := hitems form List.mem_cons_self fuel (forms.flatMap Prod.fst ++ rest) (by omega)
    have hroom : (forms.flatMap Prod.fst).length < fuel := by omega
    have hrest := ih (fun f hf => hitems f (List.mem_cons_of_mem _ hf))
      (fun f hf => hpos f (List.mem_cons_of_mem _ hf)) hroom
    rw [List.flatMap_cons, List.append_assoc, List.length_cons, values_succ, Scanner.bind_apply,
      hitem]
    simp only
    rw [Scanner.bind_apply, hrest]
    rfl

theorem WireForm.length_pos {w : Bytes} {v : Value} (h : WireForm w v) : 0 < w.length := by
  have hline := length_line
  cases h with
  | @status text => have := hline '+' text; omega
  | @failure text => have := hline '-' text; omega
  | @integer text => have := hline ':' text; omega
  | @bulk text bytes => have := hline '$' text; rw [List.length_append]; omega
  | @noBulk text => have := hline '$' text; omega
  | @noArray text => have := hline '*' text; omega
  | @array text forms => have := hline '*' text; rw [List.length_append]; omega

/-- An array is read by its count. -/
theorem payload_array {text : Bytes} {count : Nat} (h : intOfBytes? text = some (.ofNat count))
    (fuel : Nat) (rest : Bytes) :
    payload fuel 0x2A text rest =
      (values fuel count >>= fun items => pure (Value.array items) : Scanner Fault Value) rest := by
  unfold payload
  rw [numberOf_eq h]
  rfl

theorem bulk_append {bytes : Bytes} (h : bytes.length ≤ maxBulk) (rest : Bytes) :
    bulk bytes.length (bytes ++ crlf ++ rest) = .value (.bulk bytes) rest := by
  have hbulk : bulk bytes.length =
      (bulkBody bytes.length >>= fun bytes => pure (Value.bulk bytes)) := if_neg (Nat.not_lt.mpr h)
  rw [hbulk, Scanner.bind_apply, bulkBody_append]
  rfl

/-- With as much fuel as a wire form has bytes the reader gets through it. -/
theorem value_wireForm {w : Bytes} {v : Value} (h : WireForm w v) {fuel : Nat}
    (hfuel : w.length ≤ fuel) (rest : Bytes) : value fuel (w ++ rest) = .value v rest := by
  induction h generalizing fuel rest with
  | status htext => exact value_line (b := 0x2B) rfl htext hfuel rest
  | failure htext => exact value_line (b := 0x2D) rfl htext hfuel rest
  | @integer text n htext hn =>
    rw [value_line (b := 0x3A) rfl htext hfuel, payload, numberOf_eq hn]
    rfl
  | @bulk text bytes htext hn hmax =>
    rw [List.length_append] at hfuel
    rw [List.append_assoc, value_line (b := 0x24) rfl htext (by omega), payload, numberOf_eq hn]
    exact bulk_append hmax rest
  | @noBulk text n htext hn hneg =>
    obtain ⟨m, rfl⟩ := Int.eq_negSucc_of_lt_zero hneg
    rw [value_line (b := 0x24) rfl htext hfuel, payload, numberOf_eq hn]
    rfl
  | @noArray text n htext hn hneg =>
    obtain ⟨m, rfl⟩ := Int.eq_negSucc_of_lt_zero hneg
    rw [value_line (b := 0x2A) rfl htext hfuel, payload, numberOf_eq hn]
    rfl
  | @array text forms htext hn hforms ih =>
    have hlength := length_line '*' text
    rw [List.length_append] at hfuel
    have hroom : (forms.flatMap Prod.fst).length < fuel - 1 := by omega
    have hitems := values_forms (fun form hform fuel rest hfuel => ih form hform hfuel rest)
      (fun form hform => (hforms form hform).length_pos) hroom rest
    rw [List.append_assoc, value_line (b := 0x2A) rfl htext (by omega), payload_array hn,
      Scanner.bind_apply, hitems]
    rfl

/-- A reply is read off the front of what starts with a wire form of it, and just that is taken. -/
theorem decode_wireForm {w : Bytes} {v : Value} (h : WireForm w v) (rest : Bytes) :
    decode (w ++ rest) = .value v rest := by
  refine value_wireForm h ?_ rest
  rw [List.length_append]
  omega

/-- Of a wire form that has been cut off nothing is read. -/
theorem decode_cut {front back : Bytes} {v : Value} (h : WireForm (front ++ back) v)
    (hback : back ≠ []) : decode front = .more := by
  have hwhole := decode_wireForm h []
  rw [List.append_nil] at hwhole
  cases hfront : decode front with
  | more => rfl
  | value v' rest =>
    have hgrown := decode_append hfront back
    rw [hwhole, Scan.value.injEq] at hgrown
    exact absurd (List.append_eq_nil_iff.mp hgrown.2.symm).2 hback
  | fault e =>
    rw [decode_fault_append hfront back] at hwhole
    cases hwhole

end Depot.Resp
