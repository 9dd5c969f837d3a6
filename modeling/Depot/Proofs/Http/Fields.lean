import Mathlib.Data.List.Induction
import Depot.Http.Head
import Depot.Proofs.Text.Decimal
import Depot.Proofs.Text.Utf8

/-! # Field lines and the fields they make

The lines of a head are put together by name: each name stands once, where its first line stood,
with the values of all its lines in the order of the lines (`collect_eq_grouped`). From there the
length of the body is the number that the first `content-length` spells. -/

namespace Depot.Http

namespace Fields

/-- A field name as text, in lower case. -/
def nameOf (name : Bytes) : String := Text.Utf8.lossy (name.map Text.Ascii.toLower)

/-- The values of the lines of one name, in the order of the lines. -/
def valuesOf (lines : List (Bytes × Bytes)) (name : String) : List Bytes :=
  (lines.filter fun line => nameOf line.1 = name).map Prod.snd

/-- The names of the lines, each where it first came. -/
def namesOf (lines : List (Bytes × Bytes)) : List String :=
  (lines.map fun line => nameOf line.1).eraseDups

/-- The lines put together by name. -/
def grouped (lines : List (Bytes × Bytes)) : Fields :=
  (namesOf lines).map fun name => ⟨name, valuesOf lines name⟩

theorem mem_namesOf {lines : List (Bytes × Bytes)} {name : String} :
    name ∈ namesOf lines ↔ ∃ line ∈ lines, nameOf line.1 = name := by
  simp [namesOf, List.mem_eraseDups]

/-- A name without a line has no value. -/
theorem valuesOf_eq_nil {lines : List (Bytes × Bytes)} {name : String} (h : name ∉ namesOf lines) :
    valuesOf lines name = [] := by
  rw [mem_namesOf] at h
  simp only [valuesOf, List.map_eq_nil_iff, List.filter_eq_nil_iff, decide_eq_true_eq]
  exact fun line hline he => h ⟨line, hline, he⟩

theorem valuesOf_append (lines : List (Bytes × Bytes)) (line : Bytes × Bytes) (name : String) :
    valuesOf (lines ++ [line]) name =
      valuesOf lines name ++ if nameOf line.1 = name then [line.2] else [] := by
  unfold valuesOf
  rw [List.filter_append, List.map_append]
  split
  · next h => simp [h]
  · next h => simp [h]

theorem namesOf_append (lines : List (Bytes × Bytes)) (line : Bytes × Bytes) :
    namesOf (lines ++ [line]) =
      if nameOf line.1 ∈ namesOf lines then namesOf lines
      else namesOf lines ++ [nameOf line.1] := by
  have hmem : nameOf line.1 ∈ namesOf lines ↔ nameOf line.1 ∈ lines.map fun l => nameOf l.1 := by
    rw [namesOf, List.mem_eraseDups]
  unfold namesOf at hmem ⊢
  rw [List.map_append, List.eraseDups_append]
  split
  · next h => simp [List.removeAll, hmem.mp h]
  · next h => simp [List.removeAll, mt hmem.mpr h, List.eraseDups_cons]

theorem nodup_eraseDups (names : List String) : names.eraseDups.Nodup := by
  induction hn : names.length using Nat.strongRecOn generalizing names with
  | _ n ih =>
    cases names with
    | nil => exact List.nodup_nil
    | cons name names =>
      have hle := List.length_filter_le (fun b => !b == name) names
      rw [List.eraseDups_cons, List.nodup_cons]
      refine ⟨fun hmem => ?_, ih _ (by rw [← hn, List.length_cons]; omega) _ rfl⟩
      simpa using (List.mem_filter.mp (List.mem_eraseDups.mp hmem)).2

theorem nodup_namesOf (lines : List (Bytes × Bytes)) : (namesOf lines).Nodup := nodup_eraseDups _

/-- Adding a value where the fields are the given names with the given values. -/
theorem append_map {names : List String} (hnd : names.Nodup) (values : String → List Bytes)
    (name : String) (value : Bytes) :
    append name value (names.map fun n => ⟨n, values n⟩) =
      if name ∈ names then
        names.map fun n => ⟨n, values n ++ if name = n then [value] else []⟩
      else names.map (fun n => ⟨n, values n⟩) ++ [⟨name, [value]⟩] := by
  induction names with
  | nil => rfl
  | cons n names ih =>
    rw [List.nodup_cons] at hnd
    rw [List.map_cons, append]
    by_cases hn : n = name
    · subst hn
      have hothers : names.map (fun m => (⟨m, values m ++ if n = m then [value] else []⟩ : Field)) =
          names.map fun m => ⟨m, values m⟩ := by
        refine List.map_congr_left fun m hm => ?_
        have hne : n ≠ m := fun he => hnd.1 (he ▸ hm)
        rw [if_neg hne, List.append_nil]
      simp [hothers]
    · rw [if_neg hn, ih hnd.2]
      have hn' : ¬name = n := fun he => hn he.symm
      split
      · next hmem => simp [hmem, hn']
      · next hmem => simp [hmem, hn']

/-- Reading the fields of a head puts its lines together by name. -/
theorem collect_eq_grouped (lines : List (Bytes × Bytes)) :
    Head.collect lines = grouped lines := by
  induction lines using List.reverseRecOn with
  | nil => rfl
  | append_singleton lines line ih =>
    have hstep : Head.collect (lines ++ [line]) =
        append (nameOf line.1) line.2 (Head.collect lines) := by
      simp [Head.collect, nameOf]
    rw [hstep, ih, grouped, append_map (nodup_namesOf _), grouped, namesOf_append]
    split
    · next hmem => simp only [valuesOf_append]
    · next hmem =>
      rw [List.map_append, List.map_singleton, valuesOf_append, valuesOf_eq_nil hmem, if_pos rfl,
        List.nil_append]
      congr 1
      refine List.map_congr_left fun n hn => ?_
      have hne : nameOf line.1 ≠ n := fun he => hmem (he ▸ hn)
      rw [valuesOf_append, if_neg hne, List.append_nil]

theorem values_cons (field : Field) (fields : Fields) (name : String) :
    Fields.values (field :: fields) name =
      if field.name = name then field.values else fields.values name := by
  unfold values
  rw [List.find?_cons]
  by_cases hname : field.name = name
  · simp [hname]
  · simp only [beq_eq_false_iff_ne.mpr hname, if_neg hname]

theorem values_map (names : List String) (values : String → List Bytes) (name : String) :
    Fields.values (names.map fun n => ⟨n, values n⟩) name =
      if name ∈ names then values name else [] := by
  induction names with
  | nil => rfl
  | cons n names ih =>
    rw [List.map_cons, values_cons, ih]
    by_cases hn : n = name
    · simp [hn]
    · have hn' : ¬name = n := fun he => hn he.symm
      simp only [hn, hn', if_false, List.mem_cons, false_or]

theorem values_grouped (lines : List (Bytes × Bytes)) (name : String) :
    (grouped lines).values name = valuesOf lines name := by
  rw [grouped, values_map]
  split
  · rfl
  · next h => exact (valuesOf_eq_nil h).symm

theorem first?_collect (lines : List (Bytes × Bytes)) (name : String) :
    (Head.collect lines).first? name = (valuesOf lines name).head? := by
  rw [first?, collect_eq_grouped, values_grouped]

end Fields

theorem isVisible_digit {b : UInt8} (h : 0x30 ≤ b ∧ b ≤ 0x39) : isVisible b = true := by
  simp only [UInt8.le_iff_toNat_le, UInt8.reduceToNat] at h
  simp only [isVisible, UInt8.le_iff_toNat_le, UInt8.lt_iff_toNat_lt, UInt8.reduceToNat,
    Bool.or_eq_true, Bool.and_eq_true, decide_eq_true_eq]
  omega

namespace Head

variable {lines : List (Bytes × Bytes)}

/-- Without framing fields there is no body. -/
theorem bodyLength_unframed (hcoding : Fields.valuesOf lines "transfer-encoding" = [])
    (hlength : Fields.valuesOf lines "content-length" = []) :
    bodyLength (collect lines) = .ok 0 := by
  simp only [bodyLength, Fields.first?_collect, hcoding, hlength, List.head?_nil]

/-- The body has the length that the first `content-length` spells. -/
theorem bodyLength_spelt {value : Bytes} {values : List Bytes} {n : Nat}
    (hcoding : Fields.valuesOf lines "transfer-encoding" = [])
    (hlength : Fields.valuesOf lines "content-length" = value :: values)
    (hvalue : Text.Decimal.Spells value n) (hn : n ≤ Text.Decimal.max64) :
    bodyLength (collect lines) = .ok n := by
  have hvisible : value.all isVisible = true :=
    List.all_eq_true.mpr fun b hb => isVisible_digit (hvalue.digits b hb)
  have htext : Fields.textOf? value = some (Text.Utf8.lossy value) := if_pos hvisible
  simp only [bodyLength, Fields.first?_collect, hcoding, hlength, List.head?_nil, List.head?_cons,
    htext, hvalue.read hn]

end Head

end Depot.Http
