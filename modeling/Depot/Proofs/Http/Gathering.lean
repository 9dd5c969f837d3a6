import Depot.Proofs.Http.Bodies

/-! # How a body is gathered

An intake may be given any chunks at all, also ones that a reader would never deliver: empty ones,
ones that are too long, and more of them after it refused one. Its body is made up of the chunks
that kept within the announced length, in order, as if the refused ones had never come
(`chunks_gathered`). -/

namespace Depot.Http

namespace Intake

/-- The chunks that are taken once another has come: that one too, if it keeps within the announced
length with all before it. -/
def join (announced : Nat) (taken : List Bytes) (chunk : Bytes) : List Bytes :=
  if taken.flatten.length + chunk.length ≤ announced then taken ++ [chunk] else taken

/-- The chunks that are taken out of those that come. -/
def fitting (announced : Nat) (chunks : List Bytes) : List Bytes :=
  chunks.foldl (join announced) []

/-- An intake holds just these chunks, on behalf of this request. -/
structure Holds (x : Intake) (request : Request) (taken : List Bytes) : Prop where
  asked : x.request = request
  parts : x.parts.reverse = taken
  arrived : x.arrived = taken.flatten.length
  within : taken.flatten.length ≤ request.contentLength

variable {x : Intake} {request : Request} {taken : List Bytes} {chunk : Bytes}

theorem Holds.body (h : x.Holds request taken) : x.body = taken.flatten := by
  rw [Intake.body, h.parts]

theorem Holds.announced (h : x.Holds request taken) : x.announced = request.contentLength := by
  rw [Intake.announced, h.asked]

/-- A chunk past the announced length is refused whole, and told by the length it would have
made. -/
theorem Holds.take_over (h : x.Holds request taken)
    (hover : request.contentLength < taken.flatten.length + chunk.length) :
    x.take chunk =
      (.refused (.bodyOverrun (taken.flatten.length + chunk.length) request.contentLength), x) := by
  unfold Intake.take
  rw [h.arrived, h.announced]
  exact if_pos hover

/-- A chunk within the announced length joins the others, and is told apart by what is still due. -/
theorem Holds.take_within (h : x.Holds request taken)
    (hfits : taken.flatten.length + chunk.length ≤ request.contentLength) :
    (x.take chunk).1 = (if taken.flatten.length + chunk.length = request.contentLength then .whole
        else .partly) ∧
      (x.take chunk).2.Holds request (taken ++ [chunk]) := by
  obtain ⟨due, hdue⟩ := Nat.le.dest hfits
  have hlength : (taken ++ [chunk]).flatten.length = taken.flatten.length + chunk.length := by simp
  have hwhole : taken.flatten.length + chunk.length = request.contentLength ↔ due = 0 := by omega
  have hall : x.arrived + (chunk.length + due) = x.announced := by
    rw [h.arrived, h.announced]
    omega
  rw [take_due hall]
  simp only [hwhole]
  refine ⟨trivial, h.asked, ?_, ?_, hlength.trans_le hfits⟩
  · rw [List.reverse_cons, h.parts]
  · rw [hlength, h.arrived]

/-- What is said of a chunk goes by the length that it makes with all before it. -/
theorem Holds.said_iff (h : x.Holds request taken) (chunk : Bytes) :
    let total := taken.flatten.length + chunk.length
    ((∀ reason, (x.take chunk).1 ≠ .refused reason) ↔ total ≤ request.contentLength) ∧
      ((x.take chunk).1 = .whole ↔ total = request.contentLength) ∧
      ((x.take chunk).1 = .partly ↔ total < request.contentLength) := by
  intro total
  rcases Nat.lt_trichotomy total request.contentLength with hshort | hall | hover
  · have hsaid := (h.take_within hshort.le).1
    rw [if_neg hshort.ne] at hsaid
    exact ⟨iff_of_true (by simp [hsaid]) hshort.le, iff_of_false (by simp [hsaid]) hshort.ne,
      iff_of_true hsaid hshort⟩
  · have hsaid := (h.take_within hall.le).1
    rw [if_pos hall] at hsaid
    exact ⟨iff_of_true (by simp [hsaid]) hall.le, iff_of_true hsaid hall,
      iff_of_false (by simp [hsaid]) hall.not_lt⟩
  · have hsaid := congrArg Prod.fst (h.take_over hover)
    exact ⟨iff_of_false (fun hno => hno _ hsaid) hover.not_ge,
      iff_of_false (by simp [hsaid]) hover.ne', iff_of_false (by simp [hsaid]) hover.not_gt⟩

theorem Holds.take (h : x.Holds request taken) (chunk : Bytes) :
    (x.take chunk).2.Holds request (join request.contentLength taken chunk) := by
  unfold join
  split
  · next hfits => exact (h.take_within hfits).2
  · next hover =>
    rw [h.take_over (Nat.lt_of_not_le hover)]
    exact h

/-- Chunk by chunk an intake holds what is taken of them. -/
theorem Holds.takeEach (h : x.Holds request taken) (chunks : List Bytes) :
    (x.takeEach chunks).2.Holds request (chunks.foldl (join request.contentLength) taken) := by
  induction chunks generalizing x taken with
  | nil => exact h
  | cons chunk chunks ih => exact ih (h.take chunk)

/-- A request is handed over once its body is as long as announced, and no sooner. -/
theorem Holds.close (h : x.Holds request taken) :
    x.close = if taken.flatten.length = request.contentLength
      then .ok { request with body := taken.flatten }
      else .error (.bodyCutShort taken.flatten.length request.contentLength) := by
  unfold Intake.close
  rw [h.arrived, h.announced, h.body, h.asked]

/-- A head that is accepted has its request begun, without a byte of its body. -/
theorem holds_of_ofHead {head : Head} {client : Address} {bounds : Bounds}
    (h : ofHead head client bounds = .ok x) :
    ∃ method, Method.ofName? head.method = some method ∧
      x.Holds (head.request method client (head.fields.contentLength?.getD 0) []) [] := by
  rw [ofHead_eq client bounds rfl] at h
  unfold Head.admitted at h
  cases hmethod : Method.ofName? head.method with
  | none =>
    rw [hmethod] at h
    cases h
  | some method =>
    rw [hmethod] at h
    simp only at h
    split at h
    · cases h
    · split at h
      · cases h
      · cases h
        exact ⟨method, rfl, rfl, rfl, rfl, Nat.zero_le _⟩

/-- What is said of the last chunk is said by the intake that met all before it. -/
theorem takeEach_concat (x : Intake) (chunks : List Bytes) (chunk : Bytes) :
    x.takeEach (chunks ++ [chunk]) =
      ((x.takeEach chunks).1 ++ [((x.takeEach chunks).2.take chunk).1],
        ((x.takeEach chunks).2.take chunk).2) := by
  induction chunks generalizing x with
  | nil => rfl
  | cons first chunks ih => simp only [List.cons_append, takeEach, ih]

/-- **A body is made up of the chunks that keep within its announced length, in order.** An intake
that was begun from any head may be given any chunks, and more after one was refused. The next one
is taken if and only if it keeps within the announced length with the bytes held so far; then it is
told whether the body is whole or still short. Otherwise nothing changes and the refusal tells the
length it would have made. The request is handed over, with what was read off the head and just this
body, if and only if the body is as long as announced; otherwise the refusal tells both lengths. -/
theorem chunks_gathered {head : Head} {client : Address} {bounds : Bounds} {x : Intake}
    (h : ofHead head client bounds = .ok x) (chunks : List Bytes) :
    let announced := head.fields.contentLength?.getD 0
    let y := (x.takeEach chunks).2
    y.body = (fitting announced chunks).flatten ∧ y.arrived = y.body.length ∧
      (∀ chunk,
        let total := y.body.length + chunk.length
        let z := (y.take chunk).2
        x.takeEach (chunks ++ [chunk]) = ((x.takeEach chunks).1 ++ [(y.take chunk).1], z) ∧
          ((∀ reason, (y.take chunk).1 ≠ .refused reason) ↔ total ≤ announced) ∧
          ((y.take chunk).1 = .whole ↔ total = announced) ∧
          ((y.take chunk).1 = .partly ↔ total < announced) ∧
          (total ≤ announced → z.body = y.body ++ chunk ∧ z.request = y.request) ∧
          (announced < total →
            (y.take chunk).1 = .refused (.bodyOverrun total announced) ∧ z = y)) ∧
      ∃ method, Method.ofName? head.method = some method ∧
        y.close =
          if y.body.length = announced then
            .ok {
              client
              method
              path := head.path
              accept := head.fields.text? "accept"
              authorization := head.fields.text? "authorization"
              contentLength := announced
              body := y.body }
          else .error (.bodyCutShort y.body.length announced) := by
  intro announced y
  obtain ⟨method, hmethod, hx⟩ := holds_of_ofHead h
  have hy : y.Holds (head.request method client announced []) (fitting announced chunks) :=
    hx.takeEach chunks
  have hbody : y.body = (fitting announced chunks).flatten := hy.body
  refine ⟨hbody, by rw [hbody, hy.arrived], fun chunk => ?_, method, hmethod, ?_⟩
  · intro total z
    have htotal : total = (fitting announced chunks).flatten.length + chunk.length := by
      simp only [total, hbody]
    refine ⟨takeEach_concat x chunks chunk, ?_⟩
    rw [htotal]
    obtain ⟨haccepts, hwhole, hpartly⟩ := hy.said_iff chunk
    refine ⟨haccepts, hwhole, hpartly, fun hfits => ?_, fun hover => ?_⟩
    · have hz : z.Holds _ _ := (hy.take_within hfits).2
      refine ⟨?_, hz.asked.trans hy.asked.symm⟩
      rw [hz.body, List.flatten_append, List.flatten_singleton, hbody]
    · have htake := hy.take_over hover
      exact ⟨congrArg Prod.fst htake, congrArg Prod.snd htake⟩
  · rw [hy.close, hbody]
    rfl

/-- A body of four bytes, with an empty chunk in it and one that is refused before it is whole. -/
theorem chunks_gathered_past_refusal :
    let head : Head :=
      { method := "POST"
        target := { scheme := none, authority := "", written := "/a", query := none }
        version := .http11
        fields := [⟨"content-length", [[52]]⟩] }
    let client : Address := .v4 127 0 0 1
    ∃ x, ofHead head client {} = .ok x ∧
      (x.takeEach [[97, 98], [99, 100, 101], []]).2.body = [97, 98] ∧
      (x.takeEach [[97, 98], [99, 100, 101], [], [99, 100]]).1 =
        (x.takeEach [[97, 98], [99, 100, 101], []]).1 ++ [.whole] ∧
      (x.takeEach [[97, 98], [99, 100, 101], []]).2.close = .error (.bodyCutShort 2 4) := by
  intro head client
  let x : Intake := { request := { client, method := .post, path := "/a", contentLength := 4 } }
  have hx : ofHead head client {} = .ok x := by decide +kernel
  have hlength : head.fields.contentLength?.getD 0 = 4 := by decide +kernel
  obtain ⟨hbody, -, hnext, method, hmethod, hclose⟩ :=
    chunks_gathered hx [[97, 98], [99, 100, 101], []]
  rw [hlength] at hbody hclose hnext
  have hheld : (x.takeEach [[97, 98], [99, 100, 101], []]).2.body = [97, 98] := hbody
  obtain ⟨hall, -, hwhole, -⟩ := hnext [99, 100]
  rw [hheld] at hwhole hclose
  refine ⟨x, hx, hheld, ?_, hclose⟩
  rw [← hwhole.mpr rfl]
  exact congrArg Prod.fst hall

end Intake

end Depot.Http
