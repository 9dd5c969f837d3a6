import Depot.Proofs.Http.Decoding
import Depot.Proofs.Http.Fields
import Depot.Proofs.Http.HeadRendering

/-! # Requests are read as they were written

Requests written one behind the other are read back one by one, however the stream is cut:
`feed_render`. What may be written is `Written.Sendable`; a body may be any bytes, those of another
request included, since its length alone says where it ends. -/

namespace Depot.Http

open Text.Decimal (Spells max64)
open Text.Utf8 (asciiText)

/-- A request to be written: its head, the target that the bytes in the head spell, its body. -/
structure Written where
  head : RawHead
  target : Target
  body : Bytes

namespace Written

/-- The bytes of a request. -/
def render (w : Written) : Bytes := w.head.render ++ w.body

/-- The head of a request as its reader gets it. -/
def readHead (w : Written) : Head :=
  ⟨asciiText w.head.method, w.target, w.head.version, Fields.grouped w.head.fields⟩

/-- The messages of a request: its head, its body in one chunk if it has bytes, one end. -/
def messages (w : Written) : List (Message Head) :=
  .head w.readHead w.body.length :: ((if w.body = [] then [] else [.chunk w.body]) ++ [.eof])

/-- A request that keeps to the syntax, to the limits of a head and to one way of framing. -/
structure Sendable (w : Written) : Prop where
  plain : w.head.Plain
  method : 3 ≤ w.head.method.length
  target : Target.parse? w.head.target = some w.target
  fields : w.head.fields.length ≤ maxFields
  size : w.head.render.length ≤ maxHead
  coding : Fields.valuesOf w.head.fields "transfer-encoding" = []
  /-- A body is announced by one `content-length`; without one there is no body. -/
  framed : Fields.valuesOf w.head.fields "content-length" = [] ∧ w.body = [] ∨
    ∃ value, Fields.valuesOf w.head.fields "content-length" = [value] ∧ Spells value w.body.length
  /-- Lengths are numbers of 64 bits. -/
  length : w.body.length ≤ max64

variable {w : Written}

theorem Sendable.bodyLength (h : w.Sendable) :
    Head.bodyLength (Head.collect w.head.fields) = .ok w.body.length := by
  obtain ⟨hnone, hbody⟩ | ⟨value, hone, hvalue⟩ := h.framed
  · rw [hbody]
    exact Head.bodyLength_unframed h.coding hnone
  · exact Head.bodyLength_spelt h.coding hone hvalue h.length

/-- A head is read back with the length of its body. -/
theorem Sendable.read (h : w.Sendable) (t : Bytes) :
    Head.read (w.head.render ++ t) = .head w.readHead w.body.length t := by
  have hlong : ¬(w.head.render ++ t).length < minHead := by
    have := RawHead.minHead_le_render h.plain h.method
    rw [List.length_append]
    omega
  have hraw : Syntax.head maxFields (w.head.render ++ t) = .value w.head t :=
    Syntax.head_render h.plain h.fields t
  have hsize : ¬maxHead < (w.head.render ++ t).length - t.length := by
    have := h.size
    rw [List.length_append]
    omega
  unfold Head.read Head.readAny
  rw [if_neg hlong, hraw]
  simp only [if_neg hsize, h.target, h.bodyLength]
  rw [Text.Utf8.lossy_ascii h.plain.method.ascii, Fields.collect_eq_grouped]
  rfl

end Written

open Message (merge)

namespace Decoder

/-- A request in front of others is read first, and nothing of theirs with it. -/
theorem read_written {w : Written} (h : w.Sendable) (t : Bytes) :
    ({} : Decoder).read (w.render ++ t) = (({} : Decoder).read t).after w.messages := by
  have hhead : Next ⟨none⟩ (w.render ++ t) _ ⟨some w.body.length⟩ (w.body ++ t) :=
    .head (by rw [Written.render, List.append_assoc]; exact h.read _)
  have heof : (⟨some 0⟩ : Decoder).read t = ((⟨none⟩ : Decoder).read t).after [.eof] :=
    read_message .eof
  rw [show ({} : Decoder) = ⟨none⟩ from rfl, read_message hhead]
  unfold Written.messages
  by_cases hb : w.body = []
  · rw [if_pos hb, hb, List.nil_append, List.length_nil, heof]
    rfl
  · obtain ⟨due, hdue⟩ : ∃ due, w.body.length = due + 1 :=
      Nat.exists_eq_succ_of_ne_zero (mt List.length_eq_zero_iff.mp hb)
    have hchunk : Next ⟨some (due + 1)⟩ (w.body ++ t) _ _ _ := .chunk (by simp [hb])
    have hleft : due + 1 - (w.body ++ t).length = 0 := by
      rw [List.length_append]
      omega
    rw [← hdue, List.take_left, List.drop_left, hdue, hleft] at hchunk
    rw [if_neg hb, hdue, read_message hchunk, heof]
    rfl

/-- Requests written one behind the other are read in one go. -/
theorem read_requests {rs : List Written} (h : ∀ w ∈ rs, w.Sendable) :
    ({} : Decoder).read (rs.flatMap Written.render) =
      ⟨rs.flatMap Written.messages, {}, [], none⟩ := by
  induction rs with
  | nil => exact read_more step_nil
  | cons w rs ih =>
    rw [List.flatMap_cons, read_written (h w List.mem_cons_self),
      ih fun v hv => h v (List.mem_cons_of_mem _ hv)]
    rfl

/-- The messages of requests hold no two chunks in a row. -/
theorem merge_messages (rs : List Written) :
    merge (rs.flatMap Written.messages) = rs.flatMap Written.messages := by
  induction rs with
  | nil => rfl
  | cons w rs ih =>
    rw [List.flatMap_cons, Message.merge_append, ih]
    unfold Written.messages
    split
    · rfl
    · rfl

/-- **Reading undoes writing.** However a stream of requests is cut, each is read as one head with
its method, target, version, fields and length, its body and one end, and no byte is left. -/
theorem feed_render (rs : List Written) (h : ∀ w ∈ rs, w.Sendable) (chunks : List Bytes)
    (hcut : chunks.flatten = rs.flatMap Written.render) :
    let run := ({} : Decoder).feed [] chunks
    merge run.messages = rs.flatMap Written.messages ∧ run.fault = none ∧ run.rest = [] ∧
      run.decoder = {} := by
  intro run
  have hwhole := read_requests h
  have hfault : run.fault = none :=
    fault_of_read step_nil (by rw [List.nil_append, hcut, hwhole])
  have halike := feed_cut step_nil hfault
  rw [List.nil_append, hcut, hwhole] at halike
  exact ⟨halike.messages.symm.trans (merge_messages rs), hfault, halike.rest.symm,
    halike.decoder.symm⟩

/-- A body that looks like a request, and a request behind it, read byte by byte. -/
theorem feed_render_bytewise :
    let text := Text.Utf8.encode
    let post : Written :=
      ⟨⟨text "POST", text "/a?b", .http11, [(text "X-Tag", text "1"), (text "Content-Length",
        text "04"), (text "x-tag", [])]⟩, ⟨none, "", "/a", some "b"⟩, text "GET "⟩
    let get : Written := ⟨⟨text "GET", text "/", .http10, []⟩, ⟨none, "", "/", none⟩, []⟩
    let chunks := (post.render ++ get.render).map fun b => [b]
    (∀ w ∈ [post, get], w.Sendable) ∧
      chunks.flatten = [post, get].flatMap Written.render ∧
      merge (({} : Decoder).feed [] chunks).messages = [post, get].flatMap Written.messages := by
  intro text post get chunks
  have hpost : post.Sendable :=
    { plain := by decide +kernel
      method := by decide
      target := by decide +kernel
      fields := by decide
      size := by decide +kernel
      coding := by decide +kernel
      framed := .inr ⟨text "04", by decide +kernel, by decide, by decide +kernel, by decide +kernel⟩
      length := by decide }
  have hget : get.Sendable :=
    { plain := by decide +kernel
      method := by decide
      target := by decide +kernel
      fields := by decide
      size := by decide +kernel
      coding := by decide
      framed := .inl ⟨by decide, rfl⟩
      length := by decide }
  have hall : ∀ w ∈ [post, get], w.Sendable := by simp [hpost, hget]
  have hcut : chunks.flatten = [post, get].flatMap Written.render := by
    simp [chunks, ← List.flatMap_def]
  exact ⟨hall, hcut, (feed_render [post, get] hall chunks hcut).1⟩

end Decoder

end Depot.Http
