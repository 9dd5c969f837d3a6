import Depot.Proofs.Http.Client
import Depot.Proofs.Http.Serving

/-! # Responses taken apart

What is sent is taken apart again by two rules: lines end with CRLF, up to the first empty one, and
the body behind it is as long as the one `content-length` says. Whatever texts a reply is made of,
whatever its body holds and however many responses an encoder writes, they are recovered one by
one, each with its status, its fields and its body (`Encoder.encoded_recovered`). -/

namespace Depot.Http

open Text.Ascii (space)
open Text.Utf8 (encode)

/-! ## Names and values -/

/-- The names and values of fields, in the order in which they are written. -/
def Fields.pairs (fields : Fields) : List (Bytes × Bytes) :=
  fields.flatMap fun field => field.values.map (encode field.name, ·)

namespace Client

/-- A response with all that its lines say. -/
structure Parts where
  code : Nat
  fields : List (Bytes × Bytes)
  body : Bytes
  deriving Repr, DecidableEq

/-- The name and the value of a field line, with the first colon and one blank between them. -/
def pair? (line : Bytes) : Option (Bytes × Bytes) :=
  let name := line.takeWhile fun b => b != Target.colon
  match line.drop name.length with
  | _ :: b :: value => if b = space then some (name, value) else none
  | _ => none

/-- Whether a field says how long the body is, letter case aside. -/
def announces (field : Bytes × Bytes) : Bool :=
  Text.Ascii.sameIgnoringCase field.1 (encode "content-length")

/-- The first response of a stream, and what lies behind it. -/
def parts? (stream : Bytes) : Option (Parts × Bytes) :=
  match header? stream with
  | some (status :: lines, rest) => do
    let code ← code? status
    let fields ← lines.mapM pair?
    match fields.filter announces with
    | [(_, digits)] =>
      let length ← number? digits
      if rest.length < length then none
      else some (⟨code, fields, rest.take length⟩, rest.drop length)
    | _ => none
  | _ => none

variable {stream rest : Bytes}

theorem parts?_shorter {p : Parts} (h : parts? stream = some (p, rest)) :
    rest.length < stream.length := by
  unfold parts? at h
  split at h
  · next status lines behind hheader =>
    have hlt := (header?_some hheader).1
    obtain ⟨code, -, hcode⟩ := Option.bind_eq_some_iff.mp h
    obtain ⟨fields, -, hfields⟩ := Option.bind_eq_some_iff.mp hcode
    split at hfields
    · obtain ⟨length, -, hlength⟩ := Option.bind_eq_some_iff.mp hfields
      split at hlength
      · cases hlength
      · cases hlength
        rw [List.length_drop]
        omega
    · cases hfields
  · cases h

/-- All responses of a stream, if it is one response behind the other and nothing else. -/
def split? (stream : Bytes) : Option (List Parts) :=
  if stream = [] then some []
  else
    match _hfirst : parts? stream with
    | some (first, rest) => (split? rest).map (first :: ·)
    | none => none
termination_by stream.length
decreasing_by exact parts?_shorter _hfirst

theorem split?_nil : split? [] = some [] := by
  rw [split?, if_pos rfl]

theorem split?_cons {first : Parts} (h : parts? stream = some (first, rest)) :
    split? stream = (split? rest).map (first :: ·) := by
  have hne : stream ≠ [] := by
    rintro rfl
    exact absurd (parts?_shorter h) (Nat.not_lt_zero _)
  rw [split?, if_neg hne]
  split
  · next heq => rw [h] at heq; cases heq; rfl
  · next heq => rw [h] at heq; cases heq

end Client

/-! ## Fields on the wire -/

namespace Fields

open Client (announces pair? sameIgnoringCase_iff contentLength_name)

variable {fields : Fields} {name : String}

theorem pairs_cons (field : Field) (fields : Fields) :
    Fields.pairs (field :: fields) = field.values.map (encode field.name, ·) ++ fields.pairs :=
  List.flatMap_cons

theorem pairs_append (fields others : Fields) :
    Fields.pairs (fields ++ others) = fields.pairs ++ others.pairs :=
  List.flatMap_append

theorem pair?_line (hname : Name name) (value : Bytes) :
    pair? (line name value) = some (encode name, value) := by
  rw [pair?, Client.takeWhile_line hname, Client.drop_line]
  exact if_pos rfl

/-- The lines of fields are taken apart into their names and values. -/
theorem Plain.mapM_lines (h : Plain fields) : fields.lines.mapM pair? = some fields.pairs := by
  have hfield {name : String} (values : List Bytes) (hname : Name name) :
      (values.map (line name)).mapM pair? = some (values.map (encode name, ·)) := by
    induction values with
    | nil => rfl
    | cons value values ih =>
      rw [List.map_cons, List.mapM_cons, pair?_line hname, ih]
      rfl
  unfold lines
  induction fields with
  | nil => rfl
  | cons field fields ih =>
    rw [List.flatMap_cons, List.mapM_append, hfield _ (h.names field List.mem_cons_self),
      ih h.of_cons, pairs_cons]
    rfl

theorem announces_iff (hname : Name name) (value : Bytes) :
    announces (encode name, value) = true ↔ name = "content-length" :=
  sameIgnoringCase_iff hname contentLength_name

/-- The fields that announce a length are those of the one name. -/
theorem Plain.filter_announces (h : Plain fields) :
    fields.pairs.filter announces =
      (fields.values "content-length").map (encode "content-length", ·) := by
  induction fields with
  | nil => rfl
  | cons field fields ih =>
    have hname := h.names field List.mem_cons_self
    rw [pairs_cons, List.filter_append, ih h.of_cons, values_cons]
    split
    · next heq =>
      have hall : ∀ p ∈ field.values.map (encode field.name, ·), announces p = true := by
        intro p hp
        obtain ⟨value, -, rfl⟩ := List.mem_map.mp hp
        exact (announces_iff hname value).mpr heq
      rw [List.filter_eq_self.mpr hall, ← heq, h.values_tail, List.map_nil, List.append_nil]
    · next hne =>
      have hnone : ∀ p ∈ field.values.map (encode field.name, ·), ¬announces p = true := by
        intro p hp
        obtain ⟨value, -, rfl⟩ := List.mem_map.mp hp
        exact mt (announces_iff hname value).mp hne
      rw [List.filter_eq_nil_iff.mpr hnone, List.nil_append]

/-- A new length leaves all other fields as they are. -/
theorem filter_insert (fields : Fields) (value : Bytes) :
    (fields.insert "content-length" value).pairs.filter (!announces ·) =
      fields.pairs.filter (!announces ·) := by
  have hlength (values : List Bytes) :
      (values.map (encode "content-length", ·)).filter (!announces ·) = [] := by
    refine List.filter_eq_nil_iff.mpr fun p hp => ?_
    obtain ⟨value, -, rfl⟩ := List.mem_map.mp hp
    have hannounces := (announces_iff contentLength_name value).mpr rfl
    simp [hannounces]
  induction fields with
  | nil => exact hlength [value]
  | cons field fields ih =>
    rw [insert]
    split
    · next heq =>
      rw [pairs_cons, pairs_cons, List.filter_append, List.filter_append, heq, hlength, hlength]
    · rw [pairs_cons, pairs_cons, List.filter_append, List.filter_append, ih]

/-- A name that is new comes last. -/
theorem insert_of_not_mem (h : name ∉ fields.map Field.name) (value : Bytes) :
    fields.insert name value = fields ++ [⟨name, [value]⟩] := by
  induction fields with
  | nil => rfl
  | cons field fields ih =>
    rw [List.map_cons, List.mem_cons, not_or] at h
    rw [insert, if_neg fun he => h.1 he.symm, ih h.2]
    rfl

theorem mem_pairs {key : String} {value : Bytes} :
    (encode key, value) ∈ fields.pairs ↔
      ∃ field ∈ fields, field.name = key ∧ value ∈ field.values := by
  simp only [pairs, List.mem_flatMap, List.mem_map, Prod.mk.injEq, Text.Utf8.encode_inj]
  constructor
  · rintro ⟨field, hfield, value, hvalue, hname, rfl⟩
    exact ⟨field, hfield, hname, hvalue⟩
  · rintro ⟨field, hfield, hname, hvalue⟩
    exact ⟨field, hfield, value, hvalue, hname, rfl⟩

/-- Where each field has one value, each name is written once. -/
theorem map_fst_pairs (h : ∀ field ∈ fields, ∃ value, field.values = [value]) :
    fields.pairs.map Prod.fst = (fields.map Field.name).map encode := by
  induction fields with
  | nil => rfl
  | cons field fields ih =>
    obtain ⟨⟨value, hvalue⟩, hfields⟩ := List.forall_mem_cons.mp h
    rw [pairs_cons, hvalue, List.map_append, ih hfields]
    rfl

end Fields

/-! ## What is sent -/

/-- A response in the form in which an encoder is given it. -/
structure Outgoing where
  head : ReplyHead
  /-- The body, cut in any way. -/
  chunks : List Bytes
  version : head.version = .http11
  plain : head.fields.Plain

namespace Outgoing

def body (o : Outgoing) : Bytes := o.chunks.flatten

def messages (o : Outgoing) : List (Message ReplyHead) :=
  .head o.head o.body.length :: (o.chunks.map .chunk ++ [.eof])

/-- The fields that are written. -/
def fields (o : Outgoing) : Fields :=
  o.head.fields.insert "content-length" (Text.Decimal.encode o.body.length)

def render (o : Outgoing) : Bytes := o.head.render o.body.length ++ o.body

/-- The response as it is taken apart. -/
def parts (o : Outgoing) : Client.Parts := ⟨o.head.status.code, o.fields.pairs, o.body⟩

/-- A reply, as its parts are sent. -/
def ofReply (r : Reply) : Outgoing where
  head := r.head
  chunks := r.chunks
  version := rfl
  plain := Client.fields_plain r

theorem messages_ofReply (r : Reply) : (ofReply r).messages = r.messages :=
  r.messages_eq.symm

theorem plain_fields (o : Outgoing) : o.fields.Plain :=
  o.plain.insert Client.contentLength_name (Client.isValueByte_decimal _)

/-- Exactly one field announces a length, and it is the one of the body. -/
theorem filter_announces (o : Outgoing) :
    o.fields.pairs.filter Client.announces =
      [(encode "content-length", Text.Decimal.encode o.body.length)] := by
  rw [o.plain_fields.filter_announces, fields, Fields.values_insert, List.map_singleton]

/-- What is written of a response is taken apart into it, whatever lies behind it. -/
theorem parts?_render (o : Outgoing) (t : Bytes) :
    Client.parts? (o.render ++ t) = some (o.parts, t) := by
  have hlong : ¬(o.body ++ t).length < o.body.length := by
    rw [List.length_append]
    omega
  have hnumber := Client.number?_spells (Text.Decimal.spells_encode o.body.length)
  rw [render, List.append_assoc, Client.parts?, Client.header?_render o.head o.plain, ← fields]
  simp only [Client.code?_statusText, o.plain_fields.mapM_lines, Option.bind_eq_bind,
    Option.bind_some, o.filter_announces, hnumber, if_neg hlong, List.take_left, List.drop_left,
    parts]

theorem split?_render (os : List Outgoing) :
    Client.split? (os.flatMap render) = some (os.map parts) := by
  induction os with
  | nil => exact Client.split?_nil
  | cons o os ih =>
    rw [List.flatMap_cons, Client.split?_cons (o.parts?_render _), ih]
    rfl

theorem encodeAll_flatMap (os : List Outgoing) :
    ({} : Encoder).encodeAll (os.flatMap messages) =
      { encoder := {}, out := os.flatMap render } := by
  induction os with
  | nil => rfl
  | cons o os ih =>
    have hfirst := Encoder.encodeAll_response o.version o.chunks (os.flatMap messages)
    rw [List.flatMap_cons, messages, List.cons_append, List.append_assoc]
    simp only [body, List.singleton_append, hfirst, ih, List.flatMap_cons, render, List.append_assoc]

end Outgoing

/-! ## What is recovered -/

/-- The parts of a response: its length stands there once, and all other fields are its own. -/
structure Outgoing.Recovered (o : Outgoing) (p : Client.Parts) : Prop where
  code : p.code = o.head.status.code
  body : p.body = o.body
  length : p.fields.filter Client.announces =
    [(encode "content-length", Text.Decimal.encode o.body.length)]
  others : p.fields.filter (!Client.announces ·) =
    o.head.fields.pairs.filter (!Client.announces ·)

theorem Outgoing.recovered (o : Outgoing) : o.Recovered o.parts where
  code := rfl
  body := rfl
  length := o.filter_announces
  others := Fields.filter_insert _ _

/-- Whether this is the value that a text makes. -/
def Reply.Makes (text : Option String) (value : Bytes) : Prop :=
  ∃ t, text = some t ∧ value = encode t ∧ ∀ b ∈ value, isValueByte b = true

/-- The parts of a reply: a text is there if it makes a value, the sign for pages of any origin if
the reply has it, and the length always. Nothing else is there, and nothing twice. -/
structure Reply.Recovered (r : Reply) (p : Client.Parts) : Prop where
  code : p.code = r.status.code
  body : p.body = r.body
  names : (p.fields.map Prod.fst).Sublist
    [encode "content-type", encode "allow", encode "access-control-allow-origin",
      encode "content-length"]
  contentType (value : Bytes) :
    (encode "content-type", value) ∈ p.fields ↔ Makes r.contentType value
  allow (value : Bytes) : (encode "allow", value) ∈ p.fields ↔ Makes r.allow value
  cors (value : Bytes) : (encode "access-control-allow-origin", value) ∈ p.fields ↔
    r.cors = true ∧ value = encode "*"
  length (value : Bytes) : (encode "content-length", value) ∈ p.fields ↔
    value = Text.Decimal.encode r.body.length

namespace Reply

open Fields (pairs_append mem_pairs)

variable {key name : String} {value : Bytes}

theorem mem_pairs_optionalField {text : Option String} :
    (encode key, value) ∈ (optionalField name text).pairs ↔ name = key ∧ Makes text value := by
  rw [mem_pairs]
  constructor
  · rintro ⟨field, hfield, hname, hvalue⟩
    obtain ⟨t, ht, hbytes, rfl⟩ := Client.mem_optionalField.mp hfield
    obtain rfl := List.mem_singleton.mp hvalue
    exact ⟨hname, t, ht, rfl, hbytes⟩
  · rintro ⟨hname, t, ht, rfl, hbytes⟩
    exact ⟨_, Client.mem_optionalField.mpr ⟨t, ht, hbytes, rfl⟩, hname, List.mem_singleton_self _⟩

/-- The length comes behind the fields a reply asks for. -/
theorem fields_ofReply (r : Reply) :
    (Outgoing.ofReply r).fields =
      r.fields ++ [⟨"content-length", [Text.Decimal.encode r.body.length]⟩] := by
  have hnew : "content-length" ∉ r.fields.map Field.name := fun hmem =>
    absurd ((Client.fields_sublist r).subset hmem) (by decide)
  have hbody : (Outgoing.ofReply r).body = r.body := r.flatten_chunks
  rw [Outgoing.fields, hbody]
  exact Fields.insert_of_not_mem hnew _

theorem mem_fields_ofReply {r : Reply} :
    (encode key, value) ∈ (Outgoing.ofReply r).fields.pairs ↔
      ("content-type" = key ∧ Makes r.contentType value ∨ "allow" = key ∧ Makes r.allow value) ∨
        ("access-control-allow-origin" = key ∧ r.cors = true ∧ value = encode "*") ∨
          "content-length" = key ∧ value = Text.Decimal.encode r.body.length := by
  have hcors : (encode key, value) ∈ Fields.pairs (if r.cors then
      [⟨"access-control-allow-origin", [encode "*"]⟩] else []) ↔
        "access-control-allow-origin" = key ∧ r.cors = true ∧ value = encode "*" := by
    rw [mem_pairs]
    split
    · next h => simp [h]
    · next h => simp [h]
  rw [fields_ofReply, fields, pairs_append, pairs_append, pairs_append, List.mem_append,
    List.mem_append, List.mem_append, mem_pairs_optionalField, mem_pairs_optionalField, hcors,
    or_assoc]
  simp [mem_pairs]

/-- Each of the fields is written at most once, in a fixed order. -/
theorem names_ofReply (r : Reply) :
    ((Outgoing.ofReply r).fields.pairs.map Prod.fst).Sublist
      (["content-type", "allow", "access-control-allow-origin", "content-length"].map encode) := by
  have hsingle : ∀ field ∈ (Outgoing.ofReply r).fields, ∃ value, field.values = [value] := by
    intro field hfield
    rw [fields_ofReply, List.mem_append, List.mem_singleton] at hfield
    rcases hfield with hfield | rfl
    · obtain ⟨value, hvalues, -⟩ := Client.mem_fields hfield
      exact ⟨value, hvalues⟩
    · exact ⟨_, rfl⟩
  rw [Fields.map_fst_pairs hsingle, fields_ofReply, List.map_append]
  exact ((Client.fields_sublist r).append (List.Sublist.refl ["content-length"])).map encode

theorem recovered (r : Reply) : r.Recovered (Outgoing.ofReply r).parts where
  code := rfl
  body := r.flatten_chunks
  names := names_ofReply r
  contentType value := by
    simp [Outgoing.parts, mem_fields_ofReply]
  allow value := by
    simp [Outgoing.parts, mem_fields_ofReply]
  cors value := by
    simp [Outgoing.parts, mem_fields_ofReply]
  length value := by
    simp [Outgoing.parts, mem_fields_ofReply]

end Reply

/-- What an encoder writes of a run of responses is taken apart into them, one by one and to the
last byte, however their bodies are cut. Of a reply, each part is there as the reply has it; so no
text in a reply adds a line, and no body shifts where the next response begins. -/
theorem Encoder.encoded_recovered :
    (∀ os : List Outgoing,
      let run := ({} : Encoder).encodeAll (os.flatMap Outgoing.messages)
      run.fault = none ∧ run.encoder = {} ∧
        ∃ parts, Client.split? run.out = some parts ∧ List.Forall₂ Outgoing.Recovered os parts) ∧
    ∀ rs : List Reply,
      let run := ({} : Encoder).encodeAll (rs.flatMap Reply.messages)
      run.fault = none ∧ run.encoder = {} ∧
        ∃ parts, Client.split? run.out = some parts ∧ List.Forall₂ Reply.Recovered rs parts := by
  have hrun (os : List Outgoing) :
      let run := ({} : Encoder).encodeAll (os.flatMap Outgoing.messages)
      run.fault = none ∧ run.encoder = {} ∧
        Client.split? run.out = some (os.map Outgoing.parts) := by
    rw [Outgoing.encodeAll_flatMap]
    exact ⟨rfl, rfl, Outgoing.split?_render os⟩
  refine ⟨fun os => ?_, fun rs => ?_⟩
  · obtain ⟨hfault, hencoder, hsplit⟩ := hrun os
    refine ⟨hfault, hencoder, _, hsplit, ?_⟩
    exact List.forall₂_map_right_iff.mpr (List.forall₂_same.mpr fun o _ => o.recovered)
  · have hmessages : rs.flatMap Reply.messages =
        (rs.map Outgoing.ofReply).flatMap Outgoing.messages := by
      simp only [List.flatMap_map, Outgoing.messages_ofReply]
    obtain ⟨hfault, hencoder, hsplit⟩ := hrun (rs.map Outgoing.ofReply)
    rw [← hmessages] at hfault hencoder hsplit
    refine ⟨hfault, hencoder, _, hsplit, ?_⟩
    rw [List.map_map]
    exact List.forall₂_map_right_iff.mpr (List.forall₂_same.mpr fun r _ => r.recovered)

end Depot.Http
