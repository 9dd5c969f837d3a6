import Depot.Proofs.Http.Fields
import Depot.Proofs.Http.HeadRendering
import Depot.Proofs.Http.Session
import Depot.Proofs.Resp.Reading
import Depot.Proofs.Text.Decimal

/-! # How a client reads responses

A client of HTTP/1.1 splits what it gets by the framing of messages: a header section of lines up
to an empty one, then as many bytes as the one `content-length` says, but none where the status is
one that has no body. A reply that is sent is read back as it is (`Client.finals_render`), whatever
lies behind it, unless its status has no body: then the client takes the body of the reply for the
start of the next response (`Client.finals_render_bodiless`). -/

namespace Depot.Http

open Text.Ascii (cr lf crlf space)
open Text.Utf8 (encode)

/-- A response as a client has it. -/
structure Response where
  code : Nat
  body : Bytes
  deriving Repr, DecidableEq

/-- A reply as a client is to have it. -/
def Response.of (r : Reply) : Response := ⟨r.status.code, r.body⟩

namespace Client

open Resp (textLine IsLine textLine_append textLine_value textLine_shorter isLine_of_not_mem)

/-- The lines of a header section, and what lies behind the empty line that ends it. -/
def header? (stream : Bytes) : Option (List Bytes × Bytes) :=
  match _hline : textLine stream with
  | .value [] rest => some ([], rest)
  | .value (b :: text) rest =>
    (header? rest).map fun (lines, behind) => ((b :: text) :: lines, behind)
  | .more => none
  | .fault _ => none
termination_by stream.length
decreasing_by exact Resp.textLine_shorter _hline

def number? (digits : Bytes) : Option Nat :=
  if digits ≠ [] ∧ digits.all Text.Ascii.isDigit then
    some (Nat.ofDigitChars 10 (Text.Utf8.asciiText digits).toList 0)
  else none

def protocol : Bytes := encode "HTTP/1.1 "

/-- The code of a status line. -/
def code? (line : Bytes) : Option Nat :=
  if protocol.isPrefixOf line then
    number? ((line.drop protocol.length).takeWhile fun b => b != space)
  else none

/-- The value of a field line, if the field has this name, letter case aside. -/
def value? (name : Bytes) (line : Bytes) : Option Bytes :=
  let front := line.takeWhile fun b => b != Target.colon
  if Text.Ascii.sameIgnoringCase front name then
    some (Syntax.trimEnd ((line.drop (front.length + 1)).dropWhile Syntax.isBlank))
  else none

/-- The length of the body, if exactly one field announces it. -/
def length? (fields : List Bytes) : Option Nat :=
  match fields.filterMap (value? (encode "content-length")) with
  | [value] => number? value
  | _ => none

/-- Whether responses of this status end with their header section, whatever it announces. -/
def isBodiless (code : Nat) : Bool := code < 200 || code == 204 || code == 304

/-- The first response of a stream, and what lies behind it. -/
def response? (stream : Bytes) : Option (Response × Bytes) :=
  match header? stream with
  | some (status :: fields, rest) => do
    let code ← code? status
    if isBodiless code then some (⟨code, []⟩, rest)
    else
      let length ← length? fields
      if rest.length < length then none
      else some (⟨code, rest.take length⟩, rest.drop length)
  | _ => none

variable {lines fields : List Bytes} {line name value stream rest t : Bytes}

/-! ## Header sections -/

theorem header?_nil (t : Bytes) : header? (crlf ++ t) = some ([], t) := by
  rw [header?]
  rfl

theorem header?_cons (hline : IsLine line) (hne : line ≠ []) (t : Bytes) :
    header? (line ++ crlf ++ t) =
      (header? t).map fun (lines, behind) => (line :: lines, behind) := by
  have hread := textLine_append hline t
  rw [header?]
  split
  · next heq =>
    rw [hread] at heq
    cases heq
    exact absurd rfl hne
  · next heq =>
    rw [hread] at heq
    cases heq
    rfl
  · next heq =>
    rw [hread] at heq
    cases heq
  · next heq =>
    rw [hread] at heq
    cases heq

/-- A header section is read line by line. -/
theorem header?_lines (h : ∀ line ∈ lines, IsLine line ∧ line ≠ []) (t : Bytes) :
    header? (lines.flatMap (· ++ crlf) ++ crlf ++ t) = some (lines, t) := by
  induction lines with
  | nil => exact header?_nil t
  | cons line lines ih =>
    obtain ⟨hline, hlines⟩ := List.forall_mem_cons.mp h
    have hsplit : (line :: lines).flatMap (· ++ crlf) ++ crlf ++ t =
        line ++ crlf ++ (lines.flatMap (· ++ crlf) ++ crlf ++ t) := by
      simp only [List.flatMap_cons, List.append_assoc]
    rw [hsplit, header?_cons hline.1 hline.2, ih hlines]
    rfl

/-- A header section starts with its first line, and is not empty. -/
theorem header?_some (h : header? stream = some (lines, rest)) :
    rest.length < stream.length ∧ ∀ line ∈ lines.head?, line <+: stream := by
  induction hn : stream.length using Nat.strongRecOn generalizing stream lines with
  | _ n ih =>
    rw [header?] at h
    split at h
    · next hread =>
      cases h
      exact ⟨hn ▸ textLine_shorter hread, nofun⟩
    · next b text behind hread =>
      obtain ⟨⟨later, rest'⟩, hlater, heq⟩ := Option.map_eq_some_iff.mp h
      cases heq
      obtain ⟨hstream, -⟩ := textLine_value hread
      have hlt : behind.length < n := hn ▸ textLine_shorter hread
      obtain ⟨hshort, -⟩ := ih _ hlt hlater rfl
      refine ⟨hshort.trans hlt, ?_⟩
      simp only [List.head?_cons, Option.mem_def, Option.some.injEq, forall_eq']
      rw [hstream, List.append_assoc]
      exact List.prefix_append _ _
    · cases h
    · cases h

/-! ## Status lines and numbers -/

theorem number?_spells {n : Nat} (h : Text.Decimal.Spells value n) : number? value = some n := by
  have hdigits : value.all Text.Ascii.isDigit = true := by
    refine List.all_eq_true.mpr fun b hb => ?_
    simpa [Text.Ascii.isDigit] using h.digits b hb
  rw [number?, if_pos ⟨h.nonempty, hdigits⟩, h.number]

/-- A status line without its end. -/
def statusText (s : Status) : Bytes :=
  encode ("HTTP/1.1 " ++ toString s.code ++ " " ++ s.phrase)

theorem statusText_eq (s : Status) :
    statusText s =
      protocol ++ Text.Decimal.encode s.code ++ space :: encode s.phrase := by
  have hspace : encode " " = [space] := rfl
  simp only [statusText, Text.Utf8.encode_append, protocol, Text.Decimal.encode, hspace, List.append_assoc,
    List.singleton_append]

/-- No phrase ends the status line. -/
theorem cr_not_mem_phrase (s : Status) : cr ∉ encode s.phrase := by
  have hall : ∀ entry ∈ Status.phrases, cr ∉ encode entry.2 := by decide +kernel
  unfold Status.phrase
  cases hlookup : Status.phrases.lookup s.code with
  | none => exact List.not_mem_nil
  | some phrase =>
    obtain ⟨l₁, l₂, hsplit, -⟩ := List.lookup_eq_some_iff.mp hlookup
    exact hall (s.code, phrase) (by rw [hsplit]; simp)

theorem digit_ne {b c : UInt8} (h : 0x30 ≤ b ∧ b ≤ 0x39) (hc : c < 0x30 ∨ 0x39 < c) : b ≠ c := by
  rintro rfl
  rcases hc with hc | hc
  · exact absurd hc (UInt8.not_lt.mpr h.1)
  · exact absurd hc (UInt8.not_lt.mpr h.2)

theorem statusText_ne_nil (s : Status) : statusText s ≠ [] := by
  rw [statusText_eq]
  simp

theorem isLine_statusText (s : Status) : IsLine (statusText s) := by
  refine isLine_of_not_mem ?_
  rw [statusText_eq]
  simp only [List.mem_append, List.mem_cons, not_or]
  refine ⟨⟨by decide +kernel, fun hcr => ?_⟩, by decide, cr_not_mem_phrase s⟩
  exact digit_ne ((Text.Decimal.spells_encode s.code).digits cr hcr) (.inl (by decide)) rfl

theorem code?_statusText (s : Status) : code? (statusText s) = some s.code := by
  have hdigits : ∀ b ∈ Text.Decimal.encode s.code, (b != space) = true := fun b hb => by
    simpa using digit_ne ((Text.Decimal.spells_encode s.code).digits b hb) (.inl (by decide))
  rw [statusText_eq, List.append_assoc, code?, if_pos (List.isPrefixOf_iff_prefix.mpr
    (List.prefix_append _ _)), List.drop_left, List.takeWhile_append_of_pos hdigits,
    List.takeWhile_cons_of_neg (by simp), List.append_nil]
  exact number?_spells (Text.Decimal.spells_encode s.code)

end Client

/-! ## Fields that are sent -/

/-- Whether a text is the name of a field, in lower case. -/
structure Fields.Name (name : String) : Prop where
  token : Syntax.Token (encode name)
  lower : (encode name).map Text.Ascii.toLower = encode name

instance : DecidablePred Fields.Name := fun name =>
  decidable_of_iff (Syntax.Token (encode name) ∧
      (encode name).map Text.Ascii.toLower = encode name)
    ⟨fun h => ⟨h.1, h.2⟩, fun h => ⟨h.token, h.lower⟩⟩

/-- Whether fields are kept as they should be: each name once, and values without control bytes. -/
structure Fields.Plain (fields : Fields) : Prop where
  nodup : (fields.map Field.name).Nodup
  names : ∀ field ∈ fields, Fields.Name field.name
  values : ∀ field ∈ fields, ∀ value ∈ field.values, ∀ b ∈ value, isValueByte b = true

/-- The line of a field and one of its values. -/
def Fields.line (name : String) (value : Bytes) : Bytes := encode name ++ encode ": " ++ value

def Fields.lines (fields : Fields) : List Bytes :=
  fields.flatMap fun field => field.values.map (Fields.line field.name)

namespace Fields

variable {fields : Fields} {name : String} {value : Bytes}

theorem render_eq (fields : Fields) : fields.render = fields.lines.flatMap (· ++ crlf) := by
  have hcrlf : crlf = [13, 10] := rfl
  simp only [render, lines, line, List.flatMap_assoc, List.flatMap_map, hcrlf]

theorem Plain.of_cons {field : Field} (h : Plain (field :: fields)) : Plain fields where
  nodup := (List.nodup_cons.mp h.nodup).2
  names other hother := h.names other (List.mem_cons_of_mem _ hother)
  values other hother := h.values other (List.mem_cons_of_mem _ hother)

theorem mem_insert {field : Field} (h : field ∈ fields.insert name value) :
    field ∈ fields ∨ field = ⟨name, [value]⟩ := by
  induction fields with
  | nil => exact .inr (List.mem_singleton.mp h)
  | cons first fields ih =>
    rw [insert] at h
    split at h
    · rcases List.mem_cons.mp h with rfl | hlater
      · exact .inr rfl
      · exact .inl (List.mem_cons_of_mem _ hlater)
    · rcases List.mem_cons.mp h with rfl | hlater
      · exact .inl List.mem_cons_self
      · exact (ih hlater).imp_left (List.mem_cons_of_mem _)

theorem map_name_insert (fields : Fields) (name : String) (value : Bytes) :
    (fields.insert name value).map Field.name =
      if name ∈ fields.map Field.name then fields.map Field.name
      else fields.map Field.name ++ [name] := by
  induction fields with
  | nil => rfl
  | cons field fields ih =>
    rw [insert]
    by_cases hname : field.name = name
    · simp [hname]
    · have hname' : ¬name = field.name := fun he => hname he.symm
      rw [if_neg hname, List.map_cons, List.map_cons, ih]
      split
      · next hmem => simp [hmem]
      · next hmem => simp [hmem, hname']

theorem Plain.insert (h : Plain fields) (hname : Name name)
    (hvalue : ∀ b ∈ value, isValueByte b = true) : Plain (fields.insert name value) where
  nodup := by
    rw [map_name_insert]
    split
    · exact h.nodup
    · next hmem => exact List.nodup_append_comm.mp (List.nodup_cons.mpr ⟨hmem, h.nodup⟩)
  names field hfield := by
    rcases mem_insert hfield with hfield | rfl
    · exact h.names field hfield
    · exact hname
  values field hfield := by
    rcases mem_insert hfield with hfield | rfl
    · exact h.values field hfield
    · simpa using hvalue

/-- Each name stands once, so the fields behind have no value for it. -/
theorem Plain.values_tail {field : Field} (h : Plain (field :: fields)) :
    fields.values field.name = [] := by
  have hnone : fields.find? (fun other => other.name == field.name) = none := by
    rw [List.find?_eq_none]
    rintro other hother he
    refine (List.nodup_cons.mp h.nodup).1 ?_
    rw [← beq_iff_eq.mp he]
    exact List.mem_map_of_mem hother
  rw [Fields.values, hnone]
  rfl

theorem values_insert (fields : Fields) (name : String) (value : Bytes) :
    (fields.insert name value).values name = [value] := by
  induction fields with
  | nil => simp [insert, values]
  | cons field fields ih =>
    rw [insert]
    split
    · rw [values_cons, if_pos rfl]
    · next hname => rw [values_cons, if_neg hname, ih]

theorem Plain.isLine (h : Plain fields) : ∀ line ∈ fields.lines, Resp.IsLine line ∧ line ≠ [] := by
  intro line hline
  obtain ⟨field, hfield, hline⟩ := List.mem_flatMap.mp hline
  obtain ⟨value, hvalue, rfl⟩ := List.mem_map.mp hline
  have htoken := (h.names field hfield).token
  refine ⟨Resp.isLine_of_not_mem ?_, ?_⟩
  · simp only [Fields.line, List.mem_append, not_or]
    refine ⟨⟨fun hcr => ?_, by decide +kernel⟩, fun hcr => ?_⟩
    · exact (Syntax.isTokenByte_facts cr (htoken.plain cr hcr)).2.1 rfl
    · exact absurd (h.values field hfield value hvalue cr hcr) (by decide)
  · obtain ⟨b, bs, hb, -⟩ := htoken.cons
    rw [Fields.line, hb]
    nofun

end Fields

namespace Client

open Fields (Plain)

variable {stream rest t : Bytes} {fields : Fields}

/-- The blanks around a value are no part of it. -/
def trimmed (value : Bytes) : Bytes := Syntax.trimEnd (value.dropWhile Syntax.isBlank)

theorem sameIgnoringCase_iff {name key : String} (hname : Fields.Name name)
    (hkey : Fields.Name key) :
    Text.Ascii.sameIgnoringCase (encode name) (encode key) = true ↔ name = key := by
  rw [Text.Ascii.sameIgnoringCase, hname.lower, hkey.lower, beq_iff_eq, Text.Utf8.encode_inj]

theorem line_eq (name : String) (value : Bytes) :
    Fields.line name value = encode name ++ Target.colon :: space :: value := by
  have hsep : encode ": " = [Target.colon, space] := rfl
  rw [Fields.line, hsep, List.append_assoc]
  rfl

/-- The first colon of a field line is the one behind the name. -/
theorem takeWhile_line {name : String} (hname : Fields.Name name) (value : Bytes) :
    (Fields.line name value).takeWhile (fun b => b != Target.colon) = encode name := by
  have hplain : ∀ b ∈ encode name, (b != Target.colon) = true := fun b hb => by
    have htoken := hname.token.plain b hb
    have hcolon : Syntax.isTokenByte Target.colon = false := by decide +kernel
    rw [bne_iff_ne]
    rintro rfl
    rw [hcolon] at htoken
    cases htoken
  rw [line_eq, List.takeWhile_append_of_pos hplain, List.takeWhile_cons_of_neg (by simp),
    List.append_nil]

theorem drop_line (name : String) (value : Bytes) :
    (Fields.line name value).drop (encode name).length = Target.colon :: space :: value := by
  rw [line_eq, List.drop_left]

theorem value?_line {name key : String} (hname : Fields.Name name) (hkey : Fields.Name key)
    (value : Bytes) :
    value? (encode key) (Fields.line name value) =
      if name = key then some (trimmed value) else none := by
  have hbehind : (Fields.line name value).drop ((encode name).length + 1) = space :: value := by
    rw [← List.drop_drop, drop_line]
    rfl
  rw [value?, takeWhile_line hname, hbehind, List.dropWhile_cons_of_pos rfl]
  simp only [sameIgnoringCase_iff hname hkey, trimmed]

/-- The lines of a name hold the values of its field. -/
theorem filterMap_lines {key : String} (h : Plain fields) (hkey : Fields.Name key) :
    fields.lines.filterMap (value? (encode key)) = (fields.values key).map trimmed := by
  have hline (name : String) (values : List Bytes) (hname : Fields.Name name) :
      (values.map (Fields.line name)).filterMap (value? (encode key)) =
        if name = key then values.map trimmed else [] := by
    rw [List.filterMap_map]
    simp only [Function.comp_def, value?_line hname hkey]
    split
    · exact congrFun (List.filterMap_eq_map (f := trimmed)) values
    · exact List.filterMap_eq_nil_iff.mpr fun _ _ => rfl
  unfold Fields.lines
  induction fields with
  | nil => rfl
  | cons field fields ih =>
    rw [List.flatMap_cons, List.filterMap_append, ih h.of_cons, Fields.values_cons,
      hline field.name field.values (h.names field List.mem_cons_self)]
    split
    · next hname => rw [← hname, h.values_tail, List.map_nil, List.append_nil]
    · rw [List.nil_append]

theorem isValueByte_digit {b : UInt8} (h : 0x30 ≤ b ∧ b ≤ 0x39) : isValueByte b = true := by
  have hlow : 0x20 ≤ b := UInt8.le_trans (by decide) h.1
  have hdelete : b ≠ 0x7F := digit_ne h (.inr (by decide))
  simp [isValueByte, hlow, hdelete]

theorem isValueByte_decimal (n : Nat) : ∀ b ∈ Text.Decimal.encode n, isValueByte b = true :=
  fun b hb => isValueByte_digit ((Text.Decimal.spells_encode n).digits b hb)

theorem trimmed_digits {value : Bytes} {n : Nat} (h : Text.Decimal.Spells value n) :
    trimmed value = value := by
  have hblank : ∀ b ∈ value, Syntax.isBlank b = false := by
    intro b hb
    have hspace : b ≠ space := digit_ne (h.digits b hb) (.inl (by decide))
    have htab : b ≠ Text.Ascii.tab := digit_ne (h.digits b hb) (.inl (by decide))
    simp [Syntax.isBlank, hspace, htab]
  have hdrop : value.dropWhile Syntax.isBlank = value := by
    cases hv : value with
    | nil => rfl
    | cons b bs =>
      have hb := hblank b (by rw [hv]; exact List.mem_cons_self)
      exact List.dropWhile_cons_of_neg (by rw [hb]; simp)
  rw [trimmed, hdrop]
  exact Syntax.trimEnd_value ⟨fun b hb => isValueByte_digit (h.digits b hb),
    fun b hb => hblank b (List.mem_of_mem_head? hb),
    fun b hb => hblank b (List.mem_of_mem_getLast? hb)⟩

theorem contentLength_name : Fields.Name "content-length" := by decide +kernel

/-- The length that is announced is read, whatever other fields there are. -/
theorem length?_insert (h : Plain fields) (n : Nat) :
    length? (fields.insert "content-length" (Text.Decimal.encode n)).lines = some n := by
  have hspells := Text.Decimal.spells_encode n
  have hlines := filterMap_lines (h.insert contentLength_name (isValueByte_decimal n))
    contentLength_name
  rw [Fields.values_insert, List.map_singleton, trimmed_digits hspells] at hlines
  rw [length?, hlines]
  exact number?_spells hspells

/-! ## Responses -/

/-- The header section of a response that is sent is read line by line. -/
theorem header?_render (head : ReplyHead) (h : Plain head.fields) (length : Nat) (t : Bytes) :
    header? (head.render length ++ t) =
      some (statusText head.status ::
        (head.fields.insert "content-length" (Text.Decimal.encode length)).lines, t) := by
  have hfields := h.insert contentLength_name (isValueByte_decimal length)
  have hlines := header?_lines (List.forall_mem_cons.mpr
    ⟨⟨isLine_statusText head.status, statusText_ne_nil head.status⟩, hfields.isLine⟩) t
  rw [← hlines, ReplyHead.render, statusLine, Fields.render_eq, List.flatMap_cons, statusText]

/-- What a client reads of a head and a body of the length announced. A status without a body ends
the response with its header section. -/
theorem response?_render (head : ReplyHead) (h : Plain head.fields) (body t : Bytes) :
    response? (head.render body.length ++ (body ++ t)) =
      if isBodiless head.status.code then some (⟨head.status.code, []⟩, body ++ t)
      else some (⟨head.status.code, body⟩, t) := by
  rw [response?, header?_render head h]
  simp only [code?_statusText, Option.bind_eq_bind, Option.bind_some]
  split
  · rfl
  · have hlong : ¬(body ++ t).length < body.length := by rw [List.length_append]; omega
    rw [length?_insert h, Option.bind_some, if_neg hlong, List.take_left, List.drop_left]

theorem response?_shorter {r : Response} (h : response? stream = some (r, rest)) :
    rest.length < stream.length := by
  unfold response? at h
  split at h
  · next status fields behind hheader =>
    have hlt := (header?_some hheader).1
    obtain ⟨code, -, hcode⟩ := Option.bind_eq_some_iff.mp h
    split at hcode
    · cases hcode
      exact hlt
    · obtain ⟨length, -, hlength⟩ := Option.bind_eq_some_iff.mp hcode
      split at hlength
      · cases hlength
      · cases hlength
        rw [List.length_drop]
        omega
  · cases h

/-- All responses of a stream, if it is one response behind the other. -/
def responses (stream : Bytes) : Option (List Response) :=
  if stream = [] then some []
  else
    match _hfirst : response? stream with
    | some (first, rest) => (responses rest).map (first :: ·)
    | none => none
termination_by stream.length
decreasing_by exact response?_shorter _hfirst

/-- The responses that answer a request. Those with a status below 200 announce that one is still
to come. -/
def finals (stream : Bytes) : Option (List Response) :=
  (responses stream).map (List.filter fun r => 200 ≤ r.code)

theorem finals_nil : finals [] = some [] := by
  rw [finals, responses, if_pos rfl]
  rfl

theorem finals_cons {first : Response} (h : response? stream = some (first, rest)) :
    finals stream =
      if 200 ≤ first.code then (finals rest).map (first :: ·) else finals rest := by
  have hne : stream ≠ [] := by
    rintro rfl
    exact absurd (response?_shorter h) (Nat.not_lt_zero _)
  have hstream : responses stream = (responses rest).map (first :: ·) := by
    rw [responses, if_neg hne]
    split
    · next heq => rw [h] at heq; cases heq; rfl
    · next heq => rw [h] at heq; cases heq
  unfold finals
  rw [hstream, Option.map_map]
  split
  · next hcode => rw [Option.map_map]; simp [Function.comp_def, hcode]
  · next hcode => simp [Function.comp_def, hcode]

/-- What does not start with the protocol is no response. -/
theorem finals_of_not_prefix (hne : stream ≠ []) (h : ¬ protocol <+: stream) :
    finals stream = none := by
  have hnone : response? stream = none := by
    unfold response?
    split
    · next status fields behind hheader =>
      have hstatus := (header?_some hheader).2 status rfl
      have hcode : code? status = none :=
        if_neg fun hp => h ((List.isPrefixOf_iff_prefix.mp hp).trans hstatus)
      rw [hcode]
      rfl
    · rfl
  rw [finals, responses, if_neg hne]
  split
  · next heq => rw [hnone] at heq; cases heq
  · rfl

/-! ## Replies and signs -/

/-- The field of a text, where the text makes a value, and else none. -/
theorem mem_optionalField {name : String} {text : Option String} {field : Field} :
    field ∈ Reply.optionalField name text ↔
      ∃ t, text = some t ∧ (∀ b ∈ encode t, isValueByte b = true) ∧ field = ⟨name, [encode t]⟩ := by
  unfold Reply.optionalField Reply.valueOf?
  cases text with
  | none => simp
  | some t =>
    by_cases hvalue : (encode t).all isValueByte = true
    · simp only [Option.bind_some, if_pos hvalue, List.mem_singleton, Option.some.injEq,
        exists_eq_left']
      exact ⟨fun h => ⟨List.all_eq_true.mp hvalue, h⟩, And.right⟩
    · simp only [Option.bind_some, if_neg hvalue, List.not_mem_nil, Option.some.injEq,
        exists_eq_left', false_iff]
      exact fun h => hvalue (List.all_eq_true.mpr h.1)

theorem optionalField_sublist (name : String) (text : Option String) :
    ((Reply.optionalField name text).map Field.name).Sublist [name] := by
  unfold Reply.optionalField
  split
  · exact List.Sublist.refl _
  · exact List.nil_sublist _

/-- The fields a reply asks for are some of three, in this order. -/
theorem fields_sublist (r : Reply) : (r.fields.map Field.name).Sublist
    ["content-type", "allow", "access-control-allow-origin"] := by
  have hcors : ((if r.cors then
      [⟨"access-control-allow-origin", [encode "*"]⟩] else [] : Fields).map Field.name).Sublist
        ["access-control-allow-origin"] := by
    split
    · exact List.Sublist.refl _
    · exact List.nil_sublist _
  rw [Reply.fields, List.map_append, List.map_append]
  exact ((optionalField_sublist _ r.contentType).append
    (optionalField_sublist _ r.allow)).append hcors

/-- Each field a reply asks for has one value. -/
theorem mem_fields {r : Reply} {field : Field} (h : field ∈ r.fields) :
    ∃ value, field.values = [value] ∧ ∀ b ∈ value, isValueByte b = true := by
  rcases List.mem_append.mp h with h | h
  · rcases List.mem_append.mp h with h | h
    · obtain ⟨t, -, hvalue, rfl⟩ := mem_optionalField.mp h
      exact ⟨encode t, rfl, hvalue⟩
    · obtain ⟨t, -, hvalue, rfl⟩ := mem_optionalField.mp h
      exact ⟨encode t, rfl, hvalue⟩
  · split at h
    · rw [List.mem_singleton.mp h]
      exact ⟨encode "*", rfl, by decide +kernel⟩
    · cases h

/-- The fields a reply asks for are kept as they should be. -/
theorem fields_plain (r : Reply) : Plain r.fields where
  nodup := (fields_sublist r).nodup (by decide)
  names field hfield := by
    have hall : ∀ name ∈ ["content-type", "allow", "access-control-allow-origin"],
        Fields.Name name := by decide +kernel
    exact hall _ ((fields_sublist r).subset (List.mem_map_of_mem hfield))
  values field hfield := by
    obtain ⟨value, hvalues, hvalue⟩ := mem_fields hfield
    rw [hvalues]
    simpa using hvalue

/-- A reply whose status has a body is read back, and nothing behind it is touched. -/
theorem finals_render {r : Reply} (h : isBodiless r.status.code = false) (t : Bytes) :
    finals (r.render ++ t) = (finals t).map (Response.of r :: ·) := by
  have hread := response?_render r.head (fields_plain r) r.body t
  have hfinal : 200 ≤ r.status.code := by
    simp only [isBodiless, Bool.or_eq_false_iff, decide_eq_false_iff_not] at h
    omega
  rw [show r.head.status = r.status from rfl, h, if_neg Bool.false_ne_true,
    ← List.append_assoc] at hread
  rw [Reply.render, finals_cons hread, if_pos hfinal]
  rfl

/-- The body of a reply whose status has none is taken for what follows the reply. -/
theorem finals_render_bodiless {r : Reply} (h : isBodiless r.status.code = true)
    (hfinal : 200 ≤ r.status.code) (t : Bytes) :
    finals (r.render ++ t) = (finals (r.body ++ t)).map (⟨r.status.code, []⟩ :: ·) := by
  have hread := response?_render r.head (fields_plain r) r.body t
  rw [show r.head.status = r.status from rfl, h, if_pos rfl, ← List.append_assoc] at hread
  rw [Reply.render, finals_cons hread, if_pos hfinal]

/-- The sign to go on answers no request. -/
theorem finals_interim (t : Bytes) : finals (Connection.interim ++ t) = finals t := by
  let line := encode "HTTP/1.1 100 Continue"
  have hinterim : Connection.interim = [line].flatMap (· ++ crlf) ++ crlf := by decide +kernel
  have hline : ∀ l ∈ [line], Resp.IsLine l ∧ l ≠ [] := by
    rw [List.forall_mem_singleton]
    exact ⟨Resp.isLine_of_not_mem (by decide +kernel), by decide +kernel⟩
  have hcode : code? line = some 100 := by decide +kernel
  have hread : response? (Connection.interim ++ t) = some (⟨100, []⟩, t) := by
    rw [response?, hinterim, header?_lines hline]
    simp only [hcode]
    rfl
  rw [finals_cons hread, if_neg (by decide)]

end Client

end Depot.Http
