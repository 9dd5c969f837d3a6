import Depot.Proofs.Objects.Errands
import Depot.Proofs.Token

/-! # One name for reading and writing

A reader's text is checked at once; a writer's has its length checked, then the body is looked at,
and then the digits. With a body that can be stored both let the same texts through, those that name
a token, and whatever they ask of the store is about the key of that token (`names_agree`). -/

namespace Depot.Objects

open Http (Request Status)
open Resp (Command)
open Text.Utf8 (encode)
open Text.Ascii (sameIgnoringCase)

variable {σ σ' : Type} [Store σ] [Store σ'] {o : Options} {d : Digest} {flag : StopFlag}
  {suffix : String} {r : Request} {t : Token}

/-- The commands that a request sends. -/
def sent (d : Digest) (o : Options) (flag : StopFlag) (suffix : String) (r : Request)
    (s : Service σ) : List Command :=
  ((Endpoint.Object.endpoint d o flag suffix r).run s.taped).2.store.tape.map Prod.fst

/-- The request is not turned away as malformed. -/
def Accepted (d : Digest) (o : Options) (flag : StopFlag) (suffix : String) (r : Request)
    (s : Service σ) : Prop :=
  ((Endpoint.Object.endpoint d o flag suffix r).run s).1.reply.status ≠ .badRequest

/-- A request that reads, or writes what can be stored. -/
inductive Usable (r : Request) : Prop
  | read : r.method = .get → Usable r
  | write : r.method = .post → 5 ≤ r.body.length → Z85.isText r.body = true → Usable r

theorem token?_eq_none_iff : token? d suffix = none ↔ ∀ t, Token.parse d suffix ≠ .ok t := by
  constructor
  · intro hnone t ht
    obtain ⟨e, he⟩ := parse_error hnone
    rw [he] at ht
    cases ht
  · intro hparse
    cases htoken : token? d suffix with
    | none => rfl
    | some token => exact absurd (parse_eq htoken) (hparse ⟨token⟩)

/-- The length that a writer has checked first is one of a token's. -/
theorem token?_of_size (h : suffix.utf8ByteSize ≠ d.tokenLength) : token? d suffix = none :=
  if_neg fun hboth => h hboth.1

/-- Where a text names no token, a request is turned away; otherwise the token is what its errand is
about. -/
theorem errand_cases (d : Digest) (suffix : String) (hup : flag.isRaised = false)
    (h : Usable r) :
    match token? d suffix with
    | none => ∃ text, Errand.of d flag suffix r = .none (.plain .badRequest text)
    | some token => Errand.of d flag suffix r = .fetch token ∨
        Errand.of d flag suffix r = .put token r.body := by
  unfold Errand.of
  rw [if_neg (by simp [hup])]
  cases h with
  | read hget =>
    simp only [hget]
    cases token? d suffix with
    | none => exact ⟨_, rfl⟩
    | some token => exact .inl rfl
  | write hpost hlength htext =>
    simp only [hpost, htext, Nat.not_lt.mpr hlength, if_false, Bool.not_true, Bool.false_eq_true]
    by_cases hsize : suffix.utf8ByteSize ≠ d.tokenLength
    · rw [token?_of_size hsize, if_pos hsize]
      exact ⟨_, rfl⟩
    · rw [if_neg hsize]
      cases token? d suffix with
      | none => exact ⟨_, rfl⟩
      | some token => exact .inr rfl

/-- What is answered with the store's help is never that a request is malformed. -/
theorem fetched_status (a : Answer) : (fetched a).reply.status ≠ .badRequest := by
  unfold fetched
  split
  · show Status.ok ≠ .badRequest
    decide
  · decide
  · decide

theorem stored_status (a : Answer) : (stored a).reply.status ≠ .badRequest := by
  unfold stored
  split
  · split <;> decide
  all_goals decide

/-- A text that names a token is let through, and the store is asked about its key only. -/
theorem accepted_of_parse (hup : flag.isRaised = false) (h : Usable r)
    (ht : Token.parse d suffix = .ok t) (s : Service σ) :
    Accepted d o flag suffix r s ∧ sent d o flag suffix r s ≠ [] ∧
      ∀ command ∈ sent d o flag suffix r s, command.args.head? = some t.key := by
  have hyields := endpoint_yields d o flag suffix r s
  have herrand := errand_cases d suffix hup h
  cases htoken : token? d suffix with
  | none => exact absurd ht (token?_eq_none_iff.mp htoken t)
  | some token =>
    obtain rfl : (⟨token⟩ : Token) = t := by
      rw [parse_eq htoken] at ht
      exact Except.ok.inj ht
    rw [htoken] at herrand
    unfold Accepted sent
    rcases herrand with hfetch | hput
    · rw [hfetch] at hyields
      obtain ⟨answer, burnt, houtcome, htape⟩ := hyields
      rw [houtcome, htape]
      refine ⟨fetched_status answer, by simp, fun command hcommand => ?_⟩
      rw [List.map_cons, List.mem_cons] at hcommand
      rcases hcommand with rfl | hburn
      · rfl
      · split at hburn
        · obtain rfl := List.mem_singleton.mp hburn
          rfl
        · cases hburn
    · rw [hput] at hyields
      obtain ⟨answer, houtcome, htape⟩ := hyields
      rw [houtcome, htape]
      refine ⟨stored_status answer, by simp, fun command hcommand => ?_⟩
      obtain rfl := List.mem_singleton.mp hcommand
      rfl

/-- A text that names none is turned away before the store is asked. -/
theorem refused_of_parse (hup : flag.isRaised = false) (h : Usable r)
    (hparse : ∀ t, Token.parse d suffix ≠ .ok t) (s : Service σ) :
    ¬ Accepted d o flag suffix r s ∧ sent d o flag suffix r s = [] := by
  have hyields := endpoint_yields d o flag suffix r s
  have herrand := errand_cases d suffix hup h
  rw [token?_eq_none_iff.mpr hparse] at herrand
  obtain ⟨text, hnone⟩ := herrand
  rw [hnone] at hyields
  obtain ⟨htape, houtcome⟩ := hyields
  unfold Accepted sent
  rw [houtcome, htape]
  exact ⟨fun hstatus => hstatus rfl, rfl⟩

theorem accepted_iff (d : Digest) (o : Options) (suffix : String) (hup : flag.isRaised = false)
    (h : Usable r) (s : Service σ) :
    Accepted d o flag suffix r s ↔ ∃ t, Token.parse d suffix = .ok t := by
  constructor
  · intro haccepted
    by_contra hparse
    exact (refused_of_parse hup h (not_exists.mp hparse) s).1 haccepted
  · rintro ⟨t, ht⟩
    exact (accepted_of_parse hup h ht s).1

/-- **Names are canonical, for readers and for writers.** A text names a token of a digest just if
its bytes are hexadecimal digits, as many as the digest has; for another number of bytes it is
refused with that number, whatever characters they make up. Texts name the same token just if they
differ in the case of letters only, a token names itself, and no text names tokens of two digests.
On the route of a digest, a writer with a body that can be stored has the same texts accepted as a
reader has, which are those that name a token. What either asks of the store is about the key of
that token, and who is not accepted asks nothing. -/
theorem names_agree :
    (∀ d text, (∃ t, Token.parse d text = .ok t) ↔ Token.Names d text) ∧
    (∀ d text, (encode text).length ≠ d.tokenLength →
      Token.parse d text = .error (.length d.tokenLength (encode text).length)) ∧
    (∀ d d' text text' t t', Token.parse d text = .ok t → Token.parse d' text' = .ok t' →
      (t = t' ↔ sameIgnoringCase (encode text) (encode text') = true)) ∧
    (∀ d text t, Token.parse d text = .ok t → Token.parse d t.text = .ok t) ∧
    (∀ d d' text t t', Token.parse d text = .ok t → Token.parse d' text = .ok t' → d = d') ∧
    ∀ (d : Digest) (o : Options) (flag : StopFlag) (suffix : String) (reader writer : Request)
      (s : Service σ) (s' : Service σ'), flag.isRaised = false → reader.method = .get →
      writer.method = .post → 5 ≤ writer.body.length → Z85.isText writer.body = true →
      (Accepted d o flag suffix writer s' ↔ Accepted d o flag suffix reader s) ∧
      (Accepted d o flag suffix reader s ↔ ∃ t, Token.parse d suffix = .ok t) ∧
      (∀ t, Token.parse d suffix = .ok t →
        sent d o flag suffix reader s ≠ [] ∧ sent d o flag suffix writer s' ≠ [] ∧
        ∀ command ∈ sent d o flag suffix reader s ++ sent d o flag suffix writer s',
          command.args.head? = some t.key) ∧
      (¬ Accepted d o flag suffix reader s →
        sent d o flag suffix reader s = [] ∧ sent d o flag suffix writer s' = []) := by
  refine ⟨fun _ _ => Token.exists_parse_iff, fun _ _ => Token.parse_of_length,
    fun _ _ _ _ _ _ => Token.eq_iff_sameIgnoringCase, fun _ _ _ => Token.parse_text,
    fun _ _ _ _ _ => Token.digest_unique, ?_⟩
  intro d o flag suffix reader writer s s' hup hget hpost hlength htext
  have hreads : Usable reader := .read hget
  have hwrites : Usable writer := .write hpost hlength htext
  have hreader := accepted_iff d o suffix hup hreads s
  have hwriter := accepted_iff d o suffix hup hwrites s'
  refine ⟨hwriter.trans hreader.symm, hreader, fun t ht => ?_, fun hrefused => ?_⟩
  · obtain ⟨-, hread, hreadKeys⟩ := accepted_of_parse (o := o) hup hreads ht s
    obtain ⟨-, hwritten, hwrittenKeys⟩ := accepted_of_parse (o := o) hup hwrites ht s'
    refine ⟨hread, hwritten, fun command hcommand => ?_⟩
    rcases List.mem_append.mp hcommand with hin | hin
    · exact hreadKeys command hin
    · exact hwrittenKeys command hin
  · have hnone := not_exists.mp (mt hreader.mpr hrefused)
    exact ⟨(refused_of_parse hup hreads hnone s).2, (refused_of_parse hup hwrites hnone s').2⟩

/-- Two spellings of a token, of which a writer uses the one in capitals, and a text of as many
characters that takes a byte more. -/
theorem names_agree_spellings :
    let capitals := "9E107D9D372BB6826BD81D3542A419D6"
    let wide := "9é107d9d372bb6826bd81d3542a419d6"
    let token : Token := ⟨"9e107d9d372bb6826bd81d3542a419d6"⟩
    let o : Options := { readOnce := true }
    let reader : Request := ⟨.v4 10 0 0 7, .get, "", none, none, 0, []⟩
    let writer : Request := ⟨.v4 10 0 0 7, .post, "", none, none, 5, encode "Hello"⟩
    let s : Service Canned := { store := { answers := [.ok (.bulk (encode "Hello"))] } }
    Token.parse .md5 capitals = .ok token ∧
      sameIgnoringCase (encode capitals) (encode token.text) = true ∧
      Token.parse .md5 token.text = .ok token ∧
      5 ≤ writer.body.length ∧ Z85.isText writer.body = true ∧
      Accepted .md5 o {} capitals writer s ∧ Accepted .md5 o {} capitals reader s ∧
      (∀ command ∈ sent .md5 o {} capitals reader s ++ sent .md5 o {} capitals writer s,
        command.args.head? = some token.key) ∧
      (encode wide).length ≠ Digest.md5.tokenLength ∧ ¬ Accepted .md5 o {} wide writer s := by
  intro capitals wide token o reader writer s
  obtain ⟨-, hsize, hsame, hself, -, hboth⟩ := @names_agree Canned Canned _ _
  have hcapitals : Token.parse .md5 capitals = .ok token := by
    have hnames : Token.Names .md5 capitals := ⟨by decide +kernel, by decide +kernel⟩
    exact Token.parse_eq_ok_iff.mpr ⟨hnames, by decide +kernel⟩
  have htoken := hself .md5 capitals token hcapitals
  have hlength : 5 ≤ writer.body.length := by decide
  have htext : Z85.isText writer.body = true := by decide +kernel
  have hwide : (encode wide).length ≠ Digest.md5.tokenLength := by decide +kernel
  obtain ⟨hwriter, hreader, hkeys, -⟩ :=
    hboth .md5 o {} capitals reader writer s s rfl rfl rfl hlength htext
  obtain ⟨hwideWriter, hwideReader, -, -⟩ :=
    hboth .md5 o {} wide reader writer s s rfl rfl rfl hlength htext
  have hread := hreader.mpr ⟨token, hcapitals⟩
  refine ⟨hcapitals, (hsame _ _ _ _ _ _ hcapitals htoken).mp rfl, htoken, hlength, htext,
    hwriter.mpr hread, hread, (hkeys token hcapitals).2.2, hwide, fun haccepted => ?_⟩
  obtain ⟨t, ht⟩ := (hwideWriter.trans hwideReader).mp haccepted
  rw [hsize _ _ hwide] at ht
  cases ht

end Depot.Objects
