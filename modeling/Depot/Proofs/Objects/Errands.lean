import Mathlib.Data.List.Forall2
import Depot.Endpoint.Object
import Depot.Proofs.Objects.Shelf
import Depot.Proofs.Store.Tape
import Depot.Store.Canned

/-! # What the object endpoints want of the store

A request on an object is settled by its checks alone (`Errand.of`): it is answered at once, or one
object is fetched, or one is stored. What an errand does next is settled by the answers so far
(`Errand.next`), whatever store gives them, and every dialogue of an object endpoint keeps to its
errand (`endpoint_does`). So the commands and the reply can be told from the kinds of the answers,
and error texts of the store do not get out (`run_errand`). -/

namespace Depot.Objects

open Http (Request)
open Resp (Command Value)
open Text.Utf8 (encode)
open Endpoint.Object (fetchCommand burnCommand putCommand)

/-- What a request wants of the store. -/
inductive Errand where
  /-- Nothing: it is answered at once. -/
  | none (outcome : Outcome)
  | fetch (token : String)
  | put (token : String) (body : Bytes)

/-- The errand of a request, by its checks in order. -/
def Errand.of (d : Digest) (flag : StopFlag) (suffix : String) (r : Request) : Errand :=
  if flag.isRaised then .none .goingDown
  else
    match r.method with
    | .get =>
      match token? d suffix with
      | some token => .fetch token
      | Option.none => .none (.plain .badRequest "malformed request")
    | .post =>
      if suffix.utf8ByteSize ≠ d.tokenLength then
        .none (.plain .badRequest "malformed request - invalid url")
      else if r.body.length < 5 then
        .none (.plain .badRequest "malformed request - invalid length")
      else if !Z85.isText r.body then
        .none (.plain .badRequest "malformed request - invalid Z85")
      else
        match token? d suffix with
        | some token => .put token r.body
        | Option.none => .none (.plain .badRequest "malformed request - invalid token")
    | _ => .none (.wrongMethod "GET, POST")

def isBulk : Answer → Bool
  | .ok (.bulk _) => true
  | _ => false

/-- The reply to a reader, by the kind of answer. -/
def fetched : Answer → Outcome
  | .ok (.bulk value) => .plain .ok (Text.Utf8.lossy value)
  | .ok _ => .plain .notFound "not found"
  | .error _ => .plain .serviceUnavailable "service unavailable"

/-- The reply to a writer, by the kind of answer. -/
def stored : Answer → Outcome
  | .ok (.status text) =>
    if ['O', 'K'] <+: text.toList then .plain .ok "ok"
    else .plain .internalServerError "internal server error"
  | .ok .nil => .plain .notModified "object immutable - not modified"
  | .ok (.failure _) => .plain .expectationFailed "redis reply error"
  | .ok _ => .plain .internalServerError "internal server error"
  | .error (.garbled _) => .plain .internalServerError "internal server error"
  | .error _ => .plain .serviceUnavailable "service unavailable"

/-- What is done next after some answers: a command is sent, or the request answered. -/
def Errand.next (o : Options) : Errand → List Answer → Command ⊕ Outcome
  | .none outcome, _ => .inr outcome
  | .fetch token, [] => .inl (fetchCommand ⟨token⟩)
  | .fetch token, [answer] =>
    if isBulk answer && o.readOnce then .inl (burnCommand ⟨token⟩) else .inr (fetched answer)
  | .fetch _, answer :: _ => .inr (fetched answer)
  | .put token body, [] => .inl (putCommand o ⟨token⟩ body)
  | .put _ _, answer :: _ => .inr (stored answer)

/-! ## The endpoints keep to their errands -/

variable {o : Options} {d : Digest} {suffix token : String} {r : Request} {e : Errand}
  {heard : List Answer}

/-- Whatever a dialogue hears, it does what the errand does next. -/
def Does (o : Options) (e : Errand) (x : Dialogue Outcome) (heard : List Answer) : Prop :=
  x.Heeds (fun heard command => e.next o heard = .inl command)
    (fun heard outcome => e.next o heard = .inr outcome) heard

open Dialogue (heeds_report heeds_send)

/-- Most dialogues end with a report and an answer. -/
theorem reply_does (event : Event) {outcome : Outcome} (h : e.next o heard = .inr outcome) :
    Does o e (do Dialogue.report event; return outcome) heard :=
  heeds_report event h

/-- What becomes of the deletion changes nothing for the reader. -/
theorem burn_does (d : Digest) (value : Bytes) (event : Event) (hburn : o.readOnce = true) :
    Does o (.fetch token)
      (do
        Endpoint.Object.burn d ⟨token⟩
        Dialogue.report event
        return .plain .ok (Text.Utf8.lossy value)) [.ok (.bulk value)] := by
  refine heeds_send (by simp [Errand.next, isBulk, hburn]) fun answer => ?_
  cases answer with
  | ok _ => exact reply_does _ rfl
  | error _ => exact heeds_report _ (reply_does _ rfl)

theorem fetch_does (h : token? d suffix = some token) :
    Does o (.fetch token) (Endpoint.Object.get d o suffix r) [] := by
  unfold Endpoint.Object.get
  simp only [parse_eq h]
  refine heeds_send rfl fun answer => ?_
  rw [List.nil_append]
  split
  · next value =>
    split
    · next hburn => exact burn_does d value _ hburn
    · next hkeep => exact reply_does _ (by simp [Errand.next, isBulk, hkeep, fetched])
  · next other hother =>
    have hnext : (Errand.fetch token).next o [.ok other] =
        .inr (.plain .notFound "not found") := by
      cases other with
      | bulk value => exact absurd rfl (hother value)
      | _ => rfl
    split
    · exact heeds_report _ (reply_does _ hnext)
    · exact reply_does _ hnext
  · exact reply_does _ rfl

theorem isOk_iff (text : String) : (Value.status text).isOk = true ↔ ['O', 'K'] <+: text.toList :=
  List.isPrefixOf_iff_prefix

theorem put_does (d : Digest) (r : Request) :
    Does o (.put token r.body) (Endpoint.Object.store d o suffix r ⟨token⟩) [] := by
  refine heeds_send rfl fun answer => ?_
  rw [List.nil_append]
  split
  · exact reply_does _ rfl
  · exact reply_does _ rfl
  · next value hnil hfailure =>
    -- what is left is judged by its text, and only a status has one that counts
    split
    · next hok =>
      refine reply_does _ ?_
      cases value with
      | status text => exact congrArg Sum.inr (if_pos ((isOk_iff text).mp hok))
      | _ => cases hok
    · next hok =>
      refine reply_does _ ?_
      cases value with
      | status text => exact congrArg Sum.inr (if_neg (mt (isOk_iff text).mpr hok))
      | failure text => exact absurd rfl (hfailure text)
      | nil => exact absurd rfl hnil
      | _ => rfl
  · next cause =>
    split
    · next hlost =>
      refine reply_does _ ?_
      cases cause with
      | garbled fault => cases hlost
      | _ => rfl
    · next hanswered =>
      refine reply_does _ ?_
      cases cause with
      | garbled fault => rfl
      | _ => exact absurd rfl hanswered

theorem post_does (o : Options) (d : Digest) {flag : StopFlag} (suffix : String) {r : Request}
    (hup : flag.isRaised = false) (hpost : r.method = .post) :
    Does o (.of d flag suffix r) (Endpoint.Object.post d o suffix r) [] := by
  unfold Endpoint.Object.post Endpoint.Object.postFault? Endpoint.Object.minBody Errand.of
  simp only [hup, hpost, Bool.false_eq_true, if_false]
  split
  · exact reply_does _ rfl
  split
  · exact reply_does _ rfl
  split
  · exact reply_does _ rfl
  cases htoken : token? d suffix with
  | none =>
    obtain ⟨e, he⟩ := parse_error htoken
    simp only [he]
    exact reply_does _ rfl
  | some token =>
    simp only [parse_eq htoken]
    exact put_does d r

theorem get_does (o : Options) (d : Digest) {flag : StopFlag} (suffix : String) {r : Request}
    (hup : flag.isRaised = false) (hget : r.method = .get) :
    Does o (.of d flag suffix r) (Endpoint.Object.get d o suffix r) [] := by
  unfold Errand.of
  simp only [hup, hget, Bool.false_eq_true, if_false]
  cases htoken : token? d suffix with
  | none =>
    obtain ⟨e, he⟩ := parse_error htoken
    unfold Endpoint.Object.get
    simp only [he]
    exact reply_does _ rfl
  | some token => exact fetch_does htoken

/-- An endpoint does the errand of its request. -/
theorem endpoint_does (d : Digest) (o : Options) (flag : StopFlag) (suffix : String) (r : Request) :
    Does o (.of d flag suffix r) (Endpoint.Object.endpoint d o flag suffix r) [] := by
  unfold Endpoint.Object.endpoint
  cases hup : flag.isRaised with
  | true =>
    unfold Errand.of
    rw [if_pos rfl, if_pos hup]
    exact rfl
  | false =>
    rw [if_neg Bool.false_ne_true]
    cases hmethod : r.method with
    | get => exact get_does o d suffix hup hmethod
    | post => exact post_does o d suffix hup hmethod
    | _ =>
      have hother : Errand.of d flag suffix r = .none (.wrongMethod "GET, POST") := by
        unfold Errand.of
        simp only [hup, hmethod, Bool.false_eq_true, if_false]
      rw [hother]
      exact reply_does _ rfl

/-! ## What is on the tape -/

/-- A tape and a reply that an errand may come to after some answers. -/
abbrev Errand.Told (o : Options) (e : Errand) :
    List Answer → List (Command × Answer) → Outcome → Prop :=
  Dialogue.Told (fun heard command => e.next o heard = .inl command)
    fun heard outcome => e.next o heard = .inr outcome

variable {tape : List (Command × Answer)} {outcome refusal : Outcome} {body : Bytes}

theorem told_none (h : (Errand.none refusal).Told o [] tape outcome) :
    tape = [] ∧ outcome = refusal := by
  cases h with
  | done hend => exact ⟨rfl, (Sum.inr.inj hend).symm⟩
  | ask hask => exact absurd hask Sum.inr_ne_inl

theorem told_put (h : (Errand.put token body).Told o [] tape outcome) :
    ∃ answer, outcome = stored answer ∧ tape = [(putCommand o ⟨token⟩ body, answer)] := by
  cases h with
  | done hend => exact absurd hend Sum.inl_ne_inr
  | @ask _ command answer _ _ hask hrest =>
    obtain rfl := Sum.inl.inj hask
    cases hrest with
    | done hend => exact ⟨answer, (Sum.inr.inj hend).symm, rfl⟩
    | ask hask => exact absurd hask Sum.inr_ne_inl

/-- A reader is answered by what was read first, and only what was read is burnt. -/
theorem told_fetch (h : (Errand.fetch token).Told o [] tape outcome) :
    ∃ answer burnt, outcome = fetched answer ∧
      tape = (fetchCommand ⟨token⟩, answer) ::
        if isBulk answer && o.readOnce then [(burnCommand ⟨token⟩, burnt)] else [] := by
  cases h with
  | done hend => exact absurd hend Sum.inl_ne_inr
  | @ask _ command answer _ _ hask hrest =>
    obtain rfl := Sum.inl.inj hask
    have hnext : (Errand.fetch token).next o [answer] =
        if isBulk answer && o.readOnce then .inl (burnCommand ⟨token⟩) else .inr (fetched answer) :=
      rfl
    -- the errand is at an end after the first answer, or one deletion away from it
    by_cases hburn : (isBulk answer && o.readOnce) = true
    · rw [if_pos hburn] at hnext
      cases hrest with
      | done hend => exact absurd (hnext.symm.trans hend) Sum.inl_ne_inr
      | @ask _ command burnt _ _ hask hlast =>
        obtain rfl := Sum.inl.inj (hnext.symm.trans hask)
        cases hlast with
        | done hend => exact ⟨answer, burnt, (Sum.inr.inj hend).symm, by rw [if_pos hburn]⟩
        | ask hask => exact absurd hask Sum.inr_ne_inl
    · rw [if_neg hburn] at hnext
      cases hrest with
      | done hend =>
        exact ⟨answer, answer, (Sum.inr.inj (hnext.symm.trans hend)).symm, by rw [if_neg hburn]⟩
      | ask hask => exact absurd (hnext.symm.trans hask) Sum.inr_ne_inl

/-! ## Error texts stay inside -/

/-- Replies of a store that differ in error texts only. -/
inductive AlikeValues : Value → Value → Prop
  | refl (v : Value) : AlikeValues v v
  | failure (text text' : String) : AlikeValues (.failure text) (.failure text')
  | array {items items' : List Value} :
      List.Forall₂ AlikeValues items items' → AlikeValues (.array items) (.array items')

/-- Answers that differ in error texts only. -/
inductive Alike : Answer → Answer → Prop
  | ok {v v' : Value} : AlikeValues v v' → Alike (.ok v) (.ok v')
  | noLink : Alike (.error .noLink) (.error .noLink)
  | broken (cause cause' : Fault) : Alike (.error (.broken cause)) (.error (.broken cause'))
  | garbled (cause cause' : Resp.Fault) :
      Alike (.error (.garbled cause)) (.error (.garbled cause'))

theorem Alike.replies {a b : Answer} (h : Alike a b) :
    fetched a = fetched b ∧ stored a = stored b := by
  cases h with
  | ok hvalues => cases hvalues <;> exact ⟨rfl, rfl⟩
  | noLink => exact ⟨rfl, rfl⟩
  | broken => exact ⟨rfl, rfl⟩
  | garbled => exact ⟨rfl, rfl⟩

/-- What becomes of an errand: the commands on the tape and the reply. -/
def Errand.Yields (o : Options) (tape : List (Command × Answer)) (outcome : Outcome) :
    Errand → Prop
  | .none refusal => tape = [] ∧ outcome = refusal
  | .fetch token => ∃ answer burnt, outcome = fetched answer ∧
      tape = (⟨"GET", [encode token]⟩, answer) ::
        if isBulk answer && o.readOnce then [(⟨"DEL", [encode token]⟩, burnt)] else []
  | .put token body => ∃ answer, outcome = stored answer ∧
      tape = [(⟨"SET", [encode token, body] ++
        (if 0 < o.lifetime then [encode "EX", Text.Decimal.encode o.lifetime] else []) ++
        if o.writeOnce then [encode "NX"] else []⟩, answer)]

variable {σ σ' : Type} [Store σ] [Store σ']

/-- The tape and the reply of a request, on any store, are those of its errand. -/
theorem endpoint_yields (d : Digest) (o : Options) (flag : StopFlag) (suffix : String) (r : Request)
    (s : Service σ) :
    (Errand.of d flag suffix r).Yields o
      ((Endpoint.Object.endpoint d o flag suffix r).run s.taped).2.store.tape
      ((Endpoint.Object.endpoint d o flag suffix r).run s).1 := by
  have htold := (endpoint_does d o flag suffix r).told s
  have hreply := congrArg Prod.fst ((Endpoint.Object.endpoint d o flag suffix r).run_taped s)
  rw [hreply]
  cases herrand : Errand.of d flag suffix r with
  | none refusal =>
    rw [herrand] at htold
    exact told_none htold
  | fetch token =>
    rw [herrand] at htold
    exact told_fetch htold
  | put token body =>
    rw [herrand] at htold
    exact told_put htold

/-- The reply is settled by the first answer, error texts aside. -/
theorem Errand.Yields.unique {tape' : List (Command × Answer)} {outcome' : Outcome}
    (h : e.Yields o tape outcome) (h' : e.Yields o tape' outcome')
    (halike : List.Forall₂ Alike (tape.map Prod.snd) (tape'.map Prod.snd)) :
    outcome = outcome' := by
  cases e with
  | none refusal => exact h.2.trans h'.2.symm
  | fetch token =>
    obtain ⟨answer, burnt, rfl, rfl⟩ := h
    obtain ⟨answer', burnt', rfl, rfl⟩ := h'
    exact (List.forall₂_cons.mp halike).1.replies.1
  | put token body =>
    obtain ⟨answer, rfl, rfl⟩ := h
    obtain ⟨answer', rfl, rfl⟩ := h'
    exact (List.forall₂_cons.mp halike).1.replies.2

/-- **A request is an errand, on any store.** What a request sends is settled by its checks and the
kinds of the answers: nothing, if it fails a check, uses another method or comes when the service
goes down; one `GET` under the token in lower case, and a `DEL` behind it just if objects are burnt
and something was read; or one `SET` with the body as it came and the terms of the options. The
reply is settled by the kind of the first answer, so whatever the error texts of two stores say,
clients get the same status, fields and body. -/
theorem run_errand (d : Digest) (o : Options) (flag : StopFlag) (suffix : String) (r : Request)
    (s : Service σ) (s' : Service σ') :
    let x := Endpoint.Object.endpoint d o flag suffix r
    let tape := (x.run s.taped).2.store.tape
    let tape' := (x.run s'.taped).2.store.tape
    x.run s = ((x.run s.taped).1, (x.run s.taped).2.untaped) ∧
      (Errand.of d flag suffix r).Yields o tape (x.run s).1 ∧
      (List.Forall₂ Alike (tape.map Prod.snd) (tape'.map Prod.snd) →
        (x.run s).1.reply = (x.run s').1.reply) := by
  intro x tape tape'
  have hyields := endpoint_yields d o flag suffix r s
  have hyields' := endpoint_yields d o flag suffix r s'
  exact ⟨x.run_taped s, hyields, fun halike =>
    congrArg Outcome.reply (hyields.unique hyields' halike)⟩

/-- Two stores refuse to keep an object, each in its own words. -/
theorem run_errand_refused :
    let r : Request := ⟨.v4 10 0 0 7, .post, "", none, none, 5, encode "Hello"⟩
    let suffix := "9E107D9D372BB6826BD81D3542A419D6"
    let o : Options := { lifetime := 60, writeOnce := true }
    let s (text : String) : Service Canned := { store := { answers := [.ok (.failure text)] } }
    let x := Endpoint.Object.endpoint .md5 o {} suffix r
    let oom := (x.run (s "OOM command not allowed").taped).2.store.tape
    let readonly := (x.run (s "READONLY replica").taped).2.store.tape
    List.Forall₂ Alike (oom.map Prod.snd) (readonly.map Prod.snd) ∧
      (x.run (s "OOM command not allowed")).1.reply = (x.run (s "READONLY replica")).1.reply := by
  intro r suffix o s x oom readonly
  have hoom : oom.map Prod.snd = [.ok (.failure "OOM command not allowed")] := by
    simp only [oom, x, s, o, suffix, r]
    rfl
  have hreadonly : readonly.map Prod.snd = [.ok (.failure "READONLY replica")] := by
    simp only [readonly, x, s, o, suffix, r]
    rfl
  have halike : List.Forall₂ Alike (oom.map Prod.snd) (readonly.map Prod.snd) := by
    rw [hoom, hreadonly]
    exact .cons (.ok (.failure _ _)) .nil
  obtain ⟨-, -, hreply⟩ := run_errand .md5 o {} suffix r (s "OOM command not allowed")
    (s "READONLY replica")
  exact ⟨halike, hreply halike⟩

end Depot.Objects
