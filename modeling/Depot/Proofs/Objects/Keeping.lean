import Mathlib.Data.Bool.AllAny
import Depot.Endpoint.Object
import Depot.Proofs.Objects.Shelf
import Depot.Proofs.Store.Dialogue
import Depot.Proofs.Store.Volatile

/-! # The object endpoints keep a shelf

A store in memory keeps a shelf (`Keeps`) if the live slots under the keys of tokens are the live
objects. Every dialogue of an object endpoint answers as the shelf does and leaves a store that
keeps the shelf after it (`endpoint_gives`). What is posted is Z85 text, hence ASCII: it comes out
of the lossy reading that a reply goes through as it went in. -/

namespace Depot.Objects

open Text.Utf8 (encode)
open Endpoint.Object (putCommand fetchCommand burnCommand)

variable {o : Options} {d : Digest} {m m' : Volatile} {s s' : Shelf} {token : String}
  {live : Bytes → Option Slot}

/-- The store keeps what is on the shelf. -/
structure Keeps (m : Volatile) (s : Shelf) : Prop where
  now : m.now = s.now
  offline : m.offline = s.offline
  live : ∀ token, m.live? (encode token) = s.live? token
  text : ∀ token slot, s.live? token = some slot → Z85.isText slot.value = true

theorem Keeps.shows (h : Keeps m s) (hon : s.offline = false) : m.Shows s.now m.live? :=
  ⟨h.now, h.offline.trans hon, rfl⟩

/-- A store that shows the same still keeps the shelf. -/
theorem Keeps.same (h : Keeps m s) (hon : s.offline = false) (hm : m'.Shows s.now m.live?) :
    Keeps m' s where
  now := hm.now
  offline := hm.online.trans hon.symm
  live token := by rw [hm.live, h.live]
  text := h.text

/-- A change under the key of a token is a change under the token, since keys are one to one. -/
theorem Keeps.update {slot : Option Slot} (h : Keeps m s) (hon : s'.offline = false)
    (hm : m'.Shows s'.now (Function.update m.live? (encode token) slot))
    (hs : s'.live? = Function.update s.live? token slot)
    (htext : ∀ e ∈ slot, Z85.isText e.value = true) : Keeps m' s' where
  now := hm.now
  offline := hm.online.trans hon.symm
  live other := by
    rw [hm.live, hs, Function.update_apply, Function.update_apply, h.live]
    simp only [Text.Utf8.encode_inj]
  text other e he := by
    rw [hs, Function.update_apply] at he
    split at he
    · exact htext e he
    · exact h.text other e he

theorem Keeps.elapse {millis : Nat} (h : Keeps m s) (hclock : s.now + millis ≤ Text.Decimal.max64) :
    Keeps (m.elapse millis) { s with now := s.now + millis } := by
  rw [← h.now] at hclock
  refine ⟨?_, h.offline, fun token => ?_, fun token slot hslot => ?_⟩
  · rw [(m.live?_elapse millis hclock []).1, h.now]
  · rw [(m.live?_elapse millis hclock _).2, s.live?_later, h.live, h.now]
  · rw [s.live?_later, Option.filter_eq_some_iff] at hslot
    exact h.text token slot hslot.1

theorem Keeps.cutOff (h : Keeps m s) (offline : Bool) :
    Keeps (m.cutOff offline) { s with offline } :=
  ⟨h.now, rfl, h.live, h.text⟩

theorem ascii_alphabet : Text.Utf8.Ascii Z85.alphabet := by
  refine Text.Utf8.ascii_encode ?_
  rw [← List.all_iff_forall_prop]
  decide +kernel

theorem ascii_of_isText {text : Bytes} (h : Z85.isText text = true) : Text.Utf8.Ascii text := by
  intro b hb
  have hdigit : Z85.isDigit b = true := List.all_eq_true.mp h b hb
  rw [Z85.isDigit, Z85.digit?, List.isSome_idxOf?] at hdigit
  exact ascii_alphabet b hdigit

/-! ## The terms of a `SET` -/

theorem readTerms_onlyNew (terms : Volatile.SetTerms) (options : List Bytes) :
    Volatile.readTerms terms (encode "NX" :: options) =
      Volatile.readTerms { terms with onlyNew := true } options := by
  have hsame : Text.Ascii.sameIgnoringCase (encode "NX") (encode "NX") = true := by decide +kernel
  conv_lhs => unfold Volatile.readTerms
  rw [if_pos hsame]

theorem readTerms_seconds (terms : Volatile.SetTerms) {n : Nat} (hpos : 0 < n)
    (h : n ≤ Text.Decimal.max63) (options : List Bytes) :
    Volatile.readTerms terms (encode "EX" :: Text.Decimal.encode n :: options) =
      Volatile.readTerms { terms with seconds := some n } options := by
  have hother : ¬Text.Ascii.sameIgnoringCase (encode "EX") (encode "NX") = true := by decide +kernel
  have hsame : Text.Ascii.sameIgnoringCase (encode "EX") (encode "EX") = true := by decide +kernel
  have hread := Text.Decimal.intOfBytes?_encode h
  conv_lhs => unfold Volatile.readTerms
  rw [if_neg hother, if_pos hsame]
  simp only [hread]
  rw [if_pos (Int.natCast_pos.mpr hpos), Int.toNat_natCast]

/-- The terms on which objects are stored. -/
def terms (o : Options) : Volatile.SetTerms :=
  ⟨if o.lifetime = 0 then none else some o.lifetime, o.writeOnce⟩

theorem readTerms_put (h : o.lifetime ≤ Text.Decimal.max63) :
    Volatile.readTerms {}
      ((if 0 < o.lifetime then [encode "EX", Text.Decimal.encode o.lifetime] else []) ++
        if o.writeOnce then [encode "NX"] else []) = .ok (terms o) := by
  have hend (terms : Volatile.SetTerms) (honly : terms.onlyNew = false) :
      Volatile.readTerms terms (if o.writeOnce then [encode "NX"] else []) =
        .ok { terms with onlyNew := o.writeOnce } := by
    cases hw : o.writeOnce with
    | true => exact readTerms_onlyNew terms []
    | false =>
      rw [if_neg Bool.false_ne_true, ← honly]
      rfl
  unfold Objects.terms
  by_cases hl : o.lifetime = 0
  · rw [if_neg (by omega), if_pos hl]
    exact hend {} rfl
  · rw [if_pos (by omega), if_neg hl]
    exact (readTerms_seconds {} (by omega) h _).trans (hend _ rfl)

theorem terms_pos (o : Options) : ∀ seconds ∈ (terms o).seconds, 0 < seconds := by
  intro seconds hs
  unfold terms at hs
  split at hs
  · cases hs
  · cases hs
    omega

/-- The slot that these terms make is the object as the shelf keeps it. -/
theorem slot_terms (o : Options) (body : Bytes) (s : Shelf) :
    (terms o).slot body s.now = s.slot o body := by
  unfold terms Volatile.SetTerms.slot Shelf.slot
  by_cases hl : o.lifetime = 0
  · simp only [if_pos hl, Option.map_none]
  · simp only [if_neg hl, Option.map_some]

/-! ## Requests -/

/-- A dialogue answers as the shelf does, and the store it leaves keeps the shelf after it. -/
def Gives (x : Dialogue Outcome) (m : Volatile) (answer : Seen × Shelf) : Prop :=
  ∃ outcome m', x.Reaches m outcome m' ∧ Seen.of outcome.reply = answer.1 ∧ Keeps m' answer.2

variable {answer : Seen × Shelf} {r : Http.Request} {suffix : String}

theorem Gives.after {α : Type} {x : Dialogue α} {k : α → Dialogue Outcome} {a : α}
    (hx : x.Reaches m a m') (h : Gives (k a) m' answer) : Gives (x >>= k) m answer := by
  obtain ⟨outcome, m₁, hk, hseen, hkeeps⟩ := h
  exact ⟨outcome, m₁, hx.bind hk, hseen, hkeeps⟩

theorem Gives.send {k : Answer → Dialogue Outcome} {c : Resp.Command} {a : Answer}
    (hc : m.carryOut c = (a, m')) (h : Gives (k a) m' answer) :
    Gives (Dialogue.send c >>= k) m answer := by
  obtain ⟨outcome, m₁, hk, hseen, hkeeps⟩ := h
  exact ⟨outcome, m₁, Dialogue.reaches_send hc hk, hseen, hkeeps⟩

/-- Most dialogues end with a report and an answer. -/
theorem reply_gives (event : Event) (outcome : Outcome) (h : Keeps m s) :
    Gives (do Dialogue.report event; return outcome) m (Seen.of outcome.reply, s) :=
  ⟨outcome, m, Dialogue.reaches_report event (Dialogue.reaches_pure outcome m), rfl, h⟩

theorem Keeps.carryOut_offline (h : Keeps m s) (hoff : s.offline = true) (c : Resp.Command) :
    m.carryOut c = (.error (.broken .connectionReset), m) :=
  Volatile.carryOut_offline (h.offline.trans hoff) c

/-- Burning an object takes it off the shelf. -/
theorem burn_reaches (h : Keeps m s) (hon : s.offline = false) (d : Digest) (token : String) :
    ∃ m', (Endpoint.Object.burn d ⟨token⟩).Reaches m () m' ∧ Keeps m' (s.drop token) := by
  obtain ⟨m', hdel, hshows⟩ := Volatile.carryOut_del (h.shows hon) (encode token)
  refine ⟨m', Dialogue.reaches_send hdel (Dialogue.reaches_pure () m'), ?_⟩
  exact h.update hon hshows (Shelf.live?_drop token s) fun e he => nomatch he

theorem get_gives (h : Keeps m s) (o : Options) (d : Digest) (suffix : String) (r : Http.Request) :
    Gives (Endpoint.Object.get d o suffix r) m (s.get o d suffix) := by
  unfold Endpoint.Object.get Shelf.get
  cases htoken : token? d suffix with
  | none =>
    obtain ⟨e, he⟩ := parse_error htoken
    simp only [he]
    exact reply_gives _ _ h
  | some token =>
    have hparse := parse_eq htoken
    simp only [hparse]
    cases hoff : s.offline with
    | true => exact .send (h.carryOut_offline hoff _) (reply_gives _ _ h)
    | false =>
      obtain ⟨m', hget, hshows⟩ := Volatile.carryOut_get (h.shows hoff) (encode token)
      have hkeeps := h.same hoff hshows
      refine .send hget ?_
      rw [h.live]
      cases hlive : s.live? token with
      | none => exact reply_gives _ _ hkeeps
      | some slot =>
        have hseen : Seen.of (Outcome.plain .ok (Text.Utf8.lossy slot.value)).reply =
            ⟨200, slot.value, none⟩ := by
          have hvalue := Text.Utf8.encode_lossy_ascii (ascii_of_isText (h.text token slot hlive))
          exact congrArg (Seen.mk 200 · none) hvalue
        simp only [Option.elim_some, ← hseen]
        cases hread : o.readOnce with
        | true =>
          obtain ⟨m₁, hburn, hdropped⟩ := burn_reaches hkeeps hoff d token
          exact .after hburn (reply_gives _ _ hdropped)
        | false => exact reply_gives _ _ hkeeps

/-- The command that stores a text puts it on the shelf, unless objects stay as they are. -/
theorem carryOut_put {body : Bytes} (h : Keeps m s) (hon : s.offline = false)
    (hl : o.lifetime ≤ Text.Decimal.max63) (token : String) (htext : Z85.isText body = true) :
    if o.writeOnce && (s.live? token).isSome then
      ∃ m', m.carryOut (putCommand o ⟨token⟩ body) = (.ok .nil, m') ∧ Keeps m' s
    else
      ∃ m', m.carryOut (putCommand o ⟨token⟩ body) = (.ok (.status "OK"), m') ∧
        Keeps m' (s.put token (s.slot o body)) := by
  have hset := Volatile.carryOut_set (h.shows hon) (encode token) body (readTerms_put hl)
    (terms_pos o)
  have hcommand : putCommand o ⟨token⟩ body = ⟨"SET", encode token :: body ::
      ((if 0 < o.lifetime then [encode "EX", Text.Decimal.encode o.lifetime] else []) ++
        if o.writeOnce then [encode "NX"] else [])⟩ := rfl
  have honly : (terms o).onlyNew = o.writeOnce := rfl
  rw [h.live, ← hcommand, slot_terms, honly] at hset
  split at hset
  · next hstays =>
    obtain ⟨m', hrun, hshows⟩ := hset
    rw [if_pos hstays]
    exact ⟨m', hrun, h.same hon hshows⟩
  · next hfree =>
    obtain ⟨m', hrun, hshows⟩ := hset
    rw [if_neg hfree]
    refine ⟨m', hrun, h.update hon hshows (Shelf.live?_put token s body) fun e he => ?_⟩
    cases he
    exact htext

theorem store_gives (h : Keeps m s) (hl : o.lifetime ≤ Text.Decimal.max63)
    (htext : Z85.isText r.body = true) :
    Gives (Endpoint.Object.store d o suffix r ⟨token⟩) m
      (if s.offline then (.text 503 "service unavailable", s)
       else if o.writeOnce && (s.live? token).isSome then
         (.text 304 "object immutable - not modified", s)
       else (.text 200 "ok", s.put token (s.slot o r.body))) := by
  unfold Endpoint.Object.store
  cases hoff : s.offline with
  | true => exact .send (h.carryOut_offline hoff _) (reply_gives _ _ h)
  | false =>
    have hput := carryOut_put h hoff hl token htext
    split at hput
    · next hstays =>
      obtain ⟨m', hrun, hkeeps⟩ := hput
      simp only [hstays]
      exact .send hrun (reply_gives _ _ hkeeps)
    · next hfree =>
      obtain ⟨m', hrun, hkeeps⟩ := hput
      simp only [hfree]
      exact .send hrun (reply_gives _ _ hkeeps)

theorem post_gives (h : Keeps m s) (hl : o.lifetime ≤ Text.Decimal.max63) (d : Digest)
    (suffix : String) (r : Http.Request) :
    Gives (Endpoint.Object.post d o suffix r) m (s.post o d suffix r.body) := by
  unfold Endpoint.Object.post Endpoint.Object.postFault? Endpoint.Object.minBody Shelf.post
  by_cases hurl : suffix.utf8ByteSize ≠ d.tokenLength
  · rw [if_pos hurl, if_pos hurl]
    exact reply_gives _ _ h
  rw [if_neg hurl, if_neg hurl]
  by_cases hlength : r.body.length < 5
  · rw [if_pos hlength, if_pos hlength]
    exact reply_gives _ _ h
  rw [if_neg hlength, if_neg hlength]
  cases htext : Z85.isText r.body with
  | false => exact reply_gives _ _ h
  | true =>
    simp only [Bool.not_true, Bool.false_eq_true, if_false]
    cases htoken : token? d suffix with
    | none =>
      obtain ⟨e, he⟩ := parse_error htoken
      simp only [he]
      exact reply_gives _ _ h
    | some token =>
      have hparse := parse_eq htoken
      simp only [hparse]
      exact store_gives h hl htext

/-- An object endpoint that was up when a request came in answers it as the shelf does, and keeps
the shelf. -/
theorem endpoint_gives (h : Keeps m s) (hl : o.lifetime ≤ Text.Decimal.max63) {flag : StopFlag}
    (hflag : flag.isRaised = s.down) (d : Digest) (suffix : String) (r : Http.Request) :
    Gives (Endpoint.Object.endpoint d o flag suffix r) m (s.answer o d suffix r) := by
  unfold Endpoint.Object.endpoint Shelf.answer
  rw [hflag]
  cases s.down with
  | true => exact ⟨_, m, Dialogue.reaches_pure _ m, rfl, h⟩
  | false =>
    cases r.method with
    | get => exact get_gives h o d suffix r
    | post => exact post_gives h hl d suffix r
    | _ => exact reply_gives _ _ h

end Depot.Objects
