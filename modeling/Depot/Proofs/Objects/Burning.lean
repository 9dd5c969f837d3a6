import Depot.Proofs.Objects.Errands
import Depot.Proofs.Objects.Keeping

/-! # Whose object a reader burns

A burning read is two commands, and other calls come in between. So a deletion need not hit the
object that was read: it may hit one that was posted since, and nothing else (`burns_traced`). The
commands of any number of calls under one token are written down in the order in which they reach
the store (`Room`), and each of them has an effect on what is kept (`Effect`). -/

namespace Depot.Objects

open Http (Request)
open Resp (Command Value)
open Text.Utf8 (encode)
open Endpoint.Object (fetchCommand burnCommand putCommand)

/-! ## Calls under one token -/

/-- A request on the object under a token, and the stop flag that it finds. -/
structure Call (d : Digest) (token : String) where
  suffix : String
  names : token? d suffix = some token
  request : Request
  flag : StopFlag := {}

namespace Call

variable {d : Digest} {token : String}

def errand (c : Call d token) : Errand := .of d c.flag c.suffix c.request

def work (o : Options) (c : Call d token) : Dialogue Outcome :=
  Endpoint.Object.endpoint d o c.flag c.suffix c.request

end Call

/-- A command that a visit sent, and the answer. -/
structure Sent where
  visit : Nat
  command : Command
  answer : Answer

/-- The text that was read. -/
def Sent.read? (x : Sent) : Option Bytes :=
  match x.answer with
  | .ok (.bulk value) => some value
  | _ => none

/-- The calls under way on a store in memory, and all that was sent, oldest first. -/
structure Room (d : Digest) (token : String) where
  floor : Floor Volatile (Call d token) Outcome
  sent : List Sent := []

inductive Move (d : Digest) (token : String) where
  | arrive (c : Call d token)
  /-- A visit sends its next command. -/
  | turn (i : Nat)

namespace Room

variable {d : Digest} {token : String}

/-- The command that a visit sends next. -/
def command? (i : Nat) (r : Room d token) : Option Command :=
  r.floor.visits[i]?.bind fun v =>
    match v.left with
    | .ask command _ => some command
    | _ => none

def move (o : Options) (r : Room d token) : Move d token → Room d token
  | .arrive c => { r with floor := r.floor.enter c (c.work o) }
  | .turn i =>
    let sent := (r.floor.answer? i).bind fun answer => (r.command? i).map fun command =>
      (⟨i, command, answer⟩ : Sent)
    { floor := r.floor.turn i, sent := r.sent ++ sent.toList }

def run (o : Options) (moves : List (Move d token)) (r : Room d token) : Room d token :=
  moves.foldl (move o) r

/-- The outcome of a visit that has come to its end. -/
def outcome? (i : Nat) (r : Room d token) : Option Outcome :=
  r.floor.visits[i]?.bind fun v =>
    match v.left with
    | .done outcome => some outcome
    | _ => none

end Room

/-! ## What is kept -/

/-- An object, and the visit that posted it if it was not there from the start. -/
structure Kept where
  origin : Option Nat
  body : Bytes
  deriving Repr, DecidableEq

/-- What is kept after a command. -/
def Sent.leaves (x : Sent) (k : Option Kept) : Option Kept :=
  match x.command, x.answer with
  | ⟨"SET", _ :: body :: _⟩, .ok (.status _) => some ⟨some x.visit, body⟩
  | ⟨"DEL", _⟩, _ => none
  | _, _ => k

/-- What is kept after all that was sent. -/
def kept (start : Option Kept) (sent : List Sent) : Option Kept :=
  sent.foldl (fun k x => x.leaves k) start

/-- What a command comes to while an object is kept. -/
inductive Effect (o : Options) (token : String) (k : Option Kept) (x : Sent) : Option Kept → Prop
  | fetched : x.command = fetchCommand ⟨token⟩ →
      x.answer = .ok (k.elim .nil fun k => .bulk k.body) → Effect o token k x k
  | burnt : x.command = burnCommand ⟨token⟩ →
      x.answer = .ok (.integer (if k.isSome then 1 else 0 : Nat)) → Effect o token k x none
  | posted {body : Bytes} : x.command = putCommand o ⟨token⟩ body → x.answer = .ok (.status "OK") →
      (o.writeOnce = true → k = none) → Effect o token k x (some ⟨some x.visit, body⟩)
  | refused {body : Bytes} : x.command = putCommand o ⟨token⟩ body → x.answer = .ok .nil →
      k.isSome → Effect o token k x k

/-- What holds of each element of a list and those before it. -/
def Every (P : List Sent → Sent → Prop) (sent : List Sent) : Prop :=
  ∀ before x after, sent = before ++ x :: after → P before x

variable {o : Options} {d : Digest} {token : String} {start k : Option Kept} {sent : List Sent}
  {x : Sent} {P : List Sent → Sent → Prop}

theorem Every.concat (h : Every P sent) (hx : P sent x) : Every P (sent ++ [x]) := by
  intro before y after hsplit
  rcases List.eq_nil_or_concat after with rfl | ⟨rest, z, rfl⟩
  · obtain ⟨rfl, hlast⟩ := List.append_inj' hsplit rfl
    cases hlast
    exact hx
  · rw [List.concat_eq_append, ← List.cons_append, ← List.append_assoc] at hsplit
    exact h before y rest (List.append_inj' hsplit rfl).1

/-- Every command has its effect on what was kept before it. -/
def Effects (o : Options) (token : String) (start : Option Kept) : List Sent → Prop :=
  Every fun before x => Effect o token (kept start before) x (x.leaves (kept start before))

theorem Effects.cons (h : Effects o token start (x :: sent)) :
    Effect o token start x (x.leaves start) ∧ Effects o token (x.leaves start) sent :=
  ⟨h [] x sent rfl, fun before y after hsplit =>
    h (x :: before) y after (by rw [hsplit, List.cons_append])⟩

theorem kept_append (start : Option Kept) (first sent : List Sent) :
    kept start (first ++ sent) = kept (kept start first) sent := List.foldl_append

theorem Effects.after {first : List Sent} (h : Effects o token start (first ++ sent)) :
    Effects o token (kept start first) sent := by
  intro before x after hsplit
  rw [← kept_append]
  exact h (first ++ before) x after (by rw [hsplit, List.append_assoc])

theorem Effects.before {last : List Sent} (h : Effects o token start (sent ++ last)) :
    Effects o token start sent := fun before x after hsplit =>
  h before x (after ++ last) (by rw [hsplit, List.append_assoc, List.cons_append])

/-- What is gone was burnt by somebody. -/
theorem Effects.gone (h : Effects o token start sent) (hstart : start.isSome)
    (hgone : kept start sent = none) :
    ∃ z ∈ sent, z.command = burnCommand ⟨token⟩ ∧ z.answer = .ok (.integer 1) := by
  induction sent generalizing start with
  | nil =>
    rw [show start = none from hgone] at hstart
    cases hstart
  | cons x sent ih =>
    obtain ⟨hx, hrest⟩ := h.cons
    have hlater (hsome : (x.leaves start).isSome) :
        ∃ z ∈ x :: sent, z.command = burnCommand ⟨token⟩ ∧ z.answer = .ok (.integer 1) := by
      obtain ⟨z, hz, hburnt⟩ := ih hrest hsome hgone
      exact ⟨z, List.mem_cons_of_mem x hz, hburnt⟩
    generalize hleaves : x.leaves start = left at hx hlater
    cases hx with
    | fetched => exact hlater hstart
    | burnt hcommand hanswer =>
      rw [if_pos hstart] at hanswer
      exact ⟨x, List.mem_cons_self, hcommand, hanswer⟩
    | posted => exact hlater rfl
    | refused => exact hlater hstart

/-- What is kept was there before, or it was posted since. -/
theorem Effects.traced (h : Effects o token start sent) {k : Kept} (hk : kept start sent = some k) :
    start = some k ∨ ∃ inner z outer, sent = inner ++ z :: outer ∧ k.origin = some z.visit ∧
      z.command = putCommand o ⟨token⟩ k.body ∧ z.answer = .ok (.status "OK") := by
  -- from the front: what a command leaves is what the rest starts from
  induction sent generalizing start with
  | nil => exact .inl hk
  | cons x sent ih =>
    obtain ⟨hx, hrest⟩ := h.cons
    rcases ih hrest hk with hleft | ⟨inner, z, outer, rfl, hposted⟩
    · rw [hleft] at hx
      generalize hsome : some k = left at hx
      cases hx with
      | fetched => exact .inl rfl
      | burnt => cases hsome
      | posted hcommand hanswer =>
        cases hsome
        exact .inr ⟨[], x, sent, rfl, rfl, hcommand, hanswer⟩
      | refused => exact .inl rfl
    · exact .inr ⟨x :: inner, z, outer, rfl, hposted⟩

/-! ## What a call sends -/

/-! The commands of object endpoints are told apart by their names. -/

theorem fetch_ne_burn (t : Token) : fetchCommand t ≠ burnCommand t :=
  fun h => absurd (Command.mk.inj h).1 (by decide)

theorem fetch_ne_put (t : Token) (body : Bytes) : fetchCommand t ≠ putCommand o t body :=
  fun h => absurd (Command.mk.inj h).1 (by decide)

theorem burn_ne_put (t : Token) (body : Bytes) : burnCommand t ≠ putCommand o t body :=
  fun h => absurd (Command.mk.inj h).1 (by decide)

/-! So a command tells which effect it has. -/

section

variable {left : Option Kept}

theorem Effect.of_fetch (h : Effect o token k x left) (hcommand : x.command = fetchCommand ⟨token⟩) :
    left = k ∧ x.answer = .ok (k.elim .nil fun k => .bulk k.body) := by
  cases h with
  | fetched _ hanswer => exact ⟨rfl, hanswer⟩
  | burnt hburn => exact absurd (hcommand.symm.trans hburn) (fetch_ne_burn _)
  | posted hput => exact absurd (hcommand.symm.trans hput) (fetch_ne_put _ _)
  | refused hput => exact absurd (hcommand.symm.trans hput) (fetch_ne_put _ _)

theorem Effect.of_burn (h : Effect o token k x left) (hcommand : x.command = burnCommand ⟨token⟩) :
    x.answer = .ok (.integer (if k.isSome then 1 else 0 : Nat)) := by
  cases h with
  | fetched hfetch => exact absurd (hfetch.symm.trans hcommand) (fetch_ne_burn _)
  | burnt _ hanswer => exact hanswer
  | posted hput => exact absurd (hcommand.symm.trans hput) (burn_ne_put _ _)
  | refused hput => exact absurd (hcommand.symm.trans hput) (burn_ne_put _ _)

/-- Where objects stay as they are, a post is accepted only if there is none. -/
theorem Effect.of_put {body : Bytes} (h : Effect o token k x left)
    (hcommand : x.command = putCommand o ⟨token⟩ body) (hanswer : x.answer = .ok (.status "OK"))
    (hw : o.writeOnce = true) : k = none := by
  cases h with
  | fetched hfetch => exact absurd (hfetch.symm.trans hcommand) (fetch_ne_put _ _)
  | burnt hburn => exact absurd (hburn.symm.trans hcommand) (burn_ne_put _ _)
  | posted _ _ hfree => exact hfree hw
  | refused _ hrefused =>
    rw [hanswer] at hrefused
    cases hrefused

end

/-- What an errand on the object under a token sends after some answers. -/
inductive Asks (o : Options) (token : String) : Errand → List Answer → Command → Prop
  | fetch : Asks o token (.fetch token) [] (fetchCommand ⟨token⟩)
  | burn {value : Bytes} : o.readOnce = true →
      Asks o token (.fetch token) [.ok (.bulk value)] (burnCommand ⟨token⟩)
  | put {body : Bytes} : Asks o token (.put token body) [] (putCommand o ⟨token⟩ body)

theorem Call.errand_cases (c : Call d token) :
    (∃ outcome, c.errand = .none outcome) ∨ c.errand = .fetch token ∨
      ∃ body, c.errand = .put token body := by
  unfold Call.errand Errand.of
  rw [c.names]
  split
  · exact .inl ⟨_, rfl⟩
  split
  · exact .inr (.inl rfl)
  · split
    · exact .inl ⟨_, rfl⟩
    split
    · exact .inl ⟨_, rfl⟩
    split
    · exact .inl ⟨_, rfl⟩
    · exact .inr (.inr ⟨_, rfl⟩)
  · exact .inl ⟨_, rfl⟩

theorem Call.asks (c : Call d token) {heard : List Answer} {command : Command}
    (h : c.errand.next o heard = .inl command) : Asks o token c.errand heard command := by
  rcases c.errand_cases with ⟨outcome, herrand⟩ | herrand | ⟨body, herrand⟩
  · rw [herrand] at h
    cases h
  · rw [herrand] at h ⊢
    rcases heard with _ | ⟨answer, _ | ⟨_, _⟩⟩
    · cases h
      exact .fetch
    · rw [Errand.next] at h
      split at h
      · next hburn =>
        cases h
        obtain ⟨hbulk, honce⟩ := Bool.and_eq_true_iff.mp hburn
        unfold isBulk at hbulk
        split at hbulk
        · exact .burn honce
        · cases hbulk
      · cases h
    · cases h
  · rw [herrand] at h ⊢
    rcases heard with _ | ⟨_, _⟩
    · cases h
      exact .put
    · cases h

/-- A command has its effect on the object in the store. -/
theorem carryOut_effect {m : Volatile} {now : Nat} {live : Bytes → Option Slot} {e : Errand}
    {heard : List Answer} {command : Command} (h : m.Shows now live)
    (hl : o.lifetime ≤ Text.Decimal.max63) (hasks : Asks o token e heard command)
    (hkept : (live (encode token)).map Slot.value = k.map Kept.body) (i : Nat) :
    ∃ answer m', m.carryOut command = (answer, m') ∧ m'.offline = false ∧
      let x : Sent := ⟨i, command, answer⟩
      Effect o token k x (x.leaves k) ∧
        (m'.live? (encode token)).map Slot.value = (x.leaves k).map Kept.body := by
  have hsome : (live (encode token)).isSome = k.isSome := by
    rw [← Option.isSome_map (f := Slot.value), hkept, Option.isSome_map]
  cases hasks with
  | fetch =>
    obtain ⟨m', hget, hshows⟩ := Volatile.carryOut_get h (encode token)
    refine ⟨_, m', hget, hshows.online, .fetched rfl ?_, ?_⟩
    · have hread : (live (encode token)).elim Value.nil (fun e => .bulk e.value) =
          ((live (encode token)).map Slot.value).elim .nil .bulk := by
        cases live (encode token) <;> rfl
      rw [hread, hkept]
      cases k <;> rfl
    · rw [hshows.live]
      exact hkept
  | burn =>
    obtain ⟨m', hdel, hshows⟩ := Volatile.carryOut_del h (encode token)
    refine ⟨_, m', hdel, hshows.online, .burnt rfl (by rw [hsome]), ?_⟩
    rw [hshows.live, Function.update_self]
    rfl
  | @put body =>
    have hset := Volatile.carryOut_set h (encode token) body (readTerms_put hl) (terms_pos o)
    have honly : (terms o).onlyNew = o.writeOnce := rfl
    rw [honly, hsome] at hset
    split at hset
    · next hstays =>
      obtain ⟨m', hrun, hshows⟩ := hset
      obtain ⟨-, hthere⟩ := Bool.and_eq_true_iff.mp hstays
      refine ⟨_, m', hrun, hshows.online, .refused rfl rfl hthere, ?_⟩
      rw [hshows.live]
      exact hkept
    · next hfree =>
      obtain ⟨m', hrun, hshows⟩ := hset
      refine ⟨_, m', hrun, hshows.online, .posted rfl rfl fun hw => ?_, ?_⟩
      · rw [hw, Bool.true_and] at hfree
        exact Option.not_isSome_iff_eq_none.mp hfree
      · rw [hshows.live, Function.update_self]
        rfl

/-! ## The room keeps its records -/

/-- The answers that a visit heard. -/
def heardBy (i : Nat) (sent : List Sent) : List Answer :=
  (sent.filter (·.visit = i)).map Sent.answer

theorem heardBy_append (i : Nat) (first last : List Sent) :
    heardBy i (first ++ last) = heardBy i first ++ heardBy i last := by
  rw [heardBy, List.filter_append, List.map_append]
  rfl

theorem heardBy_self {i : Nat} {x : Sent} (h : x.visit = i) (after : List Sent) :
    heardBy i (x :: after) = x.answer :: heardBy i after :=
  congrArg (List.map Sent.answer) (List.filter_cons_of_pos (by simpa using h))

theorem heardBy_other {i : Nat} {x : Sent} (h : x.visit ≠ i) (after : List Sent) :
    heardBy i (x :: after) = heardBy i after :=
  congrArg (List.map Sent.answer) (List.filter_cons_of_neg (by simpa using h))

/-- The one answer that a visit heard has its place. -/
theorem heardBy_singleton {i : Nat} {answer : Answer} (h : heardBy i sent = [answer]) :
    ∃ first y middle, sent = first ++ y :: middle ∧ y.visit = i ∧ y.answer = answer ∧
      heardBy i first = [] ∧ ∀ z ∈ middle, z.visit ≠ i := by
  obtain ⟨y, hfilter, hanswer⟩ := List.map_eq_singleton_iff.mp h
  obtain ⟨first, middle, hsent, hfirst, hvisit, hmiddle⟩ := List.filter_eq_cons_iff.mp hfilter
  refine ⟨first, y, middle, hsent, of_decide_eq_true hvisit, hanswer, ?_, fun z hz => ?_⟩
  · rw [heardBy, List.filter_eq_nil_iff.mpr hfirst, List.map_nil]
  · have hother := List.filter_eq_nil_iff.mp hmiddle z hz
    simpa using hother

def Room.calls (r : Room d token) : List (Call d token) := r.floor.visits.map Visit.caller

/-- What is written down is what the visits sent and heard, and it tells what is in the store. -/
structure Records (o : Options) (start : Option Kept) (r : Room d token) : Prop where
  sound : ∀ v ∈ r.floor.visits, v.Sound fun c x => x = c.work o
  heard : ∀ i v, r.floor.visits[i]? = some v → heardBy i r.sent = v.heard
  asked : Every (fun before x => ∃ c, r.calls[x.visit]? = some c ∧
    Asks o token c.errand (heardBy x.visit before) x.command) r.sent
  effects : Effects o token start r.sent
  online : r.floor.service.store.offline = false
  holds : (r.floor.service.store.live? (encode token)).map Slot.value =
    (kept start r.sent).map Kept.body

variable {r : Room d token}

/-- Nobody has sent anything before arriving. -/
theorem Records.unheard (h : Records o start r) : heardBy r.floor.visits.length r.sent = [] := by
  unfold heardBy
  rw [List.map_eq_nil_iff, List.filter_eq_nil_iff]
  intro x hx hvisit
  obtain ⟨before, after, hsplit⟩ := List.append_of_mem hx
  obtain ⟨c, hc, -⟩ := h.asked before x after hsplit
  have hlt := (List.getElem?_eq_some_iff.mp hc).1
  rw [Room.calls, List.length_map, of_decide_eq_true hvisit] at hlt
  exact absurd hlt (Nat.lt_irrefl _)

theorem Records.arrive (h : Records o start r) (c : Call d token) :
    Records o start (r.move o (.arrive c)) := by
  obtain ⟨events, hservice⟩ := Floor.service_enter c (c.work o) r.floor
  have hvisits := Floor.visits_enter c (c.work o) r.floor
  refine ⟨Floor.sound_enter h.sound rfl, fun i v hv => ?_, fun before x after hsplit => ?_,
    h.effects, ?_, ?_⟩
  · rw [Room.move, hvisits, List.getElem?_append] at hv
    split at hv
    · exact h.heard i v hv
    · rw [List.getElem?_singleton] at hv
      split at hv
      · cases hv
        have hlast : i = r.floor.visits.length := by omega
        rw [hlast]
        exact h.unheard
      · cases hv
  · obtain ⟨c', hc', hasks⟩ := h.asked before x after hsplit
    have hcalls : (r.move o (.arrive c)).calls = r.calls ++ [c] := by
      rw [Room.calls, Room.move, hvisits, List.map_append]
      rfl
    refine ⟨c', ?_, hasks⟩
    rw [hcalls, List.getElem?_append_left (List.getElem?_eq_some_iff.mp hc').1]
    exact hc'
  · rw [Room.move, hservice]
    exact h.online
  · rw [Room.move, hservice]
    exact h.holds

/-- Wherever a visit stands, it does what its errand does next after what it heard. -/
theorem Records.does (h : Records o start r) {i : Nat} {v : Visit (Call d token) Outcome}
    (hv : r.floor.visits[i]? = some v) : Does o v.caller.errand v.left v.heard := by
  have hsound := h.sound v (List.mem_of_getElem? hv)
  have hcomes := hsound.comes
  rw [hsound.begun] at hcomes
  exact hcomes.heeds (endpoint_does d o v.caller.flag v.caller.suffix v.caller.request)

variable {visits : List (Visit (Call d token) Outcome)} {i : Nat}
  {v : Visit (Call d token) Outcome}

/-- A turn leaves the callers who they are. -/
theorem calls_set (hv : visits[i]? = some v) (heard : List Answer) (left : Dialogue Outcome) :
    (visits.set i { v with heard, left }).map Visit.caller = visits.map Visit.caller := by
  obtain ⟨hlt, hget⟩ := List.getElem?_eq_some_iff.mp hv
  rw [List.map_set, ← hget, ← List.getElem_map Visit.caller (h := by simpa),
    List.set_getElem_self]

/-- Only the visit whose turn it was hears something. -/
theorem heard_set (h : ∀ j w, visits[j]? = some w → heardBy j sent = w.heard)
    (hv : visits[i]? = some v) (command : Command) (answer : Answer) (left : Dialogue Outcome)
    (j : Nat) (w : Visit (Call d token) Outcome)
    (hw : (visits.set i { v with heard := v.heard ++ [answer], left })[j]? = some w) :
    heardBy j (sent ++ [⟨i, command, answer⟩]) = w.heard := by
  rw [heardBy_append]
  by_cases hji : i = j
  · subst hji
    rw [List.getElem?_set_self (List.getElem?_eq_some_iff.mp hv).1] at hw
    cases hw
    rw [h i v hv]
    exact congrArg (v.heard ++ ·) (heardBy_self (by rfl) [])
  · rw [List.getElem?_set_ne hji] at hw
    rw [heardBy_other hji, h j w hw]
    exact List.append_nil _

theorem Records.turn (h : Records o start r) (hl : o.lifetime ≤ Text.Decimal.max63) (i : Nat) :
    Records o start (r.move o (.turn i)) := by
  have hturned := r.floor.turned i
  have hsound := hturned.sound h.sound
  unfold Room.move
  simp only
  generalize r.floor.answer? i = answer? at hturned ⊢
  generalize r.floor.turn i = floor at hturned hsound ⊢
  cases hturned with
  | passed =>
    rw [Option.bind_none, Option.toList_none, List.append_nil]
    exact h
  | @asked v command next answer s left events hv hleft hcarried =>
    have hdoes := h.does hv
    rw [hleft, ← h.heard i v hv] at hdoes
    have hasks := v.caller.asks hdoes.1
    have hcommand : r.command? i = some command := by
      rw [Room.command?, hv, Option.bind_some, hleft]
    rw [Option.bind_some, hcommand, Option.map_some, Option.toList_some]
    obtain ⟨answer', m', hcarry, honline, heffect, hholds⟩ :=
      carryOut_effect ⟨rfl, h.online, rfl⟩ hl hasks h.holds i
    have hservice : Store.carryOut command r.floor.service =
        ((r.floor.service.store.carryOut command).1,
          { r.floor.service with store := (r.floor.service.store.carryOut command).2 }) := rfl
    rw [hservice, hcarry] at hcarried
    cases hcarried
    have hcalls := calls_set hv (v.heard ++ [answer']) left
    refine ⟨hsound, heard_set h.heard hv command answer' left, ?_, h.effects.concat heffect,
      honline, ?_⟩
    · rw [Room.calls, hcalls]
      refine h.asked.concat ⟨v.caller, ?_, hasks⟩
      rw [Room.calls, List.getElem?_map, hv]
      rfl
    · rw [kept_append]
      exact hholds

theorem Records.run (h : Records o start r) (hl : o.lifetime ≤ Text.Decimal.max63)
    (moves : List (Move d token)) : Records o start (r.run o moves) := by
  induction moves generalizing r with
  | nil => exact h
  | cons move moves ih =>
    cases move with
    | arrive c => exact ih (h.arrive c)
    | turn i => exact ih (h.turn hl i)

/-- A visit whose errand is at an end has come to its end. -/
theorem Records.answered (h : Records o start r) {i : Nat} {c : Call d token} {outcome : Outcome}
    (hc : r.calls[i]? = some c) (hend : c.errand.next o (heardBy i r.sent) = .inr outcome) :
    r.outcome? i = some outcome := by
  rw [Room.calls, List.getElem?_map, Option.map_eq_some_iff] at hc
  obtain ⟨v, hv, rfl⟩ := hc
  rw [Room.outcome?, hv, Option.bind_some]
  have hdoes := h.does hv
  have hsettled := (h.sound v (List.mem_of_getElem? hv)).settled
  rw [h.heard i v hv] at hend
  cases hleft : v.left with
  | done outcome' =>
    rw [hleft] at hdoes
    rw [Sum.inr.inj (hend.symm.trans hdoes)]
  | note event next =>
    rw [hleft] at hsettled
    exact absurd hsettled id
  | ask command next =>
    rw [hleft] at hdoes
    exact absurd (hend.symm.trans hdoes.1) Sum.inr_ne_inl

/-! ## What a deletion hits -/

/-- A post that the store accepts is answered so. -/
theorem Records.accepted (h : Records o start r) {before after : List Sent} {body : Bytes}
    (hsent : r.sent = before ++ x :: after) (hcommand : x.command = putCommand o ⟨token⟩ body)
    (hanswer : x.answer = .ok (.status "OK")) : r.outcome? x.visit = some (.plain .ok "ok") := by
  obtain ⟨c, hc, hasks⟩ := h.asked before x after hsent
  refine h.answered hc ?_
  rw [hsent, heardBy_append, heardBy_self rfl, hanswer]
  generalize c.errand = e at hasks
  generalize heardBy x.visit before = heard at hasks
  rw [hcommand] at hasks
  generalize hput : putCommand o ⟨token⟩ body = command at hasks
  cases hasks with
  | fetch => exact absurd hput.symm (fetch_ne_put _ _)
  | burn => exact absurd hput.symm (burn_ne_put _ _)
  | put => rfl

/-- A deletion comes from a visit that read something, and that visit has come to its end. -/
theorem Records.burning (h : Records o start r) {before after : List Sent}
    (hsent : r.sent = before ++ x :: after) (hcommand : x.command = burnCommand ⟨token⟩) :
    ∃ c value, r.calls[x.visit]? = some c ∧ c.errand = .fetch token ∧
      heardBy x.visit before = [.ok (.bulk value)] ∧
      r.outcome? x.visit = some (.plain .ok (Text.Utf8.lossy value)) := by
  obtain ⟨c, hc, hasks⟩ := h.asked before x after hsent
  -- the answer to the deletion is heard too, whatever it is, and ends the errand
  have hanswered (outcome : Outcome) :
      c.errand.next o (heardBy x.visit r.sent) = .inr outcome →
        r.outcome? x.visit = some outcome := h.answered hc
  rw [hsent, heardBy_append, heardBy_self rfl] at hanswered
  generalize herrand : c.errand = e at hasks hanswered
  generalize hheard : heardBy x.visit before = heard at hasks hanswered
  rw [hcommand] at hasks
  generalize hburn : burnCommand ⟨token⟩ = command at hasks
  cases hasks with
  | fetch => exact absurd hburn.symm (fetch_ne_burn _)
  | @burn value => exact ⟨c, value, hc, herrand, rfl, hanswered _ rfl⟩
  | put => exact absurd hburn (burn_ne_put _ _)

/-- What a visit that fetches hears first is what is kept, and stays kept. -/
theorem Records.reading (h : Records o start r) {before after : List Sent} {c : Call d token}
    {value : Bytes} (hsent : r.sent = before ++ x :: after) (hc : r.calls[x.visit]? = some c)
    (herrand : c.errand = .fetch token) (hheard : heardBy x.visit before = [])
    (hanswer : x.answer = .ok (.bulk value)) :
    x.command = fetchCommand ⟨token⟩ ∧ ∃ read, kept start before = some read ∧
      kept start (before ++ [x]) = some read ∧ read.body = value := by
  obtain ⟨c', hc', hasks⟩ := h.asked before x after hsent
  cases hc.symm.trans hc'
  rw [herrand, hheard] at hasks
  have hcommand : x.command = fetchCommand ⟨token⟩ := by
    generalize x.command = command at hasks
    cases hasks
    rfl
  refine ⟨hcommand, ?_⟩
  obtain ⟨hsame, hread⟩ := (h.effects before x after hsent).of_fetch hcommand
  have hstays : kept start (before ++ [x]) = kept start before := (kept_append ..).trans hsame
  rw [hstays]
  rw [hanswer] at hread
  cases hkept : kept start before with
  | none =>
    rw [hkept] at hread
    cases hread
  | some read =>
    rw [hkept] at hread
    cases hread
    exact ⟨read, rfl, rfl, rfl⟩

/-- Where objects stay as they are, a post that is accepted while there was an object at first comes
after somebody burnt it. -/
theorem Effects.room (h : Effects o token start sent) (hw : o.writeOnce = true)
    (hstart : start.isSome) {inner outer : List Sent} {z : Sent} {body : Bytes}
    (hsent : sent = inner ++ z :: outer) (hcommand : z.command = putCommand o ⟨token⟩ body)
    (hanswer : z.answer = .ok (.status "OK")) :
    ∃ y ∈ inner, y.command = burnCommand ⟨token⟩ ∧ y.answer = .ok (.integer 1) := by
  have hfree : kept start inner = none := (h inner z outer hsent).of_put hcommand hanswer hw
  subst hsent
  exact h.before.gone hstart hfree

/-- Another call posted an object meanwhile, and was told so. Where objects stay as they are,
somebody burnt what had been there before it. -/
def Replaced (o : Options) (r : Room d token) (middle : List Sent) (k : Kept) : Prop :=
  ∃ inner z outer, middle = inner ++ z :: outer ∧ k.origin = some z.visit ∧
    z.command = putCommand o ⟨token⟩ k.body ∧ z.answer = .ok (.status "OK") ∧
    r.outcome? z.visit = some (.plain .ok "ok") ∧
    (o.writeOnce = true →
      ∃ y ∈ inner, y.command = burnCommand ⟨token⟩ ∧ y.answer = .ok (.integer 1))

/-- What is kept after a stretch of commands is what was kept before it, or it was posted in it. -/
theorem Records.replaced (h : Records o start r) {first middle after : List Sent} {read k : Kept}
    (hsent : r.sent = first ++ (middle ++ after)) (hread : kept start first = some read)
    (hk : kept start (first ++ middle) = some k) : k = read ∨ Replaced o r middle k := by
  have heffects := h.effects
  rw [hsent] at heffects
  have hmiddle := heffects.after.before
  rw [kept_append] at hk
  rcases hmiddle.traced hk with hsame | ⟨inner, z, outer, rfl, horigin, hcommand, hanswer⟩
  · exact .inl (Option.some.inj (hsame.symm.trans hread))
  · refine .inr ⟨inner, z, outer, rfl, horigin, hcommand, hanswer, ?_, fun hw => ?_⟩
    · have hplace : r.sent = (first ++ inner) ++ z :: (outer ++ after) := by
        rw [hsent]
        simp only [List.append_assoc, List.cons_append]
      exact h.accepted hplace hcommand hanswer
    · exact hmiddle.room hw (by rw [hread]; rfl) rfl hcommand hanswer

/-- **A deletion hits what was read, or what was posted since.** However the commands of calls under
one token reach a store in memory, every deletion comes from a visit that read an object before and
is answered with it. If anything is kept when the deletion comes, then it is that very object, or
another call posted it between the two commands of the reader and was told that it is kept. Where
objects stay as they are, another reader burnt an object before any post in between that was told
so. No time passes meanwhile: an object that lapses makes room as one that is burnt does. -/
theorem burns_traced (o : Options) (d : Digest) (token : String)
    (hl : o.lifetime ≤ Text.Decimal.max63) (m : Volatile) (hon : m.offline = false)
    (moves : List (Move d token)) :
    let start : Option Kept := (m.live? (encode token)).map fun e => ⟨none, e.value⟩
    let r := Room.run o moves { floor := { service := { store := m } } }
    (r.floor.service.store.live? (encode token)).map Slot.value =
        (kept start r.sent).map Kept.body ∧
      ∀ before x after, r.sent = before ++ x :: after → x.command = burnCommand ⟨token⟩ →
        ∃ first y middle read, before = first ++ y :: middle ∧ y.visit = x.visit ∧
          (∀ z ∈ middle, z.visit ≠ x.visit) ∧ y.command = fetchCommand ⟨token⟩ ∧
          y.answer = .ok (.bulk read.body) ∧ kept start first = some read ∧
          r.outcome? x.visit = some (.plain .ok (Text.Utf8.lossy read.body)) ∧
          (o.writeOnce = true → ∀ inner z outer body, middle = inner ++ z :: outer →
            z.command = putCommand o ⟨token⟩ body → z.answer = .ok (.status "OK") →
            ∃ w ∈ inner, w.command = burnCommand ⟨token⟩ ∧ w.answer = .ok (.integer 1)) ∧
          match kept start before with
          | none => x.answer = .ok (.integer 0)
          | some burnt => x.answer = .ok (.integer 1) ∧ (burnt = read ∨ Replaced o r middle burnt) := by
  intro start r
  have hfresh : Records o start
      ({ floor := { service := { store := m } } } : Room d token) :=
    { sound := nofun
      heard := nofun
      asked := fun before x after hsplit => absurd hsplit (by simp)
      effects := fun before x after hsplit => absurd hsplit (by simp)
      online := hon
      holds := by cases hlive : m.live? (encode token) <;> simp [start, kept, hlive] }
  have h : Records o start r := hfresh.run hl moves
  refine ⟨h.holds, fun before x after hsent hcommand => ?_⟩
  obtain ⟨c, value, hc, herrand, hheard, hanswered⟩ := h.burning hsent hcommand
  obtain ⟨first, y, middle, rfl, hvisit, hanswer, hfirst, hmiddle⟩ := heardBy_singleton hheard
  rw [← hvisit] at hc hfirst
  rw [List.append_assoc, List.cons_append] at hsent
  obtain ⟨hfetch, read, hread, hstays, rfl⟩ := h.reading hsent hc herrand hfirst hanswer
  -- the lookup changes nothing, so the stretch behind it starts from what was read
  have hstretch : r.sent = (first ++ [y]) ++ (middle ++ x :: after) := by
    rw [hsent, List.append_assoc, List.singleton_append]
  have heffects := h.effects
  rw [hstretch] at heffects
  have hbetween := heffects.after.before
  refine ⟨first, y, middle, read, rfl, hvisit, hmiddle, hfetch, hanswer, hread, hanswered,
    fun hw _ _ _ _ => hbetween.room hw (by rw [hstays]; rfl), ?_⟩
  have hbefore : r.sent = (first ++ y :: middle) ++ x :: after := by
    rw [hsent, List.append_assoc, List.cons_append]
  -- a deletion counts what it hits
  have hdeletes := (h.effects _ x after hbefore).of_burn hcommand
  split
  · next hgone =>
    rw [hgone] at hdeletes
    exact hdeletes
  · next burnt hburnt =>
    rw [hburnt] at hdeletes
    rw [← List.singleton_append, ← List.append_assoc] at hburnt
    exact ⟨hdeletes, h.replaced hstretch hstays hburnt⟩

/-- Two posts and a read that the second post overtakes. -/
theorem burns_traced_overtaken :
    let token := "9e107d9d372bb6826bd81d3542a419d6"
    let o : Options := { readOnce := true }
    let call (r : Request) : Call .md5 token := ⟨token, by decide +kernel, r, {}⟩
    let get := call ⟨.loopback, .get, "", none, none, 0, []⟩
    let post (text : String) := call ⟨.loopback, .post, "", none, none, 5, encode text⟩
    let r := Room.run o [.arrive (post "Hello"), .turn 0, .arrive get, .turn 1,
      .arrive (post "World"), .turn 2, .turn 1] { floor := { service := { store := {} } } }
    let burnt : Kept := ⟨some 2, encode "World"⟩
    ∃ before x after, r.sent = before ++ x :: after ∧ x.command = burnCommand ⟨token⟩ ∧
      kept none before = some burnt ∧ x.answer = .ok (.integer 1) ∧
      ∃ middle, Replaced o r middle burnt := by
  intro token o call get post r burnt
  obtain ⟨-, htraced⟩ := burns_traced o .md5 token (by decide) {} rfl
    [.arrive (post "Hello"), .turn 0, .arrive get, .turn 1, .arrive (post "World"), .turn 2, .turn 1]
  have hlast : (r.sent.drop 3).map Sent.command = [burnCommand ⟨token⟩] := by decide +kernel
  obtain ⟨x, hdrop, hcommand⟩ := List.map_eq_singleton_iff.mp hlast
  have hsent : r.sent = r.sent.take 3 ++ [x] := by rw [← hdrop, List.take_append_drop]
  have hkept : kept none (r.sent.take 3) = some burnt := by decide +kernel
  have hreads : (r.sent.take 3).filterMap Sent.read? = [encode "Hello"] := by decide +kernel
  obtain ⟨first, y, middle, read, hbefore, -, -, -, hanswer, -, -, -, hhit⟩ :=
    htraced _ _ _ hsent hcommand
  have hread : read.body ∈ (r.sent.take 3).filterMap Sent.read? := by
    refine List.mem_filterMap.mpr ⟨y, ?_, by rw [Sent.read?, hanswer]⟩
    rw [hbefore]
    exact List.mem_append_right _ List.mem_cons_self
  rw [hreads, List.mem_singleton] at hread
  have hother : burnt ≠ read := by
    rintro rfl
    exact absurd hread (by decide +kernel)
  have hstart : ((({} : Volatile).live? (encode token)).map fun e => (⟨none, e.value⟩ : Kept)) =
      none := rfl
  rw [hstart, hkept] at hhit
  exact ⟨_, x, [], hsent, hcommand, hkept, hhit.1, middle, hhit.2.resolve_left hother⟩

/-- A reader burns an object that nobody has read: it read the one before, and the post came in
between. Where objects stay as they are, it takes a second reader to make room for the post. -/
theorem burn_hits_unread :
    let token := "9e107d9d372bb6826bd81d3542a419d6"
    let call (r : Request) : Call .md5 token := ⟨token, by decide +kernel, r, {}⟩
    let get := call ⟨.loopback, .get, "", none, none, 0, []⟩
    let post (text : String) := call ⟨.loopback, .post, "", none, none, 5, encode text⟩
    let room (o : Options) (moves : List (Move .md5 token)) :=
      Room.run o moves { floor := { service := { store := {} } } }
    let put (o : Options) (text : String) := putCommand o ⟨token⟩ (encode text)
    let fetch := fetchCommand ⟨token⟩
    let burn := burnCommand ⟨token⟩
    let commands (r : Room .md5 token) := r.sent.map fun x => (x.visit, x.command)
    let free : Options := { readOnce := true }
    let r := room free [.arrive (post "Hello"), .turn 0, .arrive get, .turn 1,
      .arrive (post "World"), .turn 2, .turn 1]
    let fixed : Options := { readOnce := true, writeOnce := true }
    let r' := room fixed [.arrive (post "Hello"), .turn 0, .arrive get, .arrive get, .turn 1,
      .turn 2, .turn 2, .arrive (post "World"), .turn 3, .turn 1]
    (commands r = [(0, put free "Hello"), (1, fetch), (2, put free "World"), (1, burn)] ∧
      r.sent.filterMap Sent.read? = [encode "Hello"] ∧
      r.outcome? 2 = some (.plain .ok "ok") ∧
      kept none (r.sent.take 3) = some ⟨some 2, encode "World"⟩ ∧ kept none r.sent = none) ∧
    (commands r' = [(0, put fixed "Hello"), (1, fetch), (2, fetch), (2, burn),
        (3, put fixed "World"), (1, burn)] ∧
      r'.sent.filterMap Sent.read? = [encode "Hello", encode "Hello"] ∧
      r'.outcome? 3 = some (.plain .ok "ok") ∧
      kept none (r'.sent.take 5) = some ⟨some 3, encode "World"⟩ ∧ kept none r'.sent = none) := by
  decide +kernel

end Depot.Objects
