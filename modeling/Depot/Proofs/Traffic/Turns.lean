import Depot.Proofs.Address
import Depot.Proofs.Objects.History
import Depot.Proofs.Store.Locality

/-! # Clients at the door and at the shelf

A service with a quota decides on the clients that arrive and answers their requests, both on one
store. Every turn stays within the slots of its own (`Turn.keys`): an arrival within the counter of
its address, a request within the object it names. So a turn leaves all other slots alone
(`step_frame`), and it comes to the same on two services that agree on its slots (`step_agree`). -/

namespace Depot

open Text.Utf8 (encode)
open Volatile (Agree Frame)

/-! ## What endpoints and quotas ask of the store -/

namespace Objects

open Dialogue (Within within_pure within_report within_send)

variable {keys : Set Bytes} {o : Options} {d : Digest} {suffix token : String} {r : Http.Request}

/-- Most dialogues end with a report and an answer. -/
theorem reply_within (event : Event) (outcome : Outcome) :
    Within keys (do Dialogue.report event; return outcome) :=
  within_report event (within_pure keys outcome)

theorem burn_within (d : Digest) (hkey : encode token ∈ keys) :
    Within keys (Endpoint.Object.burn d ⟨token⟩) := by
  refine within_send (Volatile.keyed_del _) hkey fun answer => ?_
  cases answer with
  | ok value => exact within_pure keys ()
  | error e => exact within_report _ (within_pure keys ())

theorem get_within (h : ∀ token, token? d suffix = some token → encode token ∈ keys) :
    Within keys (Endpoint.Object.get d o suffix r) := by
  unfold Endpoint.Object.get
  cases htoken : token? d suffix with
  | none =>
    obtain ⟨e, he⟩ := parse_error htoken
    simp only [he]
    exact reply_within _ _
  | some token =>
    have hkey := h token htoken
    simp only [parse_eq htoken]
    refine within_send (Volatile.keyed_get _) hkey fun answer => ?_
    split
    · split
      · exact (burn_within d hkey).bind fun _ => reply_within _ _
      · exact reply_within _ _
    · split
      · exact within_report _ (reply_within _ _)
      · exact reply_within _ _
    · exact reply_within _ _

theorem store_within (hkey : encode token ∈ keys) :
    Within keys (Endpoint.Object.store d o suffix r ⟨token⟩) := by
  refine within_send (Volatile.keyed_set _ _ _) hkey fun answer => ?_
  split
  · exact reply_within _ _
  · exact reply_within _ _
  · split
    · exact reply_within _ _
    · exact reply_within _ _
  · split
    · exact reply_within _ _
    · exact reply_within _ _

theorem post_within (h : ∀ token, token? d suffix = some token → encode token ∈ keys) :
    Within keys (Endpoint.Object.post d o suffix r) := by
  unfold Endpoint.Object.post
  split
  · exact reply_within _ _
  · cases htoken : token? d suffix with
    | none =>
      obtain ⟨e, he⟩ := parse_error htoken
      simp only [he]
      exact reply_within _ _
    | some token =>
      simp only [parse_eq htoken]
      exact store_within (h token htoken)

/-- Requests on an object stay within its slot; those that name none do without the store. -/
theorem endpoint_within (flag : StopFlag)
    (h : ∀ token, token? d suffix = some token → encode token ∈ keys) :
    Within keys (Endpoint.Object.endpoint d o flag suffix r) := by
  unfold Endpoint.Object.endpoint
  split
  · exact within_pure keys _
  split
  · exact get_within h
  · exact post_within h
  · exact reply_within _ _

end Objects

namespace Quota

open Dialogue (Within within_pure within_report within_send)

variable {keys : Set Bytes}

theorem update_within {key : Bytes} {c : Resp.Command} (address : Address) (refused failed : String)
    (hc : Volatile.Keyed key c) (hkey : key ∈ keys) :
    Within keys (update address c refused failed) := by
  refine within_send hc hkey fun answer => ?_
  split
  · exact within_report _ (within_pure keys ())
  · exact within_pure keys ()
  · exact within_report _ (within_pure keys ())

/-- An arrival stays within the counter of its address. -/
theorem allows_within (l : Quota) (client : Address) (hkey : key client.canonical ∈ keys) :
    Within keys (l.allows client) := by
  unfold allows
  split
  · exact within_pure keys true
  · refine within_send (Volatile.keyed_get _) hkey fun answer => ?_
    split
    · exact (update_within _ _ _ (Volatile.keyed_set _ _ _) hkey).bind fun _ =>
        within_report _ (within_pure keys true)
    · simp only
      split
      · exact (update_within _ _ _ (Volatile.keyed_incr _) hkey).bind fun _ =>
          within_report _ (within_pure keys true)
      · exact within_report _ (within_pure keys false)
    · exact within_report _ (within_pure keys false)
    · exact within_report _ (within_pure keys false)

end Quota

/-! ## The slots are apart -/

/-- The slot of an object; there is none behind a text that names no object. -/
def Objects.keys (d : Digest) (suffix : String) : Set Bytes :=
  {key | ∃ token, token? d suffix = some token ∧ encode token = key}

/-- Each address has a counter of its own. -/
theorem Quota.key_inj {a b : Address} : Quota.key a = Quota.key b ↔ a = b := by
  refine ⟨fun h => ?_, congrArg Quota.key⟩
  have htext := congrArg String.toList (Text.Utf8.encode_inj.mp h)
  rw [String.toList_append, String.toList_append] at htext
  exact Address.render_inj.mp (String.toList_inj.mp (List.append_cancel_left htext))

/-- The keys of counters start with a letter that is none in lower case. -/
theorem toLower_ne (c : Char) : c.toLower ≠ 'I' := by
  intro h
  unfold Char.toLower at h
  split at h
  · next hupper =>
    have hval := congrArg (fun c : Char => c.val.toNat) h
    have hlow := UInt32.le_iff_toNat_le.mp hupper.1
    have hhigh := UInt32.le_iff_toNat_le.mp hupper.2
    simp only [UInt32.toNat_add] at hval
    simp at hval hlow hhigh
    omega
  · next hnot => exact hnot (by rw [h]; decide)

/-- No object is in the slot of a counter, since tokens are in lower case. -/
theorem Quota.key_notMem (address : Address) (d : Digest) (suffix : String) :
    Quota.key address ∉ Objects.keys d suffix := by
  rintro ⟨token, h, hkey⟩
  have htext := congrArg String.toList (Text.Utf8.encode_inj.mp hkey.symm)
  unfold Objects.token? at h
  split at h
  · cases h
    rw [String.toList_ofList, String.toList_append] at htext
    have hupper : 'I' ∈ suffix.toList.map Char.toLower := by
      rw [← htext]
      exact List.mem_append_left _ (by decide)
    obtain ⟨c, -, hc⟩ := List.mem_map.mp hupper
    exact toLower_ne c hc
  · cases h

/-! ## Turns -/

namespace Traffic

open Objects (Happening)

/-- What may happen to a service with a quota. -/
inductive Turn where
  /-- A client opens a connection. -/
  | arrival (client : Address)
  | happening (h : Happening)

/-- What comes of a turn. -/
inductive Response where
  | decision (admitted : Bool)
  | reply (reply : Http.Reply)
  | silence

def Response.decision? : Response → Option Bool
  | .decision admitted => some admitted
  | _ => none

namespace Turn

def step (g : Gateway Volatile) : Turn → Response × Gateway Volatile
  | .arrival client =>
    let decided := (Gateway.allows client).run g
    (.decision decided.1, decided.2)
  | .happening h => ((h.step g).1.elim .silence .reply, (h.step g).2)

/-- The slots that a turn has to do with. -/
def keys : Turn → Set Bytes
  | .arrival client => {Quota.key client.canonical}
  | .happening (.request d suffix _ _) => Objects.keys d suffix
  | .happening _ => ∅

/-- Whether a client brings the turn about, be it by arriving or by a request. -/
def isClients : Turn → Bool
  | .arrival _ => true
  | .happening (.request ..) => true
  | .happening _ => false

end Turn

/-- What comes of turns taken one after the other. -/
def trace : List Turn → Gateway Volatile → List (Turn × Response)
  | [], _ => []
  | t :: turns, g => (t, (t.step g).1) :: trace turns (t.step g).2

/-- The service after turns. -/
def after (turns : List Turn) (g : Gateway Volatile) : Gateway Volatile :=
  turns.foldl (fun g t => (t.step g).2) g

/-- The decisions on the arrivals among turns. -/
def decisions (turns : List Turn) (g : Gateway Volatile) : List Bool :=
  (trace turns g).filterMap fun x => x.2.decision?

/-- A service with the object routes and a quota. -/
structure Serves (o : Options) (l : Quota) (g : Gateway Volatile) : Prop where
  cores : g.routes.cores = coresOf o
  quota : g.quota = some l

variable {o : Options} {l : Quota} {g g₁ g₂ : Gateway Volatile} {keys : Set Bytes} {t : Turn}

theorem Serves.onService (h : Serves o l g) (service : Service Volatile) :
    Serves o l { g with service } := ⟨h.cores, h.quota⟩

/-- An arrival is decided as the quota decides on the store. -/
theorem arrival_step (h : Serves o l g) {client : Address} {admitted : Bool} {m' : Volatile}
    (hreaches : (l.allows client).Reaches g.service.store admitted m') :
    ∃ events, (Turn.arrival client).step g =
      (.decision admitted, { g with service := ⟨m', g.service.flag, events⟩ }) := by
  obtain ⟨service, routes, quota, bounds, idle⟩ := g
  obtain rfl : quota = some l := h.quota
  obtain ⟨events, hrun⟩ := hreaches service.flag service.events
  have hstep : (Turn.arrival client).step ⟨service, routes, some l, bounds, idle⟩ =
      let decided := (l.allows client).run service
      (.decision decided.1, ⟨decided.2, routes, some l, bounds, idle⟩) := rfl
  exact ⟨events, by rw [hstep, hrun]⟩

/-- Two services that are the same to whoever asks for some slots only. -/
structure Alike (o : Options) (l : Quota) (keys : Set Bytes) (g₁ g₂ : Gateway Volatile) : Prop where
  first : Serves o l g₁
  second : Serves o l g₂
  flag : g₁.service.flag = g₂.service.flag
  store : Agree keys g₁.service.store g₂.service.store

theorem Alike.refl (h : Serves o l g) (keys : Set Bytes) : Alike o l keys g g :=
  ⟨h, h, rfl, rfl, rfl, fun _ _ => rfl⟩

/-- A service after a turn that had to do with some slots only. -/
structure Spares (o : Options) (l : Quota) (keys : Set Bytes) (g g' : Gateway Volatile) : Prop where
  serves : Serves o l g'
  flag : g'.service.flag = g.service.flag
  store : Frame keys g.service.store g'.service.store

/-- A client's turn comes to the same on services that agree on its slots, keeps them alike, and
spares all other slots. -/
theorem client_step (h : Alike o l keys g₁ g₂) (ht : t.isClients = true) (hkeys : t.keys ⊆ keys) :
    (t.step g₁).1 = (t.step g₂).1 ∧ Alike o l keys (t.step g₁).2 (t.step g₂).2 ∧
      Spares o l keys g₁ (t.step g₁).2 := by
  cases t with
  | arrival client =>
    obtain ⟨admitted, m₁', m₂', hreaches₁, hreaches₂, hagree, hframe, -⟩ :=
      l.allows_within client (hkeys rfl) _ _ h.store
    obtain ⟨events₁, hstep₁⟩ := arrival_step h.first hreaches₁
    obtain ⟨events₂, hstep₂⟩ := arrival_step h.second hreaches₂
    rw [hstep₁, hstep₂]
    exact ⟨rfl, ⟨h.first.onService _, h.second.onService _, h.flag, hagree⟩, h.first.onService _,
      rfl, hframe⟩
  | happening happening =>
    cases happening with
    | request d suffix r elapsed =>
      obtain ⟨outcome, m₁', m₂', hreaches₁, hreaches₂, hagree, hframe, -⟩ :=
        Objects.endpoint_within (o := o) (r := { r with path := d.route ++ suffix })
          g₁.service.flag (fun token htoken => hkeys ⟨token, htoken, rfl⟩) _ _ h.store
      rw [h.flag] at hreaches₂
      obtain ⟨routes₁, events₁, hstep₁, hcores₁⟩ :=
        Objects.request_step h.first.cores hreaches₁ elapsed
      obtain ⟨routes₂, events₂, hstep₂, hcores₂⟩ :=
        Objects.request_step h.second.cores hreaches₂ elapsed
      rw [Turn.step, Turn.step, hstep₁, hstep₂]
      exact ⟨rfl, ⟨⟨hcores₁, h.first.quota⟩, ⟨hcores₂, h.second.quota⟩, h.flag, hagree⟩,
        ⟨hcores₁, h.first.quota⟩, rfl, hframe⟩
    | clock millis => cases ht
    | net offline => cases ht
    | stop reason => cases ht

/-- Every turn comes to the same on services that agree on its slots, and keeps them alike. -/
theorem step_agree (h : Alike o l keys g₁ g₂) (hkeys : t.keys ⊆ keys) :
    (t.step g₁).1 = (t.step g₂).1 ∧ Alike o l keys (t.step g₁).2 (t.step g₂).2 := by
  cases t with
  | arrival client =>
    obtain ⟨hresponse, halike, -⟩ := client_step h rfl hkeys
    exact ⟨hresponse, halike⟩
  | happening happening =>
    cases happening with
    | request d suffix r elapsed =>
      obtain ⟨hresponse, halike, -⟩ := client_step h rfl hkeys
      exact ⟨hresponse, halike⟩
    | clock millis =>
      have hnow : (g₁.service.store.now + millis) % (Text.Decimal.max64 + 1) =
          (g₂.service.store.now + millis) % (Text.Decimal.max64 + 1) := by rw [h.store.now]
      exact ⟨rfl, h.first.onService _, h.second.onService _, h.flag, hnow,
        h.store.offline, h.store.slots⟩
    | net offline =>
      exact ⟨rfl, h.first.onService _, h.second.onService _, h.flag, h.store.now, rfl,
        h.store.slots⟩
    | stop reason =>
      have hflag : g₁.service.flag.raise reason = g₂.service.flag.raise reason := by rw [h.flag]
      exact ⟨rfl, h.first.onService _, h.second.onService _, hflag, h.store.now, h.store.offline,
        h.store.slots⟩

/-- A client's turn leaves alone all slots but its own. -/
theorem step_frame (h : Serves o l g) (ht : t.isClients = true) :
    Spares o l t.keys g (t.step g).2 :=
  (client_step (.refl h t.keys) ht subset_rfl).2.2

/-- Serving goes on through every turn. -/
theorem step_serves (h : Serves o l g) (t : Turn) : Serves o l (t.step g).2 :=
  (step_agree (.refl h t.keys) subset_rfl).2.first

theorem after_serves (h : Serves o l g) (turns : List Turn) : Serves o l (after turns g) := by
  induction turns generalizing g with
  | nil => exact h
  | cons t turns ih => exact ih (step_serves h t)

end Traffic

end Depot
