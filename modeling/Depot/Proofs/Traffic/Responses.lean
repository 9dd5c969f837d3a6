import Depot.Gateway
import Depot.Proofs.Http.Exchanges
import Depot.Proofs.Route.Table
import Depot.Proofs.Store.Dialogue

/-! # Responses to clients

What a client of the service gets over one connection are the replies to its requests, in order
(`Http.Connection.run_kept`), and it reads them off as they are, as long as none of them says that
an object was not modified: such a reply has a body that its status rules out, and a client that
leaves the body alone is lost behind it (`responses_read`). -/

namespace Depot

open Http (Reply Response Request)
open Http.Client (finals isBodiless protocol)

/-- The one outcome with a body that no client looks for. -/
def Outcome.unchanged : Outcome := .plain .notModified "object immutable - not modified"

/-- Whether a client looks for the body of an outcome, or the outcome is the one for objects that
were not modified. -/
def Outcome.Known (outcome : Outcome) : Prop :=
  isBodiless outcome.reply.status.code = false ∨ outcome = .unchanged

namespace Endpoint

open Dialogue (Always always_report always_send)

variable {r : Request}

theorem refuseMethod_known (r : Request) (allow : String) :
    (refuseMethod r allow).Always Outcome.Known :=
  always_report _ (.inl rfl)

theorem malformed_known (r : Request) (remainder text : String) :
    (Object.malformed r remainder text).Always Outcome.Known :=
  always_report _ (.inl rfl)

theorem get_known (d : Digest) (o : Options) (remainder : String) (r : Request) :
    (Object.get d o remainder r).Always Outcome.Known := by
  unfold Object.get
  split
  · exact malformed_known r remainder _
  · next t _ =>
    refine always_send _ fun answer => ?_
    split
    · next value =>
      split
      · refine Always.bind (R := fun _ => True) ?_ fun _ _ => always_report _ (.inl rfl)
        refine always_send _ fun answer => ?_
        cases answer with
        | ok value => exact trivial
        | error e => exact always_report _ trivial
      · exact always_report _ (.inl rfl)
    · next other _ =>
      split
      · exact always_report _ (always_report _ (.inl rfl))
      · exact always_report _ (.inl rfl)
    · exact always_report _ (.inl rfl)

theorem store_known (d : Digest) (o : Options) (remainder : String) (r : Request) (t : Token) :
    (Object.store d o remainder r t).Always Outcome.Known := by
  refine always_send _ fun answer => ?_
  split
  · exact always_report _ (.inr rfl)
  · exact always_report _ (.inl rfl)
  · split
    · exact always_report _ (.inl rfl)
    · exact always_report _ (.inl rfl)
  · split
    · exact always_report _ (.inl rfl)
    · exact always_report _ (.inl rfl)

theorem post_known (d : Digest) (o : Options) (remainder : String) (r : Request) :
    (Object.post d o remainder r).Always Outcome.Known := by
  unfold Object.post
  split
  · exact malformed_known r remainder _
  · split
    · exact malformed_known r remainder _
    · exact store_known d o remainder r _

theorem object_known (d : Digest) (o : Options) (flag : StopFlag) (remainder : String)
    (r : Request) : (Object.endpoint d o flag remainder r).Always Outcome.Known := by
  unfold Object.endpoint
  split
  · exact .inl rfl
  · split
    · exact get_known d o remainder r
    · exact post_known d o remainder r
    · exact refuseMethod_known r _

theorem optionList_known (o : Options) (flag : StopFlag) (remainder : String) (r : Request) :
    (OptionList.endpoint o flag remainder r).Always Outcome.Known := by
  unfold OptionList.endpoint
  split
  · exact .inl rfl
  · split
    · simp only
      split
      · exact .inl rfl
      · exact .inl rfl
    · exact refuseMethod_known r _

end Endpoint

/-- The endpoints of the service, whatever it serves. -/
theorem endpoint_known {o : Options} {base : String} {endpoint : Endpoint}
    (h : (base, endpoint) ∈ routeList o) (flag : StopFlag) (remainder : String) (r : Request) :
    (endpoint flag remainder r).Always Outcome.Known := by
  rcases List.mem_append.mp h with hobject | hlist
  · obtain ⟨d, -, heq⟩ := List.mem_map.mp hobject
    cases heq
    exact Endpoint.object_known d o flag remainder r
  · cases List.mem_singleton.mp hlist
    exact Endpoint.optionList_known o flag remainder r

/-- Replies to requests: one that a client reads as it is, or the one for objects that were not
modified. -/
def Http.Reply.Known (r : Reply) : Prop :=
  isBodiless r.status.code = false ∨ r = Outcome.unchanged.reply

theorem Http.Reply.Known.bodied {r : Reply} (h : r.Known) (hstatus : r.status ≠ .notModified) :
    isBodiless r.status.code = false := by
  obtain hbody | rfl := h
  · exact hbody
  · exact absurd rfl hstatus

theorem Http.Reply.Known.eq_unchanged {r : Reply} (h : r.Known) (hstatus : r.status = .notModified) :
    r = Outcome.unchanged.reply := by
  obtain hbody | rfl := h
  · rw [hstatus] at hbody
    cases hbody
  · rfl

/-- What the reply for objects that were not modified has for a body is the start of no response. -/
theorem unchanged_body (t : Bytes) :
    Outcome.unchanged.reply.body ++ t ≠ [] ∧ ¬ protocol <+: Outcome.unchanged.reply.body ++ t := by
  have hbody : Outcome.unchanged.reply.body =
      0x6F :: Text.Utf8.encode "bject immutable - not modified" := by decide +kernel
  have hprotocol : protocol = 0x48 :: Text.Utf8.encode "TTP/1.1 " := by decide +kernel
  rw [hbody, hprotocol]
  refine ⟨nofun, fun hprefix => ?_⟩
  exact absurd (List.cons_prefix_cons.mp hprefix).1 (by decide)

/-- What a client makes of the replies of the service and of what may stand behind them. -/
theorem finals_known {sent : Bytes} {replies last : List Reply}
    (h : Http.Transcript sent (replies ++ last)) (hknown : ∀ r ∈ replies, r.Known)
    (hlast : ∀ r ∈ last, isBodiless r.status.code = false) :
    finals sent =
      if ∀ r ∈ replies, r.status ≠ .notModified then some ((replies ++ last).map Response.of)
      else none := by
  split
  · next hall =>
    refine h.finals fun r hr => ?_
    rcases List.mem_append.mp hr with hr | hr
    · exact (hknown r hr).bodied (hall r hr)
    · exact hlast r hr
  · next hsome =>
    -- the client is lost behind the first such reply
    cases hfind : replies.find? (fun r => decide (r.status = .notModified)) with
    | none =>
      rw [List.find?_eq_none] at hfind
      exact absurd (fun r hr => by simpa using hfind r hr) hsome
    | some r =>
      obtain ⟨hr, before, after, rfl, hbefore⟩ := List.find?_eq_some_iff_append.mp hfind
      have hr : r.status = .notModified := by simpa using hr
      have hmem : r ∈ before ++ r :: after := List.mem_append_right _ List.mem_cons_self
      obtain rfl := (hknown r hmem).eq_unchanged hr
      rw [List.append_assoc, List.cons_append] at h
      refine h.finals_none (fun r hr => ?_) rfl (by decide) unchanged_body
      exact (hknown r (List.mem_append_left _ hr)).bodied (by simpa using hbefore r hr)

namespace Gateway

open Http.Connection (Keeps Kept run run_follows run_kept)

variable {σ : Type} {o : Options}

/-- Whether the service has the routes that it is set up with, each of them on or off. -/
def Routed (o : Options) (g : Gateway σ) : Prop :=
  g.routes.routes.map (fun route => (route.base, route.endpoint)) = routeList o

theorem routed_iff {g : Gateway σ} :
    g.Routed o ↔ g.routes.cores.map (fun entry => (entry.1, entry.2.1)) = routeList o := by
  rw [Routed, Route.Table.cores, List.map_map]
  rfl

theorem answer_known [Store σ] {g : Gateway σ} (h : g.Routed o) (elapsed : Nat) (r : Request) :
    let answered := g.routes.answer elapsed r g.service
    answered.1.1.Known ∧ answered.1.2.cores = g.routes.cores := by
  unfold Route.Table.answer
  cases hfind : g.routes.find? r.path with
  | none => exact ⟨.inl rfl, rfl⟩
  | some route =>
    cases hactive : route.active with
    | false =>
      simp only [hactive]
      exact ⟨.inl rfl, rfl⟩
    | true =>
      simp only [hactive]
      have hroute : (route.base, route.endpoint) ∈ routeList o := by
        rw [← h]
        exact List.mem_map_of_mem (List.mem_of_find?_eq_some hfind)
      have hknown := (endpoint_known hroute g.service.flag (route.remainder r.path) r).run g.service
      refine ⟨?_, (Route.cores_countAt _ _).trans (Route.cores_sampleAt _ _ _)⟩
      exact hknown.imp_right fun heq => congrArg Outcome.reply heq

theorem responder_keeps [Store σ] (o : Options) (elapsed : Nat) :
    Keeps (Routed o) Http.Reply.Known (responder elapsed : Http.Responder (Gateway σ)) where
  respond {g} r h := by
    obtain ⟨hreply, hcores⟩ := answer_known h elapsed r
    refine ⟨hreply, ?_⟩
    rw [routed_iff] at h ⊢
    rw [← h, ← hcores]
    rfl
  report event h := h

/-- Of a connection whose exchanges are logged a client reads off the replies that were logged. -/
theorem finals_logged [Store σ] {g : Gateway σ} (h : g.Routed o) (elapsed : Nat) (client : Address)
    (signals : List Http.Connection.Signal) :
    let logged := run (responder elapsed).logging signals (g.connection client) (g, [])
    let replies := logged.2.2.map Prod.snd
    ∃ last, logged.1.Closing last ∧
      finals logged.1.sent =
        if ∀ r ∈ replies, r.status ≠ .notModified then some ((replies ++ last).map Response.of)
        else none := by
  intro logged replies
  have hfresh : Kept (Routed o) Http.Reply.Known (g.connection client) (g, []) :=
    ⟨rfl, h, fun _ hmem => absurd hmem List.not_mem_nil, [], .nothing, .inl rfl⟩
  have hkept := run_kept (responder_keeps o elapsed) signals hfresh
  obtain ⟨last, hsent, hclosing⟩ := hkept.sent
  have hknown : ∀ r ∈ replies, r.Known := by
    intro r hr
    obtain ⟨exchange, hexchange, rfl⟩ := List.mem_map.mp hr
    exact hkept.replies exchange hexchange
  have hlast : ∀ r ∈ last, isBodiless r.status.code = false := by
    obtain rfl | ⟨rfl, -⟩ := hclosing
    · nofun
    · simp [Reply.bare, isBodiless, Http.Status.badRequest]
  exact ⟨last, hclosing, finals_known hsent hknown hlast⟩

/-- Where a reply says that an object was not modified, the client reads nothing that makes sense. -/
theorem finals_lost [Store σ] {g : Gateway σ} (h : g.Routed o) {elapsed : Nat} {client : Address}
    {signals : List Http.Connection.Signal}
    {logged : Http.Connection × Gateway σ × List (Request × Reply)}
    (hlogged : run (responder elapsed).logging signals (g.connection client) (g, []) = logged)
    (hmem : 304 ∈ logged.2.2.map fun exchange => exchange.2.status.code) :
    finals logged.1.sent = none := by
  obtain ⟨last, -, hread⟩ := finals_logged h elapsed client signals
  rw [hlogged] at hread
  obtain ⟨exchange, hexchange, hcode⟩ := List.mem_map.mp hmem
  refine hread.trans (if_neg fun hall => hall _ (List.mem_map_of_mem hexchange) ?_)
  cases hstatus : exchange.2.status with
  | mk code _ =>
    rw [hstatus] at hcode
    cases hcode
    rfl

/-- **A client reads off the replies to its requests.** Whatever the service is asked over one
connection, in whatever pieces and with whatever pauses, and whatever the store answers: what is
sent splits into one final response for each request that was dispatched, in order, with the status
and the body of its reply, and one more at the end where the stream was no request. That is so just
as long as no reply says that an object was not modified. -/
theorem responses_read [Store σ] (o : Options) (elapsed : Nat) (g : Gateway σ) (client : Address)
    (signals : List Http.Connection.Signal) (h : g.Routed o) :
    let d : Http.Responder (Gateway σ) := responder elapsed
    let ended := run d signals (g.connection client) g
    let logged := run d.logging signals (g.connection client) (g, [])
    let replies := logged.2.2.map Prod.snd
    logged.1 = ended.1 ∧ logged.2.1 = ended.2 ∧
      ∃ last, ended.1.Closing last ∧
        finals ended.1.sent =
          if ∀ r ∈ replies, r.status ≠ .notModified then some ((replies ++ last).map Response.of)
          else none := by
  intro d ended logged replies
  obtain ⟨hconnection, hstate⟩ := run_follows d (g.connection client) signals g []
  obtain ⟨last, hclosing, hread⟩ := finals_logged h elapsed client signals
  exact ⟨hconnection, hstate, last, hconnection ▸ hclosing, hconnection ▸ hread⟩

/-- A service on an empty store in memory, with the routes that it is set up with. -/
def inMemory (o : Options) : Gateway Volatile where
  service := { store := {} }
  routes := ((routeTable o false).toOption.map Prod.fst).getD {}

theorem inMemory_routed (o : Options) : (inMemory o).Routed o := by
  obtain ⟨routes, log, htable, hcores⟩ := routeTable_cores o false
  have hroutes : (inMemory o).routes = routes := by
    rw [inMemory, htable]
    rfl
  rw [routed_iff, hroutes, hcores, coresOf, List.map_map]
  exact List.map_id _

/-- An object is posted, and read behind the sign to go on and an idle time. -/
theorem responses_read_pipelined :
    let text := Text.Utf8.encode
    let g := inMemory {}
    let token := "/store/128/9e107d9d372bb6826bd81d3542a419d6"
    let signals : List Http.Connection.Signal :=
      [.bytes (text ("POST " ++ token ++
          " HTTP/1.1\r\nExpect: 100-continue\r\nContent-Length: 10\r\n\r\nHello")),
        .time 29000, .bytes (text ("WorldGET " ++ token ++ " HTTP/1.1\r\n\r\n")), .ended]
    g.Routed {} ∧
      finals (run (responder 7) signals (g.connection (.v4 10 0 0 7)) g).1.sent =
        some [⟨200, text "ok"⟩, ⟨200, text "HelloWorld"⟩] := by
  intro text g token signals
  have hrouted : g.Routed {} := inMemory_routed {}
  obtain ⟨hconnection, -, last, hclosing, hread⟩ :=
    responses_read {} 7 g (.v4 10 0 0 7) signals hrouted
  have hlogged : ((run (responder 7).logging signals (g.connection (.v4 10 0 0 7)) (g, [])).1.ending?,
      (run (responder 7).logging signals (g.connection (.v4 10 0 0 7)) (g, [])).2.2.map Prod.snd) =
      (some .closed, [(Outcome.plain .ok "ok").reply, (Outcome.plain .ok "HelloWorld").reply]) := by
    decide +kernel
  generalize run (responder 7).logging signals (g.connection (.v4 10 0 0 7)) (g, []) = logged,
    run (responder 7) signals (g.connection (.v4 10 0 0 7)) g = ended
    at hconnection hclosing hread hlogged ⊢
  obtain ⟨hending, hreplies⟩ := Prod.mk.inj hlogged
  refine ⟨hrouted, ?_⟩
  rw [hread, hreplies, if_pos (by decide)]
  obtain rfl | ⟨-, hunreadable⟩ := hclosing
  · rfl
  · rw [← hconnection, hending] at hunreadable
    cases hunreadable

/-- An object that stays as it is is posted twice and read. The second reply is for an object that
was not modified, and behind it the client reads nothing that makes sense. -/
theorem responses_lost_behind_unchanged :
    let text := Text.Utf8.encode
    let g := inMemory { writeOnce := true }
    let token := "/store/128/9e107d9d372bb6826bd81d3542a419d6"
    let post (body : String) := text ("POST " ++ token ++
      " HTTP/1.1\r\nContent-Length: 10\r\n\r\n" ++ body)
    let signals : List Http.Connection.Signal :=
      [.bytes (post "HelloWorld" ++ post "WorldHello" ++ text ("GET " ++ token ++
        " HTTP/1.1\r\n\r\n")), .ended]
    let logged := run (responder 7).logging signals (g.connection (.v4 10 0 0 7)) (g, [])
    (logged.2.2.map fun exchange => exchange.2.status.code) = [200, 304, 200] ∧
      finals logged.1.sent ≠ some (logged.2.2.map fun exchange => Response.of exchange.2) := by
  intro text g token post signals logged
  have hrouted : g.Routed { writeOnce := true } := inMemory_routed _
  have hcodes : (logged.2.2.map fun exchange => exchange.2.status.code) = [200, 304, 200] := by
    decide +kernel
  have hlogged : run (responder 7).logging signals (g.connection (.v4 10 0 0 7)) (g, []) = logged :=
    rfl
  clear_value logged
  refine ⟨hcodes, ?_⟩
  rw [finals_lost hrouted hlogged (by rw [hcodes]; simp)]
  exact (Option.some_ne_none _).symm

end Gateway

end Depot
