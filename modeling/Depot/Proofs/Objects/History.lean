import Depot.Gateway
import Depot.Proofs.Objects.Keeping
import Depot.Proofs.Route.Table

/-! # A service with its store in memory is a shelf

Whatever happens to a service whose store is in memory, in whatever order, its clients see what they
would see of a shelf (`replies_seen`): the service mirrors a shelf at the start (`Mirrors`), and
everything that happens keeps it that way (`step_mirrors`). -/

namespace Depot.Objects

variable {o : Options} {g : Gateway Volatile} {s : Shelf}

/-- What happens to a service, with the reply if it is a request. -/
def Happening.step (g : Gateway Volatile) : Happening → Option Http.Reply × Gateway Volatile
  | .request d suffix r elapsed =>
    let answered := ((Gateway.responder elapsed).respond { r with path := d.route ++ suffix }).run g
    (some answered.1, answered.2)
  | .clock millis => (none, { g with service.store := g.service.store.elapse millis })
  | .net offline => (none, { g with service.store := g.service.store.cutOff offline })
  | .stop reason => (none, ((Gateway.onService (Service.raise reason)).run g).2)

/-- The replies to the requests among what happens, in order. -/
def replies : List Happening → Gateway Volatile → List Http.Reply
  | [], _ => []
  | h :: happenings, g => (h.step g).1.toList ++ replies happenings (h.step g).2

/-- The service is to its clients what the shelf is. -/
structure Mirrors (o : Options) (g : Gateway Volatile) (s : Shelf) : Prop where
  keeps : Keeps g.service.store s
  flag : g.service.flag.isRaised = s.down
  cores : g.routes.cores = coresOf o

/-- A request is answered as the endpoint of its digest answers it on the store, and the routes
stay what they were. -/
theorem request_step (hcores : g.routes.cores = coresOf o) {d : Digest} {suffix : String}
    {r : Http.Request} {outcome : Outcome} {m' : Volatile}
    (hreaches : (Endpoint.Object.endpoint d o g.service.flag suffix
      { r with path := d.route ++ suffix }).Reaches g.service.store outcome m') (elapsed : Nat) :
    ∃ routes events, (Happening.request d suffix r elapsed).step g =
        (some outcome.reply, { g with service := ⟨m', g.service.flag, events⟩, routes }) ∧
      routes.cores = coresOf o := by
  obtain ⟨route, hfind, hactive, hendpoint, hremainder⟩ := serving_object hcores d suffix
  obtain ⟨events, hrun⟩ := hreaches g.service.flag g.service.events
  have hanswer := Route.answer_serving (r := { r with path := d.route ++ suffix }) hfind hactive
    elapsed g.service
  rw [hendpoint, hremainder, hrun] at hanswer
  have hstep : (Happening.request d suffix r elapsed).step g =
      let answered := (g.routes.answer elapsed { r with path := d.route ++ suffix }).run g.service
      (some answered.1.1, { g with service := answered.2, routes := answered.1.2 }) := rfl
  rw [hstep, hanswer]
  refine ⟨_, events, rfl, ?_⟩
  rw [Route.cores_countAt, Route.cores_sampleAt, hcores]

/-- A request is answered by the endpoint of its digest, and the routes stay what they were. -/
theorem request_mirrors (h : Mirrors o g s) (hl : o.lifetime ≤ Text.Decimal.max63) (d : Digest)
    (suffix : String) (r : Http.Request) (elapsed : Nat) :
    ((Happening.request d suffix r elapsed).step g).1.map Seen.of =
        some (s.answer o d suffix r).1 ∧
      Mirrors o ((Happening.request d suffix r elapsed).step g).2 (s.answer o d suffix r).2 := by
  obtain ⟨outcome, m', hreaches, hseen, hkeeps⟩ :=
    endpoint_gives h.keeps hl h.flag d suffix { r with path := d.route ++ suffix }
  obtain ⟨routes, events, hstep, hcores⟩ := request_step h.cores hreaches elapsed
  rw [hstep]
  have hdown := (s.answer_aside o d suffix r).down
  exact ⟨congrArg some hseen, hkeeps, h.flag.trans hdown.symm, hcores⟩

/-- Everything that happens, the clock not wrapping, keeps a service a mirror of a shelf. -/
theorem step_mirrors (h : Mirrors o g s) (hl : o.lifetime ≤ Text.Decimal.max63)
    (happening : Happening) (hclock : s.now + happening.millis ≤ Text.Decimal.max64) :
    (happening.step g).1.map Seen.of = (s.step o happening).1 ∧
      Mirrors o (happening.step g).2 (s.step o happening).2 := by
  cases happening with
  | request d suffix r elapsed => exact request_mirrors h hl d suffix r elapsed
  | clock millis => exact ⟨rfl, h.keeps.elapse hclock, h.flag, h.cores⟩
  | net offline => exact ⟨rfl, h.keeps.cutOff offline, h.flag, h.cores⟩
  | stop reason =>
    have hraised (flag : StopFlag) : (flag.raise reason).isRaised = true := by
      cases flag with | mk earlier => cases earlier <;> rfl
    exact ⟨rfl, ⟨h.keeps.now, h.keeps.offline, h.keeps.live, h.keeps.text⟩,
      hraised g.service.flag, h.cores⟩

theorem replies_mirror (h : Mirrors o g s) (hl : o.lifetime ≤ Text.Decimal.max63)
    (happenings : List Happening) (hclock : s.now + elapsed happenings ≤ Text.Decimal.max64) :
    (replies happenings g).map Seen.of = s.run o happenings := by
  induction happenings generalizing g s with
  | nil => rfl
  | cons happening happenings ih =>
    rw [elapsed, ← Nat.add_assoc] at hclock
    obtain ⟨hreply, hnext⟩ := step_mirrors h hl happening (by omega)
    have hrest := ih hnext (by rw [Shelf.now_step]; exact hclock)
    rw [replies, Shelf.run, List.map_append, hrest, ← Option.toList_map, hreply]

/-- What a client sees of a service with its store in memory is what it would see of a shelf:
whatever happens in whatever order, as long as the clock does not wrap. -/
theorem replies_seen (o : Options) (timed : Bool) (start : Nat) (happenings : List Happening)
    (hl : o.lifetime ≤ Text.Decimal.max63)
    (hclock : start + elapsed happenings ≤ Text.Decimal.max64) :
    ∃ routes log, routeTable o timed = .ok (routes, log) ∧
      (replies happenings { service := { store := { now := start } }, routes }).map Seen.of =
        Shelf.run o happenings { now := start } := by
  obtain ⟨routes, log, htable, hcores⟩ := routeTable_cores o timed
  have hfresh : Mirrors o { service := { store := { now := start } }, routes } { now := start } :=
    { keeps := ⟨rfl, rfl, fun _ => rfl, fun _ _ h => nomatch h⟩
      flag := rfl
      cores := hcores }
  exact ⟨routes, log, htable, replies_mirror hfresh hl happenings hclock⟩

/-- An object is posted once, read once, posted again and gone a minute later; the store goes off
the net, comes back, and the service stops. -/
theorem replies_seen_minute :
    let o : Options := { lifetime := 60, writeOnce := true, readOnce := true }
    let get (suffix : String) : Happening :=
      .request .md5 suffix ⟨.loopback, .get, "", none, none, 0, []⟩ 7
    let post (suffix body : String) : Happening :=
      .request .md5 suffix ⟨.loopback, .post, "", none, none, 5, Text.Utf8.encode body⟩ 7
    let upper := "0123456789ABCDEF0123456789ABCDEF"
    let lower := "0123456789abcdef0123456789abcdef"
    let happenings := [post upper "Hello", post lower "World", .clock 59999, get lower, get lower,
      post lower "World", .clock 60000, get upper, .net true, get lower, get "0x", .net false,
      .stop .signal, get lower]
    ∃ routes log, routeTable o false = .ok (routes, log) ∧
      (replies happenings { service := { store := { now := 1000 } }, routes }).map Seen.of =
        [.text 200 "ok", .text 304 "object immutable - not modified", .text 200 "Hello",
          .text 404 "not found", .text 200 "ok", .text 404 "not found",
          .text 503 "service unavailable", .text 400 "malformed request",
          .text 503 "service unavailable: shutting down"] := by
  intro o get post upper lower happenings
  have hlifetime : o.lifetime ≤ Text.Decimal.max63 := by decide
  have hclock : 1000 + elapsed happenings ≤ Text.Decimal.max64 := by decide
  obtain ⟨routes, log, htable, hreplies⟩ :=
    replies_seen o false 1000 happenings hlifetime hclock
  refine ⟨routes, log, htable, hreplies.trans ?_⟩
  decide +kernel

end Depot.Objects
