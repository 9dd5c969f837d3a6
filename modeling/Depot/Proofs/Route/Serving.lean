import Depot.Store.Volatile
import Depot.Proofs.Route.Table

/-! # What a table of routes serves

A table takes new routes, switches them, and answers requests. Whatever it was asked to do before,
a request goes to the first route whose base starts its path byte for byte, and to no endpoint if
that route is off or there is none; and each route has counted just the requests on which its
endpoint ran (`answers_served`). The table changes routes by their number, which is their position
plus one from the first on (`Tallied`). -/

namespace Depot

namespace Route

variable {η : Type}

/-! ## Which route a path goes to -/

/-- The bytes of the base start those of the path. -/
def Starts (base path : String) : Prop := Text.Utf8.encode base <+: Text.Utf8.encode path

theorem serves_iff (route : Route η) (path : String) :
    route.serves path = true ↔ Starts route.base path := by
  rw [serves, List.isPrefixOf_iff_prefix, Starts, Text.Utf8.encode_prefix_iff]
  constructor
  · rintro ⟨rest, h⟩
    exact ⟨String.ofList rest, String.toList_inj.mp (by simpa using h)⟩
  · rintro ⟨rest, rfl⟩
    exact ⟨rest.toList, String.toList_append.symm⟩

/-- Behind the base comes the remainder. -/
theorem base_append_remainder {route : Route η} {path : String} (h : Starts route.base path) :
    route.base ++ route.remainder path = path := by
  obtain ⟨rest, rfl⟩ := Text.Utf8.encode_prefix_iff.mp h
  rw [remainder, String.toList_append, Text.Utf8.dropBytes?_append, Option.map_some,
    Option.getD_some, String.ofList_toList]

/-- The first route of a table whose base starts a path, and its position. -/
structure First (t : Table η) (path : String) (i : Nat) (route : Route η) : Prop where
  here : t.routes[i]? = some route
  starts : Starts route.base path
  earlier : ∀ j < i, ∀ other, t.routes[j]? = some other → ¬Starts other.base path

variable {t : Table η} {path : String} {i : Nat} {route : Route η}

theorem First.position (h : First t path i route) :
    t.routes.findIdx? (fun route => route.serves path) = some i := by
  obtain ⟨hlt, rfl⟩ := List.getElem?_eq_some_iff.mp h.here
  rw [List.findIdx?_eq_some_iff_getElem]
  refine ⟨hlt, (serves_iff _ path).mpr h.starts, fun j hj hserves => ?_⟩
  exact h.earlier j hj _ (List.getElem?_eq_getElem (by omega)) ((serves_iff _ path).mp hserves)

/-- A table finds the first route whose base starts the path, if there is one. -/
theorem find?_cases (t : Table η) (path : String) :
    (t.find? path = none ∧ ∀ route ∈ t.routes, ¬Starts route.base path) ∨
    ∃ i route, t.find? path = some route ∧ First t path i route := by
  cases hfind : t.find? path with
  | none =>
    refine .inl ⟨rfl, fun route hroute hstarts => ?_⟩
    exact List.find?_eq_none.mp hfind route hroute ((serves_iff route path).mpr hstarts)
  | some route =>
    obtain ⟨hserves, i, hlt, hi, hearlier⟩ := List.find?_eq_some_iff_getElem.mp hfind
    refine .inr ⟨i, route, rfl, ?_, (serves_iff route path).mp hserves, ?_⟩
    · rw [← hi]
      exact List.getElem?_eq_getElem hlt
    · intro j hj other hother hstarts
      obtain ⟨_, rfl⟩ := List.getElem?_eq_some_iff.mp hother
      have hno := hearlier j hj
      rw [(serves_iff _ path).mpr hstarts] at hno
      cases hno

/-- The position of the route whose endpoint answers a path. -/
def Table.answering? (t : Table η) (path : String) : Option Nat :=
  (t.routes.findIdx? fun route => route.serves path).filter fun i => t.routes[i]?.any Route.active

theorem answering?_of_first (h : First t path i route) :
    t.answering? path = if route.active then some i else none := by
  rw [Table.answering?, h.position, Option.filter_some, h.here, Option.any_some]

theorem answering?_of_none (h : ∀ route ∈ t.routes, ¬Starts route.base path) :
    t.answering? path = none := by
  have hnone : t.routes.findIdx? (fun route => route.serves path) = none := by
    rw [List.findIdx?_eq_none_iff]
    intro route hroute
    rw [← Bool.not_eq_true, serves_iff]
    exact h route hroute
  rw [Table.answering?, hnone, Option.filter_none]

/-! ## Changes to a table -/

/-- Every route has the number that its position says. -/
def Numbered (t : Table η) : Prop := ∀ i route, t.routes[i]? = some route → route.number = i + 1

/-- A value may take the place of one that the function does not tell from it. -/
theorem map_set_of_eq {α β : Type} {f : α → β} {as : List α} {i : Nat} {a a' : α}
    (hi : as[i]? = some a) (hsame : f a' = f a) : (as.set i a').map f = as.map f := by
  obtain ⟨hlt, rfl⟩ := List.getElem?_eq_some_iff.mp hi
  rw [List.map_set, hsame, ← List.map_set, List.set_getElem_self]

/-- The first route that serves a path is changed where it stands. -/
theorem modifyFirst_eq (path : String) (f : Route η → Route η) (routes : List (Route η)) :
    Table.modifyFirst path f routes =
      ((routes.findIdx? fun route => route.serves path).map fun i => routes.modify i f).getD
        routes := by
  induction routes with
  | nil => rfl
  | cons route routes ih =>
    rw [Table.modifyFirst, List.findIdx?_cons]
    by_cases hserves : route.serves path = true
    · rw [if_pos hserves, if_pos hserves]
      rfl
    · rw [if_neg hserves, if_neg hserves, ih]
      cases routes.findIdx? fun route => route.serves path with
      | none => rfl
      | some i => rfl

theorem First.switch (h : First t path i route) (active : Bool) :
    t.switch path active = .ok { t with routes := t.routes.set i { route with active } } := by
  rcases find?_cases t path with ⟨_, hno⟩ | ⟨_, other, hfind, _⟩
  · exact absurd h.starts (hno route (List.mem_of_getElem? h.here))
  · unfold Table.switch
    rw [hfind, modifyFirst_eq, h.position, Option.map_some, Option.getD_some,
      List.modify_eq_set_getElem?, h.here]
    rfl

/-- What an answered request leaves of its route. -/
def answered (elapsed : Nat) (route : Route η) : Route η := (route.sample elapsed).serve

/-- A request is counted and timed at the route that answered it. -/
theorem First.answered (h : First t path i route) (hn : Numbered t) (elapsed : Nat) :
    (t.sampleAt route.number elapsed).countAt route.number =
      { t with routes := t.routes.set i (route.answered elapsed) } := by
  have hchange (f : Route η → Route η) (t : Table η) {route : Route η}
      (h : t.routes[i]? = some route) :
      t.modify (i + 1) f = { t with routes := t.routes.set i (f route) } := by
    unfold Table.modify
    simp only [List.modify_eq_set_getElem?, h]
    rfl
  have hlt : i < t.routes.length := (List.getElem?_eq_some_iff.mp h.here).1
  rw [hn i route h.here, Table.sampleAt, Table.countAt, hchange _ t h.here,
    hchange _ _ (List.getElem?_set_self hlt), List.set_set]
  rfl

end Route

open Route (Table Starts First Numbered)

/-! ## A table at work -/

/-- What a table may be asked to do. -/
inductive Deed where
  | add (base : String) (endpoint : Endpoint)
  | switch (path : String) (active : Bool)
  | answer (elapsed : Nat) (r : Http.Request)

/-- A table of routes, and the service in which its endpoints run. -/
structure Desk (σ : Type) where
  table : Table Endpoint
  service : Service σ

namespace Desk

variable {σ : Type}

/-- A desk whose table has no routes yet. -/
def fresh (timed : Bool) (service : Service σ) : Desk σ := { table := { timed }, service }

def withRoutes (x : Desk σ) (routes : List (Route Endpoint)) : Desk σ :=
  { x with table := { x.table with routes } }

def changed (x : Desk σ) : Except Route.Fault (Table Endpoint) → Desk σ
  | .ok table => { x with table }
  | .error _ => x

variable [Store σ]

/-- Does a deed. What the table refuses leaves it as it was. -/
def work (x : Desk σ) : Deed → Option Http.Reply × Desk σ
  | .add base endpoint => (none, x.changed (x.table.add base endpoint))
  | .switch path active => (none, x.changed (x.table.switch path active))
  | .answer elapsed r =>
    let ((reply, table), service) := (x.table.answer elapsed r).run x.service
    (some reply, { table, service })

/-- What becomes of a request: the position of the route whose endpoint runs, the reply, and what
is left. -/
inductive Answers (x : Desk σ) (elapsed : Nat) (r : Http.Request) :
    Option Nat → Http.Reply → Desk σ → Prop
  | unknown : (∀ route ∈ x.table.routes, ¬Starts route.base r.path) →
      Answers x elapsed r none
        { status := .notFound, body := Text.Utf8.encode "node not found" } x
  | off {i : Nat} {route : Route Endpoint} : First x.table r.path i route → route.active = false →
      Answers x elapsed r none
        { status := .serviceUnavailable, body := Text.Utf8.encode "node not enabled" } x
  /-- The endpoint runs once, on what follows the base. -/
  | ran {i : Nat} {route : Route Endpoint} {suffix body : String} {draft : Http.Draft}
      {service : Service σ} : First x.table r.path i route → route.active = true →
      route.base ++ suffix = r.path →
      (route.endpoint x.service.flag suffix r).run x.service = (⟨draft, body⟩, service) →
      Answers x elapsed r (some i)
        { status := draft.status.getD .ok
          contentType := draft.contentType
          allow := draft.allow
          cors := draft.cors
          body := Text.Utf8.encode body }
        { x.withRoutes (x.table.routes.set i (route.answered elapsed)) with service }

/-- What becomes of a deed. -/
inductive Works (x : Desk σ) : Deed → Option Nat → Option Http.Reply → Desk σ → Prop
  | added {base : String} {endpoint : Endpoint} {timing : Option Route.Timing} : base ≠ "" →
      Works x (.add base endpoint) none none (x.withRoutes (x.table.routes ++
        [{ base, number := x.table.routes.length + 1, endpoint, timing }]))
  | baseless {endpoint : Endpoint} : Works x (.add "" endpoint) none none x
  | switched {path : String} {active : Bool} {i : Nat} {route : Route Endpoint} :
      First x.table path i route →
      Works x (.switch path active) none none
        (x.withRoutes (x.table.routes.set i { route with active }))
  | unknown {path : String} {active : Bool} :
      (∀ route ∈ x.table.routes, ¬Starts route.base path) →
      Works x (.switch path active) none none x
  | answered {elapsed : Nat} {r : Http.Request} {ran : Option Nat} {reply : Http.Reply}
      {y : Desk σ} : Answers x elapsed r ran reply y →
      Works x (.answer elapsed r) ran (some reply) y

/-- The position of the route whose endpoint a deed runs. -/
def ranBy (x : Desk σ) : Deed → Option Nat
  | .answer _ r => x.table.answering? r.path
  | _ => none

theorem answers {x : Desk σ} (hn : Numbered x.table) (elapsed : Nat) (r : Http.Request) :
    ∃ reply table service,
      (x.table.answer elapsed r).run x.service = ((reply, table), service) ∧
      Answers x elapsed r (x.table.answering? r.path) reply { table, service } := by
  rcases Route.find?_cases x.table r.path with ⟨hfind, hno⟩ | ⟨i, route, hfind, hfirst⟩
  · rw [Route.answering?_of_none hno]
    refine ⟨_, _, _, ?_, .unknown hno⟩
    unfold Table.answer
    rw [hfind]
    rfl
  · rw [Route.answering?_of_first hfirst]
    cases hactive : route.active with
    | false =>
      refine ⟨_, _, _, ?_, .off hfirst hactive⟩
      unfold Table.answer
      simp only [hfind, hactive]
      rfl
    | true =>
      rcases hrun : (route.endpoint x.service.flag (route.remainder r.path) r).run x.service
        with ⟨⟨draft, body⟩, service⟩
      refine ⟨_, _, _, ?_, .ran hfirst hactive (Route.base_append_remainder hfirst.starts) hrun⟩
      rw [Route.answer_serving hfind hactive, hrun, hfirst.answered hn]
      rfl

theorem works {x : Desk σ} (hn : Numbered x.table) (deed : Deed) :
    Works x deed (x.ranBy deed) (x.work deed).1 (x.work deed).2 := by
  cases deed with
  | add base endpoint =>
    by_cases hbase : base = ""
    · subst hbase
      exact .baseless
    · have hadd : x.table.add base endpoint = .ok _ := if_neg hbase
      simp only [work, hadd]
      exact .added hbase
  | switch path active =>
    rcases Route.find?_cases x.table path with ⟨hfind, hno⟩ | ⟨i, route, _, hfirst⟩
    · have hswitch : x.table.switch path active = .error (.unknownPath path) := by
        unfold Table.switch
        rw [hfind]
      simp only [work, hswitch]
      exact .unknown hno
    · simp only [work, hfirst.switch active]
      exact .switched hfirst
  | answer elapsed r =>
    obtain ⟨reply, table, service, hanswer, hanswers⟩ := answers hn elapsed r
    simp only [work, hanswer]
    exact .answered hanswers

/-! ## Runs -/

/-- What is left after deeds. -/
def after (x : Desk σ) (deeds : List Deed) : Desk σ :=
  deeds.foldl (fun x deed => (x.work deed).2) x

/-- The positions of the routes whose endpoints ran, one for each time. -/
def ran (x : Desk σ) : List Deed → List Nat
  | [] => []
  | deed :: deeds => (x.ranBy deed).toList ++ (x.work deed).2.ran deeds

omit [Store σ] in
theorem routes_withRoutes (x : Desk σ) (routes : List (Route Endpoint)) :
    (x.withRoutes routes).table.routes = routes := rfl

/-- The routes are numbered by position and have counted the runs of their endpoints. -/
structure Tallied (x : Desk σ) (ran : List Nat) : Prop where
  numbered : Numbered x.table
  within : ∀ i ∈ ran, i < x.table.routes.length
  served : ∀ i route, x.table.routes[i]? = some route →
    route.served = ran.count i ∧ (route.used = true ↔ 0 < ran.count i)

omit [Store σ] in
/-- A route that is put in place of another keeps its number and, but for one run more of the
endpoint, its count. -/
theorem Tallied.set {x y : Desk σ} {ran more : List Nat} {i : Nat} {route route' : Route Endpoint}
    (h : Tallied x ran) (hi : x.table.routes[i]? = some route)
    (hy : y.table.routes = x.table.routes.set i route') (hnumber : route'.number = route.number)
    (hmore : ∀ j ∈ more, j = i) (hserved : route'.served = route.served + more.count i)
    (hused : route'.used = true ↔ route.used = true ∨ 0 < more.count i) :
    Tallied y (ran ++ more) := by
  have hlt : i < x.table.routes.length := (List.getElem?_eq_some_iff.mp hi).1
  have hlength : y.table.routes.length = x.table.routes.length := by rw [hy, List.length_set]
  have hcases : ∀ j other, y.table.routes[j]? = some other →
      j = i ∧ other = route' ∨ j ≠ i ∧ x.table.routes[j]? = some other := by
    intro j other hother
    rw [hy] at hother
    by_cases hji : j = i
    · rw [hji, List.getElem?_set_self hlt] at hother
      exact .inl ⟨hji, (Option.some.inj hother).symm⟩
    · rw [List.getElem?_set_ne (Ne.symm hji)] at hother
      exact .inr ⟨hji, hother⟩
  refine ⟨?_, ?_, ?_⟩
  · intro j other hother
    rcases hcases j other hother with ⟨rfl, rfl⟩ | ⟨_, hother⟩
    · rw [hnumber]
      exact h.numbered j route hi
    · exact h.numbered j other hother
  · intro j hj
    rw [hlength]
    rcases List.mem_append.mp hj with hj | hj
    · exact h.within j hj
    · rw [hmore j hj]
      exact hlt
  · intro j other hother
    rw [List.count_append]
    rcases hcases j other hother with ⟨rfl, rfl⟩ | ⟨hji, hother⟩
    · obtain ⟨hbefore, hbeforeUsed⟩ := h.served j route hi
      refine ⟨by omega, ?_⟩
      rw [hused, hbeforeUsed]
      omega
    · have hnone : more.count j = 0 := List.count_eq_zero.mpr fun hj => hji (hmore j hj)
      rw [hnone]
      exact h.served j other hother

omit [Store σ] in
/-- A new route stands behind the others, and its endpoint has not run. -/
theorem Tallied.added {x : Desk σ} {ran : List Nat} {route : Route Endpoint} (h : Tallied x ran)
    (hnumber : route.number = x.table.routes.length + 1) (hserved : route.served = 0)
    (hused : route.used = false) : Tallied (x.withRoutes (x.table.routes ++ [route])) ran := by
  have hcases : ∀ j other, (x.table.routes ++ [route])[j]? = some other →
      x.table.routes[j]? = some other ∨ j = x.table.routes.length ∧ other = route := by
    intro j other hother
    rw [List.getElem?_append] at hother
    split at hother
    · exact .inl hother
    · obtain ⟨hlt, _⟩ := List.getElem?_eq_some_iff.mp hother
      rw [List.length_singleton] at hlt
      exact .inr ⟨by omega, List.mem_singleton.mp (List.mem_of_getElem? hother)⟩
  refine ⟨?_, ?_, ?_⟩
  · intro j other hother
    rcases hcases j other hother with hother | ⟨rfl, rfl⟩
    · exact h.numbered j other hother
    · exact hnumber
  · intro j hj
    rw [routes_withRoutes, List.length_append]
    exact Nat.lt_add_right _ (h.within j hj)
  · intro j other hother
    rcases hcases j other hother with hother | ⟨rfl, rfl⟩
    · exact h.served j other hother
    · have hnone : ran.count x.table.routes.length = 0 :=
        List.count_eq_zero.mpr fun hj => Nat.lt_irrefl _ (h.within _ hj)
      rw [hnone, hserved, hused]
      exact ⟨rfl, iff_of_false Bool.false_ne_true (Nat.lt_irrefl 0)⟩

/-- A deed runs one endpoint at most. -/
theorem length_ran_le (x : Desk σ) (deeds : List Deed) : (x.ran deeds).length ≤ deeds.length := by
  induction deeds generalizing x with
  | nil => exact Nat.le_refl 0
  | cons deed deeds ih =>
    have hone : (x.ranBy deed).toList.length ≤ 1 := by cases x.ranBy deed <;> simp
    have hrest := ih (x.work deed).2
    rw [Desk.ran, List.length_append, List.length_cons]
    omega

/-- Every deed keeps the tally. -/
theorem Tallied.work {x : Desk σ} {ran : List Nat} (h : Tallied x ran) (deed : Deed) :
    Tallied (x.work deed).2 (ran ++ (x.ranBy deed).toList) := by
  have hworks := works h.numbered deed
  have hsame : Tallied x (ran ++ []) := by rwa [List.append_nil]
  generalize (x.work deed).1 = reply, (x.work deed).2 = y, x.ranBy deed = position at hworks ⊢
  cases hworks with
  | baseless => exact hsame
  | added hbase =>
    rw [Option.toList_none, List.append_nil]
    exact h.added rfl rfl rfl
  | switched hfirst => exact h.set hfirst.here rfl rfl nofun rfl (by simp)
  | unknown => exact hsame
  | answered hanswers =>
    cases hanswers with
    | unknown => exact hsame
    | off => exact hsame
    | ran hfirst hactive hsuffix hrun =>
      refine h.set hfirst.here rfl rfl ?_ ?_ ?_
      · intro j hj
        exact List.mem_singleton.mp hj
      · rw [Option.toList_some, List.count_singleton_self]
        rfl
      · rw [Option.toList_some, List.count_singleton_self]
        exact iff_of_true rfl (.inr Nat.one_pos)

/-- A run of deeds keeps the tally. -/
theorem Tallied.after {x : Desk σ} {ran : List Nat} (h : Tallied x ran) (deeds : List Deed) :
    Tallied (x.after deeds) (ran ++ x.ran deeds) := by
  induction deeds generalizing x ran with
  | nil =>
    rw [Desk.ran, List.append_nil]
    exact h
  | cons deed deeds ih =>
    rw [Desk.ran, ← List.append_assoc]
    exact ih (h.work deed)

/-- The routes of a desk without their counts: what they were registered with. -/
def registered (x : Desk σ) : List (String × Endpoint) :=
  x.table.routes.map fun route => (route.base, route.endpoint)

/-- The route that a deed registers. -/
def registers? : Deed → Option (String × Endpoint)
  | .add base endpoint => if base = "" then none else some (base, endpoint)
  | _ => none

omit [Store σ] in
theorem registered_set {x y : Desk σ} {i : Nat} {route route' : Route Endpoint}
    (hi : x.table.routes[i]? = some route) (hy : y.table.routes = x.table.routes.set i route')
    (hsame : (route'.base, route'.endpoint) = (route.base, route.endpoint)) :
    y.registered = x.registered := by
  unfold registered
  rw [hy, Route.map_set_of_eq hi hsame]

theorem registered_work {x : Desk σ} (hn : Numbered x.table) (deed : Deed) :
    (x.work deed).2.registered = x.registered ++ (registers? deed).toList := by
  have hworks := works hn deed
  have hnone : x.registered ++ (none : Option (String × Endpoint)).toList = x.registered :=
    List.append_nil _
  generalize (x.work deed).1 = reply, (x.work deed).2 = y, x.ranBy deed = position at hworks ⊢
  cases hworks with
  | baseless => exact hnone.symm
  | added hbase =>
    rw [registers?, if_neg hbase]
    exact List.map_append
  | switched hfirst =>
    refine (registered_set hfirst.here (routes_withRoutes _ _) ?_).trans hnone.symm
    rfl
  | unknown => exact hnone.symm
  | answered hanswers =>
    cases hanswers with
    | unknown => exact hnone.symm
    | off => exact hnone.symm
    | ran hfirst =>
      refine (registered_set hfirst.here (routes_withRoutes _ _) ?_).trans hnone.symm
      rfl

/-- The routes are those that were added, in order. -/
theorem registered_after {x : Desk σ} {ran : List Nat} (h : Tallied x ran) (deeds : List Deed) :
    (x.after deeds).registered = x.registered ++ deeds.filterMap registers? := by
  induction deeds generalizing x ran with
  | nil => exact (List.append_nil _).symm
  | cons deed deeds ih =>
    have hwork := registered_work h.numbered deed
    have hlater := ih (h.work deed)
    rw [hwork, List.append_assoc] at hlater
    cases hdeed : registers? deed with
    | none =>
      rw [List.filterMap_cons_none hdeed]
      rwa [hdeed] at hlater
    | some route =>
      rw [List.filterMap_cons_some hdeed]
      rwa [hdeed] at hlater

/-- **Every request goes to the first route whose base starts its path.** Whatever a table was asked
to do before, and whatever store its endpoints talk to: a request that no base starts gets a 404 and
one whose route is off a 503, and both leave everything as it was; for any other the endpoint of its
route runs once on what follows the base, and its draft makes the reply (`Answers`). The routes are
those that were added, in order, and each has counted the runs of its endpoint, no more than there
were deeds: 64 bits hold the count of every run of fewer than `2 ^ 64`. -/
theorem answers_served (timed : Bool) (service : Service σ) (deeds : List Deed) :
    let x := (fresh timed service).after deeds
    (∀ deed, Works x deed (x.ranBy deed) (x.work deed).1 (x.work deed).2) ∧
      x.registered = deeds.filterMap registers? ∧
      ∀ i route, x.table.routes[i]? = some route →
        route.served = ((fresh timed service).ran deeds).count i ∧
          (route.used = true ↔ 0 < route.served) ∧ route.served ≤ deeds.length := by
  intro x
  have hstart : Tallied (fresh timed service) [] := ⟨nofun, nofun, nofun⟩
  have hafter := hstart.after deeds
  refine ⟨works hafter.numbered, registered_after hstart deeds, ?_⟩
  intro i route hi
  obtain ⟨hserved, hused⟩ := hafter.served i route hi
  rw [List.nil_append] at hserved hused
  refine ⟨hserved, by rw [hused, hserved], ?_⟩
  rw [hserved]
  exact Nat.le_trans List.count_le_length (length_ran_le _ deeds)

/-- Of two routes the first answers for both, until a path of the second switches the first off. -/
theorem answers_served_overlap :
    let echo : Endpoint := fun _ suffix _ => pure { body := suffix }
    let ask (path : String) : Deed :=
      .answer 0 { client := .v4 127 0 0 1, method := .get, path }
    let deeds : List Deed :=
      [.add "/a" echo, .add "/a/b" echo, ask "/a/b/c", ask "/b", .switch "/a/b" false, ask "/a/b"]
    let service : Service Volatile := { store := {} }
    (fresh false service).ran deeds = [0] ∧
      ∃ first second, ((fresh false service).after deeds).table.routes[0]? = some first ∧
        first.served = 1 ∧ ((fresh false service).after deeds).table.routes[1]? = some second ∧
        second.used = false := by
  intro echo ask deeds service
  have hran : (fresh false service).ran deeds = [0] := by decide +kernel
  have hroutes : ∀ i < 2, (((fresh false service).after deeds).table.routes[i]?).isSome = true := by
    decide +kernel
  obtain ⟨first, hfirst⟩ := Option.isSome_iff_exists.mp (hroutes 0 Nat.two_pos)
  obtain ⟨second, hsecond⟩ := Option.isSome_iff_exists.mp (hroutes 1 Nat.one_lt_two)
  have hserved := (answers_served false service deeds).2.2
  obtain ⟨hcount, _⟩ := hserved 0 first hfirst
  obtain ⟨hnone, hunused, _⟩ := hserved 1 second hsecond
  refine ⟨hran, first, second, hfirst, ?_, hsecond, ?_⟩
  · rw [hcount, hran]
    rfl
  · rw [← Bool.not_eq_true, hunused, hnone, hran]
    exact Nat.not_lt_zero 0

end Desk

end Depot
