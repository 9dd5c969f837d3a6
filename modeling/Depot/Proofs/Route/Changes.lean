import Depot.Proofs.Route.Serving

/-! # What changes in a table of routes

A table takes new routes, switches them, counts requests and samples durations. A route is addressed
by a path in one change and by its number in another, and paths may belong to several routes. Still
each change is one to a single route, the others stay as they are, and no route ever changes its
base, its number or its endpoint (`changes_framed`). -/

namespace Depot.Route

variable {η : Type}

/-- What may be asked of a table. -/
inductive Change (η : Type) where
  | add (base : String) (endpoint : η)
  | switch (path : String) (active : Bool)
  | count (number : Nat)
  | sample (number nanos : Nat)

namespace Table

def withRoutes (t : Table η) (routes : List (Route η)) : Table η := { t with routes }

/-- What is left of a table that was to become another, and the fault if it refused to. -/
def orStay (t : Table η) : Except Fault (Table η) → Option Fault × Table η
  | .ok next => (none, next)
  | .error e => (some e, t)

/-- Makes a change, or tells why not. -/
def make (t : Table η) : Change η → Option Fault × Table η
  | .add base endpoint => t.orStay (t.add base endpoint)
  | .switch path active => t.orStay (t.switch path active)
  | .count number => (none, t.countAt number)
  | .sample number nanos => (none, t.sampleAt number nanos)

/-- What is left after changes. -/
def after (t : Table η) (changes : List (Change η)) : Table η :=
  changes.foldl (fun t change => (t.make change).2) t

end Table

/-- What a change makes of a table. -/
inductive Makes (t : Table η) : Change η → Option Fault → Table η → Prop
  | added {base : String} {endpoint : η} : base ≠ "" →
      Makes t (.add base endpoint) none (t.withRoutes (t.routes ++
        [{ base
           number := t.routes.length + 1
           endpoint
           timing := if t.timed then some {} else none }]))
  | baseless {endpoint : η} : Makes t (.add "" endpoint) (some .missingBase) t
  /-- The route found for a path is switched, and found for it from then on. -/
  | switched {path : String} {active : Bool} {i : Nat} {route : Route η} {t' : Table η} :
      First t path i route → t.find? path = some route →
      t' = t.withRoutes (t.routes.set i { route with active }) →
      t'.find? path = some { route with active } →
      Makes t (.switch path active) none t'
  | unknown {path : String} {active : Bool} : (∀ route ∈ t.routes, ¬Starts route.base path) →
      t.find? path = none → Makes t (.switch path active) (some (.unknownPath path)) t
  | counted {number i : Nat} {route : Route η} : t.routes[i]? = some route →
      route.number = number → Makes t (.count number) none (t.withRoutes
        (t.routes.set i { route with served := route.served + 1, used := true }))
  | uncounted {number : Nat} : (∀ route ∈ t.routes, route.number ≠ number) →
      Makes t (.count number) none t
  | sampled {number nanos i : Nat} {route : Route η} {timing : Timing} :
      t.routes[i]? = some route → route.number = number → route.timing = some timing →
      Makes t (.sample number nanos) none (t.withRoutes
        (t.routes.set i { route with timing := some (timing.push nanos) }))
  | untimed {number nanos i : Nat} {route : Route η} : t.routes[i]? = some route →
      route.number = number → route.timing = none → Makes t (.sample number nanos) none t
  | unsampled {number nanos : Nat} : (∀ route ∈ t.routes, route.number ≠ number) →
      Makes t (.sample number nanos) none t

variable {t t' : Table η} {path : String} {i number : Nat} {route route' : Route η}

theorem First.find? (h : First t path i route) : t.find? path = some route := by
  obtain ⟨hlt, hi⟩ := List.getElem?_eq_some_iff.mp h.here
  refine List.find?_eq_some_iff_getElem.mpr ⟨(serves_iff route path).mpr h.starts, i, hlt, hi, ?_⟩
  intro j hj
  rw [Bool.not_eq_true', ← Bool.not_eq_true, serves_iff]
  exact h.earlier j hj _ (List.getElem?_eq_getElem _)

/-- A route that is put in the place of the one found for a path is found for it in turn, unless it
has another base. -/
theorem First.set (h : First t path i route) (hbase : route'.base = route.base) :
    First (t.withRoutes (t.routes.set i route')) path i route' where
  here := List.getElem?_set_self (List.getElem?_eq_some_iff.mp h.here).1
  starts := by
    rw [hbase]
    exact h.starts
  earlier j hj other hother := by
    rw [Table.withRoutes, List.getElem?_set_ne (Nat.ne_of_gt hj)] at hother
    exact h.earlier j hj other hother

/-- A number addresses one route, or none. -/
theorem modify_cases (hn : Numbered t) (number : Nat) (f : Route η → Route η) :
    (∃ i route, t.routes[i]? = some route ∧ route.number = number ∧
      t.modify number f = t.withRoutes (t.routes.set i (f route))) ∨
    (∀ route ∈ t.routes, route.number ≠ number) ∧ t.modify number f = t := by
  cases number with
  | zero =>
    refine .inr ⟨fun route hroute => ?_, rfl⟩
    obtain ⟨i, hi⟩ := List.mem_iff_getElem?.mp hroute
    rw [hn i route hi]
    exact Nat.succ_ne_zero i
  | succ i =>
    have hmodify : t.modify (i + 1) f = t.withRoutes (t.routes.modify i f) := rfl
    rw [hmodify, List.modify_eq_set_getElem?]
    cases hi : t.routes[i]? with
    | some route => exact .inl ⟨i, route, hi, hn i route hi, rfl⟩
    | none =>
      refine .inr ⟨fun route hroute hnumber => ?_, rfl⟩
      obtain ⟨j, hj⟩ := List.mem_iff_getElem?.mp hroute
      obtain rfl : j = i := Nat.succ_inj.mp ((hn j route hj).symm.trans hnumber)
      rw [hi] at hj
      cases hj

theorem makes (hn : Numbered t) (change : Change η) :
    Makes t change (t.make change).1 (t.make change).2 := by
  cases change with
  | add base endpoint =>
    by_cases hbase : base = ""
    · subst hbase
      exact .baseless
    · have hadd : t.add base endpoint = .ok _ := if_neg hbase
      rw [Table.make, hadd]
      exact .added hbase
  | switch path active =>
    rcases find?_cases t path with ⟨hfind, hno⟩ | ⟨i, route, hfind, hfirst⟩
    · have hswitch : t.switch path active = .error (.unknownPath path) := by
        unfold Table.switch
        rw [hfind]
      rw [Table.make, hswitch]
      exact .unknown hno hfind
    · have hset : First (t.withRoutes (t.routes.set i { route with active })) path i
          { route with active } := hfirst.set rfl
      rw [Table.make, hfirst.switch active]
      exact .switched hfirst hfind rfl hset.find?
  | count number =>
    rw [Table.make, Table.countAt]
    rcases modify_cases hn number serve with ⟨i, route, hroute, hnumber, heq⟩ | ⟨hno, heq⟩
    · rw [heq]
      exact .counted hroute hnumber
    · rw [heq]
      exact .uncounted hno
  | sample number nanos =>
    rw [Table.make, Table.sampleAt]
    rcases modify_cases hn number (Route.sample nanos) with
      ⟨i, route, hroute, hnumber, heq⟩ | ⟨hno, heq⟩
    · rw [heq, Route.sample]
      cases htiming : route.timing with
      | some timing => exact .sampled hroute hnumber htiming
      | none =>
        -- the route is put back as it was
        obtain ⟨hlt, hi⟩ := List.getElem?_eq_some_iff.mp hroute
        have hsame : t.routes.set i route = t.routes := by rw [← hi, List.set_getElem_self]
        have hroute' : { route with timing := none } = route := by rw [← htiming]
        rw [Option.map_none, hroute', Table.withRoutes, hsame]
        exact .untimed hroute hnumber htiming
    · rw [heq]
      exact .unsampled hno

/-! ## Runs -/

/-- What of a route is settled when it is added. -/
structure Entry (η : Type) where
  number : Nat
  base : String
  endpoint : η
  timed : Bool

def entry (route : Route η) : Entry η :=
  { number := route.number
    base := route.base
    endpoint := route.endpoint
    timed := route.timing.isSome }

/-- The route that a change adds. -/
def Change.added? : Change η → Option (String × η)
  | .add base endpoint => if base = "" then none else some (base, endpoint)
  | _ => none

/-- The routes that were added, numbered from one in this order. -/
def entries (timed : Bool) (added : List (String × η)) : List (Entry η) :=
  added.mapIdx fun i (base, endpoint) => { number := i + 1, base, endpoint, timed }

/-- A table has just these routes. -/
structure Lists (t : Table η) (timed : Bool) (added : List (String × η)) : Prop where
  timed_eq : t.timed = timed
  entries_eq : t.routes.map entry = entries timed added

variable {timed : Bool} {added : List (String × η)}

theorem Lists.length (h : Lists t timed added) : t.routes.length = added.length := by
  have hlength := congrArg List.length h.entries_eq
  rwa [List.length_map, entries, List.length_mapIdx] at hlength

theorem Lists.numbered (h : Lists t timed added) : Numbered t := by
  intro i route hi
  have hentry : (t.routes.map entry)[i]? = some route.entry := by rw [List.getElem?_map, hi]; rfl
  rw [h.entries_eq, entries, List.getElem?_mapIdx, Option.map_eq_some_iff] at hentry
  obtain ⟨_, -, hentry⟩ := hentry
  exact (congrArg Entry.number hentry).symm

theorem Lists.timing (h : Lists t timed added) :
    ∀ route ∈ t.routes, route.timing.isSome = timed := by
  intro route hroute
  have hentry : route.entry ∈ t.routes.map entry := List.mem_map_of_mem hroute
  rw [h.entries_eq, entries, List.mem_mapIdx] at hentry
  obtain ⟨_, _, hentry⟩ := hentry
  exact (congrArg Entry.timed hentry).symm

/-- A route may take the place of one with the same entry. -/
theorem Lists.set (h : Lists t timed added) (hi : t.routes[i]? = some route)
    (hsame : route'.entry = route.entry) :
    Lists (t.withRoutes (t.routes.set i route')) timed added :=
  ⟨h.timed_eq, (map_set_of_eq hi hsame).trans h.entries_eq⟩

theorem Lists.make (h : Lists t timed added) (change : Change η) :
    Lists (t.make change).2 timed (added ++ change.added?.toList) := by
  have hmakes := makes h.numbered change
  have hsame : Lists t timed (added ++ []) := by rwa [List.append_nil]
  generalize (t.make change).1 = fault, (t.make change).2 = t' at hmakes ⊢
  cases hmakes with
  | @added base endpoint hbase =>
    have htimed : (if t.timed then some ({} : Timing) else none).isSome = timed := by
      rw [h.timed_eq]
      cases timed <;> rfl
    refine ⟨h.timed_eq, ?_⟩
    rw [Change.added?, if_neg hbase, Option.toList_some, entries, List.mapIdx_concat]
    change (t.routes ++ [_]).map entry = entries timed added ++ [_]
    rw [List.map_append, h.entries_eq, ← h.length, List.map_singleton, entry, htimed]
  | baseless => exact hsame
  | switched hfirst _ ht' =>
    rw [ht']
    exact hsame.set hfirst.here rfl
  | unknown => exact hsame
  | counted hi => exact hsame.set hi rfl
  | uncounted => exact hsame
  | sampled hi _ htiming =>
    refine hsame.set hi ?_
    rw [entry, entry, htiming]
    rfl
  | untimed => exact hsame
  | unsampled => exact hsame

theorem Lists.after (h : Lists t timed added) (changes : List (Change η)) :
    Lists (t.after changes) timed (added ++ changes.filterMap Change.added?) := by
  induction changes generalizing t added with
  | nil => rwa [List.filterMap_nil, List.append_nil]
  | cons change changes ih =>
    have hcons : (change :: changes).filterMap Change.added? =
        change.added?.toList ++ changes.filterMap Change.added? := by
      cases hadd : change.added? <;> simp [hadd]
    rw [hcons, ← List.append_assoc]
    exact ih (h.make change)

/-! ## What is told of routes -/

/-- The highest number is the number of routes. -/
theorem Lists.size_eq (h : Lists t timed added) : t.size = t.routes.length := by
  unfold Table.size
  rw [List.getLast?_eq_getElem?]
  cases hlast : t.routes[t.routes.length - 1]? with
  | none =>
    have hnone := List.getElem?_eq_none_iff.mp hlast
    rw [Option.map_none, Option.getD_none]
    omega
  | some route =>
    have hlt := (List.getElem?_eq_some_iff.mp hlast).1
    rw [Option.map_some, Option.getD_some, h.numbered _ route hlast]
    omega

theorem Lists.average?_eq_none (h : Lists t false added) :
    ∀ route ∈ t.routes, route.average? = none := by
  intro route hroute
  have hnone := h.timing route hroute
  rw [Option.isSome_eq_false_iff, Option.isNone_iff_eq_none] at hnone
  rw [Route.average?, hnone, Option.bind_none]

/-- The average told for a path is the one told of the route found for it. -/
theorem averageFor_cases (t : Table η) (path : String) :
    (t.find? path = none ∧ t.averageFor path = none) ∨
    ∃ i route, First t path i route ∧ t.find? path = some route ∧
      t.stats[i]? = some route.stats ∧ t.averageFor path = route.stats.average := by
  unfold Table.averageFor
  rcases find?_cases t path with ⟨hfind, -⟩ | ⟨i, route, hfind, hfirst⟩
  · refine .inl ⟨hfind, ?_⟩
    rw [hfind, Option.bind_none]
  · refine .inr ⟨i, route, hfirst, hfind, ?_, ?_⟩
    · rw [Table.stats, List.getElem?_map, hfirst.here, Option.map_some]
    · rw [hfind, Option.bind_some]
      rfl

/-- **Each change is one to a single route.** Whatever was asked of a table before, a change does
what `Makes` says of it: it adds a route behind the others, or changes one field of the route that a
path finds or the counts of the route of a number, or nothing. The routes are numbered from one in
the order in which they were added and keep their bases and endpoints. The average told for a path
is that of the route found for it; without timings there is none. -/
theorem changes_framed (timed : Bool) (changes : List (Change η)) :
    let t := ({ timed } : Table η).after changes
    (∀ change, Makes t change (t.make change).1 (t.make change).2) ∧
      t.size = t.routes.length ∧
      t.routes.map entry = entries timed (changes.filterMap Change.added?) ∧
      (∀ path,
        (t.find? path = none ∧ t.averageFor path = none) ∨
        ∃ i route, First t path i route ∧ t.find? path = some route ∧
          t.stats[i]? = some route.stats ∧ t.averageFor path = route.stats.average) ∧
      (timed = false → (∀ path, t.averageFor path = none) ∧
        ∀ stats ∈ t.stats, stats.average = none) := by
  intro t
  have hstart : Lists ({ timed } : Table η) timed [] := ⟨rfl, rfl⟩
  have ht : Lists t timed (changes.filterMap Change.added?) := hstart.after changes
  refine ⟨makes ht.numbered, ht.size_eq, ht.entries_eq, averageFor_cases t, ?_⟩
  rintro rfl
  have hnone : ∀ stats ∈ t.stats, stats.average = none := by
    intro stats hstats
    obtain ⟨route, hroute, rfl⟩ := List.mem_map.mp hstats
    exact ht.average?_eq_none route hroute
  refine ⟨fun path => ?_, hnone⟩
  rcases averageFor_cases t path with ⟨-, haverage⟩ | ⟨i, route, -, -, hstats, haverage⟩
  · exact haverage
  · exact haverage.trans (hnone _ (List.mem_of_getElem? hstats))

/-- A path of the second route is one of the first too, and only the first is switched for it. -/
example :
    (({} : Table Unit).after [.add "/a" (), .add "" (), .add "/a/b" (), .switch "/a/b/c" false,
      .switch "/c" true, .count 0, .count 2, .count 3, .sample 1 5]).stats =
      [⟨"/a", 1, false, false, 0, none⟩, ⟨"/a/b", 2, true, true, 1, none⟩] := by decide +kernel

end Depot.Route
