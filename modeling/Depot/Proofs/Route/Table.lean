import Depot.Gateway
import Depot.Proofs.Text.Utf8

/-! # Which route serves a path

Serving counts and times requests, and leaves alone what decides on a route: the base, the endpoint
and whether it is on (`Route.core`). So the object routes stay as they were set up, and a path
behind the route of a digest reaches the endpoint of that digest with what is behind
(`serving_object`). -/

namespace Depot

namespace Route

variable {η : Type}

/-- What of a route decides on the paths it serves and how. -/
def core (r : Route η) : String × η × Bool := (r.base, r.endpoint, r.active)

/-- The routes of a table, without counts and timings. -/
def Table.cores (t : Table η) : List (String × η × Bool) := t.routes.map core

theorem cores_modify (number : Nat) {f : Route η → Route η} (hf : ∀ r, (f r).core = r.core)
    (t : Table η) : (t.modify number f).cores = t.cores := by
  cases number with
  | zero => rfl
  | succ index =>
    have hmodify (routes : List (Route η)) : (routes.modify index f).map core =
        routes.map core := by
      induction routes generalizing index with
      | nil => cases index <;> rfl
      | cons r routes ih =>
        cases index with
        | zero => simp [hf]
        | succ index => simp [ih]
    exact hmodify t.routes

theorem cores_countAt (number : Nat) (t : Table η) : (t.countAt number).cores = t.cores :=
  cores_modify (f := Route.serve) number (fun _ => rfl) t

theorem cores_sampleAt (number nanos : Nat) (t : Table η) :
    (t.sampleAt number nanos).cores = t.cores :=
  cores_modify (f := Route.sample nanos) number (fun _ => rfl) t

/-- The route of a path is found by the bases alone. -/
theorem core_find? (t : Table η) (path : String) :
    (t.find? path).map core =
      t.cores.find? fun entry => entry.1.toList.isPrefixOf path.toList := by
  unfold Table.find? Table.cores
  rw [List.find?_map]
  rfl

/-- What a route in service answers is the reply, and the table only counts and times it. -/
theorem answer_serving {σ : Type} [Store σ] {t : Table Endpoint} {r : Http.Request}
    {route : Route Endpoint} (hfind : t.find? r.path = some route) (hactive : route.active = true)
    (elapsed : Nat) (service : Service σ) :
    (t.answer elapsed r).run service =
      let served := (route.endpoint service.flag (route.remainder r.path) r).run service
      ((served.1.reply, (t.sampleAt route.number elapsed).countAt route.number), served.2) := by
  unfold Table.answer
  simp only [hfind, hactive]
  rfl

end Route

open Route

/-- Routes with a base are added in order, switched on. -/
theorem addRoutes_cores {η : Type} (routes : List (String × η)) (t : Table η)
    (h : ∀ r ∈ routes, r.1 ≠ "") :
    ∃ t' log, addRoutes routes t = .ok (t', log) ∧
      t'.cores = t.cores ++ routes.map fun r => (r.1, r.2, true) := by
  induction routes generalizing t with
  | nil => exact ⟨t, [], rfl, (List.append_nil _).symm⟩
  | cons r routes ih =>
    obtain ⟨base, endpoint⟩ := r
    have hbase : base ≠ "" := h _ List.mem_cons_self
    have hadd : ∃ next, t.add base endpoint = .ok next ∧
        next.cores = t.cores ++ [(base, endpoint, true)] := by
      refine ⟨_, if_neg hbase, ?_⟩
      simp [Table.cores, core]
    obtain ⟨next, hnext, hcores⟩ := hadd
    obtain ⟨t', log, hrest, ht'⟩ := ih next fun r hr => h r (List.mem_cons_of_mem _ hr)
    refine ⟨t', t.addLog base ++ log, ?_, ?_⟩
    · simp only [addRoutes, hnext, hrest, bind, Except.bind, pure, Except.pure]
    · rw [ht', hcores, List.map_cons, List.append_assoc, List.singleton_append]

/-- The routes of a service as they are set up. -/
def coresOf (o : Options) : List (String × Endpoint × Bool) :=
  (routeList o).map fun r => (r.1, r.2, true)

theorem routeTable_cores (o : Options) (timed : Bool) :
    ∃ routes log, routeTable o timed = .ok (routes, log) ∧ routes.cores = coresOf o := by
  refine addRoutes_cores (routeList o) { timed } fun r hr => ?_
  have hbases : ∀ base ∈ (routeList o).map Prod.fst, base ≠ "" := by
    change ∀ base ∈ ["/store/128/", "/store/160/", "/store/224/", "/store/256/", "/store/384/",
      "/store/512/", "/config/"], base ≠ ""
    decide
  exact hbases _ (List.mem_map_of_mem hr)

/-- Bases of one length start a path only where they are the same. -/
theorem isPrefixOf_append {base base' : List Char} (h : base.length = base'.length)
    (suffix : List Char) : base.isPrefixOf (base' ++ suffix) = decide (base = base') := by
  rw [Bool.eq_iff_iff, List.isPrefixOf_iff_prefix, decide_eq_true_eq]
  constructor
  · rintro ⟨t, ht⟩
    exact (List.append_inj ht h).1
  · rintro rfl
    exact List.prefix_append _ _

theorem length_route (d : Digest) : d.route.toList.length = 11 := by
  cases d <;> decide +kernel

theorem route_inj {d d' : Digest} (h : d.route.toList = d'.route.toList) : d = d' := by
  revert h
  cases d <;> cases d' <;> decide +kernel

/-- The base of a digest starts a path of its own only. -/
theorem serves_route (d d' : Digest) (suffix : List Char) :
    d.route.toList.isPrefixOf (d'.route.toList ++ suffix) = decide (d = d') := by
  rw [isPrefixOf_append ((length_route d).trans (length_route d').symm), decide_eq_decide]
  exact ⟨route_inj, fun h => by rw [h]⟩

theorem find?_coresOf (o : Options) (d : Digest) (suffix : List Char) :
    ((coresOf o).find? fun entry => entry.1.toList.isPrefixOf (d.route.toList ++ suffix)) =
      some (d.route, Endpoint.Object.endpoint d o, true) := by
  have hall : Digest.all.find? (fun d' => decide (d' = d)) = some d := by cases d <;> rfl
  unfold coresOf routeList
  rw [List.map_append, List.map_map, List.find?_append, List.find?_map]
  simp only [Function.comp_def, serves_route, hall, Option.map_some, Option.some_or]

/-- A path behind the route of a digest is served by the endpoint of that digest. -/
theorem serving_object {o : Options} {t : Table Endpoint} (h : t.cores = coresOf o) (d : Digest)
    (suffix : String) :
    ∃ route, t.find? (d.route ++ suffix) = some route ∧ route.active = true ∧
      route.endpoint = Endpoint.Object.endpoint d o ∧
      route.remainder (d.route ++ suffix) = suffix := by
  have hfind := core_find? t (d.route ++ suffix)
  rw [h, String.toList_append, find?_coresOf, Option.map_eq_some_iff] at hfind
  obtain ⟨route, hroute, hcore⟩ := hfind
  obtain ⟨hbase, hrest⟩ := Prod.mk.inj hcore
  obtain ⟨hendpoint, hactive⟩ := Prod.mk.inj hrest
  refine ⟨route, hroute, hactive, hendpoint, ?_⟩
  rw [remainder, hbase, String.toList_append, Text.Utf8.dropBytes?_append, Option.map_some,
    Option.getD_some, String.ofList_toList]

end Depot
