import Depot.Proofs.Store.Tape
import Depot.Quota
import Depot.Store.Canned

/-! # What lets a client in

A quota sends at most two commands for a client: a lookup, and one that counts the client if it is
let in (`Counts`). The lookup alone decides, on any store: whatever keeps it from finding a count
keeps the client out, and what becomes of the counting is not looked at (`allows_settled`). So where
a store answers lookups and refuses to count, clients get in that nobody counts
(`admitted_uncounted`). -/

namespace Depot.Quota

open Resp (Command)

/-- The command that counts a client, where the lookup leaves room for it: the first of a window, or
a further one below the capacity. -/
inductive Counts (l : Quota) (address : Address) : Answer → Command → Prop
  | first : Counts l address (.ok .nil) (l.openCommand address)
  | further {value : Bytes} : countOf value < l.capacity →
      Counts l address (.ok (.bulk value)) (raiseCommand address)

/-- What is sent to the store for a client, with what comes of it, and whether the client is let
in. -/
inductive Settled (l : Quota) (address : Address) : List (Command × Answer) → Bool → Prop
  /-- The second answer may be any. -/
  | admitted {found counted : Answer} {command : Command} : Counts l address found command →
      Settled l address [(lookupCommand address, found), (command, counted)] true
  | denied {found : Answer} : (∀ command, ¬Counts l address found command) →
      Settled l address [(lookupCommand address, found)] false

/-- An answer that a command has failed. -/
def Failed : Answer → Prop
  | .ok (.failure _) => True
  | .ok _ => False
  | .error _ => True

variable {l : Quota} {address : Address} {σ : Type} [Store σ]

/-! ## Any answers -/

/-- Whether a command may come after some answers. -/
def Asks (l : Quota) (address : Address) : List Answer → Command → Prop
  | [], command => command = lookupCommand address
  | [found], command => Counts l address found command
  | _, _ => False

/-- Whether a decision may come after some answers. -/
def Ends (l : Quota) (address : Address) : List Answer → Bool → Prop
  | [found], admitted => admitted = false ∧ ∀ command, ¬Counts l address found command
  | [found, _], admitted => admitted = true ∧ ∃ command, Counts l address found command
  | _, _ => False

open Dialogue (Heeds heeds_report heeds_send)

/-- What becomes of the counting is at most reported. -/
theorem update_heeds {found : Answer} {command : Command} {refused failed : String} {event : Event}
    (h : Counts l address found command) :
    Heeds (Asks l address) (Ends l address)
      (do
        update address command refused failed
        Dialogue.report event
        return true) [found] := by
  have hcounted (answer : Answer) : Heeds (Asks l address) (Ends l address)
      (do Dialogue.report event; return true) [found, answer] := heeds_report _ ⟨rfl, command, h⟩
  refine heeds_send h fun answer => ?_
  cases answer with
  | error e => exact heeds_report _ (hcounted _)
  | ok value =>
    cases value with
    | failure text => exact heeds_report _ (hcounted _)
    | _ => exact hcounted _

theorem check_heeds (l : Quota) (address : Address) :
    (l.check address).Heeds (Asks l address) (Ends l address) [] := by
  refine heeds_send rfl fun found => ?_
  rw [List.nil_append]
  split
  · exact update_heeds .first
  · next value =>
    simp only
    split
    · next hroom => exact update_heeds (.further hroom)
    · next hfull => exact heeds_report _ ⟨rfl, fun _ hcounts => by cases hcounts; contradiction⟩
  · next other hnil hbulk =>
    refine heeds_report _ ⟨rfl, fun _ hcounts => ?_⟩
    cases hcounts with
    | first => exact hnil rfl
    | further _ => exact hbulk _ rfl
  · exact heeds_report _ ⟨rfl, fun _ hcounts => by cases hcounts⟩

/-! ## The tape of a client -/

theorem settled_of_told {tape : List (Command × Answer)} {admitted : Bool}
    (h : Dialogue.Told (Asks l address) (Ends l address) [] tape admitted) :
    Settled l address tape admitted := by
  cases h with
  | done hend => exact hend.elim
  | @ask _ _ found _ _ hlookup hrest =>
    obtain rfl := hlookup
    cases hrest with
    | done hend =>
      obtain ⟨rfl, hno⟩ := hend
      exact .denied hno
    | @ask _ command counted _ _ hcounts hlast =>
      cases hlast with
      | done hend =>
        obtain ⟨rfl, -⟩ := hend
        exact .admitted hcounts
      | ask hmore => exact hmore.elim

/-- **The lookup alone lets a client in.** On any store the host itself is let in and nothing is
sent for it. For anybody else the counter is looked up: unless that finds no counter, or one below
the capacity, the client is denied, also where the link fails or the reply is of another kind. If it
does, one command counts the client, and the client is let in whatever its answer is. A tape changes
nothing of this. -/
theorem allows_settled (l : Quota) (client : Address) (s : Service σ) :
    let taped := (l.allows client).run s.taped
    (l.allows client).run s = (taped.1, taped.2.untaped) ∧
      if client.canonical = Address.loopback then taped.1 = true ∧ taped.2.store.tape = []
      else Settled l client.canonical taped.2.store.tape taped.1 := by
  intro taped
  refine ⟨(l.allows client).run_taped s, ?_⟩
  by_cases hhost : client.canonical = Address.loopback
  · have htaped : taped = (pure true : Dialogue Bool).run s.taped := by
      unfold taped allows
      rw [if_pos hhost]
    rw [if_pos hhost, htaped]
    exact ⟨rfl, rfl⟩
  · have htaped : taped = (l.check client.canonical).run s.taped := by
      unfold taped allows
      rw [if_neg hhost]
    rw [if_neg hhost, htaped]
    exact settled_of_told ((check_heeds l client.canonical).told s)

/-- A store that finds no counter and has no room for one, and a link that breaks before a counter
is raised: either way the client is let in, and is counted nowhere. -/
theorem admitted_uncounted :
    let client : Address := .v4 192 168 1 20
    let l : Quota := ⟨2, 1⟩
    let full : List Answer := [.ok .nil, .ok (.failure "OOM command not allowed")]
    let broken : List Answer := [.ok (.bulk (Text.Utf8.encode "0")), .error (.broken .brokenPipe)]
    client.canonical ≠ Address.loopback ∧ ∀ answers ∈ [full, broken],
      let taped := (l.allows client).run (⟨⟨answers, []⟩, {}, []⟩ : Service Canned).taped
      taped.1 = true ∧ taped.2.store.tape.map Prod.snd = answers ∧
        ∃ answer ∈ answers, Failed answer := by
  intro client l full broken
  refine ⟨by decide, ?_⟩
  simp only [List.forall_mem_cons]
  refine ⟨⟨rfl, rfl, _, List.mem_cons_of_mem _ List.mem_cons_self, trivial⟩,
    ⟨rfl, rfl, _, List.mem_cons_of_mem _ List.mem_cons_self, trivial⟩, nofun⟩

end Depot.Quota
