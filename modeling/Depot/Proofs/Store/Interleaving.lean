import Depot.Proofs.Store.Dialogue

/-! # Dialogues that take turns

Several dialogues can be under way on one store. Between two of its commands a dialogue waits for
its turn; in its turn it sends the next command and goes on with the answer up to the command after
it. One that has the store to itself comes to what it comes to in one run (`Floor.turns_alone`).
What each of them has heard so far settles where it stands (`Comes`), and what a dialogue keeps to,
whatever it hears, holds wherever it stands (`Comes.heeds`). -/

namespace Depot

namespace Dialogue

variable {α β σ : Type}

/-! ## One turn -/

/-- Reports what there is to report before the next command. -/
def settle : Dialogue α → StateM (Service σ) (Dialogue α)
  | .done a => pure (.done a)
  | .note event next => do
    Service.report event
    next.settle
  | .ask command next => pure (.ask command next)

/-- Sends the next command, if there is one, and goes on up to the command after it. -/
def turn [Store σ] : Dialogue α → StateM (Service σ) (Option Answer × Dialogue α)
  | .ask command next => do
    let answer ← Store.carryOut command
    let left ← (next answer).settle
    return (some answer, left)
  | x => return (none, x)

/-- Only a dialogue with a command to send does anything in its turn. -/
theorem turn_cases [Store σ] (x : Dialogue α) (s : Service σ) :
    x.turn s = ((none, x), s) ∨ ∃ command next, x = .ask command next := by
  cases x with
  | done a => exact .inl rfl
  | note event next => exact .inl rfl
  | ask command next => exact .inr ⟨command, next, rfl⟩

/-- Whether there is nothing to report before the next command. -/
def Settled : Dialogue α → Prop
  | .note .. => False
  | _ => True

theorem settled_settle (x : Dialogue α) (s : Service σ) : (x.settle s).1.Settled := by
  induction x generalizing s with
  | done a => trivial
  | note event next ih => exact ih _
  | ask command next => trivial

/-- Only the log grows. -/
theorem settle_service (x : Dialogue α) (s : Service σ) :
    ∃ events, (x.settle s).2 = { s with events } := by
  induction x generalizing s with
  | done a => exact ⟨_, rfl⟩
  | note event next ih => exact ih { s with events := event :: s.events }
  | ask command next => exact ⟨_, rfl⟩

/-! ## Where a dialogue stands -/

/-- What a dialogue comes to on the answers it hears. -/
inductive Comes : Dialogue α → List Answer → Dialogue α → Prop
  | here {x : Dialogue α} : Comes x [] x
  | note {event : Event} {next y : Dialogue α} {heard : List Answer} :
      Comes next heard y → Comes (.note event next) heard y
  | ask {command : Resp.Command} {next : Answer → Dialogue α} {answer : Answer}
      {heard : List Answer} {y : Dialogue α} :
      Comes (next answer) heard y → Comes (.ask command next) (answer :: heard) y

theorem Comes.trans {x y z : Dialogue α} {heard more : List Answer} (h : Comes x heard y)
    (h' : Comes y more z) : Comes x (heard ++ more) z := by
  induction h with
  | here => exact h'
  | note _ ih => exact .note (ih h')
  | ask _ ih => exact .ask (ih h')

theorem comes_settle (x : Dialogue α) (s : Service σ) : Comes x [] (x.settle s).1 := by
  induction x generalizing s with
  | done a => exact .here
  | note event next ih => exact .note (ih _)
  | ask command next => exact .here

/-- Whatever it hears, each command of a dialogue is sent after answers that allow it, and so is its
result. -/
def Heeds (asks : List Answer → Resp.Command → Prop) (ends : List Answer → α → Prop) :
    Dialogue α → List Answer → Prop
  | .done a, heard => ends heard a
  | .note _ next, heard => next.Heeds asks ends heard
  | .ask command next, heard =>
    asks heard command ∧ ∀ answer, (next answer).Heeds asks ends (heard ++ [answer])

section

variable {asks : List Answer → Resp.Command → Prop} {ends : List Answer → α → Prop}
  {heard : List Answer}

theorem Heeds.bind {mid : List Answer → β → Prop} {x : Dialogue β} {k : β → Dialogue α}
    (h : x.Heeds asks mid heard)
    (hk : ∀ heard b, mid heard b → (k b).Heeds asks ends heard) :
    (x >>= k).Heeds asks ends heard := by
  induction x generalizing heard with
  | done b => exact hk heard b h
  | note event next ih => exact ih h
  | ask command next ih => exact ⟨h.1, fun answer => ih answer (h.2 answer)⟩

theorem heeds_report {k : Unit → Dialogue α} (event : Event) (h : (k ()).Heeds asks ends heard) :
    (report event >>= k).Heeds asks ends heard := h

theorem heeds_send {k : Answer → Dialogue α} {command : Resp.Command} (hasks : asks heard command)
    (h : ∀ answer, (k answer).Heeds asks ends (heard ++ [answer])) :
    (send command >>= k).Heeds asks ends heard := ⟨hasks, h⟩

theorem Comes.heeds {x y : Dialogue α} {more : List Answer} (h : Comes x more y)
    (hx : x.Heeds asks ends heard) : y.Heeds asks ends (heard ++ more) := by
  induction h generalizing heard with
  | here => rwa [List.append_nil]
  | note _ ih => exact ih hx
  | ask _ ih =>
    have hnext := ih (hx.2 _)
    rwa [List.append_assoc] at hnext

end

end Dialogue

/-! ## Dialogues under way -/

/-- A dialogue that somebody has begun, the answers it has heard, and what is left of it. -/
structure Visit (ρ α : Type) where
  caller : ρ
  work : Dialogue α
  heard : List Answer := []
  left : Dialogue α

/-- A visit that was begun as `B` says, and stands where what it has heard brings it. -/
structure Visit.Sound {ρ α : Type} (B : ρ → Dialogue α → Prop) (v : Visit ρ α) : Prop where
  begun : B v.caller v.work
  comes : v.work.Comes v.heard v.left
  settled : v.left.Settled

/-- A service and the dialogues that were begun on it, in order. -/
structure Floor (σ ρ α : Type) where
  service : Service σ
  visits : List (Visit ρ α) := []

namespace Floor

variable {σ ρ α : Type}

/-- A dialogue is begun. -/
def enter (caller : ρ) (work : Dialogue α) (f : Floor σ ρ α) : Floor σ ρ α :=
  let (left, service) := work.settle f.service
  { service, visits := f.visits ++ [{ caller, work, left }] }

/-- The answer that a visit gets in its turn, if it has a command to send. -/
def answer? [Store σ] (i : Nat) (f : Floor σ ρ α) : Option Answer :=
  f.visits[i]?.bind fun v => (v.left.turn f.service).1.1

/-- The turn of a visit. One that has nothing to ask lets it pass. -/
def turn [Store σ] (i : Nat) (f : Floor σ ρ α) : Floor σ ρ α :=
  match f.visits[i]? with
  | none => f
  | some v =>
    let ((answer, left), service) := v.left.turn f.service
    { service, visits := f.visits.set i { v with heard := v.heard ++ answer.toList, left } }

/-- Somebody got this answer. -/
def Heard (f : Floor σ ρ α) (answer : Answer) : Prop := ∃ v ∈ f.visits, answer ∈ v.heard

variable {f : Floor σ ρ α} {caller : ρ} {work : Dialogue α}

theorem visits_enter (caller : ρ) (work : Dialogue α) (f : Floor σ ρ α) :
    (f.enter caller work).visits =
      f.visits ++ [{ caller, work, left := (work.settle f.service).1 }] := rfl

/-- Beginning a dialogue leaves its mark on nothing but the log. -/
theorem service_enter (caller : ρ) (work : Dialogue α) (f : Floor σ ρ α) :
    ∃ events, (f.enter caller work).service = { f.service with events } :=
  work.settle_service f.service

theorem heard_enter (answer : Answer) : (f.enter caller work).Heard answer ↔ f.Heard answer := by
  unfold Heard
  rw [visits_enter]
  constructor
  · rintro ⟨v, hv, hanswer⟩
    rcases List.mem_append.mp hv with hv | hv
    · exact ⟨v, hv, hanswer⟩
    · rw [List.mem_singleton.mp hv] at hanswer
      cases hanswer
  · rintro ⟨v, hv, hanswer⟩
    exact ⟨v, List.mem_append_left _ hv, hanswer⟩

section

variable [Store σ]

/-- All that a turn can come to. -/
inductive Turned (i : Nat) (f : Floor σ ρ α) : Option Answer → Floor σ ρ α → Prop
  | passed : Turned i f none f
  | asked {v : Visit ρ α} {command : Resp.Command} {next : Answer → Dialogue α} {answer : Answer}
      {s : Service σ} {left : Dialogue α} {events : List Event} :
      f.visits[i]? = some v → v.left = .ask command next →
      Store.carryOut command f.service = (answer, s) →
      left.Settled → (next answer).Comes [] left →
      Turned i f (some answer)
        { service := { s with events }
          visits := f.visits.set i { v with heard := v.heard ++ [answer], left } }

theorem turned (i : Nat) (f : Floor σ ρ α) : Turned i f (f.answer? i) (f.turn i) := by
  unfold answer? turn
  cases hv : f.visits[i]? with
  | none => exact .passed
  | some v =>
    rcases v.left.turn_cases f.service with hidle | ⟨command, next, hleft⟩
    · have hsame : f.visits.set i { v with heard := v.heard ++ [] } = f.visits := by
        obtain ⟨hlt, rfl⟩ := List.getElem?_eq_some_iff.mp hv
        rw [List.append_nil, List.set_getElem_self]
      simp only [Option.bind_some, hidle, Option.toList_none, hsame]
      exact .passed
    · have hturn : v.left.turn f.service =
          ((some (Store.carryOut command f.service).1,
            ((next (Store.carryOut command f.service).1).settle
              (Store.carryOut command f.service).2).1),
            ((next (Store.carryOut command f.service).1).settle
              (Store.carryOut command f.service).2).2) := by
        rw [hleft]
        rfl
      generalize hcarried : Store.carryOut command f.service = carried at hturn
      obtain ⟨answer, s⟩ := carried
      obtain ⟨events, hevents⟩ := (next answer).settle_service s
      rw [hevents] at hturn
      simp only [Option.bind_some, hturn, Option.toList_some]
      exact .asked hv hleft hcarried (Dialogue.settled_settle _ s) (Dialogue.comes_settle _ s)

variable {i : Nat} {g : Floor σ ρ α} {answer? : Option Answer}

/-- In its turn a visit hears the answer, and nobody else hears any. -/
theorem Turned.heard (h : Turned i f answer? g) (answer : Answer) :
    g.Heard answer ↔ f.Heard answer ∨ answer? = some answer := by
  cases h with
  | passed => exact ⟨.inl, fun h => h.resolve_right nofun⟩
  | @asked v _ _ got _ left _ hv hleft =>
    have hlt : i < f.visits.length := (List.getElem?_eq_some_iff.mp hv).1
    constructor
    · rintro ⟨w, hw, hanswer⟩
      rcases List.mem_or_eq_of_mem_set hw with hw | rfl
      · exact .inl ⟨w, hw, hanswer⟩
      · rcases List.mem_append.mp hanswer with hanswer | hanswer
        · exact .inl ⟨v, List.mem_of_getElem? hv, hanswer⟩
        · exact .inr (congrArg some (List.mem_singleton.mp hanswer).symm)
    · rintro (⟨w, hw, hanswer⟩ | hgot)
      · obtain ⟨j, hj⟩ := List.mem_iff_getElem?.mp hw
        by_cases hji : i = j
        · subst hji
          rw [hv] at hj
          cases hj
          exact ⟨_, List.mem_set hlt _, List.mem_append_left _ hanswer⟩
        · refine ⟨w, List.mem_iff_getElem?.mpr ⟨j, ?_⟩, hanswer⟩
          rwa [List.getElem?_set_ne hji]
      · cases hgot
        exact ⟨_, List.mem_set hlt _, List.mem_append_right _ List.mem_cons_self⟩

end

/-! Every visit stays sound. -/

variable {B : ρ → Dialogue α → Prop}

theorem sound_enter (h : ∀ v ∈ f.visits, v.Sound B) (hbegun : B caller work) :
    ∀ v ∈ (f.enter caller work).visits, v.Sound B := by
  intro v hv
  rw [visits_enter] at hv
  rcases List.mem_append.mp hv with hv | hv
  · exact h v hv
  · rw [List.mem_singleton.mp hv]
    exact ⟨hbegun, work.comes_settle f.service, work.settled_settle f.service⟩

theorem Turned.sound [Store σ] {i : Nat} {answer? : Option Answer} {g : Floor σ ρ α}
    (h : Turned i f answer? g) (hsound : ∀ v ∈ f.visits, v.Sound B) :
    ∀ v ∈ g.visits, v.Sound B := by
  cases h with
  | passed => exact hsound
  | @asked v _ _ _ _ _ _ hv hleft _ hsettled hcomes =>
    intro w hw
    rcases List.mem_or_eq_of_mem_set hw with hw | rfl
    · exact hsound w hw
    · have hbefore := hsound v (List.mem_of_getElem? hv)
      have hstood := hbefore.comes
      rw [hleft] at hstood
      exact ⟨hbefore.begun, hstood.trans (.ask hcomes), hsettled⟩

/-! A visit that has the store to itself. -/

/-- Visits take turns. -/
def turns [Store σ] (order : List Nat) (f : Floor σ ρ α) : Floor σ ρ α :=
  order.foldl (fun f i => f.turn i) f

theorem turn_last [Store σ] (s : Service σ) (visits : List (Visit ρ α)) (caller : ρ)
    (work : Dialogue α) (heard : List Answer) (command : Resp.Command)
    (next : Answer → Dialogue α) :
    turn visits.length
        { service := s, visits := visits ++ [{ caller, work, heard, left := .ask command next }] } =
      let (answer, s) := Store.carryOut command s
      let (left, s) := (next answer).settle s
      { service := s
        visits := visits ++ [{ caller, work, heard := heard ++ [answer], left }] } := by
  unfold turn
  rw [List.getElem?_concat_length]
  simp only [List.set_append_right _ _ (Nat.le_refl _), Nat.sub_self, List.set_cons_zero]
  rfl

/-- Turns of one visit only bring what is left of its dialogue to the end that this has in one
run. -/
theorem turns_settle [Store σ] (visits : List (Visit ρ α)) (caller : ρ) (work x : Dialogue α)
    (s : Service σ) (heard : List Answer) :
    ∃ n heard', turns (List.replicate n visits.length)
        { service := (x.settle s).2
          visits := visits ++ [{ caller, work, heard, left := (x.settle s).1 }] } =
      { service := (x.run s).2
        visits := visits ++ [{ caller, work, heard := heard', left := .done (x.run s).1 }] } := by
  induction x generalizing s heard with
  | done a => exact ⟨0, heard, rfl⟩
  | note event next ih => exact ih { s with events := event :: s.events } heard
  | ask command next ih =>
    have hturn := turn_last s visits caller work heard command next
    obtain ⟨n, heard', hrest⟩ := ih (Store.carryOut command s).1 (Store.carryOut command s).2
      (heard ++ [(Store.carryOut command s).1])
    refine ⟨n + 1, heard', ?_⟩
    rw [List.replicate_succ, turns, List.foldl_cons, ← turns]
    exact (congrArg _ hturn).trans hrest

/-- A visit whose turns come one after the other ends as its dialogue does in one run. -/
theorem turns_alone [Store σ] (caller : ρ) (work : Dialogue α) (f : Floor σ ρ α) :
    ∃ n heard, (f.enter caller work).turns (List.replicate n f.visits.length) =
      { service := (work.run f.service).2
        visits := f.visits ++
          [{ caller, work, heard, left := .done (work.run f.service).1 }] } :=
  turns_settle f.visits caller work work f.service []

end Floor

end Depot
