import Depot.Endpoint.Object
import Depot.Endpoint.OptionList
import Depot.Link.Script
import Depot.Proofs.Link.Moves
import Depot.Proofs.Store.Interleaving

/-! # A service that loses its store

Any number of requests are under way at once, each at its next command, on one link with a watchdog.
Once a command finds the link broken the service is down: the stop flag is up, the link has no
stream, and whatever happens then, nothing more is sent and everyone who comes is turned away
(`fails_fast`). Those who were under way get their replies. -/

namespace Depot.StoreLoss

open Http (Request)

/-! ## What requests make of a broken link -/

/-- Where requests go. -/
inductive Site where
  | object (d : Digest)
  | options

def Site.endpoint (o : Options) : Site → Endpoint
  | .object d => Endpoint.Object.endpoint d o
  | .options => Endpoint.OptionList.endpoint o

structure Caller where
  site : Site
  suffix : String
  request : Request

/-- None of the answers says that there is no link. -/
def Linked (heard : List Answer) : Prop := ∀ e, .error e ∈ heard → e.isLinkFailure = false

/-- What a request comes to if it was told that there is no link: a 503, or what was read if only
the object could not be deleted then. -/
def Spared (o : Options) (r : Request) (heard : List Answer) (outcome : Outcome) : Prop :=
  ∀ e, .error e ∈ heard → e.isLinkFailure = true →
    outcome = .plain .serviceUnavailable "service unavailable" ∨
    (r.method = .get ∧ o.readOnce = true ∧
      ∃ value, heard = [.ok (.bulk value), .error e] ∧
        outcome = .plain .ok (Text.Utf8.lossy value))

theorem spared_of_linked {o : Options} {r : Request} {heard : List Answer} (h : Linked heard)
    (outcome : Outcome) : Spared o r heard outcome := by
  intro e he hlost
  rw [h e he] at hlost
  cases hlost

/-- Whatever it hears: a request asks no more once it was told that there is no link, and is spared
then. -/
def Bears (o : Options) (r : Request) (x : Dialogue Outcome) (heard : List Answer) : Prop :=
  x.Heeds (fun heard _ => Linked heard) (Spared o r) heard

section

open Dialogue (heeds_report heeds_send)

variable {o : Options} {r : Request} {suffix : String} {heard : List Answer}

theorem linked_nil : Linked [] := fun _ he => absurd he List.not_mem_nil

theorem linked_ok (value : Resp.Value) : Linked [.ok value] := by
  intro e he
  cases List.mem_singleton.mp he

/-- Most dialogues end with a report and an answer. -/
theorem reply_bears (event : Event) {outcome : Outcome} (h : Spared o r heard outcome) :
    Bears o r (do Dialogue.report event; return outcome) heard :=
  heeds_report event h

/-- Without an answer that says that there is no link any reply will do. -/
theorem linked_bears (event : Event) (outcome : Outcome) (h : Linked heard) :
    Bears o r (do Dialogue.report event; return outcome) heard :=
  reply_bears event (spared_of_linked h outcome)

/-- An object that was read is given, whatever becomes of its deletion. -/
theorem read_bears (d : Digest) (t : Token) (value : Bytes) (hmethod : r.method = .get)
    (hburn : o.readOnce = true) :
    Bears o r
      (do
        Endpoint.Object.burn d t
        Dialogue.report (.info (Endpoint.Object.logLine r suffix "200" ++ " BURNT") [])
        return .plain .ok (Text.Utf8.lossy value)) [.ok (.bulk value)] := by
  have hread (answer : Answer) : Spared o r [.ok (.bulk value), answer]
      (.plain .ok (Text.Utf8.lossy value)) := by
    intro e he _
    rcases List.mem_cons.mp he with he | he
    · cases he
    · rw [← List.mem_singleton.mp he]
      exact .inr ⟨hmethod, hburn, value, rfl, rfl⟩
  refine heeds_send (linked_ok _) fun answer => ?_
  cases answer with
  | ok _ => exact reply_bears _ (hread _)
  | error e => exact heeds_report _ (reply_bears _ (hread _))

theorem get_bears (d : Digest) (hmethod : r.method = .get) :
    Bears o r (Endpoint.Object.get d o suffix r) [] := by
  unfold Endpoint.Object.get
  split
  · exact linked_bears _ _ linked_nil
  · refine heeds_send linked_nil fun answer => ?_
    rw [List.nil_append]
    split
    · next value =>
      split
      · next hburn => exact read_bears d _ value hmethod hburn
      · exact linked_bears _ _ (linked_ok _)
    · split
      · exact heeds_report _ (linked_bears _ _ (linked_ok _))
      · exact linked_bears _ _ (linked_ok _)
    · exact reply_bears _ fun e _ _ => .inl rfl

theorem store_bears (d : Digest) (t : Token) :
    Bears o r (Endpoint.Object.store d o suffix r t) [] := by
  refine heeds_send linked_nil fun answer => ?_
  rw [List.nil_append]
  split
  · exact linked_bears _ _ (linked_ok _)
  · exact linked_bears _ _ (linked_ok _)
  · split
    · exact linked_bears _ _ (linked_ok _)
    · exact linked_bears _ _ (linked_ok _)
  · next e =>
    split
    · exact reply_bears _ fun e _ _ => .inl rfl
    · next hanswered =>
      refine linked_bears _ _ fun e' he => ?_
      cases List.mem_singleton.mp he
      exact (Bool.not_eq_true _).mp hanswered

theorem post_bears (d : Digest) : Bears o r (Endpoint.Object.post d o suffix r) [] := by
  unfold Endpoint.Object.post
  split
  · exact linked_bears _ _ linked_nil
  · split
    · exact linked_bears _ _ linked_nil
    · exact store_bears d _

theorem object_bears (d : Digest) (flag : StopFlag) :
    Bears o r (Endpoint.Object.endpoint d o flag suffix r) [] := by
  unfold Endpoint.Object.endpoint
  split
  · exact spared_of_linked linked_nil _
  · split
    · next hmethod => exact get_bears d hmethod
    · exact post_bears d
    · exact linked_bears _ _ linked_nil

theorem options_bears (flag : StopFlag) :
    Bears o r (Endpoint.OptionList.endpoint o flag suffix r) [] := by
  unfold Endpoint.OptionList.endpoint
  split
  · exact spared_of_linked linked_nil _
  · split
    · exact spared_of_linked linked_nil _
    · exact linked_bears _ _ linked_nil

/-- Every endpoint turns callers away once the stop flag is up. -/
theorem endpoint_raised (site : Site) {flag : StopFlag} (h : flag.isRaised = true) :
    site.endpoint o flag suffix r = .done .goingDown := by
  cases site with
  | object d => exact if_pos h
  | options => exact if_pos h

theorem endpoint_bears (site : Site) (flag : StopFlag) :
    Bears o r (site.endpoint o flag suffix r) [] := by
  cases site with
  | object d => exact object_bears d flag
  | options => exact options_bears flag

end

/-! ## What happens on the floor -/

variable {π : Type}

/-- Requests under way on a link. -/
abbrev Hall (π : Type) := Floor (Link π) Caller Outcome

inductive Happening where
  /-- A request arrives. It sees the stop flag as it is then. -/
  | arrive (c : Caller)
  /-- A request sends its next command. -/
  | turn (i : Nat)
  /-- The service is told to go down for another reason. -/
  | stop (reason : StopReason)
  /-- Nothing is sent for a while. -/
  | pause

/-- A command found the link broken. -/
def Broken (f : Hall π) : Prop := ∃ cause, f.Heard (.error (.broken cause))

/-- The service goes down, and there is no stream to the store. -/
structure Down (s : Service (Link π)) : Prop where
  raised : s.flag.isRaised = true
  wire : s.store.wire = none

/-- The reason that an answer is for the service to go down. -/
def loss? : Option Answer → Option StopReason
  | some (.error (.broken _)) => some .linkLost
  | _ => none

theorem loss?_some {answer : Answer} {reason : StopReason} (h : loss? (some answer) = some reason) :
    ∃ cause, answer = .error (.broken cause) := by
  unfold loss? at h
  split at h
  · next cause hanswer => exact ⟨cause, Option.some.inj hanswer⟩
  · cases h

section

variable [Peer π]

def Happening.step (o : Options) (f : Hall π) : Happening → Hall π
  | .arrive c => f.enter c (c.site.endpoint o f.service.flag c.suffix c.request)
  | .turn i => f.turn i
  | .stop reason => { f with service := ((Service.raise reason).run f.service).2 }
  | .pause => { f with service := { f.service with store := f.service.store.rest } }

def run (o : Options) (happenings : List Happening) (f : Hall π) : Hall π :=
  happenings.foldl (fun f h => h.step o f) f

/-- Why the service is to go down from now on, if it is: it is told to, or the link turns out to be
broken. -/
def Happening.reason? (f : Hall π) : Happening → Option StopReason
  | .stop reason => some reason
  | .turn i => loss? (f.answer? i)
  | _ => none

/-- The reasons there were, in order. -/
def reasons (o : Options) : List Happening → Hall π → List StopReason
  | [], _ => []
  | h :: happenings, f => (h.reason? f).toList ++ reasons o happenings (h.step o f)

end

/-- What holds of the hall at any time. A link that had a stream is without one only after it
broke. -/
structure Guarded (connected : Prop) (o : Options) (f : Hall π) : Prop where
  watchdog : f.service.store.watchdog = true
  sound : ∀ v ∈ f.visits, v.Sound fun c work =>
    ∃ flag, work = c.site.endpoint o flag c.suffix c.request
  down : Broken f → Down f.service
  gone : connected → f.service.store.wire = none → Broken f
  noLink : connected → f.Heard (.error .noLink) → Broken f

variable {connected : Prop} {o : Options} {f g : Hall π}

theorem broken_enter (c : Caller) (work : Dialogue Outcome) :
    Broken (f.enter c work) ↔ Broken f := by
  unfold Broken
  simp only [Floor.heard_enter]

variable [Peer π]

theorem broken_turn {i : Nat} {answer? : Option Answer} (ht : Floor.Turned i f answer? g) :
    Broken g ↔ Broken f ∨ ∃ cause, answer? = some (.error (.broken cause)) := by
  unfold Broken
  simp only [ht.heard, exists_or]

theorem Guarded.arrive (h : Guarded connected o f) (c : Caller) :
    Guarded connected o ((Happening.arrive c).step o f) := by
  let work := c.site.endpoint o f.service.flag c.suffix c.request
  obtain ⟨events, hservice⟩ := Floor.service_enter c work f
  have hbroken := broken_enter (f := f) c work
  have hnoLink : (f.enter c work).Heard (.error .noLink) ↔ f.Heard (.error .noLink) :=
    Floor.heard_enter _
  constructor
  · change (f.enter c work).service.store.watchdog = true
    rw [hservice]
    exact h.watchdog
  · exact Floor.sound_enter h.sound ⟨_, rfl⟩
  · intro hlost
    have hdown := h.down (hbroken.mp hlost)
    change Down (f.enter c work).service
    rw [hservice]
    exact ⟨hdown.raised, hdown.wire⟩
  · intro hconnected hwire
    change (f.enter c work).service.store.wire = none at hwire
    rw [hservice] at hwire
    exact hbroken.mpr (h.gone hconnected hwire)
  · intro hconnected hheard
    exact hbroken.mpr (h.noLink hconnected (hnoLink.mp hheard))

/-- A turn keeps the hall guarded: a link that breaks brings the service down, and without a stream
no command gets far enough to break one. -/
theorem Guarded.turn {i : Nat} {answer? : Option Answer} (h : Guarded connected o f)
    (ht : Floor.Turned i f answer? g) : Guarded connected o g := by
  have hsound := ht.sound h.sound
  have hbroken := broken_turn ht
  have hheard := ht.heard (.error .noLink)
  cases ht with
  | passed => exact h
  | @asked v command next answer s left events hv hleft hcarried hsettled hcomes =>
    have hexecuted := Link.executed command f.service
    rw [show (Link.carryOut command).run f.service = (answer, s) from hcarried] at hexecuted
    cases hexecuted with
    | noLink hwire =>
      have hsame := hbroken.trans (or_iff_left nofun)
      exact
        { watchdog := h.watchdog
          sound := hsound
          down := fun hlost =>
            have hdown := h.down (hsame.mp hlost)
            ⟨hdown.raised, hdown.wire⟩
          gone := fun hconnected _ => hsame.mpr (h.gone hconnected hwire)
          noLink := fun hconnected _ => hsame.mpr (h.gone hconnected hwire) }
    | @answered wire next _ hwire hask hkept =>
      have hsame : Broken _ ↔ Broken f :=
        hbroken.trans (or_iff_left fun ⟨cause, he⟩ => hkept cause (Option.some.inj he))
      have hlinked : ¬Broken f := by
        intro hlost
        rw [(h.down hlost).wire] at hwire
        cases hwire
      have hanswer : answer ≠ .error .noLink := by
        have hne := Link.ask_ne_noLink command wire
        rwa [hask] at hne
      exact
        { watchdog := h.watchdog
          sound := hsound
          down := fun hlost => absurd (hsame.mp hlost) hlinked
          gone := nofun
          noLink := fun hconnected hgot =>
            match hheard.mp hgot with
            | .inl hbefore => hsame.mpr (h.noLink hconnected hbefore)
            | .inr hnow => absurd (Option.some.inj hnow) hanswer }
    | @broken wire next cause events hwire hask =>
      have hlost : Broken _ := hbroken.mpr (.inr ⟨cause, rfl⟩)
      exact
        { watchdog := h.watchdog
          sound := hsound
          down := fun _ => ⟨by simp [h.watchdog, StopFlag.raise, StopFlag.isRaised], rfl⟩
          gone := fun _ _ => hlost
          noLink := fun _ _ => hlost }

theorem Guarded.step (h : Guarded connected o f) (happening : Happening) :
    Guarded connected o (happening.step o f) := by
  cases happening with
  | arrive c => exact h.arrive c
  | turn i => exact h.turn (f.turned i)
  | stop reason =>
    refine ⟨h.watchdog, h.sound, fun hlost => ?_, h.gone, h.noLink⟩
    have hdown := h.down hlost
    refine ⟨?_, hdown.wire⟩
    change (f.service.flag.raise reason).isRaised = true
    simp [StopFlag.raise, StopFlag.isRaised]
  | pause =>
    refine ⟨h.watchdog, h.sound, fun hlost => ?_, fun hconnected hwire => ?_, h.noLink⟩
    · have hdown := h.down hlost
      exact ⟨hdown.raised, by simp [Happening.step, Link.rest, hdown.wire]⟩
    · exact h.gone hconnected (by simpa [Happening.step, Link.rest] using hwire)

theorem Guarded.run (h : Guarded connected o f) (happenings : List Happening) :
    Guarded connected o (run o happenings f) := by
  induction happenings generalizing f with
  | nil => exact h
  | cons happening happenings ih => exact ih (h.step happening)

/-! ## What comes after the loss -/

/-- The hall some time after the link broke, if `f` is the hall then: nothing was sent since, the
stop flag has not changed, and those who came were turned away. -/
structure After (f g : Hall π) : Prop where
  flag : g.service.flag = f.service.flag
  heard : g.service.store.heard = f.service.store.heard
  down : Down g.service
  longer : f.visits.length ≤ g.visits.length
  late : ∀ v ∈ g.visits.drop f.visits.length, v.heard = [] ∧ v.left = .done .goingDown

omit [Peer π] in
theorem After.refl (h : Down f.service) : After f f where
  flag := rfl
  heard := rfl
  down := h
  longer := Nat.le_refl _
  late := by simp

theorem raise_raised {flag : StopFlag} (h : flag.isRaised = true) (reason : StopReason) :
    flag.raise reason = flag := by
  obtain ⟨_ | first⟩ := flag
  · cases h
  · rfl

theorem After.arrive (h : After f g) (c : Caller) : After f ((Happening.arrive c).step o g) := by
  have hstep : (Happening.arrive c).step o g =
      { g with visits := g.visits ++
        [{ caller := c, work := .done .goingDown, left := .done .goingDown }] } := by
    change g.enter c (c.site.endpoint o g.service.flag c.suffix c.request) = _
    rw [endpoint_raised c.site h.down.raised]
    rfl
  rw [hstep]
  refine ⟨h.flag, h.heard, h.down, ?_, ?_⟩
  · rw [List.length_append]
    exact Nat.le_add_right_of_le h.longer
  · intro v hv
    rw [List.drop_append_of_le_length h.longer] at hv
    rcases List.mem_append.mp hv with hv | hv
    · exact h.late v hv
    · rw [List.mem_singleton.mp hv]
      exact ⟨rfl, rfl⟩

/-- Without a stream a command sends nothing, and only those who were under way have one. -/
theorem After.turn {i : Nat} {answer? : Option Answer} {g' : Hall π} (h : After f g)
    (ht : Floor.Turned i g answer? g') : After f g' := by
  cases ht with
  | passed => exact h
  | @asked v command next answer s left events hv hleft hcarried =>
    rw [show Store.carryOut command g.service = (.error .noLink, g.service) from
      Link.carryOut_noWire h.down.wire command] at hcarried
    cases hcarried
    have hearly : i < f.visits.length := by
      refine Nat.lt_of_not_le fun hlate => ?_
      have hdrop : v ∈ g.visits.drop f.visits.length := by
        refine List.mem_of_getElem? (i := i - f.visits.length) ?_
        rw [List.getElem?_drop, ← hv]
        congr 1
        omega
      rw [(h.late v hdrop).2] at hleft
      cases hleft
    refine ⟨h.flag, h.heard, ⟨h.down.raised, h.down.wire⟩, ?_, ?_⟩
    · rw [List.length_set]
      exact h.longer
    · rw [List.drop_set_of_lt hearly]
      exact h.late

theorem After.step (h : After f g) (happening : Happening) : After f (happening.step o g) := by
  cases happening with
  | arrive c => exact h.arrive c
  | turn i => exact h.turn (g.turned i)
  | stop reason =>
    have hraise : (((Happening.stop reason).step o g).service).flag = g.service.flag :=
      raise_raised h.down.raised reason
    exact ⟨hraise.trans h.flag, h.heard, ⟨hraise ▸ h.down.raised, h.down.wire⟩, h.longer, h.late⟩
  | pause =>
    have hwire : g.service.store.rest.wire = none := by rw [Link.rest, h.down.wire]; rfl
    exact ⟨h.flag, h.heard, ⟨h.down.raised, hwire⟩, h.longer, h.late⟩

theorem After.run (h : After f g) (happenings : List Happening) :
    After f (run o happenings g) := by
  induction happenings generalizing g with
  | nil => exact h
  | cons happening happenings ih => exact ih (h.step happening)

/-! ## Why the service goes down -/

theorem flag_turn {i : Nat} {answer? : Option Answer} (h : f.service.store.watchdog = true)
    (ht : Floor.Turned i f answer? g) :
    g.service.flag.reason = f.service.flag.reason.or (loss? answer?) := by
  cases ht with
  | passed => exact Option.or_none.symm
  | @asked v command next answer s left events hv hleft hcarried =>
    have hexecuted := Link.executed command f.service
    rw [show (Link.carryOut command).run f.service = (answer, s) from hcarried] at hexecuted
    cases hexecuted with
    | noLink => exact Option.or_none.symm
    | answered _ _ hkept =>
      cases answer with
      | ok value => exact Option.or_none.symm
      | error e =>
        cases e with
        | broken cause => exact absurd rfl (hkept cause)
        | _ => exact Option.or_none.symm
    | broken =>
      change (if f.service.store.watchdog then _ else _ : StopFlag).reason = _
      rw [if_pos h]
      rfl

/-- A happening raises the stop flag if it is a reason to, and a flag that is up stays as it is. -/
theorem flag_step (h : f.service.store.watchdog = true) (happening : Happening) :
    (happening.step o f).service.flag.reason = f.service.flag.reason.or (happening.reason? f) := by
  cases happening with
  | arrive c =>
    obtain ⟨events, hservice⟩ :=
      Floor.service_enter c (c.site.endpoint o f.service.flag c.suffix c.request) f
    change (f.enter c _).service.flag.reason = _
    rw [hservice]
    exact Option.or_none.symm
  | turn i => exact flag_turn h (f.turned i)
  | stop reason => rfl
  | pause => exact Option.or_none.symm

theorem flag_run (h : Guarded connected o f) (happenings : List Happening) :
    (run o happenings f).service.flag.reason =
      f.service.flag.reason.or (reasons o happenings f).head? := by
  induction happenings generalizing f with
  | nil => exact Option.or_none.symm
  | cons happening happenings ih =>
    rw [run, List.foldl_cons, ← run, ih (h.step happening), flag_step h.watchdog, reasons,
      List.head?_append, Option.or_assoc]
    cases happening.reason? f <;> rfl

/-! ## The main result -/

/-- In its turn a visit hears what the round trip of its command comes to. -/
theorem heard_turn {i : Nat} {v : Visit Caller Outcome} {command : Resp.Command}
    {next : Answer → Dialogue Outcome} (hv : f.visits[i]? = some v)
    (hleft : v.left = .ask command next) :
    let answer := f.service.store.wire.elim (.error .noLink) fun wire => (wire.ask command).1
    ∃ left, (f.turn i).visits[i]? = some { v with heard := v.heard ++ [answer], left } := by
  intro answer
  have hanswer : (Store.carryOut command f.service).1 = answer :=
    Link.carryOut_answer command f.service
  have hlt : i < f.visits.length := (List.getElem?_eq_some_iff.mp hv).1
  unfold Floor.turn
  rw [hv, ← hanswer]
  simp only [hleft]
  exact ⟨_, List.getElem?_set_self hlt⟩

theorem run_turns (i n : Nat) (f : Hall π) :
    run o (List.replicate n (.turn i)) f = f.turns (List.replicate n i) := by
  induction n generalizing f with
  | zero => rfl
  | succ n ih => exact ih (f.turn i)

/-- A request that nobody comes between is answered as its endpoint answers it in one run. -/
theorem run_alone (c : Caller) (f : Hall π) :
    let work := c.site.endpoint o f.service.flag c.suffix c.request
    ∃ n heard, run o (.arrive c :: List.replicate n (.turn f.visits.length)) f =
      { service := (work.run f.service).2
        visits := f.visits ++
          [{ caller := c, work, heard, left := .done (work.run f.service).1 }] } := by
  intro work
  obtain ⟨n, heard, halone⟩ := Floor.turns_alone c work f
  exact ⟨n, heard, (run_turns _ _ _).trans halone⟩

omit [Peer π] in
theorem fresh_guarded {s : Service (Link π)} (h : s.store.watchdog = true) :
    Guarded (s.store.wire.isSome = true) o { service := s } where
  watchdog := h
  sound := nofun
  down := fun ⟨_, _, hv, _⟩ => absurd hv List.not_mem_nil
  gone := fun hconnected hwire => by rw [hwire] at hconnected; cases hconnected
  noLink := fun _ ⟨_, hv, _⟩ => absurd hv List.not_mem_nil

omit [Peer π] in
/-- A request that was told that there is no link has its reply. -/
theorem Guarded.spared (h : Guarded connected o f) {v : Visit Caller Outcome} (hv : v ∈ f.visits)
    {e : NoAnswer} (he : .error e ∈ v.heard) (hlost : e.isLinkFailure = true) :
    ∃ outcome, v.left = .done outcome ∧ Spared o v.caller.request v.heard outcome := by
  obtain ⟨⟨flag, hwork⟩, hcomes, hsettled⟩ := h.sound v hv
  rw [hwork] at hcomes
  have hbears := hcomes.heeds (endpoint_bears v.caller.site flag)
  rw [List.nil_append] at hbears
  cases hleft : v.left with
  | done outcome =>
    rw [hleft] at hbears
    exact ⟨outcome, rfl, hbears⟩
  | note event next =>
    rw [hleft] at hsettled
    exact absurd hsettled id
  | ask command next =>
    rw [hleft] at hbears
    have hlinked := hbears.1 e he
    rw [hlost] at hlinked
    cases hlinked

/-- **A service that loses its store goes down at once and stays down.** Take any number of requests
under way on a link with a watchdog, whatever the peer does. Once a command has found the link
broken, the stop flag is up; from then on it does not change, nothing is sent to the store, and
every request that comes is answered, without a command, that the service is shutting down. A
request that was told of the loss has its reply: a 503, or the object if only its deletion failed.
A link that is gone broke first, unless there was none from the start. The stop flag keeps the first
reason there was. What a request hears in its turn is what the round trip of its command on the
stream comes to, or that there is no stream. -/
theorem fails_fast (o : Options) (s : Service (Link π)) (hwatchdog : s.store.watchdog = true)
    (before later : List Happening) :
    let f := run o before { service := s }
    let g := run o later f
    (Broken f → f.service.flag.isRaised = true ∧ g.service.flag = f.service.flag ∧
      g.service.store.heard = f.service.store.heard ∧
      ∀ v ∈ g.visits.drop f.visits.length, v.heard = [] ∧
        v.left = .done (.plain .serviceUnavailable "service unavailable: shutting down")) ∧
    (s.store.wire.isSome = true → f.Heard (.error .noLink) → Broken f) ∧
    (∀ v ∈ f.visits, ∀ e, .error e ∈ v.heard → e.isLinkFailure = true →
      ∃ outcome, v.left = .done outcome ∧
        (outcome = .plain .serviceUnavailable "service unavailable" ∨
          (v.caller.request.method = .get ∧ o.readOnce = true ∧
            ∃ value, v.heard = [.ok (.bulk value), .error e] ∧
              outcome = .plain .ok (Text.Utf8.lossy value)))) ∧
    f.service.flag.reason = s.flag.reason.or (reasons o before { service := s }).head? ∧
    ∀ i v command next, f.visits[i]? = some v → v.left = .ask command next →
      let answer := f.service.store.wire.elim (.error .noLink) fun wire => (wire.ask command).1
      ∃ left, ((Happening.turn i).step o f).visits[i]? =
        some { v with heard := v.heard ++ [answer], left } := by
  intro f g
  have hstart : Guarded _ o { service := s } := fresh_guarded hwatchdog
  have hf : Guarded _ o f := hstart.run before
  refine ⟨fun hbroken => ?_, hf.noLink, ?_, flag_run hstart before, fun _ _ _ _ => heard_turn⟩
  · have hdown := hf.down hbroken
    have hafter : After f g := (After.refl hdown).run later
    exact ⟨hdown.raised, hafter.flag, hafter.heard, hafter.late⟩
  · intro v hv e he hlost
    obtain ⟨outcome, hleft, hspared⟩ := hf.spared hv he hlost
    exact ⟨outcome, hleft, hspared e he hlost⟩

/-- A store that hangs up between the two commands of a request that takes its object away: whoever
comes next is turned away, and a signal that comes later is not the reason any more. -/
theorem fails_fast_taking :
    let peer : Script :=
      ⟨[[.bytes (Resp.Value.bulk (Text.Utf8.encode "Hello")).encode], [.hangUp]]⟩
    let s : Service (Link Script) :=
      { store := { wire := some { peer }, up := true, watchdog := true } }
    let o : Options := { readOnce := true }
    let c : Caller :=
      { site := .object .md5
        suffix := "9e107d9d372bb6826bd81d3542a419d6"
        request := { client := .v4 127 0 0 1, method := .get, path := "" } }
    let before : List Happening := [.arrive c, .turn 0, .turn 0]
    let later : List Happening := [.stop .signal, .arrive c, .turn 1]
    s.store.watchdog = true ∧ Broken (run o before { service := s }) ∧
      (run o later (run o before { service := s })).service.flag.reason = some .linkLost ∧
      ∃ v, (run o later (run o before { service := s })).visits.drop 1 = [v] ∧
        v.left = .done (.plain .serviceUnavailable "service unavailable: shutting down") := by
  intro peer s o c before later
  have hlost : (run o before { service := s }).visits.any (fun v =>
      v.heard.any fun answer => loss? (some answer) == some .linkLost) = true := by
    decide +kernel
  have hbroken : Broken (run o before { service := s }) := by
    obtain ⟨v, hv, hheard⟩ := List.any_eq_true.mp hlost
    obtain ⟨answer, hanswer, hloss⟩ := List.any_eq_true.mp hheard
    obtain ⟨cause, rfl⟩ := loss?_some (eq_of_beq hloss)
    exact ⟨cause, v, hv, hanswer⟩
  have hreasons : reasons o before { service := s } = [.linkLost] := by decide +kernel
  have hlengths : (run o before { service := s }).visits.length = 1 ∧
      ((run o later (run o before { service := s })).visits.drop 1).length = 1 := by
    decide +kernel
  obtain ⟨hdown, _, _, hreason, _⟩ := fails_fast o s rfl before later
  obtain ⟨_, hflag, _, hlate⟩ := hdown hbroken
  obtain ⟨v, hv⟩ := List.length_eq_one_iff.mp hlengths.2
  refine ⟨rfl, hbroken, ?_, v, hv, ?_⟩
  · rw [hflag, hreason, hreasons]
    rfl
  · rw [hlengths.1, hv] at hlate
    exact (hlate v (List.mem_singleton_self v)).2

end Depot.StoreLoss
