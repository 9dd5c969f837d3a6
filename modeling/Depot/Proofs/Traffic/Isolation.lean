import Depot.Proofs.Token
import Depot.Proofs.Traffic.Turns

/-! # Clients do not notice each other

Delete from what happens to a service all requests on other objects and all arrivals: the requests
that are left get the replies they got. Delete all requests and the arrivals from other addresses:
the decisions that are left are the ones there were (`turns_isolated`). Two texts name the same
object if they stand behind the same route and differ in the case of letters only. -/

namespace Depot

open Text.Ascii (isHexDigit utf8ByteSize_hex)

namespace Objects

variable {d d' : Digest} {suffix suffix' token token' : String}

/-! ## Texts that name the same object -/

theorem isHexDigit_toLower (c : Char) : isHexDigit c.toLower = isHexDigit c := by
  unfold Char.toLower
  split
  · next hupper =>
    have hlow := UInt32.le_iff_toNat_le.mp hupper.1
    have hhigh := UInt32.le_iff_toNat_le.mp hupper.2
    rw [Bool.eq_iff_iff]
    simp only [isHexDigit, Char.le_def, UInt32.le_iff_toNat_le, UInt32.toNat_add,
      Bool.or_eq_true, Bool.and_eq_true, decide_eq_true_eq]
    simp at hlow hhigh ⊢
    omega
  · rfl

/-- A token is named by as many hexadecimal digits as the digest has. -/
theorem token?_eq (d : Digest) (suffix : String) :
    token? d suffix =
      let digits := suffix.toList.map Char.toLower
      if digits.length = d.tokenLength ∧ digits.all isHexDigit then some (String.ofList digits)
      else none := by
  have hall : (suffix.toList.map Char.toLower).all isHexDigit = suffix.toList.all isHexDigit := by
    rw [List.all_map]
    congr 1
    funext c
    exact isHexDigit_toLower c
  unfold token?
  simp only [hall, List.length_map]
  cases hhex : suffix.toList.all isHexDigit with
  | true => rw [utf8ByteSize_hex hhex]
  | false => simp

/-- Whether two texts behind routes name the same object: same route, same text but for case. -/
def sameObject (d : Digest) (suffix : String) (d' : Digest) (suffix' : String) : Bool :=
  d = d' && suffix.toList.map Char.toLower == suffix'.toList.map Char.toLower

/-- Texts that name the same object name the same token, or none. -/
theorem token?_of_sameObject (h : sameObject d suffix d' suffix' = true) :
    token? d suffix = token? d' suffix' := by
  unfold sameObject at h
  rw [Bool.and_eq_true, decide_eq_true_eq, beq_iff_eq] at h
  rw [token?_eq, token?_eq, h.1, h.2]

/-- Texts that name one token name the same object: the length of a token tells its route. -/
theorem sameObject_of_token? (h : token? d suffix = some token)
    (h' : token? d' suffix' = some token) : sameObject d suffix d' suffix' = true := by
  rw [token?_eq] at h h'
  simp only at h h'
  split at h
  · next hd =>
    split at h'
    · next hd' =>
      have hdigits : suffix.toList.map Char.toLower = suffix'.toList.map Char.toLower := by
        rw [← String.ofList_inj]
        exact (Option.some.inj h).trans (Option.some.inj h').symm
      have hlength : d.tokenLength = d'.tokenLength := by rw [← hd.1, ← hd'.1, hdigits]
      simp [sameObject, hdigits, Digest.tokenLength_inj hlength]
    · cases h'
  · cases h

/-- Different objects are in different slots. -/
theorem apart (h : sameObject d suffix d' suffix' = false) :
    ∀ key ∈ keys d suffix, key ∉ keys d' suffix' := by
  rintro key ⟨token, htoken, rfl⟩ ⟨token', htoken', hkey⟩
  rw [Text.Utf8.encode_inj] at hkey
  subst hkey
  rw [sameObject_of_token? htoken htoken'] at h
  cases h

end Objects

namespace Traffic

open Objects (sameObject)

/-! ## Deleting turns -/

namespace Turn

/-- Whether a turn stays if only requests on one object do; the clock, the net and the end of the
service stay. -/
def isOnObject (d : Digest) (suffix : String) : Turn → Bool
  | .arrival _ => false
  | .happening (.request d' suffix' _ _) => sameObject d suffix d' suffix'
  | .happening _ => true

/-- Whether a turn stays if only arrivals from one address do. -/
def isFrom (client : Address) : Turn → Bool
  | .arrival client' => client'.canonical = client.canonical
  | .happening (.request ..) => false
  | .happening _ => true

end Turn

variable {o : Options} {l : Quota} {g g₁ g₂ : Gateway Volatile} {keys : Set Bytes} {t : Turn}

/-- A client's turn that has nothing to do with some slots goes unnoticed by who asks for these. -/
theorem Alike.unnoticed (h : Alike o l keys g₁ g₂) (ht : t.isClients = true)
    (hkeys : ∀ key ∈ keys, key ∉ t.keys) : Alike o l keys (t.step g₁).2 g₂ := by
  have hspares := step_frame h.first ht
  refine ⟨hspares.serves, h.second, hspares.flag.trans h.flag, ?_⟩
  exact h.store.frame hspares.store hkeys

/-- What comes of the turns that stay is the same without the others, if the turns that stay look
at some slots only and the others are clients' that have nothing to do with these. -/
theorem trace_filter {keep : Turn → Bool} (hkeep : ∀ t, keep t = true → t.keys ⊆ keys)
    (hdrop : ∀ t, keep t = false → t.isClients = true ∧ ∀ key ∈ keys, key ∉ t.keys)
    (h : Alike o l keys g₁ g₂) (turns : List Turn) :
    (trace turns g₁).filter (fun x => keep x.1) = trace (turns.filter keep) g₂ := by
  induction turns generalizing g₁ g₂ with
  | nil => rfl
  | cons t turns ih =>
    cases ht : keep t with
    | true =>
      obtain ⟨hresponse, halike⟩ := step_agree h (hkeep t ht)
      simp only [trace, List.filter_cons, ht, if_true]
      rw [hresponse, ih halike]
    | false =>
      obtain ⟨hclients, hkeys⟩ := hdrop t ht
      simp only [trace, List.filter_cons, ht, Bool.false_eq_true, if_false]
      exact ih (h.unnoticed hclients hkeys)

/-- Turns that stay if only requests on one object do stay within its slot. -/
theorem keys_subset_of_isOnObject {d : Digest} {suffix : String}
    (h : t.isOnObject d suffix = true) : t.keys ⊆ Objects.keys d suffix := by
  cases t with
  | arrival client => cases h
  | happening happening =>
    cases happening with
    | request d' suffix' r elapsed =>
      rintro key ⟨token, htoken, hkey⟩
      exact ⟨token, (Objects.token?_of_sameObject h).trans htoken, hkey⟩
    | clock millis => exact Set.empty_subset _
    | net offline => exact Set.empty_subset _
    | stop reason => exact Set.empty_subset _

/-- The other turns are clients' and have nothing to do with the slot of the object. -/
theorem apart_of_not_isOnObject {d : Digest} {suffix : String}
    (h : t.isOnObject d suffix = false) :
    t.isClients = true ∧ ∀ key ∈ Objects.keys d suffix, key ∉ t.keys := by
  cases t with
  | arrival client =>
    refine ⟨rfl, fun key hkey hcounter => ?_⟩
    obtain rfl : key = Quota.key client.canonical := hcounter
    exact Quota.key_notMem client.canonical d suffix hkey
  | happening happening =>
    cases happening with
    | request d' suffix' r elapsed => exact ⟨rfl, Objects.apart h⟩
    | clock millis => cases h
    | net offline => cases h
    | stop reason => cases h

theorem keys_subset_of_isFrom {client : Address} (h : t.isFrom client = true) :
    t.keys ⊆ {Quota.key client.canonical} := by
  cases t with
  | arrival client' =>
    have hcanonical : client'.canonical = client.canonical := of_decide_eq_true h
    rw [Turn.keys, hcanonical]
  | happening happening =>
    cases happening with
    | request d suffix r elapsed => cases h
    | clock millis => exact Set.empty_subset _
    | net offline => exact Set.empty_subset _
    | stop reason => exact Set.empty_subset _

theorem apart_of_not_isFrom {client : Address} (h : t.isFrom client = false) :
    t.isClients = true ∧
      ∀ key ∈ ({Quota.key client.canonical} : Set Bytes), key ∉ t.keys := by
  cases t with
  | arrival client' =>
    have hcanonical : client'.canonical ≠ client.canonical := of_decide_eq_false h
    refine ⟨rfl, ?_⟩
    rintro key rfl hkey
    exact hcanonical (Quota.key_inj.mp hkey).symm
  | happening happening =>
    cases happening with
    | request d suffix r elapsed =>
      refine ⟨rfl, ?_⟩
      rintro key rfl
      exact Quota.key_notMem client.canonical d suffix
    | clock millis => cases h
    | net offline => cases h
    | stop reason => cases h

/-- A turn has to do with its own slots only: what comes of it is the same on all stores that agree
on them, and it leaves all other slots alone. -/
structure Local (g : Gateway Volatile) (t : Turn) : Prop where
  reads : ∀ store, Volatile.Agree t.keys g.service.store store →
    (t.step { g with service.store := store }).1 = (t.step g).1
  writes : Volatile.Frame t.keys g.service.store (t.step g).2.service.store

theorem Serves.isLocal (h : Serves o l g) (ht : t.isClients = true) : Local g t where
  reads store hagree := by
    have halike : Alike o l t.keys g { g with service.store := store } :=
      ⟨h, h.onService _, rfl, hagree⟩
    exact (step_agree halike subset_rfl).1.symm
  writes := (step_frame h ht).store

/-- Clients do not notice each other. In any run of a service with its store in memory, requests on
an object get the replies they would get without the requests on other objects and the arrivals,
and arrivals from an address the decisions they would get without the requests and the arrivals
from other addresses. For a request reads and writes the slot of its object only, an arrival the
slot of its counter only, and no two of these are the same. -/
theorem turns_isolated (o : Options) (timed : Bool) (l : Quota) (service : Service Volatile)
    (turns : List Turn) :
    ∃ routes log, routeTable o timed = .ok (routes, log) ∧
      let g : Gateway Volatile := { service, routes, quota := some l }
      (∀ d suffix, (trace turns g).filter (fun x => x.1.isOnObject d suffix) =
        trace (turns.filter (Turn.isOnObject d suffix)) g) ∧
      (∀ client, (trace turns g).filter (fun x => x.1.isFrom client) =
        trace (turns.filter (Turn.isFrom client)) g) ∧
      (∀ t : Turn, t.isClients = true → Local (after turns g) t) ∧
      (∀ d suffix d' suffix', sameObject d suffix d' suffix' = false →
        ∀ key ∈ Objects.keys d suffix, key ∉ Objects.keys d' suffix') ∧
      (∀ address d suffix, Quota.key address ∉ Objects.keys d suffix) ∧
      ∀ a b : Address, Quota.key a.canonical = Quota.key b.canonical →
        a.canonical = b.canonical := by
  obtain ⟨routes, log, htable, hcores⟩ := routeTable_cores o timed
  refine ⟨routes, log, htable, ?_⟩
  intro g
  have hserves : Serves o l g := ⟨hcores, rfl⟩
  refine ⟨fun d suffix => ?_, fun client => ?_, fun t ht => (after_serves hserves turns).isLocal ht,
    fun d suffix d' suffix' => Objects.apart, Quota.key_notMem,
    fun a b => Quota.key_inj.mp⟩
  · exact trace_filter (fun _ => keys_subset_of_isOnObject) (fun _ => apart_of_not_isOnObject)
      (.refl hserves _) turns
  · exact trace_filter (fun _ => keys_subset_of_isFrom) (fun _ => apart_of_not_isFrom)
      (.refl hserves _) turns

end Traffic

end Depot
