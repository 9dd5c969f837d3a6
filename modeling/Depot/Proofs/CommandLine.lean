import Depot.CommandLine
import Depot.Proofs.Steps
import Depot.Proofs.Text.Decimal
import Depot.Proofs.Text.Integer

/-! # What an accepted command line settles

A command line that is accepted names one store, a port, and a certificate and its key together or
not at all (`CommandLine.accepted_of_parse`). An address that is read off a text is written as text
that is read as the same address (`StoreAddress.Remote.parseTcp_render`). What every setting of an
option keeps is true of all that is accepted (`CommandLine.Kept.parse`). -/

namespace Depot

/-! ## Addresses of stores -/

namespace StoreAddress

open Text.Decimal (max16 readNat)

/-- Text is split at a colon with none behind it. -/
theorem splitLast_append (host : List Char) {port : List Char} (h : ':' ∉ port) :
    splitLast (host ++ ':' :: port) = some (host, port) := by
  have hnone : ∀ {text : List Char}, ':' ∉ text → splitLast text = none := by
    intro text h
    induction text with
    | nil => rfl
    | cons c text ih =>
      rw [List.mem_cons, not_or] at h
      rw [splitLast, ih h.2]
      exact if_neg (Ne.symm h.1)
  induction host with
  | nil =>
    rw [List.nil_append, splitLast, hnone h]
    rfl
  | cons c host ih => rw [List.cons_append, splitLast, ih]

/-- A store on a port of a host, as a command line may name it. -/
inductive Remote : StoreAddress → Prop
  | intro {host : String} {port : Nat} : host ≠ "" → 1 ≤ port → port ≤ max16 →
      Remote (.remote host port)

theorem remote_of_parseTcp {text : String} {d : StoreAddress} (h : parseTcp text = .ok d) :
    Remote d := by
  unfold parseTcp at h
  split at h
  · cases h
  · cases h
  · next host port hne hsplit =>
    split at h
    · cases h
    · cases h
    · next n hzero hread =>
      cases h
      obtain ⟨_, _, _, _, _, hle⟩ := Text.Decimal.readNat_ok hread
      refine .intro (fun hempty => ?_) (Nat.one_le_iff_ne_zero.mpr hzero) hle
      exact hne (String.ofList_eq_empty_iff.mp hempty)

/-- What is written of such an address is read as that address. -/
theorem Remote.parseTcp_render {d : StoreAddress} (h : Remote d) : parseTcp d.render = .ok d := by
  obtain @⟨host, port, hhost, hone, hle⟩ := h
  have hdigits := Text.Decimal.isDigit_toString port
  have hcolon : ':' ∉ (toString port).toList := fun hmem => absurd (hdigits ':' hmem) (by decide)
  have htext : (StoreAddress.remote host port).render.toList =
      host.toList ++ ':' :: (toString port).toList := by
    simp [render]
  have hread : readNat max16 (toString port).toList = .ok port := Text.Decimal.readNat_toString hle
  obtain ⟨c, rest, hcons⟩ : ∃ c rest, host.toList = c :: rest :=
    List.exists_cons_of_ne_nil (mt String.toList_eq_nil_iff.mp hhost)
  have hofList : String.ofList (c :: rest) = host := by rw [← hcons, String.ofList_toList]
  obtain ⟨n, rfl⟩ := Nat.exists_eq_add_of_le' hone
  unfold parseTcp
  rw [htext, splitLast_append _ hcolon, hcons]
  simp only [hread, hofList]

end StoreAddress

/-! ## What settings keep -/

namespace CommandLine

/-- Every setting of an option keeps a property of command lines. -/
def Kept (P : CommandLine → Prop) : Prop :=
  ∀ a value c c', P c → put a value c = .ok c' → P c'

variable {P : CommandLine → Prop} {p p' : Progress} {c c' : CommandLine} {arguments : List String}

theorem Kept.settle (hP : Kept P) (h : P p.line) (hp : p.settle = .ok p') : P p'.line := by
  unfold Progress.settle at hp
  split at hp
  · cases hp
    exact h
  · cases hp
  · next a value hpending =>
    obtain ⟨line, hput, rfl⟩ := exists_ok_of_map hp
    exact hP a value _ _ h hput

theorem Kept.put (hP : Kept P) {a : Argument} {value : String} (h : P p.line)
    (hp : p.put a value = .ok p') : P p'.line := by
  obtain ⟨settled, hsettle, hp⟩ := exists_ok_of_bind hp
  obtain ⟨line, hput, hp⟩ := exists_ok_of_bind hp
  cases hp
  exact hP a value _ _ (hP.settle h hsettle) hput

theorem Kept.expect (hP : Kept P) {a : Argument} (h : P p.line) (hp : p.expect a = .ok p') :
    P p'.line := by
  obtain ⟨settled, hsettle, hp⟩ := exists_ok_of_bind hp
  have hline := hP.settle h hsettle
  cases hp
  exact hline

theorem Kept.readLong (hP : Kept P) {name : List Char} {value : Option (List Char)} (h : P p.line)
    (hp : readLong name value p = .ok p') : P p'.line := by
  unfold CommandLine.readLong at hp
  split at hp
  · cases hp
  · split at hp
    · exact hP.put h hp
    · cases hp
  · split at hp
    · exact hP.expect h hp
    · exact hP.put h hp

theorem Kept.readShort (hP : Kept P) {text : List Char} (h : P p.line)
    (hp : readShort text p = .ok p') : P p'.line := by
  induction text generalizing p with
  | nil =>
    cases hp
    exact h
  | cons c text ih =>
    unfold CommandLine.readShort at hp
    split at hp
    · cases hp
    · split at hp
      · split at hp
        · exact hP.expect h hp
        · exact hP.put h hp
        · exact hP.put h hp
      · obtain ⟨next, hput, hp⟩ := exists_ok_of_bind hp
        exact ih (hP.put h hput) hp

theorem Kept.readAll (hP : Kept P) (h : P p.line) (hp : readAll arguments p = .ok p') :
    P p'.line := by
  induction arguments generalizing p with
  | nil =>
    cases hp
    exact h
  | cons text texts ih =>
    unfold CommandLine.readAll at hp
    split at hp
    · split at hp
      · cases hp
        exact h
      · cases hp
    · obtain ⟨next, hlong, hp⟩ := exists_ok_of_bind hp
      exact ih (hP.readLong h hlong) hp
    · obtain ⟨next, hshort, hp⟩ := exists_ok_of_bind hp
      exact ih (hP.readShort h hshort) hp
    · split at hp
      · refine ih ?_ hp
        exact h
      · cases hp

/-- What holds of the empty command line and is kept by every setting holds of what is accepted, and
that has passed the check. -/
theorem Kept.parse (hP : Kept P) (h : P {}) (hc : parse arguments = .ok c) :
    P c ∧ c.check = .ok () := by
  obtain ⟨read, hread, hc⟩ := exists_ok_of_bind hc
  obtain ⟨settled, hsettle, hc⟩ := exists_ok_of_bind hc
  obtain ⟨_, hcheck, hc⟩ := exists_ok_of_bind hc
  cases hc
  exact ⟨hP.settle (hP.readAll h hread) hsettle, hcheck⟩

/-! ## What is accepted -/

theorem readPath_ok {text : String} {path : Option String} (h : readPath text = .ok path) :
    path = some text := by
  unfold readPath at h
  split at h
  · cases h
  · cases h
    rfl

theorem readPort_ok {text : String} {port : Nat} (h : readPort text = .ok port) :
    1 ≤ port ∧ port ≤ Text.Decimal.max16 := by
  unfold readPort at h
  split at h
  · cases h
  · split at h
    · cases h
      omega
    · cases h

theorem readTcp_ok {text : String} {d : Option StoreAddress} (h : readTcp text = .ok d) :
    ∃ address, d = some address ∧ address.Remote := by
  unfold readTcp at h
  cases hparse : StoreAddress.parseTcp text with
  | error e =>
    rw [hparse] at h
    cases h
  | ok address =>
    rw [hparse] at h
    cases h
    exact ⟨address, rfl, StoreAddress.remote_of_parseTcp hparse⟩

/-- The options that have been given are those that have a value, and the values are sound. -/
structure Consistent (c : CommandLine) : Prop where
  port : .port ∈ c.given → 1 ≤ c.port ∧ c.port ≤ Text.Decimal.max16
  rsock : .rsock ∈ c.given ↔ c.rsock.isSome = true
  rtcp : .rtcp ∈ c.given ↔ c.rtcp.isSome = true
  cert : .cert ∈ c.given ↔ c.cert.isSome = true
  key : .key ∈ c.given ↔ c.key.isSome = true
  ca : .ca ∈ c.given ↔ c.ca.isSome = true
  remote : ∀ address ∈ c.rtcp, address.Remote

theorem kept_consistent : Kept Consistent := by
  intro a value c c' h hput
  have hassign : assign a value { c with given := a :: c.given } = .ok c' := by
    unfold CommandLine.put at hput
    split at hput
    · cases hput
    · exact hput
  obtain ⟨hport, hrsock, hrtcp, hcert, hkey, hca, hremote⟩ := h
  cases a with
  | ip | maxObject | timeout =>
    obtain ⟨_, -, rfl⟩ := exists_ok_of_map hassign
    constructor <;> simpa
  | port =>
    obtain ⟨_, hread, rfl⟩ := exists_ok_of_map hassign
    have := readPort_ok hread
    constructor <;> simpa
  | log | rsock | cert | key | ca =>
    obtain ⟨_, hread, rfl⟩ := exists_ok_of_map hassign
    obtain rfl := readPath_ok hread
    exact ⟨by simpa, by simp [hrsock], by simp [hrtcp], by simp [hcert], by simp [hkey],
      by simp [hca], hremote⟩
  | rtcp =>
    obtain ⟨_, hread, rfl⟩ := exists_ok_of_map hassign
    obtain ⟨address, rfl, haddress⟩ := readTcp_ok hread
    exact ⟨by simpa, by simp [hrsock], by simp, by simp [hcert], by simp [hkey], by simp [hca],
      by simpa⟩
  | oneThread | writeOnce | bar | stats =>
    cases hassign
    constructor <;> simpa
  | help | version => cases hassign

theorem check_eq_ok (h : c.check = .ok ()) :
    ¬(.rsock ∈ c.given ∧ .rtcp ∈ c.given) ∧ .port ∈ c.given ∧
      (.rsock ∈ c.given ∨ .rtcp ∈ c.given) ∧ (.cert ∈ c.given ↔ .key ∈ c.given) ∧
      (.ca ∈ c.given → .cert ∈ c.given) := by
  unfold check lacks at h
  split at h
  · cases h
  · next hone =>
    split at h
    · cases h
    · next hall =>
      simp only [List.contains_eq_mem, Bool.and_eq_true, Bool.or_eq_true, Bool.not_eq_true',
        Bool.not_eq_false, decide_eq_true_eq, decide_eq_false_iff_not, not_or, not_and, not_not]
        at hone hall
      obtain ⟨⟨⟨⟨hport, hstore⟩, hcert⟩, hkey⟩, hca⟩ := hall
      exact ⟨fun hboth => hone hboth.1 hboth.2, hport, hstore, ⟨hcert, hkey⟩, hca⟩

/-- What the options of a command line promise each other. -/
structure Accepted (c : CommandLine) : Prop where
  port : 1 ≤ c.port ∧ c.port ≤ Text.Decimal.max16
  store : (∃ path, c.rsock = some path ∧ c.rtcp = none) ∨
    ∃ address, c.rtcp = some address ∧ c.rsock = none ∧ address.Remote
  tls : c.cert.isSome = c.key.isSome
  ca : c.ca.isSome = true → c.cert.isSome = true

theorem accepted_of_parse (h : parse arguments = .ok c) : c.Accepted := by
  have hempty : Consistent {} := by constructor <;> simp
  obtain ⟨hc, hcheck⟩ := kept_consistent.parse hempty h
  obtain ⟨hone, hport, hstore, htls, hca⟩ := check_eq_ok hcheck
  rw [hc.rsock, hc.rtcp] at hone hstore
  rw [hc.cert, hc.key] at htls
  rw [hc.ca, hc.cert] at hca
  refine ⟨hc.port hport, ?_, Bool.eq_iff_iff.mpr htls, hca⟩
  cases hrsock : c.rsock with
  | some path =>
    cases hrtcp : c.rtcp with
    | some address =>
      rw [hrsock, hrtcp] at hone
      exact absurd ⟨rfl, rfl⟩ hone
    | none => exact .inl ⟨path, rfl, rfl⟩
  | none =>
    rw [hrsock] at hstore
    obtain ⟨address, haddress⟩ := Option.isSome_iff_exists.mp (hstore.resolve_left nofun)
    exact .inr ⟨address, haddress, rfl, hc.remote address haddress⟩

/-- The store that is named, a path of a socket or an address that can be written and read again. -/
theorem Accepted.store?_eq (hc : c.Accepted) :
    ∃ store, c.store? = some store ∧
      ((∃ path, c.rsock = some path ∧ store = .localSocket path) ∨
        c.rtcp = some store ∧ store.Remote ∧ StoreAddress.parseTcp store.render = .ok store) := by
  obtain ⟨path, hrsock, hrtcp⟩ | ⟨address, hrtcp, hrsock, hremote⟩ := hc.store
  · refine ⟨.localSocket path, ?_, .inl ⟨path, hrsock, rfl⟩⟩
    simp [CommandLine.store?, hrsock, hrtcp]
  · refine ⟨address, ?_, .inr ⟨hrtcp, hremote, hremote.parseTcp_render⟩⟩
    simp [CommandLine.store?, hrtcp]

end CommandLine

end Depot
