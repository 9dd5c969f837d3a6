import Depot.Proofs.CommandLine
import Depot.Proofs.Steps
import Depot.Setup

/-! # What a setup promises

Command line, environment and files settle a setup, or one of them is at fault: the first variable
that is set and holds no integer, or else the first TLS file that cannot be read (`Blamed`). What
comes of an accepted command line keeps all that the parts of the service rely on (`Promises`,
`derive_settles`). -/

namespace Depot.Setup

open Text.Decimal (IntegerText max63)

/-! ## Variables -/

section

variable {env : String → Option String} {name : String} {n : Int} {e : SetupFault}

/-- A variable is set to an integer. -/
def Holds (env : String → Option String) (name : String) (n : Int) : Prop :=
  ∃ value, env name = some value ∧ IntegerText value n

/-- A variable is set, and not to an integer. -/
def Spoilt (env : String → Option String) (name : String) : Prop :=
  ∃ value, env name = some value ∧ ∀ n, ¬IntegerText value n

theorem Holds.le (h : Holds env name n) : n ≤ max63 := by
  obtain ⟨value, -, hvalue⟩ := h
  exact hvalue.le

theorem integerOf_eq_some : integerOf env name = .ok (some n) ↔ Holds env name n := by
  unfold integerOf Holds
  cases env name with
  | none => simp
  | some value =>
    simp only [Option.some.injEq, exists_eq_left', ← Text.Decimal.readInt_trim_iff]
    cases Text.Decimal.readInt (Text.trim value.toList) <;> simp

theorem integerOf_eq_error :
    integerOf env name = .error e ↔
      Spoilt env name ∧ ∃ value, env name = some value ∧ e = .invalidVariable name value := by
  unfold integerOf Spoilt
  cases env name with
  | none => simp
  | some value =>
    simp only [Option.some.injEq, exists_eq_left', ← Text.Decimal.readInt_trim_iff]
    cases Text.Decimal.readInt (Text.trim value.toList) with
    | error fault => simp [eq_comm]
    | ok m => simp

theorem exists_integerOf_eq_error : (∃ e, integerOf env name = .error e) ↔ Spoilt env name := by
  constructor
  · rintro ⟨e, he⟩
    exact (integerOf_eq_error.mp he).1
  · intro h
    obtain ⟨value, hvalue, -⟩ := id h
    exact ⟨_, integerOf_eq_error.mpr ⟨h, value, hvalue, rfl⟩⟩

/-- The variables, in the order in which they are looked at. -/
def variableNames : List String := ["REQPERIOD", "REQCOUNT", "EXPIRATION"]

theorem environment_eq_error_iff :
    environment env = .error e ↔ variableNames.mapM (integerOf env) = .error e := by
  simp only [environment, variableNames, List.mapM_cons, List.mapM_nil, bind_eq_error_iff]
  simp [pure, Except.pure]

/-- An environment is at fault for its first variable that is spoilt, and for no other reason. -/
theorem environment_fault_iff :
    environment env = .error e ↔
      ∃ name value, FirstOf (Spoilt env) variableNames name ∧ env name = some value ∧
        e = .invalidVariable name value := by
  rw [environment_eq_error_iff, mapM_eq_error_iff fun name => exists_integerOf_eq_error.symm]
  simp only [integerOf_eq_error]
  constructor
  · rintro ⟨name, hfirst, -, value, hvalue, rfl⟩
    exact ⟨name, value, hfirst, hvalue, rfl⟩
  · rintro ⟨name, value, hfirst, hvalue, rfl⟩
    obtain ⟨_, _, _, hspoilt, -⟩ := id hfirst
    exact ⟨name, hfirst, hspoilt, value, hvalue, rfl⟩

theorem environment_ok_iff :
    (∃ settled, environment env = .ok settled) ↔ ∀ name ∈ variableNames, ¬Spoilt env name := by
  constructor
  · rintro ⟨settled, hok⟩ name hname hspoilt
    obtain ⟨first, hfirst⟩ := exists_firstOf.mpr ⟨name, hname, hspoilt⟩
    obtain ⟨_, _, _, ⟨value, hvalue, -⟩, -⟩ := id hfirst
    rw [environment_fault_iff.mpr ⟨first, value, hfirst, hvalue, rfl⟩] at hok
    cases hok
  · intro hsound
    cases henv : environment env with
    | ok settled => exact ⟨settled, rfl⟩
    | error e =>
      obtain ⟨name, _, hfirst, -⟩ := environment_fault_iff.mp henv
      obtain ⟨name, hname, hspoilt⟩ := exists_firstOf.mp ⟨name, hfirst⟩
      exact absurd hspoilt (hsound name hname)

theorem environment_ok {quota : Option Quota} {lifetime : Int}
    (h : environment env = .ok (quota, lifetime)) :
    ∃ window capacity seconds, integerOf env "REQPERIOD" = .ok window ∧
      integerOf env "REQCOUNT" = .ok capacity ∧ integerOf env "EXPIRATION" = .ok seconds ∧
      quota = quotaOf window capacity ∧ lifetime = seconds.getD 0 := by
  obtain ⟨window, hwindow, h⟩ := exists_ok_of_bind h
  obtain ⟨capacity, hcapacity, h⟩ := exists_ok_of_bind h
  obtain ⟨seconds, hseconds, h⟩ := exists_ok_of_bind h
  cases h
  exact ⟨window, capacity, seconds, hwindow, hcapacity, hseconds, rfl, rfl⟩

theorem quotaOf_eq_some {window capacity : Option Int} {q : Quota} :
    quotaOf window capacity = some q ↔
      window = some (q.window : Int) ∧ capacity = some (q.capacity : Int) ∧
        0 < q.window ∧ 0 < q.capacity := by
  cases window with
  | none => simp [quotaOf]
  | some window =>
    cases capacity with
    | none => simp [quotaOf]
    | some capacity =>
      obtain ⟨seconds, count⟩ := q
      simp only [quotaOf, Quota.ofInts?, Option.ite_none_right_eq_some, Option.some.injEq,
        Quota.mk.injEq]
      omega

/-- What two variables that are read come to as a quota. -/
theorem quotaOf_variables {window capacity : Option Int} {q : Quota}
    (hwindow : integerOf env "REQPERIOD" = .ok window)
    (hcapacity : integerOf env "REQCOUNT" = .ok capacity) :
    quotaOf window capacity = some q ↔
      Holds env "REQPERIOD" q.window ∧ Holds env "REQCOUNT" q.capacity ∧
        0 < q.window ∧ 0 < q.capacity := by
  rw [quotaOf_eq_some, ← integerOf_eq_some, ← integerOf_eq_some, hwindow, hcapacity,
    Except.ok.injEq, Except.ok.injEq]

/-- Whatever the variable holds, objects have a lifetime only if it is positive. -/
theorem lifetime_cases {seconds : Option Int} (h : integerOf env "EXPIRATION" = .ok seconds) :
    (∃ n : Nat, 0 < n ∧ Holds env "EXPIRATION" n ∧ (seconds.getD 0).toNat = n) ∨
      (∀ n, Holds env "EXPIRATION" n → n ≤ 0) ∧ (seconds.getD 0).toNat = 0 := by
  have hholds : ∀ n, Holds env "EXPIRATION" n ↔ seconds = some n := fun n => by
    rw [← integerOf_eq_some, h, Except.ok.injEq]
  simp only [hholds]
  cases seconds with
  | none => exact .inr ⟨nofun, rfl⟩
  | some n =>
    rw [Option.getD_some]
    by_cases hn : 0 < n
    · exact .inl ⟨n.toNat, by omega, by rw [Int.toNat_of_nonneg (Int.le_of_lt hn)], rfl⟩
    · refine .inr ⟨fun m hm => ?_, by omega⟩
      cases hm
      omega

end

/-! ## Files -/

section

variable {π : Type} {host : Host π} {c : CommandLine} {path : String} {e : SetupFault}

/-- The TLS files, in the order in which they are read. -/
def files (c : CommandLine) : List String :=
  match c.cert, c.key with
  | some cert, some key => cert :: key :: c.ca.toList
  | _, _ => []

/-- What the files of TLS material hold, in that order. -/
def contents (tls : Option Tls.Material) : List Bytes :=
  tls.elim [] fun material => material.cert :: material.key :: material.ca.toList

/-- Nothing is read of a file. -/
def Unreadable (host : Host π) (path : String) : Prop :=
  ∃ cause, host.readFile path = .error cause

/-- The TLS material is what its files hold. -/
theorem mapM_read_files :
    (files c).mapM (read host) = (materialOf host c).map contents := by
  unfold files materialOf
  cases c.cert with
  | none => rfl
  | some cert =>
    cases c.key with
    | none => rfl
    | some key =>
      simp only [List.mapM_cons]
      cases read host cert with
      | error e => rfl
      | ok cert =>
        cases read host key with
        | error e => rfl
        | ok key =>
          cases c.ca with
          | none => rfl
          | some ca =>
            simp only [Option.toList_some, List.mapM_cons, Option.mapM_some]
            cases read host ca <;> rfl

theorem read_eq_error :
    read host path = .error e ↔
      ∃ cause, host.readFile path = .error cause ∧ e = .unreadable path cause := by
  unfold read
  cases host.readFile path with
  | error cause => simp [Except.mapError, eq_comm]
  | ok bytes => simp [Except.mapError]

theorem file_fault_iff :
    (files c).mapM (read host) = .error e ↔
      ∃ path cause, FirstOf (Unreadable host) (files c) path ∧
        host.readFile path = .error cause ∧ e = .unreadable path cause := by
  have hbad : ∀ path, Unreadable host path ↔ ∃ e, read host path = .error e := by
    intro path
    simp [Unreadable, read_eq_error]
  rw [mapM_eq_error_iff hbad]
  simp only [read_eq_error]
  constructor
  · rintro ⟨path, hfirst, cause, hcause, rfl⟩
    exact ⟨path, cause, hfirst, hcause, rfl⟩
  · rintro ⟨path, cause, hfirst, hcause, rfl⟩
    exact ⟨path, hfirst, cause, hcause, rfl⟩

theorem isSome_of_materialOf {tls : Option Tls.Material} (h : materialOf host c = .ok tls) :
    tls.isSome = true ↔ c.cert.isSome = true ∧ c.key.isSome = true := by
  unfold materialOf at h
  split at h
  · next cert key hcert hkey =>
    obtain ⟨_, -, h⟩ := exists_ok_of_bind h
    obtain ⟨_, -, h⟩ := exists_ok_of_bind h
    obtain ⟨_, -, h⟩ := exists_ok_of_bind h
    cases h
    simp [hcert, hkey]
  · next hnone =>
    cases h
    refine iff_of_false nofun ?_
    rintro ⟨hcert, hkey⟩
    obtain ⟨cert, hcert⟩ := Option.isSome_iff_exists.mp hcert
    obtain ⟨key, hkey⟩ := Option.isSome_iff_exists.mp hkey
    exact hnone cert key hcert hkey

end

/-! ## Paths that are served -/

section

variable {o : Options} {path : String}

/-- A path under which an object or an option may be asked for. -/
inductive Served (o : Options) : String → Prop
  | token {d : Digest} {token : String} : token.utf8ByteSize = d.tokenLength →
      Served o (d.route ++ token)
  | option {name : String} : Endpoint.OptionList.render o name ≠ "" →
      Served o (Endpoint.OptionList.route ++ name)

/-- The names that the option list answers to. -/
def optionNames : List String := ["all", "maxuploadsize", "expiration", "immutable", "bar"]

theorem render_ne_empty_iff {name : String} :
    Endpoint.OptionList.render o name ≠ "" ↔ name ∈ optionNames := by
  simp only [optionNames, List.mem_cons, List.not_mem_nil, or_false]
  constructor
  · intro h
    contrapose! h
    obtain ⟨hall, hmax, hexp, himm, hbar⟩ := h
    simp [Endpoint.OptionList.render, Endpoint.OptionList.lines, hall, hmax, hexp, himm, hbar]
  · rintro (rfl | rfl | rfl | rfl | rfl) <;>
      simp [Endpoint.OptionList.render, Endpoint.OptionList.lines]

theorem Served.within (h : Served o path) :
    Gateway.minPath ≤ path.utf8ByteSize ∧ path.utf8ByteSize ≤ Gateway.maxPath := by
  cases h with
  | @token d token htoken =>
    have hroute : Gateway.minPath ≤ d.route.utf8ByteSize + d.tokenLength ∧
        d.route.utf8ByteSize + d.tokenLength ≤ Gateway.maxPath := by
      cases d <;> decide +kernel
    rwa [String.utf8ByteSize_append, htoken]
  | @option name hname =>
    have hnames : ∀ name ∈ optionNames,
        Gateway.minPath ≤ Endpoint.OptionList.route.utf8ByteSize + name.utf8ByteSize ∧
          Endpoint.OptionList.route.utf8ByteSize + name.utf8ByteSize ≤ Gateway.maxPath := by
      decide +kernel
    rw [String.utf8ByteSize_append]
    exact hnames name (render_ne_empty_iff.mp hname)

/-- A head that asks for a path within the limits is not refused for its length. -/
theorem pathLength_of_ofHead {head : Http.Head} {client : Address} {bounds : Http.Bounds}
    {length min max : Nat}
    (h : Http.Intake.ofHead head client bounds = .error (.pathLength length min max)) :
    ¬(bounds.minPath ≤ head.path.utf8ByteSize ∧ head.path.utf8ByteSize ≤ bounds.maxPath) := by
  unfold Http.Intake.ofHead at h
  split at h
  · cases h
  · dsimp only at h
    split at h
    · omega
    · split at h <;> cases h

end

/-! ## What a setup promises -/

section

variable {π : Type} {host : Host π} {env : String → Option String} {c : CommandLine} {s : Setup}
  {e : SetupFault}

/-- What is wrong where there is no setup: a variable that holds no integer, the first of them, or
else a TLS file that cannot be read, the first of them. -/
inductive Blamed (host : Host π) (env : String → Option String) (c : CommandLine) :
    SetupFault → Prop
  | spoilt {name value : String} : FirstOf (Spoilt env) variableNames name →
      env name = some value → Blamed host env c (.invalidVariable name value)
  | unreadable {path : String} {cause : Fault} : (∀ name ∈ variableNames, ¬Spoilt env name) →
      FirstOf (Unreadable host) (files c) path →
      host.readFile path = .error cause → Blamed host env c (.unreadable path cause)

/-- What the parts of the service rely on. -/
structure Promises (host : Host π) (env : String → Option String) (c : CommandLine) (s : Setup) :
    Prop where
  maxObject : Options.leastMaxObject ≤ s.options.maxObject ∧
    s.listener.bounds.maxBody = s.options.maxObject
  lifetime_le : s.options.lifetime ≤ max63
  /-- Objects are kept for good unless the variable is positive. -/
  lifetime : (∃ n : Nat, 0 < n ∧ Holds env "EXPIRATION" n ∧ s.options.lifetime = n) ∨
    (∀ n, Holds env "EXPIRATION" n → n ≤ 0) ∧ s.options.lifetime = 0
  quota : ∀ q, s.quota = some q ↔
    Holds env "REQPERIOD" q.window ∧ Holds env "REQCOUNT" q.capacity ∧ 0 < q.window ∧ 0 < q.capacity
  store : (∃ path, c.rsock = some path ∧ s.store = .localSocket path) ∨
    c.rtcp = some s.store ∧ s.store.Remote ∧ StoreAddress.parseTcp s.store.render = .ok s.store
  tls : s.listener.tls.isSome = true ↔ c.cert.isSome = true ∧ c.key.isSome = true
  material : (files c).mapM (read host) = .ok (contents s.listener.tls)
  paths : ∀ path, Served s.options path →
    s.listener.bounds.minPath ≤ path.utf8ByteSize ∧ path.utf8ByteSize ≤ s.listener.bounds.maxPath
  heads : ∀ head client, Served s.options head.path → ∀ length min max,
    Http.Intake.ofHead head client s.listener.bounds ≠ .error (.pathLength length min max)

theorem assemble_ok {store : StoreAddress} {quota : Option Quota} {lifetime : Int}
    (h : assemble host c store quota lifetime = .ok s) :
    s.store = store ∧ s.options = optionsOf c lifetime ∧ s.quota = quota ∧
      s.listener.bounds = Gateway.boundsOf s.options ∧
      materialOf host c = .ok s.listener.tls := by
  obtain ⟨tls, htls, h⟩ := exists_ok_of_bind h
  cases h
  exact ⟨rfl, rfl, rfl, rfl, htls⟩

theorem assemble_eq_error_iff {store : StoreAddress} {quota : Option Quota} {lifetime : Int} :
    assemble host c store quota lifetime = .error e ↔ (files c).mapM (read host) = .error e := by
  rw [mapM_read_files]
  unfold assemble
  cases materialOf host c with
  | error fault => simp [bind, Except.bind, Except.map]
  | ok tls => simp [bind, Except.bind, Except.map, pure, Except.pure]

theorem derive_result {store : StoreAddress} (h : c.store? = some store) :
    (derive host env c).result =
      environment env >>= fun settled => assemble host c store settled.1 settled.2 := by
  unfold derive
  rw [h]
  cases environment env <;> rfl

theorem derive_eq_error_iff (hc : c.Accepted) :
    (derive host env c).result = .error e ↔ Blamed host env c e := by
  obtain ⟨store, hstore, -⟩ := hc.store?_eq
  rw [derive_result hstore, bind_eq_error_iff, environment_fault_iff]
  simp only [assemble_eq_error_iff, exists_and_right, environment_ok_iff, file_fault_iff]
  constructor
  · rintro (⟨name, value, hfirst, hvalue, rfl⟩ | ⟨hsound, path, cause, hfirst, hcause, rfl⟩)
    · exact .spoilt hfirst hvalue
    · exact .unreadable hsound hfirst hcause
  · rintro (⟨hfirst, hvalue⟩ | ⟨hsound, hfirst, hcause⟩)
    · exact .inl ⟨_, _, hfirst, hvalue, rfl⟩
    · exact .inr ⟨hsound, _, _, hfirst, hcause, rfl⟩

theorem derive_promises (hc : c.Accepted) (h : (derive host env c).result = .ok s) :
    Promises host env c s := by
  obtain ⟨store, hstore, haddress⟩ := hc.store?_eq
  rw [derive_result hstore] at h
  obtain ⟨⟨quota, lifetime⟩, henv, h⟩ := exists_ok_of_bind h
  obtain ⟨window, capacity, seconds, hwindow, hcapacity, hseconds, rfl, rfl⟩ := environment_ok henv
  obtain ⟨rfl, hoptions, hquota, hbounds, htls⟩ := assemble_ok h
  have hserved : ∀ path, Served s.options path →
      s.listener.bounds.minPath ≤ path.utf8ByteSize ∧
        path.utf8ByteSize ≤ s.listener.bounds.maxPath := by
    intro path hpath
    rw [hbounds]
    exact hpath.within
  have hlifetime : s.options.lifetime = (seconds.getD 0).toNat := by rw [hoptions]; rfl
  have hcases := lifetime_cases hseconds
  rw [← hlifetime] at hcases
  exact {
    maxObject := ⟨by rw [hoptions]; exact Nat.le_max_right .., by rw [hbounds]; rfl⟩
    lifetime_le := by
      obtain ⟨n, -, hholds, hn⟩ | ⟨-, hzero⟩ := hcases
      · have := hholds.le
        omega
      · omega
    lifetime := hcases
    quota := fun q => by rw [hquota]; exact quotaOf_variables hwindow hcapacity
    store := haddress
    tls := isSome_of_materialOf htls
    material := by rw [mapM_read_files, htls]; rfl
    paths := hserved
    heads := fun head client hpath length min max hrefused =>
      pathLength_of_ofHead hrefused (hserved _ hpath) }

/-- **Behind an accepted command line stands a setup that keeps its promises, or what is at fault
is the first variable that holds no integer, or else the first file that cannot be read.** That is
so however arguments are read, as long as the options promise each other what they promise here;
those that are read from text do. -/
theorem derive_settles (host : Host π) (env : String → Option String) :
    (∀ arguments c, CommandLine.parse arguments = .ok c → c.Accepted) ∧
      ∀ c : CommandLine, c.Accepted →
        (derive host env c).result ≠ .error .noStore ∧
        (∀ e, (derive host env c).result = .error e ↔ Blamed host env c e) ∧
        ∀ s, (derive host env c).result = .ok s → Promises host env c s := by
  refine ⟨fun _ _ => CommandLine.accepted_of_parse, fun c hc => ⟨fun hnone => ?_,
    fun e => derive_eq_error_iff hc, fun s => derive_promises hc⟩⟩
  cases (derive_eq_error_iff hc).mp hnone

/-- With a size below the floor, a count with blanks and a sign and a negative lifetime there is a
setup; with two variables spoilt, the first of them is at fault. -/
theorem derive_settles_below_floor :
    let arguments := ["-P80", "--rtcp", "::1:6379", "--maxpost=10", "--cert=c", "--key", "k"]
    let c : CommandLine :=
      { given := [.key, .cert, .maxObject, .rtcp, .port], port := 80,
        rtcp := some (.remote "::1" 6379), maxObject := 10, cert := some "c", key := some "k" }
    let host : Host Unit :=
      { readFile := fun _ => .ok [], openLog := fun _ => .ok (), dial := fun _ => .ok (),
        bind := fun _ _ => .ok () }
    let env := fun name =>
      [("REQPERIOD", "10"), ("REQCOUNT", " +3\n"), ("EXPIRATION", "-5")].lookup name
    let spoilt := fun name => [("REQCOUNT", "many"), ("EXPIRATION", "soon")].lookup name
    CommandLine.parse arguments = .ok c ∧
      (∃ s, (derive host env c).result = .ok s ∧ s.options.maxObject = 1024 ∧
        s.options.lifetime = 0 ∧ s.quota = some ⟨10, 3⟩ ∧ Promises host env c s) ∧
      Blamed host spoilt c (.invalidVariable "REQCOUNT" "many") := by
  intro arguments c host env spoilt
  have hparse : CommandLine.parse arguments = .ok c := by decide +kernel
  have hresult : (derive host env c).result = .ok
      { listener :=
          { port := 80, tls := some ⟨[], [], none⟩, idleSeconds := some 30
            bounds := ⟨11, 139, 1024⟩ }
        store := .remote "::1" 6379
        options := { maxObject := 1024 }
        quota := some ⟨10, 3⟩, logPath := none, timed := false } := by decide +kernel
  have hspoilt : (derive host spoilt c).result = .error (.invalidVariable "REQCOUNT" "many") := by
    decide +kernel
  obtain ⟨haccepts, hsettles⟩ := derive_settles host env
  obtain ⟨-, -, hpromises⟩ := hsettles c (haccepts arguments c hparse)
  obtain ⟨-, hblamed, -⟩ := (derive_settles host spoilt).2 c (haccepts arguments c hparse)
  exact ⟨hparse, ⟨_, hresult, rfl, rfl, rfl, hpromises _ hresult⟩, (hblamed _).mp hspoilt⟩

end

end Depot.Setup
