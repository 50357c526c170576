import Lycoris.Lib.Loop
import Lycoris.Stores.Drift

/-!
Registration of extensions on one node (`daemon/src/extension/mod.rs`, `extension/src/manifest.rs`). A
call compares its version with the stored one outside the apply lock, and the apply it then makes under
the lock also accepts an equal version that wins the tie. Calls may overlap with each other, with applies
of the sync and with deletes.
-/

namespace Lycoris.Daemon
open Lib Cluster Stores

/-! ### Manifests -/

inductive EngineKind where
  | wasm
  | lua
  deriving DecidableEq

/-- The manifest error, by the values its text is formatted from. -/
inductive ManifestError where
  | unknownEngine (engine : String)
  | missingRequiredKey (key : String)
  | invalidSemver (raw error : String)
  | invalidJson (key error : String)
  | unknownCapability (capability : String)
  | emptyHookPoint
  deriving DecidableEq

def EngineKind.asStr : EngineKind → String
  | .wasm => "wasm"
  | .lua => "lua"

def EngineKind.fromStr (engine : String) : Except ManifestError EngineKind :=
  if engine = "wasm" then .ok .wasm
  else if engine = "lua" then .ok .lua
  else .error (.unknownEngine engine)

inductive HookErrorPolicy where
  | abort
  | ignore
  deriving DecidableEq

structure HookDecl where
  point : String
  onError : HookErrorPolicy
  deriving DecidableEq

structure ExtensionManifest (Semver : Type) where
  semver : Semver
  capabilities : List String
  provides : List String
  hooks : List HookDecl
  selector : StringMap
  settings : String

/-- The parsers of other crates: `semver`, and `serde_json` at the types of the manifest values. -/
structure ManifestParsers (Semver Json : Type) where
  semver : String → Except String Semver
  strings : String → Except String (List String)
  hooks : String → Except String (List HookDecl)
  selector : String → Except String StringMap
  value : String → Except String Json

def knownCapabilities : List String := ["log", "http"]

def required (map : StringMap) (key : String) : Except ManifestError String :=
  okOr map[key]? (.missingRequiredKey key)

def parseJson {T : Type} (fromStr : String → Except String T) (raw key : String) : Except ManifestError T :=
  (fromStr raw).mapError (.invalidJson key)

/-- The value under a key that may be absent. -/
def parseJsonOr {T : Type} (fromStr : String → Except String T) (default : T) (map : StringMap) (key : String) :
    Except ManifestError T :=
  match map[key]? with
  | some raw => parseJson fromStr raw key
  | none => .ok default

section Register

variable {Semver Json : Type} (parsers : ManifestParsers Semver Json)

def ExtensionManifest.fromMap (map : StringMap) : Except ManifestError (ExtensionManifest Semver) := do
  let semverRaw ← required map "semver"
  let semver ← (parsers.semver semverRaw).mapError (.invalidSemver semverRaw)
  let capabilities ← parseJsonOr parsers.strings [] map "capabilities"
  capabilities.forM fun capability =>
    ensure (capability ∈ knownCapabilities) (.unknownCapability capability)
  let provides ← parseJsonOr parsers.strings [] map "provides"
  let hooks ← parseJsonOr parsers.hooks [] map "hooks"
  hooks.forM fun hook => ensure (hook.point ≠ "") .emptyHookPoint
  let selector ← parseJsonOr parsers.selector ∅ map "selector"
  let settings ← match map["settings"]? with
    | some raw => (parseJson parsers.value raw "settings").map fun _ => raw
    | none => .ok "\x7b\x7d"
  return { semver, capabilities, provides, hooks, selector, settings }

/-! ### Register calls -/

structure ExtensionRegistration where
  id : String
  name : String
  version : UInt64
  engine : String
  entry : String
  artifact : Bytes
  manifest : StringMap
  labels : StringMap

inductive RegisterExtensionError where
  | invalidId (id : String)
  | manifest (error : ManifestError)
  | emptyArtifact
  | versionNotIncreasing (id : String) (current received : UInt64)
  | storage (error : ExtensionStorageError)
  deriving DecidableEq

/-- A call of `register` between two of its accesses to the store. -/
inductive RegisterCall where
  /-- The version check has passed. -/
  | applying (record : ExtensionRecord) (artifact : Bytes)
  /-- The apply was skipped, and the stored version is to be reported. -/
  | skipped (id : String) (received : UInt64)
  | answered (answer : Except RegisterExtensionError String)
  deriving DecidableEq

def defaultEntry : String := "invoke"

variable (blake3 : Bytes → Hash) (localNodeId : String)

/-- The record of a registration over what the check found. -/
def ExtensionRegistration.record (registration : ExtensionRegistration) (engine : EngineKind) (now : Int)
    (existing : Option ExtensionRecord) : ExtensionRecord where
  id := registration.id
  name := registration.name
  version := registration.version
  engine := engine.asStr
  entry := if registration.entry.isEmpty then defaultEntry else registration.entry
  contentHash := hashContent blake3 registration.artifact
  scope := .clusterShared
  sourceNodeId := some localNodeId
  createdAtMs := (existing.map (·.createdAtMs)).getD now
  updatedAtMs := now
  manifest := registration.manifest
  labels := registration.labels

/-- The checks of a call, with the outcome of its read of the store. -/
def ExtensionRegistration.checked (registration : ExtensionRegistration) (now : Int)
    (read : Except ExtensionStorageError (Option ExtensionRecord)) :
    Except RegisterExtensionError ExtensionRecord := do
  (validate registration.id).mapError fun _ => .invalidId registration.id
  let engine ← (EngineKind.fromStr registration.engine).mapError .manifest
  let _ ← (ExtensionManifest.fromMap parsers registration.manifest).mapError .manifest
  ensure (registration.artifact ≠ []) .emptyArtifact
  let existing ← read.mapError .storage
  match existing with
  | some stored =>
    ensure (stored.version < registration.version)
      (.versionNotIncreasing registration.id stored.version registration.version)
  | none => .ok ()
  return registration.record blake3 localNodeId engine now existing

/-- `ExtensionDomain::get`, which may fail. -/
def ExtensionDomain.get (fault : Option ExtensionStorageError) (domain : ExtensionDomain) (id : String) :
    Except ExtensionStorageError (Option ExtensionRecord) :=
  match fault with
  | some error => .error error
  | none => .ok (domain.records.get? id)

namespace RegisterCall

/-- The call up to its apply. -/
def begin (fault : Option ExtensionStorageError) (domain : ExtensionDomain)
    (registration : ExtensionRegistration) (now : Int) : RegisterCall :=
  match registration.checked parsers blake3 localNodeId now (ExtensionDomain.get fault domain registration.id) with
  | .error error => .answered (.error error)
  | .ok record => .applying record registration.artifact

/-- The call after its apply. -/
def applied (record : ExtensionRecord) : Except ExtensionStorageError Bool → RegisterCall
  | .error error => .answered (.error (.storage error))
  | .ok true => .answered (.ok record.contentHash)
  | .ok false => .skipped record.id record.version

/-- The call after it has read the version to report. -/
def reported (id : String) (received : UInt64) :
    Except ExtensionStorageError (Option ExtensionRecord) → RegisterCall
  | .error error => .answered (.error (.storage error))
  | .ok stored =>
    .answered (.error (.versionNotIncreasing id ((stored.map (·.version)).getD received) received))

end RegisterCall

/-- The whole call, with nothing between its accesses. -/
def register (readFault : Option ExtensionStorageError) (faults : ContentFaults ExtensionStorageError)
    (reportFault : Option ExtensionStorageError) (domain : ExtensionDomain)
    (registration : ExtensionRegistration) (now : Int) :
    ExtensionDomain × Except RegisterExtensionError String :=
  match registration.checked parsers blake3 localNodeId now (ExtensionDomain.get readFault domain registration.id) with
  | .error error => (domain, .error error)
  | .ok record =>
    let applied := domain.applyRemoteExtension blake3 faults record registration.artifact
    match applied.2 with
    | .error error => (applied.1, .error (.storage error))
    | .ok true => (applied.1, .ok record.contentHash)
    | .ok false =>
      match ExtensionDomain.get reportFault applied.1 registration.id with
      | .error error => (applied.1, .error (.storage error))
      | .ok stored =>
        (applied.1, .error (.versionNotIncreasing registration.id
          ((stored.map (·.version)).getD registration.version) registration.version))

/-! ### Runs -/

/-- A call that was answered with success, and the record it took effect over. -/
structure Registered where
  record : ExtensionRecord
  replaced : Option ExtensionRecord

/-- The extension store of a node with its calls of `register`. -/
structure Registrations where
  domain : ExtensionDomain
  calls : List RegisterCall
  /-- Newest first, and only since the last delete of the id. -/
  registered : List Registered

inductive RegistrationStep where
  | begin (registration : ExtensionRegistration) (now : Int) (fault : Option ExtensionStorageError)
  | apply (call : Nat) (faults : ContentFaults ExtensionStorageError)
  | report (call : Nat) (fault : Option ExtensionStorageError)
  | sync (record : ExtensionRecord) (artifact : Bytes) (faults : ContentFaults ExtensionStorageError)
  | delete (id : String) (fault : Option ExtensionStorageError)

namespace Registrations

def applyCall (state : Registrations) (call : Nat) (faults : ContentFaults ExtensionStorageError)
    (record : ExtensionRecord) (artifact : Bytes) : Registrations :=
  let applied := state.domain.applyRemoteExtension blake3 faults record artifact
  let next := RegisterCall.applied record applied.2
  { domain := applied.1
    calls := state.calls.set call next
    registered :=
      if next = .answered (.ok record.contentHash) then
        ⟨record, state.domain.records.get? record.id⟩ :: state.registered
      else state.registered }

def step (state : Registrations) : RegistrationStep → Registrations
  | .begin registration now fault =>
    { state with
      calls := state.calls ++ [.begin parsers blake3 localNodeId fault state.domain registration now] }
  | .apply call faults =>
    match state.calls[call]? with
    | some (.applying record artifact) => state.applyCall blake3 call faults record artifact
    | _ => state
  | .report call fault =>
    match state.calls[call]? with
    | some (.skipped id received) =>
      { state with
        calls := state.calls.set call (.reported id received (ExtensionDomain.get fault state.domain id)) }
    | _ => state
  | .sync record artifact faults =>
    { state with domain := (state.domain.applyRemoteExtension blake3 faults record artifact).1 }
  | .delete id fault =>
    match fault with
    | some _ => state
    | none =>
      { state with
        domain := { state.domain with records := state.domain.records.erase id }
        registered := state.registered.filter fun done => done.record.id ≠ id }

/-- Every success took effect over a smaller version or none, and no version was registered twice. -/
structure StrictlyIncreasing (state : Registrations) : Prop where
  smaller : ∀ done ∈ state.registered, ∀ stored, done.replaced = some stored →
    stored.version < done.record.version
  distinct : state.registered.Pairwise fun done earlier =>
    done.record.id = earlier.record.id → done.record.version ≠ earlier.record.version

/-- The store holds an equal version that loses the tie against the record. -/
def LosesTie (domain : ExtensionDomain) (record : ExtensionRecord) : Prop :=
  ∃ stored, domain.records.get? record.id = some stored ∧ stored.scope = .clusterShared ∧
    stored.version = record.version ∧
    (stored.updatedAtMs < record.updatedAtMs ∨
      stored.updatedAtMs = record.updatedAtMs ∧ stored.contentHash < record.contentHash)

/-- A call whose accesses all succeed does not apply its record over an equal version. -/
def Unraced (state : Registrations) : RegistrationStep → Prop
  | .apply call faults => ∀ record artifact, state.calls[call]? = some (.applying record artifact) →
      faults.get = none → Unbroken faults state.domain record → ¬ LosesTie state.domain record
  | _ => True

end Registrations

end Register

section Proofs

variable {Semver Json : Type} {parsers : ManifestParsers Semver Json} {blake3 : Bytes → Hash}
  {localNodeId : String}

/-- What the checks leave to the apply. -/
structure Prepared (blake3 : Bytes → Hash) (record : ExtensionRecord) (artifact : Bytes) : Prop where
  named : validate record.id = .ok ()
  filled : artifact ≠ []
  hashed : verifyContentHash (hashContent blake3 artifact) record.contentHash = true
  shared : record.scope = .clusterShared

theorem checked_ok {registration : ExtensionRegistration} {now : Int}
    {read : Except ExtensionStorageError (Option ExtensionRecord)} {record : ExtensionRecord}
    (passed : registration.checked parsers blake3 localNodeId now read = .ok record) :
    registration.artifact ≠ [] ∧ validate registration.id = .ok () ∧
      ∃ engine existing, read = .ok existing ∧
        record = registration.record blake3 localNodeId engine now existing ∧
        ∀ stored, existing = some stored → stored.version < registration.version := by
  unfold ExtensionRegistration.checked at passed
  obtain ⟨_, named, passed⟩ := bind_ok.mp passed
  obtain ⟨engine, -, passed⟩ := bind_ok.mp passed
  obtain ⟨-, -, passed⟩ := bind_ok.mp passed
  obtain ⟨_, filled, passed⟩ := bind_ok.mp passed
  obtain ⟨existing, found, passed⟩ := bind_ok.mp passed
  refine ⟨ensure_ok.mp filled, mapError_ok.mp named, engine, existing, mapError_ok.mp found, ?_⟩
  cases existing with
  | none => exact ⟨(Except.ok.inj passed).symm, fun _ none => by cases none⟩
  | some stored =>
    obtain ⟨_, increasing, passed⟩ := bind_ok.mp passed
    refine ⟨(Except.ok.inj passed).symm, ?_⟩
    rintro _ ⟨⟩
    exact ensure_ok.mp increasing

theorem prepared_of_checked {registration : ExtensionRegistration} {now : Int}
    {read : Except ExtensionStorageError (Option ExtensionRecord)} {record : ExtensionRecord}
    (passed : registration.checked parsers blake3 localNodeId now read = .ok record) :
    Prepared blake3 record registration.artifact := by
  obtain ⟨filled, named, engine, existing, -, rfl, -⟩ := checked_ok passed
  exact ⟨named, filled, by simp [ExtensionRegistration.record, verifyContentHash], rfl⟩

/-! ### Versions of the store -/

variable {domain : ExtensionDomain} {faults : ContentFaults ExtensionStorageError}
  {record : ExtensionRecord} {artifact : Bytes}

/-- A record that wins over another version wins over a smaller one. -/
theorem version_of_wins {stored : ExtensionRecord} (wins : shouldApplyVersioned (some stored) record = true) :
    stored.version ≤ record.version := by
  obtain ⟨-, -, later⟩ := shouldApplyVersioned_some.mp wins
  rcases stamp_lt.mp later with smaller | ⟨same, -⟩
  · exact UInt64.le_of_lt smaller
  · exact UInt64.le_of_eq same

/-- No apply takes the version of an id back. -/
theorem version_of_apply {id : String} {stored : ExtensionRecord}
    (held : domain.records.get? id = some stored) :
    ∃ next, (domain.applyRemoteExtension blake3 faults record artifact).1.records.get? id = some next ∧
      stored.version ≤ next.version := by
  by_cases applied : (domain.applyRemoteExtension blake3 faults record artifact).2 = .ok true
  · obtain ⟨taken, inserted⟩ := records_of_applied applied
    unfold ExtensionDomain.applyRemoteExtension
    rw [inserted, KeyedMap.get?_insert]
    split
    · rename_i own
      refine ⟨record, rfl, version_of_wins ?_⟩
      rw [← held, ← own]
      exact taken.wins
    · exact ⟨stored, held, UInt64.le_refl _⟩
  · refine ⟨stored, ?_, UInt64.le_refl _⟩
    rw [← held]
    exact congrArg (KeyedMap.get? · id) (records_of_failed applied)

/-- Without a tie the record replaces a smaller version. -/
theorem replaces_smaller (taken : Taken blake3 faults domain record artifact)
    (noTie : ¬ Registrations.LosesTie domain record) {stored : ExtensionRecord}
    (held : domain.records.get? record.id = some stored) : stored.version < record.version := by
  have wins := taken.wins
  rw [held] at wins
  obtain ⟨-, shared, later⟩ := shouldApplyVersioned_some.mp wins
  rcases stamp_lt.mp later with smaller | ⟨same, tie⟩
  · exact smaller
  · exact absurd ⟨stored, held, shared, same, tie⟩ noTie

/-- A prepared record that meets a tie is taken. -/
theorem taken_of_tie (prepared : Prepared blake3 record artifact) (read : faults.get = none)
    (tie : Registrations.LosesTie domain record) : Taken blake3 faults domain record artifact := by
  obtain ⟨stored, held, shared, same, later⟩ := tie
  refine ⟨prepared.filled, prepared.hashed, read, ?_⟩
  rw [held]
  exact shouldApplyVersioned_some.mpr ⟨prepared.shared, shared, stamp_lt.mpr (.inr ⟨same, later⟩)⟩

/-! ### The invariant -/

namespace Registrations

variable {state : Registrations} {call : Nat}

/-- Registered versions are no greater than the stored ones, and every call that has not applied yet is
prepared. -/
structure Ordered (blake3 : Bytes → Hash) (state : Registrations) : Prop extends StrictlyIncreasing state where
  covered : ∀ done ∈ state.registered, ∃ stored,
    state.domain.records.get? done.record.id = some stored ∧ done.record.version ≤ stored.version
  prepared : ∀ record artifact, .applying record artifact ∈ state.calls → Prepared blake3 record artifact

theorem applied_success {result : Except ExtensionStorageError Bool} :
    RegisterCall.applied record result = .answered (.ok record.contentHash) ↔ result = .ok true := by
  rcases result with error | _ | _ <;> simp [RegisterCall.applied]

variable (blake3 faults record artifact state call) in
theorem applyCall_registered :
    (state.applyCall blake3 call faults record artifact).registered =
      if (state.domain.applyRemoteExtension blake3 faults record artifact).2 = .ok true then
        ⟨record, state.domain.records.get? record.id⟩ :: state.registered
      else state.registered := by
  simp only [applyCall, applied_success]

theorem Ordered.covered_apply (ordered : Ordered blake3 state) :
    ∀ done ∈ state.registered, ∃ stored,
      (state.domain.applyRemoteExtension blake3 faults record artifact).1.records.get? done.record.id =
        some stored ∧ done.record.version ≤ stored.version := by
  intro done member
  obtain ⟨stored, held, covered⟩ := ordered.covered done member
  obtain ⟨next, held', kept⟩ := version_of_apply held
  exact ⟨next, held', UInt64.le_trans covered kept⟩

theorem Ordered.prepared_set (ordered : Ordered blake3 state) {next : RegisterCall}
    (past : ∀ record artifact, next ≠ .applying record artifact) :
    ∀ record artifact, .applying record artifact ∈ state.calls.set call next →
      Prepared blake3 record artifact := by
  intro record artifact member
  rcases List.mem_or_eq_of_mem_set member with before | same
  · exact ordered.prepared record artifact before
  · exact absurd same.symm (past record artifact)

theorem Ordered.applyCall (ordered : Ordered blake3 state)
    (found : state.calls[call]? = some (.applying record artifact))
    (unraced : state.Unraced (.apply call faults)) :
    Ordered blake3 (state.applyCall blake3 call faults record artifact) := by
  have prepared := ordered.prepared record artifact (List.mem_of_getElem? found)
  have calls : ∀ record' artifact',
      .applying record' artifact' ∈ (state.applyCall blake3 call faults record artifact).calls →
        Prepared blake3 record' artifact' := by
    refine ordered.prepared_set fun _ _ => ?_
    unfold RegisterCall.applied
    split <;> simp
  by_cases success : (state.domain.applyRemoteExtension blake3 faults record artifact).2 = .ok true
  · have registered := applyCall_registered blake3 faults record artifact state call
    rw [if_pos success] at registered
    obtain ⟨taken, unbroken⟩ := (applyContent_ok_iff prepared.named).mp success
    have noTie := unraced record artifact found taken.read unbroken
    have inserted := (records_of_applied success).2
    refine ⟨⟨?_, ?_⟩, ?_, calls⟩
    · rw [registered]
      refine List.forall_mem_cons.mpr ⟨?_, ordered.smaller⟩
      intro stored held
      exact replaces_smaller taken noTie held
    · rw [registered]
      refine List.pairwise_cons.mpr ⟨?_, ordered.distinct⟩
      intro earlier member same equal
      obtain ⟨stored, held, covered⟩ := ordered.covered earlier member
      have smaller := replaces_smaller taken noTie (same ▸ held)
      rw [← equal] at covered
      exact UInt64.not_le.mpr smaller covered
    · rw [registered]
      refine List.forall_mem_cons.mpr ⟨⟨record, ?_, UInt64.le_refl _⟩, ordered.covered_apply⟩
      exact (congrArg (KeyedMap.get? · record.id) inserted).trans (KeyedMap.get?_insert_self _ _)
  · have registered := applyCall_registered blake3 faults record artifact state call
    rw [if_neg success] at registered
    exact ⟨⟨registered ▸ ordered.smaller, registered ▸ ordered.distinct⟩,
      registered ▸ ordered.covered_apply, calls⟩

theorem Ordered.step {action : RegistrationStep} (ordered : Ordered blake3 state)
    (unraced : state.Unraced action) : Ordered blake3 (state.step parsers blake3 localNodeId action) := by
  cases action with
  | begin registration now fault =>
    refine ⟨⟨ordered.smaller, ordered.distinct⟩, ordered.covered, ?_⟩
    intro record artifact member
    rcases List.mem_append.mp member with before | new
    · exact ordered.prepared record artifact before
    · have begun := List.mem_singleton.mp new
      unfold RegisterCall.begin at begun
      split at begun
      · cases begun
      · rename_i passed
        cases begun
        exact prepared_of_checked passed
  | apply call faults =>
    simp only [Registrations.step]
    split
    · rename_i record artifact found
      exact ordered.applyCall found unraced
    · exact ordered
  | report call fault =>
    simp only [Registrations.step]
    split
    · refine ⟨⟨ordered.smaller, ordered.distinct⟩, ordered.covered, ordered.prepared_set fun _ _ => ?_⟩
      unfold RegisterCall.reported
      split <;> simp
    · exact ordered
  | sync record artifact faults =>
    exact ⟨⟨ordered.smaller, ordered.distinct⟩, ordered.covered_apply, ordered.prepared⟩
  | delete id fault =>
    cases fault with
    | some error => exact ordered
    | none =>
      refine ⟨⟨?_, ordered.distinct.filter _⟩, ?_, ordered.prepared⟩
      · exact fun done member => ordered.smaller done (List.mem_of_mem_filter member)
      · intro done member
        obtain ⟨before, other⟩ := List.mem_filter.mp member
        obtain ⟨stored, held, covered⟩ := ordered.covered done before
        refine ⟨stored, ?_, covered⟩
        have other' : id ≠ done.record.id := fun same => by simp [same] at other
        simp only [Registrations.step, KeyedMap.get?_erase, if_neg other', held]

/-- An apply over a tie is answered with success, over an equal version. -/
theorem unraced_of_step {action : RegistrationStep} (ordered : Ordered blake3 state)
    (increasing : (state.step parsers blake3 localNodeId action).StrictlyIncreasing) :
    state.Unraced action := by
  cases action with
  | begin registration now fault => trivial
  | report call fault => trivial
  | sync record artifact faults => trivial
  | delete id fault => trivial
  | apply call faults =>
    intro record artifact found read unbroken tie
    have prepared := ordered.prepared record artifact (List.mem_of_getElem? found)
    have success : (state.domain.applyRemoteExtension blake3 faults record artifact).2 = .ok true :=
      (applyContent_ok_iff prepared.named).mpr ⟨taken_of_tie prepared read tie, unbroken⟩
    have registered := applyCall_registered blake3 faults record artifact state call
    rw [if_pos success] at registered
    have smaller := increasing.smaller ⟨record, state.domain.records.get? record.id⟩
    simp only [Registrations.step, found, registered] at smaller
    obtain ⟨stored, held, -, same, -⟩ := tie
    have less := smaller List.mem_cons_self stored held
    rw [same] at less
    exact absurd less (UInt64.lt_irrefl _)

end Registrations

/-! ### Calls that nothing overlaps -/

section Alone

variable {readFault reportFault : Option ExtensionStorageError} {registration : ExtensionRegistration} {now : Int}

/-- The steps of one call make up the call. -/
theorem steps_alone :
    ∃ registered, [.begin registration now readFault, .apply 0 faults, .report 0 reportFault].foldl
        (Registrations.step parsers blake3 localNodeId) ⟨domain, [], []⟩ =
      let result := register parsers blake3 localNodeId readFault faults reportFault domain registration now
      ⟨result.1, [.answered result.2], registered⟩ := by
  simp only [List.foldl_cons, List.foldl_nil, Registrations.step, List.nil_append, RegisterCall.begin, register]
  cases passed : registration.checked parsers blake3 localNodeId now
      (ExtensionDomain.get readFault domain registration.id) with
  | error error => exact ⟨[], rfl⟩
  | ok record =>
    have id : record.id = registration.id := by
      obtain ⟨-, -, _, _, -, rfl, -⟩ := checked_ok passed
      rfl
    have version : record.version = registration.version := by
      obtain ⟨-, -, _, _, -, rfl, -⟩ := checked_ok passed
      rfl
    simp only [List.getElem?_cons_zero, Registrations.applyCall, List.set_cons_zero]
    cases domain.applyRemoteExtension blake3 faults record registration.artifact with
    | mk next result =>
      cases result with
      | error error => exact ⟨_, rfl⟩
      | ok applied =>
        cases applied with
        | true => exact ⟨_, rfl⟩
        | false =>
          simp only [RegisterCall.applied, RegisterCall.reported, id, version]
          cases ExtensionDomain.get reportFault next registration.id with
          | error error => exact ⟨_, rfl⟩
          | ok stored => exact ⟨_, rfl⟩

end Alone

/-- In a run of register calls, synced applies and deletes the versions strictly increase exactly when no
call applies its record over an equal version that loses the tie. -/
theorem registrations_increase_iff (parsers : ManifestParsers Semver Json) (blake3 : Bytes → Hash)
    (localNodeId : String) (domain : ExtensionDomain) (actions : List RegistrationStep) :
    Throughout (Registrations.step parsers blake3 localNodeId) Registrations.StrictlyIncreasing
        ⟨domain, [], []⟩ actions ↔
      Steps (Registrations.step parsers blake3 localNodeId) Registrations.Unraced
        ⟨domain, [], []⟩ actions := by
  refine throughout_iff_steps (Registrations.Ordered blake3) ⟨⟨?_, .nil⟩, ?_, ?_⟩ ?_ ?_ ?_
  · exact List.forall_mem_nil _
  · exact List.forall_mem_nil _
  · exact fun _ _ => List.not_mem_nil.elim
  · exact fun state action _ ordered unraced => ordered.step unraced
  · exact fun state ordered => ordered.toStrictlyIncreasing
  · exact fun state action _ => Registrations.unraced_of_step

end Proofs

/-! ### Two registrations of one version -/

/-- `semver` on the one text that is met. -/
def sampleParsers : ManifestParsers (Nat × Nat × Nat) Unit where
  semver := fun raw => if raw = "1.0.0" then .ok (1, 0, 0) else .error "unexpected character"
  strings := fun _ => .error "expected value"
  hooks := fun _ => .error "expected value"
  selector := fun _ => .error "expected value"
  value := fun _ => .error "expected value"

def sampleRegistration (artifact : Bytes) : ExtensionRegistration where
  id := "echo"
  name := "echo"
  version := 1
  engine := "lua"
  entry := ""
  artifact := artifact
  manifest := (∅ : StringMap).insert "semver" "1.0.0"
  labels := ∅

/-- Both calls check their version before either applies. -/
def sampleOverlap : List RegistrationStep :=
  [.begin (sampleRegistration [97]) 1 none, .begin (sampleRegistration [98]) 2 none,
   .apply 0 .none, .apply 1 .none]

theorem equal_version_registered_twice :
    ¬ Throughout (Registrations.step sampleParsers sampleDigest "node-a") Registrations.StrictlyIncreasing
      ⟨⟨.empty, ∅⟩, [], []⟩ sampleOverlap := by
  intro increasing
  have distinct : ((sampleOverlap.foldl (Registrations.step sampleParsers sampleDigest "node-a")
      ⟨⟨.empty, ∅⟩, [], []⟩).registered.map fun done => (done.record.id, done.record.version)).Pairwise
        fun done earlier => done.1 = earlier.1 → done.2 ≠ earlier.2 :=
    List.pairwise_map.mpr increasing.last.distinct
  exact absurd distinct (by decide)

end Lycoris.Daemon
