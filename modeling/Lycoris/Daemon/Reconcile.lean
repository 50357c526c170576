import Lycoris.Daemon.FullSync
import Lycoris.Daemon.Registration
import Lycoris.Daemon.Resources
import Lycoris.Daemon.Views
import Lycoris.Lib.Json
import Lycoris.Lib.Runs

/-!
The passes of the extension manager (`ExtensionManager::reconcile` and `load` in
`daemon/src/extension/mod.rs`) over the extension store, the labels of the node and its membership. A pass
takes an instance for current when it has the version of the stored record, so a record of the same version
and other content is not loaded.
-/

namespace Lycoris.Daemon
open Lib Cluster Stores

/-! ### Loading -/

structure ExtensionPackage (Semver : Type) where
  id : String
  name : String
  version : UInt64
  engine : EngineKind
  entry : String
  manifest : ExtensionManifest Semver
  artifact : Bytes
  contentHash : String

/-- `ExtensionManagerError`, as a load can return it. -/
inductive LoadError where
  | manifest (error : ManifestError)
  | storage (error : ExtensionStorageError)
  | missingArtifact (id : String)
  | invalidPayload (message : String)
  | contentHashMismatch (expected actual : String)
  | engine (message : String)

section Manager

variable {Semver : Type} (parsers : ManifestParsers Semver Json) (blake3 : Bytes → Hash)
  (semverText : Semver → String) (overrides : String → Option StringMap)

/-- A guest with what it was loaded from. An engine loads a verified artifact only. -/
structure ExtensionInstance (Semver : Type) where
  package : ExtensionPackage Semver
  settings : Json
  verified : hashContent blake3 package.artifact = package.contentHash

structure LoadedExtension (Semver : Type) (semverText : Semver → String) where
  version : UInt64
  semver : String
  guest : ExtensionInstance blake3 Semver
  announced : semver = semverText guest.package.manifest.semver

/-- What fails during one pass: the reads by what they return, an engine by its report on the package of an
id once the artifact is verified. -/
structure PassFaults where
  list : Option ExtensionStorageError
  labels : Option StorageError
  blob : String → Option ExtensionStorageError
  engine : String → Option String

def PassFaults.none : PassFaults := ⟨.none, .none, fun _ => .none, fun _ => .none⟩

/-- The manifest settings overlaid by the local table of the extension. -/
def mergeSettings (manifestSettings : String) (table : Option StringMap) : Except LoadError Json := do
  let parsed ← (parsers.value manifestSettings).mapError fun err =>
    .invalidPayload ("manifest settings are not valid JSON: " ++ err)
  match table with
  | none => return parsed
  | some table =>
    let base : Std.ExtTreeMap String Json := match parsed with
      | .object fields => fields.foldl (fun map field => map.insert field.1 field.2) ∅
      | _ => ∅
    return .object (table.toList.foldl (fun map entry => map.insert entry.1 (.string entry.2)) base).toList

def engineLoad (fault : Option String) (package : ExtensionPackage Semver) (settings : Json) :
    Except LoadError (ExtensionInstance blake3 Semver) :=
  if verified : hashContent blake3 package.artifact = package.contentHash then
    match fault with
    | some message => .error (.engine message)
    | none => .ok { package := package, settings := settings, verified := verified }
  else .error (.contentHashMismatch package.contentHash (hashContent blake3 package.artifact))

def readArtifact (faults : PassFaults) (domain : ExtensionDomain) (id : String) :
    Except ExtensionStorageError (Option Bytes) :=
  match faults.blob id with
  | some error => .error error
  | none => ResourceMapper.readBlob domain.files id

/-- The entry point of a record; an empty one rides the record as it is. -/
def effectiveEntry (record : ExtensionRecord) : String :=
  if record.entry.isEmpty then defaultEntry else record.entry

def load (faults : PassFaults) (domain : ExtensionDomain) (record : ExtensionRecord)
    (manifest : ExtensionManifest Semver) :
    Except LoadError (LoadedExtension blake3 Semver semverText) := do
  let engine ← (EngineKind.fromStr record.engine).mapError .manifest
  let stored ← (readArtifact faults domain record.id).mapError .storage
  let artifact ← okOr stored (.missingArtifact record.id)
  let settings ← mergeSettings parsers manifest.settings (overrides record.id)
  let package : ExtensionPackage Semver := {
    id := record.id
    name := record.name
    version := record.version
    engine := engine
    entry := effectiveEntry record
    manifest := manifest
    artifact := artifact
    contentHash := record.contentHash }
  let guest ← engineLoad blake3 (faults.engine record.id) package settings
  return {
    version := record.version
    semver := semverText guest.package.manifest.semver
    guest := guest
    announced := rfl }

/-! ### Passes -/

abbrev Instances (Semver : Type) (semverText : Semver → String) :=
  Std.ExtTreeMap String (LoadedExtension blake3 Semver semverText) compare

/-- A record is due for a load when nothing of its version runs under its id. -/
def upToDate (running : Option (LoadedExtension blake3 Semver semverText)) (record : ExtensionRecord) :
    Bool :=
  running.any fun loaded => loaded.version = record.version

def reconcileRecord (faults : PassFaults) (domain : ExtensionDomain) (labels : StringMap)
    (instances : Instances blake3 Semver semverText) (record : ExtensionRecord) :
    Instances blake3 Semver semverText :=
  match ExtensionManifest.fromMap parsers record.manifest with
  | .error _ => instances
  | .ok manifest =>
    if !matchesSelector labels manifest.selector then instances.erase record.id
    else if upToDate blake3 semverText instances[record.id]? record then instances
    else
      match load parsers blake3 semverText overrides faults domain record manifest with
      | .ok loaded => instances.insert record.id loaded
      -- A previous instance keeps serving.
      | .error _ => instances

/-- The running set announced as annotations. -/
def capabilities (instances : Instances blake3 Semver semverText) : StringMap :=
  .ofList (instances.toList.map fun entry => (extensionAnnotationPrefix ++ entry.1, entry.2.semver)) compare

/-- The instances a pass leaves. -/
def reconciled (faults : PassFaults) (domain : ExtensionDomain) (labels : StringMap)
    (instances : Instances blake3 Semver semverText) : Instances blake3 Semver semverText :=
  (domain.records.vals.foldl
      (reconcileRecord parsers blake3 semverText overrides faults domain labels) instances).filter
    fun id _ => domain.records.vals.any fun record => record.id = id

/-- The node a manager runs on, by what its passes read and write. -/
structure Manager (Semver : Type) (semverText : Semver → String) where
  store : Registrations
  labels : StringMap
  instances : Instances blake3 Semver semverText
  service : MembershipService

inductive ManagerStep where
  /-- A step of a registration, an apply of the sync or a delete. -/
  | store (change : RegistrationStep)
  | relabel (labels : StringMap)
  | membership (env : Circumstances) (call : ServiceCall)
  | reconcile (faults : PassFaults) (env : Circumstances)

namespace Manager

def reconcile (manager : Manager blake3 Semver semverText) (faults : PassFaults) (env : Circumstances) :
    Manager blake3 Semver semverText :=
  match faults.list, faults.labels with
  | some _, _ => manager
  | none, some _ => manager
  | none, none =>
    let instances := reconciled parsers blake3 semverText overrides faults manager.store.domain
      manager.labels manager.instances
    { manager with
      instances := instances
      service := (manager.service.updateLocalAnnotations (capabilities blake3 semverText instances) env).1 }

def step (localNodeId : String) (manager : Manager blake3 Semver semverText) :
    ManagerStep → Manager blake3 Semver semverText
  | .store change => { manager with store := manager.store.step parsers blake3 localNodeId change }
  | .relabel labels => { manager with labels := labels }
  | .membership env call => { manager with service := manager.service.step blake3 env call }
  | .reconcile faults env => manager.reconcile parsers blake3 semverText overrides faults env

end Manager

/-! ### The desired set -/

/-- The package is the one of the record, its artifact by the hash. -/
structure LoadedFrom (package : ExtensionPackage Semver) (record : ExtensionRecord) : Prop where
  artifact : hashContent blake3 package.artifact = record.contentHash
  engine : EngineKind.fromStr record.engine = .ok package.engine
  entry : package.entry = effectiveEntry record
  manifest : ExtensionManifest.fromMap parsers record.manifest = .ok package.manifest

/-- A record with this manifest is to run on a node with these labels. -/
structure Desired (labels : StringMap) (record : ExtensionRecord) (manifest : ExtensionManifest Semver) :
    Prop where
  parsed : ExtensionManifest.fromMap parsers record.manifest = .ok manifest
  selected : matchesSelector labels manifest.selector = true

namespace Manager

/-- The running set is the desired one, loaded from the stored records, and so it is announced. -/
structure Reached (manager : Manager blake3 Semver semverText) : Prop where
  running : ∀ id, (∃ loaded, manager.instances[id]? = some loaded) ↔
    ∃ record manifest, manager.store.domain.records.get? id = some record ∧
      Desired parsers manager.labels record manifest
  loaded : ∀ id loaded record, manager.instances[id]? = some loaded →
    manager.store.domain.records.get? id = some record →
    LoadedFrom parsers blake3 loaded.guest.package record
  announced : ∃ own, manager.service.swim.membership.get manager.service.localNodeId = some own ∧
    ∀ id value, own.annotations[extensionAnnotationPrefix ++ id]? = some value ↔
      ∃ record manifest, manager.store.domain.records.get? id = some record ∧
        Desired parsers manager.labels record manifest ∧ value = semverText manifest.semver

/-- The reads, the parses, the loads that are due and the announcement of a pass all succeed. -/
structure Succeeds (manager : Manager blake3 Semver semverText) (faults : PassFaults) : Prop where
  listed : faults.list = none
  labelled : faults.labels = none
  parsed : ∀ record ∈ manager.store.domain.records, ∃ manifest : ExtensionManifest Semver,
    ExtensionManifest.fromMap parsers record.manifest = .ok manifest
  loads : ∀ record ∈ manager.store.domain.records, ∀ manifest,
    Desired parsers manager.labels record manifest →
    upToDate blake3 semverText manager.instances[record.id]? record = false →
    ∃ loaded, load parsers blake3 semverText overrides faults manager.store.domain record manifest
      = .ok loaded
  written : ∀ own, manager.service.swim.membership.get manager.service.localNodeId = some own →
    own.heartbeat.toNat < 2 ^ 64 - 1

/-- No store change leaves a record that has the version of the instance running under its id and is not the
one it was loaded from. -/
def KeepsVersions (localNodeId : String) (manager : Manager blake3 Semver semverText) : ManagerStep → Prop
  | .store change => ∀ id loaded record, manager.instances[id]? = some loaded →
      (manager.store.step parsers blake3 localNodeId change).domain.records.get? id = some record →
      manager.store.domain.records.get? id ≠ some record → loaded.version = record.version →
      LoadedFrom parsers blake3 loaded.guest.package record
  | _ => True

/-- A pass that succeeds reaches the desired set. -/
def Reaches (localNodeId : String) (manager : Manager blake3 Semver semverText) : ManagerStep → Prop
  | .reconcile faults env => manager.Succeeds parsers blake3 semverText overrides faults →
      (manager.step parsers blake3 semverText overrides localNodeId (.reconcile faults env)).Reached
        parsers blake3 semverText
  | _ => True

/-- What every step keeps: an instance of the stored version was loaded from the stored record. -/
structure Current (manager : Manager blake3 Semver semverText) : Prop where
  versions : ∀ id loaded record, manager.instances[id]? = some loaded →
    manager.store.domain.records.get? id = some record → loaded.version = record.version →
    LoadedFrom parsers blake3 loaded.guest.package record
  owns : manager.service.OwnsItself

end Manager

end Manager

section Proofs

variable {Semver : Type} {parsers : ManifestParsers Semver Json} {blake3 : Bytes → Hash}
  {semverText : Semver → String} {overrides : String → Option StringMap}

/-! ### One record -/

/-- A load gives an instance of the version of the record, from what the record says. -/
theorem load_ok {faults : PassFaults} {domain : ExtensionDomain} {record : ExtensionRecord}
    {manifest : ExtensionManifest Semver} {loaded : LoadedExtension blake3 Semver semverText}
    (parsed : ExtensionManifest.fromMap parsers record.manifest = .ok manifest)
    (success : load parsers blake3 semverText overrides faults domain record manifest = .ok loaded) :
    loaded.version = record.version ∧ LoadedFrom parsers blake3 loaded.guest.package record := by
  unfold load at success
  obtain ⟨engine, known, success⟩ := bind_ok.mp success
  obtain ⟨stored, _, success⟩ := bind_ok.mp success
  obtain ⟨artifact, _, success⟩ := bind_ok.mp success
  obtain ⟨settings, _, success⟩ := bind_ok.mp success
  obtain ⟨guest, instantiated, success⟩ := bind_ok.mp success
  cases success
  unfold engineLoad at instantiated
  split_ifs at instantiated with verified
  split at instantiated
  · cases instantiated
  · cases instantiated
    exact ⟨rfl, verified, mapError_ok.mp known, rfl, parsed⟩

/-- What a pass makes of the slot of a record. -/
def settled (parsers : ManifestParsers Semver Json) (overrides : String → Option StringMap)
    (faults : PassFaults) (domain : ExtensionDomain) (labels : StringMap)
    (running : Option (LoadedExtension blake3 Semver semverText)) (record : ExtensionRecord) :
    Option (LoadedExtension blake3 Semver semverText) :=
  match ExtensionManifest.fromMap parsers record.manifest with
  | .error _ => running
  | .ok manifest =>
    if !matchesSelector labels manifest.selector then none
    else if upToDate blake3 semverText running record then running
    else
      match load parsers blake3 semverText overrides faults domain record manifest with
      | .ok loaded => some loaded
      | .error _ => running

section Slots

variable {faults : PassFaults} {domain : ExtensionDomain} {labels : StringMap}

theorem getElem?_reconcileRecord (instances : Instances blake3 Semver semverText) (record : ExtensionRecord)
    (id : String) :
    (reconcileRecord parsers blake3 semverText overrides faults domain labels instances record)[id]? =
      if record.id = id then settled parsers overrides faults domain labels instances[id]? record
      else instances[id]? := by
  unfold reconcileRecord settled
  by_cases own : record.id = id
  · subst own
    rw [if_pos rfl]
    split
    · rfl
    · split_ifs
      · exact Std.ExtTreeMap.getElem?_erase_self
      · rfl
      · split
        · exact Std.ExtTreeMap.getElem?_insert_self
        · rfl
  · have other : compare record.id id ≠ .eq := fun same => own (Std.LawfulEqCmp.eq_of_compare same)
    rw [if_neg own]
    split
    · rfl
    · split_ifs
      · rw [Std.ExtTreeMap.getElem?_erase, if_neg other]
      · rfl
      · split
        · rw [Std.ExtTreeMap.getElem?_insert, if_neg other]
        · rfl

theorem getElem?_foldl_other {records : List ExtensionRecord} {id : String}
    (other : ∀ record ∈ records, record.id ≠ id) (instances : Instances blake3 Semver semverText) :
    (records.foldl (reconcileRecord parsers blake3 semverText overrides faults domain labels)
      instances)[id]? = instances[id]? := by
  induction records generalizing instances with
  | nil => rfl
  | cons record rest ih =>
    rw [List.foldl_cons, ih fun later member => other later (List.mem_cons_of_mem _ member),
      getElem?_reconcileRecord, if_neg (other record List.mem_cons_self)]

/-- Each record settles its own slot, once. -/
theorem getElem?_foldl_own {records : List ExtensionRecord} (distinct : (records.map (·.id)).Nodup)
    {record : ExtensionRecord} (member : record ∈ records)
    (instances : Instances blake3 Semver semverText) :
    (records.foldl (reconcileRecord parsers blake3 semverText overrides faults domain labels)
        instances)[record.id]? =
      settled parsers overrides faults domain labels instances[record.id]? record := by
  induction records generalizing instances with
  | nil => exact absurd member List.not_mem_nil
  | cons first rest ih =>
    obtain ⟨fresh, distinct⟩ := List.nodup_cons.mp distinct
    rw [List.foldl_cons]
    rcases List.mem_cons.mp member with rfl | later
    · rw [getElem?_foldl_other, getElem?_reconcileRecord, if_pos rfl]
      intro other member same
      exact fresh (List.mem_map.mpr ⟨other, member, same⟩)
    · have different : first.id ≠ record.id := by
        intro same
        exact fresh (List.mem_map.mpr ⟨record, later, same.symm⟩)
      rw [ih distinct later, getElem?_reconcileRecord, if_neg different]

/-- After a pass each id runs what its stored record settles to, and nothing without a record. -/
theorem getElem?_reconciled (instances : Instances blake3 Semver semverText) (id : String) :
    (reconciled parsers blake3 semverText overrides faults domain labels instances)[id]? =
      (domain.records.get? id).bind fun record =>
        settled parsers overrides faults domain labels instances[id]? record := by
  rw [reconciled, Std.ExtTreeMap.getElem?_filter']
  cases found : domain.records.get? id with
  | none =>
    have absent : (domain.records.vals.any fun record => decide (record.id = id)) = false := by
      rw [List.any_eq_false]
      intro record member same
      have stored := KeyedMap.mem_iff.mp (KeyedMap.mem_vals.mp member)
      rw [of_decide_eq_true same, found] at stored
      cases stored
    simp [absent]
  | some record =>
    obtain rfl := KeyedMap.key_of_get? found
    have member := KeyedMap.mem_vals.mpr (KeyedMap.mem_of_get? found)
    have present : (domain.records.vals.any fun other => decide (other.id = record.id)) = true :=
      List.any_eq_true.mpr ⟨record, member, decide_eq_true rfl⟩
    rw [getElem?_foldl_own (KeyedMap.nodup_keys _) member, Option.bind_some]
    cases settled parsers overrides faults domain labels instances[record.id]? record with
    | none => rfl
    | some loaded => exact Option.filter_some_pos present

section Record

variable {running : Option (LoadedExtension blake3 Semver semverText)} {record : ExtensionRecord}
  {manifest : ExtensionManifest Semver}

theorem settled_unselected (parsed : ExtensionManifest.fromMap parsers record.manifest = .ok manifest)
    (unselected : matchesSelector labels manifest.selector = false) :
    settled parsers overrides faults domain labels running record = none := by
  simp [settled, parsed, unselected]

/-- A slot keeps what runs in it or holds a load of the record. -/
theorem settled_some {loaded : LoadedExtension blake3 Semver semverText}
    (found : settled parsers overrides faults domain labels running record = some loaded) :
    running = some loaded ∨ ∃ manifest, ExtensionManifest.fromMap parsers record.manifest = .ok manifest ∧
      load parsers blake3 semverText overrides faults domain record manifest = .ok loaded := by
  unfold settled at found
  split at found
  · exact .inl found
  · rename_i manifest parsed
    split_ifs at found
    · exact .inl found
    · split at found
      · rename_i success
        cases found
        exact .inr ⟨manifest, parsed, success⟩
      · exact .inl found

/-- A selected record whose load succeeds when it is due has an instance of its version. -/
theorem settled_selected (desired : Desired parsers labels record manifest)
    (loads : upToDate blake3 semverText running record = false →
      ∃ loaded, load parsers blake3 semverText overrides faults domain record manifest = .ok loaded) :
    ∃ loaded, settled parsers overrides faults domain labels running record = some loaded ∧
      loaded.version = record.version := by
  cases due : upToDate blake3 semverText running record with
  | true =>
    obtain ⟨loaded, rfl, same⟩ := (Option.any_eq_true _ _).mp due
    refine ⟨loaded, ?_, of_decide_eq_true same⟩
    simp [settled, desired.parsed, desired.selected, due]
  | false =>
    obtain ⟨loaded, success⟩ := loads due
    refine ⟨loaded, ?_, (load_ok desired.parsed success).1⟩
    simp [settled, desired.parsed, desired.selected, due, success]

end Record

end Slots

/-! ### The announcement -/

theorem getElem?_capabilities (instances : Instances blake3 Semver semverText) (id : String) :
    (capabilities blake3 semverText instances)[extensionAnnotationPrefix ++ id]? =
      instances[id]?.map (·.semver) := by
  rw [capabilities]
  cases found : instances[id]? with
  | none =>
    apply Std.ExtTreeMap.getElem?_ofList_of_contains_eq_false
    rw [← Bool.not_eq_true, List.contains_iff_mem, List.map_map, List.mem_map]
    rintro ⟨entry, member, same⟩
    have key : entry.1 = id := (String.append_right_inj _).mp same
    have held := Std.ExtTreeMap.mem_toList_iff_getElem?_eq_some.mp member
    rw [key, found] at held
    cases held
  | some loaded =>
    apply Std.ExtTreeMap.getElem?_ofList_of_mem Std.ReflCmp.compare_self
    · refine List.Pairwise.map _ ?_ Std.ExtTreeMap.distinct_keys_toList
      intro entry other apart same
      have key : entry.1 = other.1 := (String.append_right_inj _).mp (Std.LawfulEqCmp.eq_of_compare same)
      exact apart (key ▸ Std.ReflCmp.compare_self)
    · have member : (id, loaded) ∈ instances.toList :=
        Std.ExtTreeMap.mem_toList_iff_getElem?_eq_some.mpr found
      exact List.mem_map.mpr ⟨(id, loaded), member, rfl⟩

/-! ### Runs -/

namespace Manager

variable {localNodeId : String} {manager : Manager blake3 Semver semverText} {faults : PassFaults}

theorem Current.step {action : ManagerStep} (current : manager.Current parsers blake3 semverText)
    (keeps : manager.KeepsVersions parsers blake3 semverText localNodeId action) :
    (manager.step parsers blake3 semverText overrides localNodeId action).Current parsers blake3
      semverText := by
  cases action with
  | store change =>
    refine ⟨?_, current.owns⟩
    intro id loaded record running stored same
    by_cases held : manager.store.domain.records.get? id = some record
    · exact current.versions id loaded record running held same
    · exact keeps id loaded record running stored held same
  | relabel labels => exact ⟨current.versions, current.owns⟩
  | membership env call => exact ⟨current.versions, current.owns.step blake3 env call⟩
  | reconcile faults env =>
    show (manager.reconcile parsers blake3 semverText overrides faults env).Current parsers blake3
      semverText
    unfold reconcile
    split
    · exact current
    · exact current
    · refine ⟨?_, current.owns.step blake3 env (.updateLocalAnnotations _)⟩
      intro id loaded record running stored same
      rw [getElem?_reconciled, stored, Option.bind_some] at running
      rcases settled_some running with kept | ⟨manifest, parsed, success⟩
      · exact current.versions id loaded record kept stored same
      · exact (load_ok parsed success).2

/-- In a pass that succeeds a record is either desired, and an instance of its version is left, or nothing
is left under its id. -/
theorem Succeeds.slot (succeeds : manager.Succeeds parsers blake3 semverText overrides faults)
    {record : ExtensionRecord} (member : record ∈ manager.store.domain.records) :
    (∃ manifest loaded, Desired parsers manager.labels record manifest ∧ loaded.version = record.version ∧
      settled parsers overrides faults manager.store.domain manager.labels manager.instances[record.id]?
        record = some loaded) ∨
    (∀ manifest, ¬ Desired parsers manager.labels record manifest) ∧
      settled parsers overrides faults manager.store.domain manager.labels manager.instances[record.id]?
        record = none := by
  obtain ⟨manifest, parsed⟩ := succeeds.parsed record member
  cases selected : matchesSelector manager.labels manifest.selector with
  | true =>
    have desired : Desired parsers manager.labels record manifest := ⟨parsed, selected⟩
    obtain ⟨loaded, left, same⟩ := settled_selected desired (succeeds.loads record member manifest desired)
    exact .inl ⟨manifest, loaded, desired, same, left⟩
  | false =>
    refine .inr ⟨?_, settled_unselected parsed selected⟩
    intro other desired
    cases parsed.symm.trans desired.parsed
    exact Bool.false_ne_true (selected.symm.trans desired.selected)

theorem Succeeds.reconcile_eq (succeeds : manager.Succeeds parsers blake3 semverText overrides faults)
    (env : Circumstances) :
    manager.reconcile parsers blake3 semverText overrides faults env =
      { manager with
        instances := reconciled parsers blake3 semverText overrides faults manager.store.domain
          manager.labels manager.instances
        service := (manager.service.updateLocalAnnotations (capabilities blake3 semverText
          (reconciled parsers blake3 semverText overrides faults manager.store.domain manager.labels
            manager.instances)) env).1 } := by
  rw [reconcile, succeeds.listed, succeeds.labelled]

/-- What a pass that succeeds announces is what runs after it. -/
theorem Succeeds.announces (owns : manager.service.OwnsItself)
    (succeeds : manager.Succeeds parsers blake3 semverText overrides faults)
    (instances : Instances blake3 Semver semverText) (env : Circumstances) :
    let service := (manager.service.updateLocalAnnotations (capabilities blake3 semverText instances) env).1
    ∃ own, service.swim.membership.get service.localNodeId = some own ∧
      ∀ id, own.annotations[extensionAnnotationPrefix ++ id]? = instances[id]?.map (·.semver) := by
  intro service
  obtain ⟨own, held, _⟩ := owns.owned
  rw [owns.named] at held
  obtain ⟨next, found, _, _, _, _, room⟩ :=
    MembershipService.get_updateLocalAnnotations owns held (capabilities blake3 semverText instances) env
  have named : service.localNodeId = manager.service.localNodeId :=
    (owns.advance blake3 env (.updateLocalAnnotations _)).1
  refine ⟨next, named ▸ found, ?_⟩
  intro id
  have inside : (extensionAnnotationPrefix ++ id).startsWith extensionAnnotationPrefix = true := by
    simp [String.startsWith_string_iff]
  rw [room (succeeds.written own held), MembershipService.getElem?_withExtensions, if_pos inside,
    getElem?_capabilities]

/-- After a pass that succeeds the desired records run, and only they, each at its stored version. -/
theorem Succeeds.running (succeeds : manager.Succeeds parsers blake3 semverText overrides faults)
    {id : String} {record : ExtensionRecord} (stored : manager.store.domain.records.get? id = some record) :
    (∃ manifest loaded, Desired parsers manager.labels record manifest ∧ loaded.version = record.version ∧
      (reconciled parsers blake3 semverText overrides faults manager.store.domain manager.labels
        manager.instances)[id]? = some loaded) ∨
    (∀ manifest, ¬ Desired parsers manager.labels record manifest) ∧
      (reconciled parsers blake3 semverText overrides faults manager.store.domain manager.labels
        manager.instances)[id]? = none := by
  obtain rfl := KeyedMap.key_of_get? stored
  rw [getElem?_reconciled, stored, Option.bind_some]
  exact succeeds.slot (KeyedMap.mem_of_get? stored)

/-- A pass that succeeds reaches the desired set exactly when no instance of a desired record's version was
loaded from anything else. -/
theorem Succeeds.reached_iff (owns : manager.service.OwnsItself)
    (succeeds : manager.Succeeds parsers blake3 semverText overrides faults) (env : Circumstances) :
    (manager.reconcile parsers blake3 semverText overrides faults env).Reached parsers blake3 semverText ↔
      ∀ id loaded record manifest, manager.instances[id]? = some loaded →
        manager.store.domain.records.get? id = some record →
        Desired parsers manager.labels record manifest → loaded.version = record.version →
        LoadedFrom parsers blake3 loaded.guest.package record := by
  rw [succeeds.reconcile_eq env]
  constructor
  · intro reached id loaded record manifest running stored desired same
    refine reached.loaded id loaded record ?_ stored
    have current : upToDate blake3 semverText (some loaded) record = true := decide_eq_true same
    rw [getElem?_reconciled, stored, Option.bind_some, running]
    simp [settled, desired.parsed, desired.selected, current]
  · intro unmistaken
    have running : ∀ id, (∃ loaded, (reconciled parsers blake3 semverText overrides faults
          manager.store.domain manager.labels manager.instances)[id]? = some loaded) ↔
        ∃ record manifest, manager.store.domain.records.get? id = some record ∧
          Desired parsers manager.labels record manifest := by
      intro id
      cases stored : manager.store.domain.records.get? id with
      | none => simp [getElem?_reconciled, stored]
      | some record =>
        rcases succeeds.running stored with ⟨manifest, loaded, desired, _, left⟩ | ⟨undesired, left⟩
        · exact iff_of_true ⟨loaded, left⟩ ⟨record, manifest, rfl, desired⟩
        · simp [left, undesired]
    have loaded : ∀ id loaded record, (reconciled parsers blake3 semverText overrides faults
          manager.store.domain manager.labels manager.instances)[id]? = some loaded →
        manager.store.domain.records.get? id = some record →
        LoadedFrom parsers blake3 loaded.guest.package record := by
      intro id loaded record found stored
      rcases succeeds.running stored with ⟨manifest, other, desired, same, left⟩ | ⟨_, left⟩
      · cases found.symm.trans left
        rw [getElem?_reconciled, stored, Option.bind_some] at found
        rcases settled_some found with kept | ⟨manifest, parsed, success⟩
        · exact unmistaken id loaded record manifest kept stored desired same
        · exact (load_ok parsed success).2
      · cases found.symm.trans left
    refine ⟨running, loaded, ?_⟩
    obtain ⟨own, found, annotated⟩ := succeeds.announces owns (reconciled parsers blake3 semverText
      overrides faults manager.store.domain manager.labels manager.instances) env
    refine ⟨own, found, ?_⟩
    intro id value
    rw [annotated, Option.map_eq_some_iff]
    constructor
    · rintro ⟨guest, left, rfl⟩
      obtain ⟨record, manifest, stored, desired⟩ := (running id).mp ⟨guest, left⟩
      refine ⟨record, manifest, stored, desired, ?_⟩
      cases desired.parsed.symm.trans (loaded id guest record left stored).manifest
      exact guest.announced
    · rintro ⟨record, manifest, stored, desired, rfl⟩
      obtain ⟨guest, left⟩ := (running id).mpr ⟨record, manifest, stored, desired⟩
      refine ⟨guest, left, ?_⟩
      cases desired.parsed.symm.trans (loaded id guest record left stored).manifest
      exact guest.announced

/-- In every run in which no store change passes other content under the version of a running instance, each
pass that succeeds reaches the desired set. -/
theorem reconcile_reaches (started : manager.service.Started blake3) (idle : manager.instances = ∅)
    {steps : List ManagerStep}
    (keeps : Steps (step parsers blake3 semverText overrides localNodeId)
      (KeepsVersions parsers blake3 semverText localNodeId) manager steps) :
    Steps (step parsers blake3 semverText overrides localNodeId)
      (Reaches parsers blake3 semverText overrides localNodeId) manager steps := by
  have start : manager.Current parsers blake3 semverText := by
    refine ⟨?_, started.ownsItself⟩
    intro id loaded record running
    simp [idle] at running
  refine Steps.mono (Current parsers blake3 semverText) start ?_ ?_ keeps
  · intro state action current allowed
    exact current.step allowed
  · intro state action current _
    cases action with
    | reconcile faults env =>
      intro succeeds
      refine (succeeds.reached_iff current.owns env).mpr ?_
      intro id loaded record _ running stored _ same
      exact current.versions id loaded record running stored same
    | _ => trivial

end Manager

end Proofs

/-! ### An extension that is replaced -/

/-- blake3 on the two artifacts of the sample. -/
def guestDigest (content : Bytes) : Hash :=
  if content = asBytes "function invoke() end" then
    #v[245, 227, 226, 39, 205, 114, 76, 35, 222, 71, 205, 144, 13, 170, 71, 187,
       165, 249, 45, 163, 23, 120, 140, 72, 71, 202, 164, 112, 119, 249, 191, 239]
  else if content = asBytes "function invoke() return 1 end" then
    #v[7, 4, 29, 236, 7, 11, 80, 182, 46, 205, 149, 145, 31, 43, 243, 119,
       82, 36, 159, 208, 23, 209, 212, 95, 129, 83, 166, 196, 19, 35, 215, 94]
  else Vector.replicate 32 0

/-- The parsers on the texts that are met. -/
def guestParsers : ManifestParsers (Nat × Nat × Nat) Json where
  semver := fun raw => if raw = "1.0.0" then .ok (1, 0, 0) else .error "unexpected character"
  strings := fun _ => .error "expected value"
  hooks := fun _ => .error "expected value"
  selector := fun _ => .error "expected value"
  value := fun raw => if raw = "\x7b\x7d" then .ok (.object []) else .error "expected value"

def guestSemver (semver : Nat × Nat × Nat) : String :=
  toString semver.1 ++ "." ++ toString semver.2.1 ++ "." ++ toString semver.2.2

def guestRecord (version : UInt64) (updatedAtMs : Int) (source : String) : ExtensionRecord where
  id := "echo"
  name := "echo"
  version := version
  engine := "lua"
  entry := ""
  contentHash := hashContent guestDigest (asBytes source)
  scope := .clusterShared
  sourceNodeId := some "node-a"
  createdAtMs := 1
  updatedAtMs := updatedAtMs
  manifest := (∅ : StringMap).insert "semver" "1.0.0"
  labels := ∅

/-- A node on which nothing is stored and nothing runs. -/
def idleManager : Manager guestDigest (Nat × Nat × Nat) guestSemver where
  store := ⟨⟨.empty, ∅⟩, [], []⟩
  labels := ∅
  instances := ∅
  service := MembershipService.new guestDigest "node" .default Swim.ownRegister (.sorted _)

/-- A first record and a second one, later by the clock, with a pass after each. -/
def replacement (version : UInt64) : List ManagerStep :=
  [.store (.sync (guestRecord 1 1 "function invoke() end") (asBytes "function invoke() end") .none),
   .reconcile .none MembershipService.quietEnv,
   .store (.sync (guestRecord version 2 "function invoke() return 1 end")
     (asBytes "function invoke() return 1 end") .none),
   .reconcile .none MembershipService.quietEnv]

def guestStep : Manager guestDigest (Nat × Nat × Nat) guestSemver → ManagerStep →
    Manager guestDigest (Nat × Nat × Nat) guestSemver :=
  Manager.step guestParsers guestDigest guestSemver (fun _ => none) "node"

def guestManifest : ExtensionManifest (Nat × Nat × Nat) where
  semver := (1, 0, 0)
  capabilities := []
  provides := []
  hooks := []
  selector := ∅
  settings := "\x7b\x7d"

/-- The last pass of the sample succeeds. -/
theorem replacement_succeeds {version : UInt64}
    (only : (((replacement version).take 3).foldl guestStep idleManager).store.domain.records.vals
      = [guestRecord version 2 "function invoke() return 1 end"])
    (loads : (load guestParsers guestDigest guestSemver (fun _ => none) .none
      (((replacement version).take 3).foldl guestStep idleManager).store.domain
      (guestRecord version 2 "function invoke() return 1 end") guestManifest).toOption.isSome = true)
    (beats : ((((replacement version).take 3).foldl guestStep idleManager).service.swim.membership.get
      (((replacement version).take 3).foldl guestStep idleManager).service.localNodeId).all
        (fun own => own.heartbeat.toNat < 2 ^ 64 - 1) = true) :
    Manager.Succeeds guestParsers guestDigest guestSemver (fun _ => none)
      (((replacement version).take 3).foldl guestStep idleManager) .none := by
  have single : ∀ other ∈ (((replacement version).take 3).foldl guestStep idleManager).store.domain.records,
      other = guestRecord version 2 "function invoke() return 1 end" := by
    intro other member
    rw [← KeyedMap.mem_vals, only] at member
    exact List.mem_singleton.mp member
  have parsed : ExtensionManifest.fromMap guestParsers
      (guestRecord version 2 "function invoke() return 1 end").manifest = .ok guestManifest := rfl
  refine ⟨rfl, rfl, ?_, ?_, ?_⟩
  · intro other member
    rw [single other member]
    exact ⟨guestManifest, parsed⟩
  · intro other member manifest desired _
    obtain rfl := single other member
    cases parsed.symm.trans desired.parsed
    cases outcome : load guestParsers guestDigest guestSemver (fun _ => none) .none
        (((replacement version).take 3).foldl guestStep idleManager).store.domain
        (guestRecord version 2 "function invoke() return 1 end") guestManifest with
    | ok loaded => exact ⟨loaded, rfl⟩
    | error error =>
      rw [outcome] at loads
      cases loads
  · intro own found
    rw [found] at beats
    exact of_decide_eq_true beats

/-- The second record has the next version, so it is told apart from what runs. -/
theorem next_version_keeps :
    Steps guestStep (Manager.KeepsVersions guestParsers guestDigest guestSemver "node") idleManager
      (replacement 2) := by
  refine ⟨?_, trivial, ?_, trivial, trivial⟩
  · intro id loaded record running
    simp [idleManager] at running
  · intro id loaded record running stored _ same
    have first : ((((replacement 2).take 2).foldl guestStep idleManager).instances.toList.all
        fun entry => entry.2.version = 1) = true := by decide +kernel
    have second : ((((replacement 2).take 3).foldl guestStep idleManager).store.domain.records.vals.all
        fun record => record.version = 2) = true := by decide +kernel
    have one := List.all_eq_true.mp first (id, loaded)
      (Std.ExtTreeMap.mem_toList_iff_getElem?_eq_some.mpr running)
    have two := List.all_eq_true.mp second record (KeyedMap.mem_vals.mpr (KeyedMap.mem_of_get? stored))
    rw [of_decide_eq_true one, of_decide_eq_true two] at same
    exact absurd same (by decide)

/-- A record of the next version is loaded in place of the first. -/
theorem next_version_reached :
    ((replacement 2).foldl guestStep idleManager).Reached guestParsers guestDigest guestSemver := by
  have started : idleManager.service.Started guestDigest := .new "node" .default rfl rfl (.sorted _)
  have run := Manager.reconcile_reaches started rfl next_version_keeps
  exact run.2.2.2.1 (replacement_succeeds (by decide +kernel) (by decide +kernel) (by decide +kernel))

/-- An equal version that wins the tie by its clock is stored, and the first artifact goes on running. -/
theorem equal_version_not_reached :
    Manager.Succeeds guestParsers guestDigest guestSemver (fun _ => none)
      (((replacement 1).take 3).foldl guestStep idleManager) .none ∧
    ¬ ((replacement 1).foldl guestStep idleManager).Reached guestParsers guestDigest guestSemver := by
  refine ⟨replacement_succeeds (by decide +kernel) (by decide +kernel) (by decide +kernel), ?_⟩
  intro reached
  have runs : (((replacement 1).foldl guestStep idleManager).instances["echo"]?.map
      (·.guest.package.artifact)) = some (asBytes "function invoke() end") := by decide +kernel
  have stored : ((replacement 1).foldl guestStep idleManager).store.domain.records.get? "echo"
      = some (guestRecord 1 2 "function invoke() return 1 end") := by decide +kernel
  obtain ⟨loaded, running, artifact⟩ := Option.map_eq_some_iff.mp runs
  have hashes := (reached.loaded "echo" loaded _ running stored).artifact
  rw [artifact] at hashes
  exact absurd hashes (by decide +kernel)

end Lycoris.Daemon
