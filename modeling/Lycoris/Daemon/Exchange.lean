import Lycoris.Daemon.Replicas
import Lycoris.Lib.Lists

/-!
The exchange of shared resources between two nodes. A stored record that is well-formed crosses the wire as
it is, up to an empty source id, so the list a node sends is the list of its shared slots, and after an
exchange both sides hold the larger stamp of every slot.
-/

namespace Lycoris.Daemon
open Lib Cluster Stores ResourceMapper ResourceSync

/-! ### Records on the wire -/

/-- The wire form of a record with its content. -/
def wire : Arrival → Resource
  | .memory entry => memoryToResource entry
  | .skill record content => versionedToResource record .skill (some content)
  | .rule record content => versionedToResource record .rule (some content)
  | .workspace record => workspaceToResource record
  | .extension record artifact => extensionToResource record (some artifact)

def sourceOnWire (source : Option String) : Option String := (some (source.getD "")).filter fun id => !id.isEmpty

/-- What is left of a record on the other side: an empty source id is none. -/
def acrossWire : Arrival → Arrival
  | .memory entry => .memory { entry with sourceNodeId := sourceOnWire entry.sourceNodeId }
  | .skill record content => .skill { record with sourceNodeId := sourceOnWire record.sourceNodeId } content
  | .rule record content => .rule { record with sourceNodeId := sourceOnWire record.sourceNodeId } content
  | .workspace record => .workspace { record with sourceNodeId := sourceOnWire record.sourceNodeId }
  | .extension record artifact =>
    .extension { record with sourceNodeId := sourceOnWire record.sourceNodeId } artifact

section Wire

variable {blake3 : Bytes → Hash} {arrival : Arrival}

theorem decodeResource_wire (shared : arrival.row.scope = .clusterShared) :
    decodeResource (wire arrival) = .ok (acrossWire arrival) := by
  cases arrival with
  | memory entry =>
    obtain ⟨id, content, embedding, metadata, scope, sourceNodeId, createdAtMs, updatedAtMs, hash, version⟩ := entry
    cases shared
    rfl
  | skill record content =>
    obtain ⟨id, name, version, hash, scope, sourceNodeId, createdAtMs, updatedAtMs, metadata⟩ := record
    cases shared
    rfl
  | rule record content =>
    obtain ⟨id, name, version, hash, scope, sourceNodeId, createdAtMs, updatedAtMs, metadata⟩ := record
    cases shared
    rfl
  | workspace record =>
    obtain ⟨id, root, sessionIds, metadata, scope, sourceNodeId, version, hash, createdAtMs, updatedAtMs⟩ := record
    cases shared
    rfl
  | extension record artifact =>
    obtain ⟨id, name, version, engine, entry, hash, scope, sourceNodeId, createdAtMs, updatedAtMs, manifest,
      labels⟩ := record
    cases shared
    rfl

theorem acrossWire_key (arrival : Arrival) : (acrossWire arrival).key = arrival.key := by
  cases arrival <;> rfl

theorem acrossWire_scope (arrival : Arrival) : (acrossWire arrival).row.scope = arrival.row.scope := by
  cases arrival <;> rfl

theorem acrossWire_stamp (arrival : Arrival) : stamp (acrossWire arrival).row = stamp arrival.row := by
  cases arrival <;> rfl

theorem sourceOnWire_named {source : Option String} (named : source ≠ some "") :
    sourceOnWire source = source := by
  cases source with
  | none => rfl
  | some id =>
    have filled : id ≠ "" := fun empty => named (congrArg some empty)
    simp [sourceOnWire, filled]

/-- A workspace hashes over its source id, so it has to name one or none. -/
def SourceNamed : Row → Prop
  | .workspace record => record.sourceNodeId ≠ some ""
  | _ => True

theorem acrossWire_wellFormed (formed : arrival.WellFormed blake3) (named : SourceNamed arrival.row) :
    (acrossWire arrival).WellFormed blake3 := by
  cases arrival with
  | memory entry => exact formed
  | skill record content => exact formed
  | rule record content => exact formed
  | workspace record =>
    have same : acrossWire (.workspace record) = .workspace record := by
      rw [acrossWire, sourceOnWire_named named]
    rw [same]
    exact formed
  | extension record artifact => exact formed

theorem acrossWire_named (arrival : Arrival) : SourceNamed (acrossWire arrival).row := by
  cases arrival with
  | workspace record =>
    intro empty
    have source : sourceOnWire record.sourceNodeId = some "" := empty
    rw [sourceOnWire] at source
    obtain ⟨-, filled⟩ := Option.filter_eq_some_iff.mp source
    exact absurd filled (by decide)
  | _ => trivial

theorem wire_storedEntry (entry : MemoryEntry) :
    memoryToResource (AgentDomain.storedEntry entry) = memoryToResource entry := by
  have source : (entry.sourceNodeId.filter fun id => !id.isEmpty).getD "" = entry.sourceNodeId.getD "" := by
    cases entry.sourceNodeId with
    | none => rfl
    | some id =>
      by_cases empty : id = ""
      · rw [empty]
        rfl
      · simp [Option.filter, empty]
  unfold memoryToResource buildMetadata AgentDomain.storedEntry
  dsimp only
  rw [source]

end Wire

/-! ### The shared list of a node -/

/-- The record is stored and shared, with its content. -/
structure Stocked (storage : Storage) (arrival : Arrival) : Prop where
  held : storage.row arrival.key = some arrival.row
  shared : arrival.row.scope = .clusterShared
  content : arrival.body = storage.file arrival.key

/-- Every shared record of the storage is well-formed. -/
def SharedWellFormed (blake3 : Bytes → Hash) (storage : Storage) : Prop :=
  ∀ key row, storage.row key = some row → row.scope = .clusterShared →
    ∃ arrival, arrival.row = row ∧ Stocked storage arrival ∧ arrival.WellFormed blake3

section Listing

variable {blake3 : Bytes → Hash} {storage : Storage}

theorem mem_shared {R : Type} [VersionedRecord R] {id : R → String} {table : KeyedMap id} {record : R} :
    record ∈ table.vals.filter (fun record => VersionedRecord.scope record = .clusterShared) ↔
      table.get? (id record) = some record ∧ VersionedRecord.scope record = .clusterShared := by
  rw [List.mem_filter, KeyedMap.mem_vals, KeyedMap.mem_iff, decide_eq_true_iff]

theorem readContent_ok {files : Files} {id content : String} (named : validate id = .ok ())
    (file : files[id]? = some (asBytes content)) : readContent files id = .ok (some content) := by
  simp only [readContent, named, file, readToString_asBytes]

theorem sharedVersioned_ok (store : Backed VersionedResource.id) (kind : VersionedKind) (context : String)
    (readable : ∀ record, store.records.get? record.id = some record → record.scope = .clusterShared →
      validate record.id = .ok () ∧ ∃ content, store.files[record.id]? = some (asBytes content)) :
    ∃ resources, sharedVersioned store kind context = .ok resources ∧ ∀ resource, resource ∈ resources ↔
      ∃ record content, store.records.get? record.id = some record ∧ record.scope = .clusterShared ∧
        store.files[record.id]? = some (asBytes content) ∧
        resource = versionedToResource record kind (some content) := by
  have each : ∀ record ∈ store.records.vals.filter (fun record => record.scope = .clusterShared),
      (do
        let content ← (readContent store.files record.id).mapError (.workspace context)
        return versionedToResource record kind content : Except MapperError Resource) =
        .ok (versionedToResource record kind (store.files[record.id]?.bind readToString)) := by
    intro record listed
    obtain ⟨held, shared⟩ := mem_shared.mp listed
    obtain ⟨named, content, file⟩ := readable record held shared
    rw [readContent_ok named file, file, Option.bind_some, readToString_asBytes]
    rfl
  refine ⟨_, mapM_ok each, fun resource => ?_⟩
  rw [List.mem_map]
  constructor
  · rintro ⟨record, listed, rfl⟩
    obtain ⟨held, shared⟩ := mem_shared.mp listed
    obtain ⟨named, content, file⟩ := readable record held shared
    refine ⟨record, content, held, shared, file, ?_⟩
    rw [file, Option.bind_some, readToString_asBytes]
  · rintro ⟨record, content, held, shared, file, rfl⟩
    refine ⟨record, mem_shared.mpr ⟨held, shared⟩, ?_⟩
    rw [file, Option.bind_some, readToString_asBytes]

theorem sharedExtensions_ok (domain : ExtensionDomain)
    (readable : ∀ record, domain.records.get? record.id = some record → record.scope = .clusterShared →
      validate record.id = .ok () ∧ ∃ artifact, domain.files[record.id]? = some artifact) :
    ∃ resources, sharedExtensions domain = .ok resources ∧ ∀ resource, resource ∈ resources ↔
      ∃ record artifact, domain.records.get? record.id = some record ∧ record.scope = .clusterShared ∧
        domain.files[record.id]? = some artifact ∧ resource = extensionToResource record (some artifact) := by
  have each : ∀ record ∈ domain.records.vals.filter (fun record => record.scope = .clusterShared),
      (do
        let artifact ←
          (readBlob domain.files record.id).mapError (.extension "failed to read extension artifact")
        return extensionToResource record artifact : Except MapperError Resource) =
        .ok (extensionToResource record domain.files[record.id]?) := by
    intro record listed
    obtain ⟨held, shared⟩ := mem_shared.mp listed
    obtain ⟨named, artifact, file⟩ := readable record held shared
    rw [readBlob, named]
    rfl
  refine ⟨_, mapM_ok each, fun resource => ?_⟩
  rw [List.mem_map]
  constructor
  · rintro ⟨record, listed, rfl⟩
    obtain ⟨held, shared⟩ := mem_shared.mp listed
    obtain ⟨named, artifact, file⟩ := readable record held shared
    exact ⟨record, artifact, held, shared, file, by rw [file]⟩
  · rintro ⟨record, artifact, held, shared, file, rfl⟩
    exact ⟨record, mem_shared.mpr ⟨held, shared⟩, by rw [file]⟩

/-- The row of a slot is the row of its key. -/
theorem key_of_row {key : ResourceKey} {row : Row} (held : storage.row key = some row) : row.key = key := by
  obtain ⟨kind, id⟩ := key
  cases kind <;>
    (obtain ⟨record, found, rfl⟩ := Option.map_eq_some_iff.mp held
     exact congrArg (Prod.mk _) (KeyedMap.key_of_get? found))

section Stock

variable (formed : SharedWellFormed blake3 storage)
include formed

theorem stocked_skill {record : VersionedResource}
    (held : storage.workspace.skills.records.get? record.id = some record)
    (shared : record.scope = .clusterShared) :
    ∃ content, Stocked storage (.skill record content) ∧ (Arrival.skill record content).WellFormed blake3 := by
  obtain ⟨arrival, row, stocked, wellFormed⟩ :=
    formed (.skill, record.id) (.skill record) (by simp [Storage.row, held]) shared
  cases arrival with
  | skill _ content => cases row; exact ⟨content, stocked, wellFormed⟩
  | _ => cases row

theorem stocked_rule {record : VersionedResource}
    (held : storage.workspace.rules.records.get? record.id = some record)
    (shared : record.scope = .clusterShared) :
    ∃ content, Stocked storage (.rule record content) ∧ (Arrival.rule record content).WellFormed blake3 := by
  obtain ⟨arrival, row, stocked, wellFormed⟩ :=
    formed (.rule, record.id) (.rule record) (by simp [Storage.row, held]) shared
  cases arrival with
  | rule _ content => cases row; exact ⟨content, stocked, wellFormed⟩
  | _ => cases row

theorem stocked_extension {record : ExtensionRecord}
    (held : storage.extensions.records.get? record.id = some record)
    (shared : record.scope = .clusterShared) :
    ∃ artifact, Stocked storage (.extension record artifact) ∧
      (Arrival.extension record artifact).WellFormed blake3 := by
  obtain ⟨arrival, row, stocked, wellFormed⟩ :=
    formed (.extension, record.id) (.extension record) (by simp [Storage.row, held]) shared
  cases arrival with
  | extension _ artifact => cases row; exact ⟨artifact, stocked, wellFormed⟩
  | _ => cases row

theorem stocked_workspace {record : WorkspaceRecord}
    (held : storage.workspace.workspaces.get? record.id = some record)
    (shared : record.scope = .clusterShared) :
    Stocked storage (.workspace record) ∧ (Arrival.workspace record).WellFormed blake3 := by
  obtain ⟨arrival, row, stocked, wellFormed⟩ :=
    formed (.workspace, record.id) (.workspace record) (by simp [Storage.row, held]) shared
  cases arrival with
  | workspace _ => cases row; exact ⟨stocked, wellFormed⟩
  | _ => cases row

/-- A memory that is stored reads back as it was written. -/
theorem stocked_memory {entry : MemoryEntry} (held : storage.agent.memory.get? entry.id = some entry)
    (shared : entry.scope = .clusterShared) :
    ∃ written, AgentDomain.storedEntry written = entry ∧ Stocked storage (.memory written) ∧
      (Arrival.memory written).WellFormed blake3 := by
  obtain ⟨arrival, row, stocked, wellFormed⟩ :=
    formed (.memory, entry.id) (.memory entry) (by simp [Storage.row, held]) shared
  cases arrival with
  | memory written => exact ⟨written, Row.memory.inj row, stocked, wellFormed⟩
  | _ => cases row

/-- The list of a node with well-formed records is the wire form of its shared slots. -/
theorem localSharedResources_ok (order : HashOrder MemoryEntry) :
    ∃ resources, localSharedResources storage order = .ok resources ∧ ∀ resource, resource ∈ resources ↔
      ∃ arrival, Stocked storage arrival ∧ arrival.WellFormed blake3 ∧ resource = wire arrival := by
  obtain ⟨skills, skillsRead, inSkills⟩ := sharedVersioned_ok storage.workspace.skills .skill
    "failed to read skill content" fun record held shared => by
      obtain ⟨content, stocked, wellFormed⟩ := stocked_skill formed held shared
      exact ⟨wellFormed.1, content, stocked.content.symm⟩
  obtain ⟨rules, rulesRead, inRules⟩ := sharedVersioned_ok storage.workspace.rules .rule
    "failed to read rule content" fun record held shared => by
      obtain ⟨content, stocked, wellFormed⟩ := stocked_rule formed held shared
      exact ⟨wellFormed.1, content, stocked.content.symm⟩
  obtain ⟨extensions, extensionsRead, inExtensions⟩ := sharedExtensions_ok storage.extensions
    fun record held shared => by
      obtain ⟨artifact, stocked, wellFormed⟩ := stocked_extension formed held shared
      exact ⟨wellFormed.1, artifact, stocked.content.symm⟩
  refine ⟨_, by simp only [localSharedResources, skillsRead, rulesRead, extensionsRead]; rfl, fun resource => ?_⟩
  simp only [List.mem_append, List.mem_map, inSkills, inRules, inExtensions]
  constructor
  · rintro ((((⟨entry, listed, rfl⟩ | ⟨record, listed, rfl⟩) | inSkill) | inRule) | inExtension)
    · obtain ⟨known, shared⟩ := List.mem_filter.mp listed
      obtain ⟨written, stored, stocked, wellFormed⟩ :=
        stocked_memory formed (KeyedMap.mem_iter.mp known) (of_decide_eq_true shared)
      exact ⟨.memory written, stocked, wellFormed, by rw [← stored, wire_storedEntry]; rfl⟩
    · obtain ⟨held, shared⟩ := mem_shared.mp listed
      obtain ⟨stocked, wellFormed⟩ := stocked_workspace formed held shared
      exact ⟨.workspace record, stocked, wellFormed, rfl⟩
    · obtain ⟨record, content, held, shared, file, rfl⟩ := inSkill
      obtain ⟨content', stocked, wellFormed⟩ := stocked_skill formed held shared
      have same : content' = content := asBytes_injective (Option.some.inj (stocked.content.trans file))
      exact ⟨.skill record content', stocked, wellFormed, by rw [same]; rfl⟩
    · obtain ⟨record, content, held, shared, file, rfl⟩ := inRule
      obtain ⟨content', stocked, wellFormed⟩ := stocked_rule formed held shared
      have same : content' = content := asBytes_injective (Option.some.inj (stocked.content.trans file))
      exact ⟨.rule record content', stocked, wellFormed, by rw [same]; rfl⟩
    · obtain ⟨record, artifact, held, shared, file, rfl⟩ := inExtension
      obtain ⟨artifact', stocked, wellFormed⟩ := stocked_extension formed held shared
      have same : artifact' = artifact := Option.some.inj (stocked.content.trans file)
      exact ⟨.extension record artifact', stocked, wellFormed, by rw [same]; rfl⟩
  · rintro ⟨arrival, stocked, wellFormed, rfl⟩
    cases arrival with
    | memory entry =>
      obtain ⟨stored, found, row⟩ := Option.map_eq_some_iff.mp stocked.held
      cases row
      refine .inl (.inl (.inl (.inl ⟨_, ?_, wire_storedEntry entry⟩)))
      exact List.mem_filter.mpr ⟨KeyedMap.mem_iter.mpr found, decide_eq_true stocked.shared⟩
    | workspace record =>
      obtain ⟨stored, found, row⟩ := Option.map_eq_some_iff.mp stocked.held
      cases row
      exact .inl (.inl (.inl (.inr ⟨record, mem_shared.mpr ⟨found, stocked.shared⟩, rfl⟩)))
    | skill record content =>
      obtain ⟨stored, found, row⟩ := Option.map_eq_some_iff.mp stocked.held
      cases row
      exact .inl (.inl (.inr ⟨record, content, found, stocked.shared, stocked.content.symm, rfl⟩))
    | rule record content =>
      obtain ⟨stored, found, row⟩ := Option.map_eq_some_iff.mp stocked.held
      cases row
      exact .inl (.inr ⟨record, content, found, stocked.shared, stocked.content.symm, rfl⟩)
    | extension record artifact =>
      obtain ⟨stored, found, row⟩ := Option.map_eq_some_iff.mp stocked.held
      cases row
      exact .inr ⟨record, artifact, found, stocked.shared, stocked.content.symm, rfl⟩

end Stock

end Listing

/-! ### Storages that can be exchanged -/

/-- Every shared record of the storage is well-formed and names a source or none. -/
structure Exchangeable (blake3 : Bytes → Hash) (storage : Storage) : Prop where
  formed : SharedWellFormed blake3 storage
  named : ∀ key row, storage.row key = some row → row.scope = .clusterShared → SourceNamed row

/-- The record of one arrival over the content of another. -/
def overContent : Arrival → Arrival → Arrival
  | .skill record _, .skill _ content => .skill record content
  | .rule record _, .rule _ content => .rule record content
  | .extension record _, .extension _ artifact => .extension record artifact
  | arrival, _ => arrival

section Received

variable {blake3 : Bytes → Hash} {storage : Storage} {arrival earlier : Arrival}

theorem overContent_row : (overContent arrival earlier).row = arrival.row := by
  cases arrival <;> cases earlier <;> rfl

theorem overContent_body (same : arrival.key = earlier.key) :
    (overContent arrival earlier).body = earlier.body := by
  have kinds : arrival.key.1 = earlier.key.1 := congrArg Prod.fst same
  cases arrival <;> cases earlier <;> first | rfl | cases kinds

theorem overContent_wellFormed (same : arrival.key = earlier.key)
    (hashes : earlier.row.contentHash = arrival.row.contentHash) (formed : arrival.WellFormed blake3)
    (formed' : earlier.WellFormed blake3) : (overContent arrival earlier).WellFormed blake3 := by
  have kinds : arrival.key.1 = earlier.key.1 := congrArg Prod.fst same
  cases arrival with
  | memory entry => cases earlier <;> exact formed
  | skill record content =>
    cases earlier with
    | skill record' content' => exact ⟨formed.1, formed'.2.1, formed'.2.2.trans hashes⟩
    | _ => cases kinds
  | rule record content =>
    cases earlier with
    | rule record' content' => exact ⟨formed.1, formed'.2.1, formed'.2.2.trans hashes⟩
    | _ => cases kinds
  | workspace record => cases earlier <;> exact formed
  | extension record artifact =>
    cases earlier with
    | extension record' artifact' => exact ⟨formed.1, formed'.2.1, formed'.2.2.trans hashes⟩
    | _ => cases kinds

/-- A slot that did not change keeps its stock. -/
theorem Stocked.of_slot {next : Storage} (stocked : Stocked storage arrival)
    (same : next.slot arrival.key = storage.slot arrival.key) : Stocked next arrival where
  held := (congrArg Cell.row same).trans stocked.held
  shared := stocked.shared
  content := stocked.content.trans (congrArg Cell.file same).symm

/-- A well-formed arrival leaves its slot stocked: with itself, or with its record over content of its
hash, or as it was. -/
theorem stocked_received (formed : SharedWellFormed blake3 storage) (wellFormed : arrival.WellFormed blake3)
    {row : Row} (held : (storage.received blake3 arrival).row arrival.key = some row)
    (shared : row.scope = .clusterShared) :
    (row = arrival.row ∨ storage.row arrival.key = some row) ∧
      ∃ stock, stock.row = row ∧ Stocked (storage.received blake3 arrival) stock ∧ stock.WellFormed blake3 := by
  have slot : (storage.received blake3 arrival).slot arrival.key = _ := slot_received_own wellFormed
  by_cases wins : shouldApplyVersioned (storage.row arrival.key) arrival.row = true
  · have taken : (storage.received blake3 arrival).slot arrival.key = ⟨some arrival.row,
        if (storage.row arrival.key).map Row.contentHash = some arrival.row.contentHash
          then storage.file arrival.key else arrival.body⟩ := slot.trans (if_pos wins)
    have nextRow : (storage.received blake3 arrival).row arrival.key = some arrival.row :=
      congrArg Cell.row taken
    have nextFile := congrArg Cell.file taken
    cases held.symm.trans nextRow
    refine ⟨.inl rfl, ?_⟩
    by_cases tagged : (storage.row arrival.key).map Row.contentHash = some arrival.row.contentHash
    · obtain ⟨before, heldBefore, hashes⟩ := Option.map_eq_some_iff.mp tagged
      have sharedBefore : before.scope = .clusterShared := by
        rw [heldBefore] at wins
        exact (shouldApplyVersioned_some.mp wins).2.1
      obtain ⟨earlier, rfl, stocked, formed'⟩ := formed arrival.key before heldBefore sharedBefore
      have key : arrival.key = earlier.key := (key_of_row heldBefore).symm
      have own : (overContent arrival earlier).key = arrival.key := congrArg Row.key overContent_row
      refine ⟨overContent arrival earlier, overContent_row, ⟨?_, ?_, ?_⟩,
        overContent_wellFormed key hashes wellFormed formed'⟩
      · rw [own, overContent_row]
        exact nextRow
      · rw [overContent_row]
        exact shared
      · rw [own, overContent_body key, stocked.content, ← key]
        exact (nextFile.trans (if_pos tagged)).symm
    · exact ⟨arrival, rfl, ⟨nextRow, shared, (nextFile.trans (if_neg tagged)).symm⟩, wellFormed⟩
  · have same : (storage.received blake3 arrival).slot arrival.key = storage.slot arrival.key := by
      rw [slot]
      exact if_neg wins
    have before : storage.row arrival.key = some row := (congrArg Cell.row same).symm.trans held
    obtain ⟨stock, stockRow, stocked, stockFormed⟩ := formed arrival.key row before shared
    refine ⟨.inr before, stock, stockRow, stocked.of_slot ?_, stockFormed⟩
    have key : stock.key = arrival.key := (congrArg Row.key stockRow).trans (key_of_row before)
    rw [key]
    exact same

theorem Exchangeable.received (exchangeable : Exchangeable blake3 storage)
    (wellFormed : arrival.WellFormed blake3) (named : SourceNamed arrival.row) :
    Exchangeable blake3 (storage.received blake3 arrival) := by
  constructor
  · intro key row held shared
    by_cases own : arrival.key = key
    · subst own
      exact (stocked_received exchangeable.formed wellFormed held shared).2
    · have same : (storage.received blake3 arrival).slot key = storage.slot key := slot_received_other own
      have before : storage.row key = some row := (congrArg Cell.row same).symm.trans held
      obtain ⟨stock, stockRow, stocked, stockFormed⟩ := exchangeable.formed key row before shared
      have own' : stock.key = key := (congrArg Row.key stockRow).trans (key_of_row before)
      exact ⟨stock, stockRow, stocked.of_slot (own' ▸ same), stockFormed⟩
  · intro key row held shared
    by_cases own : arrival.key = key
    · subst own
      rcases (stocked_received exchangeable.formed wellFormed held shared).1 with rfl | before
      · exact named
      · exact exchangeable.named _ row before shared
    · have same : (storage.received blake3 arrival).slot key = storage.slot key := slot_received_other own
      exact exchangeable.named key row ((congrArg Cell.row same).symm.trans held) shared

theorem Exchangeable.foldl_received {arrivals : List Arrival} (exchangeable : Exchangeable blake3 storage)
    (each : ∀ arrival ∈ arrivals, arrival.WellFormed blake3 ∧ SourceNamed arrival.row) :
    Exchangeable blake3 (arrivals.foldl (Storage.received blake3) storage) := by
  induction arrivals generalizing storage with
  | nil => exact exchangeable
  | cons arrival rest ih =>
    obtain ⟨first, later⟩ := List.forall_mem_cons.mp each
    exact ih (exchangeable.received first.1 first.2) later

end Received

/-! ### Merging the list of the other side -/

/-- The list is the wire form of the shared slots of the sender. -/
def ListsShared (blake3 : Bytes → Hash) (sender : Storage) (resources : List Resource) : Prop :=
  ∀ resource, resource ∈ resources ↔
    ∃ arrival, Stocked sender arrival ∧ arrival.WellFormed blake3 ∧ resource = wire arrival

section Merge

variable {blake3 : Bytes → Hash} {sender receiver : Storage} {resources : List Resource} {key : ResourceKey}
  (lists : ListsShared blake3 sender resources)
include lists

theorem ListsShared.mem_arrivals {arrival : Arrival} :
    arrival ∈ arrivalsOf resources ↔
      ∃ stock, Stocked sender stock ∧ stock.WellFormed blake3 ∧ arrival = acrossWire stock := by
  rw [mem_arrivalsOf]
  constructor
  · rintro ⟨resource, listed, decoded⟩
    obtain ⟨stock, stocked, formed, rfl⟩ := (lists resource).mp listed
    rw [decodeResource_wire stocked.shared] at decoded
    cases decoded
    exact ⟨stock, stocked, formed, rfl⟩
  · rintro ⟨stock, stocked, formed, rfl⟩
    exact ⟨wire stock, (lists _).mpr ⟨stock, stocked, formed, rfl⟩, decodeResource_wire stocked.shared⟩

theorem ListsShared.wellFormed (sending : Exchangeable blake3 sender) {arrival : Arrival}
    (listed : arrival ∈ arrivalsOf resources) : arrival.WellFormed blake3 ∧ SourceNamed arrival.row := by
  obtain ⟨stock, stocked, formed, rfl⟩ := lists.mem_arrivals.mp listed
  have named := sending.named stock.key stock.row stocked.held stocked.shared
  exact ⟨acrossWire_wellFormed formed named, acrossWire_named stock⟩

theorem ListsShared.exchangeable (sending : Exchangeable blake3 sender)
    (receiving : Exchangeable blake3 receiver) :
    Exchangeable blake3 (resources.foldl (applyLogged blake3) receiver) := by
  rw [foldl_applyLogged]
  exact receiving.foldl_received fun _ listed => lists.wellFormed sending listed

omit lists in
/-- The largest of a rank and of stamps that are all one. -/
theorem foldl_max_const {arrivals : List Arrival} {top : WithBot Stamp}
    (each : ∀ arrival ∈ arrivals, (stamp arrival.row : WithBot Stamp) = top) (filled : arrivals ≠ [])
    (start : WithBot Stamp) :
    arrivals.foldl (fun top arrival => max top (stamp arrival.row : WithBot Stamp)) start = max start top := by
  induction arrivals generalizing start with
  | nil => exact absurd rfl filled
  | cons arrival rest ih =>
    obtain ⟨first, later⟩ := List.forall_mem_cons.mp each
    rw [List.foldl_cons, first]
    by_cases more : rest = []
    · rw [more, List.foldl_nil]
    · rw [ih later more, max_assoc, max_self]

/-- The receiver of a list holds the larger triple of both sides. -/
theorem ListsShared.triple (sending : Exchangeable blake3 sender) (unclaimed : Unclaimed (receiver.slot key))
    (unclaimed' : Unclaimed (sender.slot key)) :
    (resources.foldl (applyLogged blake3) receiver).triple key = max (receiver.triple key) (sender.triple key) := by
  rw [foldl_applyLogged, triple_of_arrivals (fun _ listed => (lists.wellFormed sending listed).1) unclaimed]
  have each : ∀ arrival ∈ sharedAt key (arrivalsOf resources),
      (stamp arrival.row : WithBot Stamp) = sender.triple key := by
    intro arrival listed
    obtain ⟨known, own⟩ := List.mem_filter.mp listed
    obtain ⟨stock, stocked, -, rfl⟩ := lists.mem_arrivals.mp known
    have key' : stock.key = key := (acrossWire_key stock).symm.trans (of_decide_eq_true own).1
    rw [acrossWire_stamp, Storage.triple, Cell.rank, Storage.slot, ← key', stocked.held]
    rfl
  cases held : sender.row key with
  | none =>
    have nothing : sender.triple key = ⊥ := by
      rw [Storage.triple, Cell.rank, Storage.slot, held]
      rfl
    have empty : sharedAt key (arrivalsOf resources) = [] := by
      refine List.eq_nil_iff_forall_not_mem.mpr fun arrival listed => ?_
      have impossible := (each arrival listed).trans nothing
      exact WithBot.coe_ne_bot impossible
    rw [empty, List.foldl_nil, nothing, max_bot_right]
  | some row =>
    have shared : row.scope = .clusterShared := unclaimed' row held
    obtain ⟨stock, rfl, stocked, formed⟩ := sending.formed key row held shared
    refine foldl_max_const each (fun empty => ?_) _
    have listed : acrossWire stock ∈ sharedAt key (arrivalsOf resources) := by
      refine List.mem_filter.mpr ⟨lists.mem_arrivals.mpr ⟨stock, stocked, formed, rfl⟩, decide_eq_true ⟨?_, ?_⟩⟩
      · exact (acrossWire_key stock).trans (key_of_row held)
      · exact (acrossWire_scope stock).trans shared
    rw [empty] at listed
    cases listed

theorem ListsShared.unclaimed (sending : Exchangeable blake3 sender) (free : Unclaimed (receiver.slot key)) :
    Unclaimed ((resources.foldl (applyLogged blake3) receiver).slot key) := by
  rw [foldl_applyLogged, slot_foldl_received fun _ listed => (lists.wellFormed sending listed).1]
  exact (foldl_receive_eq free).2

end Merge

/-! ### One exchange -/

section Exchange

variable {blake3 : Bytes → Hash} {storage peer : Storage} {key : ResourceKey}

theorem syncWithPeer_answered (sending : Exchangeable blake3 storage) (serving : Exchangeable blake3 peer)
    (order peerOrder : HashOrder MemoryEntry) :
    ∃ pushed answered, ListsShared blake3 storage pushed ∧
      ListsShared blake3 (pushed.foldl (applyLogged blake3) peer) answered ∧
      ResourceSync.syncWithPeer blake3 storage peer order peerOrder .answered =
        (answered.foldl (applyLogged blake3) storage, pushed.foldl (applyLogged blake3) peer, true) := by
  obtain ⟨pushed, pushedOk, lists⟩ := localSharedResources_ok sending.formed order
  have merged : Exchangeable blake3 (pushed.foldl (applyLogged blake3) peer) :=
    ListsShared.exchangeable lists sending serving
  obtain ⟨answered, answeredOk, lists'⟩ := localSharedResources_ok merged.formed peerOrder
  refine ⟨pushed, answered, lists, lists', ?_⟩
  simp only [ResourceSync.syncWithPeer, pushedOk, mergeAndListShared, answeredOk]

/-- After an exchange both sides hold the larger triple of every slot that neither has claimed. -/
theorem triples_of_exchange (sending : Exchangeable blake3 storage) (serving : Exchangeable blake3 peer)
    (order peerOrder : HashOrder MemoryEntry) (unclaimed : Unclaimed (storage.slot key))
    (unclaimed' : Unclaimed (peer.slot key)) :
    (ResourceSync.syncWithPeer blake3 storage peer order peerOrder .answered).1.triple key =
        max (storage.triple key) (peer.triple key) ∧
      (ResourceSync.syncWithPeer blake3 storage peer order peerOrder .answered).2.1.triple key =
        max (storage.triple key) (peer.triple key) := by
  obtain ⟨pushed, answered, lists, lists', synced⟩ := syncWithPeer_answered sending serving order peerOrder
  have merged := ListsShared.exchangeable lists sending serving
  have served : (pushed.foldl (applyLogged blake3) peer).triple key =
      max (storage.triple key) (peer.triple key) := by
    rw [lists.triple sending unclaimed' unclaimed, max_comm]
  rw [synced]
  refine ⟨?_, served⟩
  dsimp only
  rw [lists'.triple merged unclaimed (lists.unclaimed sending unclaimed'), served, ← max_assoc, max_self]

end Exchange

/-- The storage shares a record under the key. -/
def Shares (storage : Storage) (key : ResourceKey) : Prop :=
  ∃ row, storage.row key = some row ∧ row.scope = .clusterShared

/-- Applies join the triples of a slot, in any order and any number of times, never touch what a node keeps
for itself, and make both sides of an exchange agree. -/
theorem versioned_apply_joins (blake3 : Bytes → Hash) :
    (∀ (storage : Storage) (arrivals : List Arrival) (key : ResourceKey),
      (∀ arrival ∈ arrivals, arrival.WellFormed blake3) → Unclaimed (storage.slot key) →
      (arrivals.foldl (Storage.received blake3) storage).triple key =
        (sharedAt key arrivals).foldl (fun top arrival => max top (stamp arrival.row : WithBot Stamp))
          (storage.triple key) ∧
      ∀ others : List Arrival, (∀ arrival, arrival ∈ others ↔ arrival ∈ arrivals) →
        (others.foldl (Storage.received blake3) storage).triple key =
          (arrivals.foldl (Storage.received blake3) storage).triple key) ∧
    (∀ (storage : Storage) (arrivals : List Arrival) (key : ResourceKey) (row : Row),
      storage.row key = some row → row.scope = .nodeLocal →
      (arrivals.foldl (Storage.received blake3) storage).slot key = storage.slot key) ∧
    (∀ (storage : Storage) (arrival : Arrival), arrival.row.scope = .nodeLocal →
      storage.received blake3 arrival = storage) ∧
    ∀ (storage peer : Storage) (order peerOrder : HashOrder MemoryEntry),
      Exchangeable blake3 storage → Exchangeable blake3 peer →
      ∀ key, Shares storage key ∨ Shares peer key → Unclaimed (storage.slot key) → Unclaimed (peer.slot key) →
        ∃ triple : Stamp,
          (ResourceSync.syncWithPeer blake3 storage peer order peerOrder .answered).1.triple key = triple ∧
          (ResourceSync.syncWithPeer blake3 storage peer order peerOrder .answered).2.1.triple key = triple := by
  refine ⟨?_, ?_, ?_, ?_⟩
  · intro storage arrivals key wellFormed unclaimed
    refine ⟨triple_of_arrivals wellFormed unclaimed, fun others same => ?_⟩
    have wellFormed' : ∀ arrival ∈ others, arrival.WellFormed blake3 :=
      fun arrival listed => wellFormed arrival ((same arrival).mp listed)
    rw [triple_of_arrivals wellFormed unclaimed, triple_of_arrivals wellFormed' unclaimed]
    refine foldl_eq_of_same_values (fun top v w => ?_) (fun top v => ?_) (fun arrival => ?_) _
    · exact max_right_comm top _ _
    · rw [max_assoc, max_self]
    · rw [sharedAt, sharedAt, List.mem_filter, List.mem_filter, same arrival]
  · exact fun storage arrivals key row held isLocal => slot_claimed held isLocal
  · intro storage arrival isLocal
    exact received_unshared (by rw [isLocal]; decide)
  · intro storage peer order peerOrder sending serving key shares unclaimed unclaimed'
    obtain ⟨left, right⟩ := triples_of_exchange sending serving order peerOrder unclaimed unclaimed'
    have held : max (storage.triple key) (peer.triple key) ≠ ⊥ := by
      intro nothing
      obtain ⟨none, none'⟩ := max_eq_bot.mp nothing
      rcases shares with ⟨row, held, -⟩ | ⟨row, held, -⟩
      · rw [Storage.triple, Cell.rank, Storage.slot, held] at none
        exact WithBot.coe_ne_bot none
      · rw [Storage.triple, Cell.rank, Storage.slot, held] at none'
        exact WithBot.coe_ne_bot none'
    obtain ⟨triple, known⟩ := WithBot.ne_bot_iff_exists.mp held
    exact ⟨triple, left.trans known.symm, right.trans known.symm⟩

/-! ### A workspace with an empty source id -/

/-- blake3 on the two layouts of the workspace below, with the empty source id and with none. -/
def layoutDigest (layout : Bytes) : Hash :=
  if layout = [2, 119, 115, 3, 47, 119, 115, 0, 0, 1, 1, 0, 1, 0, 2, 0] then
    #v[232, 79, 216, 56, 232, 171, 206, 39, 179, 75, 181, 168, 85, 113, 109, 106,
       69, 95, 155, 74, 185, 192, 140, 89, 85, 145, 172, 174, 197, 169, 173, 151]
  else if layout = [2, 119, 115, 3, 47, 119, 115, 0, 0, 1, 0, 1, 0, 2, 0] then
    #v[75, 135, 62, 40, 158, 22, 69, 167, 162, 230, 48, 38, 241, 166, 20, 252,
       11, 0, 168, 209, 63, 215, 105, 173, 69, 60, 231, 224, 108, 1, 122, 194]
  else Vector.replicate 32 0

def unhashedWorkspace (source : Option String) : WorkspaceRecord where
  id := "ws"
  root := "/ws"
  sessionIds := []
  metadata := ∅
  scope := .clusterShared
  sourceNodeId := source
  version := 1
  contentHash := ""
  createdAtMs := 1
  updatedAtMs := 1

def sampleWorkspace (source : Option String) : WorkspaceRecord :=
  { unhashedWorkspace source with contentHash := (unhashedWorkspace source).computeContentHash layoutDigest }

def sampleHost (source : Option String) : Storage :=
  { Storage.empty with
    workspace := { Storage.empty.workspace with
      workspaces := KeyedMap.empty.insert (sampleWorkspace source) } }

theorem sampleHost_rows {source : Option String} {key : ResourceKey} {row : Row}
    (held : (sampleHost source).row key = some row) :
    key = (.workspace, "ws") ∧ row = .workspace (sampleWorkspace source) := by
  obtain ⟨kind, id⟩ := key
  cases kind with
  | workspace =>
    obtain ⟨record, found, rfl⟩ := Option.map_eq_some_iff.mp held
    have inserted : (KeyedMap.empty.insert (sampleWorkspace source)).get? id = some record := found
    rw [KeyedMap.get?_insert] at inserted
    split at inserted
    · rename_i same
      cases inserted
      exact ⟨congrArg (Prod.mk _) same.symm, rfl⟩
    · rw [KeyedMap.get?_empty] at inserted
      cases inserted
  | _ => simp [Storage.row, sampleHost, Storage.empty] at held

theorem sampleHost_row (source : Option String) :
    (sampleHost source).row (.workspace, "ws") = some (.workspace (sampleWorkspace source)) :=
  congrArg (Option.map Row.workspace) (KeyedMap.get?_insert_self KeyedMap.empty (sampleWorkspace source))

theorem sampleHost_wellFormed (source : Option String) : SharedWellFormed layoutDigest (sampleHost source) := by
  intro key row held shared
  obtain ⟨rfl, rfl⟩ := sampleHost_rows held
  exact ⟨.workspace (sampleWorkspace source), rfl, ⟨sampleHost_row source, rfl, rfl⟩, rfl⟩

theorem sampleHost_unclaimed (source : Option String) :
    Unclaimed ((sampleHost source).slot (.workspace, "ws")) := by
  intro row held
  cases (sampleHost_row source).symm.trans held
  rfl

theorem empty_exchangeable (blake3 : Bytes → Hash) : Exchangeable blake3 .empty := by
  constructor
  · intro key row held _
    cases (row_empty key).symm.trans held
  · intro key row held _
    cases (row_empty key).symm.trans held

theorem empty_unclaimed (key : ResourceKey) : Unclaimed (Storage.empty.slot key) := by
  intro row held
  cases (row_empty key).symm.trans held

/-- A workspace without a source id arrives on the other side. -/
theorem local_workspace_exchanged :
    ∃ triple : Stamp,
      (ResourceSync.syncWithPeer layoutDigest (sampleHost none) .empty (.sorted _) (.sorted _) .answered).1.triple
        (.workspace, "ws") = triple ∧
      (ResourceSync.syncWithPeer layoutDigest (sampleHost none) .empty (.sorted _) (.sorted _) .answered).2.1.triple
        (.workspace, "ws") = triple := by
  refine (versioned_apply_joins layoutDigest).2.2.2 (sampleHost none) .empty (.sorted _) (.sorted _)
    ⟨sampleHost_wellFormed none, fun key row held _ => ?_⟩ (empty_exchangeable layoutDigest)
    (.workspace, "ws") (.inl ⟨_, sampleHost_row none, rfl⟩) (sampleHost_unclaimed none) (empty_unclaimed _)
  obtain ⟨-, rfl⟩ := sampleHost_rows held
  exact nofun

/-- With the empty source id the workspace is well-formed, and the other side does not take it: without
the id it has another hash. -/
theorem empty_source_stays :
    SharedWellFormed layoutDigest (sampleHost (some "")) ∧ SharedWellFormed layoutDigest .empty ∧
      Shares (sampleHost (some "")) (.workspace, "ws") ∧
      Unclaimed ((sampleHost (some "")).slot (.workspace, "ws")) ∧
      Unclaimed (Storage.empty.slot (.workspace, "ws")) ∧
      (ResourceSync.syncWithPeer layoutDigest (sampleHost (some "")) .empty (.sorted _) (.sorted _) .answered).1.triple
          (.workspace, "ws") ≠
        (ResourceSync.syncWithPeer layoutDigest (sampleHost (some "")) .empty (.sorted _) (.sorted _) .answered).2.1.triple
          (.workspace, "ws") := by
  refine ⟨sampleHost_wellFormed _, (empty_exchangeable layoutDigest).formed, ⟨_, sampleHost_row _, rfl⟩,
    sampleHost_unclaimed _, empty_unclaimed _, ?_⟩
  have mine : (ResourceSync.syncWithPeer layoutDigest (sampleHost (some "")) .empty (.sorted _) (.sorted _) .answered).1.row
      (.workspace, "ws") = some (.workspace (sampleWorkspace (some ""))) := by decide +kernel
  have theirs : (ResourceSync.syncWithPeer layoutDigest (sampleHost (some "")) .empty (.sorted _) (.sorted _)
      .answered).2.1.row (.workspace, "ws") = none := by decide +kernel
  rw [Storage.triple, Storage.triple, Cell.rank, Cell.rank, Storage.slot, Storage.slot, mine, theirs]
  exact WithBot.coe_ne_bot

end Lycoris.Daemon
