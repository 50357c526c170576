import Lycoris.Stores.Drift

/-!
What arrives for a storage, over the five kinds at once. The storage is a family of last-writer cells, one
for each kind and id, and a well-formed arrival is an offer to its cell.
-/

namespace Lycoris.Stores
open Lib Cluster

/-- The kinds that take part in resource synchronization. -/
inductive SyncedKind where
  | memory
  | skill
  | rule
  | workspace
  | extension
  deriving DecidableEq

abbrev ResourceKey := SyncedKind × String

inductive Row where
  | memory (entry : MemoryEntry)
  | skill (record : VersionedResource)
  | rule (record : VersionedResource)
  | workspace (record : WorkspaceRecord)
  | extension (record : ExtensionRecord)
  deriving DecidableEq

namespace Row

def key : Row → ResourceKey
  | memory entry => (.memory, entry.id)
  | skill record => (.skill, record.id)
  | rule record => (.rule, record.id)
  | workspace record => (.workspace, record.id)
  | extension record => (.extension, record.id)

def version : Row → UInt64
  | memory entry => entry.version
  | skill record => record.version
  | rule record => record.version
  | workspace record => record.version
  | extension record => record.version

def updatedAtMs : Row → Int
  | memory entry => entry.updatedAtMs
  | skill record => record.updatedAtMs
  | rule record => record.updatedAtMs
  | workspace record => record.updatedAtMs
  | extension record => record.updatedAtMs

def contentHash : Row → String
  | memory entry => entry.contentHash
  | skill record => record.contentHash
  | rule record => record.contentHash
  | workspace record => record.contentHash
  | extension record => record.contentHash

def scope : Row → ResourceScope
  | memory entry => entry.scope
  | skill record => record.scope
  | rule record => record.scope
  | workspace record => record.scope
  | extension record => record.scope

instance : VersionedRecord Row := ⟨version, updatedAtMs, contentHash, scope⟩

end Row

/-- A remote record with its content, as a domain takes it. -/
inductive Arrival where
  | memory (entry : MemoryEntry)
  | skill (record : VersionedResource) (content : String)
  | rule (record : VersionedResource) (content : String)
  | workspace (record : WorkspaceRecord)
  | extension (record : ExtensionRecord) (artifact : Bytes)
  deriving DecidableEq

namespace Arrival

def row : Arrival → Row
  | memory entry => .memory (AgentDomain.storedEntry entry)
  | skill record _ => .skill record
  | rule record _ => .rule record
  | workspace record => .workspace record
  | extension record _ => .extension record

def key (arrival : Arrival) : ResourceKey := arrival.row.key

/-- The file the kind keeps beside the record. -/
def body : Arrival → Option Bytes
  | memory _ => none
  | skill _ content => some (asBytes content)
  | rule _ content => some (asBytes content)
  | workspace _ => none
  | extension _ artifact => some artifact

def offer (arrival : Arrival) : Offer Row Bytes := ⟨arrival.row, arrival.body⟩

/-- The content is there and hashes to the content hash, under an id that can name its file, and the embedding of
a memory has the dimension of the stores. The content of a workspace is the record. -/
def WellFormed (blake3 : Bytes → Hash) : Arrival → Prop
  | memory entry => entry.content ≠ [] ∧ hashContent blake3 entry.content = entry.contentHash ∧
      entry.embedding.length = defaultEmbeddingDim
  | skill record content =>
    validate record.id = .ok () ∧ content ≠ "" ∧ hashContent blake3 (asBytes content) = record.contentHash
  | rule record content =>
    validate record.id = .ok () ∧ content ≠ "" ∧ hashContent blake3 (asBytes content) = record.contentHash
  | workspace record => record.computeContentHash blake3 = record.contentHash
  | extension record artifact =>
    validate record.id = .ok () ∧ artifact ≠ [] ∧ hashContent blake3 artifact = record.contentHash

end Arrival

namespace Storage

variable (blake3 : Bytes → Hash)

/-- The storage after `apply_remote_*` of the kind, with no storage failure. -/
def received (storage : Storage) : Arrival → Storage
  | .memory entry =>
    { storage with agent := (storage.agent.applyRemoteMemory blake3 .none entry).1 }
  | .skill record content =>
    { storage with workspace := (storage.workspace.applyRemoteSkill blake3 .none record content).1 }
  | .rule record content =>
    { storage with workspace := (storage.workspace.applyRemoteRule blake3 .none record content).1 }
  | .workspace record =>
    { storage with workspace := (storage.workspace.applyRemoteWorkspace blake3 .none record).1 }
  | .extension record artifact =>
    { storage with
      extensions := (ExtensionDomain.applyRemoteExtension blake3 .none storage.extensions record artifact).1 }

/-! ### Slots -/

def row (storage : Storage) : ResourceKey → Option Row
  | (.memory, id) => (storage.agent.memory.get? id).map .memory
  | (.skill, id) => (storage.workspace.skills.records.get? id).map .skill
  | (.rule, id) => (storage.workspace.rules.records.get? id).map .rule
  | (.workspace, id) => (storage.workspace.workspaces.get? id).map .workspace
  | (.extension, id) => (storage.extensions.records.get? id).map .extension

def file (storage : Storage) : ResourceKey → Option Bytes
  | (.skill, id) => storage.workspace.skills.files[id]?
  | (.rule, id) => storage.workspace.rules.files[id]?
  | (.extension, id) => storage.extensions.files[id]?
  | _ => none

def slot (storage : Storage) (key : ResourceKey) : Cell Row Bytes := ⟨storage.row key, storage.file key⟩

end Storage

/-! ### Arrivals at their cells -/

section Receive

variable {R E : Type} [VersionedRecord R] {id : R → String}

/-- An arrival at its cell: the conflict check, then the row, and the file where the hash is new. -/
def receive (cell : Cell R Bytes) (offered : Offer R Bytes) : Cell R Bytes :=
  if shouldApplyVersioned cell.row offered.value then
    { row := some offered.value
      file := if cell.row.map VersionedRecord.contentHash = some (VersionedRecord.contentHash offered.value)
        then cell.file else offered.body }
  else cell

def Backed.cell (store : Backed id) (key : String) : Cell R Bytes := ⟨store.records.get? key, store.files[key]?⟩

def Cell.mapRow {V W C : Type} (f : V → W) (cell : Cell V C) : Cell W C := ⟨cell.row.map f, cell.file⟩

/-- A view of records as rows that the conflict check does not see. -/
structure Transparent (f : R → Row) : Prop where
  checks : ∀ held remote, shouldApplyVersioned (held.map f) (f remote) = shouldApplyVersioned held remote
  hashes : ∀ record, (f record).contentHash = VersionedRecord.contentHash record

theorem receive_mapRow {f : R → Row} (transparent : Transparent f) (cell : Cell R Bytes) (record : R)
    (body : Option Bytes) :
    receive (Cell.mapRow f cell) ⟨f record, body⟩ = Cell.mapRow f (receive cell ⟨record, body⟩) := by
  have hashes : (cell.row.map f).map Row.contentHash = cell.row.map VersionedRecord.contentHash := by
    cases cell.row with
    | none => rfl
    | some stored => exact congrArg some (transparent.hashes stored)
  have check := transparent.checks cell.row record
  by_cases wins : shouldApplyVersioned cell.row record = true
  · have left : receive (Cell.mapRow f cell) ⟨f record, body⟩ = ⟨some (f record),
        if (cell.row.map f).map Row.contentHash = some (f record).contentHash then cell.file else body⟩ :=
      if_pos (check.trans wins)
    have right : receive cell ⟨record, body⟩ = ⟨some record,
        if cell.row.map VersionedRecord.contentHash = some (VersionedRecord.contentHash record)
          then cell.file else body⟩ := if_pos wins
    rw [left, right, Cell.mapRow]
    simp only [hashes, transparent.hashes, Option.map_some]
  · have left : receive (Cell.mapRow f cell) ⟨f record, body⟩ = Cell.mapRow f cell :=
      if_neg fun wins' => wins (check.symm.trans wins')
    have right : receive cell ⟨record, body⟩ = cell := if_neg wins
    rw [left, right]

theorem transparent_skill : Transparent Row.skill := ⟨fun held _ => by cases held <;> rfl, fun _ => rfl⟩

theorem transparent_rule : Transparent Row.rule := ⟨fun held _ => by cases held <;> rfl, fun _ => rfl⟩

theorem transparent_extension : Transparent Row.extension := ⟨fun held _ => by cases held <;> rfl, fun _ => rfl⟩

theorem transparent_workspace : Transparent Row.workspace := ⟨fun held _ => by cases held <;> rfl, fun _ => rfl⟩

theorem transparent_memory : Transparent Row.memory := ⟨fun held _ => by cases held <;> rfl, fun _ => rfl⟩

/-- A table without files: the row of a winner is the winner, and otherwise the one before. -/
theorem receive_plain {f : R → Row} (transparent : Transparent f) (table next : KeyedMap id) (record : R)
    (stored : shouldApplyVersioned (table.get? (id record)) record = true → next = table.insert record)
    (kept : shouldApplyVersioned (table.get? (id record)) record ≠ true → next = table) :
    (⟨(next.get? (id record)).map f, none⟩ : Cell Row Bytes) =
      receive ⟨(table.get? (id record)).map f, none⟩ ⟨f record, none⟩ := by
  refine Eq.trans ?_ (receive_mapRow transparent ⟨table.get? (id record), none⟩ record none).symm
  unfold receive
  by_cases wins : shouldApplyVersioned (table.get? (id record)) record = true
  · rw [if_pos wins, stored wins, KeyedMap.get?_insert_self, Cell.mapRow]
    simp
  · rw [if_neg wins, kept wins, Cell.mapRow]

variable {blake3 : Bytes → Hash} {mismatch : E} {invalid : InvalidResourceId → E}
  {faults : ContentFaults E} {store : Backed id} {record : R} {content : Bytes} {key : String}

variable (blake3 mismatch invalid faults content) in
theorem applyContent_loses
    (loses : shouldApplyVersioned (store.records.get? (id record)) record = false) :
    (applyContent blake3 mismatch invalid faults store record content).1 = store := by
  refine (applyContent_of_not_taken fun taken => ?_).1
  exact absurd (loses.symm.trans taken.wins) (by decide)

theorem contentWritten_other (other : id record ≠ key) :
    (contentWritten invalid faults store record content).1[key]? = store.files[key]? := by
  have elsewhere : ¬ compare (id record) key = .eq := by simpa using other
  unfold contentWritten
  split
  · unfold writeContent
    split
    · rfl
    · split
      · rw [Std.ExtTreeMap.getElem?_alter, if_neg elsewhere]
      · rw [Std.ExtTreeMap.getElem?_insert, if_neg elsewhere]
  · rfl

theorem cell_applyContent_other (other : id record ≠ key) :
    (applyContent blake3 mismatch invalid faults store record content).1.cell key = store.cell key := by
  by_cases taken : Taken blake3 faults store record content
  · rw [applyContent_of_taken mismatch invalid taken]
    split
    · exact congrArg (Cell.mk _) (contentWritten_other other)
    · exact congrArg (Cell.mk _) (contentWritten_other other)
    · refine congrArg₂ Cell.mk ?_ (contentWritten_other other)
      rw [KeyedMap.get?_insert, if_neg other]
  · rw [(applyContent_of_not_taken taken).1]

theorem cell_applyContent_own (filled : content ≠ [])
    (hashed : hashContent blake3 content = VersionedRecord.contentHash record)
    (named : validate (id record) = .ok ()) :
    (applyContent blake3 mismatch invalid .none store record content).1.cell (id record) =
      receive (store.cell (id record)) ⟨record, some content⟩ := by
  by_cases wins : shouldApplyVersioned (store.records.get? (id record)) record = true
  · have target : receive (store.cell (id record)) ⟨record, some content⟩ =
        ⟨some record, if (store.records.get? (id record)).map VersionedRecord.contentHash =
            some (VersionedRecord.contentHash record) then store.files[id record]? else some content⟩ :=
      if_pos wins
    rw [target]
    have taken : Taken blake3 (.none : ContentFaults E) store record content :=
      ⟨filled, by simpa [verifyContentHash] using hashed, rfl, wins⟩
    have same : rewrites (store.records.get? (id record)) record = false ↔
        (store.records.get? (id record)).map VersionedRecord.contentHash =
          some (VersionedRecord.contentHash record) := by
      unfold rewrites
      cases store.records.get? (id record) <;> simp
    cases writes : rewrites (store.records.get? (id record)) record with
    | false =>
      rw [applyContent_of_taken mismatch invalid taken, contentWritten_skips writes]
      refine congrArg₂ Cell.mk (KeyedMap.get?_insert_self _ _) (if_pos (same.mp writes)).symm
    | true =>
      have done : (contentWritten invalid .none store record content).2 = .ok () := by
        simp only [contentWritten, writes, if_true, writeContent, named]
        rfl
      have new : ¬ (store.records.get? (id record)).map VersionedRecord.contentHash =
          some (VersionedRecord.contentHash record) := by
        intro tagged
        rw [same.mpr tagged] at writes
        cases writes
      rw [applyContent_of_taken mismatch invalid taken, done, contentWritten_rewrites writes done]
      refine congrArg₂ Cell.mk (KeyedMap.get?_insert_self _ _) ?_
      rw [if_neg new]
      exact Std.ExtTreeMap.getElem?_insert_self
  · have target : receive (store.cell (id record)) ⟨record, some content⟩ = store.cell (id record) :=
      if_neg wins
    rw [target, (applyContent_of_not_taken fun taken => wins taken.wins).1]

end Receive

/-! ### Slots of a storage that received an arrival -/

section Slots

variable {blake3 : Bytes → Hash} {storage : Storage} {arrival : Arrival} {key : ResourceKey}

variable (blake3) in
theorem applyRemoteMemory_cases (domain : AgentDomain) (entry : MemoryEntry) :
    (domain.applyRemoteMemory blake3 .none entry).1 = domain ∨
      shouldApplyVersioned (domain.memory.get? entry.id) entry = true ∧
      (domain.applyRemoteMemory blake3 .none entry).1 =
        ⟨domain.memory.insert (AgentDomain.storedEntry entry)⟩ := by
  unfold AgentDomain.applyRemoteMemory
  split
  · exact .inl rfl
  split
  · exact .inl rfl
  dsimp only [Faults.none]
  split
  · exact .inl rfl
  · rename_i wins
    unfold AgentDomain.store
    by_cases sized : entry.embedding.length = defaultEmbeddingDim
    · rw [if_neg (not_not.mpr sized)]
      exact .inr ⟨by simpa using wins, rfl⟩
    · rw [if_pos sized]
      exact .inl rfl

theorem applyRemoteMemory_eq {domain : AgentDomain} {entry : MemoryEntry} (filled : entry.content ≠ [])
    (hashed : hashContent blake3 entry.content = entry.contentHash)
    (sized : entry.embedding.length = defaultEmbeddingDim)
    (wins : shouldApplyVersioned (domain.memory.get? entry.id) entry = true) :
    (domain.applyRemoteMemory blake3 .none entry).1 =
      ⟨domain.memory.insert (AgentDomain.storedEntry entry)⟩ := by
  simp [AgentDomain.applyRemoteMemory, AgentDomain.store, filled, verifyContentHash, hashed, sized, wins,
    Faults.none]

variable (blake3) in
theorem applyRemoteWorkspace_cases (domain : WorkspaceDomain) (record : WorkspaceRecord) :
    (domain.applyRemoteWorkspace blake3 .none record).1 = domain ∨
      shouldApplyVersioned (domain.workspaces.get? record.id) record = true ∧
      (domain.applyRemoteWorkspace blake3 .none record).1 =
        { domain with workspaces := upsertWorkspace blake3 domain.workspaces record } := by
  unfold WorkspaceDomain.applyRemoteWorkspace
  split
  · exact .inl rfl
  dsimp only [Faults.none]
  split
  · exact .inl rfl
  · rename_i wins
    exact .inr ⟨by simpa using wins, rfl⟩

theorem applyRemoteWorkspace_eq {domain : WorkspaceDomain} {record : WorkspaceRecord}
    (hashed : record.computeContentHash blake3 = record.contentHash)
    (wins : shouldApplyVersioned (domain.workspaces.get? record.id) record = true) :
    (domain.applyRemoteWorkspace blake3 .none record).1 =
      { domain with workspaces := domain.workspaces.insert record } := by
  simp [WorkspaceDomain.applyRemoteWorkspace, verifyContentHash, hashed, wins, Faults.none, upsertWorkspace]

theorem slot_received_other (other : arrival.key ≠ key) :
    (storage.received blake3 arrival).slot key = storage.slot key := by
  obtain ⟨kind, id⟩ := key
  cases arrival with
  | memory entry =>
    cases kind with
    | memory =>
      have elsewhere : (AgentDomain.storedEntry entry).id ≠ id := fun same => other (congrArg (Prod.mk _) same)
      rcases applyRemoteMemory_cases blake3 storage.agent entry with same | ⟨-, same⟩
      · simp only [Storage.slot, Storage.row, Storage.file, Storage.received, same]
      · simp only [Storage.slot, Storage.row, Storage.file, Storage.received, same,
          KeyedMap.get?_insert, if_neg elsewhere]
    | _ => rfl
  | skill record content =>
    cases kind with
    | skill =>
      have elsewhere : record.id ≠ id := fun same => other (congrArg (Prod.mk _) same)
      exact congrArg (Cell.mapRow Row.skill) (cell_applyContent_other elsewhere)
    | _ => rfl
  | rule record content =>
    cases kind with
    | rule =>
      have elsewhere : record.id ≠ id := fun same => other (congrArg (Prod.mk _) same)
      exact congrArg (Cell.mapRow Row.rule) (cell_applyContent_other elsewhere)
    | _ => rfl
  | workspace record =>
    rcases applyRemoteWorkspace_cases blake3 storage.workspace record with same | ⟨-, same⟩
    · simp only [Storage.slot, Storage.received, same]
    · cases kind with
      | workspace =>
        have elsewhere : record.id ≠ id := fun same => other (congrArg (Prod.mk _) same)
        simp only [Storage.slot, Storage.row, Storage.file, Storage.received, same, upsertWorkspace,
          KeyedMap.get?_insert, if_neg elsewhere]
      | _ => simp only [Storage.slot, Storage.row, Storage.file, Storage.received, same]
  | extension record artifact =>
    cases kind with
    | extension =>
      have elsewhere : record.id ≠ id := fun same => other (congrArg (Prod.mk _) same)
      exact congrArg (Cell.mapRow Row.extension) (cell_applyContent_other elsewhere)
    | _ => rfl

theorem slot_received_own (wellFormed : arrival.WellFormed blake3) :
    (storage.received blake3 arrival).slot arrival.key = receive (storage.slot arrival.key) arrival.offer := by
  cases arrival with
  | memory entry =>
    obtain ⟨filled, hashed, sized⟩ := wellFormed
    refine receive_plain transparent_memory storage.agent.memory _ (AgentDomain.storedEntry entry)
      (fun wins => ?_) fun loses => ?_
    · exact congrArg AgentDomain.memory (applyRemoteMemory_eq filled hashed sized wins)
    · rcases applyRemoteMemory_cases blake3 storage.agent entry with same | ⟨wins, -⟩
      · exact congrArg AgentDomain.memory same
      · exact absurd wins loses
  | skill record content =>
    obtain ⟨named, filled, hashed⟩ := wellFormed
    refine (congrArg (Cell.mapRow Row.skill) (cell_applyContent_own ?_ hashed named)).trans
      (receive_mapRow transparent_skill _ _ _).symm
    exact fun nothing => filled (asBytes_eq_nil.mp nothing)
  | rule record content =>
    obtain ⟨named, filled, hashed⟩ := wellFormed
    refine (congrArg (Cell.mapRow Row.rule) (cell_applyContent_own ?_ hashed named)).trans
      (receive_mapRow transparent_rule _ _ _).symm
    exact fun nothing => filled (asBytes_eq_nil.mp nothing)
  | workspace record =>
    refine receive_plain transparent_workspace storage.workspace.workspaces _ record
      (fun wins => ?_) fun loses => ?_
    · exact congrArg WorkspaceDomain.workspaces (applyRemoteWorkspace_eq wellFormed wins)
    · rcases applyRemoteWorkspace_cases blake3 storage.workspace record with same | ⟨wins, -⟩
      · exact congrArg WorkspaceDomain.workspaces same
      · exact absurd wins loses
  | extension record artifact =>
    obtain ⟨named, filled, hashed⟩ := wellFormed
    exact (congrArg (Cell.mapRow Row.extension) (cell_applyContent_own filled hashed named)).trans
      (receive_mapRow transparent_extension _ _ _).symm

/-- An arrival that loses the check changes nothing, well-formed or not. -/
theorem received_loses (loses : shouldApplyVersioned (storage.row arrival.key) arrival.row = false) :
    storage.received blake3 arrival = storage := by
  cases arrival with
  | memory entry =>
    have check := transparent_memory.checks (storage.agent.memory.get? entry.id)
      (AgentDomain.storedEntry entry)
    rcases applyRemoteMemory_cases blake3 storage.agent entry with same | ⟨wins, -⟩
    · exact congrArg (fun agent => { storage with agent := agent }) same
    · exact absurd (loses.symm.trans (check.trans wins)) (by decide)
  | skill record content =>
    have check := transparent_skill.checks (storage.workspace.skills.records.get? record.id) record
    have same := applyContent_loses blake3 WorkspaceStorageError.hashMismatch .invalidResourceId .none
      (asBytes content) (check.symm.trans loses)
    exact congrArg (fun skills => { storage with workspace := { storage.workspace with skills := skills } }) same
  | rule record content =>
    have check := transparent_rule.checks (storage.workspace.rules.records.get? record.id) record
    have same := applyContent_loses blake3 WorkspaceStorageError.hashMismatch .invalidResourceId .none
      (asBytes content) (check.symm.trans loses)
    exact congrArg (fun rules => { storage with workspace := { storage.workspace with rules := rules } }) same
  | workspace record =>
    have check := transparent_workspace.checks (storage.workspace.workspaces.get? record.id) record
    rcases applyRemoteWorkspace_cases blake3 storage.workspace record with same | ⟨wins, -⟩
    · exact congrArg (fun workspace => { storage with workspace := workspace }) same
    · exact absurd (loses.symm.trans (check.trans wins)) (by decide)
  | extension record artifact =>
    have check := transparent_extension.checks (storage.extensions.records.get? record.id) record
    have same := applyContent_loses blake3 ExtensionStorageError.hashMismatch .invalidResourceId .none
      artifact (check.symm.trans loses)
    exact congrArg (fun extensions => { storage with extensions := extensions }) same

/-- A stored record of the scope of the node stays, with its file. -/
theorem slot_received_local {row : Row} (held : storage.row key = some row) (isLocal : row.scope = .nodeLocal) :
    (storage.received blake3 arrival).slot key = storage.slot key := by
  by_cases own : arrival.key = key
  · subst own
    rw [received_loses (held ▸ shouldApplyVersioned_local arrival.row isLocal)]
  · exact slot_received_other own

theorem received_unshared (unshared : arrival.row.scope ≠ .clusterShared) :
    storage.received blake3 arrival = storage :=
  received_loses (shouldApplyVersioned_unshared _ unshared)

end Slots

/-! ### Runs of arrivals -/

section Runs

variable {blake3 : Bytes → Hash} {storage : Storage} {arrivals others : List Arrival} {key : ResourceKey}

/-- The offers a list of arrivals makes to one cell. -/
def offersAt (key : ResourceKey) (arrivals : List Arrival) : List (Offer Row Bytes) :=
  (arrivals.filter fun arrival => arrival.key = key).map Arrival.offer

theorem slot_foldl_received
    (wellFormed : ∀ arrival ∈ arrivals, arrival.WellFormed blake3) :
    (arrivals.foldl (Storage.received blake3) storage).slot key =
      (offersAt key arrivals).foldl receive (storage.slot key) := by
  induction arrivals generalizing storage with
  | nil => rfl
  | cons arrival rest ih =>
    obtain ⟨first, later⟩ := List.forall_mem_cons.mp wellFormed
    rw [List.foldl_cons, ih later]
    by_cases own : arrival.key = key
    · subst own
      simp [offersAt, slot_received_own first]
    · simp [offersAt, own, slot_received_other own]

/-- The slot holds no record, or a cluster-shared one. -/
def Unclaimed (cell : Cell Row Bytes) : Prop := ∀ row, cell.row = some row → row.scope = .clusterShared

variable {cell : Cell Row Bytes} {offered : Offer Row Bytes} {offers : List (Offer Row Bytes)}

theorem receive_unshared (unshared : offered.value.scope ≠ .clusterShared) : receive cell offered = cell := by
  have loses := shouldApplyVersioned_unshared cell.row unshared
  exact if_neg (by rw [loses]; decide)

theorem receive_eq_offer (unclaimed : Unclaimed cell) (shared : offered.value.scope = .clusterShared) :
    receive cell offered = cell.offer stamp Row.contentHash offered := by
  have check : shouldApplyVersioned cell.row offered.value = true ↔ cell.rank stamp < stamp offered.value := by
    obtain ⟨row, file⟩ := cell
    cases row with
    | none => exact ⟨fun _ => WithBot.bot_lt_coe _, fun _ => shouldApplyVersioned_none.mpr shared⟩
    | some row =>
      have isShared : VersionedRecord.scope row = .clusterShared := unclaimed row rfl
      constructor
      · exact fun wins => WithBot.coe_lt_coe.mpr (shouldApplyVersioned_some.mp wins).2.2
      · exact fun less => shouldApplyVersioned_some.mpr ⟨shared, isShared, WithBot.coe_lt_coe.mp less⟩
  by_cases wins : shouldApplyVersioned cell.row offered.value = true
  · rw [Cell.offer_taken (check.mp wins)]
    exact if_pos wins
  · rw [Cell.offer_kept (not_lt.mp fun less => wins (check.mpr less))]
    exact if_neg wins

theorem Unclaimed.offer (unclaimed : Unclaimed cell) (shared : offered.value.scope = .clusterShared) :
    Unclaimed (cell.offer stamp Row.contentHash offered) := by
  by_cases larger : cell.rank stamp < stamp offered.value
  · rw [Cell.offer_taken larger]
    intro row held
    cases held
    exact shared
  · rw [Cell.offer_kept (not_lt.mp larger)]
    exact unclaimed

/-- An unclaimed cell takes the cluster-shared arrivals as offers and ignores the others. -/
theorem foldl_receive_eq (unclaimed : Unclaimed cell) :
    offers.foldl receive cell =
      (offers.filter fun offered => offered.value.scope = .clusterShared).foldl
        (Cell.offer stamp Row.contentHash) cell ∧
    Unclaimed (offers.foldl receive cell) := by
  induction offers generalizing cell with
  | nil => exact ⟨rfl, unclaimed⟩
  | cons offered rest ih =>
    by_cases shared : offered.value.scope = .clusterShared
    · rw [List.foldl_cons, receive_eq_offer unclaimed shared, List.filter_cons_of_pos (by simpa), List.foldl_cons]
      exact ih (unclaimed.offer shared)
    · rw [List.foldl_cons, receive_unshared shared, List.filter_cons_of_neg (by simpa)]
      exact ih unclaimed

/-- The stamp of the record in a slot, below all stamps where there is none. -/
def Storage.triple (storage : Storage) (key : ResourceKey) : WithBot Stamp := (storage.slot key).rank stamp

/-- The arrivals for one slot that the cluster shares. -/
def sharedAt (key : ResourceKey) (arrivals : List Arrival) : List Arrival :=
  arrivals.filter fun arrival => arrival.key = key ∧ arrival.row.scope = .clusterShared

theorem offers_sharedAt : (sharedAt key arrivals).map Arrival.offer =
    (offersAt key arrivals).filter fun offered => offered.value.scope = .clusterShared := by
  rw [offersAt, List.filter_map, List.filter_filter, sharedAt]
  congr 1
  refine List.filter_congr fun arrival _ => ?_
  rw [Bool.decide_and, Bool.and_comm]
  rfl

theorem slot_of_arrivals
    (wellFormed : ∀ arrival ∈ arrivals, arrival.WellFormed blake3)
    (unclaimed : Unclaimed (storage.slot key)) :
    (arrivals.foldl (Storage.received blake3) storage).slot key =
      ((sharedAt key arrivals).map Arrival.offer).foldl (Cell.offer stamp Row.contentHash) (storage.slot key) := by
  rw [slot_foldl_received wellFormed, (foldl_receive_eq unclaimed).1, offers_sharedAt]

/-- The triple after a run of arrivals is the largest of the triple before and those of the shared ones. -/
theorem triple_of_arrivals
    (wellFormed : ∀ arrival ∈ arrivals, arrival.WellFormed blake3)
    (unclaimed : Unclaimed (storage.slot key)) :
    (arrivals.foldl (Storage.received blake3) storage).triple key =
      (sharedAt key arrivals).foldl (fun top arrival => max top (stamp arrival.row : WithBot Stamp))
        (storage.triple key) := by
  rw [Storage.triple, slot_of_arrivals wellFormed unclaimed, Cell.rank_foldl_offer, List.foldl_map]
  rfl

/-- A claimed slot stays as it is through all arrivals. -/
theorem slot_claimed {row : Row} (held : storage.row key = some row) (isLocal : row.scope = .nodeLocal) :
    (arrivals.foldl (Storage.received blake3) storage).slot key = storage.slot key := by
  induction arrivals generalizing storage with
  | nil => rfl
  | cons arrival rest ih =>
    have first : (storage.received blake3 arrival).slot key = storage.slot key :=
      slot_received_local held isLocal
    have held' : (storage.received blake3 arrival).row key = some row := (congrArg Cell.row first).trans held
    rw [List.foldl_cons, ih held', first]

end Runs

end Lycoris.Stores
