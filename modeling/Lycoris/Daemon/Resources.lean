import Lycoris.Stores.Received

/-!
The resource facade between storage and wire, and the exchange of shared resources with a peer
(`daemon/src/resource`, `daemon/src/sync/resource.rs`). A resource that decodes is an arrival, and applying it
is receiving the arrival.
-/

namespace Lycoris.Daemon
open Lib Cluster Stores

/-! ### The wire -/

inductive ResourceKind where
  | node
  | session
  | memory
  | skill
  | rule
  | workspace
  | extension
  deriving DecidableEq

def ResourceKind.toProto : ResourceKind → Int
  | .node => 0
  | .session => 1
  | .memory => 2
  | .skill => 3
  | .rule => 4
  | .workspace => 5
  | .extension => 6

/-- Kind and scope are the raw enumeration numbers. -/
structure ResourceMetadata where
  id : String
  name : String
  kind : Int
  labels : StringMap
  scope : Int
  sourceNodeId : String
  createdAtMs : Int
  updatedAtMs : Int

structure MemoryBody where
  content : Bytes
  metadata : StringMap
  contentHash : String
  embedding : List UInt32
  version : UInt64

/-- The body of a skill or a rule. -/
structure VersionedBody where
  version : UInt64
  contentHash : String
  content : String
  metadata : StringMap

structure WorkspaceBody where
  root : String
  sessionIds : List String
  metadata : StringMap
  version : UInt64
  contentHash : String

structure ExtensionBody where
  version : UInt64
  contentHash : String
  engine : String
  entry : String
  artifact : Bytes
  manifest : StringMap

/-- Node and session bodies are only told apart from the others. -/
inductive Body where
  | node
  | session
  | memory (body : MemoryBody)
  | skill (body : VersionedBody)
  | rule (body : VersionedBody)
  | workspace (body : WorkspaceBody)
  | extension (body : ExtensionBody)

structure Resource where
  metadata : Option ResourceMetadata
  body : Option Body

inductive MapperError where
  | missingMetadata
  | unknownKind (raw : Int)
  | unknownScope (raw : Int)
  | notShared (id : String) (scope : ResourceScope)
  | missingBody (kind : ResourceKind) (id : String)
  | kindBodyMismatch (kind : ResourceKind)
  | notSynchronized (kind : ResourceKind)
  | agent (context : String) (source : AgentStorageError)
  | workspace (context : String) (source : WorkspaceStorageError)
  | extension (context : String) (source : ExtensionStorageError)

/-! ### Conversions -/

def scopeToProto : ResourceScope → Int
  | .clusterShared => 1
  | .nodeLocal => 2

def decodeKind (raw : Int) : Except MapperError ResourceKind :=
  if raw = 0 then .ok .node
  else if raw = 1 then .ok .session
  else if raw = 2 then .ok .memory
  else if raw = 3 then .ok .skill
  else if raw = 4 then .ok .rule
  else if raw = 5 then .ok .workspace
  else if raw = 6 then .ok .extension
  else .error (.unknownKind raw)

/-- An unspecified scope is that of the node. -/
def metadataScope (metadata : ResourceMetadata) : Except MapperError ResourceScope :=
  if metadata.scope = 1 then .ok .clusterShared
  else if metadata.scope = 0 ∨ metadata.scope = 2 then .ok .nodeLocal
  else .error (.unknownScope metadata.scope)

/-- The wire has no absent source: it is the empty one. -/
def metadataSourceNodeId (metadata : ResourceMetadata) : Option String :=
  (some metadata.sourceNodeId).filter fun id => !id.isEmpty

/-- `MetadataBuilder` with labels, scope and timestamps. -/
def buildMetadata (id name : String) (kind : ResourceKind) (labels : StringMap) (scope : ResourceScope)
    (sourceNodeId : Option String) (createdAtMs updatedAtMs : Int) : ResourceMetadata where
  id := id
  name := name
  kind := kind.toProto
  labels := labels
  scope := scopeToProto scope
  sourceNodeId := sourceNodeId.getD ""
  createdAtMs := createdAtMs
  updatedAtMs := updatedAtMs

/-- `memory_to_resource` in full. -/
def memoryToResource (entry : MemoryEntry) : Resource where
  metadata := some (buildMetadata entry.id entry.id .memory entry.metadata entry.scope entry.sourceNodeId
    entry.createdAtMs entry.updatedAtMs)
  body := some (.memory
    { content := entry.content, metadata := entry.metadata, contentHash := entry.contentHash,
      embedding := entry.embedding, version := entry.version })

inductive VersionedKind where
  | skill
  | rule

def VersionedKind.resourceKind : VersionedKind → ResourceKind
  | .skill => .skill
  | .rule => .rule

def versionedToResource (record : VersionedResource) (kind : VersionedKind) (content : Option String) :
    Resource :=
  let body : VersionedBody :=
    { version := record.version, contentHash := record.contentHash, content := content.getD "",
      metadata := record.metadata }
  { metadata := some (buildMetadata record.id record.name kind.resourceKind record.metadata record.scope
      record.sourceNodeId record.createdAtMs record.updatedAtMs)
    body := some (match kind with
      | .skill => .skill body
      | .rule => .rule body) }

def workspaceToResource (workspace : WorkspaceRecord) : Resource where
  metadata := some (buildMetadata workspace.id workspace.id .workspace workspace.metadata workspace.scope
    workspace.sourceNodeId workspace.createdAtMs workspace.updatedAtMs)
  body := some (.workspace
    { root := workspace.root, sessionIds := workspace.sessionIds, metadata := workspace.metadata,
      version := workspace.version, contentHash := workspace.contentHash })

def extensionToResource (record : ExtensionRecord) (artifact : Option Bytes) : Resource where
  metadata := some (buildMetadata record.id record.name .extension record.labels record.scope
    record.sourceNodeId record.createdAtMs record.updatedAtMs)
  body := some (.extension
    { version := record.version, contentHash := record.contentHash, engine := record.engine,
      entry := record.entry, artifact := artifact.getD [], manifest := record.manifest })

def resourceToMemory (metadata : ResourceMetadata) (body : MemoryBody) : Except MapperError MemoryEntry := do
  let scope ← metadataScope metadata
  return {
    id := metadata.id
    content := body.content
    embedding := body.embedding
    metadata := body.metadata
    scope := scope
    sourceNodeId := metadataSourceNodeId metadata
    createdAtMs := metadata.createdAtMs
    updatedAtMs := metadata.updatedAtMs
    contentHash := body.contentHash
    version := body.version }

/-- The labels of the metadata are the metadata of the record. -/
def resourceToVersioned (metadata : ResourceMetadata) (version : UInt64) (contentHash : String) :
    Except MapperError VersionedResource := do
  let scope ← metadataScope metadata
  return {
    id := metadata.id
    name := metadata.name
    version := version
    contentHash := contentHash
    scope := scope
    sourceNodeId := metadataSourceNodeId metadata
    createdAtMs := metadata.createdAtMs
    updatedAtMs := metadata.updatedAtMs
    metadata := metadata.labels }

def resourceToSkill (metadata : ResourceMetadata) (body : VersionedBody) :
    Except MapperError VersionedResource :=
  resourceToVersioned metadata body.version body.contentHash

def resourceToRule (metadata : ResourceMetadata) (body : VersionedBody) :
    Except MapperError VersionedResource :=
  resourceToVersioned metadata body.version body.contentHash

def resourceToWorkspace (metadata : ResourceMetadata) (body : WorkspaceBody) :
    Except MapperError WorkspaceRecord := do
  let scope ← metadataScope metadata
  return {
    id := metadata.id
    root := body.root
    sessionIds := body.sessionIds
    metadata := body.metadata
    scope := scope
    sourceNodeId := metadataSourceNodeId metadata
    version := body.version
    contentHash := body.contentHash
    createdAtMs := metadata.createdAtMs
    updatedAtMs := metadata.updatedAtMs }

def resourceToExtension (metadata : ResourceMetadata) (body : ExtensionBody) :
    Except MapperError ExtensionRecord := do
  let scope ← metadataScope metadata
  return {
    id := metadata.id
    name := metadata.name
    version := body.version
    engine := body.engine
    entry := body.entry
    contentHash := body.contentHash
    scope := scope
    sourceNodeId := metadataSourceNodeId metadata
    createdAtMs := metadata.createdAtMs
    updatedAtMs := metadata.updatedAtMs
    manifest := body.manifest
    labels := metadata.labels }

/-! ### The mapper -/

/-- What fails in the domains during one call. -/
structure StorageFaults where
  agent : Faults AgentStorageError
  workspace : ContentFaults WorkspaceStorageError
  extension : ContentFaults ExtensionStorageError

def StorageFaults.none : StorageFaults := ⟨.none, .none, .none⟩

namespace ResourceMapper

variable (blake3 : Bytes → Hash)

/-- The record of a resource that may be applied, or why it may not. -/
def decodeResource (resource : Resource) : Except MapperError Arrival :=
  match resource.metadata with
  | none => .error .missingMetadata
  | some metadata => do
    let kind ← decodeKind metadata.kind
    let scope ← metadataScope metadata
    if scope ≠ .clusterShared then .error (.notShared metadata.id scope)
    else match kind, resource.body with
      | .memory, some (.memory body) => return .memory (← resourceToMemory metadata body)
      | .skill, some (.skill body) => return .skill (← resourceToSkill metadata body) body.content
      | .rule, some (.rule body) => return .rule (← resourceToRule metadata body) body.content
      | .workspace, some (.workspace body) => return .workspace (← resourceToWorkspace metadata body)
      | .extension, some (.extension body) =>
        return .extension (← resourceToExtension metadata body) body.artifact
      | .node, _ => .error (.notSynchronized .node)
      | .session, _ => .error (.notSynchronized .session)
      | kind, none => .error (.missingBody kind metadata.id)
      | kind, _ => .error (.kindBodyMismatch kind)

/-- Hand a decoded record to its domain. -/
def applyArrival (faults : StorageFaults) (storage : Storage) :
    Arrival → Storage × Except MapperError Unit
  | .memory entry =>
    let applied := storage.agent.applyRemoteMemory blake3 faults.agent entry
    ({ storage with agent := applied.1 },
      (applied.2.mapError (.agent "failed to apply remote memory")).map fun _ => ())
  | .skill record content =>
    let applied := storage.workspace.applyRemoteSkill blake3 faults.workspace record content
    ({ storage with workspace := applied.1 },
      (applied.2.mapError (.workspace "failed to apply remote skill")).map fun _ => ())
  | .rule record content =>
    let applied := storage.workspace.applyRemoteRule blake3 faults.workspace record content
    ({ storage with workspace := applied.1 },
      (applied.2.mapError (.workspace "failed to apply remote rule")).map fun _ => ())
  | .workspace record =>
    let applied := storage.workspace.applyRemoteWorkspace blake3 faults.workspace.toFaults record
    ({ storage with workspace := applied.1 },
      (applied.2.mapError (.workspace "failed to apply remote workspace")).map fun _ => ())
  | .extension record artifact =>
    let applied :=
      ExtensionDomain.applyRemoteExtension blake3 faults.extension storage.extensions record artifact
    ({ storage with extensions := applied.1 },
      (applied.2.mapError (.extension "failed to apply remote extension")).map fun _ => ())

def applyResource (faults : StorageFaults) (storage : Storage) (resource : Resource) :
    Storage × Except MapperError Unit :=
  match decodeResource resource with
  | .error error => (storage, .error error)
  | .ok arrival => applyArrival blake3 faults storage arrival

/-! ### Listing -/

def readContent (files : Files) (id : String) : Except WorkspaceStorageError (Option String) :=
  match validate id with
  | .error error => .error (.invalidResourceId error)
  | .ok () =>
    match files[id]? with
    | none => .ok none
    | some bytes =>
      match readToString bytes with
      | some content => .ok (some content)
      | none => .error (.storage (.io "stream did not contain valid UTF-8"))

def readBlob (files : Files) (id : String) : Except ExtensionStorageError (Option Bytes) :=
  match validate id with
  | .error error => .error (.invalidResourceId error)
  | .ok () => .ok files[id]?

def sharedVersioned (store : Backed VersionedResource.id) (kind : VersionedKind) (context : String) :
    Except MapperError (List Resource) :=
  (store.records.vals.filter fun record => record.scope = .clusterShared).mapM fun record => do
    let content ← (readContent store.files record.id).mapError (.workspace context)
    return versionedToResource record kind content

def sharedExtensions (domain : ExtensionDomain) : Except MapperError (List Resource) :=
  (domain.records.vals.filter fun record => record.scope = .clusterShared).mapM fun record => do
    let artifact ← (readBlob domain.files record.id).mapError (.extension "failed to read extension artifact")
    return extensionToResource record artifact

/-- The memory table hands out its rows in any order. -/
def localSharedResources (storage : Storage) (order : HashOrder MemoryEntry) :
    Except MapperError (List Resource) := do
  let memories := (storage.agent.memory.iter order).filter fun entry => entry.scope = .clusterShared
  let workspaces :=
    storage.workspace.workspaces.vals.filter fun workspace => workspace.scope = .clusterShared
  let skills ← sharedVersioned storage.workspace.skills .skill "failed to read skill content"
  let rules ← sharedVersioned storage.workspace.rules .rule "failed to read rule content"
  let extensions ← sharedExtensions storage.extensions
  return memories.map memoryToResource ++ workspaces.map workspaceToResource ++ skills ++ rules ++ extensions

end ResourceMapper

/-! ### The exchange -/

/-- How far a call to a peer gets. -/
inductive Reach where
  | noConnection
  | requestLost
  | answerLost
  | answered

namespace ResourceSync
open ResourceMapper

variable (blake3 : Bytes → Hash)

/-- Apply one resource of an exchange; a failure is logged and skipped. -/
def applyLogged (storage : Storage) (resource : Resource) : Storage :=
  (applyResource blake3 .none storage resource).1

def mergeAndListShared (storage : Storage) (remoteResources : List Resource) (order : HashOrder MemoryEntry) :
    Storage × List Resource :=
  let merged := remoteResources.foldl (applyLogged blake3) storage
  match localSharedResources merged order with
  | .ok resources => (merged, resources)
  | .error _ => (merged, [])

/-- Both storages after a call, and whether the caller got a connection. -/
def syncWithPeer (storage peer : Storage) (order peerOrder : HashOrder MemoryEntry) (reach : Reach) :
    Storage × Storage × Bool :=
  match reach with
  | .noConnection => (storage, peer, false)
  | reach =>
    match localSharedResources storage order with
    | .error _ => (storage, peer, true)
    | .ok localResources =>
      let served := mergeAndListShared blake3 peer localResources peerOrder
      match reach with
      | .answered => (served.2.foldl (applyLogged blake3) storage, served.1, true)
      | .answerLost => (storage, served.1, true)
      | _ => (storage, peer, true)

end ResourceSync

end Lycoris.Daemon
