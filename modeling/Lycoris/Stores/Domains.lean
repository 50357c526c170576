import Lycoris.Lib.Postcard
import Lycoris.Stores.Versioned

/-!
The synchronized records and the five apply pipelines of the storage domains (`storage/src/workspace`,
`storage/src/extension`, `storage/src/agent`). Every pipeline runs under the lock of its domain, so it is
one step; what may fail in it is given with the call.
-/

namespace Lycoris.Stores
open Lib Cluster

/-! ### Records -/

/-- The record of a skill or a rule. -/
structure VersionedResource where
  id : String
  name : String
  version : UInt64
  contentHash : String
  scope : ResourceScope
  sourceNodeId : Option String
  createdAtMs : Int
  updatedAtMs : Int
  metadata : StringMap
  deriving DecidableEq

structure ExtensionRecord where
  id : String
  name : String
  version : UInt64
  engine : String
  entry : String
  contentHash : String
  scope : ResourceScope
  sourceNodeId : Option String
  createdAtMs : Int
  updatedAtMs : Int
  manifest : StringMap
  labels : StringMap
  deriving DecidableEq

/-- The root is a path the serializer takes, so it is text. -/
structure WorkspaceRecord where
  id : String
  root : String
  sessionIds : List String
  metadata : StringMap
  scope : ResourceScope
  sourceNodeId : Option String
  version : UInt64
  contentHash : String
  createdAtMs : Int
  updatedAtMs : Int
  deriving DecidableEq

/-- The floats of an embedding are only carried, as their bits. -/
structure MemoryEntry where
  id : String
  content : Bytes
  embedding : List UInt32
  metadata : StringMap
  scope : ResourceScope
  sourceNodeId : Option String
  createdAtMs : Int
  updatedAtMs : Int
  contentHash : String
  version : UInt64
  deriving DecidableEq

instance : VersionedRecord VersionedResource := ⟨(·.version), (·.updatedAtMs), (·.contentHash), (·.scope)⟩

instance : VersionedRecord ExtensionRecord := ⟨(·.version), (·.updatedAtMs), (·.contentHash), (·.scope)⟩

instance : VersionedRecord WorkspaceRecord := ⟨(·.version), (·.updatedAtMs), (·.contentHash), (·.scope)⟩

instance : VersionedRecord MemoryEntry := ⟨(·.version), (·.updatedAtMs), (·.contentHash), (·.scope)⟩

/-! ### Errors -/

inductive StorageError where
  | redb (message : String)
  | io (message : String)
  | serialization (message : String)
  deriving DecidableEq

inductive WorkspaceStorageError where
  | storage (error : StorageError)
  | hashMismatch
  | gitCommandFailed (stderr : String)
  | invalidResourceId (error : InvalidResourceId)
  deriving DecidableEq

inductive ExtensionStorageError where
  | storage (error : StorageError)
  | hashMismatch
  | invalidResourceId (error : InvalidResourceId)
  deriving DecidableEq

inductive AgentStorageError where
  | backend (message : String)
  | hashMismatch
  | invalidEmbeddingDim (expected actual : Nat)
  deriving DecidableEq

/-- What fails in the tables during one call. -/
structure Faults (E : Type) where
  get : Option E
  upsert : Option E

/-- A failed content write leaves the file of the id in any state. -/
structure ContentFaults (E : Type) extends Faults E where
  write : Option (E × Option Bytes)

def Faults.none {E : Type} : Faults E := ⟨.none, .none⟩

def ContentFaults.none {E : Type} : ContentFaults E := ⟨.none, .none⟩

/-! ### Content-backed records -/

abbrev Files := Std.ExtTreeMap String Bytes compare

/-- A metadata table with a content file for each id. -/
structure Backed {R : Type} (id : R → String) where
  records : KeyedMap id
  files : Files

section Backed

variable {R E : Type} [VersionedRecord R] {id : R → String} (blake3 : Bytes → Hash)

/-- The content stores of both kinds check the id, write the file, and what is left to do may fail too. -/
def writeContent (invalid : InvalidResourceId → E) (fault : Option (E × Option Bytes)) (files : Files)
    (id : String) (content : Bytes) : Files × Except E Unit :=
  match validate id with
  | .error error => (files, .error (invalid error))
  | .ok () =>
    match fault with
    | some (error, left) => (files.alter id fun _ => left, .error error)
    | none => (files.insert id content, .ok ())

/-- The content is rewritten when no record or a record of another content is there. -/
def rewrites (held : Option R) (record : R) : Bool :=
  held.all fun stored => VersionedRecord.contentHash stored ≠ VersionedRecord.contentHash record

/-- The pipeline of content-backed records: content first, then the record. -/
def applyContent (mismatch : E) (invalid : InvalidResourceId → E) (faults : ContentFaults E)
    (store : Backed id) (record : R) (content : Bytes) : Backed id × Except E Bool :=
  if content.isEmpty then (store, .ok false)
  else if !verifyContentHash (hashContent blake3 content) (VersionedRecord.contentHash record) then
    (store, .error mismatch)
  else match faults.get with
    | some error => (store, .error error)
    | none =>
      let held := store.records.get? (id record)
      if !shouldApplyVersioned held record then (store, .ok false)
      else
        let written :=
          if rewrites held record then writeContent invalid faults.write store.files (id record) content
          else (store.files, .ok ())
        match written.2, faults.upsert with
        | .error error, _ => ({ store with files := written.1 }, .error error)
        | .ok (), some error => ({ store with files := written.1 }, .error error)
        | .ok (), none => ({ records := store.records.insert record, files := written.1 }, .ok true)

end Backed

/-! ### The domains -/

structure WorkspaceDomain where
  workspaces : KeyedMap WorkspaceRecord.id
  skills : Backed VersionedResource.id
  rules : Backed VersionedResource.id

abbrev ExtensionDomain := Backed ExtensionRecord.id

structure AgentDomain where
  memory : KeyedMap MemoryEntry.id

/-- The dimension every memory table is made with. -/
def defaultEmbeddingDim : Nat := 384

structure Storage where
  agent : AgentDomain
  workspace : WorkspaceDomain
  extensions : ExtensionDomain

def Storage.empty : Storage where
  agent := ⟨.empty⟩
  workspace := ⟨.empty, ⟨.empty, ∅⟩, ⟨.empty, ∅⟩⟩
  extensions := ⟨.empty, ∅⟩

/-! ### Workspaces

`encode` is the postcard layout of a record: varints, sized text, sequences behind their length, an
option behind its tag. -/

namespace Postcard

def str (text : String) : Bytes := varint (asBytes text).length ++ asBytes text

def seq {α : Type} (encode : α → Bytes) (items : List α) : Bytes :=
  varint items.length ++ items.flatMap encode

def option {α : Type} (encode : α → Bytes) : Option α → Bytes
  | none => [0]
  | some value => 1 :: encode value

def scope : ResourceScope → Bytes
  | .nodeLocal => varint 0
  | .clusterShared => varint 1

end Postcard

namespace WorkspaceRecord

open Postcard in
def encode (record : WorkspaceRecord) : Bytes :=
  str record.id ++ str record.root ++ seq str record.sessionIds ++
    seq (fun entry => str entry.1 ++ str entry.2) record.metadata.toList ++ Postcard.scope record.scope ++
    option str record.sourceNodeId ++ varint record.version.toNat ++ str record.contentHash ++
    varint (zigzag record.createdAtMs) ++ varint (zigzag record.updatedAtMs)

def computeContentHash (blake3 : Bytes → Hash) (record : WorkspaceRecord) : String :=
  hashContent blake3 { record with updatedAtMs := 0, contentHash := "" }.encode

end WorkspaceRecord

variable (blake3 : Bytes → Hash)

/-- The workspace table stamps the hash itself. -/
def upsertWorkspace (table : KeyedMap WorkspaceRecord.id) (record : WorkspaceRecord) :
    KeyedMap WorkspaceRecord.id :=
  table.insert { record with contentHash := record.computeContentHash blake3 }

namespace WorkspaceDomain

def applyRemoteResource (faults : ContentFaults WorkspaceStorageError)
    (store : Backed VersionedResource.id) (record : VersionedResource) (content : String) :
    Backed VersionedResource.id × Except WorkspaceStorageError Bool :=
  applyContent blake3 .hashMismatch .invalidResourceId faults store record (asBytes content)

def applyRemoteSkill (faults : ContentFaults WorkspaceStorageError) (domain : WorkspaceDomain)
    (record : VersionedResource) (content : String) :
    WorkspaceDomain × Except WorkspaceStorageError Bool :=
  let applied := applyRemoteResource blake3 faults domain.skills record content
  ({ domain with skills := applied.1 }, applied.2)

def applyRemoteRule (faults : ContentFaults WorkspaceStorageError) (domain : WorkspaceDomain)
    (record : VersionedResource) (content : String) :
    WorkspaceDomain × Except WorkspaceStorageError Bool :=
  let applied := applyRemoteResource blake3 faults domain.rules record content
  ({ domain with rules := applied.1 }, applied.2)

def applyRemoteWorkspace (faults : Faults WorkspaceStorageError) (domain : WorkspaceDomain)
    (record : WorkspaceRecord) : WorkspaceDomain × Except WorkspaceStorageError Bool :=
  if !verifyContentHash (record.computeContentHash blake3) record.contentHash then
    (domain, .error .hashMismatch)
  else match faults.get with
    | some error => (domain, .error error)
    | none =>
      if !shouldApplyVersioned (domain.workspaces.get? record.id) record then (domain, .ok false)
      else match faults.upsert with
        | some error => (domain, .error error)
        | none => ({ domain with workspaces := upsertWorkspace blake3 domain.workspaces record }, .ok true)

end WorkspaceDomain

namespace ExtensionDomain

def applyRemoteExtension (faults : ContentFaults ExtensionStorageError) (domain : ExtensionDomain)
    (record : ExtensionRecord) (artifact : Bytes) : ExtensionDomain × Except ExtensionStorageError Bool :=
  applyContent blake3 .hashMismatch .invalidResourceId faults domain record artifact

end ExtensionDomain

namespace AgentDomain

/-- The row as a read gives it back: an empty source id reads as none. -/
def storedEntry (entry : MemoryEntry) : MemoryEntry :=
  { entry with sourceNodeId := entry.sourceNodeId.filter fun id => !id.isEmpty }

def store (fault : Option AgentStorageError) (domain : AgentDomain) (entry : MemoryEntry) :
    AgentDomain × Except AgentStorageError Unit :=
  if entry.embedding.length ≠ defaultEmbeddingDim then
    (domain, .error (.invalidEmbeddingDim defaultEmbeddingDim entry.embedding.length))
  else match fault with
    | some error => (domain, .error error)
    | none => (⟨domain.memory.insert (storedEntry entry)⟩, .ok ())

def applyRemoteMemory (faults : Faults AgentStorageError) (domain : AgentDomain) (entry : MemoryEntry) :
    AgentDomain × Except AgentStorageError Bool :=
  if entry.content.isEmpty then (domain, .ok false)
  else if !verifyContentHash (hashContent blake3 entry.content) entry.contentHash then
    (domain, .error .hashMismatch)
  else match faults.get with
    | some error => (domain, .error error)
    | none =>
      if !shouldApplyVersioned (domain.memory.get? entry.id) entry then (domain, .ok false)
      else
        let stored := store faults.upsert domain entry
        match stored.2 with
        | .error error => (stored.1, .error error)
        | .ok () => (stored.1, .ok true)

end AgentDomain

end Lycoris.Stores
