import Lycoris.Daemon.Exchange
import Lycoris.Lib.Loop

/-!
Records on their way over the wire and back (`daemon/src/resource/convert.rs`). The wire has one string for
the source node, and the empty one stands for none, so a record comes back as it was when its source is not
the empty one; a workspace hashes over its source, the other kinds over their content alone.
-/

namespace Lycoris.Daemon
open Lib Cluster Stores

/-! ### Paths -/

/-- A path as `serde` writes it into storage: as text, and not at all where it is none. -/
def serializePath (path : Bytes) : Option String := readToString path

/-- `Path::to_string_lossy`. What is no text is `replaced`. -/
def toStringLossy (replaced : Bytes → String) (path : Bytes) : String :=
  (readToString path).getD (replaced path)

theorem asBytes_of_readToString {bytes : Bytes} {text : String} (read : readToString bytes = some text) :
    asBytes text = bytes := by
  unfold readToString String.fromUTF8? at read
  split at read
  · cases read
    rfl
  · cases read

/-- A root that can be stored is the same path on the other side. -/
theorem root_across {path : Bytes} {root : String} (storable : serializePath path = some root)
    (replaced : Bytes → String) :
    toStringLossy replaced path = root ∧ asBytes (toStringLossy replaced path) = path := by
  have text : toStringLossy replaced path = root := by
    unfold toStringLossy
    rw [show readToString path = some root from storable, Option.getD_some]
  exact ⟨text, by rw [text]; exact asBytes_of_readToString storable⟩

/-! ### There and back -/

/-- A resource taken back apart by the conversion of the body it carries. -/
def fromWire (resource : Resource) : Except MapperError Arrival := do
  let metadata ← okOr resource.metadata .missingMetadata
  match resource.body with
  | some (.memory body) => return .memory (← resourceToMemory metadata body)
  | some (.skill body) => return .skill (← resourceToSkill metadata body) body.content
  | some (.rule body) => return .rule (← resourceToRule metadata body) body.content
  | some (.workspace body) => return .workspace (← resourceToWorkspace metadata body)
  | some (.extension body) => return .extension (← resourceToExtension metadata body) body.artifact
  | some .node => throw (.notSynchronized .node)
  | some .session => throw (.notSynchronized .session)
  | none => throw (.missingBody .node metadata.id)

end Lycoris.Daemon

namespace Lycoris.Stores.Arrival
open Cluster

def sourceNodeId : Arrival → Option String
  | memory entry => entry.sourceNodeId
  | skill record _ => record.sourceNodeId
  | rule record _ => record.sourceNodeId
  | workspace record => record.sourceNodeId
  | extension record _ => record.sourceNodeId

/-- The content hash as a receiver recomputes it. -/
def recomputedHash (blake3 : Bytes → Hash) : Arrival → String
  | memory entry => hashContent blake3 entry.content
  | skill _ content => hashContent blake3 (asBytes content)
  | rule _ content => hashContent blake3 (asBytes content)
  | workspace record => record.computeContentHash blake3
  | extension _ artifact => hashContent blake3 artifact

end Lycoris.Stores.Arrival

namespace Lycoris.Daemon
open Lib Cluster Stores

variable {blake3 : Bytes → Hash}

theorem fromWire_wire (arrival : Arrival) : fromWire (wire arrival) = .ok (acrossWire arrival) := by
  cases arrival with
  | memory entry =>
    obtain ⟨id, content, embedding, metadata, scope, source, created, updated, hash, version⟩ := entry
    cases scope <;> rfl
  | skill record content =>
    obtain ⟨id, name, version, hash, scope, source, created, updated, metadata⟩ := record
    cases scope <;> rfl
  | rule record content =>
    obtain ⟨id, name, version, hash, scope, source, created, updated, metadata⟩ := record
    cases scope <;> rfl
  | workspace record =>
    obtain ⟨id, root, sessions, metadata, scope, source, version, hash, created, updated⟩ := record
    cases scope <;> rfl
  | extension record artifact =>
    obtain ⟨id, name, version, engine, entry, hash, scope, source, created, updated, manifest, labels⟩ := record
    cases scope <;> rfl

theorem acrossWire_eq {arrival : Arrival} (named : arrival.sourceNodeId ≠ some "") :
    acrossWire arrival = arrival := by
  cases arrival with
  | memory entry =>
    have source : entry.sourceNodeId ≠ some "" := named
    rw [acrossWire, sourceOnWire_named source]
  | skill record content =>
    have source : record.sourceNodeId ≠ some "" := named
    rw [acrossWire, sourceOnWire_named source]
  | rule record content =>
    have source : record.sourceNodeId ≠ some "" := named
    rw [acrossWire, sourceOnWire_named source]
  | workspace record =>
    have source : record.sourceNodeId ≠ some "" := named
    rw [acrossWire, sourceOnWire_named source]
  | extension record artifact =>
    have source : record.sourceNodeId ≠ some "" := named
    rw [acrossWire, sourceOnWire_named source]

/-- Only a workspace hashes over the source that may change on the way. -/
theorem recomputedHash_acrossWire {arrival : Arrival} (named : SourceNamed arrival.row) :
    (acrossWire arrival).recomputedHash blake3 = arrival.recomputedHash blake3 := by
  cases arrival with
  | workspace record =>
    have source : (Arrival.workspace record).sourceNodeId ≠ some "" := named
    rw [acrossWire_eq source]
  | memory entry => rfl
  | skill record content => rfl
  | rule record content => rfl
  | extension record artifact => rfl

/-- Every record comes back with an empty source read as none, so as it was when its source is not the empty
one; its version, clock and content hash are the sender's, and the hash the receiver computes is the one the
sender's store computed unless the record is a workspace with an empty source. -/
theorem wire_round_trip (blake3 : Bytes → Hash) :
    (∀ arrival : Arrival, ∃ received : Arrival, fromWire (wire arrival) = .ok received ∧
      received = acrossWire arrival ∧
      (arrival.sourceNodeId ≠ some "" → received = arrival) ∧
      stamp received.row = stamp arrival.row ∧
      (SourceNamed arrival.row → arrival.recomputedHash blake3 = arrival.row.contentHash →
        received.recomputedHash blake3 = arrival.row.contentHash)) ∧
    ∀ (replaced : Bytes → String) (path : Bytes) (root : String), serializePath path = some root →
      toStringLossy replaced path = root ∧ asBytes (toStringLossy replaced path) = path := by
  refine ⟨fun arrival => ⟨acrossWire arrival, fromWire_wire arrival, rfl, acrossWire_eq,
    acrossWire_stamp arrival, ?_⟩, fun replaced path root storable => root_across storable replaced⟩
  intro named stored
  rw [recomputedHash_acrossWire named]
  exact stored

/-- A skill of a node that has no name. -/
def namelessSkill : VersionedResource where
  id := "skill"
  name := "skill"
  version := 1
  contentHash := hashContent sampleDigest (asBytes "a")
  scope := .clusterShared
  sourceNodeId := some ""
  createdAtMs := 1
  updatedAtMs := 1
  metadata := ∅

theorem named_skill_returns :
    ∃ received, fromWire (wire (.skill { namelessSkill with sourceNodeId := some "node" } "a")) = .ok received ∧
      received = .skill { namelessSkill with sourceNodeId := some "node" } "a" ∧
      received.recomputedHash sampleDigest = namelessSkill.contentHash := by
  obtain ⟨received, sent, _, same, _, hashed⟩ := (wire_round_trip sampleDigest).1
    (.skill { namelessSkill with sourceNodeId := some "node" } "a")
  exact ⟨received, sent, same (by decide), hashed trivial rfl⟩

theorem nameless_source_lost :
    fromWire (wire (.skill namelessSkill "a")) = .ok (.skill { namelessSkill with sourceNodeId := none } "a") ∧
      fromWire (wire (.skill namelessSkill "a")) ≠ .ok (.skill namelessSkill "a") := by
  have lost : fromWire (wire (.skill namelessSkill "a")) =
      .ok (.skill { namelessSkill with sourceNodeId := none } "a") := fromWire_wire (.skill namelessSkill "a")
  refine ⟨lost, fun kept => ?_⟩
  rw [lost] at kept
  have same := congrArg Arrival.sourceNodeId (Except.ok.inj kept)
  cases same

end Lycoris.Daemon
