import Lycoris.Lib.KeyedMap
import Lycoris.Overlay.Record

/-!
The authorization registry (`overlay/src/authorization/registry.rs`): validation, insertion and
merge, and the queries over the two causal chains. The source's query loops carry no bound of
their own; here each runs under a bound taken from the number of records, and `Queries.lean`
shows that a registry built by insertion never reaches it.
-/

namespace Lycoris.Overlay
open Lib

structure AuthorizationRegistry where
  clusterId : ClusterId
  records : KeyedMap AuthorizationRecord.id

inductive AuthorizationStatus where
  | unknown
  | active (record : AuthorizationRecord)
  | revoked (record : AuthorizationRecord)
  | conflicted (ids : List RecordId)
  deriving DecidableEq

namespace AuthorizationRegistry

def new (clusterId : ClusterId) : AuthorizationRegistry := ⟨clusterId, .empty⟩

instance : Membership AuthorizationRecord AuthorizationRegistry := ⟨fun g r => r ∈ g.records⟩

def record (g : AuthorizationRegistry) (id : RecordId) :
    Except AuthorizationError AuthorizationRecord :=
  okOr (g.records.get? id) (.missingDependency id)

/-! ### Validation -/

def validateActionPredecessor (g : AuthorizationRegistry) (identity : AuthorizationRecord)
    (actionId : RecordId) : Except AuthorizationError Unit :=
  if actionId = identity.id then .ok () else do
    let action ← g.record actionId
    ensure (action.authorizer = some identity.id)
      (.invalidRecord "authorization action belongs to another identity")

def validateRetirement (g : AuthorizationRegistry) (record : AuthorizationRecord) :
    Except AuthorizationError Unit :=
  match record.retires with
  | none => .error (.invalidRecord "missing retired authorization chain")
  | some retired => do
    let identity ← g.record retired.identity
    g.validateActionPredecessor identity retired.actionHead

def validateSuccessor (g : AuthorizationRegistry) (record predecessor : AuthorizationRecord) :
    Except AuthorizationError Unit :=
  let retiresPredecessor := record.retires.any fun retired => retired.identity = predecessor.id
  match record.kind, record.state with
  | .rotate, .active =>
    ensure (record.authorizer = some predecessor.id ∧ record.retires.isNone)
      (.invalidRecord "authorization kind and state disagree")
  | .recover, .active =>
    if retiresPredecessor then g.validateRetirement record
    else .error (.invalidRecord "authorization kind and state disagree")
  | .revoke, .revoked =>
    if retiresPredecessor then g.validateRetirement record
    else .error (.invalidRecord "authorization kind and state disagree")
  | _, _ => .error (.invalidRecord "authorization kind and state disagree")

variable (P : Primitives)

def validateAdmission (record : AuthorizationRecord) : Except AuthorizationError Unit := do
  ensure (record.kind = .admission ∧ record.state = .active ∧ record.epoch = 0 ∧
    record.retires.isNone ∧ record.publicKey = record.initialPublicKey)
    (.invalidRecord "invalid admission record")
  ensure (record.authorizer.isSome ∨ ClusterId.fromGenesis P record.nodeId = record.clusterId)
    (.invalidRecord "invalid self-signed genesis")

/-- `u64::checked_add(1)`. -/
def checkedSucc (n : UInt64) : Option UInt64 :=
  if n.toNat + 1 < 2 ^ 64 then some (n + 1) else none

def validateLineage (g : AuthorizationRegistry) (record : AuthorizationRecord) :
    Except AuthorizationError Unit :=
  match record.predecessor with
  | none => validateAdmission P record
  | some predecessorId => do
    let predecessor ← g.record predecessorId
    ensure (predecessor.nodeId = record.nodeId ∧ predecessor.clusterId = record.clusterId ∧
      checkedSucc predecessor.epoch = some record.epoch)
      (.invalidRecord "invalid predecessor chain")
    g.validateSuccessor record predecessor

def decodeKey (bytes : Bytes) : Except AuthorizationError P.PublicKey :=
  match decodePublicKey P bytes with
  | .ok key => .ok key
  | .error error => .error (.identity error)

/-- The key a record has to be signed with: its authorizer's, or its own without one. -/
def signingKey (g : AuthorizationRegistry) (record : AuthorizationRecord)
    (publicKey : P.PublicKey) : Except AuthorizationError P.PublicKey :=
  match record.authorizer, record.authorizationPredecessor with
  | some identityId, some actionId => do
    let identity ← g.record identityId
    g.validateActionPredecessor identity actionId
    decodeKey P identity.publicKey
  | none, none => .ok publicKey
  | _, _ => .error (.invalidRecord "incomplete authorizer chain")

def validate (g : AuthorizationRegistry) (record : AuthorizationRecord) :
    Except AuthorizationError Unit := do
  ensure (record.clusterId = g.clusterId) (.foreignCluster g.clusterId record.clusterId)
  let expected ← record.expectedId P
  ensure (expected = record.id) (.invalidRecord "record id does not match its signed body")
  let publicKey ← decodeKey P record.publicKey
  ensure (P.peerIdToBytes (P.toPeerId publicKey) = record.peerId)
    (.invalidRecord "peer id does not match public key")
  ensure (NodeId.fromInitialPublicKey P record.initialPublicKey = record.nodeId)
    (.invalidRecord "initial public key does not match node id")
  g.validateLineage P record
  let signingKey ← g.signingKey P record publicKey
  let bytes ← record.signingBytes P
  ensure (P.verify signingKey bytes record.signature) (.invalidSignature record.id)

/-! ### Insertion and merge -/

def insert (g : AuthorizationRegistry) (record : AuthorizationRecord) :
    Except AuthorizationError Bool × AuthorizationRegistry :=
  if g.records.contains record.id then (.ok false, g)
  else match g.validate P record with
    | .error error => (.error error, g)
    | .ok () => (.ok true, { g with records := g.records.insert record })

structure MergeRound where
  registry : AuthorizationRegistry
  inserted : Nat
  deferred : List AuthorizationRecord
  missing : Option RecordId

/-- The `for` loop of one round. An error other than a missing dependency leaves it with the
registry as it is at that point. -/
def mergeRound : List AuthorizationRecord → MergeRound →
    Except (AuthorizationError × AuthorizationRegistry) MergeRound
  | [], round => .ok round
  | record :: pending, round =>
    match round.registry.insert P record with
    | (.ok wasInserted, registry) =>
      mergeRound pending { round with registry, inserted := round.inserted + wasInserted.toNat }
    | (.error (.missingDependency id), registry) =>
      mergeRound pending
        { round with registry, missing := some id, deferred := round.deferred ++ [record] }
    | (.error error, registry) => .error (error, registry)

theorem mergeRound_deferred_length {pending : List AuthorizationRecord} {start round : MergeRound}
    (h : mergeRound P pending start = .ok round) :
    round.deferred.length ≤ start.deferred.length + pending.length := by
  induction pending generalizing start with
  | nil => cases h; simp
  | cons record pending ih =>
    simp only [mergeRound] at h
    split at h
    · have := ih h
      simp only [List.length_cons] at this ⊢
      omega
    · have := ih h
      simp only [List.length_append, List.length_cons, List.length_nil] at this ⊢
      omega
    · cases h

def mergeRounds (registry : AuthorizationRegistry) (pending : List AuthorizationRecord)
    (inserted : Nat) : Except AuthorizationError Nat × AuthorizationRegistry :=
  if pending.isEmpty then (.ok inserted, registry)
  else
    match _result : mergeRound P pending ⟨registry, inserted, [], none⟩ with
    | .error (error, registry) => (.error error, registry)
    | .ok round =>
      if _stuck : round.deferred.length = pending.length then
        match round.missing with
        | some id => (.error (.missingDependency id), round.registry)
        | none => (.error (.invalidRecord "unresolvable authorization graph"), round.registry)
      else mergeRounds round.registry round.deferred round.inserted
termination_by pending.length
decreasing_by
  have := mergeRound_deferred_length P _result
  simp only [List.length_nil] at this
  omega

def merge (g : AuthorizationRegistry) (records : List AuthorizationRecord) :
    Except AuthorizationError Nat × AuthorizationRegistry :=
  mergeRounds P g records 0

def fromRecords (clusterId : ClusterId) (records : List AuthorizationRecord) :
    Except AuthorizationError AuthorizationRegistry :=
  match (new clusterId).merge P records with
  | (.ok _, registry) => .ok registry
  | (.error error, _) => .error error

/-! ### The two causal chains -/

def roots (g : AuthorizationRegistry) (nodeId : NodeId) : List AuthorizationRecord :=
  g.records.vals.filter fun record => record.nodeId = nodeId && record.predecessor.isNone

def children (g : AuthorizationRegistry) (id : RecordId) : List AuthorizationRecord :=
  g.records.vals.filter fun record => record.predecessor = some id

/-- `record` continues `identity`'s chain of actions right after `action`. -/
def actsAfter (identity action : RecordId) (record : AuthorizationRecord) : Bool :=
  (record.authorizer = some identity && record.authorizationPredecessor = some action) ||
    record.retires.any fun retired => retired.identity = identity && retired.actionHead = action

/-- The map yields its records in id order, so collecting the ids in a set and looking them up
again is the filter itself. -/
def actionSuccessors (g : AuthorizationRegistry) (identity action : RecordId) :
    List AuthorizationRecord :=
  g.records.vals.filter (actsAfter identity action)

def terminatesIdentity (record : AuthorizationRecord) (identity : RecordId) : Bool :=
  (record.kind = .rotate && record.predecessor = some identity &&
    record.authorizer = some identity) ||
    record.retires.any fun retired => retired.identity = identity

def actionPathTurn (g : AuthorizationRegistry) (identity target current : RecordId) :
    Turn RecordId Bool :=
  match g.actionSuccessors identity current with
  | [next] =>
    if next.id = target then .done true
    else if terminatesIdentity next identity then .done false
    else .next next.id
  | _ => .done false

def actionPathContains? (g : AuthorizationRegistry) (identity target : RecordId) : Option Bool :=
  if identity = target then some true
  else loop (fun current => some (g.actionPathTurn identity target current))
    (g.records.size + 1) identity

def identityTurn (g : AuthorizationRegistry) (effective : AuthorizationRecord → Option Bool)
    (identity current : AuthorizationRecord) : Option (Turn AuthorizationRecord Bool) :=
  match effective current with
  | none => none
  | some false => some (.done false)
  | some true =>
    if current.id = identity.id then some (.done true)
    else match g.children current.id with
      | [next] => some (.next next)
      | _ => some (.done false)

/-- `identity_record_is_effective`, over the `record_is_effective` it calls. -/
def identityRecordIsEffective? (g : AuthorizationRegistry)
    (effective : AuthorizationRecord → Option Bool) (identity : AuthorizationRecord) :
    Option Bool :=
  if identity.state ≠ .active then some false
  else match g.roots identity.nodeId with
    | [root] => loop (g.identityTurn effective identity) (g.records.size + 1) root
    | _ => some false

/-- The first half of `record_is_effective`: the record is on its authorizer's chain of actions
and the authorizer is itself effective. -/
def signedOnUniqueChain? (g : AuthorizationRegistry)
    (effective : AuthorizationRecord → Option Bool) (record : AuthorizationRecord) : Option Bool :=
  match record.authorizer with
  | none => some true
  | some identityId =>
    match g.actionPathContains? identityId record.id with
    | some true =>
      match g.records.get? identityId with
      | some identity => g.identityRecordIsEffective? effective identity
      | none => some false
    | answer => answer

def retiresOnUniqueChain? (g : AuthorizationRegistry) (record : AuthorizationRecord) : Option Bool :=
  match record.retires with
  | some retired => g.actionPathContains? retired.identity record.id
  | none => some true

/-- `record_is_effective`, recursing at most `depth` times through authorizers. -/
def effectiveAt (g : AuthorizationRegistry) : Nat → AuthorizationRecord → Option Bool
  | 0, _ => none
  | depth + 1, record =>
    match g.signedOnUniqueChain? (g.effectiveAt depth) record with
    | some true => g.retiresOnUniqueChain? record
    | answer => answer

def recordIsEffective? (g : AuthorizationRegistry) (record : AuthorizationRecord) : Option Bool :=
  g.effectiveAt (g.records.size + 1) record

def recordIsEffective (g : AuthorizationRegistry) (record : AuthorizationRecord) : Bool :=
  (g.recordIsEffective? record).getD false

def ids (records : List AuthorizationRecord) : List RecordId := records.map AuthorizationRecord.id

def statusTurn (g : AuthorizationRegistry) (current : AuthorizationRecord) :
    Option (Turn AuthorizationRecord AuthorizationStatus) :=
  match g.recordIsEffective? current with
  | none => none
  | some false => some (.done (.conflicted [current.id]))
  | some true =>
    match g.children current.id with
    | [] =>
      match current.state with
      | .active => some (.done (.active current))
      | .revoked => some (.done (.revoked current))
    | [next] => some (.next next)
    | conflicts => some (.done (.conflicted (ids conflicts)))

def status? (g : AuthorizationRegistry) (nodeId : NodeId) : Option AuthorizationStatus :=
  match g.roots nodeId with
  | [] => some .unknown
  | [root] => loop g.statusTurn (g.records.size + 1) root
  | roots => some (.conflicted (ids roots))

def status (g : AuthorizationRegistry) (nodeId : NodeId) : AuthorizationStatus :=
  (g.status? nodeId).getD (.conflicted [])

def headTurn (g : AuthorizationRegistry) (identityId : RecordId) (current : AuthorizationRecord) :
    Turn AuthorizationRecord (Except AuthorizationError AuthorizationRecord) :=
  match g.actionSuccessors identityId current.id with
  | [] => .done (.ok current)
  | [next] =>
    if terminatesIdentity next identityId then .done (.error (.retiredAuthorizer identityId))
    else .next next
  | _ => .done (.error (.conflictedAuthorizer identityId))

def authorizerHead? (g : AuthorizationRegistry) (identity : AuthorizationRecord) :
    Option (Except AuthorizationError AuthorizationRecord) :=
  match g.record identity.id with
  | .error error => some (.error error)
  | .ok start => loop (fun current => some (g.headTurn identity.id current))
      (g.records.size + 1) start

def authorizerHead (g : AuthorizationRegistry) (identity : AuthorizationRecord) :
    Except AuthorizationError AuthorizationRecord :=
  (g.authorizerHead? identity).getD (.error (.conflictedAuthorizer identity.id))

/-! ### Peers -/

def nodesForPeer (g : AuthorizationRegistry) (peerId : P.PeerId) : List NodeId :=
  g.records.vals.filterMap fun record =>
    match g.status record.nodeId with
    | .active active => if active.peerId = P.peerIdToBytes peerId then some active.nodeId else none
    | _ => none

def nodeForPeer (g : AuthorizationRegistry) (peerId : P.PeerId) : Option NodeId :=
  match (g.nodesForPeer P peerId).dedup with
  | [nodeId] => some nodeId
  | _ => none

def activeRecordForNode (g : AuthorizationRegistry) (nodeId : NodeId) :
    Option AuthorizationRecord :=
  match g.status nodeId with
  | .active record => some record
  | _ => none

def activePeerForNode (g : AuthorizationRegistry) (nodeId : NodeId) : Option P.PeerId := do
  let record ← g.activeRecordForNode nodeId
  let peerId ← P.peerIdFromBytes record.peerId
  if g.nodeForPeer P peerId = some nodeId then some peerId else none

end AuthorizationRegistry

/-- A call that may change a registry. -/
inductive RegistryCall where
  | insert (record : AuthorizationRecord)
  | merge (records : List AuthorizationRecord)

namespace RegistryCall
variable (P : Primitives)

def offered : RegistryCall → List AuthorizationRecord
  | .insert record => [record]
  | .merge records => records

/-- The registry after the call, whether it succeeded or not. -/
def apply (g : AuthorizationRegistry) : RegistryCall → AuthorizationRegistry
  | .insert record => (g.insert P record).2
  | .merge records => (g.merge P records).2

end RegistryCall

/-- The registry after a sequence of calls. -/
def AuthorizationRegistry.replay (P : Primitives) (g : AuthorizationRegistry)
    (calls : List RegistryCall) : AuthorizationRegistry :=
  calls.foldl (RegistryCall.apply P) g

end Lycoris.Overlay
