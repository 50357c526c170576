import Lycoris.Lib.Loop
import Lycoris.Lib.Postcard

/-!
Identifiers, authorization records and the third-party primitives they rest on
(`overlay/src/id.rs`, `overlay/src/identity.rs`, `overlay/src/authorization/record.rs`).
-/

namespace Lycoris.Overlay
open Lib

abbrev Bytes := List UInt8

def ascii (text : String) : Bytes := text.toUTF8.toList

/-- 32 bytes, most significant first. -/
def bytes32 (value : BitVec 256) : Bytes :=
  (List.range 32).map fun i => UInt8.ofNat (value.toNat / 256 ^ (31 - i))

inductive IdKind where
  | cluster | node | record

/-- A 32-byte identifier. The derived order of the byte array is the order of the number it
spells most significant byte first. -/
def Identifier (_ : IdKind) : Type := BitVec 256

abbrev ClusterId := Identifier .cluster
abbrev NodeId := Identifier .node
abbrev RecordId := Identifier .record

namespace Identifier
variable {kind : IdKind}

instance : DecidableEq (Identifier kind) := inferInstanceAs (DecidableEq (BitVec 256))
instance : Ord (Identifier kind) := inferInstanceAs (Ord (BitVec 256))
instance : Std.TransOrd (Identifier kind) := inferInstanceAs (Std.TransOrd (BitVec 256))
instance : Std.LawfulEqOrd (Identifier kind) := inferInstanceAs (Std.LawfulEqOrd (BitVec 256))

def ofNat (n : Nat) : Identifier kind := BitVec.ofNat 256 n

def asBytes (id : Identifier kind) : Bytes := bytes32 id

end Identifier

inductive AuthorizationKind where
  | admission | rotate | recover | revoke
  deriving DecidableEq

inductive KeyState where
  | active | revoked
  deriving DecidableEq

structure RetiredAuthorization where
  identity : RecordId
  actionHead : RecordId
  deriving DecidableEq

structure AuthorizationBody where
  clusterId : ClusterId
  nodeId : NodeId
  peerId : Bytes
  publicKey : Bytes
  initialPublicKey : Bytes
  epoch : UInt64
  kind : AuthorizationKind
  state : KeyState
  predecessor : Option RecordId
  authorizer : Option RecordId
  authorizationPredecessor : Option RecordId
  retires : Option RetiredAuthorization
  deriving DecidableEq

structure AuthorizationRecord where
  id : RecordId
  body : AuthorizationBody
  signature : Bytes
  deriving DecidableEq

inductive IdentityError where
  | keyEncoding
  | signing
  | peerIdMismatch
  | nodeIdMismatch (expected derived : NodeId)
  deriving DecidableEq

inductive AuthorizationError where
  | identity (error : IdentityError)
  | serialization
  | foreignCluster (expected actual : ClusterId)
  | invalidSignature (id : RecordId)
  | invalidRecord (reason : String)
  | missingDependency (id : RecordId)
  | conflictedAuthorizer (id : RecordId)
  | retiredAuthorizer (id : RecordId)
  deriving DecidableEq

/-- What the overlay takes from other crates: the libp2p keys and peer ids, blake3, and the
postcard encodings of a body and of a signed record. -/
structure Primitives where
  PublicKey : Type
  PeerId : Type
  peerIdDecidableEq : DecidableEq PeerId
  decodePublicKey : Bytes → Option PublicKey
  encodePublicKey : PublicKey → Bytes
  toPeerId : PublicKey → PeerId
  peerIdToBytes : PeerId → Bytes
  peerIdFromBytes : Bytes → Option PeerId
  verify : PublicKey → Bytes → Bytes → Bool
  blake3 : Bytes → BitVec 256
  bodyBytes : AuthorizationBody → Option Bytes
  signedBytes : AuthorizationBody → Bytes → Option Bytes

variable (P : Primitives)

instance : DecidableEq P.PeerId := P.peerIdDecidableEq

def domainHash (domain : String) (value : Bytes) : BitVec 256 :=
  P.blake3 (ascii domain ++ [0] ++ value)

def ClusterId.fromGenesis (nodeId : NodeId) : ClusterId :=
  domainHash P "lycoris/cluster-id/1" nodeId.asBytes

def NodeId.fromInitialPublicKey (publicKey : Bytes) : NodeId :=
  domainHash P "lycoris/node-id/1" publicKey

def RecordId.fromSignedRecord (record : Bytes) : RecordId :=
  domainHash P "lycoris/authorization-record/1" record

def decodePublicKey (bytes : Bytes) : Except IdentityError P.PublicKey :=
  okOr (P.decodePublicKey bytes) .keyEncoding

structure PublicIdentity where
  nodeId : NodeId
  peerId : Bytes
  publicKey : Bytes
  initialPublicKey : Bytes
  deriving DecidableEq

def PublicIdentity.isInitialIdentity (identity : PublicIdentity) : Bool :=
  identity.publicKey = identity.initialPublicKey

/-- A node's own identity. The key pair is its public half and its signing operation. -/
structure NodeIdentity where
  nodeId : NodeId
  initialPublicKey : Bytes
  publicKey : P.PublicKey
  signWith : Bytes → Option Bytes

namespace NodeIdentity
variable {P}

def peerId (identity : NodeIdentity P) : P.PeerId := P.toPeerId identity.publicKey

def peerIdBytes (identity : NodeIdentity P) : Bytes := P.peerIdToBytes identity.peerId

def publicIdentity (identity : NodeIdentity P) : PublicIdentity where
  nodeId := identity.nodeId
  peerId := identity.peerIdBytes
  publicKey := P.encodePublicKey identity.publicKey
  initialPublicKey := identity.initialPublicKey

def sign (identity : NodeIdentity P) (message : Bytes) : Except AuthorizationError Bytes :=
  okOr (identity.signWith message) (.identity .signing)

end NodeIdentity

def recordId (body : AuthorizationBody) (signature : Bytes) : Except AuthorizationError RecordId :=
  (okOr (P.signedBytes body signature) .serialization).map (RecordId.fromSignedRecord P)

namespace AuthorizationBody

def active (clusterId : ClusterId) (identity : PublicIdentity) (epoch : UInt64)
    (kind : AuthorizationKind) : AuthorizationBody where
  clusterId := clusterId
  nodeId := identity.nodeId
  peerId := identity.peerId
  publicKey := identity.publicKey
  initialPublicKey := identity.initialPublicKey
  epoch := epoch
  kind := kind
  state := .active
  predecessor := none
  authorizer := none
  authorizationPredecessor := none
  retires := none

def setAuthorizer (body : AuthorizationBody) (identity head : AuthorizationRecord) :
    AuthorizationBody :=
  { body with authorizer := some identity.id, authorizationPredecessor := some head.id }

end AuthorizationBody

namespace AuthorizationRecord

abbrev clusterId (record : AuthorizationRecord) : ClusterId := record.body.clusterId
abbrev nodeId (record : AuthorizationRecord) : NodeId := record.body.nodeId
abbrev peerId (record : AuthorizationRecord) : Bytes := record.body.peerId
abbrev publicKey (record : AuthorizationRecord) : Bytes := record.body.publicKey
abbrev initialPublicKey (record : AuthorizationRecord) : Bytes := record.body.initialPublicKey
abbrev epoch (record : AuthorizationRecord) : UInt64 := record.body.epoch
abbrev kind (record : AuthorizationRecord) : AuthorizationKind := record.body.kind
abbrev state (record : AuthorizationRecord) : KeyState := record.body.state
abbrev predecessor (record : AuthorizationRecord) : Option RecordId := record.body.predecessor
abbrev authorizer (record : AuthorizationRecord) : Option RecordId := record.body.authorizer
abbrev authorizationPredecessor (record : AuthorizationRecord) : Option RecordId :=
  record.body.authorizationPredecessor
abbrev retires (record : AuthorizationRecord) : Option RetiredAuthorization := record.body.retires

def signingBytes (record : AuthorizationRecord) : Except AuthorizationError Bytes :=
  okOr (P.bodyBytes record.body) .serialization

def expectedId (record : AuthorizationRecord) : Except AuthorizationError RecordId :=
  recordId P record.body record.signature

variable {P}

def sign (body : AuthorizationBody) (signer : NodeIdentity P) :
    Except AuthorizationError AuthorizationRecord := do
  let bytes ← okOr (P.bodyBytes body) .serialization
  let signature ← signer.sign bytes
  let id ← recordId P body signature
  return { id, body, signature }

def genesis (identity : NodeIdentity P) :
    Except AuthorizationError (ClusterId × AuthorizationRecord) := do
  let clusterId := ClusterId.fromGenesis P identity.nodeId
  let record ← sign (.active clusterId identity.publicIdentity 0 .admission) identity
  return (clusterId, record)

/-- `AuthorizationRecord::admit`. -/
def admitIdentity (clusterId : ClusterId) (identity : PublicIdentity)
    (authorizer authorizerHead : AuthorizationRecord) (signer : NodeIdentity P) :
    Except AuthorizationError AuthorizationRecord :=
  sign ((AuthorizationBody.active clusterId identity 0 .admission).setAuthorizer
    authorizer authorizerHead) signer

def successorBody (previous : AuthorizationRecord) (successor : NodeIdentity P)
    (kind : AuthorizationKind) : AuthorizationBody :=
  { AuthorizationBody.active previous.clusterId successor.publicIdentity (previous.epoch + 1) kind with
    predecessor := some previous.id }

def rotate (previous previousActionHead : AuthorizationRecord) (successor signer : NodeIdentity P) :
    Except AuthorizationError AuthorizationRecord :=
  sign ((successorBody previous successor .rotate).setAuthorizer previous previousActionHead) signer

def recover (previous previousActionHead : AuthorizationRecord) (successor : NodeIdentity P)
    (authorizer authorizerHead : AuthorizationRecord) (signer : NodeIdentity P) :
    Except AuthorizationError AuthorizationRecord :=
  let body := (successorBody previous successor .recover).setAuthorizer authorizer authorizerHead
  sign { body with retires := some ⟨previous.id, previousActionHead.id⟩ } signer

def revoke (previous previousActionHead authorizer authorizerHead : AuthorizationRecord)
    (signer : NodeIdentity P) : Except AuthorizationError AuthorizationRecord :=
  let body : AuthorizationBody :=
    { previous.body with
      epoch := previous.epoch + 1, kind := .revoke, state := .revoked,
      predecessor := some previous.id, authorizer := none, authorizationPredecessor := none,
      retires := some ⟨previous.id, previousActionHead.id⟩ }
  sign (body.setAuthorizer authorizer authorizerHead) signer

/-- The records a record names. -/
def dependencies (record : AuthorizationRecord) : List RecordId :=
  record.predecessor.toList ++ record.authorizer.toList ++
    record.authorizationPredecessor.toList ++
    (match record.retires with
      | some retired => [retired.identity, retired.actionHead]
      | none => [])

end AuthorizationRecord

/-! ### Transparent primitives

An instance to evaluate the model with: a key is a byte string and its own encoding, the hash is
a polynomial one, and a signature is the hash of key and message. -/

namespace Transparent

def sized (bytes : Bytes) : Bytes := varint bytes.length ++ bytes

def optional {α : Type} (encode : α → Bytes) : Option α → Bytes
  | none => [0]
  | some value => 1 :: encode value

def kindTag : AuthorizationKind → UInt8
  | .admission => 0
  | .rotate => 1
  | .recover => 2
  | .revoke => 3

def stateTag : KeyState → UInt8
  | .active => 0
  | .revoked => 1

/-- The postcard layout of a body: fields in order, byte vectors and numbers in varints. -/
def bodyBytes (body : AuthorizationBody) : Bytes :=
  body.clusterId.asBytes ++ body.nodeId.asBytes ++ sized body.peerId ++ sized body.publicKey ++
    sized body.initialPublicKey ++ varint body.epoch.toNat ++ [kindTag body.kind, stateTag body.state] ++
    optional Identifier.asBytes body.predecessor ++ optional Identifier.asBytes body.authorizer ++
    optional Identifier.asBytes body.authorizationPredecessor ++
    optional (fun retired => retired.identity.asBytes ++ retired.actionHead.asBytes) body.retires

def hash (bytes : Bytes) : BitVec 256 :=
  BitVec.ofNat 256 (bytes.foldl (fun sum byte => (sum * 6364136223846793005 + byte.toNat + 1) % 2 ^ 256) 1)

def signature (key message : Bytes) : Bytes :=
  bytes32 (hash (key ++ message))

def primitives : Primitives where
  PublicKey := Bytes
  PeerId := Bytes
  peerIdDecidableEq := inferInstance
  decodePublicKey := some
  encodePublicKey := id
  toPeerId key := 0 :: key
  peerIdToBytes := id
  peerIdFromBytes := some
  verify key message bytes := bytes = signature key message
  blake3 := hash
  bodyBytes body := some (bodyBytes body)
  signedBytes body bytes := some (bodyBytes body ++ sized bytes)

/-- The identity that started with the one-byte key `initial` and now holds `key`. -/
def identity (initial key : UInt8) : NodeIdentity primitives where
  nodeId := NodeId.fromInitialPublicKey primitives [initial]
  initialPublicKey := [initial]
  publicKey := [key]
  signWith message := some (signature [key] message)

/-- Signing never fails here. -/
def signed (body : AuthorizationBody) (signer : NodeIdentity primitives) : AuthorizationRecord :=
  let bytes := signature signer.publicKey (bodyBytes body)
  ⟨RecordId.fromSignedRecord primitives (bodyBytes body ++ sized bytes), body, bytes⟩

/-! A cluster of two to run examples on. -/

def founder : NodeIdentity primitives := identity 1 1

def member : NodeIdentity primitives := identity 2 2

def cluster : ClusterId := ClusterId.fromGenesis primitives founder.nodeId

def founding : AuthorizationRecord :=
  signed (.active cluster founder.publicIdentity 0 .admission) founder

def admission : AuthorizationRecord :=
  signed ((AuthorizationBody.active cluster member.publicIdentity 0 .admission).setAuthorizer
    founding founding) founder

/-- The founder revokes the member. -/
def revocation : AuthorizationRecord :=
  signed (AuthorizationBody.setAuthorizer
    { admission.body with
      epoch := 1, kind := .revoke, state := .revoked, predecessor := some admission.id
      retires := some ⟨admission.id, admission.id⟩ }
    founding admission) founder

end Transparent

end Lycoris.Overlay
