import Lycoris.Overlay.Registry

/-!
Admission of candidates by a sponsor (`overlay/src/admission.rs`). Every operation returns its
result and the enrollment it leaves. Nonces come from the system's random source, so `begin` takes
the outcome of that call; the postcard encoding of a transcript and HMAC are parameters.
-/

namespace Lycoris.Overlay
open Lib

/-- 32 random bytes. -/
abbrev Nonce := BitVec 256

def maxQuarantined : Nat := 128

structure AdmissionCandidate where
  identity : PublicIdentity
  nonce : Nonce
  deriving DecidableEq

structure AdmissionChallenge where
  clusterId : ClusterId
  sponsorNodeId : NodeId
  sponsorPeerId : Bytes
  nonce : Nonce
  deriving DecidableEq

structure JoinProof where
  candidate : AdmissionCandidate
  challenge : AdmissionChallenge
  mac : Bytes
  deriving DecidableEq

inductive AdmissionError where
  | authorization (error : AuthorizationError)
  | serialization
  | randomGeneration
  | nonInitialIdentity (nodeId : NodeId)
  | candidatePeerMismatch (nodeId : NodeId)
  | identityConflict (nodeId : NodeId)
  | unknownCandidate (nodeId : NodeId)
  | proofMismatch (nodeId : NodeId)
  | invalidJoinProof
  | joinKeyRequired
  | quarantineFull
  | sponsorNotAuthorized (nodeId : NodeId)
  | sponsorPeerMismatch
  | sponsorPeerNotAuthorized
  | outcomeIdentityMismatch (nodeId : NodeId)
  | sponsorMismatch (expected actual : NodeId)
  deriving DecidableEq

def protocolVersion : UInt16 := 1

/-- `hmac key message` is the tag of HMAC-SHA256; `transcriptBytes` encodes the fields a proof
covers. -/
structure AdmissionPrimitives where
  hmac : Bytes → Bytes → Bytes
  transcriptBytes : UInt16 → ClusterId → Bytes → Bytes → Nonce → Nonce → NodeId → NodeId → Option Bytes

section Proof
variable (A : AdmissionPrimitives)

def proofTranscript (candidate : AdmissionCandidate) (challenge : AdmissionChallenge) :
    Except AdmissionError Bytes :=
  okOr (A.transcriptBytes protocolVersion challenge.clusterId candidate.identity.peerId
    challenge.sponsorPeerId candidate.nonce challenge.nonce candidate.identity.nodeId
    challenge.sponsorNodeId) .serialization

namespace JoinProof

def create (joinKey : Bytes) (candidate : AdmissionCandidate) (challenge : AdmissionChallenge) :
    Except AdmissionError JoinProof := do
  let transcript ← proofTranscript A candidate challenge
  return { candidate, challenge, mac := A.hmac joinKey transcript }

def verify (proof : JoinProof) (joinKey : Bytes) : Except AdmissionError Unit := do
  let transcript ← proofTranscript A proof.candidate proof.challenge
  ensure (proof.mac = A.hmac joinKey transcript) .invalidJoinProof

end JoinProof

end Proof

structure EnrollmentOutcome where
  record : AuthorizationRecord
  records : List AuthorizationRecord
  deriving DecidableEq

structure PendingAdmission where
  candidate : AdmissionCandidate
  challenge : AdmissionChallenge
  sponsorNodeId : NodeId
  resumeRecord : Option RecordId
  deriving DecidableEq

abbrev PendingAdmission.nodeId (pending : PendingAdmission) : NodeId := pending.candidate.identity.nodeId

structure Enrollment where
  registry : AuthorizationRegistry
  joinKey : Option Bytes
  quarantined : KeyedMap PendingAdmission.nodeId

def recordMatchesIdentity (record : AuthorizationRecord) (identity : PublicIdentity) : Bool :=
  record.nodeId = identity.nodeId && record.peerId = identity.peerId &&
    record.publicKey = identity.publicKey && record.initialPublicKey = identity.initialPublicKey

/-- An authorization error met inside an admission. -/
def liftAuthorization {α : Type} : Except AuthorizationError α → Except AdmissionError α
  | .ok value => .ok value
  | .error error => .error (.authorization error)

/-- `AdmissionOutcome`, which the sponsor fills from its `EnrollmentOutcome`: what the joiner checks
before it adopts the checkpoint. -/
def EnrollmentOutcome.validateFor (P : Primitives) (outcome : EnrollmentOutcome)
    (candidate : AdmissionCandidate) (challenge : AdmissionChallenge) (authenticatedSponsor : P.PeerId) :
    Except AdmissionError AuthorizationRegistry := do
  ensure (challenge.sponsorPeerId = P.peerIdToBytes authenticatedSponsor) .sponsorPeerMismatch
  let registry ← liftAuthorization (AuthorizationRegistry.fromRecords P challenge.clusterId outcome.records)
  let sponsorNodeId ← okOr (registry.nodeForPeer P authenticatedSponsor) .sponsorPeerNotAuthorized
  ensure (sponsorNodeId = challenge.sponsorNodeId) .sponsorPeerMismatch
  let identity := candidate.identity
  let mismatch := AdmissionError.outcomeIdentityMismatch identity.nodeId
  let active ← okOr (registry.activeRecordForNode identity.nodeId) mismatch
  let activePeer ← okOr (registry.activePeerForNode P identity.nodeId) mismatch
  ensure (active.id = outcome.record.id ∧ recordMatchesIdentity outcome.record identity = true ∧
    P.peerIdToBytes activePeer = identity.peerId) mismatch
  return registry

namespace Enrollment
variable {P : Primitives}

def new (registry : AuthorizationRegistry) (joinKey : Option Bytes) : Enrollment :=
  ⟨registry, joinKey, .empty⟩

def adoptRegistry (e : Enrollment) (registry : AuthorizationRegistry) : Enrollment :=
  { e with registry, quarantined := .empty }

def mergeCheckpoint (P : Primitives) (e : Enrollment) (records : List AuthorizationRecord) :
    Except AuthorizationError Nat × Enrollment :=
  match e.registry.merge P records with
  | (result, registry) => (result, { e with registry })

def ensureAuthenticatedPeer (candidate : AdmissionCandidate) (authenticatedPeer : P.PeerId) :
    Except AdmissionError Unit :=
  ensure (candidate.identity.peerId = P.peerIdToBytes authenticatedPeer)
    (.candidatePeerMismatch candidate.identity.nodeId)

def ensureSponsor (e : Enrollment) (sponsor : NodeIdentity P) :
    Except AdmissionError AuthorizationRecord := do
  let unauthorized := AdmissionError.sponsorNotAuthorized sponsor.nodeId
  let peerId ← okOr ((e.registry.activePeerForNode P sponsor.nodeId).filter (· = sponsor.peerId))
    unauthorized
  let record ← okOr (e.registry.activeRecordForNode sponsor.nodeId) unauthorized
  ensure (record.peerId = P.peerIdToBytes peerId) unauthorized
  return record

/-- The record a known candidate resumes, or `none` for a new one. -/
def resumeRecord (e : Enrollment) (candidate : AdmissionCandidate) (authenticatedPeer : P.PeerId) :
    Except AdmissionError (Option RecordId) :=
  let nodeId := candidate.identity.nodeId
  match e.registry.status nodeId with
  | .unknown =>
    if (e.registry.nodeForPeer P authenticatedPeer).isSome then .error (.identityConflict nodeId)
    else if candidate.identity.isInitialIdentity then .ok none
    else .error (.nonInitialIdentity nodeId)
  | .active record =>
    if recordMatchesIdentity record candidate.identity then .ok (some record.id)
    else .error (.identityConflict nodeId)
  | .revoked _ => .error (.identityConflict nodeId)
  | .conflicted _ => .error (.identityConflict nodeId)

/-- The checks of `begin` and the pending admission they lead to. -/
def prepare (e : Enrollment) (candidate : AdmissionCandidate) (authenticatedPeer : P.PeerId)
    (sponsor : NodeIdentity P) (nonce : Option Nonce) : Except AdmissionError PendingAdmission := do
  let _ ← e.ensureSponsor sponsor
  ensureAuthenticatedPeer candidate authenticatedPeer
  let resumeRecord ← e.resumeRecord candidate authenticatedPeer
  ensure (e.quarantined.contains candidate.identity.nodeId ∨ e.quarantined.size < maxQuarantined)
    .quarantineFull
  let nonce ← okOr nonce .randomGeneration
  let challenge : AdmissionChallenge :=
    { clusterId := e.registry.clusterId, sponsorNodeId := sponsor.nodeId,
      sponsorPeerId := sponsor.peerIdBytes, nonce }
  return { candidate, challenge, sponsorNodeId := sponsor.nodeId, resumeRecord }

def begin (e : Enrollment) (candidate : AdmissionCandidate) (authenticatedPeer : P.PeerId)
    (sponsor : NodeIdentity P) (nonce : Option Nonce) :
    Except AdmissionError AdmissionChallenge × Enrollment :=
  match e.prepare candidate authenticatedPeer sponsor nonce with
  | .error error => (.error error, e)
  | .ok pending =>
    (.ok pending.challenge, { e with quarantined := e.quarantined.insert pending })

/-- The checks of `admit_pending` up to the record it admits with; `true` where the record is new
and still has to be inserted. -/
def admittedRecord (e : Enrollment) (nodeId : NodeId) (sponsor : NodeIdentity P) :
    Except AdmissionError (AuthorizationRecord × Bool) := do
  let pending ← okOr (e.quarantined.get? nodeId) (.unknownCandidate nodeId)
  ensure (pending.sponsorNodeId = sponsor.nodeId)
    (.sponsorMismatch pending.sponsorNodeId sponsor.nodeId)
  let sponsorRecord ← e.ensureSponsor sponsor
  match pending.resumeRecord with
  | some expectedRecord =>
    match e.registry.activeRecordForNode nodeId with
    | some record =>
      if record.id = expectedRecord ∧ recordMatchesIdentity record pending.candidate.identity then
        .ok (record, false)
      else .error (.identityConflict nodeId)
    | none => .error (.identityConflict nodeId)
  | none => do
    let authorizerHead ← liftAuthorization (e.registry.authorizerHead sponsorRecord)
    let record ← liftAuthorization (AuthorizationRecord.admitIdentity e.registry.clusterId
      pending.candidate.identity sponsorRecord authorizerHead sponsor)
    return (record, true)

def admitPending (e : Enrollment) (nodeId : NodeId) (sponsor : NodeIdentity P) :
    Except AdmissionError EnrollmentOutcome × Enrollment :=
  match e.admittedRecord nodeId sponsor with
  | .error error => (.error error, e)
  | .ok (record, false) =>
    (.ok ⟨record, e.registry.records.vals⟩, { e with quarantined := e.quarantined.erase nodeId })
  | .ok (record, true) =>
    match e.registry.insert P record with
    | (.error error, registry) => (.error (.authorization error), { e with registry })
    | (.ok _, registry) =>
      (.ok ⟨record, registry.records.vals⟩,
        { e with registry, quarantined := e.quarantined.erase nodeId })

/-- The checks `enroll_with_join_key` makes before it admits. -/
def checkProof (A : AdmissionPrimitives) (e : Enrollment) (proof : JoinProof)
    (authenticatedPeer : P.PeerId) : Except AdmissionError Unit := do
  let joinKey ← okOr e.joinKey .joinKeyRequired
  ensureAuthenticatedPeer proof.candidate authenticatedPeer
  let nodeId := proof.candidate.identity.nodeId
  let pending ← okOr (e.quarantined.get? nodeId) (.unknownCandidate nodeId)
  ensure (pending.candidate = proof.candidate ∧ pending.challenge = proof.challenge)
    (.proofMismatch nodeId)
  proof.verify A joinKey

def enrollWithJoinKey (A : AdmissionPrimitives) (e : Enrollment) (proof : JoinProof)
    (authenticatedPeer : P.PeerId) (sponsor : NodeIdentity P) :
    Except AdmissionError EnrollmentOutcome × Enrollment :=
  match e.checkProof A proof authenticatedPeer with
  | .error error => (.error error, e)
  | .ok () => e.admitPending proof.candidate.identity.nodeId sponsor

def approve (e : Enrollment) (nodeId : NodeId) (sponsor : NodeIdentity P) :
    Except AdmissionError EnrollmentOutcome × Enrollment :=
  if e.quarantined.contains nodeId then e.admitPending nodeId sponsor
  else (.error (.unknownCandidate nodeId), e)

end Enrollment

/-- A call that may change an enrollment. -/
inductive EnrollmentCall (P : Primitives) where
  | begin (candidate : AdmissionCandidate) (authenticatedPeer : P.PeerId) (sponsor : NodeIdentity P)
      (nonce : Option Nonce)
  | enroll (proof : JoinProof) (authenticatedPeer : P.PeerId) (sponsor : NodeIdentity P)
  | approve (nodeId : NodeId) (sponsor : NodeIdentity P)
  | mergeCheckpoint (records : List AuthorizationRecord)

/-- What a call returned. -/
inductive EnrollmentReply where
  | challenge (challenge : AdmissionChallenge)
  | admitted (outcome : EnrollmentOutcome)
  | merged (count : Nat)
  | rejected
  deriving DecidableEq

namespace Enrollment
variable {P : Primitives} (A : AdmissionPrimitives)

def replyTo {α β : Type} (reply : β → EnrollmentReply) : Except α β → EnrollmentReply
  | .ok value => reply value
  | .error _ => .rejected

def serve (e : Enrollment) : EnrollmentCall P → EnrollmentReply × Enrollment
  | .begin candidate peer sponsor nonce =>
    match e.begin candidate peer sponsor nonce with
    | (result, e') => (replyTo .challenge result, e')
  | .enroll proof peer sponsor =>
    match e.enrollWithJoinKey A proof peer sponsor with
    | (result, e') => (replyTo .admitted result, e')
  | .approve nodeId sponsor =>
    match e.approve nodeId sponsor with
    | (result, e') => (replyTo .admitted result, e')
  | .mergeCheckpoint records =>
    match e.mergeCheckpoint P records with
    | (result, e') => (replyTo .merged result, e')

/-- The enrollment after a sequence of calls. -/
def run (e : Enrollment) (calls : List (EnrollmentCall P)) : Enrollment :=
  calls.foldl (fun e call => (e.serve A call).2) e

end Enrollment

namespace Transparent

def admissionPrimitives : AdmissionPrimitives where
  hmac := signature
  transcriptBytes version cluster candidatePeer sponsorPeer candidateNonce challengeNonce node sponsor :=
    some (varint version.toNat ++ cluster.asBytes ++ sized candidatePeer ++ sized sponsorPeer ++
      bytes32 candidateNonce ++ bytes32 challengeNonce ++ node.asBytes ++ sponsor.asBytes)

def joinKey : Bytes := [7, 7]

/-- An enrollment on the founder's registry. -/
def sponsoring : Enrollment :=
  .new ((AuthorizationRegistry.new cluster).replay primitives [.insert founding]) (some joinKey)

def memberCandidate : AdmissionCandidate := ⟨member.publicIdentity, BitVec.ofNat 256 5⟩

def memberChallenge : AdmissionChallenge :=
  { clusterId := cluster, sponsorNodeId := founder.nodeId, sponsorPeerId := founder.peerIdBytes
    nonce := BitVec.ofNat 256 9 }

def memberProof : JoinProof :=
  { candidate := memberCandidate, challenge := memberChallenge
    mac := match proofTranscript admissionPrimitives memberCandidate memberChallenge with
      | .ok transcript => admissionPrimitives.hmac joinKey transcript
      | .error _ => [] }

def beginMember : EnrollmentCall primitives :=
  .begin memberCandidate member.peerId founder (some (BitVec.ofNat 256 9))

def enrollMember : EnrollmentCall primitives := .enroll memberProof member.peerId founder

end Transparent

end Lycoris.Overlay
