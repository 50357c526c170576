import Lycoris.Overlay.Record
import Lycoris.Lib.Search

/-!
Envelopes, signed link-state records and the forwarding engine over them (`overlay/src/protocol.rs`,
`overlay/src/routing.rs`).
-/

namespace Lycoris.Overlay
open Lib

/-! ### Envelopes -/

def maxFrameBytes : Nat := 8 * 1024 * 1024
def maxPayloadBytes : Nat := maxFrameBytes - 1024

/-- A 16-byte identifier. -/
def RequestId : Type := BitVec 128

namespace RequestId

instance : DecidableEq RequestId := inferInstanceAs (DecidableEq (BitVec 128))
instance : Ord RequestId := inferInstanceAs (Ord (BitVec 128))
instance : Std.TransOrd RequestId := inferInstanceAs (Std.TransOrd (BitVec 128))
instance : Std.LawfulEqOrd RequestId := inferInstanceAs (Std.LawfulEqOrd (BitVec 128))

def ofNat (n : Nat) : RequestId := BitVec.ofNat 128 n

end RequestId

inductive ProtocolId where
  | admission | registry | membership | resource | extension | route
  deriving DecidableEq

inductive MessageKind where
  | request | response | event
  deriving DecidableEq

structure EnvelopeHeader where
  version : UInt16
  clusterId : ClusterId
  requestId : RequestId
  source : NodeId
  destination : NodeId
  protocol : ProtocolId
  kind : MessageKind
  deadlineUnixMs : Int
  remainingHops : UInt8
  deriving DecidableEq

structure Envelope where
  header : EnvelopeHeader
  payload : Bytes
  deriving DecidableEq

inductive FrameError where
  | payloadTooLarge (actual maximum : Nat)
  | frameTooLarge (actual maximum : Nat)
  | serialization
  deriving DecidableEq

def Envelope.new (header : EnvelopeHeader) (payload : Bytes) : Except FrameError Envelope :=
  if payload.length > maxPayloadBytes then .error (.payloadTooLarge payload.length maxPayloadBytes)
  else .ok ⟨header, payload⟩

/-! ### Link state -/

def maxLinkStateEdges : Nat := 256
def maxRouteBodyBytes : Nat := 1024 * 1024

inductive RoutingError where
  | tooManyEdges
  | unauthorizedKey
  | invalidSignature
  | identity (error : IdentityError)
  | encoding
  deriving DecidableEq

structure LinkStateBody where
  nodeId : NodeId
  publicKey : Bytes
  edges : List NodeId
  sequence : UInt64
  deriving DecidableEq

structure LinkStateRecord where
  body : LinkStateBody
  signature : Bytes
  deriving DecidableEq

/-- The postcard encodings of link state. -/
structure LinkEncoding where
  bodyBytes : LinkStateBody → Option Bytes
  recordBytes : LinkStateRecord → Option Bytes
  recordFromBytes : Bytes → Option LinkStateRecord

namespace LinkStateRecord

abbrev nodeId (record : LinkStateRecord) : NodeId := record.body.nodeId
abbrev sequence (record : LinkStateRecord) : UInt64 := record.body.sequence
abbrev edges (record : LinkStateRecord) : List NodeId := record.body.edges

variable {P : Primitives} (E : LinkEncoding)

/-- `edges.sort(); edges.dedup()`. -/
def sortDedup (edges : List NodeId) : List NodeId := (Std.ExtTreeSet.ofList edges compare).toList

def sign (identity : NodeIdentity P) (edges : List NodeId) (sequence : UInt64) :
    Except RoutingError LinkStateRecord := do
  let edges := sortDedup (edges.filter fun edge => edge ≠ identity.nodeId)
  ensure (edges.length ≤ maxLinkStateEdges) .tooManyEdges
  let body : LinkStateBody := ⟨identity.nodeId, P.encodePublicKey identity.publicKey, edges, sequence⟩
  let bytes ← okOr (E.bodyBytes body) .encoding
  let signature ← okOr (identity.signWith bytes) (.identity .signing)
  return ⟨body, signature⟩

variable (P)

def verifyWith (record : LinkStateRecord) (authorizedKey : Bytes) : Except RoutingError Unit := do
  ensure (record.edges.length ≤ maxLinkStateEdges) .tooManyEdges
  ensure (record.body.publicKey = authorizedKey) .unauthorizedKey
  let key ← okOr (P.decodePublicKey record.body.publicKey) (.identity .keyEncoding)
  let bytes ← okOr (E.bodyBytes record.body) .encoding
  ensure (P.verify key bytes record.signature) .invalidSignature

end LinkStateRecord

structure LinkStateDb where
  records : Std.ExtTreeMap NodeId LinkStateRecord compare

/-- What the search has met so far. -/
structure SearchState where
  visited : Std.ExtTreeSet NodeId compare
  parent : Std.ExtTreeMap NodeId NodeId compare
  queue : List NodeId

namespace LinkStateDb

def empty : LinkStateDb := ⟨∅⟩

def insert (P : Primitives) (E : LinkEncoding) (db : LinkStateDb) (record : LinkStateRecord)
    (authorizedKey : Bytes) : Except RoutingError (LinkStateDb × Bool) := do
  record.verifyWith P E authorizedKey
  let stale : Bool :=
    match db.records[record.nodeId]? with
    | some current => record.sequence ≤ current.sequence
    | none => false
  return if stale then (db, false) else (⟨db.records.insert record.nodeId record⟩, true)

/-- One turn of the walk back over the parents. -/
def hopTurn (parent : Std.ExtTreeMap NodeId NodeId compare) (localId hop : NodeId) :
    Option (Turn NodeId (Option NodeId)) :=
  match parent[hop]? with
  | some previous => some (if previous = localId then .done (some hop) else .next previous)
  | none => some (.done none)

def firstHop (parent : Std.ExtTreeMap NodeId NodeId compare) (localId destination : NodeId) :
    Option (Option NodeId) :=
  loop (hopTurn parent localId) (parent.size + 1) destination

/-- The edges of one record. -/
def explore (localId destination node : NodeId) :
    List NodeId → SearchState → Option (Turn SearchState (Option NodeId))
  | [], search => some (.next search)
  | edge :: edges, search =>
    if edge ∈ search.visited then explore localId destination node edges search
    else
      let visited := search.visited.insert edge
      let parent := search.parent.insert edge node
      if edge = destination then (firstHop parent localId destination).map .done
      else explore localId destination node edges ⟨visited, parent, search.queue ++ [edge]⟩

def searchTurn (db : LinkStateDb) (localId destination : NodeId) (search : SearchState) :
    Option (Turn SearchState (Option NodeId)) :=
  match search.queue with
  | [] => some (.done none)
  | node :: queue =>
    match db.records[node]? with
    | some record => explore localId destination node record.edges { search with queue := queue }
    | none => some (.next { search with queue := queue })

/-- All edges of all records. -/
def advertised (db : LinkStateDb) : List NodeId := db.records.toList.flatMap fun entry => entry.2.edges

def nextHop? (db : LinkStateDb) (localId destination : NodeId) : Option (Option NodeId) :=
  if localId = destination then some (some destination)
  else loop (db.searchTurn localId destination) (db.advertised.length + 2) ⟨{localId}, ∅, [localId]⟩

/-- `LinkStateDb::next_hop`. The search never runs out of turns (`nextHop?_total`). -/
def nextHop (db : LinkStateDb) (localId destination : NodeId) : Option NodeId :=
  (db.nextHop? localId destination).getD none

end LinkStateDb

/-! ### Router -/

inductive DropReason where
  | expired | duplicate | hopLimitExhausted | backpressure | payloadTooLarge | noRoute
  deriving DecidableEq

inductive RouteDecision where
  | deliver (envelope : Envelope)
  | forward (nextHop : NodeId) (envelope : Envelope)
  | drop (reason : DropReason)
  deriving DecidableEq

structure Router where
  localId : NodeId
  links : LinkStateDb
  seen : List RequestId
  seenSet : Std.ExtTreeSet RequestId compare
  seenCapacity : Nat
  inflight : Nat
  maxInflight : Nat

namespace Router

def defaultSeenCapacity : Nat := 1024
def defaultMaxInflight : Nat := 256

def new (localId : NodeId) : Router :=
  ⟨localId, .empty, [], ∅, defaultSeenCapacity, 0, defaultMaxInflight⟩

def completeForward (router : Router) : Router := { router with inflight := router.inflight - 1 }

/-- The loop that drops the oldest requests over the capacity. -/
def evict (capacity : Nat) :
    List RequestId → Std.ExtTreeSet RequestId compare →
      List RequestId × Std.ExtTreeSet RequestId compare
  | [], seenSet => ([], seenSet)
  | oldest :: seen, seenSet =>
    if (oldest :: seen).length > capacity then evict capacity seen (seenSet.erase oldest)
    else (oldest :: seen, seenSet)

def markSeen (router : Router) (requestId : RequestId) : Router × Bool :=
  if requestId ∈ router.seenSet then (router, false)
  else
    let kept := evict router.seenCapacity (router.seen ++ [requestId]) (router.seenSet.insert requestId)
    ({ router with seen := kept.1, seenSet := kept.2 }, true)

def handle (router : Router) (envelope : Envelope) (nowUnixMs : Int) : Router × RouteDecision :=
  let header := envelope.header
  if header.deadlineUnixMs ≤ nowUnixMs then (router, .drop .expired)
  else
    match router.markSeen header.requestId with
    | (router, false) => (router, .drop .duplicate)
    | (router, true) =>
      if header.destination = router.localId then (router, .deliver envelope)
      else if header.remainingHops = 0 then (router, .drop .hopLimitExhausted)
      else if envelope.payload.length > maxRouteBodyBytes then (router, .drop .payloadTooLarge)
      else if router.inflight ≥ router.maxInflight then (router, .drop .backpressure)
      else
        match router.links.nextHop router.localId header.destination with
        | none => (router, .drop .noRoute)
        | some nextHop =>
          let forwarded := { header with remainingHops := header.remainingHops - 1 }
          match Envelope.new forwarded envelope.payload with
          | .error _ => (router, .drop .payloadTooLarge)
          | .ok envelope => ({ router with inflight := router.inflight + 1 }, .forward nextHop envelope)

/-- What the router does with a request: it is late, it was seen before, or it is marked and then
delivered, forwarded with one hop less into a free slot, or dropped for another reason. -/
theorem handle_cases (router : Router) (envelope : Envelope) (now : Int) :
    (router.handle envelope now = (router, .drop .expired)) ∨
    (envelope.header.requestId ∈ router.seenSet ∧
      router.handle envelope now = (router, .drop .duplicate)) ∨
    (envelope.header.requestId ∉ router.seenSet ∧
      ((∃ decision, router.handle envelope now = ((router.markSeen envelope.header.requestId).1, decision) ∧
        (decision = .deliver envelope ∨
          ∃ reason, decision = .drop reason ∧ reason ≠ .expired ∧ reason ≠ .duplicate)) ∨
      (router.inflight < router.maxInflight ∧ ∃ hop forwarded,
        router.handle envelope now =
          ({ (router.markSeen envelope.header.requestId).1 with inflight := router.inflight + 1 },
            .forward hop forwarded) ∧
        forwarded.header.protocol = envelope.header.protocol ∧
        forwarded.header.kind = envelope.header.kind))) := by
  unfold handle
  dsimp only
  split
  · exact .inl rfl
  · right
    by_cases known : envelope.header.requestId ∈ router.seenSet
    · left
      rw [markSeen, if_pos known]
      exact ⟨known, rfl⟩
    · right
      refine ⟨known, ?_⟩
      rw [markSeen, if_neg known]
      dsimp only
      split
      · exact .inl ⟨_, rfl, .inl rfl⟩
      · split
        · exact .inl ⟨_, rfl, .inr ⟨_, rfl, nofun, nofun⟩⟩
        · split
          · exact .inl ⟨_, rfl, .inr ⟨_, rfl, nofun, nofun⟩⟩
          · split
            · exact .inl ⟨_, rfl, .inr ⟨_, rfl, nofun, nofun⟩⟩
            · rename_i free
              split
              · exact .inl ⟨_, rfl, .inr ⟨_, rfl, nofun, nofun⟩⟩
              · split
                · exact .inl ⟨_, rfl, .inr ⟨_, rfl, nofun, nofun⟩⟩
                · rename_i made
                  unfold Envelope.new at made
                  split at made
                  · cases made
                  · obtain rfl := Except.ok.inj made
                    exact .inr ⟨not_le.mp free, _, _, rfl, rfl, rfl⟩

/-- A mark changes the window of seen requests only. -/
theorem markSeen_keeps (router : Router) (requestId : RequestId) :
    ∃ seen seenSet, (router.markSeen requestId).1 = { router with seen := seen, seenSet := seenSet } := by
  unfold markSeen
  split
  · exact ⟨_, _, rfl⟩
  · exact ⟨_, _, rfl⟩

theorem handle_keeps (router : Router) (envelope : Envelope) (now : Int) :
    (router.handle envelope now).1.links = router.links ∧
      (router.handle envelope now).1.localId = router.localId := by
  obtain ⟨seen, seenSet, marked⟩ := router.markSeen_keeps envelope.header.requestId
  rcases router.handle_cases envelope now with late | ⟨_, seen⟩ | ⟨_, decided | forwards⟩
  · rw [late]
    exact ⟨rfl, rfl⟩
  · rw [seen]
    exact ⟨rfl, rfl⟩
  · obtain ⟨decision, handled, _⟩ := decided
    rw [handled, marked]
    exact ⟨rfl, rfl⟩
  · obtain ⟨_, hop, forwarded, handled, _⟩ := forwards
    rw [handled, marked]
    exact ⟨rfl, rfl⟩

/-- A forward takes a free slot; any other decision takes none. -/
theorem handle_slots (router : Router) (envelope : Envelope) (now : Int) :
    (router.handle envelope now).1.maxInflight = router.maxInflight ∧
      ((∃ hop forwarded, (router.handle envelope now).2 = .forward hop forwarded ∧
        router.inflight < router.maxInflight ∧
        (router.handle envelope now).1.inflight = router.inflight + 1) ∨
      ((∀ hop forwarded, (router.handle envelope now).2 ≠ .forward hop forwarded) ∧
        (router.handle envelope now).1.inflight = router.inflight)) := by
  obtain ⟨seen, seenSet, marked⟩ := router.markSeen_keeps envelope.header.requestId
  rcases router.handle_cases envelope now with late | ⟨_, seen⟩ | ⟨_, decided | forwards⟩
  · rw [late]
    exact ⟨rfl, .inr ⟨nofun, rfl⟩⟩
  · rw [seen]
    exact ⟨rfl, .inr ⟨nofun, rfl⟩⟩
  · obtain ⟨decision, handled, rfl | ⟨reason, rfl, _⟩⟩ := decided
    · rw [handled, marked]
      exact ⟨rfl, .inr ⟨nofun, rfl⟩⟩
    · rw [handled, marked]
      exact ⟨rfl, .inr ⟨nofun, rfl⟩⟩
  · obtain ⟨free, hop, forwarded, handled, _⟩ := forwards
    rw [handled, marked]
    exact ⟨rfl, .inl ⟨hop, forwarded, rfl, free, rfl⟩⟩

theorem handle_deliver {router : Router} {envelope delivered : Envelope} {now : Int}
    (decided : (router.handle envelope now).2 = .deliver delivered) : delivered = envelope := by
  rcases router.handle_cases envelope now with late | ⟨_, seen⟩ | ⟨_, ⟨decision, handled, other⟩ | forwards⟩
  · simp [late] at decided
  · simp [seen] at decided
  · obtain rfl : decision = .deliver delivered := by simpa [handled] using decided
    rcases other with same | ⟨reason, dropped, _⟩
    · exact RouteDecision.deliver.inj same
    · cases dropped
  · obtain ⟨_, hop, forwarded, handled, _⟩ := forwards
    simp [handled] at decided

theorem handle_forward {router : Router} {envelope : Envelope} {now : Int} {hop : NodeId}
    {forwarded : Envelope} (decided : (router.handle envelope now).2 = .forward hop forwarded) :
    forwarded.header.protocol = envelope.header.protocol ∧
      forwarded.header.kind = envelope.header.kind := by
  rcases router.handle_cases envelope now with late | ⟨_, seen⟩ | ⟨_, other | forwards⟩
  · rw [late] at decided
    cases decided
  · rw [seen] at decided
    cases decided
  · obtain ⟨decision, handled, rfl | ⟨reason, rfl, _⟩⟩ := other
    · rw [handled] at decided
      cases decided
    · rw [handled] at decided
      cases decided
  · obtain ⟨_, hop', forwarded', handled, protocol, kind⟩ := forwards
    rw [handled] at decided
    obtain ⟨_, rfl⟩ := RouteDecision.forward.inj decided
    exact ⟨protocol, kind⟩

end Router

/-! ### Transparent encoding

The postcard layout of link state, to evaluate the model with. -/

namespace Transparent

def linkBodyBytes (body : LinkStateBody) : Bytes :=
  body.nodeId.asBytes ++ sized body.publicKey ++ varint body.edges.length ++
    body.edges.flatMap Identifier.asBytes ++ varint body.sequence.toNat

def linkRecordBytes (record : LinkStateRecord) : Bytes :=
  linkBodyBytes record.body ++ sized record.signature

/-- A number of any width: the bound on its bytes lies behind the last one. -/
def readVarint (bytes : Bytes) : Option (Nat × Bytes) := takeVarint 64 (bytes.length + 1) bytes

def readBytes (length : Nat) (bytes : Bytes) : Option (Bytes × Bytes) :=
  if bytes.length < length then none else some (bytes.take length, bytes.drop length)

def readSized (bytes : Bytes) : Option (Bytes × Bytes) := do
  let (length, rest) ← readVarint bytes
  readBytes length rest

def readId (bytes : Bytes) : Option (NodeId × Bytes) := do
  let (id, rest) ← readBytes 32 bytes
  return (.ofNat (id.foldl (fun value byte => value * 256 + byte.toNat) 0), rest)

def readIds : Nat → Bytes → Option (List NodeId × Bytes)
  | 0, bytes => some ([], bytes)
  | count + 1, bytes => do
    let (id, rest) ← readId bytes
    let (ids, rest) ← readIds count rest
    return (id :: ids, rest)

def linkRecordFromBytes (bytes : Bytes) : Option LinkStateRecord := do
  let (nodeId, rest) ← readId bytes
  let (publicKey, rest) ← readSized rest
  let (count, rest) ← readVarint rest
  let (edges, rest) ← readIds count rest
  let (sequence, rest) ← readVarint rest
  let (signature, _) ← readSized rest
  return ⟨⟨nodeId, publicKey, edges, UInt64.ofNat sequence⟩, signature⟩

def linkEncoding : LinkEncoding where
  bodyBytes body := some (linkBodyBytes body)
  recordBytes record := some (linkRecordBytes record)
  recordFromBytes := linkRecordFromBytes

end Transparent

end Lycoris.Overlay
