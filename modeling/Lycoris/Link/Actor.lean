import Lycoris.Link.Connections

/-!
The link actor (`overlay/src/link/actor.rs`): one node's connections, its router, and the requests it
waits for. Each handler is a function from an actor to the next one and to what it asks of the swarm and
of its callers. The peer directory, listeners and dials only choose whom to connect to and are left out.
-/

namespace Lycoris.Link
open Lib Overlay

def protocolVersion : UInt16 := 1
def maxPendingInbound : Nat := 256
def maxInboundLifetimeMs : Int := 10000
def linkStateLifetimeMs : Int := 10000

abbrev OutboundRequestId := Nat

/-- The number the swarm gives to a request of a peer, never to a second one. -/
abbrev InboundRequestId := UInt64
abbrev InboundToken := UInt64

/-- A handle to answer a request of a peer. -/
abbrev ResponseChannel := Nat

/-- A handle to answer a caller of the link. -/
abbrev Caller := Nat

variable (P : Primitives)

inductive LinkError where
  | timeout
  | invalidResponse
  | invalidAdmissionRequest
  | admissionPeerUnavailable (peerId : P.PeerId)
  | noRoute (nodeId : NodeId)
  | unknownInbound
  | transport
  | authorizationCommit
  | foreignCluster (expected actual : ClusterId)
  | requestSequenceExhausted

structure ResponseExpectation where
  expectedPeer : P.PeerId
  clusterId : ClusterId
  requestId : RequestId
  source : NodeId
  destination : NodeId
  protocol : ProtocolId
  deadlineUnixMs : Int

structure PendingRequest where
  expected : ResponseExpectation P
  reply : Caller

structure PendingInbound where
  requestId : InboundRequestId
  peerId : P.PeerId
  deadlineUnixMs : Int
  channel : ResponseChannel

structure ForwardContext where
  channel : ResponseChannel
  expected : ResponseExpectation P

/-- The identifiers of one boot's own requests. -/
structure RequestSequence where
  bootId : Bytes
  next : UInt64

/-- What a handler asks for. `sendResponse` gives the channel away, whether the swarm takes the response or
not; `routed` records a decision of the router. -/
inductive LinkOutput where
  | sendRequest (requestId : OutboundRequestId) (peerId : P.PeerId) (envelope : Envelope)
  | sendResponse (channel : ResponseChannel) (envelope : Envelope)
  | closeConnection (connectionId : ConnectionId)
  | reply (caller : Caller) (result : Except (LinkError P) Envelope)
  | settle (caller : Caller) (result : Except (LinkError P) Unit)
  | inbound (token : InboundToken) (sender : P.PeerId) (envelope : Envelope)
  | routed (requestId : RequestId) (decision : RouteDecision)

structure LinkActor where
  state : LinkState P
  identity : NodeIdentity P
  router : Router
  pendingOutbound : Std.ExtTreeMap OutboundRequestId (PendingRequest P) compare
  pendingInbound : Std.ExtTreeMap InboundToken (PendingInbound P) compare
  inboundRequests : Std.ExtTreeMap InboundRequestId InboundToken compare
  pendingForwards : Std.ExtTreeMap OutboundRequestId (ForwardContext P) compare
  broadcastRequests : Std.ExtTreeSet OutboundRequestId compare
  nextInboundToken : InboundToken
  requestIds : RequestSequence
  lastLinkStateSequence : UInt64
  /-- The next identifier the swarm gives to a request. -/
  nextOutboundId : OutboundRequestId

/-- What a handler meets: two readings of the clock, in milliseconds that fit an `i64`, whether the queue
of inbound envelopes has room, and whether the swarm takes a response that it is given. -/
structure Moment where
  now : Int
  later : Int
  queueOpen : Bool
  flushes : Bool
  inRange : now < 2 ^ 63

variable {P}

/-! ### Responses -/

namespace ResponseExpectation

def fromRequest (request : Envelope) (expectedPeer : P.PeerId) : ResponseExpectation P where
  expectedPeer := expectedPeer
  clusterId := request.header.clusterId
  requestId := request.header.requestId
  source := request.header.source
  destination := request.header.destination
  protocol := request.header.protocol
  deadlineUnixMs := request.header.deadlineUnixMs

def validate (expected : ResponseExpectation P) (response : Envelope) (responder : P.PeerId) :
    Except (LinkError P) Unit :=
  let header := response.header
  let sourceMatches := expected.destination = .ofNat 0 ∨ header.source = expected.destination
  if responder ≠ expected.expectedPeer ∨ header.version ≠ protocolVersion ∨
      header.clusterId ≠ expected.clusterId ∨ header.requestId ≠ expected.requestId ∨
      header.destination ≠ expected.source ∨ header.protocol ≠ expected.protocol ∨
      header.kind ≠ .response ∨ ¬ sourceMatches then
    .error .invalidResponse
  else .ok ()

end ResponseExpectation

/-- `RequestId::derive`: the first 16 bytes of the hash. -/
def RequestId.derive (P : Primitives) (nodeId : NodeId) (bootId : Bytes) (sequence : UInt64) :
    RequestId :=
  let counter := (List.range 8).map fun i => UInt8.ofNat (sequence.toNat / 256 ^ (7 - i))
  (P.blake3 (ascii "lycoris/request-id/2" ++ [0] ++ nodeId.asBytes ++ bootId ++ counter)).extractLsb' 128 128

def RequestSequence.allocate (P : Primitives) (sequence : RequestSequence) (nodeId : NodeId) :
    Option (RequestId × RequestSequence) :=
  if sequence.next = UInt64.ofNat (2 ^ 64 - 1) then none
  else some (RequestId.derive P nodeId sequence.bootId sequence.next,
    { sequence with next := sequence.next + 1 })

namespace LinkActor

def new (identity : NodeIdentity P) (authorization : AuthorizationRegistry) (bootId : Bytes)
    (nextSequence : UInt64) : LinkActor P where
  state := .new identity.nodeId identity.peerId authorization
  identity := identity
  router := .new identity.nodeId
  pendingOutbound := ∅
  pendingInbound := ∅
  inboundRequests := ∅
  pendingForwards := ∅
  broadcastRequests := ∅
  nextInboundToken := 0
  requestIds := ⟨bootId, nextSequence⟩
  lastLinkStateSequence := 0
  nextOutboundId := 0

/-! ### Requests of the local node -/

def sendPeerRequest (actor : LinkActor P) (moment : Moment) (peerId : P.PeerId) (envelope : Envelope)
    (reply : Caller) : LinkActor P × List (LinkOutput P) :=
  if envelope.header.deadlineUnixMs ≤ moment.now then (actor, [.reply reply (.error .timeout)])
  else
    let requestId := actor.nextOutboundId
    ({ actor with
        nextOutboundId := requestId + 1
        pendingOutbound := actor.pendingOutbound.insert requestId ⟨.fromRequest envelope peerId, reply⟩ },
      [.sendRequest requestId peerId envelope])

def routeOutbound (actor : LinkActor P) (envelope : Envelope) : Except (LinkError P) P.PeerId := do
  let header := envelope.header
  let destination := header.destination
  ensure (header.version = protocolVersion ∧ destination ≠ actor.state.nodeId) (.noRoute destination)
  ensure (header.clusterId = actor.state.authorization.clusterId) (.noRoute destination)
  let nextHop ←
    if actor.state.nodeIsConnected destination then pure destination
    else okOr (actor.router.links.nextHop actor.state.nodeId destination) (.noRoute destination)
  okOr (actor.state.activePeerForNode nextHop) (.noRoute nextHop)

def sendRoutedRequest (actor : LinkActor P) (moment : Moment) (envelope : Envelope) (reply : Caller) :
    LinkActor P × List (LinkOutput P) :=
  if envelope.header.protocol = .admission then (actor, [.reply reply (.error .invalidAdmissionRequest)])
  else
    match actor.routeOutbound envelope with
    | .ok peerId => actor.sendPeerRequest moment peerId envelope reply
    | .error error => (actor, [.reply reply (.error error)])

def sendAdmissionRequest (actor : LinkActor P) (moment : Moment) (sponsor : P.PeerId)
    (envelope : Envelope) (reply : Caller) : LinkActor P × List (LinkOutput P) :=
  if envelope.header.protocol ≠ .admission then (actor, [.reply reply (.error .invalidAdmissionRequest)])
  else
    let quarantined := actor.state.peerIsQuarantined sponsor
    let authorized := (actor.state.authorization.nodeForPeer P sponsor).isSome
    if !quarantined && !authorized then
      (actor, [.reply reply (.error (.admissionPeerUnavailable sponsor))])
    else actor.sendPeerRequest moment sponsor envelope reply

def respond (actor : LinkActor P) (moment : Moment) (token : InboundToken) (envelope : Envelope)
    (reply : Caller) : LinkActor P × List (LinkOutput P) :=
  match actor.pendingInbound[token]? with
  | none => (actor, [.settle reply (.error .unknownInbound)])
  | some pending =>
    let actor := { actor with
      pendingInbound := actor.pendingInbound.erase token
      inboundRequests := actor.inboundRequests.erase pending.requestId }
    if pending.deadlineUnixMs ≤ moment.now then (actor, [.settle reply (.error .timeout)])
    else (actor, [.sendResponse pending.channel envelope,
      .settle reply (if moment.flushes then .ok () else .error .transport)])

/-! ### Expiry -/

/-- The one connection to the peer, or one of several that is not healthy. -/
def closeTimedOutPeer (actor : LinkActor P) (peerId : P.PeerId) : List (LinkOutput P) :=
  let connections := (actor.state.connections.toList.filter fun entry => entry.2.peerId = peerId).map
    Prod.fst
  let connection :=
    if connections.length = 1 then connections.head?
    else connections.find? fun connectionId => connectionId ∉ actor.state.healthyConnections
  connection.toList.map .closeConnection

def removePendingInbound (actor : LinkActor P) (token : InboundToken) : LinkActor P :=
  match actor.pendingInbound[token]? with
  | none => actor
  | some pending =>
    { actor with
      pendingInbound := actor.pendingInbound.erase token
      inboundRequests := actor.inboundRequests.erase pending.requestId }

def removePendingInboundRequest (actor : LinkActor P) (requestId : InboundRequestId) : LinkActor P :=
  match actor.inboundRequests[requestId]? with
  | none => actor
  | some token =>
    { actor with
      inboundRequests := actor.inboundRequests.erase requestId
      pendingInbound := actor.pendingInbound.erase token }

def removePendingInboundPeer (actor : LinkActor P) (peerId : P.PeerId) : LinkActor P :=
  let tokens := (actor.pendingInbound.toList.filter fun entry => entry.2.peerId = peerId).map Prod.fst
  tokens.foldl removePendingInbound actor

/-- One request of the local node that timed out. -/
def expireOutbound (actor : LinkActor P) (requestId : OutboundRequestId) : LinkActor P :=
  { actor with pendingOutbound := actor.pendingOutbound.erase requestId }

/-- A forward is over: its slot is free again. -/
def releaseForward (actor : LinkActor P) (requestId : OutboundRequestId) : LinkActor P :=
  { actor with
    pendingForwards := actor.pendingForwards.erase requestId
    router := actor.router.completeForward }

def expireForward (actor : LinkActor P) (requestId : OutboundRequestId) : LinkActor P :=
  match actor.pendingForwards[requestId]? with
  | none => actor
  | some _ => actor.releaseForward requestId

def expirePendingRequests (actor : LinkActor P) (now : Int) : LinkActor P × List (LinkOutput P) :=
  let expiredOutbound := actor.pendingOutbound.toList.filter fun entry =>
    entry.2.expected.deadlineUnixMs ≤ now
  let expiredForwards := actor.pendingForwards.toList.filter fun entry =>
    entry.2.expected.deadlineUnixMs ≤ now
  let expiredInbound := actor.pendingInbound.toList.filter fun entry => entry.2.deadlineUnixMs ≤ now
  let failedPeers := (expiredOutbound.map fun entry => entry.2.expected.expectedPeer) ++
    expiredForwards.map fun entry => entry.2.expected.expectedPeer
  let actor := (expiredOutbound.map Prod.fst).foldl expireOutbound actor
  let actor := (expiredForwards.map Prod.fst).foldl expireForward actor
  let actor := (expiredInbound.map Prod.fst).foldl removePendingInbound actor
  (actor, (expiredOutbound.map fun entry => .reply entry.2.reply (.error .timeout)) ++
    failedPeers.dedup.flatMap actor.closeTimedOutPeer)

/-! ### Inbound requests -/

def deliver (actor : LinkActor P) (moment : Moment) (peerId : P.PeerId) (requestId : InboundRequestId)
    (envelope : Envelope) (channel : ResponseChannel) : LinkActor P × List (LinkOutput P) :=
  if envelope.header.deadlineUnixMs ≤ moment.later then (actor, [])
  else if actor.pendingInbound.size ≥ maxPendingInbound then (actor, [])
  else
    let deadlineUnixMs := min envelope.header.deadlineUnixMs (moment.later + maxInboundLifetimeMs)
    let token := actor.nextInboundToken
    let actor := { actor with nextInboundToken := token + 1 }
    if moment.queueOpen then
      ({ actor with
          pendingInbound :=
            actor.pendingInbound.insert token ⟨requestId, peerId, deadlineUnixMs, channel⟩
          inboundRequests := actor.inboundRequests.insert requestId token },
        [.inbound token peerId envelope])
    else (actor, [])

variable (E : LinkEncoding)

/-- A record that does not decode, verify or advance the database changes nothing. -/
def acceptLinkState (actor : LinkActor P) (envelope : Envelope) : LinkActor P :=
  match E.recordFromBytes envelope.payload with
  | none => actor
  | some record =>
    match actor.state.authorization.activeRecordForNode record.nodeId with
    | none => actor
    | some authorized =>
      match actor.router.links.insert P E record authorized.publicKey with
      | .ok (links, _) => { actor with router := { actor.router with links := links } }
      | .error _ => actor

def responseEnvelope (actor : LinkActor P) (request : Envelope) (payload : Bytes) : Option Envelope :=
  let header : EnvelopeHeader := {
    version := protocolVersion
    clusterId := actor.state.authorization.clusterId
    requestId := request.header.requestId
    source := actor.state.nodeId
    destination := request.header.source
    protocol := request.header.protocol
    kind := .response
    deadlineUnixMs := request.header.deadlineUnixMs
    remainingHops := request.header.remainingHops }
  (Envelope.new header payload).toOption

def replyEmpty (actor : LinkActor P) (channel : ResponseChannel) (request : Envelope) :
    List (LinkOutput P) :=
  (actor.responseEnvelope request []).toList.map (.sendResponse channel)

/-- The part of an inbound request that the router decides. -/
def routeInbound (actor : LinkActor P) (moment : Moment) (peerId : P.PeerId)
    (requestId : InboundRequestId) (envelope : Envelope) (channel : ResponseChannel) :
    LinkActor P × List (LinkOutput P) :=
  let handled := actor.router.handle envelope moment.now
  let actor := { actor with router := handled.1 }
  let routed := .routed envelope.header.requestId handled.2
  match handled.2 with
  | .deliver envelope =>
    let delivered := actor.deliver moment peerId requestId envelope channel
    (delivered.1, routed :: delivered.2)
  | .forward nextHop envelope =>
    match actor.state.activePeerForNode nextHop with
    | none => ({ actor with router := actor.router.completeForward }, [routed])
    | some nextPeer =>
      let outboundId := actor.nextOutboundId
      ({ actor with
          nextOutboundId := outboundId + 1
          pendingForwards :=
            actor.pendingForwards.insert outboundId ⟨channel, .fromRequest envelope nextPeer⟩ },
        [routed, .sendRequest outboundId nextPeer envelope])
  | .drop _ => (actor, [routed])

def handleInboundRequest (actor : LinkActor P) (moment : Moment) (peerId : P.PeerId)
    (requestId : InboundRequestId) (envelope : Envelope) (channel : ResponseChannel) :
    LinkActor P × List (LinkOutput P) :=
  let header := envelope.header
  if header.version ≠ protocolVersion then (actor, [])
  else if actor.state.authorization.nodeForPeer P peerId = none then
    if actor.state.peerIsQuarantined peerId ∧ header.protocol = .admission then
      actor.deliver moment peerId requestId envelope channel
    else (actor, [])
  else if header.protocol = .admission then actor.deliver moment peerId requestId envelope channel
  else if header.clusterId ≠ actor.state.authorization.clusterId then (actor, [])
  else if header.protocol = .route ∧ header.kind = .event then
    let actor := actor.acceptLinkState E envelope
    (actor, actor.replyEmpty channel envelope)
  else actor.routeInbound moment peerId requestId envelope channel

/-! ### Answers and failures -/

def handleResponse (actor : LinkActor P) (moment : Moment) (peerId : P.PeerId)
    (requestId : OutboundRequestId) (response : Envelope) : LinkActor P × List (LinkOutput P) :=
  match actor.pendingOutbound[requestId]? with
  | some pending =>
    let actor := actor.expireOutbound requestId
    if pending.expected.deadlineUnixMs ≤ moment.now then
      (actor, actor.closeTimedOutPeer peerId ++ [.reply pending.reply (.error .timeout)])
    else
      (actor, [.reply pending.reply ((pending.expected.validate response peerId).map fun _ => response)])
  | none =>
    match actor.pendingForwards[requestId]? with
    | some forward =>
      let actor := actor.releaseForward requestId
      if forward.expected.deadlineUnixMs > moment.now ∧
          (forward.expected.validate response peerId).isOk then
        (actor, [.sendResponse forward.channel response])
      else (actor, actor.closeTimedOutPeer peerId)
    | none => ({ actor with broadcastRequests := actor.broadcastRequests.erase requestId }, [])

def handleOutboundFailure (actor : LinkActor P) (moment : Moment) (requestId : OutboundRequestId) :
    LinkActor P × List (LinkOutput P) :=
  match actor.pendingOutbound[requestId]? with
  | some pending =>
    let actor := actor.expireOutbound requestId
    if pending.expected.deadlineUnixMs ≤ moment.now then
      (actor, actor.closeTimedOutPeer pending.expected.expectedPeer ++
        [.reply pending.reply (.error .timeout)])
    else (actor, [.reply pending.reply (.error .transport)])
  | none =>
    match actor.pendingForwards[requestId]? with
    | some _ => (actor.releaseForward requestId, [])
    | none => ({ actor with broadcastRequests := actor.broadcastRequests.erase requestId }, [])

/-! ### Link state -/

/-- The peers to tell: each once. The source goes through them in the order of peer ids. -/
def advertisedPeers (actor : LinkActor P) : List (P.PeerId × NodeId) :=
  (actor.state.links.map fun connection => (connection.peerId, connection.nodeId)).dedup

def linkStateHeader (actor : LinkActor P) (moment : Moment) (requestId : RequestId) (nodeId : NodeId) :
    EnvelopeHeader where
  version := protocolVersion
  clusterId := actor.state.authorization.clusterId
  requestId := requestId
  source := actor.state.nodeId
  destination := nodeId
  protocol := .route
  kind := .event
  deadlineUnixMs := moment.later + linkStateLifetimeMs
  remainingHops := 0

/-- The loop over the peers. It ends when the request identifiers run out. -/
def publish (moment : Moment) (payload : Bytes) :
    List (P.PeerId × NodeId) → LinkActor P → LinkActor P × List (LinkOutput P)
  | [], actor => (actor, [])
  | (peerId, nodeId) :: peers, actor =>
    match actor.requestIds.allocate P actor.state.nodeId with
    | none => (actor, [])
    | some (requestId, requestIds) =>
      let actor := { actor with requestIds := requestIds }
      match Envelope.new (actor.linkStateHeader moment requestId nodeId) payload with
      | .error _ => (actor, [])
      | .ok envelope =>
        let outboundId := actor.nextOutboundId
        let published := publish moment payload peers { actor with
          nextOutboundId := outboundId + 1
          broadcastRequests := actor.broadcastRequests.insert outboundId }
        (published.1, .sendRequest outboundId peerId envelope :: published.2)

def nextLinkStateSequence (actor : LinkActor P) (moment : Moment) : UInt64 :=
  max (UInt64.ofNat moment.now.toNat) (actor.lastLinkStateSequence + 1)

def advertiseLinkState (actor : LinkActor P) (moment : Moment) : LinkActor P × List (LinkOutput P) :=
  let sequence := actor.nextLinkStateSequence moment
  let actor := { actor with lastLinkStateSequence := sequence }
  let edges := actor.state.links.map ConnectionInfo.nodeId
  match LinkStateRecord.sign E actor.identity edges sequence with
  | .error _ => (actor, [])
  | .ok record =>
    let actor :=
      match actor.router.links.insert P E record (P.encodePublicKey actor.identity.publicKey) with
      | .ok (links, _) => { actor with router := { actor.router with links := links } }
      | .error _ => actor
    match E.recordBytes record with
    | none => (actor, [])
    | some payload => publish moment payload actor.advertisedPeers actor

/-! ### Authorization -/

def validateAuthorization (actor : LinkActor P) (registry : AuthorizationRegistry)
    (checkCluster : Bool) : Except (LinkError P) Unit :=
  if checkCluster ∧ registry.clusterId ≠ actor.state.authorization.clusterId then
    .error (.foreignCluster actor.state.authorization.clusterId registry.clusterId)
  else .ok ()

/-- A quarantined connection of a peer that is authorized now. -/
def promote (actor : LinkActor P) (connectionId : ConnectionId) : LinkActor P :=
  match actor.state.quarantined[connectionId]? with
  | none => actor
  | some connection =>
    let state := { actor.state with quarantined := actor.state.quarantined.erase connectionId }
    match state.authorization.nodeForPeer P connection.peerId with
    | none => { actor with state := state }
    | some nodeId =>
      { actor with
        state := state.connectionEstablished connection.peerId nodeId connectionId connection.endpoint }

def installAuthorization (actor : LinkActor P) (moment : Moment) (registry : AuthorizationRegistry) :
    LinkActor P × List (LinkOutput P) :=
  let actor := { actor with
    state := { actor.state with authorization := registry }
    router := .new actor.state.nodeId }
  let promoted := (actor.state.quarantined.toList.filter fun entry =>
    (registry.nodeForPeer P entry.2.peerId).isSome).map Prod.fst
  let actor := promoted.foldl promote actor
  let stale := (actor.state.connections.toList.filter fun entry =>
    registry.nodeForPeer P entry.2.peerId ≠ some entry.2.nodeId).map Prod.fst
  let advertised := actor.advertiseLinkState E moment
  (advertised.1, stale.map .closeConnection ++ advertised.2)

def commitAuthorization (actor : LinkActor P) (moment : Moment) (registry : AuthorizationRegistry)
    (checkCluster persisted : Bool) (reply : Caller) : LinkActor P × List (LinkOutput P) :=
  match actor.validateAuthorization registry checkCluster with
  | .error error => (actor, [.settle reply (.error error)])
  | .ok () =>
    if persisted then
      let installed := actor.installAuthorization E moment registry
      (installed.1, installed.2 ++ [.settle reply (.ok ())])
    else (actor, [.settle reply (.error .authorizationCommit)])

/-! ### Connections -/

def connectionEstablished (actor : LinkActor P) (peerId : P.PeerId) (connectionId : ConnectionId)
    (endpoint : ConnectedPoint) : LinkActor P × List (LinkOutput P) :=
  match actor.state.authorization.nodeForPeer P peerId with
  | none =>
    if actor.state.quarantined.size ≥ maxQuarantinedConnections then
      (actor, [.closeConnection connectionId])
    else
      ({ actor with state := { actor.state with
          quarantined := actor.state.quarantined.insert connectionId ⟨peerId, endpoint⟩ } }, [])
  | some nodeId =>
    let state := actor.state.connectionEstablished peerId nodeId connectionId endpoint
    ({ actor with state := state }, (state.arbitrateConnections peerId nodeId).map .closeConnection)

def connectionClosed (actor : LinkActor P) (peerId : P.PeerId) (connectionId : ConnectionId) :
    LinkActor P :=
  let state := { actor.state with quarantined := actor.state.quarantined.erase connectionId }
  let actor := { actor with state := state.connectionClosed connectionId }
  if actor.state.peerIsConnected peerId || actor.state.peerIsQuarantined peerId then actor
  else actor.removePendingInboundPeer peerId

def ping (actor : LinkActor P) (peerId : P.PeerId) (connectionId : ConnectionId) (alive : Bool) :
    LinkActor P × List (LinkOutput P) :=
  ({ actor with state := actor.state.setConnectionHealth peerId connectionId alive },
    if alive then [] else [.closeConnection connectionId])

end LinkActor

/-! ### Events -/

inductive LinkCommand (P : Primitives) where
  | request (envelope : Envelope) (reply : Caller)
  | requestAdmission (sponsor : P.PeerId) (envelope : Envelope) (reply : Caller)
  | respond (token : InboundToken) (envelope : Envelope) (reply : Caller)
  | commitAuthorization (registry : AuthorizationRegistry) (checkCluster persisted : Bool) (reply : Caller)

inductive SwarmEvent (P : Primitives) where
  | connectionEstablished (peerId : P.PeerId) (connectionId : ConnectionId) (endpoint : ConnectedPoint)
  | connectionClosed (peerId : P.PeerId) (connectionId : ConnectionId)
  | ping (peerId : P.PeerId) (connectionId : ConnectionId) (alive : Bool)
  | request (peerId : P.PeerId) (requestId : InboundRequestId) (envelope : Envelope)
      (channel : ResponseChannel)
  | response (peerId : P.PeerId) (requestId : OutboundRequestId) (response : Envelope)
  | outboundFailure (requestId : OutboundRequestId)
  | inboundFailure (requestId : InboundRequestId)

/-- One pass of the actor's loop. `allocate` is a request identifier taken through a handle. -/
inductive LinkEvent (P : Primitives) where
  | command (command : LinkCommand P)
  | swarm (event : SwarmEvent P)
  | expire
  | allocate

namespace LinkActor

variable (E : LinkEncoding)

def handleCommand (actor : LinkActor P) (moment : Moment) :
    LinkCommand P → LinkActor P × List (LinkOutput P)
  | .request envelope reply => actor.sendRoutedRequest moment envelope reply
  | .requestAdmission sponsor envelope reply => actor.sendAdmissionRequest moment sponsor envelope reply
  | .respond token envelope reply => actor.respond moment token envelope reply
  | .commitAuthorization registry checkCluster persisted reply =>
    actor.commitAuthorization E moment registry checkCluster persisted reply

def applySwarmEvent (actor : LinkActor P) (moment : Moment) :
    SwarmEvent P → LinkActor P × List (LinkOutput P)
  | .connectionEstablished peerId connectionId endpoint =>
    actor.connectionEstablished peerId connectionId endpoint
  | .connectionClosed peerId connectionId => (actor.connectionClosed peerId connectionId, [])
  | .ping peerId connectionId alive => actor.ping peerId connectionId alive
  | .request peerId requestId envelope channel =>
    actor.handleInboundRequest E moment peerId requestId envelope channel
  | .response peerId requestId response => actor.handleResponse moment peerId requestId response
  | .outboundFailure requestId => actor.handleOutboundFailure moment requestId
  | .inboundFailure requestId => (actor.removePendingInboundRequest requestId, [])

/-- An event that changes the edges is followed by an advertisement. -/
def handleEvent (actor : LinkActor P) (moment : Moment) (event : SwarmEvent P) :
    LinkActor P × List (LinkOutput P) :=
  let handled := actor.applySwarmEvent E moment event
  if handled.1.state.edgeSet ≠ actor.state.edgeSet then
    let advertised := handled.1.advertiseLinkState E moment
    (advertised.1, handled.2 ++ advertised.2)
  else handled

def allocateRequestId (actor : LinkActor P) : LinkActor P :=
  match actor.requestIds.allocate P actor.state.nodeId with
  | none => actor
  | some (_, requestIds) => { actor with requestIds := requestIds }

def step (actor : LinkActor P) (moment : Moment) : LinkEvent P → LinkActor P × List (LinkOutput P)
  | .command command => actor.handleCommand E moment command
  | .swarm event => actor.handleEvent E moment event
  | .expire => actor.expirePendingRequests moment.now
  | .allocate => (actor.allocateRequestId, [])

def run (actor : LinkActor P) : List (Moment × LinkEvent P) → LinkActor P × List (LinkOutput P)
  | [] => (actor, [])
  | (moment, event) :: rest =>
    let stepped := actor.step E moment event
    let ran := run stepped.1 rest
    (ran.1, stepped.2 ++ ran.2)

end LinkActor

end Lycoris.Link
