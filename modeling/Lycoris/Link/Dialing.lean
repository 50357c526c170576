import Lycoris.Link.Directory
import Lycoris.Link.Actor

/-!
The part of the link actor (`overlay/src/link/actor.rs`) that chooses whom to connect to: a link actor
with its peer directory and the dials underway. Relay reservations and listeners are left out.
-/

namespace Lycoris.Link
open Lib Overlay

structure LinkConfig where
  reconnectMinDelay : Duration := 1000000000
  reconnectMaxDelay : Duration := 30000000000
  discoveredAddressTtl : Duration := 120000000000

/-- What a handler meets: the reading of the monotonic clock, and which dials the swarm takes on. -/
structure DialMoment (P : Primitives) extends Moment where
  instant : Instant
  dials : P.PeerId → Multiaddr → Bool

inductive DialError where
  | unauthorizedNode (nodeId : NodeId)
  | notConnected (nodeId : NodeId)
  | transport
  deriving DecidableEq

inductive DialOutput (P : Primitives) where
  | link (output : LinkOutput P)
  | dial (nodeId : NodeId) (peerId : P.PeerId) (address : Multiaddr)
  | disconnect (peerId : P.PeerId)
  | settle (caller : Caller) (result : Except DialError Unit)

inductive DialEvent (P : Primitives) where
  | link (event : LinkEvent P)
  | dial (nodeId : NodeId) (address : Multiaddr) (reply : Caller)
  | disconnect (nodeId : NodeId) (reply : Caller)
  | discovered (found : List (P.PeerId × Multiaddr))
  | expired (lost : List (P.PeerId × Multiaddr))
  | maintain
  | dialing (peerId : Option P.PeerId) (connectionId : ConnectionId)
  | outgoingConnectionError (connectionId : ConnectionId)

structure Dialer (P : Primitives) where
  link : LinkActor P
  directory : PeerDirectory P
  pendingDials : Std.ExtTreeMap ConnectionId NodeId compare
  config : LinkConfig

variable {P : Primitives}

namespace Dialer

def new (link : LinkActor P) (config : LinkConfig) : Dialer P := ⟨link, .empty, ∅, config⟩

def pendingForNode (dialer : Dialer P) (nodeId : NodeId) : Bool :=
  dialer.pendingDials.toList.any fun pending => pending.2 = nodeId

/-- A dial that the swarm does not take on is a failure of the address. -/
def dialAddress (dialer : Dialer P) (moment : DialMoment P) (nodeId : NodeId) (peerId : P.PeerId)
    (address : Multiaddr) : Dialer P :=
  if moment.dials peerId address then dialer
  else
    { dialer with
      directory := dialer.directory.noteFailure nodeId (some address) moment.instant
        dialer.config.reconnectMinDelay dialer.config.reconnectMaxDelay }

def dial (dialer : Dialer P) (moment : DialMoment P) (nodeId : NodeId) (address : Multiaddr)
    (reply : Caller) : Dialer P × List (DialOutput P) :=
  match dialer.link.state.activePeerForNode nodeId with
  | none => (dialer, [.settle reply (.error (.unauthorizedNode nodeId))])
  | some peerId =>
    let directory := dialer.directory.record nodeId peerId address .configured moment.instant
      dialer.config.discoveredAddressTtl
    let dialed := { dialer with directory := directory.resume nodeId }.dialAddress moment nodeId peerId address
    (dialed, [.dial nodeId peerId address,
      .settle reply (if moment.dials peerId address then .ok () else .error .transport)])

def disconnect (dialer : Dialer P) (nodeId : NodeId) (reply : Caller) : Dialer P × List (DialOutput P) :=
  let outputs :=
    match dialer.link.state.activePeerForNode nodeId with
    | none => [.settle reply (.error (.unauthorizedNode nodeId))]
    | some peerId =>
      if dialer.link.state.peerIsConnected peerId || dialer.link.state.peerIsQuarantined peerId then
        [.disconnect peerId, .settle reply (.ok ())]
      else [.settle reply (.error (.notConnected nodeId))]
  ({ dialer with directory := dialer.directory.pause nodeId }, outputs)

/-- The candidates are chosen before the first of them is dialed. -/
def maintain (dialer : Dialer P) (moment : DialMoment P) : Dialer P × List (DialOutput P) :=
  let expired := dialer.link.expirePendingRequests moment.now
  let dialer := { dialer with
    link := expired.1
    directory := dialer.directory.expire moment.instant }
  let candidates := (dialer.directory.candidates moment.instant).filter fun candidate =>
    !(dialer.link.state.nodeIsConnected candidate.1 || dialer.pendingForNode candidate.1)
  (candidates.foldl (fun dialer candidate =>
      dialer.dialAddress moment candidate.1 candidate.2.1 candidate.2.2) dialer,
    expired.2.map .link ++ candidates.map fun candidate => .dial candidate.1 candidate.2.1 candidate.2.2)

def recordDiscoveredAddress (moment : DialMoment P) (dialer : Dialer P) (found : P.PeerId × Multiaddr) :
    Dialer P :=
  match dialer.link.state.authorization.nodeForPeer P found.1 with
  | none => dialer
  | some nodeId =>
    { dialer with
      directory := dialer.directory.record nodeId found.1 found.2 .mdns moment.instant
        dialer.config.discoveredAddressTtl }

def expireDiscoveredAddress (dialer : Dialer P) (lost : P.PeerId × Multiaddr) : Dialer P :=
  { dialer with directory := dialer.directory.remove lost.1 lost.2 }

def dialing (dialer : Dialer P) (peerId : Option P.PeerId) (connectionId : ConnectionId) : Dialer P :=
  match peerId.bind (dialer.link.state.authorization.nodeForPeer P) with
  | none => dialer
  | some nodeId => { dialer with pendingDials := dialer.pendingDials.insert connectionId nodeId }

def outgoingConnectionError (dialer : Dialer P) (moment : DialMoment P) (connectionId : ConnectionId) :
    Dialer P :=
  match dialer.pendingDials[connectionId]? with
  | none => dialer
  | some nodeId =>
    { dialer with
      pendingDials := dialer.pendingDials.erase connectionId
      directory := dialer.directory.noteFailure nodeId none moment.instant
        dialer.config.reconnectMinDelay dialer.config.reconnectMaxDelay }

variable (E : LinkEncoding)

/-- What an event of the link does to the directory. -/
def noteEvent (dialer : Dialer P) (moment : DialMoment P) (after : LinkActor P) :
    LinkEvent P → PeerDirectory P
  | .swarm (.connectionEstablished peerId _ endpoint) =>
    match dialer.link.state.authorization.nodeForPeer P peerId with
    | none => dialer.directory
    | some nodeId => dialer.directory.noteSuccess nodeId endpoint.getRemoteAddress moment.instant
  | .swarm (.connectionClosed _ connectionId) =>
    match dialer.link.state.connections[connectionId]? with
    | none => dialer.directory
    | some connection =>
      if after.state.nodeIsConnected connection.nodeId then dialer.directory
      else
        dialer.directory.noteConnectionClosed connection.nodeId moment.instant dialer.config.reconnectMinDelay
  | .command (.commitAuthorization registry checkCluster persisted _) =>
    if (dialer.link.validateAuthorization registry checkCluster).isOk && persisted then
      dialer.directory.retain fun nodeId => (registry.activePeerForNode P nodeId).isSome
    else dialer.directory
  | _ => dialer.directory

def noteDials (dialer : Dialer P) : LinkEvent P → Std.ExtTreeMap ConnectionId NodeId compare
  | .swarm (.connectionEstablished _ connectionId _) => dialer.pendingDials.erase connectionId
  | .swarm (.connectionClosed _ connectionId) => dialer.pendingDials.erase connectionId
  | _ => dialer.pendingDials

def step (dialer : Dialer P) (moment : DialMoment P) : DialEvent P → Dialer P × List (DialOutput P)
  | .link event =>
    let stepped := dialer.link.step E moment.toMoment event
    ({ dialer with
        link := stepped.1
        directory := dialer.noteEvent moment stepped.1 event
        pendingDials := dialer.noteDials event }, stepped.2.map .link)
  | .dial nodeId address reply => dialer.dial moment nodeId address reply
  | .disconnect nodeId reply => dialer.disconnect nodeId reply
  | .discovered found => (found.foldl (recordDiscoveredAddress moment) dialer).maintain moment
  | .expired lost => (lost.foldl expireDiscoveredAddress dialer).maintain moment
  | .maintain => dialer.maintain moment
  | .dialing peerId connectionId => (dialer.dialing peerId connectionId, [])
  | .outgoingConnectionError connectionId => (dialer.outgoingConnectionError moment connectionId, [])

/-- The state after one event. -/
def next (dialer : Dialer P) (event : DialMoment P × DialEvent P) : Dialer P :=
  (dialer.step E event.1 event.2).1

end Dialer

end Lycoris.Link
