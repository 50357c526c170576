import Lycoris.Overlay.Registry
import Lycoris.Overlay.Routing

/-!
The connection state of a link actor (`overlay/src/link/actor.rs`): endpoints, the connections of
authorized and of quarantined peers, and how duplicate connections are ranked. Addresses are multiaddrs,
of which only the transports and the binary form matter.
-/

namespace Lycoris.Link
open Lib Overlay

/-! ### Addresses -/

inductive Protocol where
  | quicV1
  | tcp (port : UInt16)
  | p2pCircuit
  | other (bytes : Bytes)
  deriving DecidableEq

/-- The multiaddr code of a protocol and its data. -/
def Protocol.toVec : Protocol → Bytes
  | quicV1 => [0xcd, 0x03]
  | tcp port => [0x06, UInt8.ofNat (port.toNat / 256), UInt8.ofNat port.toNat]
  | p2pCircuit => [0xa2, 0x02]
  | other bytes => bytes

abbrev Multiaddr := List Protocol

def Multiaddr.toVec (address : Multiaddr) : Bytes := address.flatMap Protocol.toVec

/-- How a connection came about, as its end sees it. -/
inductive ConnectedPoint where
  | dialer (address : Multiaddr)
  | listener (localAddr sendBackAddr : Multiaddr)
  deriving DecidableEq

namespace ConnectedPoint

def isDialer : ConnectedPoint → Bool
  | dialer _ => true
  | listener _ _ => false

/-- The address whose transports count. -/
def transportAddress : ConnectedPoint → Multiaddr
  | dialer address => address
  | listener localAddr _ => localAddr

def isRelayed (endpoint : ConnectedPoint) : Bool := endpoint.transportAddress.contains .p2pCircuit

def getRemoteAddress : ConnectedPoint → Multiaddr
  | dialer address => address
  | listener _ sendBackAddr => sendBackAddr

end ConnectedPoint

structure ConnectionPreference where
  transport : UInt8
  initiator : UInt8
  remoteAddress : Bytes
  deriving DecidableEq

/-- Byte strings compare as the lists of their values. -/
def byteOrder (bytes : Bytes) : List Nat := bytes.map UInt8.toNat

/-- The derived order: field by field. -/
def ConnectionPreference.key (preference : ConnectionPreference) : Nat ×ₗ Nat ×ₗ List Nat :=
  toLex (preference.transport.toNat,
    toLex (preference.initiator.toNat, byteOrder preference.remoteAddress))

def directQuic : UInt8 := 0
def directTcp : UInt8 := 1
def relayedQuic : UInt8 := 2
def relayedTcp : UInt8 := 3
def otherTransport : UInt8 := 4

/-- The transport of an endpoint, best first. -/
def transportOf (endpoint : ConnectedPoint) : UInt8 :=
  let quic := endpoint.transportAddress.any fun protocol => protocol matches .quicV1
  let tcp := endpoint.transportAddress.any fun protocol => protocol matches .tcp _
  match endpoint.isRelayed, quic, tcp with
  | false, true, _ => directQuic
  | false, _, true => directTcp
  | true, true, _ => relayedQuic
  | true, _, true => relayedTcp
  | _, _, _ => otherTransport

variable {P : Primitives}

def connectionPreference (localPeerId peerId : P.PeerId) (endpoint : ConnectedPoint) :
    ConnectionPreference :=
  let localIsCanonicalInitiator : Bool :=
    byteOrder (P.peerIdToBytes localPeerId) < byteOrder (P.peerIdToBytes peerId)
  let preferredRole := endpoint.isDialer == localIsCanonicalInitiator
  ⟨transportOf endpoint, if preferredRole then 0 else 1, endpoint.getRemoteAddress.toVec⟩

/-! ### Link state of an actor -/

abbrev ConnectionId := Nat

structure ConnectionInfo (P : Primitives) where
  peerId : P.PeerId
  nodeId : NodeId
  endpoint : ConnectedPoint

def maxQuarantinedConnections : Nat := 32

structure QuarantinedConnection (P : Primitives) where
  peerId : P.PeerId
  endpoint : ConnectedPoint

structure LinkState (P : Primitives) where
  nodeId : NodeId
  localPeerId : P.PeerId
  authorization : AuthorizationRegistry
  connections : Std.ExtTreeMap ConnectionId (ConnectionInfo P) compare
  healthyConnections : Std.ExtTreeSet ConnectionId compare
  quarantined : Std.ExtTreeMap ConnectionId (QuarantinedConnection P) compare

namespace LinkState

def new (nodeId : NodeId) (localPeerId : P.PeerId) (authorization : AuthorizationRegistry) :
    LinkState P :=
  ⟨nodeId, localPeerId, authorization, ∅, ∅, ∅⟩

def links (state : LinkState P) : List (ConnectionInfo P) := state.connections.toList.map Prod.snd

def activePeerForNode (state : LinkState P) (nodeId : NodeId) : Option P.PeerId :=
  state.authorization.activePeerForNode P nodeId

def edgeSet (state : LinkState P) : Std.ExtTreeSet NodeId compare :=
  .ofList (state.links.map ConnectionInfo.nodeId) compare

def nodeIsConnected (state : LinkState P) (nodeId : NodeId) : Bool :=
  state.links.any fun connection => connection.nodeId = nodeId

def peerIsConnected (state : LinkState P) (peerId : P.PeerId) : Bool :=
  state.links.any fun connection => connection.peerId = peerId

def peerIsQuarantined (state : LinkState P) (peerId : P.PeerId) : Bool :=
  state.quarantined.toList.any fun entry => entry.2.peerId = peerId

def connectionEstablished (state : LinkState P) (peerId : P.PeerId) (nodeId : NodeId)
    (connectionId : ConnectionId) (endpoint : ConnectedPoint) : LinkState P :=
  { state with connections := state.connections.insert connectionId ⟨peerId, nodeId, endpoint⟩ }

def connectionClosed (state : LinkState P) (connectionId : ConnectionId) : LinkState P :=
  { state with
    healthyConnections := state.healthyConnections.erase connectionId
    connections := state.connections.erase connectionId }

def setConnectionHealth (state : LinkState P) (peerId : P.PeerId) (connectionId : ConnectionId)
    (healthy : Bool) : LinkState P :=
  match state.connections[connectionId]? with
  | none => { state with healthyConnections := state.healthyConnections.erase connectionId }
  | some connection =>
    if connection.peerId ≠ peerId then state
    else if healthy then
      { state with healthyConnections := state.healthyConnections.insert connectionId }
    else { state with healthyConnections := state.healthyConnections.erase connectionId }

/-! ### Duplicate connections -/

/-- A connection to the node and its rank. Equal preferences are ranked by the local connection id. -/
def candidates (state : LinkState P) (peerId : P.PeerId) (nodeId : NodeId) :
    List (ConnectionId × ConnectionPreference) :=
  (state.connections.toList.filter fun entry => entry.2.nodeId = nodeId).map fun entry =>
    (entry.1, connectionPreference state.localPeerId peerId entry.2.endpoint)

/-- The order the candidates are sorted in. -/
def rank (candidate : ConnectionId × ConnectionPreference) :
    (Nat ×ₗ Nat ×ₗ List Nat) ×ₗ ConnectionId :=
  toLex (candidate.2.key, candidate.1)

/-- The connections that are closed: all but the first of the candidates in order. -/
def arbitrateConnections (state : LinkState P) (peerId : P.PeerId) (nodeId : NodeId) :
    List ConnectionId :=
  let candidates := state.candidates peerId nodeId
  if candidates.length ≤ 1 then []
  else ((candidates.insertionSort fun left right => rank left ≤ rank right).drop 1).map Prod.fst

end LinkState

end Lycoris.Link
