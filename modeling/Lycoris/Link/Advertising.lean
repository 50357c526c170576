import Lycoris.Link.Effects
import Lycoris.Overlay.LinkRecord

/-!
Link state of one actor: what an advertisement says and to whom it goes, and what an accepted record
changes.
-/

namespace Lycoris.Link
open Lib Overlay

variable {P : Primitives}

/-! ### Advertisements -/

/-- An envelope with the record. -/
def Announces (E : LinkEncoding) (record : LinkStateRecord) (envelope : Envelope) : Prop :=
  isLinkState envelope ∧ envelope.header.version = protocolVersion ∧
    E.recordFromBytes envelope.payload = some record

/-- The envelope an event hands over. -/
def LinkEvent.envelope? : LinkEvent P → Option Envelope
  | .command (.request envelope _) => some envelope
  | .swarm (.request _ _ envelope _) => some envelope
  | _ => none

/-- The registry an event hands over. -/
def LinkEvent.registry? : LinkEvent P → Option AuthorizationRegistry
  | .command (.commitAuthorization registry _ _ _) => some registry
  | _ => none

namespace LinkActor

variable {E : LinkEncoding} {moment : Moment}

/-- Publishing uses up identifiers and changes nothing else. -/
theorem publish_keeps (payload : Bytes) (peers : List (P.PeerId × NodeId)) (actor : LinkActor P) :
    ∃ requestIds outboundId broadcasts, (publish moment payload peers actor).1 =
      { actor with
        requestIds := requestIds
        nextOutboundId := outboundId
        broadcastRequests := broadcasts } := by
  induction peers generalizing actor with
  | nil => exact ⟨_, _, _, rfl⟩
  | cons peer peers ih =>
    unfold publish
    split
    · exact ⟨_, _, _, rfl⟩
    · dsimp only
      split
      · exact ⟨_, _, _, rfl⟩
      · obtain ⟨requestIds, outboundId, broadcasts, same⟩ := ih _
        exact ⟨requestIds, outboundId, broadcasts, same⟩

theorem publish_only {record : LinkStateRecord} {payload : Bytes}
    (decoded : E.recordFromBytes payload = some record) (peers : List (P.PeerId × NodeId))
    (actor : LinkActor P) {requestId : OutboundRequestId} {peerId : P.PeerId} {envelope : Envelope}
    (sent : .sendRequest requestId peerId envelope ∈ (publish moment payload peers actor).2) :
    Announces E record envelope := by
  induction peers generalizing actor with
  | nil => cases sent
  | cons peer peers ih =>
    unfold publish at sent
    split at sent
    · cases sent
    · dsimp only at sent
      split at sent
      · cases sent
      · rename_i made
        rcases List.mem_cons.mp sent with here | later
        · obtain ⟨_, _, rfl⟩ := LinkOutput.sendRequest.inj here
          unfold Envelope.new at made
          split at made
          · cases made
          · obtain rfl := Except.ok.inj made
            exact ⟨⟨rfl, rfl⟩, rfl, decoded⟩
        · exact ih _ later

/-- With request identifiers left over, every peer was told. -/
theorem publish_tells {payload : Bytes} (fits : payload.length ≤ maxPayloadBytes)
    (peers : List (P.PeerId × NodeId)) (actor : LinkActor P)
    (left : (publish moment payload peers actor).1.requestIds.next ≠ UInt64.ofNat (2 ^ 64 - 1))
    {peer : P.PeerId × NodeId} (member : peer ∈ peers) :
    ∃ requestId envelope, .sendRequest requestId peer.1 envelope ∈ (publish moment payload peers actor).2 := by
  induction peers generalizing actor with
  | nil => cases member
  | cons first peers ih =>
    unfold publish at left ⊢
    split
    · rename_i none
      rw [none] at left
      unfold RequestSequence.allocate at none
      split at none
      · rename_i exhausted
        exact absurd exhausted left
      · cases none
    · rename_i requestId requestIds allocated
      rw [allocated] at left
      dsimp only at left ⊢
      have made : Envelope.new (LinkActor.linkStateHeader { actor with requestIds := requestIds } moment
          requestId first.2) payload = .ok ⟨_, payload⟩ := if_neg (not_lt.mpr fits)
      rw [made] at left ⊢
      dsimp only at left ⊢
      rcases List.mem_cons.mp member with rfl | later
      · exact ⟨_, _, List.mem_cons_self⟩
      · obtain ⟨requestId', envelope, sent⟩ := ih _ left later
        exact ⟨requestId', envelope, List.mem_cons_of_mem _ sent⟩

theorem advertiseLinkState_keeps (actor : LinkActor P) (moment : Moment) :
    (actor.advertiseLinkState E moment).1.identity = actor.identity ∧
      (actor.advertiseLinkState E moment).1.state = actor.state := by
  obtain ⟨links, -, plain | ⟨payload, published⟩⟩ := actor.advertiseLinkState_cases E moment
  · rw [plain]
    exact ⟨rfl, rfl⟩
  · obtain ⟨requestIds, outboundId, broadcasts, same⟩ :=
      publish_keeps payload actor.advertisedPeers (actor.tracking moment links)
    rw [published, same]
    exact ⟨rfl, rfl⟩

/-- An advertisement of the connections there are. -/
structure Advertised (E : LinkEncoding) (before after : LinkActor P) (outputs : List (LinkOutput P))
    (record : LinkStateRecord) : Prop where
  identity : after.identity = before.identity
  state : after.state = before.state
  named : record.nodeId = before.identity.nodeId
  edges : record.edges =
    advertisedEdges before.identity.nodeId (before.state.links.map ConnectionInfo.nodeId)
  sequence : record.sequence = after.lastLinkStateSequence
  raised : before.lastLinkStateSequence < after.lastLinkStateSequence
  verified : record.verifyWith P E (P.encodePublicKey before.identity.publicKey) = .ok ()
  links : after.router.links.records = before.router.links.records.insert record.nodeId record
  told : ∀ info ∈ before.state.links, ∃ requestId envelope,
    .sendRequest requestId info.peerId envelope ∈ outputs
  only : ∀ {requestId peerId envelope}, .sendRequest requestId peerId envelope ∈ outputs →
    Announces E record envelope

/-- Neither the identifiers nor the sequence numbers are used up, and a record has room for the edges. -/
structure Room (actor : LinkActor P) : Prop where
  edges : (advertisedEdges actor.identity.nodeId
    (actor.state.links.map ConnectionInfo.nodeId)).length ≤ maxLinkStateEdges
  requests : actor.requestIds.next ≠ UInt64.ofNat (2 ^ 64 - 1)
  sequences : actor.lastLinkStateSequence ≠ UInt64.ofNat (2 ^ 64 - 1)

theorem lt_nextLinkStateSequence {actor : LinkActor P} (moment : Moment)
    (room : actor.lastLinkStateSequence ≠ UInt64.ofNat (2 ^ 64 - 1)) :
    actor.lastLinkStateSequence < actor.nextLinkStateSequence moment := by
  have bound := actor.lastLinkStateSequence.toNat_lt
  have full : (UInt64.ofNat (2 ^ 64 - 1)).toNat = 2 ^ 64 - 1 := by decide
  have below : actor.lastLinkStateSequence.toNat ≠ 2 ^ 64 - 1 := fun same =>
    room (UInt64.toNat_inj.mp (same.trans full.symm))
  have next : (actor.lastLinkStateSequence + 1).toNat = actor.lastLinkStateSequence.toNat + 1 := by
    rw [UInt64.toNat_add]
    exact Nat.mod_eq_of_lt (by show _ + 1 < _; omega)
  show _ < if UInt64.ofNat moment.now.toNat ≤ actor.lastLinkStateSequence + 1 then _ else _
  rw [UInt64.lt_iff_toNat_lt]
  split
  · omega
  · rename_i later
    have above := UInt64.lt_iff_toNat_lt.mp (UInt64.not_le.mp later)
    omega

theorem advertiseLinkState_advertised (moment : Moment) {actor : LinkActor P}
    (sound : Sound E actor.identity)
    (few : (advertisedEdges actor.identity.nodeId
      (actor.state.links.map ConnectionInfo.nodeId)).length ≤ maxLinkStateEdges)
    (room : actor.lastLinkStateSequence ≠ UInt64.ofNat (2 ^ 64 - 1))
    (left : (actor.advertiseLinkState E moment).1.requestIds.next ≠ UInt64.ofNat (2 ^ 64 - 1))
    (older : ∀ current, actor.router.links.records[actor.identity.nodeId]? = some current →
      current.sequence ≤ actor.lastLinkStateSequence) :
    ∃ record, Advertised E actor (actor.advertiseLinkState E moment).1
      (actor.advertiseLinkState E moment).2 record := by
  have raised := lt_nextLinkStateSequence moment room
  obtain ⟨record, signed, named, sequence, edges, verified⟩ :=
    sound.sign few (actor.nextLinkStateSequence moment)
  obtain ⟨payload, encoded, fits, decoded⟩ := sound.carries signed
  obtain ⟨links, advanced, inserted⟩ := actor.router.links.insert_of_verified verified
  let tracked : LinkActor P := { actor with
    lastLinkStateSequence := actor.nextLinkStateSequence moment
    router := { actor.router with links := links } }
  have published : actor.advertiseLinkState E moment =
      publish moment payload actor.advertisedPeers tracked := by
    unfold advertiseLinkState
    dsimp only
    rw [signed]
    dsimp only
    rw [inserted]
    dsimp only
    rw [encoded]
    rfl
  have recorded : links.records = actor.router.links.records.insert record.nodeId record := by
    rcases LinkStateDb.insert_cases inserted with ⟨_, current, found, stale⟩ | ⟨grown, _⟩
    · rw [named] at found
      have fresh := UInt64.lt_of_le_of_lt (older current found) raised
      rw [sequence] at stale
      exact absurd fresh (UInt64.not_lt.mpr stale)
    · exact grown
  rw [published] at left ⊢
  obtain ⟨requestIds, outboundId, broadcasts, same⟩ :=
    @publish_keeps P moment payload actor.advertisedPeers tracked
  refine ⟨record, ⟨?_, ?_, named, edges, ?_, ?_, verified, ?_, ?_, ?_⟩⟩
  · rw [same]
  · rw [same]
  · rw [same]
    exact sequence
  · rw [same]
    exact raised
  · rw [same]
    exact recorded
  · intro info member
    have listed : (info.peerId, info.nodeId) ∈ actor.advertisedPeers :=
      List.mem_dedup.mpr (List.mem_map_of_mem member)
    exact publish_tells fits _ tracked left listed
  · intro requestId peerId envelope sent
    exact publish_only decoded _ tracked sent

/-! ### Connections -/

/-- The same node with the same link state. Its connections are those it had and some its registry
vouches for. -/
structure Rewired (before after : LinkActor P) : Prop where
  identity : after.identity = before.identity
  authorization : after.state.authorization = before.state.authorization
  links : after.router.links = before.router.links
  sequence : after.lastLinkStateSequence = before.lastLinkStateSequence
  connections : ∀ {info}, info ∈ after.state.links → info ∈ before.state.links ∨
    after.state.authorization.nodeForPeer P info.peerId = some info.nodeId

theorem Steady.rewired {before after : LinkActor P} (steady : Steady before after) :
    Rewired before after := by
  refine ⟨steady.identity, steady.authorization, steady.links, steady.sequence, fun member => .inl ?_⟩
  rw [LinkState.links, steady.connections] at member
  exact member

theorem Rewired.trans {first second third : LinkActor P} (before : Rewired first second)
    (after : Rewired second third) : Rewired first third := by
  refine ⟨after.identity.trans before.identity, after.authorization.trans before.authorization,
    after.links.trans before.links, after.sequence.trans before.sequence, fun member => ?_⟩
  rcases after.connections member with old | vouched
  · rcases before.connections old with older | vouched
    · exact .inl older
    · rw [← after.authorization] at vouched
      exact .inr vouched
  · exact .inr vouched

/-- A change of the connection state alone. -/
theorem Rewired.of_state {actor : LinkActor P} {state : LinkState P}
    (authorization : state.authorization = actor.state.authorization)
    (connections : ∀ {info}, info ∈ state.links → info ∈ actor.state.links ∨
      state.authorization.nodeForPeer P info.peerId = some info.nodeId) :
    Rewired actor { actor with state := state } :=
  ⟨rfl, authorization, rfl, rfl, connections⟩

theorem connectionEstablished_vouched {state : LinkState P} {peerId : P.PeerId} {nodeId : NodeId}
    (vouched : state.authorization.nodeForPeer P peerId = some nodeId) (connectionId : ConnectionId)
    (endpoint : ConnectedPoint) {info : ConnectionInfo P}
    (member : info ∈ (state.connectionEstablished peerId nodeId connectionId endpoint).links) :
    info ∈ state.links ∨ state.authorization.nodeForPeer P info.peerId = some info.nodeId := by
  obtain ⟨⟨id, _⟩, listed, rfl⟩ := List.mem_map.mp member
  have found := Std.ExtTreeMap.mem_toList_iff_getElem?_eq_some.mp listed
  rw [LinkState.connectionEstablished, Std.ExtTreeMap.getElem?_insert] at found
  split at found
  · rw [← Option.some.inj found]
    exact .inr vouched
  · exact .inl (List.mem_map.mpr ⟨(id, _), Std.ExtTreeMap.mem_toList_iff_getElem?_eq_some.mpr found, rfl⟩)

variable (E) (actor : LinkActor P) (moment)

theorem connectionEstablished_rewired (peerId : P.PeerId) (connectionId : ConnectionId)
    (endpoint : ConnectedPoint) :
    Rewired actor (actor.connectionEstablished peerId connectionId endpoint).1 := by
  unfold connectionEstablished
  split
  · split
    · exact (Steady.refl actor).rewired
    · exact .of_state rfl .inl
  · rename_i nodeId vouched
    exact .of_state rfl (connectionEstablished_vouched vouched connectionId endpoint)

theorem connectionClosed_rewired (peerId : P.PeerId) (connectionId : ConnectionId) :
    Rewired actor (actor.connectionClosed peerId connectionId) := by
  let state := { actor.state with quarantined := actor.state.quarantined.erase connectionId }
  have closed : Rewired actor { actor with state := state.connectionClosed connectionId } := by
    refine .of_state rfl fun member => .inl ?_
    obtain ⟨⟨id, info⟩, listed, rfl⟩ := List.mem_map.mp member
    have found := Std.ExtTreeMap.mem_toList_iff_getElem?_eq_some.mp listed
    rw [LinkState.connectionClosed, Std.ExtTreeMap.getElem?_erase] at found
    split at found
    · cases found
    · exact List.mem_map.mpr ⟨(id, info), Std.ExtTreeMap.mem_toList_iff_getElem?_eq_some.mpr found, rfl⟩
  unfold connectionClosed
  dsimp only
  split
  · exact closed
  · exact closed.trans (removePendingInboundPeer_idle _ peerId).rewired

theorem promote_rewired (connectionId : ConnectionId) : Rewired actor (actor.promote connectionId) := by
  unfold promote
  split
  · exact (Steady.refl actor).rewired
  · dsimp only
    split
    · exact .of_state rfl .inl
    · rename_i nodeId vouched
      exact .of_state rfl (connectionEstablished_vouched vouched connectionId _)

theorem foldl_promote_rewired (connectionIds : List ConnectionId) :
    Rewired actor (connectionIds.foldl promote actor) := by
  induction connectionIds generalizing actor with
  | nil => exact (Steady.refl actor).rewired
  | cons connectionId rest ih => exact (actor.promote_rewired connectionId).trans (ih _)

/-! ### Requests of other kinds -/

theorem sendPeerRequest_plain (peerId : P.PeerId) {envelope : Envelope} (other : ¬ isLinkState envelope)
    (reply : Caller) : Plain (actor.sendPeerRequest moment peerId envelope reply).2 := by
  unfold sendPeerRequest
  split
  · exact .singleton trivial
  · intro requestId peerId' envelope' sent
    obtain ⟨_, _, rfl⟩ := LinkOutput.sendRequest.inj (List.mem_singleton.mp sent)
    exact other

theorem sendRoutedRequest_plain {envelope : Envelope} (other : ¬ isLinkState envelope)
    (reply : Caller) : Plain (actor.sendRoutedRequest moment envelope reply).2 := by
  unfold sendRoutedRequest
  split
  · exact .singleton trivial
  · split
    · exact actor.sendPeerRequest_plain moment _ other reply
    · exact .singleton trivial

theorem sendAdmissionRequest_plain (sponsor : P.PeerId) (envelope : Envelope) (reply : Caller) :
    Plain (actor.sendAdmissionRequest moment sponsor envelope reply).2 := by
  unfold sendAdmissionRequest
  split
  · exact .singleton trivial
  · rename_i admission
    dsimp only
    split
    · exact .singleton trivial
    · refine actor.sendPeerRequest_plain moment sponsor (fun linkState => ?_) reply
      rw [linkState.1] at admission
      exact admission nofun

theorem routeInbound_plain (peerId : P.PeerId) (requestId : InboundRequestId) {envelope : Envelope}
    (other : ¬ isLinkState envelope) (channel : ResponseChannel) :
    Plain (actor.routeInbound moment peerId requestId envelope channel).2 := by
  unfold routeInbound
  dsimp only
  split
  · exact (Plain.routed _ _).append (deliver_silent _ moment peerId requestId _ channel).plain
  · rename_i hop forwarded decided
    split
    · exact .routed _ _
    · refine (Plain.routed _ _).append ?_
      intro outboundId nextPeer sent member
      obtain ⟨_, _, rfl⟩ := LinkOutput.sendRequest.inj (List.mem_singleton.mp member)
      obtain ⟨protocol, kind⟩ := Router.handle_forward decided
      rw [isLinkState, protocol, kind]
      exact other
  · exact .routed _ _

/-! ### Steps -/

/-- A step that other nodes do not hear of. -/
structure Unheard (before : LinkActor P) (stepped : LinkActor P × List (LinkOutput P)) : Prop where
  rewired : Rewired before stepped.1
  edges : stepped.1.state.edgeSet = before.state.edgeSet
  plain : Plain stepped.2

/-- A step that tells of the connections. -/
def Tells (E : LinkEncoding) (moment : Moment) (before : LinkActor P)
    (stepped : LinkActor P × List (LinkOutput P)) : Prop :=
  ∃ rewired outputs more, Rewired before rewired ∧ Plain outputs ∧ Plain more ∧
    stepped = ((rewired.advertiseLinkState E moment).1,
      outputs ++ (rewired.advertiseLinkState E moment).2 ++ more)

/-- The actor with another registry and a router that starts over. -/
def withRegistry (registry : AuthorizationRegistry) : LinkActor P :=
  { actor with
    state := { actor.state with authorization := registry }
    router := .new actor.state.nodeId }

theorem Steady.unheard {before after : LinkActor P} (steady : Steady before after)
    {outputs : List (LinkOutput P)} (plain : Plain outputs) : Unheard before (after, outputs) :=
  ⟨steady.rewired, LinkState.edgeSet_congr steady.connections, plain⟩

theorem handleEvent_unheard_or_tells {event : SwarmEvent P}
    (rewired : Rewired actor (actor.applySwarmEvent E moment event).1)
    (plain : Plain (actor.applySwarmEvent E moment event).2) :
    Unheard actor (actor.handleEvent E moment event) ∨
      Tells E moment actor (actor.handleEvent E moment event) := by
  unfold handleEvent
  dsimp only
  split
  · refine .inr ⟨_, _, [], rewired, plain, Silent.nil.plain, ?_⟩
    rw [List.append_nil]
  · rename_i same
    exact .inl ⟨rewired, not_not.mp same, plain⟩

theorem installAuthorization_tells (registry : AuthorizationRegistry) :
    ∃ rewired outputs, Rewired (actor.withRegistry registry) rewired ∧ Plain outputs ∧
      actor.installAuthorization E moment registry = ((rewired.advertiseLinkState E moment).1,
        outputs ++ (rewired.advertiseLinkState E moment).2) := by
  unfold installAuthorization
  exact ⟨_, _, foldl_promote_rewired _ _, (Silent.closes _).plain, rfl⟩

/-- Everything but link state that arrives: connections change at most as the registry says, and a change
of edges is told. -/
theorem step_unheard_or_tells {event : LinkEvent P}
    (other : ∀ envelope, event.envelope? = some envelope → ¬ isLinkState envelope) :
    Unheard actor (actor.step E moment event) ∨ Tells E moment actor (actor.step E moment event) ∨
    ∃ registry, event.registry? = some registry ∧ actor.Installs event ∧
      Tells E moment (actor.withRegistry registry) (actor.step E moment event) := by
  have swarm : ∀ {event : SwarmEvent P}, Rewired actor (actor.applySwarmEvent E moment event).1 →
      Plain (actor.applySwarmEvent E moment event).2 →
      Unheard actor (actor.handleEvent E moment event) ∨
        Tells E moment actor (actor.handleEvent E moment event) ∨
        ∃ registry, LinkEvent.registry? (.swarm event) = some registry ∧ actor.Installs (.swarm event) ∧
          Tells E moment (actor.withRegistry registry) (actor.handleEvent E moment event) := by
    intro event rewired plain
    rcases actor.handleEvent_unheard_or_tells E moment rewired plain with unheard | tells
    · exact .inl unheard
    · exact .inr (.inl tells)
  cases event with
  | command command =>
    cases command with
    | request envelope reply =>
      exact .inl ((actor.sendRoutedRequest_idle moment envelope reply).unheard
        (actor.sendRoutedRequest_plain moment (other envelope rfl) reply))
    | requestAdmission sponsor envelope reply =>
      exact .inl ((actor.sendAdmissionRequest_idle moment sponsor envelope reply).unheard
        (actor.sendAdmissionRequest_plain moment sponsor envelope reply))
    | respond token envelope reply =>
      exact .inl ((actor.respond_idle moment token envelope reply).unheard
        (actor.respond_silent moment token envelope reply).plain)
    | commitAuthorization registry checkCluster persisted reply =>
      rw [step, handleCommand]
      rcases actor.commitAuthorization_cases E moment registry checkCluster persisted reply with
        ⟨valid, stored, installed⟩ | ⟨_, error, refused⟩
      · refine .inr (.inr ⟨registry, rfl, ⟨valid, stored⟩, ?_⟩)
        obtain ⟨rewired, outputs, kept, plain, told⟩ :=
          actor.installAuthorization_tells E moment registry
        rw [installed, told]
        exact ⟨rewired, outputs, [.settle reply (.ok ())], kept, plain, .singleton trivial, rfl⟩
      · rw [refused]
        exact .inl ((Steady.refl actor).unheard (.singleton trivial))
  | swarm event =>
    cases event with
    | connectionEstablished peerId connectionId endpoint =>
      exact swarm (actor.connectionEstablished_rewired peerId connectionId endpoint)
        (actor.connectionEstablished_silent peerId connectionId endpoint).plain
    | connectionClosed peerId connectionId =>
      exact swarm (actor.connectionClosed_rewired peerId connectionId) Silent.nil.plain
    | ping peerId connectionId alive =>
      exact swarm (actor.ping_idle peerId connectionId alive).rewired
        (actor.ping_silent peerId connectionId alive).plain
    | request peerId requestId envelope channel =>
      rcases actor.handleInboundRequest_cases E moment peerId requestId envelope channel with
        ⟨routed, _, _⟩ | ⟨linkState, _⟩ | ⟨idle, silent⟩
      · refine swarm ?_ ?_
        · rw [applySwarmEvent, routed]
          exact (actor.routeInbound_steady moment peerId requestId envelope channel).rewired
        · rw [applySwarmEvent, routed]
          exact actor.routeInbound_plain moment peerId requestId (other envelope rfl) channel
      · exact absurd linkState (other envelope rfl)
      · exact swarm idle.rewired silent.plain
    | response peerId requestId response =>
      exact swarm (actor.handleResponse_quiet moment peerId requestId response).steady.rewired
        (actor.handleResponse_silent moment peerId requestId response).plain
    | outboundFailure requestId =>
      exact swarm (actor.handleOutboundFailure_quiet moment requestId).steady.rewired
        (actor.handleOutboundFailure_silent moment requestId).plain
    | inboundFailure requestId =>
      exact swarm (actor.removePendingInboundRequest_idle requestId).rewired Silent.nil.plain
  | expire =>
    exact .inl ((actor.expirePendingRequests_quiet moment.now).steady.unheard
      (actor.expirePendingRequests_silent moment.now).plain)
  | allocate => exact .inl (actor.allocateRequestId_idle.unheard Silent.nil.plain)

/-! ### Link state that arrives -/

/-- The receiver looks at link state of the peer. -/
def Hears (peerId : P.PeerId) (envelope : Envelope) : Prop :=
  envelope.header.version = protocolVersion ∧
    (actor.state.authorization.nodeForPeer P peerId).isSome ∧
    envelope.header.clusterId = actor.state.authorization.clusterId

theorem handleInboundRequest_of_hears {peerId : P.PeerId} {envelope : Envelope}
    (linkState : isLinkState envelope) (hears : actor.Hears peerId envelope)
    (requestId : InboundRequestId) (channel : ResponseChannel) :
    (actor.handleInboundRequest E moment peerId requestId envelope channel).1 =
      actor.acceptLinkState E envelope := by
  obtain ⟨version, known, cluster⟩ := hears
  have other : envelope.header.protocol ≠ .admission := by
    rw [linkState.1]
    nofun
  rw [handleInboundRequest, if_neg (not_not.mpr version), if_neg (Option.isSome_iff_ne_none.mp known),
    if_neg other, if_neg (not_not.mpr cluster), if_pos ⟨linkState.1, linkState.2⟩]

/-- The same node with the same connections. -/
structure Keeps (before after : LinkActor P) : Prop where
  identity : after.identity = before.identity
  authorization : after.state.authorization = before.state.authorization
  connections : after.state.connections = before.state.connections
  sequence : after.lastLinkStateSequence = before.lastLinkStateSequence

theorem Steady.keeps {before after : LinkActor P} (steady : Steady before after) : Keeps before after :=
  ⟨steady.identity, steady.authorization, steady.connections, steady.sequence⟩

theorem acceptLinkState_keeps (envelope : Envelope) : Keeps actor (actor.acceptLinkState E envelope) := by
  unfold acceptLinkState
  split
  · exact ⟨rfl, rfl, rfl, rfl⟩
  · split
    · exact ⟨rfl, rfl, rfl, rfl⟩
    · split
      · exact ⟨rfl, rfl, rfl, rfl⟩
      · exact ⟨rfl, rfl, rfl, rfl⟩

/-- Link state that arrives changes at most the router's records, and nothing is told. -/
theorem step_linkState {envelope : Envelope} (linkState : isLinkState envelope) (peerId : P.PeerId)
    (requestId : InboundRequestId) (channel : ResponseChannel) :
    Plain (actor.step E moment (.swarm (.request peerId requestId envelope channel))).2 ∧
    ((actor.step E moment (.swarm (.request peerId requestId envelope channel))).1 =
      actor.acceptLinkState E envelope ∨
    (Idle actor (actor.step E moment (.swarm (.request peerId requestId envelope channel))).1 ∧
      ¬ actor.Hears peerId envelope)) := by
  have same : (actor.handleInboundRequest E moment peerId requestId envelope channel).1.state.connections =
      actor.state.connections → actor.step E moment (.swarm (.request peerId requestId envelope channel)) =
        actor.handleInboundRequest E moment peerId requestId envelope channel := by
    intro same
    exact actor.handleEvent_of_connections E moment same
  rcases actor.handleInboundRequest_cases E moment peerId requestId envelope channel with
    ⟨_, _, other⟩ | ⟨_, accepted⟩ | ⟨idle, silent⟩
  · exact absurd linkState other
  · rw [same, accepted]
    · exact ⟨(replyEmpty_silent _ channel envelope).plain, .inl rfl⟩
    · rw [accepted]
      exact (actor.acceptLinkState_keeps E envelope).connections
  · rw [same idle.connections]
    refine ⟨silent.plain, ?_⟩
    by_cases hears : actor.Hears peerId envelope
    · exact .inl (actor.handleInboundRequest_of_hears E moment linkState hears requestId channel)
    · exact .inr ⟨idle, hears⟩

theorem step_linkState_keeps {envelope : Envelope} (linkState : isLinkState envelope) (peerId : P.PeerId)
    (requestId : InboundRequestId) (channel : ResponseChannel) :
    Keeps actor (actor.step E moment (.swarm (.request peerId requestId envelope channel))).1 := by
  obtain ⟨_, accepted | ⟨idle, _⟩⟩ := actor.step_linkState E moment linkState peerId requestId channel
  · rw [accepted]
    exact actor.acceptLinkState_keeps E envelope
  · exact idle.keeps

/-- The registry has the key the record verifies with. -/
def Trusts (record : LinkStateRecord) : Prop :=
  ∃ authorized, actor.state.authorization.activeRecordForNode record.nodeId = some authorized ∧
    record.verifyWith P E authorized.publicKey = .ok ()

theorem acceptLinkState_cases {envelope : Envelope} {record : LinkStateRecord}
    (decoded : E.recordFromBytes envelope.payload = some record) :
    (actor.acceptLinkState E envelope = actor ∧ (¬ actor.Trusts E record ∨
      ∃ current, actor.router.links.records[record.nodeId]? = some current ∧
        record.sequence ≤ current.sequence)) ∨
    ∃ links : LinkStateDb,
      actor.acceptLinkState E envelope = { actor with router := { actor.router with links := links } } ∧
      links.records = actor.router.links.records.insert record.nodeId record ∧
      ∀ current, actor.router.links.records[record.nodeId]? = some current →
        current.sequence < record.sequence := by
  unfold acceptLinkState
  rw [decoded]
  dsimp only
  cases active : actor.state.authorization.activeRecordForNode record.nodeId with
  | none =>
    refine .inl ⟨rfl, .inl fun ⟨authorized, found, _⟩ => ?_⟩
    rw [active] at found
    cases found
  | some authorized =>
    dsimp only
    cases inserted : actor.router.links.insert P E record authorized.publicKey with
    | error error =>
      refine .inl ⟨rfl, .inl fun ⟨other, found, verified⟩ => ?_⟩
      obtain rfl := Option.some.inj (active.symm.trans found)
      obtain ⟨links, advanced, ok⟩ := actor.router.links.insert_of_verified verified
      rw [inserted] at ok
      cases ok
    | ok result =>
      obtain ⟨links, advanced⟩ := result
      rcases LinkStateDb.insert_cases inserted with ⟨rfl, stale⟩ | ⟨grown, newer⟩
      · exact .inl ⟨rfl, .inr stale⟩
      · exact .inr ⟨links, rfl, grown, newer⟩

end LinkActor

end Lycoris.Link
