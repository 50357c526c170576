import Lycoris.Link.Actor

/-!
What the handlers of the link actor may change. `Steady` is the frame of everything that leaves the
connections and the link state alone, `Idle` of what does not touch the router either.
-/

namespace Lycoris.Link
open Lib Overlay

variable {P : Primitives}

/-- A link-state record on the wire. -/
def isLinkState (envelope : Envelope) : Prop :=
  envelope.header.protocol = .route ∧ envelope.header.kind = .event

/-- The decision of the router that an output records. -/
def LinkOutput.decision : LinkOutput P → Option (RequestId × RouteDecision)
  | .routed requestId decision => some (requestId, decision)
  | _ => none

/-- The decisions of the router among the outputs. -/
def decisions (outputs : List (LinkOutput P)) : List (RequestId × RouteDecision) :=
  outputs.filterMap LinkOutput.decision

theorem decisions_append (outputs more : List (LinkOutput P)) :
    decisions (outputs ++ more) = decisions outputs ++ decisions more :=
  List.filterMap_append

/-- No link state is sent. -/
def Plain (outputs : List (LinkOutput P)) : Prop :=
  ∀ requestId peerId envelope, .sendRequest requestId peerId envelope ∈ outputs → ¬ isLinkState envelope

theorem Plain.append {outputs more : List (LinkOutput P)} (first : Plain outputs) (second : Plain more) :
    Plain (outputs ++ more) := by
  intro requestId peerId envelope sent
  rcases List.mem_append.mp sent with here | later
  · exact first requestId peerId envelope here
  · exact second requestId peerId envelope later

/-- Neither a request nor a decision of the router. -/
def LinkOutput.Silent : LinkOutput P → Prop
  | .sendRequest _ _ _ => False
  | .routed _ _ => False
  | _ => True

def Silent (outputs : List (LinkOutput P)) : Prop := ∀ output ∈ outputs, output.Silent

namespace Silent

theorem nil : Silent (P := P) [] := fun _ member => absurd member List.not_mem_nil

theorem singleton {output : LinkOutput P} (silent : output.Silent) : Silent [output] := by
  intro other member
  rw [List.mem_singleton.mp member]
  exact silent

theorem append {outputs more : List (LinkOutput P)} (first : Silent outputs) (second : Silent more) :
    Silent (outputs ++ more) := by
  intro output member
  rcases List.mem_append.mp member with here | later
  · exact first output here
  · exact second output later

theorem map {K : Type} {output : K → LinkOutput P} (silent : ∀ key, (output key).Silent) (keys : List K) :
    Silent (keys.map output) := by
  intro other member
  obtain ⟨key, _, rfl⟩ := List.mem_map.mp member
  exact silent key

theorem closes (connectionIds : List ConnectionId) :
    Silent (connectionIds.map (.closeConnection (P := P))) :=
  map (fun _ => by trivial) connectionIds

theorem decisions {outputs : List (LinkOutput P)} (silent : Silent outputs) :
    Link.decisions outputs = [] := by
  rw [Link.decisions, List.filterMap_eq_nil_iff]
  intro output member
  have nothing := silent output member
  cases output with
  | routed => exact nothing.elim
  | _ => rfl

theorem plain {outputs : List (LinkOutput P)} (silent : Silent outputs) : Plain outputs := by
  intro requestId peerId envelope sent
  exact (silent _ sent).elim

end Silent

theorem Plain.singleton {output : LinkOutput P} (silent : output.Silent) : Plain [output] :=
  (Silent.singleton silent).plain

theorem Plain.routed (requestId : RequestId) (decision : RouteDecision) :
    Plain [LinkOutput.routed (P := P) requestId decision] := by
  intro requestId peerId envelope sent
  cases List.mem_singleton.mp sent

theorem LinkState.edgeSet_congr {before after : LinkState P} (same : after.connections = before.connections) :
    after.edgeSet = before.edgeSet := by
  rw [LinkState.edgeSet, LinkState.edgeSet, LinkState.links, LinkState.links, same]

namespace LinkActor

structure Steady (before after : LinkActor P) : Prop where
  identity : after.identity = before.identity
  nodeId : after.state.nodeId = before.state.nodeId
  authorization : after.state.authorization = before.state.authorization
  connections : after.state.connections = before.state.connections
  links : after.router.links = before.router.links
  localId : after.router.localId = before.router.localId
  sequence : after.lastLinkStateSequence = before.lastLinkStateSequence
  outbound : before.nextOutboundId ≤ after.nextOutboundId

structure Idle (before after : LinkActor P) : Prop extends Steady before after where
  router : after.router = before.router
  forwards : after.pendingForwards = before.pendingForwards

theorem Steady.refl (actor : LinkActor P) : Steady actor actor :=
  ⟨rfl, rfl, rfl, rfl, rfl, rfl, rfl, le_refl _⟩

theorem Steady.trans {first second third : LinkActor P} (before : Steady first second)
    (after : Steady second third) : Steady first third where
  identity := after.identity.trans before.identity
  nodeId := after.nodeId.trans before.nodeId
  authorization := after.authorization.trans before.authorization
  connections := after.connections.trans before.connections
  links := after.links.trans before.links
  localId := after.localId.trans before.localId
  sequence := after.sequence.trans before.sequence
  outbound := before.outbound.trans after.outbound

theorem Idle.refl (actor : LinkActor P) : Idle actor actor := ⟨.refl actor, rfl, rfl⟩

theorem Idle.trans {first second third : LinkActor P} (before : Idle first second)
    (after : Idle second third) : Idle first third :=
  ⟨before.toSteady.trans after.toSteady, after.router.trans before.router,
    after.forwards.trans before.forwards⟩

/-- The same actor but for what it waits to answer or to hear. -/
theorem Idle.of_fields {before after : LinkActor P} (identity : after.identity = before.identity)
    (state : after.state = before.state) (router : after.router = before.router)
    (forwards : after.pendingForwards = before.pendingForwards)
    (sequence : after.lastLinkStateSequence = before.lastLinkStateSequence)
    (outbound : before.nextOutboundId ≤ after.nextOutboundId) : Idle before after := by
  refine ⟨⟨identity, ?_, ?_, ?_, ?_, ?_, sequence, outbound⟩, router, forwards⟩
  · rw [state]
  · rw [state]
  · rw [state]
  · rw [router]
  · rw [router]

theorem Idle.foldl {K : Type} {move : LinkActor P → K → LinkActor P}
    (idle : ∀ actor key, Idle actor (move actor key)) (keys : List K) (actor : LinkActor P) :
    Idle actor (keys.foldl move actor) := by
  induction keys generalizing actor with
  | nil => exact .refl actor
  | cons key keys ih => exact (idle actor key).trans (ih (move actor key))

section Handlers

variable (actor : LinkActor P) (moment : Moment)

theorem sendPeerRequest_idle (peerId : P.PeerId) (envelope : Envelope) (reply : Caller) :
    Idle actor (actor.sendPeerRequest moment peerId envelope reply).1 := by
  unfold sendPeerRequest
  split
  · exact .refl actor
  · exact .of_fields rfl rfl rfl rfl rfl (Nat.le_succ _)

theorem sendRoutedRequest_idle (envelope : Envelope) (reply : Caller) :
    Idle actor (actor.sendRoutedRequest moment envelope reply).1 := by
  unfold sendRoutedRequest
  split
  · exact .refl actor
  · split
    · exact actor.sendPeerRequest_idle moment _ envelope reply
    · exact .refl actor

theorem sendAdmissionRequest_idle (sponsor : P.PeerId) (envelope : Envelope) (reply : Caller) :
    Idle actor (actor.sendAdmissionRequest moment sponsor envelope reply).1 := by
  unfold sendAdmissionRequest
  split
  · exact .refl actor
  · dsimp only
    split
    · exact .refl actor
    · exact actor.sendPeerRequest_idle moment sponsor envelope reply

theorem respond_idle (token : InboundToken) (envelope : Envelope) (reply : Caller) :
    Idle actor (actor.respond moment token envelope reply).1 := by
  unfold respond
  split
  · exact .refl actor
  · dsimp only
    split
    · exact .of_fields rfl rfl rfl rfl rfl (le_refl _)
    · exact .of_fields rfl rfl rfl rfl rfl (le_refl _)

theorem removePendingInbound_idle (token : InboundToken) : Idle actor (actor.removePendingInbound token) := by
  unfold removePendingInbound
  split
  · exact .refl actor
  · exact .of_fields rfl rfl rfl rfl rfl (le_refl _)

theorem removePendingInboundRequest_idle (requestId : InboundRequestId) :
    Idle actor (actor.removePendingInboundRequest requestId) := by
  unfold removePendingInboundRequest
  split
  · exact .refl actor
  · exact .of_fields rfl rfl rfl rfl rfl (le_refl _)

theorem removePendingInboundPeer_idle (peerId : P.PeerId) :
    Idle actor (actor.removePendingInboundPeer peerId) :=
  .foldl removePendingInbound_idle _ actor

theorem expireOutbound_idle (requestId : OutboundRequestId) : Idle actor (actor.expireOutbound requestId) :=
  .of_fields rfl rfl rfl rfl rfl (le_refl _)

theorem deliver_idle (peerId : P.PeerId) (requestId : InboundRequestId) (envelope : Envelope)
    (channel : ResponseChannel) :
    Idle actor (actor.deliver moment peerId requestId envelope channel).1 := by
  unfold deliver
  split
  · exact .refl actor
  · split
    · exact .refl actor
    · dsimp only
      split
      · exact .of_fields rfl rfl rfl rfl rfl (le_refl _)
      · exact .of_fields rfl rfl rfl rfl rfl (le_refl _)

theorem allocateRequestId_idle : Idle actor actor.allocateRequestId := by
  unfold allocateRequestId
  split
  · exact .refl actor
  · exact .of_fields rfl rfl rfl rfl rfl (le_refl _)

theorem ping_idle (peerId : P.PeerId) (connectionId : ConnectionId) (alive : Bool) :
    Idle actor (actor.ping peerId connectionId alive).1 := by
  have state : (actor.state.setConnectionHealth peerId connectionId alive).nodeId = actor.state.nodeId ∧
      (actor.state.setConnectionHealth peerId connectionId alive).authorization =
        actor.state.authorization ∧
      (actor.state.setConnectionHealth peerId connectionId alive).connections =
        actor.state.connections := by
    unfold LinkState.setConnectionHealth
    split
    · exact ⟨rfl, rfl, rfl⟩
    · split
      · exact ⟨rfl, rfl, rfl⟩
      · split
        · exact ⟨rfl, rfl, rfl⟩
        · exact ⟨rfl, rfl, rfl⟩
  exact ⟨⟨rfl, state.1, state.2.1, state.2.2, rfl, rfl, rfl, le_refl _⟩, rfl, rfl⟩

end Handlers

/-! ### Router and forwards -/

/-- Router and forwards as before, but for the link state. -/
structure Linked (before after : LinkActor P) : Prop where
  router : after.router = { before.router with links := after.router.links }
  forwards : after.pendingForwards = before.pendingForwards
  outbound : before.nextOutboundId ≤ after.nextOutboundId

theorem Idle.linked {before after : LinkActor P} (idle : Idle before after) : Linked before after := by
  refine ⟨?_, idle.forwards, idle.outbound⟩
  rw [idle.router]

theorem Linked.trans {first second third : LinkActor P} (before : Linked first second)
    (after : Linked second third) : Linked first third := by
  refine ⟨?_, after.forwards.trans before.forwards, before.outbound.trans after.outbound⟩
  rw [after.router, before.router]

theorem Linked.of_router {before after : LinkActor P} (router : after.router = before.router)
    (forwards : after.pendingForwards = before.pendingForwards)
    (outbound : before.nextOutboundId ≤ after.nextOutboundId) : Linked before after := by
  refine ⟨?_, forwards, outbound⟩
  rw [router]

theorem publish_linked (moment : Moment) (payload : Bytes) (peers : List (P.PeerId × NodeId))
    (actor : LinkActor P) : Linked actor (publish moment payload peers actor).1 := by
  induction peers generalizing actor with
  | nil => exact .of_router rfl rfl (le_refl _)
  | cons peer peers ih =>
    unfold publish
    split
    · exact .of_router rfl rfl (le_refl _)
    · dsimp only
      split
      · exact .of_router rfl rfl (le_refl _)
      · refine Linked.trans ?_ (ih _)
        exact .of_router rfl rfl (Nat.le_succ _)

variable (E : LinkEncoding) (actor : LinkActor P) (moment : Moment)

theorem acceptLinkState_linked (envelope : Envelope) : Linked actor (actor.acceptLinkState E envelope) := by
  unfold acceptLinkState
  split
  · exact .of_router rfl rfl (le_refl _)
  · split
    · exact .of_router rfl rfl (le_refl _)
    · split
      · exact ⟨rfl, rfl, le_refl _⟩
      · exact .of_router rfl rfl (le_refl _)

/-- The actor with the next sequence number taken, and these links. -/
def tracking (links : LinkStateDb) : LinkActor P :=
  { actor with
    lastLinkStateSequence := actor.nextLinkStateSequence moment
    router := { actor.router with links := links } }

/-- An advertisement keeps the links or stores its record, and publishes the record if it encodes. -/
theorem advertiseLinkState_cases :
    ∃ links, (links = actor.router.links ∨ ∃ record advanced,
        LinkStateRecord.sign E actor.identity (actor.state.links.map ConnectionInfo.nodeId)
          (actor.nextLinkStateSequence moment) = .ok record ∧
        actor.router.links.insert P E record (P.encodePublicKey actor.identity.publicKey) =
          .ok (links, advanced)) ∧
      (actor.advertiseLinkState E moment = (actor.tracking moment links, []) ∨
        ∃ payload, actor.advertiseLinkState E moment =
          publish moment payload actor.advertisedPeers (actor.tracking moment links)) := by
  unfold advertiseLinkState
  dsimp only
  cases signed : LinkStateRecord.sign E actor.identity (actor.state.links.map ConnectionInfo.nodeId)
      (actor.nextLinkStateSequence moment) with
  | error error => exact ⟨actor.router.links, .inl rfl, .inl rfl⟩
  | ok record =>
    dsimp only
    cases inserted : actor.router.links.insert P E record (P.encodePublicKey actor.identity.publicKey) with
    | error error =>
      refine ⟨actor.router.links, .inl rfl, ?_⟩
      cases E.recordBytes record with
      | none => exact .inl rfl
      | some payload => exact .inr ⟨payload, rfl⟩
    | ok result =>
      refine ⟨result.1, .inr ⟨record, result.2, rfl, inserted⟩, ?_⟩
      cases E.recordBytes record with
      | none => exact .inl rfl
      | some payload => exact .inr ⟨payload, rfl⟩

theorem advertiseLinkState_linked : Linked actor (actor.advertiseLinkState E moment).1 := by
  obtain ⟨links, -, plain | ⟨payload, published⟩⟩ := actor.advertiseLinkState_cases E moment
  · rw [plain]
    exact ⟨rfl, rfl, le_refl _⟩
  · rw [published]
    have tracked : Linked actor (actor.tracking moment links) := ⟨rfl, rfl, le_refl _⟩
    exact tracked.trans (publish_linked moment _ _ _)

theorem promote_linked (connectionId : ConnectionId) : Linked actor (actor.promote connectionId) := by
  unfold promote
  split
  · exact .of_router rfl rfl (le_refl _)
  · dsimp only
    split
    · exact .of_router rfl rfl (le_refl _)
    · exact .of_router rfl rfl (le_refl _)

theorem foldl_promote_linked (connectionIds : List ConnectionId) :
    Linked actor (connectionIds.foldl promote actor) := by
  induction connectionIds generalizing actor with
  | nil => exact .of_router rfl rfl (le_refl _)
  | cons connectionId rest ih => exact (actor.promote_linked connectionId).trans (ih _)

/-- An actor whose router starts over. -/
def withNewRouter : LinkActor P := { actor with router := .new actor.state.nodeId }

theorem installAuthorization_linked (registry : AuthorizationRegistry) :
    Linked actor.withNewRouter (actor.installAuthorization E moment registry).1 := by
  unfold installAuthorization
  dsimp only
  have reset : Linked actor.withNewRouter { actor with
      state := { actor.state with authorization := registry }
      router := .new actor.state.nodeId } := .of_router rfl rfl (le_refl _)
  exact reset.trans ((foldl_promote_linked _ _).trans (advertiseLinkState_linked E _ moment))

theorem connectionEstablished_linked (peerId : P.PeerId) (connectionId : ConnectionId)
    (endpoint : ConnectedPoint) :
    Linked actor (actor.connectionEstablished peerId connectionId endpoint).1 := by
  unfold connectionEstablished
  split
  · split
    · exact .of_router rfl rfl (le_refl _)
    · exact .of_router rfl rfl (le_refl _)
  · exact .of_router rfl rfl (le_refl _)

theorem connectionClosed_linked (peerId : P.PeerId) (connectionId : ConnectionId) :
    Linked actor (actor.connectionClosed peerId connectionId) := by
  unfold connectionClosed
  dsimp only
  split
  · exact .of_router rfl rfl (le_refl _)
  · refine Linked.trans ?_ (removePendingInboundPeer_idle _ peerId).linked
    exact .of_router rfl rfl (le_refl _)

/-! ### Steps -/

/-- Moves that hand over no envelope: the link state changes, or a forward that is pending is over. -/
inductive Moves : LinkActor P → LinkActor P → Prop where
  | linked {before after : LinkActor P} (linked : Linked before after) : Moves before after
  | release {before : LinkActor P} {requestId : OutboundRequestId}
      (pending : requestId ∈ before.pendingForwards) : Moves before (before.releaseForward requestId)
  | trans {first second third : LinkActor P} (before : Moves first second) (after : Moves second third) :
      Moves first third

theorem Idle.moves {before after : LinkActor P} (idle : Idle before after) : Moves before after :=
  .linked idle.linked

/-- Moves that leave connections and link state alone. -/
inductive Quiet : LinkActor P → LinkActor P → Prop where
  | idle {before after : LinkActor P} (idle : Idle before after) : Quiet before after
  | release {before : LinkActor P} {requestId : OutboundRequestId}
      (pending : requestId ∈ before.pendingForwards) : Quiet before (before.releaseForward requestId)
  | trans {first second third : LinkActor P} (before : Quiet first second) (after : Quiet second third) :
      Quiet first third

theorem Quiet.moves {before after : LinkActor P} (quiet : Quiet before after) : Moves before after := by
  induction quiet with
  | idle idle => exact idle.moves
  | release pending => exact .release pending
  | trans _ _ first second => exact .trans first second

theorem Quiet.steady {before after : LinkActor P} (quiet : Quiet before after) : Steady before after := by
  induction quiet with
  | idle idle => exact idle.toSteady
  | release _ => exact ⟨rfl, rfl, rfl, rfl, rfl, rfl, rfl, le_refl _⟩
  | trans _ _ first second => exact first.trans second

theorem releaseForward_quiet {requestId : OutboundRequestId} {forward : ForwardContext P}
    (found : actor.pendingForwards[requestId]? = some forward) :
    Quiet actor (actor.releaseForward requestId) :=
  .release (Std.ExtTreeMap.mem_iff_isSome_getElem?.mpr (by rw [found]; rfl))

theorem foldl_expireForward_quiet (requestIds : List OutboundRequestId) :
    Quiet actor (requestIds.foldl expireForward actor) := by
  induction requestIds generalizing actor with
  | nil => exact .idle (.refl actor)
  | cons requestId rest ih =>
    refine Quiet.trans ?_ (ih _)
    unfold expireForward
    split
    · exact .idle (.refl actor)
    · rename_i found
      exact actor.releaseForward_quiet found

theorem expirePendingRequests_quiet (now : Int) : Quiet actor (actor.expirePendingRequests now).1 :=
  .trans (.idle (.foldl expireOutbound_idle _ actor))
    (.trans (foldl_expireForward_quiet _ _) (.idle (.foldl removePendingInbound_idle _ _)))

theorem handleResponse_quiet (peerId : P.PeerId) (requestId : OutboundRequestId) (response : Envelope) :
    Quiet actor (actor.handleResponse moment peerId requestId response).1 := by
  unfold handleResponse
  split
  · dsimp only
    split
    · exact .idle (actor.expireOutbound_idle requestId)
    · exact .idle (actor.expireOutbound_idle requestId)
  · split
    · rename_i found
      dsimp only
      split
      · exact actor.releaseForward_quiet found
      · exact actor.releaseForward_quiet found
    · exact .idle (.of_fields rfl rfl rfl rfl rfl (le_refl _))

theorem handleOutboundFailure_quiet (requestId : OutboundRequestId) :
    Quiet actor (actor.handleOutboundFailure moment requestId).1 := by
  unfold handleOutboundFailure
  split
  · dsimp only
    split
    · exact .idle (actor.expireOutbound_idle requestId)
    · exact .idle (actor.expireOutbound_idle requestId)
  · split
    · rename_i found
      exact actor.releaseForward_quiet found
    · exact .idle (.of_fields rfl rfl rfl rfl rfl (le_refl _))

theorem routeInbound_steady (peerId : P.PeerId) (requestId : InboundRequestId) (envelope : Envelope)
    (channel : ResponseChannel) :
    Steady actor (actor.routeInbound moment peerId requestId envelope channel).1 := by
  obtain ⟨links, localId⟩ := actor.router.handle_keeps envelope moment.now
  have handled : Steady actor { actor with router := (actor.router.handle envelope moment.now).1 } :=
    ⟨rfl, rfl, rfl, rfl, links, localId, rfl, le_refl _⟩
  unfold routeInbound
  dsimp only
  split
  · exact handled.trans (deliver_idle _ moment peerId requestId _ channel).toSteady
  · split
    · exact ⟨rfl, rfl, rfl, rfl, links, localId, rfl, le_refl _⟩
    · exact ⟨rfl, rfl, rfl, rfl, links, localId, rfl, Nat.le_succ _⟩
  · exact handled

/-! ### Outputs -/

theorem decisions_sendPeerRequest (peerId : P.PeerId) (envelope : Envelope) (reply : Caller) :
    decisions (actor.sendPeerRequest moment peerId envelope reply).2 = [] := by
  unfold sendPeerRequest
  split
  · rfl
  · rfl

theorem decisions_sendRoutedRequest (envelope : Envelope) (reply : Caller) :
    decisions (actor.sendRoutedRequest moment envelope reply).2 = [] := by
  unfold sendRoutedRequest
  split
  · rfl
  · split
    · exact actor.decisions_sendPeerRequest moment _ envelope reply
    · rfl

theorem decisions_sendAdmissionRequest (sponsor : P.PeerId) (envelope : Envelope) (reply : Caller) :
    decisions (actor.sendAdmissionRequest moment sponsor envelope reply).2 = [] := by
  unfold sendAdmissionRequest
  split
  · rfl
  · dsimp only
    split
    · rfl
    · exact actor.decisions_sendPeerRequest moment sponsor envelope reply

theorem respond_silent (token : InboundToken) (envelope : Envelope) (reply : Caller) :
    Silent (actor.respond moment token envelope reply).2 := by
  unfold respond
  split
  · exact .singleton trivial
  · dsimp only
    split
    · exact .singleton trivial
    · intro output member
      rcases List.mem_pair.mp member with rfl | rfl
      · trivial
      · trivial

theorem closeTimedOutPeer_silent (peerId : P.PeerId) : Silent (actor.closeTimedOutPeer peerId) :=
  .closes _

theorem expirePendingRequests_silent (now : Int) : Silent (actor.expirePendingRequests now).2 := by
  unfold expirePendingRequests
  refine Silent.append (.map (fun _ => by trivial) _) ?_
  intro output member
  obtain ⟨peerId, _, closes⟩ := List.mem_flatMap.mp member
  exact closeTimedOutPeer_silent _ peerId output closes

theorem deliver_silent (peerId : P.PeerId) (requestId : InboundRequestId) (envelope : Envelope)
    (channel : ResponseChannel) :
    Silent (actor.deliver moment peerId requestId envelope channel).2 := by
  unfold deliver
  split
  · exact .nil
  · split
    · exact .nil
    · dsimp only
      split
      · exact .singleton trivial
      · exact .nil

theorem replyEmpty_silent (channel : ResponseChannel) (request : Envelope) :
    Silent (actor.replyEmpty channel request) :=
  .map (fun _ => by trivial) _

theorem handleResponse_silent (peerId : P.PeerId) (requestId : OutboundRequestId)
    (response : Envelope) : Silent (actor.handleResponse moment peerId requestId response).2 := by
  unfold handleResponse
  split
  · dsimp only
    split
    · exact (closeTimedOutPeer_silent _ peerId).append (.singleton trivial)
    · exact .singleton trivial
  · split
    · dsimp only
      split
      · exact .singleton trivial
      · exact closeTimedOutPeer_silent _ peerId
    · exact .nil

theorem handleOutboundFailure_silent (requestId : OutboundRequestId) :
    Silent (actor.handleOutboundFailure moment requestId).2 := by
  unfold handleOutboundFailure
  split
  · dsimp only
    split
    · exact (closeTimedOutPeer_silent _ _).append (.singleton trivial)
    · exact .singleton trivial
  · split
    · exact .nil
    · exact .nil

theorem connectionEstablished_silent (peerId : P.PeerId) (connectionId : ConnectionId)
    (endpoint : ConnectedPoint) :
    Silent (actor.connectionEstablished peerId connectionId endpoint).2 := by
  unfold connectionEstablished
  split
  · split
    · exact .singleton trivial
    · exact .nil
  · exact .closes _

theorem ping_silent (peerId : P.PeerId) (connectionId : ConnectionId) (alive : Bool) :
    Silent (actor.ping peerId connectionId alive).2 := by
  unfold ping
  cases alive
  · exact .singleton trivial
  · exact .nil

theorem decisions_publish (payload : Bytes) (peers : List (P.PeerId × NodeId)) :
    decisions (publish moment payload peers actor).2 = [] := by
  induction peers generalizing actor with
  | nil => rfl
  | cons peer peers ih =>
    unfold publish
    split
    · rfl
    · dsimp only
      split
      · rfl
      · exact ih _

theorem decisions_advertiseLinkState : decisions (actor.advertiseLinkState E moment).2 = [] := by
  obtain ⟨links, -, plain | ⟨payload, published⟩⟩ := actor.advertiseLinkState_cases E moment
  · rw [plain]
    rfl
  · rw [published]
    exact decisions_publish _ moment _ _

theorem decisions_installAuthorization (registry : AuthorizationRegistry) :
    decisions (actor.installAuthorization E moment registry).2 = [] := by
  unfold installAuthorization
  dsimp only
  rw [decisions_append, (Silent.closes _).decisions, decisions_advertiseLinkState]
  rfl

/-! ### One step -/

/-- A registry that passes the check and is stored is installed. -/
def Installs : LinkEvent P → Prop
  | .command (.commitAuthorization registry checkCluster persisted _) =>
    actor.validateAuthorization registry checkCluster = .ok () ∧ persisted = true
  | _ => False

theorem commitAuthorization_cases (registry : AuthorizationRegistry) (checkCluster persisted : Bool)
    (reply : Caller) :
    (actor.validateAuthorization registry checkCluster = .ok () ∧ persisted = true ∧
      actor.commitAuthorization E moment registry checkCluster persisted reply =
        ((actor.installAuthorization E moment registry).1,
          (actor.installAuthorization E moment registry).2 ++ [.settle reply (.ok ())])) ∨
    (¬ (actor.validateAuthorization registry checkCluster = .ok () ∧ persisted = true) ∧
      ∃ error, actor.commitAuthorization E moment registry checkCluster persisted reply =
        (actor, [.settle reply (.error error)])) := by
  unfold commitAuthorization
  cases valid : actor.validateAuthorization registry checkCluster with
  | error error =>
    refine .inr ⟨?_, error, rfl⟩
    intro both
    cases both.1
  | ok _ =>
    cases persisted with
    | false =>
      dsimp only
      rw [if_neg Bool.false_ne_true]
      refine .inr ⟨?_, _, rfl⟩
      intro both
      cases both.2
    | true =>
      dsimp only
      rw [if_pos rfl]
      exact .inl ⟨rfl, rfl, rfl⟩

theorem handleEvent_moves {event : SwarmEvent P}
    (moves : Moves actor (actor.applySwarmEvent E moment event).1)
    (silent : decisions (actor.applySwarmEvent E moment event).2 = []) :
    Moves actor (actor.handleEvent E moment event).1 ∧
      decisions (actor.handleEvent E moment event).2 = [] := by
  unfold handleEvent
  dsimp only
  split
  · refine ⟨.trans moves (.linked (advertiseLinkState_linked E _ moment)), ?_⟩
    rw [decisions_append, silent, decisions_advertiseLinkState]
    rfl
  · exact ⟨moves, silent⟩

/-- An event that leaves the connections alone is not followed by an advertisement. -/
theorem handleEvent_of_connections {event : SwarmEvent P}
    (same : (actor.applySwarmEvent E moment event).1.state.connections = actor.state.connections) :
    actor.handleEvent E moment event = actor.applySwarmEvent E moment event :=
  if_neg (not_not.mpr (LinkState.edgeSet_congr same))

/-- What an inbound request does: it reaches the router, it is link state that is looked at, or at most
the local node hears of it. -/
theorem handleInboundRequest_cases (peerId : P.PeerId) (requestId : InboundRequestId)
    (envelope : Envelope) (channel : ResponseChannel) :
    (actor.handleInboundRequest E moment peerId requestId envelope channel =
      actor.routeInbound moment peerId requestId envelope channel ∧
      envelope.header.protocol ≠ .admission ∧ ¬ isLinkState envelope) ∨
    (isLinkState envelope ∧ actor.handleInboundRequest E moment peerId requestId envelope channel =
      (actor.acceptLinkState E envelope, (actor.acceptLinkState E envelope).replyEmpty channel envelope)) ∨
    (Idle actor (actor.handleInboundRequest E moment peerId requestId envelope channel).1 ∧
      Silent (actor.handleInboundRequest E moment peerId requestId envelope channel).2) := by
  have delivered := actor.deliver_idle moment peerId requestId envelope channel
  have silent := actor.deliver_silent moment peerId requestId envelope channel
  unfold handleInboundRequest
  dsimp only
  split
  · exact .inr (.inr ⟨.refl actor, .nil⟩)
  · split
    · split
      · exact .inr (.inr ⟨delivered, silent⟩)
      · exact .inr (.inr ⟨.refl actor, .nil⟩)
    · split
      · exact .inr (.inr ⟨delivered, silent⟩)
      · rename_i routed
        split
        · exact .inr (.inr ⟨.refl actor, .nil⟩)
        · split
          · rename_i linkState
            exact .inr (.inl ⟨linkState, rfl⟩)
          · rename_i other
            exact .inl ⟨rfl, routed, other⟩

theorem step_cases (event : LinkEvent P) :
    (Moves actor (actor.step E moment event).1 ∧ decisions (actor.step E moment event).2 = []) ∨
    (∃ peerId requestId envelope channel, event = .swarm (.request peerId requestId envelope channel) ∧
      envelope.header.protocol ≠ .admission ∧
      actor.step E moment event = actor.routeInbound moment peerId requestId envelope channel) ∨
    (actor.Installs event ∧ Linked actor.withNewRouter (actor.step E moment event).1 ∧
      decisions (actor.step E moment event).2 = []) := by
  cases event with
  | command command =>
    cases command with
    | request envelope reply =>
      exact .inl ⟨(actor.sendRoutedRequest_idle moment envelope reply).moves,
        actor.decisions_sendRoutedRequest moment envelope reply⟩
    | requestAdmission sponsor envelope reply =>
      exact .inl ⟨(actor.sendAdmissionRequest_idle moment sponsor envelope reply).moves,
        actor.decisions_sendAdmissionRequest moment sponsor envelope reply⟩
    | respond token envelope reply =>
      exact .inl ⟨(actor.respond_idle moment token envelope reply).moves,
        (actor.respond_silent moment token envelope reply).decisions⟩
    | commitAuthorization registry checkCluster persisted reply =>
      show (Moves actor (actor.commitAuthorization E moment registry checkCluster persisted reply).1 ∧
        decisions (actor.commitAuthorization E moment registry checkCluster persisted reply).2 = []) ∨ _ ∨
        (_ ∧ Linked actor.withNewRouter
          (actor.commitAuthorization E moment registry checkCluster persisted reply).1 ∧
          decisions (actor.commitAuthorization E moment registry checkCluster persisted reply).2 = [])
      rcases actor.commitAuthorization_cases E moment registry checkCluster persisted reply with
        ⟨valid, stored, installed⟩ | ⟨_, error, refused⟩
      · rw [installed]
        dsimp only
        refine .inr (.inr ⟨⟨valid, stored⟩, actor.installAuthorization_linked E moment registry, ?_⟩)
        rw [decisions_append, decisions_installAuthorization]
        rfl
      · rw [refused]
        exact .inl ⟨(Idle.refl actor).moves, rfl⟩
  | swarm event =>
    cases event with
    | connectionEstablished peerId connectionId endpoint =>
      exact .inl (actor.handleEvent_moves E moment
        (.linked (actor.connectionEstablished_linked peerId connectionId endpoint))
        (actor.connectionEstablished_silent peerId connectionId endpoint).decisions)
    | connectionClosed peerId connectionId =>
      exact .inl (actor.handleEvent_moves E moment
        (.linked (actor.connectionClosed_linked peerId connectionId)) rfl)
    | ping peerId connectionId alive =>
      exact .inl (actor.handleEvent_moves E moment (actor.ping_idle peerId connectionId alive).moves
        (actor.ping_silent peerId connectionId alive).decisions)
    | request peerId requestId envelope channel =>
      rcases actor.handleInboundRequest_cases E moment peerId requestId envelope channel with
        ⟨routed, other, _⟩ | ⟨_, accepted⟩ | ⟨idle, silent⟩
      · refine .inr (.inl ⟨peerId, requestId, envelope, channel, rfl, other, ?_⟩)
        refine (actor.handleEvent_of_connections E moment ?_).trans routed
        rw [applySwarmEvent, routed]
        exact (actor.routeInbound_steady moment peerId requestId envelope channel).connections
      · refine .inl (actor.handleEvent_moves E moment ?_ ?_)
        · rw [applySwarmEvent, accepted]
          exact .linked (actor.acceptLinkState_linked E envelope)
        · rw [applySwarmEvent, accepted]
          exact (replyEmpty_silent _ channel envelope).decisions
      · exact .inl (actor.handleEvent_moves E moment idle.moves silent.decisions)
    | response peerId requestId response =>
      exact .inl (actor.handleEvent_moves E moment
        (actor.handleResponse_quiet moment peerId requestId response).moves
        (actor.handleResponse_silent moment peerId requestId response).decisions)
    | outboundFailure requestId =>
      exact .inl (actor.handleEvent_moves E moment
        (actor.handleOutboundFailure_quiet moment requestId).moves
        (actor.handleOutboundFailure_silent moment requestId).decisions)
    | inboundFailure requestId =>
      exact .inl (actor.handleEvent_moves E moment (actor.removePendingInboundRequest_idle requestId).moves
        rfl)
  | expire =>
    exact .inl ⟨(actor.expirePendingRequests_quiet moment.now).moves,
      (actor.expirePendingRequests_silent moment.now).decisions⟩
  | allocate => exact .inl ⟨actor.allocateRequestId_idle.moves, rfl⟩

theorem run_append (first second : List (Moment × LinkEvent P)) :
    actor.run E (first ++ second) = (((actor.run E first).1.run E second).1,
      (actor.run E first).2 ++ ((actor.run E first).1.run E second).2) := by
  induction first generalizing actor with
  | nil => rfl
  | cons event rest ih =>
    rw [List.cons_append, run, ih, run]
    simp only [List.append_assoc]

end LinkActor

end Lycoris.Link
