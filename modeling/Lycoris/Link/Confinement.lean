import Lycoris.Link.Inbox
import Lycoris.Link.Advertising

/-!
What a message of a peer can bring about. Every path of `handle_inbound_request` asks the registry that is
installed when the message arrives, whatever the connection it came on was taken for.
-/

namespace Lycoris.Link
open Lib Overlay

variable {P : Primitives}

theorem LinkEvent.eq_request {event : LinkEvent P} {request : InboundRequestId × ResponseChannel}
    (arrives : event.request? = some request) :
    ∃ peerId requestId envelope channel, event = .swarm (.request peerId requestId envelope channel) := by
  unfold LinkEvent.request? at arrives
  split at arrives
  · exact ⟨_, _, _, _, rfl⟩
  · cases arrives

namespace LinkActor

variable (E : LinkEncoding) (actor : LinkActor P) (moment : Moment)

/-! ### One message -/

/-- Whom a request may reach: nobody, the local node when it is about admission, and the link state or
the router when the registry vouches for the peer and the cluster is the registry's. -/
theorem step_request_cases (peerId : P.PeerId) (requestId : InboundRequestId) (envelope : Envelope)
    (channel : ResponseChannel) :
    actor.step E moment (.swarm (.request peerId requestId envelope channel)) = (actor, []) ∨
    (envelope.header.protocol = .admission ∧
      (actor.state.authorization.nodeForPeer P peerId = none → actor.state.peerIsQuarantined peerId = true) ∧
      actor.step E moment (.swarm (.request peerId requestId envelope channel)) =
        actor.deliver moment peerId requestId envelope channel) ∨
    (actor.Hears peerId envelope ∧ isLinkState envelope ∧
      actor.step E moment (.swarm (.request peerId requestId envelope channel)) =
        (actor.acceptLinkState E envelope, (actor.acceptLinkState E envelope).replyEmpty channel envelope)) ∨
    (actor.Hears peerId envelope ∧ envelope.header.protocol ≠ .admission ∧
      actor.step E moment (.swarm (.request peerId requestId envelope channel)) =
        actor.routeInbound moment peerId requestId envelope channel) := by
  have handled : (actor.applySwarmEvent E moment
      (.request peerId requestId envelope channel)).1.state.connections = actor.state.connections := by
    rw [applySwarmEvent]
    rcases actor.handleInboundRequest_cases E moment peerId requestId envelope channel with
      ⟨routed, _⟩ | ⟨_, accepted⟩ | ⟨idle, _⟩
    · rw [routed]
      exact (actor.routeInbound_steady moment peerId requestId envelope channel).connections
    · rw [accepted]
      exact (actor.acceptLinkState_keeps E envelope).connections
    · exact idle.connections
  rw [step, actor.handleEvent_of_connections E moment handled]
  unfold applySwarmEvent handleInboundRequest
  dsimp only
  split
  · exact .inl rfl
  · rename_i version
    split
    · split
      · rename_i admission
        exact .inr (.inl ⟨admission.2, fun _ => admission.1, rfl⟩)
      · exact .inl rfl
    · rename_i known
      split
      · rename_i admission
        exact .inr (.inl ⟨admission, fun unknown => absurd unknown known, rfl⟩)
      · rename_i other
        split
        · exact .inl rfl
        · rename_i cluster
          have hears : actor.Hears peerId envelope :=
            ⟨not_not.mp version, Option.isSome_iff_ne_none.mpr known, not_not.mp cluster⟩
          split
          · rename_i linkState
            exact .inr (.inr (.inl ⟨hears, linkState, rfl⟩))
          · exact .inr (.inr (.inr ⟨hears, other, rfl⟩))

theorem mem_deliver {peerId : P.PeerId} {requestId : InboundRequestId} {envelope : Envelope}
    {channel : ResponseChannel} {output : LinkOutput P}
    (member : output ∈ (actor.deliver moment peerId requestId envelope channel).2) :
    output = .inbound actor.nextInboundToken peerId envelope := by
  unfold deliver at member
  split at member
  · cases member
  · split at member
    · cases member
    · dsimp only at member
      split at member
      · exact List.mem_singleton.mp member
      · cases member

/-- What the local node is handed by the router is the envelope that came. -/
theorem inbound_routeInbound {peerId sender : P.PeerId} {requestId : InboundRequestId}
    {envelope delivered : Envelope} {channel : ResponseChannel} {token : InboundToken}
    (member : .inbound token sender delivered ∈
      (actor.routeInbound moment peerId requestId envelope channel).2) :
    sender = peerId ∧ delivered = envelope := by
  unfold routeInbound at member
  dsimp only at member
  split at member
  · rename_i decided
    rcases List.mem_cons.mp member with routed | inbound
    · cases routed
    · obtain ⟨_, rfl, rfl⟩ := LinkOutput.inbound.inj (mem_deliver _ moment inbound)
      exact ⟨rfl, Router.handle_deliver decided⟩
  · split at member
    · simp at member
    · simp at member
  · simp at member

/-! ### Forwards and link state -/

theorem Moves.forwards {before after : LinkActor P} (moves : Moves before after)
    {requestId : OutboundRequestId} {forward : ForwardContext P}
    (found : after.pendingForwards[requestId]? = some forward) :
    before.pendingForwards[requestId]? = some forward := by
  induction moves with
  | linked linked => rwa [linked.forwards] at found
  | release _ => exact (releaseForward_sheds _ _).forwards found
  | trans _ _ first second => exact first (second found)

/-- Records in the link state are older ones, or an advertisement of the node itself. -/
theorem advertiseLinkState_records {nodeId : NodeId} {record : LinkStateRecord}
    (found : (actor.advertiseLinkState E moment).1.router.links.records[nodeId]? = some record) :
    actor.router.links.records[nodeId]? = some record ∨ record.nodeId = actor.identity.nodeId := by
  obtain ⟨links, origin, outcome⟩ := actor.advertiseLinkState_cases E moment
  have stored : links.records[nodeId]? = some record := by
    rcases outcome with plain | ⟨payload, published⟩
    · rw [plain] at found
      exact found
    · obtain ⟨requestIds, outboundId, broadcasts, same⟩ :=
        publish_keeps payload actor.advertisedPeers (actor.tracking moment links)
      rw [published, same] at found
      exact found
  rcases origin with rfl | ⟨own, advanced, signed, inserted⟩
  · exact .inl stored
  · have named := LinkStateRecord.nodeId_sign signed
    rcases LinkStateDb.insert_cases inserted with ⟨rfl, _⟩ | ⟨grown, _⟩
    · exact .inl stored
    · rw [grown, Std.ExtTreeMap.getElem?_insert] at stored
      split at stored
      · exact .inr (Option.some.inj stored ▸ named)
      · exact .inl stored

/-- A record that is there after a pass without a request was there before, or is the node's own. -/
def Remembers (before after : LinkActor P) : Prop :=
  ∀ (nodeId : NodeId) (record : LinkStateRecord), after.router.links.records[nodeId]? = some record →
    before.router.links.records[nodeId]? = some record ∨ record.nodeId = before.identity.nodeId

theorem Rewired.remembers {before after : LinkActor P} (rewired : Rewired before after) :
    Remembers before after := by
  intro nodeId record found
  rw [rewired.links] at found
  exact .inl found

theorem Rewired.remembers_advertised {before after : LinkActor P} (rewired : Rewired before after) :
    Remembers before (after.advertiseLinkState E moment).1 := by
  intro nodeId record found
  rw [← rewired.links, ← rewired.identity]
  exact after.advertiseLinkState_records E moment found

theorem handleEvent_remembers {event : SwarmEvent P}
    (rewired : Rewired actor (actor.applySwarmEvent E moment event).1) :
    Remembers actor (actor.handleEvent E moment event).1 := by
  unfold handleEvent
  dsimp only
  split
  · exact rewired.remembers_advertised E moment
  · exact rewired.remembers

theorem step_remembers {event : LinkEvent P} (quiet : event.request? = none) :
    Remembers actor (actor.step E moment event).1 := by
  cases event with
  | command command =>
    cases command with
    | request envelope reply =>
      exact (actor.sendRoutedRequest_idle moment envelope reply).toSteady.rewired.remembers
    | requestAdmission sponsor envelope reply =>
      exact (actor.sendAdmissionRequest_idle moment sponsor envelope reply).toSteady.rewired.remembers
    | respond token envelope reply =>
      exact (actor.respond_idle moment token envelope reply).toSteady.rewired.remembers
    | commitAuthorization registry checkCluster persisted reply =>
      show Remembers actor (actor.commitAuthorization E moment registry checkCluster persisted reply).1
      rcases actor.commitAuthorization_cases E moment registry checkCluster persisted reply with
        ⟨_, _, installed⟩ | ⟨_, error, refused⟩
      · obtain ⟨rewired, outputs, fresh, _, same⟩ := actor.installAuthorization_tells E moment registry
        rw [installed, same]
        intro nodeId record found
        -- The router starts over with the registry, so all there is to remember is the node's own record.
        rcases fresh.remembers_advertised E moment nodeId record found with old | own
        · simp [withRegistry, Router.new, LinkStateDb.empty] at old
        · exact .inr own
      · rw [refused]
        exact (Steady.refl actor).rewired.remembers
  | swarm event =>
    refine actor.handleEvent_remembers E moment ?_
    cases event with
    | connectionEstablished peerId connectionId endpoint =>
      exact actor.connectionEstablished_rewired peerId connectionId endpoint
    | connectionClosed peerId connectionId => exact actor.connectionClosed_rewired peerId connectionId
    | ping peerId connectionId alive => exact (actor.ping_idle peerId connectionId alive).toSteady.rewired
    | request => cases quiet
    | response peerId requestId response =>
      exact (actor.handleResponse_quiet moment peerId requestId response).steady.rewired
    | outboundFailure requestId => exact (actor.handleOutboundFailure_quiet moment requestId).steady.rewired
    | inboundFailure requestId => exact (actor.removePendingInboundRequest_idle requestId).toSteady.rewired
  | expire => exact (actor.expirePendingRequests_quiet moment.now).steady.rewired.remembers
  | allocate => exact actor.allocateRequestId_idle.toSteady.rewired.remembers

/-! ### Confinement -/

/-- The event is a message under another protocol than admission, from a peer that the registry vouches
for and with the registry's cluster. -/
def Vouched (before : LinkActor P) (event : LinkEvent P) (envelope : Envelope) : Prop :=
  ∃ peerId requestId channel, event = .swarm (.request peerId requestId envelope channel) ∧
    envelope.header.protocol ≠ .admission ∧ before.Hears peerId envelope

theorem step_inbound {event : LinkEvent P} {token : InboundToken} {sender : P.PeerId} {envelope : Envelope}
    (handed : .inbound token sender envelope ∈ (actor.step E moment event).2) :
    ∃ requestId channel, event = .swarm (.request sender requestId envelope channel) ∧
      (envelope.header.protocol = .admission ∨ actor.Hears sender envelope) := by
  have listed : token ∈ given (actor.step E moment event).2 := List.mem_filterMap.mpr ⟨_, handed, rfl⟩
  cases arrives : event.request? with
  | none =>
    obtain ⟨given, _, tokens, _, inbox, _⟩ := actor.step_serves moment E event
    rw [arrives] at inbox
    rw [tokens] at listed
    cases inbox
    cases listed
  | some request =>
    obtain ⟨peerId, requestId, received, channel, rfl⟩ := LinkEvent.eq_request arrives
    rcases actor.step_request_cases E moment peerId requestId received channel with
      dropped | ⟨admission, _, delivered⟩ | ⟨_, _, accepted⟩ | ⟨hears, _, routed⟩
    · rw [dropped] at handed
      cases handed
    · rw [delivered] at handed
      obtain ⟨_, rfl, rfl⟩ := LinkOutput.inbound.inj (actor.mem_deliver moment handed)
      exact ⟨requestId, channel, rfl, .inl admission⟩
    · rw [accepted] at handed
      simp [replyEmpty] at handed
    · rw [routed] at handed
      obtain ⟨rfl, rfl⟩ := actor.inbound_routeInbound moment handed
      exact ⟨requestId, channel, rfl, .inr hears⟩

theorem step_forwards {event : LinkEvent P} {outboundId : OutboundRequestId} {forward : ForwardContext P}
    (found : (actor.step E moment event).1.pendingForwards[outboundId]? = some forward) :
    actor.pendingForwards[outboundId]? = some forward ∨ ∃ envelope, actor.Vouched event envelope := by
  rcases actor.step_cases E moment event with
    ⟨moves, _⟩ | ⟨peerId, requestId, envelope, channel, rfl, other, routed⟩ | ⟨_, linked, _⟩
  · exact .inl (moves.forwards found)
  · rcases actor.step_request_cases E moment peerId requestId envelope channel with
      dropped | ⟨admission, _⟩ | ⟨hears, _⟩ | ⟨hears, _⟩
    · rw [dropped] at found
      exact .inl found
    · exact absurd admission other
    · exact .inr ⟨envelope, peerId, requestId, channel, rfl, other, hears⟩
    · exact .inr ⟨envelope, peerId, requestId, channel, rfl, other, hears⟩
  · rw [linked.forwards] at found
    exact .inl found

theorem isLinkState.ne_admission {envelope : Envelope} (linkState : isLinkState envelope) :
    envelope.header.protocol ≠ .admission := by
  rw [linkState.1]
  decide

/-- A request sent on while a message is handled. -/
theorem step_sends {peerId nextPeer : P.PeerId} {requestId : InboundRequestId} {envelope sent : Envelope}
    {channel : ResponseChannel} {outboundId : OutboundRequestId}
    (sends : .sendRequest outboundId nextPeer sent ∈
      (actor.step E moment (.swarm (.request peerId requestId envelope channel))).2) :
    envelope.header.protocol ≠ .admission ∧ actor.Hears peerId envelope := by
  rcases actor.step_request_cases E moment peerId requestId envelope channel with
    dropped | ⟨_, _, delivered⟩ | ⟨hears, linkState, _⟩ | ⟨hears, other, _⟩
  · rw [dropped] at sends
    cases sends
  · rw [delivered] at sends
    cases actor.mem_deliver moment sends
  · exact ⟨isLinkState.ne_admission linkState, hears⟩
  · exact ⟨other, hears⟩

theorem step_records {event : LinkEvent P} {nodeId : NodeId} {record : LinkStateRecord}
    (found : (actor.step E moment event).1.router.links.records[nodeId]? = some record) :
    actor.router.links.records[nodeId]? = some record ∨
      (event.request? = none ∧ record.nodeId = actor.identity.nodeId) ∨
      ∃ envelope, actor.Vouched event envelope ∧ isLinkState envelope := by
  cases arrives : event.request? with
  | none =>
    rcases actor.step_remembers E moment arrives nodeId record found with old | own
    · exact .inl old
    · exact .inr (.inl ⟨rfl, own⟩)
  | some request =>
    obtain ⟨peerId, requestId, envelope, channel, rfl⟩ := LinkEvent.eq_request arrives
    rcases actor.step_request_cases E moment peerId requestId envelope channel with
      dropped | ⟨_, _, delivered⟩ | ⟨hears, linkState, _⟩ | ⟨_, _, routed⟩
    · rw [dropped] at found
      exact .inl found
    · rw [delivered, (actor.deliver_idle moment peerId requestId envelope channel).links] at found
      exact .inl found
    · exact .inr (.inr ⟨envelope, ⟨peerId, requestId, channel, rfl, isLinkState.ne_admission linkState, hears⟩,
        linkState⟩)
    · rw [routed, (actor.routeInbound_steady moment peerId requestId envelope channel).links] at found
      exact .inl found

/-- Whatever a message brings about under another protocol than admission, the registry installed when it
arrives vouches for its peer and has its cluster; and a peer that the registry does not know is heard only
about admission, out of quarantine. -/
theorem unauthorized_confined (identity : NodeIdentity P) (authorization : AuthorizationRegistry)
    (bootId : Bytes) (nextSequence : UInt64) (past : List (Moment × LinkEvent P)) (event : LinkEvent P) :
    let before := ((new identity authorization bootId nextSequence).run E past).1
    let stepped := before.step E moment event
    (∀ token sender envelope, .inbound token sender envelope ∈ stepped.2 →
      ∃ requestId channel, event = .swarm (.request sender requestId envelope channel) ∧
        (envelope.header.protocol ≠ .admission → before.Vouched event envelope)) ∧
    (∀ (outboundId : OutboundRequestId) (forward : ForwardContext P),
      stepped.1.pendingForwards[outboundId]? = some forward →
        before.pendingForwards[outboundId]? = some forward ∨ ∃ envelope, before.Vouched event envelope) ∧
    (∀ outboundId nextPeer sent, .sendRequest outboundId nextPeer sent ∈ stepped.2 →
      ∀ peerId requestId envelope channel, event = .swarm (.request peerId requestId envelope channel) →
        before.Vouched event envelope) ∧
    (∀ (nodeId : NodeId) (record : LinkStateRecord), stepped.1.router.links.records[nodeId]? = some record →
      before.router.links.records[nodeId]? = some record ∨
        (event.request? = none ∧ record.nodeId = before.identity.nodeId) ∨
        ∃ envelope, before.Vouched event envelope ∧ isLinkState envelope) ∧
    ∀ peerId requestId envelope channel, event = .swarm (.request peerId requestId envelope channel) →
      before.state.authorization.nodeForPeer P peerId = none →
      stepped = (before, []) ∨
        (envelope.header.protocol = .admission ∧ before.state.peerIsQuarantined peerId = true ∧
          stepped = before.deliver moment peerId requestId envelope channel) := by
  intro before stepped
  refine ⟨?_, fun _ _ found => before.step_forwards E moment found, ?_,
    fun _ _ found => before.step_records E moment found, ?_⟩
  · intro token sender envelope handed
    obtain ⟨requestId, channel, rfl, admission | hears⟩ := before.step_inbound E moment handed
    · exact ⟨requestId, channel, rfl, fun other => absurd admission other⟩
    · exact ⟨requestId, channel, rfl, fun other => ⟨sender, requestId, channel, rfl, other, hears⟩⟩
  · rintro outboundId nextPeer sent sends peerId requestId envelope channel rfl
    obtain ⟨other, hears⟩ := before.step_sends E moment sends
    exact ⟨peerId, requestId, channel, rfl, other, hears⟩
  · rintro peerId requestId envelope channel rfl unknown
    rcases before.step_request_cases E moment peerId requestId envelope channel with
      dropped | ⟨admission, quarantined, delivered⟩ | ⟨⟨_, known, _⟩, _⟩ | ⟨⟨_, known, _⟩, _⟩
    · exact .inl dropped
    · exact .inr ⟨admission, quarantined unknown, delivered⟩
    · simp [unknown] at known
    · simp [unknown] at known

end LinkActor

end Lycoris.Link
