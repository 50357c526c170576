import Lycoris.Link.Advertising

/-!
The requests and answers that pass through a link actor. `Desk` is the part of the actor that keeps them,
`Desk.Main` what a pass of the actor's loop does with the request or answer it is about, and `Desk.Tidy` what
it does besides: requests that are given up, and link state that is published.
-/

namespace Lycoris.Link
open Lib Overlay

variable {P : Primitives}

/-- The same request one hop further on. -/
structure Passed (request forwarded : Envelope) : Prop where
  left : request.header.remainingHops ≠ 0
  same : forwarded = ⟨{ request.header with remainingHops := request.header.remainingHops - 1 }, request.payload⟩

structure Desk (P : Primitives) where
  own : Std.ExtTreeMap OutboundRequestId (PendingRequest P) compare
  forwards : Std.ExtTreeMap OutboundRequestId (ForwardContext P) compare
  inbound : Std.ExtTreeMap InboundToken (PendingInbound P) compare
  next : OutboundRequestId

def LinkActor.desk (actor : LinkActor P) : Desk P :=
  ⟨actor.pendingOutbound, actor.pendingForwards, actor.pendingInbound, actor.nextOutboundId⟩

/-- A request, an answer, or what a caller or a handler is told. -/
def LinkOutput.isMail : LinkOutput P → Bool
  | .sendRequest _ _ _ => true
  | .sendResponse _ _ => true
  | .reply _ _ => true
  | .inbound _ _ _ => true
  | _ => false

def mail (outputs : List (LinkOutput P)) : List (LinkOutput P) := outputs.filter LinkOutput.isMail

theorem mail_append (outputs more : List (LinkOutput P)) : mail (outputs ++ more) = mail outputs ++ mail more :=
  List.filter_append ..

theorem mail_closes (connectionIds : List ConnectionId) :
    mail (connectionIds.map (.closeConnection (P := P))) = [] := by
  rw [mail, List.filter_eq_nil_iff]
  intro output member
  obtain ⟨connectionId, _, rfl⟩ := List.mem_map.mp member
  exact Bool.false_ne_true

/-- The caller that waits for an answer to a request. -/
def LinkEvent.asks : LinkEvent P → Option (Envelope × Caller)
  | .command (.request envelope reply) => some (envelope, reply)
  | .command (.requestAdmission _ envelope reply) => some (envelope, reply)
  | _ => none

/-- The peer a caller names for its admission. -/
def LinkEvent.sponsor : LinkEvent P → Option P.PeerId
  | .command (.requestAdmission sponsor _ _) => some sponsor
  | _ => none

namespace Desk

/-- What a pass does with the request or answer it is about. -/
inductive Main (localId : NodeId) (event : LinkEvent P) (desk : Desk P) :
    List (LinkOutput P) → Desk P → Prop where
  | still (other : event.asks = none) : Main localId event desk [] desk
  | ask {envelope : Envelope} {caller : Caller} (asks : event.asks = some (envelope, caller))
      {peerId : P.PeerId} (sponsored : envelope.header.protocol = .admission → event.sponsor = some peerId) :
      Main localId event desk [.sendRequest desk.next peerId envelope]
        { desk with
          own := desk.own.insert desk.next ⟨.fromRequest envelope peerId, caller⟩
          next := desk.next + 1 }
  | refuse {envelope : Envelope} {caller : Caller} (asks : event.asks = some (envelope, caller))
      (error : LinkError P) : Main localId event desk [.reply caller (.error error)] desk
  | answer {token : InboundToken} {response : Envelope} {reply : Caller} {pending : PendingInbound P}
      (answers : event = .command (.respond token response reply)) (found : desk.inbound[token]? = some pending) :
      Main localId event desk [.sendResponse pending.channel response]
        { desk with inbound := desk.inbound.erase token }
  | hand {peerId : P.PeerId} {requestId : InboundRequestId} {envelope : Envelope} {channel : ResponseChannel}
      (arrives : event = .swarm (.request peerId requestId envelope channel))
      (here : envelope.header.destination = localId ∨ envelope.header.protocol = .admission)
      (token : InboundToken) (deadlineUnixMs : Int) : Main localId event desk [.inbound token peerId envelope]
        { desk with inbound := desk.inbound.insert token ⟨requestId, peerId, deadlineUnixMs, channel⟩ }
  | pass {peerId : P.PeerId} {requestId : InboundRequestId} {envelope : Envelope} {channel : ResponseChannel}
      (arrives : event = .swarm (.request peerId requestId envelope channel))
      (plain : envelope.header.protocol ≠ .admission) {forwarded : Envelope}
      (passed : Passed envelope forwarded) (nextPeer : P.PeerId) :
      Main localId event desk [.sendRequest desk.next nextPeer forwarded]
        { desk with
          forwards := desk.forwards.insert desk.next ⟨channel, .fromRequest forwarded nextPeer⟩
          next := desk.next + 1 }
  | acknowledge {peerId : P.PeerId} {requestId : InboundRequestId} {envelope : Envelope} {channel : ResponseChannel}
      (arrives : event = .swarm (.request peerId requestId envelope channel)) (linkState : isLinkState envelope)
      (response : Envelope) : Main localId event desk [.sendResponse channel response] desk
  | accept {peerId : P.PeerId} {requestId : OutboundRequestId} {response : Envelope} {pending : PendingRequest P}
      (arrives : event = .swarm (.response peerId requestId response)) (found : desk.own[requestId]? = some pending)
      (valid : pending.expected.validate response peerId = .ok ()) :
      Main localId event desk [.reply pending.reply (.ok response)] { desk with own := desk.own.erase requestId }
  | back {peerId : P.PeerId} {requestId : OutboundRequestId} {response : Envelope} {forward : ForwardContext P}
      (arrives : event = .swarm (.response peerId requestId response))
      (found : desk.forwards[requestId]? = some forward)
      (valid : forward.expected.validate response peerId = .ok ()) :
      Main localId event desk [.sendResponse forward.channel response]
        { desk with forwards := desk.forwards.erase requestId }

/-- One thing that is done besides. -/
inductive Touch (desk : Desk P) : List (LinkOutput P) → Desk P → Prop where
  | fail {requestId : OutboundRequestId} {pending : PendingRequest P} (found : desk.own[requestId]? = some pending)
      (error : LinkError P) :
      Touch desk [.reply pending.reply (.error error)] { desk with own := desk.own.erase requestId }
  | release (requestId : OutboundRequestId) : Touch desk [] { desk with forwards := desk.forwards.erase requestId }
  | forget (token : InboundToken) : Touch desk [] { desk with inbound := desk.inbound.erase token }
  | tell (peerId : P.PeerId) {envelope : Envelope} (linkState : isLinkState envelope)
      (still : envelope.header.remainingHops = 0) :
      Touch desk [.sendRequest desk.next peerId envelope] { desk with next := desk.next + 1 }

inductive Tidy : Desk P → List (LinkOutput P) → Desk P → Prop where
  | refl (desk : Desk P) : Tidy desk [] desk
  | step {desk mid last : Desk P} {outputs more : List (LinkOutput P)} (first : Touch desk outputs mid)
      (rest : Tidy mid more last) : Tidy desk (outputs ++ more) last

theorem Touch.tidy {desk last : Desk P} {outputs : List (LinkOutput P)} (touch : Touch desk outputs last) :
    Tidy desk outputs last := by
  have both := Tidy.step touch (.refl last)
  rwa [List.append_nil] at both

theorem Tidy.trans {desk mid last : Desk P} {outputs more : List (LinkOutput P)} (first : Tidy desk outputs mid)
    (rest : Tidy mid more last) : Tidy desk (outputs ++ more) last := by
  induction first with
  | refl => exact rest
  | step touch _ ih =>
    rw [List.append_assoc]
    exact .step touch (ih rest)

/-- A pass of the loop. -/
def Pass (localId : NodeId) (event : LinkEvent P) (desk : Desk P) (outputs : List (LinkOutput P))
    (last : Desk P) : Prop :=
  ∃ mid main besides, Main localId event desk main mid ∧ Tidy mid besides last ∧ mail outputs = main ++ besides

theorem Main.alone {localId : NodeId} {event : LinkEvent P} {desk last : Desk P} {outputs main : List (LinkOutput P)}
    (done : Main localId event desk main last) (same : mail outputs = main) :
    Pass localId event desk outputs last :=
  ⟨last, main, [], done, .refl last, by rw [same, List.append_nil]⟩

theorem Tidy.alone {localId : NodeId} {event : LinkEvent P} {desk last : Desk P}
    {outputs besides : List (LinkOutput P)} (done : Tidy desk besides last) (other : event.asks = none)
    (same : mail outputs = besides) : Pass localId event desk outputs last :=
  ⟨desk, [], besides, .still other, done, same⟩

theorem Pass.andThen {localId : NodeId} {event : LinkEvent P} {desk mid last : Desk P}
    {outputs more besides : List (LinkOutput P)} (first : Pass localId event desk outputs mid)
    (rest : Tidy mid besides last) (same : mail more = besides) : Pass localId event desk (outputs ++ more) last := by
  obtain ⟨between, main, earlier, done, tidied, split⟩ := first
  exact ⟨between, main, earlier ++ besides, done, tidied.trans rest,
    by rw [mail_append, split, same, List.append_assoc]⟩

end Desk

/-! ### Router -/

/-- What a decision says about the request it is on. -/
def Decided (localId : NodeId) (request : Envelope) : RouteDecision → Prop
  | .deliver delivered => delivered = request ∧ request.header.destination = localId
  | .forward _ forwarded => Passed request forwarded
  | .drop _ => True

theorem handle_decided (router : Router) (envelope : Envelope) (now : Int) :
    Decided router.localId envelope (router.handle envelope now).2 := by
  unfold Router.handle
  dsimp only
  split
  · trivial
  · by_cases known : envelope.header.requestId ∈ router.seenSet
    · rw [Router.markSeen, if_pos known]
      trivial
    · rw [Router.markSeen, if_neg known]
      dsimp only
      split
      · rename_i here
        exact ⟨rfl, here⟩
      · split
        · trivial
        · rename_i left
          split
          · trivial
          · split
            · trivial
            · split
              · trivial
              · split
                · trivial
                · rename_i made
                  rw [Envelope.new] at made
                  split at made
                  · cases made
                  · cases made
                    exact ⟨left, rfl⟩

namespace LinkActor
open Desk

section Handlers

variable (actor : LinkActor P) (moment : Moment)

/-! ### Requests of the local node -/

theorem sendPeerRequest_pass {event : LinkEvent P} {envelope : Envelope} {reply : Caller}
    (asks : event.asks = some (envelope, reply)) {peerId : P.PeerId}
    (sponsored : envelope.header.protocol = .admission → event.sponsor = some peerId) :
    Pass actor.router.localId event actor.desk (actor.sendPeerRequest moment peerId envelope reply).2
      (actor.sendPeerRequest moment peerId envelope reply).1.desk := by
  unfold sendPeerRequest
  split
  · exact (Main.refuse asks _).alone rfl
  · exact (Main.ask asks sponsored).alone rfl

theorem sendRoutedRequest_pass {event : LinkEvent P} {envelope : Envelope} {reply : Caller}
    (asks : event.asks = some (envelope, reply)) :
    Pass actor.router.localId event actor.desk (actor.sendRoutedRequest moment envelope reply).2
      (actor.sendRoutedRequest moment envelope reply).1.desk := by
  unfold sendRoutedRequest
  split
  · exact (Main.refuse asks _).alone rfl
  · rename_i plain
    split
    · exact actor.sendPeerRequest_pass moment asks fun admission => absurd admission plain
    · exact (Main.refuse asks _).alone rfl

theorem sendAdmissionRequest_pass {event : LinkEvent P} {envelope : Envelope} {reply : Caller}
    (asks : event.asks = some (envelope, reply)) {sponsor : P.PeerId} (sponsored : event.sponsor = some sponsor) :
    Pass actor.router.localId event actor.desk (actor.sendAdmissionRequest moment sponsor envelope reply).2
      (actor.sendAdmissionRequest moment sponsor envelope reply).1.desk := by
  unfold sendAdmissionRequest
  split
  · exact (Main.refuse asks _).alone rfl
  · dsimp only
    split
    · exact (Main.refuse asks _).alone rfl
    · exact actor.sendPeerRequest_pass moment asks fun _ => sponsored

theorem respond_pass (token : InboundToken) (envelope : Envelope) (reply : Caller) :
    Pass actor.router.localId (.command (.respond token envelope reply)) actor.desk
      (actor.respond moment token envelope reply).2 (actor.respond moment token envelope reply).1.desk := by
  unfold respond
  split
  · exact (Main.still rfl).alone rfl
  · rename_i pending found
    dsimp only
    split
    · exact (Touch.forget token).tidy.alone rfl rfl
    · exact (Main.answer rfl found).alone rfl

/-! ### Expiry -/

theorem removePendingInbound_tidy (token : InboundToken) :
    Tidy actor.desk [] (actor.removePendingInbound token).desk := by
  unfold removePendingInbound
  split
  · exact .refl _
  · exact (Touch.forget token).tidy

theorem removePendingInboundRequest_tidy (requestId : InboundRequestId) :
    Tidy actor.desk [] (actor.removePendingInboundRequest requestId).desk := by
  unfold removePendingInboundRequest
  split
  · exact .refl _
  · exact (Touch.forget _).tidy

theorem expireForward_tidy (requestId : OutboundRequestId) :
    Tidy actor.desk [] (actor.expireForward requestId).desk := by
  unfold expireForward
  split
  · exact .refl _
  · exact (Touch.release requestId).tidy

theorem foldl_tidy {K : Type} {move : LinkActor P → K → LinkActor P}
    (tidy : ∀ actor key, Tidy actor.desk [] (move actor key).desk) (keys : List K) :
    Tidy actor.desk [] (keys.foldl move actor).desk := by
  induction keys generalizing actor with
  | nil => exact .refl _
  | cons key keys ih => exact (tidy actor key).trans (ih (move actor key))

theorem removePendingInboundPeer_tidy (peerId : P.PeerId) :
    Tidy actor.desk [] (actor.removePendingInboundPeer peerId).desk := foldl_tidy actor removePendingInbound_tidy _

theorem foldl_expireOutbound_tidy (expired : List (OutboundRequestId × PendingRequest P))
    (distinct : expired.Pairwise fun a b => a.1 ≠ b.1)
    (held : ∀ entry ∈ expired, actor.pendingOutbound[entry.1]? = some entry.2) :
    Tidy actor.desk (expired.map fun entry => .reply entry.2.reply (.error .timeout))
      ((expired.map Prod.fst).foldl expireOutbound actor).desk := by
  induction expired generalizing actor with
  | nil => exact .refl _
  | cons entry rest ih =>
    obtain ⟨apart, distinct⟩ := List.pairwise_cons.mp distinct
    have left : ∀ other ∈ rest, (actor.expireOutbound entry.1).pendingOutbound[other.1]? = some other.2 := by
      intro other member
      have kept := held other (List.mem_cons_of_mem _ member)
      show (actor.pendingOutbound.erase entry.1)[other.1]? = some other.2
      rw [Std.ExtTreeMap.getElem?_erase, if_neg, kept]
      exact mt Std.LawfulEqOrd.compare_eq_iff_eq.mp (apart other member)
    have failed : Touch actor.desk [.reply entry.2.reply (.error .timeout)] (actor.expireOutbound entry.1).desk :=
      .fail (held entry List.mem_cons_self) .timeout
    exact .step failed (ih _ distinct left)

theorem mail_closeTimedOutPeer (peerId : P.PeerId) : mail (actor.closeTimedOutPeer peerId) = [] := mail_closes _

theorem mail_flatMap_closes (peers : List P.PeerId) : mail (peers.flatMap actor.closeTimedOutPeer) = [] := by
  rw [mail, List.filter_eq_nil_iff]
  intro output member
  obtain ⟨peerId, _, closes⟩ := List.mem_flatMap.mp member
  exact List.filter_eq_nil_iff.mp (actor.mail_closeTimedOutPeer peerId) output closes

theorem expirePendingRequests_pass :
    Pass actor.router.localId .expire actor.desk (actor.expirePendingRequests moment.now).2
      (actor.expirePendingRequests moment.now).1.desk := by
  unfold expirePendingRequests
  dsimp only
  generalize expiredOutbound : actor.pendingOutbound.toList.filter _ = expired
  have distinct : expired.Pairwise fun a b => a.1 ≠ b.1 := by
    rw [← expiredOutbound]
    exact (Std.ExtTreeMap.distinct_keys_toList.imp fun apart same =>
      apart (Std.LawfulEqOrd.compare_eq_iff_eq.mpr same)).filter _
  have held : ∀ entry ∈ expired, actor.pendingOutbound[entry.1]? = some entry.2 := by
    intro entry member
    rw [← expiredOutbound] at member
    exact Std.ExtTreeMap.mem_toList_iff_getElem?_eq_some.mp (List.mem_of_mem_filter member)
  have timedOut := actor.foldl_expireOutbound_tidy expired distinct held
  refine Tidy.alone (timedOut.trans ((foldl_tidy _ expireForward_tidy _).trans
    (foldl_tidy _ removePendingInbound_tidy _))) rfl ?_
  rw [mail_append, mail_flatMap_closes, List.append_nil, List.append_nil, List.append_nil, mail, List.filter_eq_self]
  intro output member
  obtain ⟨entry, _, rfl⟩ := List.mem_map.mp member
  rfl

/-! ### Inbound requests -/

theorem deliver_pass {peerId : P.PeerId} {requestId : InboundRequestId} {envelope : Envelope}
    {channel : ResponseChannel} {localId : NodeId}
    (here : envelope.header.destination = localId ∨ envelope.header.protocol = .admission) :
    Pass localId (.swarm (.request peerId requestId envelope channel)) actor.desk
      (actor.deliver moment peerId requestId envelope channel).2
      (actor.deliver moment peerId requestId envelope channel).1.desk := by
  unfold deliver
  split
  · exact (Main.still rfl).alone rfl
  · split
    · exact (Main.still rfl).alone rfl
    · dsimp only
      split
      · exact (Main.hand rfl here _ _).alone rfl
      · exact (Main.still rfl).alone rfl

theorem routeInbound_pass (peerId : P.PeerId) (requestId : InboundRequestId) {envelope : Envelope}
    (plain : envelope.header.protocol ≠ .admission) (channel : ResponseChannel) :
    Pass actor.router.localId (.swarm (.request peerId requestId envelope channel)) actor.desk
      (actor.routeInbound moment peerId requestId envelope channel).2
      (actor.routeInbound moment peerId requestId envelope channel).1.desk := by
  have decided := handle_decided actor.router envelope moment.now
  unfold routeInbound
  dsimp only
  split
  · rename_i delivered same
    rw [same] at decided
    obtain ⟨rfl, here⟩ := decided
    exact deliver_pass { actor with router := (actor.router.handle delivered moment.now).1 } moment (.inl here)
  · rename_i nextHop forwarded same
    rw [same] at decided
    split
    · exact (Main.still rfl).alone rfl
    · exact (Main.pass rfl plain decided _).alone rfl
  · exact (Main.still rfl).alone rfl

theorem mail_replyEmpty (channel : ResponseChannel) (request : Envelope) :
    actor.replyEmpty channel request = [] ∨
      ∃ response, actor.replyEmpty channel request = [.sendResponse channel response] := by
  rw [replyEmpty]
  cases actor.responseEnvelope request [] with
  | none => exact .inl rfl
  | some response => exact .inr ⟨response, rfl⟩

variable (E : LinkEncoding)

theorem acceptLinkState_desk (envelope : Envelope) : (actor.acceptLinkState E envelope).desk = actor.desk := by
  unfold acceptLinkState
  split
  · rfl
  · split
    · rfl
    · split
      · rfl
      · rfl

theorem handleInboundRequest_pass (peerId : P.PeerId) (requestId : InboundRequestId) (envelope : Envelope)
    (channel : ResponseChannel) :
    Pass actor.router.localId (.swarm (.request peerId requestId envelope channel)) actor.desk
      (actor.handleInboundRequest E moment peerId requestId envelope channel).2
      (actor.handleInboundRequest E moment peerId requestId envelope channel).1.desk := by
  unfold handleInboundRequest
  dsimp only
  split
  · exact (Main.still rfl).alone rfl
  · split
    · split
      · rename_i quarantined
        exact actor.deliver_pass moment (.inr quarantined.2)
      · exact (Main.still rfl).alone rfl
    · split
      · rename_i admission
        exact actor.deliver_pass moment (.inr admission)
      · rename_i plain
        split
        · exact (Main.still rfl).alone rfl
        · split
          · rename_i linkState
            rw [acceptLinkState_desk]
            rcases mail_replyEmpty (actor.acceptLinkState E envelope) channel envelope with
              none | ⟨response, some⟩
            · rw [none]
              exact (Main.still rfl).alone rfl
            · rw [some]
              exact (Main.acknowledge rfl linkState response).alone rfl
          · exact actor.routeInbound_pass moment peerId requestId plain channel

/-! ### Answers and failures -/

theorem handleResponse_pass (peerId : P.PeerId) (requestId : OutboundRequestId) (response : Envelope) :
    Pass actor.router.localId (.swarm (.response peerId requestId response)) actor.desk
      (actor.handleResponse moment peerId requestId response).2
      (actor.handleResponse moment peerId requestId response).1.desk := by
  unfold handleResponse
  split
  · rename_i pending found
    dsimp only
    split
    · exact (Touch.fail found .timeout).tidy.alone rfl (by rw [mail_append, mail_closeTimedOutPeer]; rfl)
    · cases valid : pending.expected.validate response peerId with
      | ok => exact (Main.accept rfl found valid).alone rfl
      | error error => exact (Touch.fail found error).tidy.alone rfl rfl
  · split
    · rename_i forward found
      dsimp only
      split
      · rename_i both
        cases valid : forward.expected.validate response peerId with
        | ok => exact (Main.back rfl found valid).alone rfl
        | error error =>
          rw [valid] at both
          cases both.2
      · exact (Touch.release requestId).tidy.alone rfl (mail_closeTimedOutPeer _ peerId)
    · exact (Main.still rfl).alone rfl

theorem handleOutboundFailure_pass (requestId : OutboundRequestId) :
    Pass actor.router.localId (.swarm (.outboundFailure requestId)) actor.desk
      (actor.handleOutboundFailure moment requestId).2 (actor.handleOutboundFailure moment requestId).1.desk := by
  unfold handleOutboundFailure
  split
  · rename_i pending found
    dsimp only
    split
    · exact (Touch.fail found .timeout).tidy.alone rfl (by rw [mail_append, mail_closeTimedOutPeer]; rfl)
    · exact (Touch.fail found .transport).tidy.alone rfl rfl
  · split
    · exact (Touch.release requestId).tidy.alone rfl rfl
    · exact (Main.still rfl).alone rfl

/-! ### Link state and authorization -/

theorem publish_tidy (payload : Bytes) (peers : List (P.PeerId × NodeId)) :
    Tidy actor.desk (mail (publish moment payload peers actor).2) (publish moment payload peers actor).1.desk := by
  induction peers generalizing actor with
  | nil => exact .refl _
  | cons peer peers ih =>
    unfold publish
    split
    · exact .refl _
    · rename_i requestId requestIds _
      dsimp only
      split
      · exact .refl _
      · rename_i envelope made
        rw [Envelope.new] at made
        split at made
        · cases made
        · cases made
          let next : LinkActor P := { actor with
            requestIds := requestIds
            nextOutboundId := actor.nextOutboundId + 1
            broadcastRequests := actor.broadcastRequests.insert actor.nextOutboundId }
          have told : Touch actor.desk
              [.sendRequest actor.nextOutboundId peer.1 ⟨actor.linkStateHeader moment requestId peer.2, payload⟩]
              next.desk := .tell peer.1 ⟨rfl, rfl⟩ rfl
          exact .step told (ih next)

theorem advertiseLinkState_tidy :
    Tidy actor.desk (mail (actor.advertiseLinkState E moment).2) (actor.advertiseLinkState E moment).1.desk := by
  obtain ⟨links, -, plain | ⟨payload, published⟩⟩ := actor.advertiseLinkState_cases E moment
  · rw [plain]
    exact .refl _
  · rw [published]
    exact publish_tidy (actor.tracking moment links) moment payload _

theorem advertised_after {before : LinkActor P} (same : before.desk = actor.desk) :
    Tidy actor.desk (mail (before.advertiseLinkState E moment).2) (before.advertiseLinkState E moment).1.desk :=
  same ▸ before.advertiseLinkState_tidy moment E

theorem promote_desk (connectionId : ConnectionId) : (actor.promote connectionId).desk = actor.desk := by
  unfold promote
  split
  · rfl
  · dsimp only
    split
    · rfl
    · rfl

theorem foldl_promote_desk (connectionIds : List ConnectionId) :
    (connectionIds.foldl promote actor).desk = actor.desk := by
  induction connectionIds generalizing actor with
  | nil => rfl
  | cons connectionId rest ih => exact (ih _).trans (actor.promote_desk connectionId)

theorem installAuthorization_tidy (registry : AuthorizationRegistry) :
    Tidy actor.desk (mail (actor.installAuthorization E moment registry).2)
      (actor.installAuthorization E moment registry).1.desk := by
  unfold installAuthorization
  dsimp only
  rw [mail_append, mail_closes, List.nil_append]
  exact advertised_after actor moment E (foldl_promote_desk _ _)

theorem commitAuthorization_pass (registry : AuthorizationRegistry) (checkCluster persisted : Bool) (reply : Caller) :
    Pass actor.router.localId (.command (.commitAuthorization registry checkCluster persisted reply)) actor.desk
      (actor.commitAuthorization E moment registry checkCluster persisted reply).2
      (actor.commitAuthorization E moment registry checkCluster persisted reply).1.desk := by
  rcases actor.commitAuthorization_cases E moment registry checkCluster persisted reply with
    ⟨_, _, installed⟩ | ⟨_, error, refused⟩
  · rw [installed]
    dsimp only
    have tidied := actor.installAuthorization_tidy moment E registry
    refine ⟨actor.desk, [], _, .still rfl, tidied, ?_⟩
    rw [mail_append, List.nil_append]
    exact List.append_nil _
  · rw [refused]
    exact (Main.still rfl).alone rfl

/-! ### One pass -/

theorem applySwarmEvent_pass (event : SwarmEvent P) :
    Pass actor.router.localId (.swarm event) actor.desk (actor.applySwarmEvent E moment event).2
      (actor.applySwarmEvent E moment event).1.desk := by
  cases event with
  | connectionEstablished peerId connectionId endpoint =>
    show Pass _ _ _ (actor.connectionEstablished peerId connectionId endpoint).2
      (actor.connectionEstablished peerId connectionId endpoint).1.desk
    unfold connectionEstablished
    split
    · split
      · exact (Main.still rfl).alone rfl
      · exact (Main.still rfl).alone rfl
    · exact (Main.still rfl).alone (mail_closes _)
  | connectionClosed peerId connectionId =>
    show Pass _ _ _ [] (actor.connectionClosed peerId connectionId).desk
    let closed : LinkActor P := { actor with
      state := { actor.state with
        quarantined := actor.state.quarantined.erase connectionId }.connectionClosed connectionId }
    have cleared : Tidy actor.desk [] (closed.removePendingInboundPeer peerId).desk :=
      closed.removePendingInboundPeer_tidy peerId
    unfold connectionClosed
    dsimp only
    split
    · exact (Main.still rfl).alone rfl
    · exact cleared.alone rfl rfl
  | ping peerId connectionId alive =>
    cases alive with
    | false => exact (Main.still rfl).alone rfl
    | true => exact (Main.still rfl).alone rfl
  | request peerId requestId envelope channel =>
    exact actor.handleInboundRequest_pass moment E peerId requestId envelope channel
  | response peerId requestId response => exact actor.handleResponse_pass moment peerId requestId response
  | outboundFailure requestId => exact actor.handleOutboundFailure_pass moment requestId
  | inboundFailure requestId => exact (actor.removePendingInboundRequest_tidy requestId).alone rfl rfl

theorem step_pass (event : LinkEvent P) :
    Pass actor.router.localId event actor.desk (actor.step E moment event).2 (actor.step E moment event).1.desk := by
  cases event with
  | command command =>
    cases command with
    | request envelope reply => exact actor.sendRoutedRequest_pass moment rfl
    | requestAdmission sponsor envelope reply => exact actor.sendAdmissionRequest_pass moment rfl rfl
    | respond token envelope reply => exact actor.respond_pass moment token envelope reply
    | commitAuthorization registry checkCluster persisted reply =>
      exact actor.commitAuthorization_pass moment E registry checkCluster persisted reply
  | swarm event =>
    have applied := actor.applySwarmEvent_pass moment E event
    show Pass _ _ _ (actor.handleEvent E moment event).2 (actor.handleEvent E moment event).1.desk
    unfold handleEvent
    dsimp only
    split
    · exact applied.andThen (advertiseLinkState_tidy _ moment E) rfl
    · exact applied
  | expire => exact actor.expirePendingRequests_pass moment
  | allocate =>
    have same : actor.allocateRequestId.desk = actor.desk := by
      unfold allocateRequestId
      split
      · rfl
      · rfl
    show Pass _ _ _ [] actor.allocateRequestId.desk
    rw [same]
    exact (Main.still rfl).alone rfl

/-! ### The node of an actor -/

/-- The same identity at the same node. -/
structure SameNode (before after : LinkActor P) : Prop where
  identity : after.identity = before.identity
  nodeId : after.state.nodeId = before.state.nodeId

theorem SameNode.trans {first second third : LinkActor P} (before : SameNode first second)
    (after : SameNode second third) : SameNode first third :=
  ⟨after.identity.trans before.identity, after.nodeId.trans before.nodeId⟩

theorem Steady.sameNode {before after : LinkActor P} (steady : Steady before after) : SameNode before after :=
  ⟨steady.identity, steady.nodeId⟩

theorem promote_sameNode (connectionId : ConnectionId) : SameNode actor (actor.promote connectionId) := by
  unfold promote
  split
  · exact ⟨rfl, rfl⟩
  · dsimp only
    split
    · exact ⟨rfl, rfl⟩
    · exact ⟨rfl, rfl⟩

theorem foldl_promote_sameNode (connectionIds : List ConnectionId) :
    SameNode actor (connectionIds.foldl promote actor) := by
  induction connectionIds generalizing actor with
  | nil => exact ⟨rfl, rfl⟩
  | cons connectionId rest ih => exact (actor.promote_sameNode connectionId).trans (ih _)

theorem advertised_sameNode : SameNode actor (actor.advertiseLinkState E moment).1 :=
  ⟨(actor.advertiseLinkState_keeps moment).1, congrArg LinkState.nodeId (actor.advertiseLinkState_keeps moment).2⟩

theorem acceptLinkState_sameNode (envelope : Envelope) : SameNode actor (actor.acceptLinkState E envelope) := by
  unfold acceptLinkState
  split
  · exact ⟨rfl, rfl⟩
  · split
    · exact ⟨rfl, rfl⟩
    · split
      · exact ⟨rfl, rfl⟩
      · exact ⟨rfl, rfl⟩

theorem connectionEstablished_sameNode (peerId : P.PeerId) (connectionId : ConnectionId)
    (endpoint : ConnectedPoint) : SameNode actor (actor.connectionEstablished peerId connectionId endpoint).1 := by
  unfold connectionEstablished
  split
  · split
    · exact ⟨rfl, rfl⟩
    · exact ⟨rfl, rfl⟩
  · exact ⟨rfl, rfl⟩

theorem connectionClosed_sameNode (peerId : P.PeerId) (connectionId : ConnectionId) :
    SameNode actor (actor.connectionClosed peerId connectionId) := by
  unfold connectionClosed
  dsimp only
  split
  · exact ⟨rfl, rfl⟩
  · have closed : SameNode actor { actor with
        state := { actor.state with
          quarantined := actor.state.quarantined.erase connectionId }.connectionClosed connectionId } :=
      ⟨rfl, rfl⟩
    exact closed.trans (removePendingInboundPeer_idle _ peerId).sameNode

theorem applySwarmEvent_sameNode (event : SwarmEvent P) :
    SameNode actor (actor.applySwarmEvent E moment event).1 := by
  cases event with
  | connectionEstablished peerId connectionId endpoint =>
    exact actor.connectionEstablished_sameNode peerId connectionId endpoint
  | connectionClosed peerId connectionId => exact actor.connectionClosed_sameNode peerId connectionId
  | ping peerId connectionId alive => exact (actor.ping_idle peerId connectionId alive).sameNode
  | request peerId requestId envelope channel =>
    rw [applySwarmEvent]
    rcases actor.handleInboundRequest_cases E moment peerId requestId envelope channel with
      ⟨routed, _⟩ | ⟨_, accepted⟩ | ⟨idle, _⟩
    · rw [routed]
      exact (actor.routeInbound_steady moment peerId requestId envelope channel).sameNode
    · rw [accepted]
      exact actor.acceptLinkState_sameNode E envelope
    · exact idle.sameNode
  | response peerId requestId response =>
    exact (actor.handleResponse_quiet moment peerId requestId response).steady.sameNode
  | outboundFailure requestId => exact (actor.handleOutboundFailure_quiet moment requestId).steady.sameNode
  | inboundFailure requestId => exact (actor.removePendingInboundRequest_idle requestId).sameNode

theorem step_sameNode (event : LinkEvent P) : SameNode actor (actor.step E moment event).1 := by
  cases event with
  | command command =>
    cases command with
    | request envelope reply => exact (actor.sendRoutedRequest_idle moment envelope reply).sameNode
    | requestAdmission sponsor envelope reply =>
      exact (actor.sendAdmissionRequest_idle moment sponsor envelope reply).sameNode
    | respond token envelope reply => exact (actor.respond_idle moment token envelope reply).sameNode
    | commitAuthorization registry checkCluster persisted reply =>
      rw [step, handleCommand]
      rcases actor.commitAuthorization_cases E moment registry checkCluster persisted reply with
        ⟨_, _, installed⟩ | ⟨_, error, refused⟩
      · rw [installed, installAuthorization]
        dsimp only
        refine SameNode.trans ?_ (advertised_sameNode _ moment E)
        refine SameNode.trans ?_ (foldl_promote_sameNode _ _)
        exact ⟨rfl, rfl⟩
      · rw [refused]
        exact ⟨rfl, rfl⟩
  | swarm event =>
    have applied := actor.applySwarmEvent_sameNode moment E event
    rw [step, handleEvent]
    dsimp only
    split
    · exact applied.trans (advertised_sameNode _ moment E)
    · exact applied
  | expire => exact (actor.expirePendingRequests_quiet moment.now).steady.sameNode
  | allocate => exact actor.allocateRequestId_idle.sameNode

theorem Linked.localId {before after : LinkActor P} (linked : Linked before after) :
    after.router.localId = before.router.localId := by
  rw [linked.router]

theorem Moves.localId {before after : LinkActor P} (moves : Moves before after) :
    after.router.localId = before.router.localId := by
  induction moves with
  | linked linked => exact linked.localId
  | release _ => rfl
  | trans _ _ first second => exact second.trans first

/-- The actor and its router are of the node with this identity. -/
structure At (identity : NodeIdentity P) : Prop where
  router : actor.router.localId = identity.nodeId
  state : actor.state.nodeId = identity.nodeId
  identity : actor.identity = identity

theorem At.step {actor : LinkActor P} {identity : NodeIdentity P} (settled : actor.At identity)
    (E : LinkEncoding) (moment : Moment) (event : LinkEvent P) : (actor.step E moment event).1.At identity := by
  have same := actor.step_sameNode moment E event
  refine ⟨?_, same.nodeId.trans settled.state, same.identity.trans settled.identity⟩
  rcases actor.step_cases E moment event with
    ⟨moves, _⟩ | ⟨peerId, requestId, envelope, channel, _, _, routed⟩ | ⟨_, linked, _⟩
  · exact moves.localId.trans settled.router
  · rw [routed]
    exact (actor.routeInbound_steady moment peerId requestId envelope channel).localId.trans settled.router
  · exact linked.localId.trans settled.state

theorem at_new (identity : NodeIdentity P) (authorization : AuthorizationRegistry) (bootId : Bytes)
    (nextSequence : UInt64) : (new identity authorization bootId nextSequence).At identity := ⟨rfl, rfl, rfl⟩

end Handlers

end LinkActor

end Lycoris.Link
