import Lycoris.Lib.Runs
import Lycoris.Overlay.Enrolled
import Lycoris.Link.Addresses
import Lycoris.Link.Dialing
import Lycoris.Link.Advertising

/-!
Whether the peer directory follows the registry. Entries are made under the registry that is installed;
later registries keep an entry as long as its node has an active peer, whichever that is.
-/

namespace Lycoris.Link
open Lib Overlay

variable {P : Primitives}

/-! ### The registry of the link -/

namespace LinkActor

variable (E : LinkEncoding) (actor : LinkActor P) (moment : Moment)

/-- A pass of the loop keeps the registry, or installs the one it was handed. -/
theorem step_authorization (event : LinkEvent P) :
    (¬ actor.Installs event ∧
      (actor.step E moment event).1.state.authorization = actor.state.authorization) ∨
    (actor.Installs event ∧
      event.registry? = some (actor.step E moment event).1.state.authorization) := by
  have handled : ∀ {event : SwarmEvent P},
      (actor.applySwarmEvent E moment event).1.state.authorization = actor.state.authorization →
      (actor.handleEvent E moment event).1.state.authorization = actor.state.authorization := by
    intro event same
    unfold handleEvent
    dsimp only
    split
    · rw [(advertiseLinkState_keeps _ moment).2]
      exact same
    · exact same
  cases event with
  | command command =>
    cases command with
    | request envelope reply =>
      exact .inl ⟨id, (actor.sendRoutedRequest_idle moment envelope reply).authorization⟩
    | requestAdmission sponsor envelope reply =>
      exact .inl ⟨id, (actor.sendAdmissionRequest_idle moment sponsor envelope reply).authorization⟩
    | respond token envelope reply =>
      exact .inl ⟨id, (actor.respond_idle moment token envelope reply).authorization⟩
    | commitAuthorization registry checkCluster persisted reply =>
      rcases actor.commitAuthorization_cases E moment registry checkCluster persisted reply with
        ⟨valid, stored, installed⟩ | ⟨refused, error, same⟩
      · obtain ⟨rewired, outputs, fresh, _, told⟩ := actor.installAuthorization_tells E moment registry
        refine .inr ⟨⟨valid, stored⟩, congrArg some ?_⟩
        rw [step, handleCommand, installed, told]
        dsimp only
        rw [(advertiseLinkState_keeps _ moment).2, fresh.authorization]
        rfl
      · refine .inl ⟨refused, ?_⟩
        rw [step, handleCommand, same]
  | swarm event =>
    refine .inl ⟨id, handled ?_⟩
    cases event with
    | connectionEstablished peerId connectionId endpoint =>
      exact (actor.connectionEstablished_rewired peerId connectionId endpoint).authorization
    | connectionClosed peerId connectionId =>
      exact (actor.connectionClosed_rewired peerId connectionId).authorization
    | ping peerId connectionId alive => exact (actor.ping_idle peerId connectionId alive).authorization
    | request peerId requestId envelope channel =>
      rw [applySwarmEvent]
      rcases actor.handleInboundRequest_cases E moment peerId requestId envelope channel with
        ⟨routed, _⟩ | ⟨_, accepted⟩ | ⟨idle, _⟩
      · rw [routed]
        exact (actor.routeInbound_steady moment peerId requestId envelope channel).authorization
      · rw [accepted]
        exact (actor.acceptLinkState_keeps E envelope).authorization
      · exact idle.authorization
    | response peerId requestId response =>
      exact (actor.handleResponse_quiet moment peerId requestId response).steady.authorization
    | outboundFailure requestId => exact (actor.handleOutboundFailure_quiet moment requestId).steady.authorization
    | inboundFailure requestId => exact (actor.removePendingInboundRequest_idle requestId).authorization
  | expire => exact .inl ⟨id, (actor.expirePendingRequests_quiet moment.now).steady.authorization⟩
  | allocate => exact .inl ⟨id, actor.allocateRequestId_idle.authorization⟩

end LinkActor

/-! ### Registries that agree with themselves -/

/-- A registry made by the calls of its interface. -/
def Built (P : Primitives) (registry : AuthorizationRegistry) : Prop :=
  ∃ cluster calls, registry = (AuthorizationRegistry.new cluster).replay P calls

/-- The node that a peer stands for has the peer as its active one. -/
theorem activePeerForNode_of_nodeForPeer
    (roundTrip : ∀ peerId, P.peerIdFromBytes (P.peerIdToBytes peerId) = some peerId)
    {registry : AuthorizationRegistry} (built : Built P registry) {peerId : P.PeerId} {nodeId : NodeId}
    (known : registry.nodeForPeer P peerId = some nodeId) :
    registry.activePeerForNode P nodeId = some peerId := by
  obtain ⟨cluster, calls, rfl⟩ := built
  have wf := AuthorizationRegistry.wellFormed_replay (P := P) cluster calls
  obtain ⟨⟨record, active, bytes⟩, _⟩ := (AuthorizationRegistry.nodeForPeer_eq_some wf).mp known
  simp only [AuthorizationRegistry.activePeerForNode, AuthorizationRegistry.activeRecordForNode, active]
  simp [bytes, roundTrip, known]

namespace PeerDirectory

/-- Every entry has the peer id that the registry has for its node. -/
def Follows (directory : PeerDirectory P) (registry : AuthorizationRegistry) : Prop :=
  ∀ nodeId peerId, directory.peerOf nodeId = some peerId →
    registry.activePeerForNode P nodeId = some peerId

/-- Records are made for a node and its peer, and nothing is discarded. -/
def Permitted (registry : AuthorizationRegistry) : DirectoryCall P → Prop
  | .record nodeId peerId _ _ _ _ => registry.activePeerForNode P nodeId = some peerId
  | .retain _ => False
  | _ => True

theorem Follows.apply {directory : PeerDirectory P} {registry : AuthorizationRegistry}
    (follows : directory.Follows registry) {call : DirectoryCall P} (permitted : Permitted registry call) :
    (directory.apply call).Follows registry := by
  intro nodeId peerId found
  rw [peerOf_apply] at found
  cases call with
  | record other peerId' =>
    simp only at found
    split at found
    · rename_i same
      subst same
      cases was : directory.peerOf other with
      | none =>
        rw [was] at found
        exact permitted.trans found
      | some before =>
        rw [was] at found
        exact (follows other before was).trans found
    · exact follows nodeId peerId found
  | retain keep => exact permitted.elim
  | _ => exact follows nodeId peerId found

theorem Follows.replay {directory : PeerDirectory P} {registry : AuthorizationRegistry}
    (follows : directory.Follows registry) {calls : List (DirectoryCall P)}
    (permitted : ∀ call ∈ calls, Permitted registry call) : (directory.replay calls).Follows registry := by
  induction calls generalizing directory with
  | nil => exact follows
  | cons call rest ih =>
    exact ih (follows.apply (permitted call List.mem_cons_self)) fun call member =>
      permitted call (List.mem_cons_of_mem _ member)

/-- A registry that keeps an entry while its node has some active peer is followed exactly when that peer
is the one of the entry. -/
theorem follows_retain_iff {directory : PeerDirectory P} {registry : AuthorizationRegistry} :
    (directory.retain fun nodeId => (registry.activePeerForNode P nodeId).isSome).Follows registry ↔
      ∀ nodeId peerId, directory.peerOf nodeId = some peerId →
        registry.activePeerForNode P nodeId = none ∨ registry.activePeerForNode P nodeId = some peerId := by
  refine forall₂_congr fun nodeId peerId => ?_
  rw [peerOf_retain]
  cases registry.activePeerForNode P nodeId <;> simp

end PeerDirectory

namespace Dialer
open PeerDirectory

/-- The directory moves by calls that the registry permits, and the registry stays. -/
structure Called (before after : Dialer P) : Prop where
  authorization : after.link.state.authorization = before.link.state.authorization
  calls : ∃ calls, after.directory = before.directory.replay calls ∧
    ∀ call ∈ calls, Permitted before.link.state.authorization call

theorem Called.refl (dialer : Dialer P) : Called dialer dialer := ⟨rfl, [], rfl, List.forall_mem_nil _⟩

theorem Called.trans {first second third : Dialer P} (before : Called first second)
    (after : Called second third) : Called first third := by
  obtain ⟨same, calls, moved, permitted⟩ := before
  obtain ⟨same', calls', moved', permitted'⟩ := after
  refine ⟨same'.trans same, calls ++ calls', ?_, ?_⟩
  · rw [moved', moved, PeerDirectory.replay, PeerDirectory.replay, PeerDirectory.replay, List.foldl_append]
  · rw [same] at permitted'
    exact List.forall_mem_append.mpr ⟨permitted, permitted'⟩

theorem Called.foldl {K : Type} {move : Dialer P → K → Dialer P}
    (called : ∀ dialer key, Called dialer (move dialer key)) (keys : List K) (dialer : Dialer P) :
    Called dialer (keys.foldl move dialer) := by
  induction keys generalizing dialer with
  | nil => exact .refl dialer
  | cons key keys ih => exact (called dialer key).trans (ih (move dialer key))

theorem Called.single {before after : Dialer P}
    (authorization : after.link.state.authorization = before.link.state.authorization)
    (call : DirectoryCall P) (moved : after.directory = before.directory.apply call)
    (permitted : Permitted before.link.state.authorization call) : Called before after :=
  ⟨authorization, [call], moved, List.forall_mem_singleton.mpr permitted⟩

theorem Called.follows {before after : Dialer P} (called : Called before after)
    (follows : before.directory.Follows before.link.state.authorization) :
    after.directory.Follows after.link.state.authorization := by
  obtain ⟨same, calls, moved, permitted⟩ := called
  rw [same, moved]
  exact follows.replay permitted

section Handlers

variable (dialer : Dialer P) (moment : DialMoment P)

theorem dialAddress_called (nodeId : NodeId) (peerId : P.PeerId) (address : Multiaddr) :
    Called dialer (dialer.dialAddress moment nodeId peerId address) := by
  unfold dialAddress
  split
  · exact .refl dialer
  · exact .single rfl (.noteFailure nodeId (some address) moment.instant _ _) rfl trivial

theorem dial_called (nodeId : NodeId) (address : Multiaddr) (reply : Caller) :
    Called dialer (dialer.dial moment nodeId address reply).1 := by
  unfold dial
  split
  · exact .refl dialer
  · rename_i peerId active
    refine Called.trans ?_ (dialAddress_called _ moment nodeId peerId address)
    refine ⟨rfl, [.record nodeId peerId address .configured moment.instant dialer.config.discoveredAddressTtl,
      .resume nodeId], rfl, ?_⟩
    exact List.forall_mem_cons.mpr ⟨active, List.forall_mem_singleton.mpr trivial⟩

theorem maintain_called : Called dialer (dialer.maintain moment).1 := by
  unfold maintain
  refine Called.trans ?_ (.foldl (fun dialer candidate => dialer.dialAddress_called moment _ _ _) _ _)
  exact .single (dialer.link.expirePendingRequests_quiet moment.now).steady.authorization
    (.expire moment.instant) rfl trivial

theorem expireDiscoveredAddress_called (lost : P.PeerId × Multiaddr) :
    Called dialer (dialer.expireDiscoveredAddress lost) :=
  .single rfl (.remove lost.1 lost.2) rfl trivial

/-- A discovered address is recorded for the node that its peer stands for. -/
theorem recordDiscoveredAddress_called
    (roundTrip : ∀ peerId, P.peerIdFromBytes (P.peerIdToBytes peerId) = some peerId)
    (built : Built P dialer.link.state.authorization) (found : P.PeerId × Multiaddr) :
    Called dialer (recordDiscoveredAddress moment dialer found) := by
  unfold recordDiscoveredAddress
  split
  · exact .refl dialer
  · rename_i nodeId known
    exact .single rfl (.record nodeId found.1 found.2 .mdns moment.instant _) rfl
      (activePeerForNode_of_nodeForPeer roundTrip built known)

theorem foldl_recordDiscoveredAddress_called
    (roundTrip : ∀ peerId, P.peerIdFromBytes (P.peerIdToBytes peerId) = some peerId)
    (built : Built P dialer.link.state.authorization) (found : List (P.PeerId × Multiaddr)) :
    Called dialer (found.foldl (recordDiscoveredAddress moment) dialer) := by
  induction found generalizing dialer with
  | nil => exact .refl dialer
  | cons first rest ih =>
    have called := dialer.recordDiscoveredAddress_called moment roundTrip built first
    exact called.trans (ih _ (called.authorization ▸ built))

end Handlers

/-! ### Steps and runs -/

end Dialer

/-- The registry an event hands over. -/
def DialEvent.newRegistry : DialEvent P → Option AuthorizationRegistry
  | .link event => event.registry?
  | _ => none

namespace Dialer
open PeerDirectory

variable (E : LinkEncoding)

/-- A registry that passes the check and is stored is installed. -/
def Installs (dialer : Dialer P) : DialEvent P → Prop
  | .link event => dialer.link.Installs event
  | _ => False

theorem validateAuthorization_isOk {actor : LinkActor P} {registry : AuthorizationRegistry}
    {checkCluster : Bool} : (actor.validateAuthorization registry checkCluster).isOk = true ↔
      actor.validateAuthorization registry checkCluster = .ok () := by
  cases actor.validateAuthorization registry checkCluster with
  | error error => simp [Except.isOk, Except.toBool]
  | ok _ => simp [Except.isOk, Except.toBool]

/-- What the directory hears of an event that installs no registry. -/
theorem noteEvent_calls (dialer : Dialer P) (moment : DialMoment P) (after : LinkActor P)
    {event : LinkEvent P} (stays : ¬ dialer.link.Installs event) :
    ∃ calls, dialer.noteEvent moment after event = dialer.directory.replay calls ∧
      ∀ call ∈ calls, Permitted dialer.link.state.authorization call := by
  have nothing : ∃ calls, dialer.directory = dialer.directory.replay calls ∧
      ∀ call ∈ calls, Permitted dialer.link.state.authorization call := ⟨[], rfl, List.forall_mem_nil _⟩
  cases event with
  | command command =>
    cases command with
    | commitAuthorization registry checkCluster persisted reply =>
      rw [noteEvent, if_neg]
      · exact nothing
      · rw [Bool.and_eq_true, validateAuthorization_isOk]
        exact stays
    | _ => exact nothing
  | swarm event =>
    cases event with
    | connectionEstablished peerId connectionId endpoint =>
      rw [noteEvent]
      cases dialer.link.state.authorization.nodeForPeer P peerId with
      | none => exact nothing
      | some nodeId =>
        exact ⟨[.noteSuccess nodeId endpoint.getRemoteAddress moment.instant], rfl,
          List.forall_mem_singleton.mpr trivial⟩
    | connectionClosed peerId connectionId =>
      rw [noteEvent]
      cases dialer.link.state.connections[connectionId]? with
      | none => exact nothing
      | some connection =>
        dsimp only
        split
        · exact nothing
        · exact ⟨[.noteConnectionClosed connection.nodeId moment.instant dialer.config.reconnectMinDelay], rfl,
            List.forall_mem_singleton.mpr trivial⟩
    | _ => exact nothing
  | _ => exact nothing

theorem noteEvent_installs (dialer : Dialer P) (moment : DialMoment P) (after : LinkActor P)
    {event : LinkEvent P} (installs : dialer.link.Installs event) {registry : AuthorizationRegistry}
    (handed : event.registry? = some registry) :
    dialer.noteEvent moment after event =
      dialer.directory.retain fun nodeId => (registry.activePeerForNode P nodeId).isSome := by
  cases event with
  | command command =>
    cases command with
    | commitAuthorization registry' checkCluster persisted reply =>
      obtain rfl := Option.some.inj handed
      rw [noteEvent, if_pos]
      rw [Bool.and_eq_true, validateAuthorization_isOk]
      exact installs
    | _ => cases handed
  | _ => cases handed

theorem step_cases (roundTrip : ∀ peerId, P.peerIdFromBytes (P.peerIdToBytes peerId) = some peerId)
    (dialer : Dialer P) (built : Built P dialer.link.state.authorization) (moment : DialMoment P)
    (event : DialEvent P) :
    (¬ dialer.Installs event ∧ Called dialer (dialer.step E moment event).1) ∨
    (dialer.Installs event ∧ ∃ registry, event.newRegistry = some registry ∧
      (dialer.step E moment event).1.link.state.authorization = registry ∧
      (dialer.step E moment event).1.directory =
        dialer.directory.retain fun nodeId => (registry.activePeerForNode P nodeId).isSome) := by
  cases event with
  | link event =>
    rcases dialer.link.step_authorization E moment.toMoment event with ⟨stays, same⟩ | ⟨installs, handed⟩
    · exact .inl ⟨stays, same, dialer.noteEvent_calls moment _ stays⟩
    · exact .inr ⟨installs, _, handed, rfl, dialer.noteEvent_installs moment _ installs handed⟩
  | dial nodeId address reply => exact .inl ⟨id, dialer.dial_called moment nodeId address reply⟩
  | disconnect nodeId reply => exact .inl ⟨id, .single rfl (.pause nodeId) rfl trivial⟩
  | discovered found =>
    exact .inl ⟨id, (dialer.foldl_recordDiscoveredAddress_called moment roundTrip built found).trans
      (maintain_called _ moment)⟩
  | expired lost =>
    exact .inl ⟨id, (Called.foldl expireDiscoveredAddress_called lost dialer).trans (maintain_called _ moment)⟩
  | maintain => exact .inl ⟨id, dialer.maintain_called moment⟩
  | dialing peerId connectionId =>
    refine .inl ⟨id, ?_⟩
    unfold step dialing
    dsimp only
    split
    · exact .refl dialer
    · exact ⟨rfl, [], rfl, List.forall_mem_nil _⟩
  | outgoingConnectionError connectionId =>
    refine .inl ⟨id, ?_⟩
    unfold step outgoingConnectionError
    dsimp only
    split
    · exact .refl dialer
    · rename_i nodeId _
      exact .single rfl (.noteFailure nodeId none moment.instant _ _) rfl trivial

/-- The directory follows the registry that is installed. -/
def Following (dialer : Dialer P) : Prop := dialer.directory.Follows dialer.link.state.authorization

/-- A registry is installed only when each node of the directory has no active peer in it, or still the
one of its entry. -/
def KeepsKeys (dialer : Dialer P) (event : DialMoment P × DialEvent P) : Prop :=
  dialer.Installs event.2 → ∀ registry, event.2.newRegistry = some registry →
    ∀ nodeId peerId, dialer.directory.peerOf nodeId = some peerId →
      registry.activePeerForNode P nodeId = none ∨ registry.activePeerForNode P nodeId = some peerId

theorem following_new (link : LinkActor P) (config : LinkConfig) : (new link config).Following := by
  intro nodeId peerId found
  simp [new, PeerDirectory.empty, peerOf] at found

/-- Whom `maintain` dials, and what the assertion in `record` compares. -/
theorem Following.peers {dialer : Dialer P} (following : dialer.Following) :
    (∀ now nodeId peerId address, (nodeId, peerId, address) ∈ dialer.directory.candidates now →
      dialer.link.state.activePeerForNode nodeId = some peerId) ∧
    ∀ (nodeId : NodeId) (peerId : P.PeerId) (entry : PeerDirectoryEntry P),
      dialer.link.state.activePeerForNode nodeId = some peerId →
      dialer.directory.entries[nodeId]? = some entry → entry.peerId = peerId := by
  have own : ∀ (nodeId : NodeId) (entry : PeerDirectoryEntry P),
      dialer.directory.entries[nodeId]? = some entry →
        dialer.link.state.activePeerForNode nodeId = some entry.peerId := by
    intro nodeId entry found
    exact following nodeId entry.peerId (by simp [peerOf, found])
  refine ⟨?_, ?_⟩
  · intro now nodeId peerId address candidate
    obtain ⟨⟨nodeId', entry⟩, listed, chosen⟩ := List.mem_filterMap.mp candidate
    obtain ⟨_, _, same⟩ := Option.map_eq_some_iff.mp chosen
    obtain ⟨rfl, rfl, _⟩ : nodeId' = nodeId ∧ entry.peerId = peerId ∧ _ = address := by simpa using same
    exact own nodeId' entry (Std.ExtTreeMap.mem_toList_iff_getElem?_eq_some.mp listed)
  · intro nodeId peerId entry active found
    exact Option.some.inj ((own nodeId entry found).symm.trans active)

/-- The directory follows the registry in every state of a run exactly when no registry is installed
that gives a node of the directory another key. -/
theorem directory_follows_iff
    (roundTrip : ∀ peerId, P.peerIdFromBytes (P.peerIdToBytes peerId) = some peerId)
    (identity : NodeIdentity P) (authorization : AuthorizationRegistry) (bootId : Bytes)
    (nextSequence : UInt64) (config : LinkConfig) (first : Built P authorization)
    (events : List (DialMoment P × DialEvent P))
    (built : ∀ event ∈ events, ∀ registry, event.2.newRegistry = some registry → Built P registry) :
    (Throughout (next E) Following (new (.new identity authorization bootId nextSequence) config) events ↔
      Steps (next E) KeepsKeys (new (.new identity authorization bootId nextSequence) config) events) ∧
    ∀ dialer : Dialer P, dialer.Following →
      (∀ now nodeId peerId address, (nodeId, peerId, address) ∈ dialer.directory.candidates now →
        dialer.link.state.activePeerForNode nodeId = some peerId) ∧
      ∀ (nodeId : NodeId) (peerId : P.PeerId) (entry : PeerDirectoryEntry P),
        dialer.link.state.activePeerForNode nodeId = some peerId →
        dialer.directory.entries[nodeId]? = some entry → entry.peerId = peerId := by
  refine ⟨?_, fun dialer following => following.peers⟩
  refine throughout_iff_steps (fun dialer => Built P dialer.link.state.authorization ∧ dialer.Following)
    ⟨first, following_new _ config⟩ ?_ (fun _ inv => inv.2) ?_
  · rintro dialer ⟨moment, event⟩ member ⟨here, following⟩ keeps
    rcases dialer.step_cases E roundTrip here moment event with
      ⟨_, called⟩ | ⟨installs, registry, handed, same, retained⟩
    · exact ⟨called.authorization ▸ here, called.follows following⟩
    · refine ⟨?_, ?_⟩
      · rw [next, same]
        exact built _ member registry handed
      · rw [Following, next, same, retained]
        exact follows_retain_iff.mpr (keeps installs registry handed)
  · rintro dialer ⟨moment, event⟩ _ ⟨here, _⟩ follows installs registry handed
    rcases dialer.step_cases E roundTrip here moment event with
      ⟨stays, _⟩ | ⟨_, registry', handed', same, retained⟩
    · exact absurd installs stays
    · obtain rfl := Option.some.inj (handed.symm.trans handed')
      rw [Following, next, same, retained] at follows
      exact follows_retain_iff.mp follows

section Rotated
open Transparent

/-- The member takes a new key. -/
def memberRotation : AuthorizationRecord :=
  signed ((AuthorizationRecord.successorBody admission (Transparent.identity 2 4) .rotate).setAuthorizer
    admission admission) member

def pair : AuthorizationRegistry :=
  (AuthorizationRegistry.new cluster).replay primitives [.merge [founding, admission]]

def rotatedPair : AuthorizationRegistry :=
  (AuthorizationRegistry.new cluster).replay primitives [.merge [founding, admission, memberRotation]]

theorem pairMoment_inRange : (1000 : Int) < 2 ^ 63 := by decide

def pairMoment : DialMoment primitives := ⟨⟨1000, 1000, true, true, pairMoment_inRange⟩, 0, fun _ _ => true⟩

def founderDialer : Dialer primitives := new (.new founder pair [] 0) {}

/-- The founder dials the member and then installs a registry. -/
def dialThenInstall (registry : AuthorizationRegistry) :
    List (DialMoment primitives × DialEvent primitives) :=
  [(pairMoment, .dial member.nodeId memberAddress 0),
    (pairMoment, .link (.command (.commitAuthorization registry true true 1)))]

theorem same_registry_followed :
    Throughout (next linkEncoding) Following founderDialer (dialThenInstall pair) := by
  have built : Built primitives pair := ⟨cluster, _, rfl⟩
  refine (directory_follows_iff linkEncoding (fun _ => rfl) founder pair [] 0 {} built (dialThenInstall pair)
    ?_).1.mpr ⟨False.elim, ?_, trivial⟩
  · intro event member registry handed
    rcases List.mem_pair.mp member with rfl | rfl
    · cases handed
    · cases handed
      exact built
  · rintro - registry ⟨⟩ nodeId peerId found
    have called := founderDialer.dial_called pairMoment member.nodeId memberAddress 0
    have active := called.follows (following_new _ _) nodeId peerId found
    rw [called.authorization] at active
    exact .inr active

/-- The member's entry outlives its key: the founder goes on dialing it under the old one. -/
theorem rotated_key_not_followed :
    ¬ Throughout (next linkEncoding) Following founderDialer (dialThenInstall rotatedPair) := by
  intro all
  have following := all.last member.nodeId member.peerId (by decide +kernel)
  exact absurd following (by decide +kernel)

end Rotated

end Dialer

end Lycoris.Link
