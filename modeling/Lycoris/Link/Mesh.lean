import Lycoris.Lib.Board
import Lycoris.Link.Advertising

/-!
Link actors that exchange requests. A request is in flight from the moment an actor sends it until it is
delivered, in any order. The mesh is seen as a board of link-state records, on which every node listens
to the nodes that list it as an edge.
-/

namespace Lycoris.Link
open Lib Overlay

structure Packet (ι : Type) (P : Primitives) where
  sender : ι
  peerId : P.PeerId
  envelope : Envelope

structure Mesh (ι : Type) (P : Primitives) where
  actors : ι → LinkActor P
  flight : List (Packet ι P)

/-- A pass of one actor's loop, or a request in flight that arrives. -/
inductive MeshEvent (ι : Type) (P : Primitives) where
  | act (i : ι) (event : LinkEvent P)
  | deliver (position : Nat) (i : ι) (requestId : InboundRequestId) (channel : ResponseChannel)

variable {ι : Type} {P : Primitives}

/-- The requests among the outputs. -/
def packets (i : ι) (outputs : List (LinkOutput P)) : List (Packet ι P) :=
  outputs.filterMap fun
    | .sendRequest _ peerId envelope => some ⟨i, peerId, envelope⟩
    | _ => none

theorem mem_packets {i : ι} {outputs : List (LinkOutput P)} {packet : Packet ι P} :
    packet ∈ packets i outputs ↔
      packet.sender = i ∧ ∃ requestId, .sendRequest requestId packet.peerId packet.envelope ∈ outputs := by
  rw [packets, List.mem_filterMap]
  constructor
  · rintro ⟨output, member, sent⟩
    cases output with
    | sendRequest requestId peerId envelope =>
      obtain rfl := Option.some.inj sent
      exact ⟨rfl, requestId, member⟩
    | _ => cases sent
  · rintro ⟨sender, requestId, member⟩
    refine ⟨_, member, ?_⟩
    rw [← sender]

namespace Mesh

/-- The mesh once a request has left the flight. -/
def without (mesh : Mesh ι P) (position : Nat) : Mesh ι P :=
  { mesh with flight := mesh.flight.eraseIdx position }

section Steps

variable [DecidableEq ι] (E : LinkEncoding)

def act (mesh : Mesh ι P) (moment : Moment) (i : ι) (event : LinkEvent P) : Mesh ι P :=
  let stepped := (mesh.actors i).step E moment event
  ⟨Function.update mesh.actors i stepped.1, mesh.flight ++ packets i stepped.2⟩

def step (mesh : Mesh ι P) (moment : Moment) : MeshEvent ι P → Mesh ι P
  | .act i event => mesh.act E moment i event
  | .deliver position i requestId channel =>
    match mesh.flight[position]? with
    | none => mesh
    | some packet =>
      if packet.peerId = (mesh.actors i).identity.peerId then
        (mesh.without position).act E moment i
          (.swarm (.request (mesh.actors packet.sender).identity.peerId requestId packet.envelope channel))
      else mesh

def run (mesh : Mesh ι P) : List (Moment × MeshEvent ι P) → Mesh ι P
  | [] => mesh
  | (moment, event) :: rest => run (mesh.step E moment event) rest

end Steps

/-! ### The board -/

section Board

variable (E : LinkEncoding) (identities : ι → NodeIdentity P)

def board (mesh : Mesh ι P) : Board ι LinkStateRecord where
  listens i j := (identities j).nodeId ∈ (mesh.actors i).state.edgeSet
  holds j i := (mesh.actors j).router.links.records[(identities i).nodeId]?
  underway i j record := ∃ packet ∈ mesh.flight, packet.sender = i ∧
    packet.peerId = (identities j).peerId ∧ isLinkState packet.envelope ∧
    E.recordFromBytes packet.envelope.payload = some record

abbrev version (record : LinkStateRecord) : Nat := record.sequence.toNat

/-- The registry knows the nodes by no other keys than their own. -/
def Binds (registry : AuthorizationRegistry) : Prop :=
  ∀ i peerId, registry.nodeForPeer P peerId = some (identities i).nodeId → peerId = (identities i).peerId

/-- What holds of the actor of node `i` at any time. -/
structure Fit (i : ι) (actor : LinkActor P) : Prop where
  identity : actor.identity = identities i
  binds : Binds identities actor.state.authorization
  wired : ∀ {info j}, info ∈ actor.state.links → info.nodeId = (identities j).nodeId →
    info.peerId = (identities j).peerId
  own : ∀ {record}, actor.router.links.records[(identities i).nodeId]? = some record →
    record.sequence = actor.lastLinkStateSequence ∧
      ∀ {node}, node ∈ record.edges ↔ node ∈ actor.state.edgeSet ∧ node ≠ (identities i).nodeId

/-- A record of node `i`, signed with its key. -/
def SignedBy (i : ι) (record : LinkStateRecord) : Prop :=
  record.nodeId = (identities i).nodeId ∧
    record.verifyWith P E (P.encodePublicKey (identities i).publicKey) = .ok ()

structure Proper (mesh : Mesh ι P) : Prop where
  fits : ∀ i, Fit identities i (mesh.actors i)
  carried : ∀ packet ∈ mesh.flight, isLinkState packet.envelope →
    ∃ record, Announces E record packet.envelope ∧ SignedBy E identities packet.sender record

end Board

/-! ### Flight -/

section Flight

variable {E : LinkEncoding} {identities : ι → NodeIdentity P} {mesh : Mesh ι P} {position : Nat}
  {packet : Packet ι P}

theorem Proper.without (proper : Proper E identities mesh) (position : Nat) :
    Proper E identities (mesh.without position) :=
  ⟨proper.fits, fun packet member => proper.carried packet (List.mem_of_mem_eraseIdx member)⟩

theorem mem_without (found : mesh.flight[position]? = some packet) {other : Packet ι P}
    (member : other ∈ mesh.flight) : other = packet ∨ other ∈ (mesh.without position).flight := by
  obtain ⟨n, listed⟩ := List.mem_iff_getElem?.mp member
  by_cases same : n = position
  · rw [same, found] at listed
    exact .inl (Option.some.inj listed).symm
  · exact .inr (List.mem_eraseIdx_iff_getElem?.mpr ⟨n, same, listed⟩)

theorem board_without (found : mesh.flight[position]? = some packet)
    (other : ¬ isLinkState packet.envelope) :
    board E identities (mesh.without position) = board E identities mesh := by
  rw [Board.mk.injEq]
  refine ⟨rfl, rfl, funext fun k => funext fun j => funext fun record => propext ⟨?_, ?_⟩⟩
  · rintro ⟨carrier, member, carries⟩
    exact ⟨carrier, List.mem_of_mem_eraseIdx member, carries⟩
  · rintro ⟨carrier, member, sender, peerId, linkState, decoded⟩
    rcases mem_without found member with rfl | remains
    · exact absurd linkState other
    · exact ⟨carrier, remains, sender, peerId, linkState, decoded⟩

end Flight

/-! ### One actor -/

section Actor
open LinkActor

variable {E : LinkEncoding} {identities : ι → NodeIdentity P} {i : ι} {before after : LinkActor P}

theorem mem_edgeSet {state : LinkState P} {node : NodeId} :
    node ∈ state.edgeSet ↔ ∃ info ∈ state.links, info.nodeId = node := by
  rw [LinkState.edgeSet, Std.ExtTreeSet.mem_ofList, List.contains_iff_mem, List.mem_map]

theorem Fit.wired_of_rewired (fit : Fit identities i before) (rewired : Rewired before after)
    {info : ConnectionInfo P} {j : ι} (member : info ∈ after.state.links)
    (named : info.nodeId = (identities j).nodeId) : info.peerId = (identities j).peerId := by
  rcases rewired.connections member with old | vouched
  · exact fit.wired old named
  · rw [rewired.authorization, named] at vouched
    exact fit.binds j info.peerId vouched

theorem Fit.unheard (fit : Fit identities i before) {stepped : LinkActor P × List (LinkOutput P)}
    (unheard : Unheard before stepped) : Fit identities i stepped.1 := by
  obtain ⟨rewired, edges, _⟩ := unheard
  refine ⟨rewired.identity.trans fit.identity, ?_, fit.wired_of_rewired rewired, ?_⟩
  · rw [rewired.authorization]
    exact fit.binds
  · intro record found
    rw [rewired.links] at found
    rw [rewired.sequence, edges]
    exact fit.own found

theorem Fit.keeps (fit : Fit identities i before) (keeps : Keeps before after)
    (own : after.router.links.records[(identities i).nodeId]? =
      before.router.links.records[(identities i).nodeId]?) : Fit identities i after := by
  refine ⟨keeps.identity.trans fit.identity, ?_, ?_, ?_⟩
  · rw [keeps.authorization]
    exact fit.binds
  · intro info j member
    rw [LinkState.links, keeps.connections] at member
    exact fit.wired member
  · intro record found
    rw [keeps.sequence, LinkState.edgeSet_congr keeps.connections]
    exact fit.own (own.symm.trans found)

theorem Fit.withRegistry (fit : Fit identities i before) {registry : AuthorizationRegistry}
    (binds : Binds identities registry) : Fit identities i (before.withRegistry registry) := by
  refine ⟨fit.identity, binds, fit.wired, ?_⟩
  intro record found
  have none : (before.withRegistry registry).router.links.records[(identities i).nodeId]? = none :=
    Std.ExtTreeMap.getElem?_empty
  rw [none] at found
  cases found

/-- What an advertisement leaves: the record is the node's latest, and all its neighbours are told. -/
structure Told (E : LinkEncoding) (identities : ι → NodeIdentity P) (i : ι) (before : LinkActor P)
    (stepped : LinkActor P × List (LinkOutput P)) (record : LinkStateRecord) : Prop where
  fit : Fit identities i stepped.1
  signed : SignedBy E identities i record
  newer : before.lastLinkStateSequence < record.sequence
  links : stepped.1.router.links.records = before.router.links.records.insert (identities i).nodeId record
  reaches : ∀ {j}, (identities j).nodeId ∈ stepped.1.state.edgeSet → ∃ requestId envelope,
    .sendRequest requestId (identities j).peerId envelope ∈ stepped.2 ∧ Announces E record envelope
  only : ∀ {requestId peerId envelope}, .sendRequest requestId peerId envelope ∈ stepped.2 →
    isLinkState envelope → Announces E record envelope

theorem Fit.tells (fit : Fit identities i before) (sound : Sound E (identities i)) {moment : Moment}
    {stepped : LinkActor P × List (LinkOutput P)} (tells : Tells E moment before stepped)
    (room : before.lastLinkStateSequence ≠ UInt64.ofNat (2 ^ 64 - 1)) (left : Room stepped.1) :
    ∃ record, Told E identities i before stepped record := by
  obtain ⟨mid, outputs, more, rewired, plain, plain', rfl⟩ := tells
  obtain ⟨identity, state⟩ := @advertiseLinkState_keeps P E mid moment
  have self : mid.identity = identities i := rewired.identity.trans fit.identity
  have few := left.edges
  rw [identity, state] at few
  have older : ∀ current, mid.router.links.records[mid.identity.nodeId]? = some current →
      current.sequence ≤ mid.lastLinkStateSequence := by
    intro current found
    rw [self, rewired.links] at found
    rw [rewired.sequence, (fit.own found).1]
    exact UInt64.le_refl _
  obtain ⟨record, advertised⟩ := advertiseLinkState_advertised moment (self ▸ sound) few
    (rewired.sequence ▸ room) left.requests older
  have named : record.nodeId = (identities i).nodeId := advertised.named.trans (congrArg _ self)
  have describes : ∀ {node}, node ∈ record.edges ↔
      node ∈ mid.state.edgeSet ∧ node ≠ (identities i).nodeId := by
    intro node
    rw [advertised.edges, mem_advertisedEdges, self, mem_edgeSet, List.mem_map]
  refine ⟨record, ⟨⟨identity.trans self, ?_, ?_, ?_⟩, ⟨named, ?_⟩, ?_, ?_, ?_, ?_⟩⟩
  · rw [state, rewired.authorization]
    exact fit.binds
  · rw [state]
    exact fit.wired_of_rewired rewired
  · intro found stored
    rw [advertised.links, named, Std.ExtTreeMap.getElem?_insert_self] at stored
    rw [← Option.some.inj stored, state]
    exact ⟨advertised.sequence, describes⟩
  · rw [← self]
    exact advertised.verified
  · rw [advertised.sequence, ← rewired.sequence]
    exact advertised.raised
  · rw [advertised.links, named, rewired.links]
  · intro j edge
    rw [state, mem_edgeSet] at edge
    obtain ⟨info, member, node⟩ := edge
    obtain ⟨requestId, envelope, sent⟩ := advertised.told info member
    refine ⟨requestId, envelope, ?_, advertised.only sent⟩
    rw [← fit.wired_of_rewired rewired member node]
    exact List.mem_append_left _ (List.mem_append_right _ sent)
  · intro requestId peerId envelope sent linkState
    rcases List.mem_append.mp sent with first | last
    · rcases List.mem_append.mp first with first | advertises
      · exact absurd linkState (plain requestId peerId envelope first)
      · exact advertised.only advertises
    · exact absurd linkState (plain' requestId peerId envelope last)

end Actor

/-! ### Steps of the mesh -/

section Simulation
open LinkActor

variable [DecidableEq ι] {E : LinkEncoding} {identities : ι → NodeIdentity P} {mesh : Mesh ι P}
  {moment : Moment} {i : ι} {event : LinkEvent P}

theorem act_self : (mesh.act E moment i event).actors i = ((mesh.actors i).step E moment event).1 :=
  Function.update_self ..

theorem act_other {j : ι} (other : j ≠ i) : (mesh.act E moment i event).actors j = mesh.actors j :=
  Function.update_of_ne other ..

theorem underway_act {k l : ι} {record : LinkStateRecord} :
    (board E identities (mesh.act E moment i event)).underway k l record ↔
      (board E identities mesh).underway k l record ∨ (k = i ∧ ∃ requestId envelope,
        .sendRequest requestId (identities l).peerId envelope ∈ ((mesh.actors i).step E moment event).2 ∧
        isLinkState envelope ∧ E.recordFromBytes envelope.payload = some record) := by
  constructor
  · rintro ⟨packet, member, sender, peerId, linkState, decoded⟩
    rcases List.mem_append.mp member with old | new
    · exact .inl ⟨packet, old, sender, peerId, linkState, decoded⟩
    · obtain ⟨sent, requestId, output⟩ := mem_packets.mp new
      rw [peerId] at output
      exact .inr ⟨sender.symm.trans sent, requestId, packet.envelope, output, linkState, decoded⟩
  · rintro (⟨packet, old, carries⟩ | ⟨rfl, requestId, envelope, sent, linkState, decoded⟩)
    · exact ⟨packet, List.mem_append_left _ old, carries⟩
    · refine ⟨⟨k, (identities l).peerId, envelope⟩, List.mem_append_right _ ?_, rfl, rfl, linkState, decoded⟩
      exact mem_packets.mpr ⟨rfl, requestId, sent⟩

theorem underway_act_plain (plain : Plain ((mesh.actors i).step E moment event).2) {k l : ι}
    {record : LinkStateRecord} :
    (board E identities (mesh.act E moment i event)).underway k l record ↔
      (board E identities mesh).underway k l record := by
  rw [underway_act]
  refine or_iff_left fun ⟨_, requestId, envelope, sent, linkState, _⟩ => ?_
  exact plain requestId _ envelope sent linkState

theorem board_act_of_unheard (unheard : Unheard (mesh.actors i) ((mesh.actors i).step E moment event)) :
    board E identities (mesh.act E moment i event) = board E identities mesh := by
  have listens : ∀ k j, (board E identities (mesh.act E moment i event)).listens k j =
      (board E identities mesh).listens k j := by
    intro k j
    by_cases self : k = i
    · subst self
      show (_ ∈ ((mesh.act E moment k event).actors k).state.edgeSet) = _
      rw [act_self, unheard.edges]
      rfl
    · show (_ ∈ ((mesh.act E moment i event).actors k).state.edgeSet) = _
      rw [act_other self]
      rfl
  have holds : ∀ k j, (board E identities (mesh.act E moment i event)).holds k j =
      (board E identities mesh).holds k j := by
    intro k j
    by_cases self : k = i
    · subst self
      show ((mesh.act E moment k event).actors k).router.links.records[_]? = _
      rw [act_self, unheard.rewired.links]
      rfl
    · show ((mesh.act E moment i event).actors k).router.links.records[_]? = _
      rw [act_other self]
      rfl
  rw [Board.mk.injEq]
  exact ⟨funext fun k => funext (listens k), funext fun k => funext (holds k),
    funext fun k => funext fun j => funext fun record => propext (underway_act_plain unheard.plain)⟩

/-- An advertisement is an announcement on the board. The base is the actor itself or, when a registry is
installed, the one whose router starts over. -/
theorem announce_of_told {base : LinkActor P} {record : LinkStateRecord}
    (nodes : Function.Injective fun j => (identities j).nodeId)
    (fit : Fit identities i (mesh.actors i))
    (told : Told E identities i base ((mesh.actors i).step E moment event) record)
    (sequence : base.lastLinkStateSequence = (mesh.actors i).lastLinkStateSequence)
    (forgets : ∀ {k}, k ≠ i → base.router.links.records[(identities k).nodeId]? =
        (board E identities mesh).holds i k ∨
      (base.router.links.records[(identities k).nodeId]? = none ∧
        ((board E identities mesh).listens k i → ∀ {latest},
          (board E identities mesh).holds k k = some latest →
          (board E identities mesh).underway k i latest))) :
    Board.Announce version (board E identities mesh) (board E identities (mesh.act E moment i event)) i
      record := by
  have holds : ∀ k, (board E identities (mesh.act E moment i event)).holds i k =
      (base.router.links.records.insert (identities i).nodeId record)[(identities k).nodeId]? := by
    intro k
    show ((mesh.act E moment i event).actors i).router.links.records[_]? = _
    rw [act_self, told.links]
  refine ⟨?_, ?_, ?_, ?_, ?_, ?_, ?_, ?_⟩
  · intro old found
    have newer := told.newer
    rw [sequence, ← (fit.own found).1] at newer
    exact UInt64.lt_iff_toNat_lt.mp newer
  · rw [holds, Std.ExtTreeMap.getElem?_insert_self]
  · intro j k other
    show ((mesh.act E moment i event).actors j).router.links.records[_]? = _
    rw [act_other other]
    rfl
  · intro k other
    have apart : compare (identities i).nodeId (identities k).nodeId ≠ .eq := fun same =>
      other (nodes (Std.LawfulEqOrd.eq_of_compare same)).symm
    rw [holds, Std.ExtTreeMap.getElem?_insert, if_neg apart]
    exact forgets other
  · intro k j other
    show _ ∈ ((mesh.act E moment i event).actors k).state.edgeSet ↔ _
    rw [act_other other]
    rfl
  · intro j edge
    have edge' : (identities j).nodeId ∈ ((mesh.actors i).step E moment event).1.state.edgeSet := by
      rw [← @act_self _ _ _ E mesh moment i event]
      exact edge
    obtain ⟨requestId, envelope, sent, linkState, _, decoded⟩ := told.reaches edge'
    exact underway_act.mpr (.inr ⟨rfl, requestId, envelope, sent, linkState, decoded⟩)
  · intro k j copy underway
    exact underway_act.mpr (.inl underway)
  · intro k j copy underway
    rcases underway_act.mp underway with old | ⟨sender, requestId, envelope, sent, linkState, decoded⟩
    · exact .inl old
    · obtain ⟨_, _, announced⟩ := told.only sent linkState
      exact .inr ⟨sender, Option.some.inj (decoded.symm.trans announced)⟩

theorem Proper.act (proper : Proper E identities mesh)
    (fit : Fit identities i ((mesh.actors i).step E moment event).1)
    (carried : ∀ {requestId peerId envelope},
      .sendRequest requestId peerId envelope ∈ ((mesh.actors i).step E moment event).2 →
      isLinkState envelope → ∃ record, Announces E record envelope ∧ SignedBy E identities i record) :
    Proper E identities (mesh.act E moment i event) := by
  refine ⟨?_, ?_⟩
  · intro j
    by_cases self : j = i
    · rw [self, act_self]
      exact fit
    · rw [act_other self]
      exact proper.fits j
  · intro packet member linkState
    rcases List.mem_append.mp member with old | new
    · exact proper.carried packet old linkState
    · obtain ⟨sender, requestId, sent⟩ := mem_packets.mp new
      rw [sender]
      exact carried sent linkState

/-! ### Orderly steps -/

variable (E identities)

/-- The actor knows the node by its peer, its cluster and its key. -/
def Knows (actor : LinkActor P) (identity : NodeIdentity P) (clusterId : ClusterId) : Prop :=
  (actor.state.authorization.nodeForPeer P identity.peerId).isSome ∧
    clusterId = actor.state.authorization.clusterId ∧
    (actor.state.authorization.activeRecordForNode identity.nodeId).map AuthorizationRecord.publicKey =
      some (P.encodePublicKey identity.publicKey)

/-- Link state is sent by advertisements only. A registry knows the nodes by their own keys and is
installed while the latest records of the neighbours are still underway, and a node knows its neighbours
by the time their latest records arrive. -/
def Orderly (mesh : Mesh ι P) : MeshEvent ι P → Prop
  | .act i event =>
    (∀ envelope, event.envelope? = some envelope → ¬ isLinkState envelope) ∧
    ∀ registry, event.registry? = some registry → (mesh.actors i).Installs event →
      Binds identities registry ∧ ∀ k, k ≠ i → (board E identities mesh).listens k i →
        ∀ latest, (board E identities mesh).holds k k = some latest →
          (board E identities mesh).underway k i latest
  | .deliver position i _ _ =>
    ∀ packet, mesh.flight[position]? = some packet → packet.peerId = (identities i).peerId →
      isLinkState packet.envelope → (board E identities mesh).listens packet.sender i →
      (board E identities mesh).holds packet.sender packet.sender =
        E.recordFromBytes packet.envelope.payload →
      Knows (mesh.actors i) (identities packet.sender) packet.envelope.header.clusterId

variable {E identities}

theorem act_simulates (nodes : Function.Injective fun j => (identities j).nodeId)
    (sound : Sound E (identities i)) (proper : Proper E identities mesh)
    (orderly : mesh.Orderly E identities (.act i event)) (room : Room (mesh.actors i))
    (left : Room ((mesh.act E moment i event).actors i)) :
    Board.Step version (board E identities mesh) (board E identities (mesh.act E moment i event)) ∧
      Proper E identities (mesh.act E moment i event) := by
  obtain ⟨other, installs⟩ := orderly
  have fit := proper.fits i
  rw [act_self] at left
  rcases (mesh.actors i).step_unheard_or_tells E moment other with
    unheard | tells | ⟨registry, handed, installed, tells⟩
  · refine ⟨.quiet (board_act_of_unheard unheard), proper.act (fit.unheard unheard) ?_⟩
    intro requestId peerId envelope sent linkState
    exact absurd linkState (unheard.plain requestId peerId envelope sent)
  · obtain ⟨record, told⟩ := fit.tells sound tells room.sequences left
    refine ⟨.announce (announce_of_told nodes fit told rfl fun _ => .inl rfl), proper.act told.fit ?_⟩
    intro requestId peerId envelope sent linkState
    exact ⟨record, told.only sent linkState, told.signed⟩
  · obtain ⟨binds, underway⟩ := installs registry handed installed
    obtain ⟨record, told⟩ := (fit.withRegistry binds).tells sound tells room.sequences left
    refine ⟨.announce (announce_of_told nodes fit told rfl ?_), proper.act told.fit ?_⟩
    · intro k away
      exact .inr ⟨Std.ExtTreeMap.getElem?_empty, fun listens latest => underway k away listens latest⟩
    · intro requestId peerId envelope sent linkState
      exact ⟨record, told.only sent linkState, told.signed⟩

/-! ### Arrivals -/

/-- What a node makes of a record that arrives: the record is not trusted or stale, or it takes the place
of an older one. -/
inductive Heard (before after : LinkActor P) (record : LinkStateRecord) (known : Prop) : Prop where
  | ignored (links : after.router.links = before.router.links) (unknown : ¬ known)
  | stale (links : after.router.links = before.router.links) {current : LinkStateRecord}
      (found : before.router.links.records[record.nodeId]? = some current)
      (stale : record.sequence ≤ current.sequence)
  | learned (links : after.router.links.records =
        before.router.links.records.insert record.nodeId record)
      (newer : ∀ {current}, before.router.links.records[record.nodeId]? = some current →
        current.sequence < record.sequence)

theorem heard_of_announces {receiver : LinkActor P} {sender : NodeIdentity P} {record : LinkStateRecord}
    {envelope : Envelope} (announces : Announces E record envelope)
    (named : record.nodeId = sender.nodeId)
    (verified : record.verifyWith P E (P.encodePublicKey sender.publicKey) = .ok ())
    (requestId : InboundRequestId) (channel : ResponseChannel) :
    Heard receiver
      (receiver.step E moment (.swarm (.request sender.peerId requestId envelope channel))).1 record
      (Knows receiver sender envelope.header.clusterId) := by
  obtain ⟨linkState, version, decoded⟩ := announces
  obtain ⟨_, accepted | ⟨idle, deaf⟩⟩ :=
    receiver.step_linkState E moment linkState sender.peerId requestId channel
  · rw [accepted]
    rcases receiver.acceptLinkState_cases E decoded with
      ⟨same, distrusted | ⟨current, found, stale⟩⟩ | ⟨links, same, grown, newer⟩
    · refine .ignored (by rw [same]) fun ⟨_, _, key⟩ => distrusted ?_
      obtain ⟨authorized, active, key⟩ := Option.map_eq_some_iff.mp key
      rw [← named] at active
      exact ⟨authorized, active, key ▸ verified⟩
    · exact .stale (by rw [same]) found stale
    · refine .learned ?_ (newer _)
      rw [same]
      exact grown
  · exact .ignored idle.links fun ⟨known, cluster, _⟩ => deaf ⟨version, known, cluster⟩

/-- A record that arrives, on the board. -/
theorem arrive_of_heard {record : LinkStateRecord} {position : Nat} {packet : Packet ι P} {known : Prop}
    (nodes : Function.Injective fun j => (identities j).nodeId)
    (peers : Function.Injective fun j => (identities j).peerId)
    (found : mesh.flight[position]? = some packet) (addressed : packet.peerId = (identities i).peerId)
    (announces : Announces E record packet.envelope)
    (named : record.nodeId = (identities packet.sender).nodeId)
    (plain : Plain ((mesh.actors i).step E moment event).2)
    (keeps : Keeps (mesh.actors i) ((mesh.actors i).step E moment event).1)
    (heard : Heard (mesh.actors i) ((mesh.actors i).step E moment event).1 record known)
    (knows : (board E identities mesh).listens packet.sender i →
      (board E identities mesh).holds packet.sender packet.sender = some record → known) :
    Board.Arrive version (board E identities mesh)
      (board E identities ((mesh.without position).act E moment i event)) packet.sender i record := by
  obtain ⟨linkState, _, decoded⟩ := announces
  have plain' : Plain (((mesh.without position).actors i).step E moment event).2 := plain
  have holds : ∀ k, (board E identities ((mesh.without position).act E moment i event)).holds i k =
      ((mesh.actors i).step E moment event).1.router.links.records[(identities k).nodeId]? := by
    intro k
    show (((mesh.without position).act E moment i event).actors i).router.links.records[_]? = _
    rw [act_self]
    rfl
  refine ⟨⟨packet, List.mem_of_getElem? found, rfl, addressed, linkState, decoded⟩, ?_, ?_, ?_, ?_, ?_⟩
  · intro k l apart
    by_cases self : k = i
    · subst self
      have other : compare record.nodeId (identities l).nodeId ≠ .eq := fun same =>
        apart ⟨rfl, (nodes (named.symm.trans (Std.LawfulEqOrd.eq_of_compare same))).symm⟩
      rw [holds]
      cases heard with
      | ignored links unknown =>
        rw [links]
        rfl
      | stale links =>
        rw [links]
        rfl
      | learned links newer =>
        rw [links, Std.ExtTreeMap.getElem?_insert, if_neg other]
        rfl
    · show (((mesh.without position).act E moment i event).actors k).router.links.records[_]? = _
      rw [act_other self]
      rfl
  · rw [holds, ← named]
    show _ ∨ _ ∨ _
    have before : (board E identities mesh).holds i packet.sender =
        (mesh.actors i).router.links.records[record.nodeId]? := by
      rw [named]
      rfl
    rw [before]
    cases heard with
    | ignored links unknown => exact .inl ⟨by rw [links], fun both => unknown (knows both.1 both.2)⟩
    | stale links stored stale =>
      exact .inr (.inl ⟨by rw [links], _, stored, UInt64.le_iff_toNat_le.mp stale⟩)
    | learned links newer =>
      refine .inr (.inr ⟨?_, fun stored => UInt64.lt_iff_toNat_lt.mp (newer stored)⟩)
      rw [links, Std.ExtTreeMap.getElem?_insert_self]
  · intro k l
    show _ ∈ (((mesh.without position).act E moment i event).actors k).state.edgeSet ↔ _
    by_cases self : k = i
    · subst self
      rw [act_self]
      show _ ∈ ((mesh.actors k).step E moment event).1.state.edgeSet ↔ _
      rw [LinkState.edgeSet_congr keeps.connections]
      rfl
    · rw [act_other self]
      rfl
  · rintro k l copy ⟨carrier, member, sender, peerId, carries, copied⟩
    rcases mem_without found member with same | remains
    · subst same
      exact .inl ⟨sender.symm, peers (peerId.symm.trans addressed),
        Option.some.inj (copied.symm.trans decoded)⟩
    · exact .inr ((underway_act_plain plain').mpr ⟨carrier, remains, sender, peerId, carries, copied⟩)
  · intro k l copy underway
    obtain ⟨carrier, member, carries⟩ := (underway_act_plain plain').mp underway
    exact ⟨carrier, List.mem_of_mem_eraseIdx member, carries⟩

theorem deliver_simulates {position : Nat} {requestId : InboundRequestId} {channel : ResponseChannel}
    (nodes : Function.Injective fun j => (identities j).nodeId)
    (peers : Function.Injective fun j => (identities j).peerId) (sound : Sound E (identities i))
    (proper : Proper E identities mesh) (kept : (board E identities mesh).Kept version)
    (orderly : mesh.Orderly E identities (.deliver position i requestId channel))
    (room : Room (mesh.actors i))
    (left : Room ((mesh.step E moment (.deliver position i requestId channel)).actors i)) :
    Board.Step version (board E identities mesh)
      (board E identities (mesh.step E moment (.deliver position i requestId channel))) ∧
      Proper E identities (mesh.step E moment (.deliver position i requestId channel)) := by
  unfold step at left ⊢
  dsimp only at left ⊢
  cases found : mesh.flight[position]? with
  | none => exact ⟨.quiet rfl, proper⟩
  | some packet =>
    rw [found] at left
    dsimp only at left ⊢
    rw [(proper.fits i).identity, (proper.fits packet.sender).identity] at left ⊢
    by_cases addressed : packet.peerId = (identities i).peerId
    · rw [if_pos addressed] at left ⊢
      by_cases linkState : isLinkState packet.envelope
      · obtain ⟨record, announces, named, verified⟩ :=
          proper.carried packet (List.mem_of_getElem? found) linkState
        obtain ⟨plain, _⟩ := (mesh.actors i).step_linkState E moment linkState
          (identities packet.sender).peerId requestId channel
        have keeps := (mesh.actors i).step_linkState_keeps E moment linkState
          (identities packet.sender).peerId requestId channel
        have heard := @heard_of_announces _ E moment (mesh.actors i) (identities packet.sender) record
          packet.envelope announces named verified requestId channel
        have arrive := arrive_of_heard nodes peers found addressed announces named plain keeps heard
          fun listens latest => orderly packet found addressed linkState listens
            (latest.trans announces.2.2.symm)
        refine ⟨.arrive arrive, (proper.without position).act ?_ ?_⟩
        · have own : (((mesh.without position).act E moment i _).actors i).router.links.records[_]? = _ :=
            arrive.own kept i
          rw [act_self] at own
          exact (proper.fits i).keeps keeps own
        · intro requestId peerId envelope sent linkState
          exact absurd linkState (plain requestId peerId envelope sent)
      · rw [← board_without found linkState]
        refine act_simulates nodes sound (proper.without position) ⟨?_, nofun⟩ room left
        intro envelope handed
        rw [← Option.some.inj handed]
        exact linkState
    · rw [if_neg addressed]
      exact ⟨.quiet rfl, proper⟩

end Simulation

end Mesh

end Lycoris.Link
