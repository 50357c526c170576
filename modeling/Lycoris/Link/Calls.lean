import Lycoris.Link.Answers
import Lycoris.Link.Desk

/-!
Calls between nodes: link actors that send each other requests and answers. What is sent is in flight until it
is delivered or lost, in any order; a request that arrives comes with a channel, and what is sent on a channel
goes back to whoever sent that request. `Letters` keeps what is in flight, and a record of what callers and
handlers of the nodes said and were told.
-/

namespace Lycoris.Link
open Lib Overlay

variable {ι : Type} {P : Primitives}

/-! ### Letters -/

/-- A request on its way, under the number its sender gave it. -/
structure Call (ι : Type) (P : Primitives) where
  sender : ι
  id : OutboundRequestId
  peerId : P.PeerId
  envelope : Envelope

/-- What a response channel answers. -/
structure Origin (ι : Type) where
  receiver : ι
  sender : ι
  id : OutboundRequestId
  envelope : Envelope

structure Return (ι : Type) where
  responder : ι
  target : ι
  id : OutboundRequestId
  envelope : Envelope

/-- What a caller asked for, and the peer it named where it wants to be admitted. -/
structure Ask (ι : Type) (P : Primitives) where
  node : ι
  caller : Caller
  sponsor : Option P.PeerId
  envelope : Envelope

/-- `channels` is by number. The fields after it only record what happened: all requests sent, what callers
asked for and were told, the request each token was last handed out with, and what handlers answered. -/
structure Letters (ι : Type) (P : Primitives) where
  requests : List (Call ι P)
  responses : List (Return ι)
  channels : List (Origin ι)
  sent : List (Call ι P)
  asked : List (Ask ι P)
  replied : List (ι × Caller × Except (LinkError P) Envelope)
  handed : ι → InboundToken → Option Envelope
  served : List (ι × Option Envelope × Envelope)

namespace Letters

def empty : Letters ι P := ⟨[], [], [], [], [], [], fun _ _ => none, []⟩

def withoutRequest (letters : Letters ι P) (position : Nat) : Letters ι P :=
  { letters with requests := letters.requests.eraseIdx position }

def withoutResponse (letters : Letters ι P) (position : Nat) : Letters ι P :=
  { letters with responses := letters.responses.eraseIdx position }

/-- A new channel, to answer a request that arrives at node `i`. -/
def withChannel (letters : Letters ι P) (i : ι) (call : Call ι P) : Letters ι P :=
  { letters with channels := letters.channels ++ [⟨i, call.sender, call.id, call.envelope⟩] }

variable [DecidableEq ι]

/-- What an actor sends and says. -/
def post (i : ι) (letters : Letters ι P) : LinkOutput P → Letters ι P
  | .sendRequest id peerId envelope =>
    { letters with
      requests := letters.requests ++ [⟨i, id, peerId, envelope⟩]
      sent := letters.sent ++ [⟨i, id, peerId, envelope⟩] }
  | .sendResponse channel envelope =>
    match letters.channels[channel]? with
    | some origin =>
      if origin.receiver = i then
        { letters with responses := letters.responses ++ [⟨i, origin.sender, origin.id, envelope⟩] }
      else letters
    | none => letters
  | .reply caller result => { letters with replied := letters.replied ++ [(i, caller, result)] }
  | .inbound token _ envelope =>
    let tokens := Function.update (letters.handed i) token (some envelope)
    { letters with handed := Function.update letters.handed i tokens }
  | _ => letters

def postAll (i : ι) (letters : Letters ι P) (outputs : List (LinkOutput P)) : Letters ι P :=
  outputs.foldl (post i) letters

/-- What callers and handlers say to an actor. -/
def note (i : ι) (letters : Letters ι P) (event : LinkEvent P) : Letters ι P :=
  { letters with
    asked := letters.asked ++ event.asks.toList.map fun ask => ⟨i, ask.2, event.sponsor, ask.1⟩
    served := letters.served ++
      match event with
      | .command (.respond token response _) => [(i, letters.handed i token, response)]
      | _ => [] }

theorem postAll_mail (i : ι) (letters : Letters ι P) (outputs : List (LinkOutput P)) :
    letters.postAll i (mail outputs) = letters.postAll i outputs := by
  induction outputs generalizing letters with
  | nil => rfl
  | cons output rest ih =>
    cases output with
    | sendRequest id peerId envelope => exact ih _
    | sendResponse channel envelope => exact ih _
    | reply caller result => exact ih _
    | inbound token sender envelope => exact ih _
    | closeConnection connectionId => exact ih letters
    | settle caller result => exact ih letters
    | routed requestId decision => exact ih letters

end Letters

/-! ### The network -/

structure CallNetwork (ι : Type) (P : Primitives) where
  actors : ι → LinkActor P
  letters : Letters ι P

/-- Actors that have just started. -/
def CallNetwork.new (identities : ι → NodeIdentity P) (registries : ι → AuthorizationRegistry)
    (bootIds : ι → Bytes) (sequences : ι → UInt64) : CallNetwork ι P :=
  ⟨fun i => .new (identities i) (registries i) (bootIds i) (sequences i), .empty⟩

/-- A pass of one actor's loop that is not about a message, a message that arrives, or one that is lost. -/
inductive CallEvent (P : Primitives) (ι : Type) where
  | act (i : ι) (event : LinkEvent P)
  | deliver (position : Nat) (i : ι) (requestId : InboundRequestId)
  | answer (position : Nat)
  | loseRequest (position : Nat)
  | loseResponse (position : Nat)

/-- An event that the network has no part in. -/
def LinkEvent.isLocal : LinkEvent P → Bool
  | .swarm (.request _ _ _ _) => false
  | .swarm (.response _ _ _) => false
  | _ => true

namespace CallNetwork

variable [DecidableEq ι] (E : LinkEncoding)

def act (network : CallNetwork ι P) (moment : Moment) (i : ι) (event : LinkEvent P) : CallNetwork ι P :=
  let stepped := (network.actors i).step E moment event
  ⟨Function.update network.actors i stepped.1, (network.letters.note i event).postAll i stepped.2⟩

def step (network : CallNetwork ι P) (moment : Moment) : CallEvent P ι → CallNetwork ι P
  | .act i event => if event.isLocal then network.act E moment i event else network
  | .deliver position i requestId =>
    match network.letters.requests[position]? with
    | none => network
    | some call =>
      if call.peerId = (network.actors i).identity.peerId then
        act E ⟨network.actors, (network.letters.withoutRequest position).withChannel i call⟩ moment i
          (.swarm (.request (network.actors call.sender).identity.peerId requestId call.envelope
            network.letters.channels.length))
      else network
  | .answer position =>
    match network.letters.responses[position]? with
    | none => network
    | some back =>
      act E ⟨network.actors, network.letters.withoutResponse position⟩ moment back.target
        (.swarm (.response (network.actors back.responder).identity.peerId back.id back.envelope))
  | .loseRequest position => ⟨network.actors, network.letters.withoutRequest position⟩
  | .loseResponse position => ⟨network.actors, network.letters.withoutResponse position⟩

def run (network : CallNetwork ι P) (events : List (Moment × CallEvent P ι)) : CallNetwork ι P :=
  events.foldl (fun network event => network.step E event.1 event.2) network

end CallNetwork

/-! ### What holds of the letters -/

/-- The same request, but for the hops it has left. -/
def Alike (request other : Envelope) : Prop :=
  other.payload = request.payload ∧
    { other.header with remainingHops := request.header.remainingHops } = request.header

theorem Alike.refl (request : Envelope) : Alike request request := ⟨rfl, rfl⟩

theorem Alike.trans {first second third : Envelope} (before : Alike first second) (after : Alike second third) :
    Alike first third := by
  obtain ⟨payload, header⟩ := before
  obtain ⟨payload', header'⟩ := after
  refine ⟨payload'.trans payload, ?_⟩
  rw [← header, ← header']

theorem Alike.isLinkState {request other : Envelope} (alike : Alike request other) (linkState : isLinkState other) :
    isLinkState request := by
  obtain ⟨_, header⟩ := alike
  rw [Link.isLinkState, ← header]
  exact linkState

theorem Alike.protocol {request other : Envelope} (alike : Alike request other) :
    other.header.protocol = request.header.protocol := by
  obtain ⟨_, header⟩ := alike
  rw [← header]

theorem Passed.alike {request forwarded : Envelope} (passed : Passed request forwarded) :
    Alike request forwarded := by
  rw [passed.same]
  exact ⟨rfl, rfl⟩

/-- A node may hand the request to its handlers: it is for the node, or asks the node for admission. -/
def Reached (home : NodeIdentity P) (sponsor : Option P.PeerId) (request : Envelope) : Prop :=
  request.header.destination = home.nodeId ∨
    request.header.protocol = .admission ∧ sponsor = some home.peerId

/-- The response was given to the request: by a handler of the node it reached, or at once where it brings link
state. -/
def Genuine (home : ι → NodeIdentity P) (letters : Letters ι P) (sponsor : Option P.PeerId)
    (request response : Envelope) : Prop :=
  isLinkState request ∨ ∃ j arrived, (j, some arrived, response) ∈ letters.served ∧ Alike request arrived ∧
    Reached (home j) sponsor arrived

/-- The header of the response is that of an answer to the request. -/
structure AnswerTo (request response : Envelope) : Prop where
  version : response.header.version = protocolVersion
  kind : response.header.kind = .response
  cluster : response.header.clusterId = request.header.clusterId
  requestId : response.header.requestId = request.header.requestId
  protocol : response.header.protocol = request.header.protocol
  destination : response.header.destination = request.header.source
  source : request.header.destination = .ofNat 0 ∨ response.header.source = request.header.destination

theorem answerTo_of_validate {request response : Envelope} {peerId responder : P.PeerId}
    (valid : (ResponseExpectation.fromRequest request peerId).validate response responder = .ok ()) :
    AnswerTo request response := by
  unfold ResponseExpectation.validate at valid
  dsimp only at valid
  split at valid
  · cases valid
  · rename_i none
    simp only [not_or, not_not] at none
    obtain ⟨_, version, cluster, requestId, destination, protocol, kind, source⟩ := none
    refine ⟨version, kind, cluster, requestId, protocol, destination, ?_⟩
    by_contra other
    exact source (not_or.mp other)

section Sound

variable (home : ι → NodeIdentity P) (letters : Letters ι P) (i : ι)

/-- The letters know the request that a caller waits for. -/
def Waits (id : OutboundRequestId) (pending : PendingRequest P) : Prop :=
  ∃ request peerId sponsor, ⟨i, id, peerId, request⟩ ∈ letters.sent ∧
    pending.expected = .fromRequest request peerId ∧ ⟨i, pending.reply, sponsor, request⟩ ∈ letters.asked ∧
    (request.header.protocol = .admission → sponsor = some peerId)

/-- The request that was passed on is the one whose channel is kept, and not about admission. -/
def Carries (id : OutboundRequestId) (forward : ForwardContext P) : Prop :=
  ∃ origin peerId forwarded, letters.channels[forward.channel]? = some origin ∧ origin.receiver = i ∧
    ⟨i, id, peerId, forwarded⟩ ∈ letters.sent ∧ Alike origin.envelope forwarded ∧
    origin.envelope.header.protocol ≠ .admission

/-- The request that was handed out with the token is the one whose channel is kept. -/
def HandedOut (token : InboundToken) (pending : PendingInbound P) : Prop :=
  ∃ origin, letters.channels[pending.channel]? = some origin ∧ origin.receiver = i ∧
    letters.handed i token = some origin.envelope ∧ Reached (home i) (some (home i).peerId) origin.envelope

structure Tracked (desk : Desk P) : Prop where
  fresh : ∀ call ∈ letters.sent, call.sender = i → call.id < desk.next
  own : ∀ id pending, desk.own[id]? = some pending → Waits letters i id pending
  forwards : ∀ id forward, desk.forwards[id]? = some forward → Carries letters i id forward
  inbound : ∀ token pending, desk.inbound[token]? = some pending → HandedOut home letters i token pending

structure Straight : Prop where
  unique : ∀ call ∈ letters.sent, ∀ other ∈ letters.sent,
    call.sender = other.sender → call.id = other.id → call = other
  flying : ∀ call ∈ letters.requests, call ∈ letters.sent
  origins : ∀ origin ∈ letters.channels,
    ⟨origin.sender, origin.id, (home origin.receiver).peerId, origin.envelope⟩ ∈ letters.sent
  returning : ∀ back ∈ letters.responses, ∃ peerId request,
    ⟨back.target, back.id, peerId, request⟩ ∈ letters.sent ∧
      Genuine home letters (some peerId) request back.envelope
  replied : ∀ i caller response, (i, caller, .ok response) ∈ letters.replied → ∃ sponsor request,
    ⟨i, caller, sponsor, request⟩ ∈ letters.asked ∧ Genuine home letters sponsor request response ∧
      AnswerTo request response

end Sound

/-! ### More letters -/

/-- What a pass of node `i` adds. -/
structure Later (i : ι) (letters after : Letters ι P) : Prop where
  sent : ∀ call ∈ letters.sent, call ∈ after.sent
  own : ∀ call ∈ after.sent, call ∈ letters.sent ∨ call.sender = i
  asked : ∀ ask ∈ letters.asked, ask ∈ after.asked
  served : ∀ answer ∈ letters.served, answer ∈ after.served
  channels : ∀ {channel : ResponseChannel} {origin}, letters.channels[channel]? = some origin →
    after.channels[channel]? = some origin
  handed : ∀ j, j ≠ i → after.handed j = letters.handed j

theorem Later.refl (i : ι) (letters : Letters ι P) : Later i letters letters :=
  ⟨fun _ => id, fun _ => .inl, fun _ => id, fun _ => id, id, fun _ _ => rfl⟩

theorem Later.trans {i : ι} {first second third : Letters ι P} (before : Later i first second)
    (after : Later i second third) : Later i first third where
  sent call member := after.sent call (before.sent call member)
  own call member := (after.own call member).elim (before.own call) .inr
  asked ask member := after.asked ask (before.asked ask member)
  served answer member := after.served answer (before.served answer member)
  channels found := after.channels (before.channels found)
  handed j apart := (after.handed j apart).trans (before.handed j apart)

section Later

variable {home : ι → NodeIdentity P} {letters after : Letters ι P} {i j : ι} {sponsor : Option P.PeerId}

theorem Genuine.later {request response : Envelope} (genuine : Genuine home letters sponsor request response)
    (later : Later i letters after) : Genuine home after sponsor request response := by
  rcases genuine with linkState | ⟨j, arrived, served, rest⟩
  · exact .inl linkState
  · exact .inr ⟨j, arrived, later.served _ served, rest⟩

/-- An answer to the request as it was passed on answers the request itself. -/
theorem Genuine.of_alike {next : Option P.PeerId} {request forwarded response : Envelope}
    (genuine : Genuine home letters next forwarded response) (alike : Alike request forwarded)
    (plain : request.header.protocol ≠ .admission) : Genuine home letters sponsor request response := by
  rcases genuine with linkState | ⟨j, arrived, served, same, here | ⟨admission, _⟩⟩
  · exact .inl (alike.isLinkState linkState)
  · exact .inr ⟨j, arrived, served, alike.trans same, .inl here⟩
  · exact absurd ((alike.trans same).protocol.symm.trans admission) plain

theorem Genuine.sponsored {peerId : P.PeerId} {request response : Envelope}
    (genuine : Genuine home letters (some peerId) request response)
    (named : request.header.protocol = .admission → sponsor = some peerId) :
    Genuine home letters sponsor request response := by
  rcases genuine with linkState | ⟨j, arrived, served, same, here | ⟨admission, sent⟩⟩
  · exact .inl linkState
  · exact .inr ⟨j, arrived, served, same, .inl here⟩
  · exact .inr ⟨j, arrived, served, same,
      .inr ⟨admission, (named (same.protocol.symm.trans admission)).trans sent⟩⟩

theorem Waits.later {id : OutboundRequestId} {pending : PendingRequest P} (waits : Waits letters j id pending)
    (later : Later i letters after) : Waits after j id pending := by
  obtain ⟨request, peerId, sponsor, sent, expected, asked, named⟩ := waits
  exact ⟨request, peerId, sponsor, later.sent _ sent, expected, later.asked _ asked, named⟩

theorem Carries.later {id : OutboundRequestId} {forward : ForwardContext P} (carries : Carries letters j id forward)
    (later : Later i letters after) : Carries after j id forward := by
  obtain ⟨origin, peerId, forwarded, found, here, sent, alike⟩ := carries
  exact ⟨origin, peerId, forwarded, later.channels found, here, later.sent _ sent, alike⟩

theorem HandedOut.later {token : InboundToken} {pending : PendingInbound P}
    (handedOut : HandedOut home letters j token pending) (later : Later i letters after)
    (same : after.handed j token = letters.handed j token) : HandedOut home after j token pending := by
  obtain ⟨origin, found, here, handed, reached⟩ := handedOut
  exact ⟨origin, later.channels found, here, same.trans handed, reached⟩

theorem Tracked.later {desk : Desk P} (tracked : Tracked home letters j desk) (later : Later i letters after)
    (fresh : ∀ call ∈ after.sent, call.sender = j → call.id < desk.next)
    (handed : after.handed j = letters.handed j) : Tracked home after j desk where
  fresh := fresh
  own id pending found := (tracked.own id pending found).later later
  forwards id forward found := (tracked.forwards id forward found).later later
  inbound token pending found := (tracked.inbound token pending found).later later (by rw [handed])

/-- What the others wait for stays as it is. -/
theorem Tracked.elsewhere {desk : Desk P} (tracked : Tracked home letters j desk) (later : Later i letters after)
    (apart : j ≠ i) : Tracked home after j desk := by
  refine tracked.later later ?_ (later.handed j apart)
  intro call member sender
  rcases later.own call member with known | other
  · exact tracked.fresh call known sender
  · exact absurd (sender.symm.trans other) apart

end Later

/-! ### Desks -/

section Desks

variable {home : ι → NodeIdentity P} {letters : Letters ι P} {i : ι} {desk : Desk P}

theorem Tracked.insertOwn (tracked : Tracked home letters i desk) {id : OutboundRequestId}
    {pending : PendingRequest P} (waits : Waits letters i id pending) :
    Tracked home letters i { desk with own := desk.own.insert id pending } :=
  { tracked with own := forall_insert (fun id pending _ => tracked.own id pending) waits }

theorem Tracked.insertForward (tracked : Tracked home letters i desk) {id : OutboundRequestId}
    {forward : ForwardContext P} (carries : Carries letters i id forward) :
    Tracked home letters i { desk with forwards := desk.forwards.insert id forward } :=
  { tracked with forwards := forall_insert (fun id forward _ => tracked.forwards id forward) carries }

theorem Tracked.eraseOwn (tracked : Tracked home letters i desk) (id : OutboundRequestId) :
    Tracked home letters i { desk with own := desk.own.erase id } :=
  { tracked with own := forall_erase tracked.own id }

theorem Tracked.eraseForward (tracked : Tracked home letters i desk) (id : OutboundRequestId) :
    Tracked home letters i { desk with forwards := desk.forwards.erase id } :=
  { tracked with forwards := forall_erase tracked.forwards id }

theorem Tracked.eraseInbound (tracked : Tracked home letters i desk) (token : InboundToken) :
    Tracked home letters i { desk with inbound := desk.inbound.erase token } :=
  { tracked with inbound := forall_erase tracked.inbound token }

end Desks

/-! ### What an actor sends and says -/

section Post

variable {home : ι → NodeIdentity P} {letters : Letters ι P} {i : ι} {desk : Desk P}

theorem Letters.note_later (letters : Letters ι P) (i : ι) (event : LinkEvent P) :
    Later i letters (letters.note i event) :=
  ⟨fun _ => id, fun _ => .inl, fun _ => List.mem_append_left _, fun _ => List.mem_append_left _, id, fun _ _ => rfl⟩

theorem Straight.grown {after : Letters ι P} (straight : Straight home letters) (later : Later i letters after)
    (sent : after.sent = letters.sent) (requests : ∀ call ∈ after.requests, call ∈ letters.requests)
    (channels : after.channels = letters.channels) (responses : ∀ back ∈ after.responses, back ∈ letters.responses)
    (replied : after.replied = letters.replied) : Straight home after where
  unique := by
    rw [sent]
    exact straight.unique
  flying call member := later.sent call (straight.flying call (requests call member))
  origins := by
    rw [channels, sent]
    exact straight.origins
  returning back member := by
    obtain ⟨peerId, request, known, genuine⟩ := straight.returning back (responses back member)
    exact ⟨peerId, request, later.sent _ known, genuine.later later⟩
  replied j caller response told := by
    rw [replied] at told
    obtain ⟨sponsor, request, asked, genuine, answer⟩ := straight.replied j caller response told
    exact ⟨sponsor, request, later.asked _ asked, genuine.later later, answer⟩

variable [DecidableEq ι]

namespace Letters

theorem post_sendResponse {channel : ResponseChannel} {origin : Origin ι}
    (found : letters.channels[channel]? = some origin) (here : origin.receiver = i) (response : Envelope) :
    letters.post i (.sendResponse channel response) =
      { letters with responses := letters.responses ++ [⟨i, origin.sender, origin.id, response⟩] } := by
  simp only [post, found, here, if_true]

theorem post_later (letters : Letters ι P) (i : ι) (output : LinkOutput P) :
    Later i letters (letters.post i output) := by
  cases output with
  | sendRequest requestId peerId envelope =>
    refine ⟨fun _ => List.mem_append_left _, ?_, fun _ => id, fun _ => id, id, fun _ _ => rfl⟩
    intro call member
    rcases List.mem_append.mp member with old | new
    · exact .inl old
    · obtain rfl := List.mem_singleton.mp new
      exact .inr rfl
  | sendResponse channel envelope =>
    rw [post]
    split
    · split
      · exact ⟨fun _ => id, fun _ => .inl, fun _ => id, fun _ => id, id, fun _ _ => rfl⟩
      · exact .refl i letters
    · exact .refl i letters
  | reply caller result => exact ⟨fun _ => id, fun _ => .inl, fun _ => id, fun _ => id, id, fun _ _ => rfl⟩
  | inbound token sender envelope =>
    exact ⟨fun _ => id, fun _ => .inl, fun _ => id, fun _ => id, id, fun _ apart => Function.update_of_ne apart _ _⟩
  | closeConnection connectionId => exact .refl i letters
  | settle caller result => exact .refl i letters
  | routed requestId decision => exact .refl i letters

theorem postAll_later (letters : Letters ι P) (i : ι) (outputs : List (LinkOutput P)) :
    Later i letters (letters.postAll i outputs) := by
  induction outputs generalizing letters with
  | nil => exact .refl i letters
  | cons output rest ih => exact (letters.post_later i output).trans (ih (letters.post i output))

end Letters

/-- A request under a number that was not used before. -/
theorem Straight.sendRequest (straight : Straight home letters) {id : OutboundRequestId}
    (fresh : ∀ call ∈ letters.sent, call.sender = i → call.id < id) (peerId : P.PeerId) (envelope : Envelope) :
    Straight home (letters.post i (.sendRequest id peerId envelope)) where
  unique := by
    intro call member other known sender same
    rcases List.mem_append.mp member with old | new
    · rcases List.mem_append.mp known with old' | new'
      · exact straight.unique call old other old' sender same
      · obtain rfl := List.mem_singleton.mp new'
        exact absurd (fresh call old sender) (by rw [same]; exact Nat.lt_irrefl id)
    · obtain rfl := List.mem_singleton.mp new
      rcases List.mem_append.mp known with old' | new'
      · exact absurd (fresh other old' sender.symm) (by rw [← same]; exact Nat.lt_irrefl id)
      · exact (List.mem_singleton.mp new').symm
  flying call member := by
    rcases List.mem_append.mp member with old | new
    · exact List.mem_append_left _ (straight.flying call old)
    · exact List.mem_append_right _ new
  origins origin member := List.mem_append_left _ (straight.origins origin member)
  returning back member := by
    obtain ⟨peer, request, known, genuine⟩ := straight.returning back member
    exact ⟨peer, request, List.mem_append_left _ known, genuine⟩
  replied := straight.replied

theorem Straight.sendResponse (straight : Straight home letters) {channel : ResponseChannel} {origin : Origin ι}
    (found : letters.channels[channel]? = some origin) (here : origin.receiver = i) {response : Envelope}
    (genuine : Genuine home letters (some (home i).peerId) origin.envelope response) :
    Straight home (letters.post i (.sendResponse channel response)) := by
  rw [Letters.post_sendResponse found here]
  refine { straight with returning := ?_ }
  intro back member
  rcases List.mem_append.mp member with old | new
  · exact straight.returning back old
  · obtain rfl := List.mem_singleton.mp new
    subst here
    exact ⟨_, origin.envelope, straight.origins origin (List.mem_of_getElem? found), genuine⟩

theorem Straight.reply (straight : Straight home letters) {caller : Caller} {result : Except (LinkError P) Envelope}
    (told : ∀ response, result = .ok response → ∃ sponsor request, ⟨i, caller, sponsor, request⟩ ∈ letters.asked ∧
      Genuine home letters sponsor request response ∧ AnswerTo request response) :
    Straight home (letters.post i (.reply caller result)) := by
  refine { straight with replied := ?_ }
  intro j other response member
  rcases List.mem_append.mp member with old | new
  · exact straight.replied j other response old
  · cases List.mem_singleton.mp new
    exact told response rfl

theorem Tracked.post (tracked : Tracked home letters i desk) {output : LinkOutput P}
    (sent : (letters.post i output).sent = letters.sent)
    (handed : (letters.post i output).handed i = letters.handed i) : Tracked home (letters.post i output) i desk :=
  tracked.later (letters.post_later i output) (by rw [sent]; exact tracked.fresh) handed

theorem Tracked.sendRequest (tracked : Tracked home letters i desk) (peerId : P.PeerId) (envelope : Envelope) :
    Tracked home (letters.post i (.sendRequest desk.next peerId envelope)) i { desk with next := desk.next + 1 } where
  fresh := by
    intro call member sender
    rcases List.mem_append.mp member with old | new
    · exact Nat.lt_succ_of_lt (tracked.fresh call old sender)
    · obtain rfl := List.mem_singleton.mp new
      exact Nat.lt_succ_self _
  own id pending found := (tracked.own id pending found).later (letters.post_later i _)
  forwards id forward found := (tracked.forwards id forward found).later (letters.post_later i _)
  inbound token pending found := (tracked.inbound token pending found).later (letters.post_later i _) rfl

theorem Tracked.sendResponse (tracked : Tracked home letters i desk) {channel : ResponseChannel} {origin : Origin ι}
    (found : letters.channels[channel]? = some origin) (here : origin.receiver = i) (response : Envelope) :
    Tracked home (letters.post i (.sendResponse channel response)) i desk :=
  tracked.post (by rw [Letters.post_sendResponse found here]) (by rw [Letters.post_sendResponse found here])

theorem Tracked.reply (tracked : Tracked home letters i desk) (caller : Caller)
    (result : Except (LinkError P) Envelope) : Tracked home (letters.post i (.reply caller result)) i desk :=
  tracked.post rfl rfl

theorem Tracked.handOut (tracked : Tracked home letters i desk) {pending : PendingInbound P} {origin : Origin ι}
    (known : letters.channels[pending.channel]? = some origin) (here : origin.receiver = i)
    (reached : Reached (home i) (some (home i).peerId) origin.envelope) (token : InboundToken) (sender : P.PeerId) :
    Tracked home (letters.post i (.inbound token sender origin.envelope)) i
      { desk with inbound := desk.inbound.insert token pending } where
  fresh := tracked.fresh
  own id pending found := (tracked.own id pending found).later (letters.post_later i _)
  forwards id forward found := (tracked.forwards id forward found).later (letters.post_later i _)
  inbound := by
    refine forall_insert ?_ ?_
    · intro other kept apart found
      refine (tracked.inbound other kept found).later (letters.post_later i _) ?_
      simp only [Letters.post, Function.update_self, Function.update_of_ne apart]
    · refine ⟨origin, known, here, ?_, reached⟩
      simp only [Letters.post, Function.update_self]

/-! ### One pass -/

/-- What is known of the event of a pass. -/
structure Heard (home : ι → NodeIdentity P) (letters : Letters ι P) (i : ι) (event : LinkEvent P) : Prop where
  asks : ∀ {envelope caller}, event.asks = some (envelope, caller) →
    ⟨i, caller, event.sponsor, envelope⟩ ∈ letters.asked
  answers : ∀ {token response reply}, event = .command (.respond token response reply) →
    (i, letters.handed i token, response) ∈ letters.served
  request : ∀ {peerId requestId envelope channel}, event = .swarm (.request peerId requestId envelope channel) →
    ∃ origin, letters.channels[channel]? = some origin ∧ origin.receiver = i ∧ origin.envelope = envelope
  response : ∀ {responder id response}, event = .swarm (.response responder id response) →
    ∃ peerId request, ⟨i, id, peerId, request⟩ ∈ letters.sent ∧ Genuine home letters (some peerId) request response

theorem Desk.Touch.sound {last : Desk P} {outputs : List (LinkOutput P)} (touch : Touch desk outputs last)
    (straight : Straight home letters) (tracked : Tracked home letters i desk) :
    Straight home (letters.postAll i outputs) ∧ Tracked home (letters.postAll i outputs) i last := by
  cases touch with
  | fail found error => exact ⟨straight.reply (by rintro _ ⟨⟩), (tracked.eraseOwn _).reply _ _⟩
  | release requestId => exact ⟨straight, tracked.eraseForward requestId⟩
  | forget token => exact ⟨straight, tracked.eraseInbound token⟩
  | tell peerId linkState still =>
    exact ⟨straight.sendRequest tracked.fresh peerId _, tracked.sendRequest peerId _⟩

theorem Desk.Tidy.sound {last : Desk P} {outputs : List (LinkOutput P)} (tidy : Tidy desk outputs last)
    (straight : Straight home letters) (tracked : Tracked home letters i desk) :
    Straight home (letters.postAll i outputs) ∧ Tracked home (letters.postAll i outputs) i last := by
  induction tidy generalizing letters with
  | refl => exact ⟨straight, tracked⟩
  | step first _ ih =>
    rw [Letters.postAll, List.foldl_append]
    obtain ⟨straight, tracked⟩ := first.sound straight tracked
    exact ih straight tracked

theorem Desk.Main.sound {event : LinkEvent P} {last : Desk P} {outputs : List (LinkOutput P)}
    (main : Main (home i).nodeId event desk outputs last) (heard : Heard home letters i event)
    (straight : Straight home letters) (tracked : Tracked home letters i desk) :
    Straight home (letters.postAll i outputs) ∧ Tracked home (letters.postAll i outputs) i last := by
  cases main with
  | still other => exact ⟨straight, tracked⟩
  | @ask _ _ asks peerId sponsored =>
    refine ⟨straight.sendRequest tracked.fresh peerId _, (tracked.sendRequest peerId _).insertOwn ?_⟩
    exact ⟨_, peerId, _, List.mem_append_right _ List.mem_cons_self, rfl, heard.asks asks, sponsored⟩
  | refuse asks error => exact ⟨straight.reply (by rintro _ ⟨⟩), tracked.reply _ _⟩
  | answer answers found =>
    obtain ⟨origin, known, here, handed, reached⟩ := tracked.inbound _ _ found
    have served := heard.answers answers
    rw [handed] at served
    exact ⟨straight.sendResponse known here (.inr ⟨i, origin.envelope, served, .refl _, reached⟩),
      (tracked.eraseInbound _).sendResponse known here _⟩
  | @hand sender _ _ _ arrives here token deadlineUnixMs =>
    obtain ⟨origin, known, mine, rfl⟩ := heard.request arrives
    have later := letters.post_later i (.inbound token sender origin.envelope)
    exact ⟨straight.grown later rfl (fun _ => id) rfl (fun _ => id) rfl,
      tracked.handOut known mine (here.imp_right fun admission => ⟨admission, rfl⟩) token sender⟩
  | pass arrives plain passed nextPeer =>
    obtain ⟨origin, known, mine, rfl⟩ := heard.request arrives
    refine ⟨straight.sendRequest tracked.fresh nextPeer _, (tracked.sendRequest nextPeer _).insertForward ?_⟩
    exact ⟨origin, nextPeer, _, known, mine, List.mem_append_right _ List.mem_cons_self, passed.alike, plain⟩
  | acknowledge arrives linkState response =>
    obtain ⟨origin, known, mine, rfl⟩ := heard.request arrives
    exact ⟨straight.sendResponse known mine (.inl linkState), tracked.sendResponse known mine response⟩
  | accept arrives found valid =>
    obtain ⟨request, peerId, sponsor, sent, expected, asked, named⟩ := tracked.own _ _ found
    obtain ⟨peerId', request', sent', genuine⟩ := heard.response arrives
    cases straight.unique _ sent _ sent' rfl rfl
    rw [expected] at valid
    refine ⟨straight.reply ?_, (tracked.eraseOwn _).reply _ _⟩
    rintro response ⟨⟩
    exact ⟨sponsor, request, asked, genuine.sponsored named, answerTo_of_validate valid⟩
  | back arrives found valid =>
    obtain ⟨origin, peerId, forwarded, known, here, sent, alike, plain⟩ := tracked.forwards _ _ found
    obtain ⟨peerId', request', sent', genuine⟩ := heard.response arrives
    cases straight.unique _ sent _ sent' rfl rfl
    exact ⟨straight.sendResponse known here (genuine.of_alike alike plain),
      (tracked.eraseForward _).sendResponse known here _⟩

theorem Desk.Pass.sound {event : LinkEvent P} {last : Desk P} {outputs : List (LinkOutput P)}
    (pass : Pass (home i).nodeId event desk outputs last) (heard : Heard home letters i event)
    (straight : Straight home letters) (tracked : Tracked home letters i desk) :
    Straight home (letters.postAll i outputs) ∧ Tracked home (letters.postAll i outputs) i last := by
  obtain ⟨mid, main, besides, done, tidied, split⟩ := pass
  rw [← Letters.postAll_mail, split, Letters.postAll, List.foldl_append]
  obtain ⟨straight, tracked⟩ := done.sound heard straight tracked
  exact tidied.sound straight tracked

end Post

/-! ### Runs -/

namespace CallNetwork

/-- What holds of a network at any time. -/
structure Sound (home : ι → NodeIdentity P) (network : CallNetwork ι P) : Prop where
  straight : Straight home network.letters
  tracked : ∀ i, Tracked home network.letters i (network.actors i).desk
  homes : ∀ i, (network.actors i).At (home i)

variable {home : ι → NodeIdentity P} {network : CallNetwork ι P} {E : LinkEncoding}

/-- Other letters, with the same record of what happened. -/
theorem Sound.with_letters (sound : Sound home network) {letters : Letters ι P}
    (straight : Straight home letters) (later : ∀ i, Later i network.letters letters)
    (sent : letters.sent = network.letters.sent) (handed : letters.handed = network.letters.handed) :
    Sound home ⟨network.actors, letters⟩ := by
  refine ⟨straight, ?_, sound.homes⟩
  intro i
  refine (sound.tracked i).later (later i) ?_ (by rw [handed])
  rw [sent]
  exact (sound.tracked i).fresh

theorem heard_of_isLocal (letters : Letters ι P) (i : ι) {event : LinkEvent P} (own : event.isLocal = true) :
    Heard home (letters.note i event) i event where
  asks {envelope caller} asks := by
    refine List.mem_append_right _ (List.mem_map.mpr ⟨(envelope, caller), ?_, rfl⟩)
    rw [asks]
    exact List.mem_singleton_self _
  answers answers := by
    rw [answers]
    exact List.mem_append_right _ List.mem_cons_self
  request arrives := by
    rw [arrives] at own
    cases own
  response arrives := by
    rw [arrives] at own
    cases own

theorem heard_request (letters : Letters ι P) (i : ι) (call : Call ι P) (sender : P.PeerId)
    (requestId : InboundRequestId) :
    Heard home ((letters.withChannel i call).note i
        (.swarm (.request sender requestId call.envelope letters.channels.length))) i
      (.swarm (.request sender requestId call.envelope letters.channels.length)) where
  asks := by rintro _ _ ⟨⟩
  answers := by rintro _ _ _ ⟨⟩
  request := by
    rintro _ _ _ _ ⟨⟩
    exact ⟨⟨i, call.sender, call.id, call.envelope⟩, List.getElem?_concat_length, rfl, rfl⟩
  response := by rintro _ _ _ ⟨⟩

theorem heard_response (letters : Letters ι P) {back : Return ι} {peerId : P.PeerId} {request : Envelope}
    (sent : ⟨back.target, back.id, peerId, request⟩ ∈ letters.sent)
    (genuine : Genuine home letters (some peerId) request back.envelope) (responder : P.PeerId) :
    Heard home (letters.note back.target (.swarm (.response responder back.id back.envelope))) back.target
      (.swarm (.response responder back.id back.envelope)) where
  asks := by rintro _ _ ⟨⟩
  answers := by rintro _ _ _ ⟨⟩
  request := by rintro _ _ _ _ ⟨⟩
  response := by
    rintro _ _ _ ⟨⟩
    exact ⟨peerId, request, sent, genuine.later (letters.note_later back.target _)⟩

theorem Sound.withoutRequest (sound : Sound home network) (position : Nat) :
    Sound home ⟨network.actors, network.letters.withoutRequest position⟩ := by
  have later : ∀ i, Later i network.letters (network.letters.withoutRequest position) := fun _ =>
    ⟨fun _ => id, fun _ => .inl, fun _ => id, fun _ => id, id, fun _ _ => rfl⟩
  refine sound.with_letters ?_ later rfl rfl
  exact { sound.straight with flying := fun call member => sound.straight.flying call (List.mem_of_mem_eraseIdx member) }

theorem Sound.withoutResponse (sound : Sound home network) (position : Nat) :
    Sound home ⟨network.actors, network.letters.withoutResponse position⟩ := by
  have later : ∀ i, Later i network.letters (network.letters.withoutResponse position) := fun _ =>
    ⟨fun _ => id, fun _ => .inl, fun _ => id, fun _ => id, id, fun _ _ => rfl⟩
  refine sound.with_letters ?_ later rfl rfl
  exact { sound.straight with
    returning := fun back member => sound.straight.returning back (List.mem_of_mem_eraseIdx member) }

theorem Sound.withChannel (sound : Sound home network) (i : ι) {call : Call ι P}
    (sent : call ∈ network.letters.sent) (mine : call.peerId = (home i).peerId) :
    Sound home ⟨network.actors, network.letters.withChannel i call⟩ := by
  have later : ∀ j, Later j network.letters (network.letters.withChannel i call) := fun _ =>
    ⟨fun _ => id, fun _ => .inl, fun _ => id, fun _ => id,
      fun found => List.getElem?_append_left (List.getElem?_eq_some_iff.mp found).1 ▸ found, fun _ _ => rfl⟩
  refine sound.with_letters ?_ later rfl rfl
  refine { sound.straight with origins := ?_ }
  intro origin member
  rcases List.mem_append.mp member with old | new
  · exact sound.straight.origins origin old
  · obtain rfl := List.mem_singleton.mp new
    rwa [← mine]

theorem sound_new (identities : ι → NodeIdentity P) (registries : ι → AuthorizationRegistry) (bootIds : ι → Bytes)
    (sequences : ι → UInt64) :
    Sound identities (new identities registries bootIds sequences) := by
  refine ⟨⟨?_, ?_, ?_, ?_, ?_⟩, fun i => ⟨?_, ?_, ?_, ?_⟩, fun i => LinkActor.at_new _ _ _ _⟩
  all_goals simp [new, Letters.empty, LinkActor.new, LinkActor.desk]

variable [DecidableEq ι]

theorem act_self (network : CallNetwork ι P) (moment : Moment) (i : ι) (event : LinkEvent P) :
    (network.act E moment i event).actors i = ((network.actors i).step E moment event).1 :=
  Function.update_self i _ network.actors

theorem act_other (network : CallNetwork ι P) (moment : Moment) {i j : ι} (event : LinkEvent P) (apart : j ≠ i) :
    (network.act E moment i event).actors j = network.actors j :=
  Function.update_of_ne apart _ network.actors

theorem Sound.act (sound : Sound home network) (moment : Moment) (i : ι) {event : LinkEvent P}
    (heard : Heard home (network.letters.note i event) i event) : Sound home (network.act E moment i event) := by
  have noted := network.letters.note_later i event
  have straight : Straight home (network.letters.note i event) :=
    sound.straight.grown noted rfl (fun _ => id) rfl (fun _ => id) rfl
  have tracked : Tracked home (network.letters.note i event) i (network.actors i).desk :=
    (sound.tracked i).later noted (sound.tracked i).fresh rfl
  have pass := (network.actors i).step_pass moment E event
  rw [(sound.homes i).router] at pass
  have posted := (network.letters.note i event).postAll_later i ((network.actors i).step E moment event).2
  obtain ⟨straight, tracked⟩ := pass.sound heard straight tracked
  refine ⟨straight, ?_, ?_⟩
  · intro j
    by_cases same : j = i
    · rw [same, act_self]
      exact tracked
    · rw [act_other network moment event same]
      exact (sound.tracked j).elsewhere (noted.trans posted) same
  · intro j
    by_cases same : j = i
    · rw [same, act_self]
      exact (sound.homes i).step E moment event
    · rw [act_other network moment event same]
      exact sound.homes j

theorem Sound.step (sound : Sound home network) (E : LinkEncoding) (moment : Moment) (event : CallEvent P ι) :
    Sound home (network.step E moment event) := by
  cases event with
  | act i event =>
    rw [CallNetwork.step]
    split
    · rename_i own
      exact sound.act moment i (heard_of_isLocal network.letters i own)
    · exact sound
  | deliver position i requestId =>
    rw [CallNetwork.step]
    split
    · exact sound
    · rename_i call found
      split
      · rename_i mine
        have sent := sound.straight.flying call (List.mem_of_getElem? found)
        rw [(sound.homes i).identity] at mine
        exact ((sound.withoutRequest position).withChannel i sent mine).act moment i
          (heard_request _ i call _ requestId)
      · exact sound
  | answer position =>
    rw [CallNetwork.step]
    split
    · exact sound
    · rename_i back found
      obtain ⟨peerId, request, sent, genuine⟩ := sound.straight.returning back (List.mem_of_getElem? found)
      have heard := heard_response (network.letters.withoutResponse position) sent genuine
        (network.actors back.responder).identity.peerId
      exact (sound.withoutResponse position).act moment back.target heard
  | loseRequest position => exact sound.withoutRequest position
  | loseResponse position => exact sound.withoutResponse position

theorem Sound.run (sound : Sound home network) (E : LinkEncoding) (events : List (Moment × CallEvent P ι)) :
    Sound home (network.run E events) := by
  induction events generalizing network with
  | nil => exact sound
  | cons event rest ih => exact ih (sound.step E event.1 event.2)

/-- The response a caller is given was made for the caller's request, as the node that the request is for
received it: by a handler of that node, and not for another request. A request for admission is answered by the
peer that the caller named; only a request that brings link state is answered without a handler. -/
theorem reply_genuine (E : LinkEncoding) (identities : ι → NodeIdentity P) (registries : ι → AuthorizationRegistry)
    (bootIds : ι → Bytes) (sequences : ι → UInt64) (events : List (Moment × CallEvent P ι)) {i : ι}
    {caller : Caller} {response : Envelope}
    (told : (i, caller, .ok response) ∈ ((new identities registries bootIds sequences).run E events).letters.replied) :
    let letters := ((new identities registries bootIds sequences).run E events).letters
    ∃ sponsor request, ⟨i, caller, sponsor, request⟩ ∈ letters.asked ∧ AnswerTo request response ∧
      (isLinkState request ∨ ∃ j arrived, (j, some arrived, response) ∈ letters.served ∧ Alike request arrived ∧
        (arrived.header.destination = (identities j).nodeId ∨
          arrived.header.protocol = .admission ∧ sponsor = some (identities j).peerId)) := by
  have sound := (sound_new identities registries bootIds sequences).run E events
  obtain ⟨sponsor, request, asked, genuine, answer⟩ := sound.straight.replied i caller response told
  exact ⟨sponsor, request, asked, answer, genuine⟩

end CallNetwork

/-! ### Two requests that are answered -/

section Answered
open LinkActor Transparent

def welcome : Envelope :=
  ⟨⟨protocolVersion, cluster, .ofNat 1, founder.nodeId, stranger.nodeId, .admission, .response, 5000, 0⟩, []⟩

def porchHome (i : Bool) : NodeIdentity primitives := if i then stranger else founder

/-- The founder, and a stranger that asks for admission. -/
def porch : CallNetwork Bool primitives := .new porchHome (fun _ => .new cluster) (fun _ => []) fun _ => 0

def visit : List (Moment × CallEvent primitives Bool) :=
  [.act false (.swarm (.connectionEstablished stranger.peerId 1 (.dialer []))),
    .act true (.swarm (.connectionEstablished founder.peerId 1 (.dialer []))),
    .act true (.command (.requestAdmission founder.peerId knocking 7)), .deliver 0 false 0,
    .act false (.command (.respond 0 welcome 0)), .answer 0].map fun event => (trioMoment, event)

set_option maxRecDepth 10000 in
theorem visit_replied : (porch.run linkEncoding visit).letters.replied = [(true, 7, .ok welcome)] := by
  with_unfolding_all rfl

def parcel : Envelope :=
  ⟨⟨protocolVersion, cluster, .ofNat 9, member.nodeId, third.nodeId, .resource, .request, 5000, 4⟩, [1]⟩

def receipt : Envelope :=
  ⟨⟨protocolVersion, cluster, .ofNat 9, third.nodeId, member.nodeId, .resource, .response, 5000, 4⟩, [2]⟩

def hallHome : Fin 3 → NodeIdentity primitives
  | 0 => founder
  | 1 => member
  | 2 => third

def hall : CallNetwork (Fin 3) primitives := .new hallHome (fun _ => trio) (fun _ => []) fun _ => 0

/-- The founder meets the others and tells the member; the member's request reaches the third node through it. -/
def errand : List (Moment × CallEvent primitives (Fin 3)) :=
  [.act 1 (.swarm (.connectionEstablished founder.peerId 1 (.dialer []))),
    .act 0 (.swarm (.connectionEstablished third.peerId 2 (.dialer []))),
    .act 0 (.swarm (.connectionEstablished member.peerId 1 (.dialer []))), .deliver 2 1 0,
    .act 1 (.command (.request parcel 7)), .deliver 3 0 0, .deliver 3 2 0,
    .act 2 (.command (.respond 0 receipt 0)), .answer 1, .answer 1].map fun event => (trioMoment, event)

set_option maxRecDepth 10000 in
theorem errand_replied : (hall.run linkEncoding errand).letters.replied = [(1, 7, .ok receipt)] := by
  with_unfolding_all rfl

theorem visit_and_errand_answered :
    (∃ sponsor request, ⟨true, 7, sponsor, request⟩ ∈ (porch.run linkEncoding visit).letters.asked ∧
      AnswerTo request welcome ∧ (isLinkState request ∨ ∃ j arrived,
        (j, some arrived, welcome) ∈ (porch.run linkEncoding visit).letters.served ∧ Alike request arrived ∧
        (arrived.header.destination = (porchHome j).nodeId ∨
          arrived.header.protocol = .admission ∧ sponsor = some (porchHome j).peerId))) ∧
    ∃ sponsor request, ⟨1, 7, sponsor, request⟩ ∈ (hall.run linkEncoding errand).letters.asked ∧
      AnswerTo request receipt ∧ (isLinkState request ∨ ∃ j arrived,
        (j, some arrived, receipt) ∈ (hall.run linkEncoding errand).letters.served ∧ Alike request arrived ∧
        (arrived.header.destination = (hallHome j).nodeId ∨
          arrived.header.protocol = .admission ∧ sponsor = some (hallHome j).peerId)) := by
  have welcomed := List.mem_singleton_self (true, 7, Except.ok (ε := LinkError primitives) welcome)
  have received := List.mem_singleton_self ((1 : Fin 3), 7, Except.ok (ε := LinkError primitives) receipt)
  rw [← visit_replied] at welcomed
  rw [← errand_replied] at received
  exact ⟨CallNetwork.reply_genuine linkEncoding _ _ _ _ visit welcomed,
    CallNetwork.reply_genuine linkEncoding _ _ _ _ errand received⟩

end Answered

end Lycoris.Link
