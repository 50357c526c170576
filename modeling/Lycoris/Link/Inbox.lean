import Lycoris.Lib.Lease
import Lycoris.Link.Effects

/-!
Requests of peers that wait for an answer of the local node. `Inbox` is the part of the actor that keeps
them: entries by token, and the token of each request. `Inbox.Step` is what a pass of the actor's loop
can do to it, and `Inbox.Kept` the invariant.
-/

namespace Lycoris.Link
open Lib Overlay

variable {P : Primitives}

structure Inbox (P : Primitives) where
  pending : Std.ExtTreeMap InboundToken (PendingInbound P) compare
  requests : Std.ExtTreeMap InboundRequestId InboundToken compare
  next : InboundToken

namespace Inbox

/-- A token has a request exactly when the request has the token. -/
def Inverse (inbox : Inbox P) : Prop :=
  ∀ (token : InboundToken) (requestId : InboundRequestId),
    (∃ entry : PendingInbound P, inbox.pending[token]? = some entry ∧ entry.requestId = requestId) ↔
      inbox.requests[requestId]? = some token

/-- Both sides of one entry go. -/
def remove (inbox : Inbox P) (token : InboundToken) (requestId : InboundRequestId) : Inbox P :=
  { inbox with
    pending := inbox.pending.erase token
    requests := inbox.requests.erase requestId }

/-- Entries that go one after another, found by token or by request. -/
inductive Removes : Inbox P → Inbox P → Prop where
  | refl (inbox : Inbox P) : Removes inbox inbox
  | token {before after : Inbox P} {token : InboundToken} {entry : PendingInbound P}
      (found : before.pending[token]? = some entry)
      (rest : Removes (before.remove token entry.requestId) after) : Removes before after
  | request {before after : Inbox P} {requestId : InboundRequestId} {token : InboundToken}
      (found : before.requests[requestId]? = some token)
      (rest : Removes (before.remove token requestId) after) : Removes before after

/-- The request that arrives and the token that is given to the local node. A token is also used up when
the local node has no room for the request. -/
inductive Step (before : Inbox P) : Option InboundRequestId → Option InboundToken → Inbox P → Prop where
  | removes {after : Inbox P} (arrived : Option InboundRequestId) (removes : Removes before after) :
      Step before arrived none after
  | skips (requestId : InboundRequestId) :
      Step before (some requestId) none { before with next := before.next + 1 }
  | delivers (entry : PendingInbound P) (room : before.pending.size < maxPendingInbound) :
      Step before (some entry.requestId) (some before.next) {
        pending := before.pending.insert before.next entry
        requests := before.requests.insert entry.requestId before.next
        next := before.next + 1 }

/-- `seen` has arrived, and `count` tokens were used up, those in `given` by the local node. -/
structure Kept (inbox : Inbox P) (seen : List InboundRequestId) (given : List InboundToken) (count : Nat) :
    Prop where
  inverse : inbox.Inverse
  sizes : inbox.requests.size = inbox.pending.size
  bounded : inbox.pending.size ≤ maxPendingInbound
  known : ∀ {requestId : InboundRequestId} {token : InboundToken},
    inbox.requests[requestId]? = some token → requestId ∈ seen
  next : inbox.next = UInt64.ofNat count
  few : count ≤ seen.length
  older : ∀ {token : InboundToken} {entry : PendingInbound P},
    inbox.pending[token]? = some entry → token.toNat < count
  taken : ∀ token ∈ given, token.toNat < count
  once : given.Nodup

theorem getElem?_remove_pending (inbox : Inbox P) (token other : InboundToken)
    (requestId : InboundRequestId) :
    (inbox.remove token requestId).pending[other]? =
      if token = other then none else inbox.pending[other]? := by
  simp only [remove, Std.ExtTreeMap.getElem?_erase, Std.LawfulEqOrd.compare_eq_iff_eq]

theorem getElem?_remove_requests (inbox : Inbox P) (token : InboundToken)
    (requestId other : InboundRequestId) :
    (inbox.remove token requestId).requests[other]? =
      if requestId = other then none else inbox.requests[other]? := by
  simp only [remove, Std.ExtTreeMap.getElem?_erase, Std.LawfulEqOrd.compare_eq_iff_eq]

theorem Kept.remove {inbox : Inbox P} {seen : List InboundRequestId} {given : List InboundToken}
    {count : Nat} (kept : inbox.Kept seen given count) {token : InboundToken} {entry : PendingInbound P}
    (found : inbox.pending[token]? = some entry) :
    (inbox.remove token entry.requestId).Kept seen given count := by
  have back : inbox.requests[entry.requestId]? = some token :=
    (kept.inverse token entry.requestId).mp ⟨entry, found, rfl⟩
  have here : token ∈ inbox.pending := Std.ExtTreeMap.mem_iff_isSome_getElem?.mpr (by simp [found])
  have there : entry.requestId ∈ inbox.requests := Std.ExtTreeMap.mem_iff_isSome_getElem?.mpr (by simp [back])
  refine ⟨?_, ?_, ?_, ?_, kept.next, kept.few, ?_, kept.taken, kept.once⟩
  · intro other requestId
    rw [getElem?_remove_pending, getElem?_remove_requests]
    by_cases same : token = other
    · subst same
      simp only [if_pos, reduceCtorEq, false_and, exists_false, false_iff]
      split
      · simp
      · rename_i different
        rw [← kept.inverse]
        rintro ⟨entry', found', rfl⟩
        rw [found] at found'
        exact different (congrArg PendingInbound.requestId (Option.some.inj found'))
    · rw [if_neg same, kept.inverse]
      split
      · rename_i equal
        subst equal
        simp [back, same]
      · rfl
  · simp [Inbox.remove, Std.ExtTreeMap.size_erase, here, there, kept.sizes]
  · have smaller : (inbox.pending.erase token).size ≤ inbox.pending.size := Std.ExtTreeMap.size_erase_le
    exact smaller.trans kept.bounded
  · intro requestId other still
    rw [getElem?_remove_requests] at still
    split at still
    · cases still
    · exact kept.known still
  · intro other entry' still
    rw [getElem?_remove_pending] at still
    split at still
    · cases still
    · exact kept.older still

theorem Kept.removes {inbox inbox' : Inbox P} {seen : List InboundRequestId} {given : List InboundToken}
    {count : Nat} (kept : inbox.Kept seen given count) (removes : Removes inbox inbox') :
    inbox'.Kept seen given count := by
  induction removes with
  | refl => exact kept
  | token found _ ih => exact ih (kept.remove found)
  | request found _ ih =>
    obtain ⟨entry, there, rfl⟩ := (kept.inverse _ _).mpr found
    exact ih (kept.remove there)

/-- A new entry, under a token and for a request that have none. -/
theorem Kept.deliver {inbox : Inbox P} {seen : List InboundRequestId} {given : List InboundToken}
    {count : Nat} (kept : inbox.Kept seen given count) (entry : PendingInbound P)
    (room : inbox.pending.size < maxPendingInbound) (fresh : entry.requestId ∉ seen)
    (small : count < 2 ^ 64) :
    Inbox.Kept {
      pending := inbox.pending.insert inbox.next entry
      requests := inbox.requests.insert entry.requestId inbox.next
      next := inbox.next + 1 } (seen ++ [entry.requestId]) (given ++ [inbox.next]) (count + 1) := by
  have value : inbox.next.toNat = count := by
    rw [kept.next, UInt64.toNat_ofNat_of_lt' small]
  have absent : inbox.next ∉ inbox.pending := by
    intro member
    obtain ⟨other, found⟩ := Option.isSome_iff_exists.mp (Std.ExtTreeMap.mem_iff_isSome_getElem?.mp member)
    have := kept.older found
    omega
  have missing : entry.requestId ∉ inbox.requests := by
    intro member
    obtain ⟨other, found⟩ := Option.isSome_iff_exists.mp (Std.ExtTreeMap.mem_iff_isSome_getElem?.mp member)
    exact fresh (kept.known found)
  refine ⟨?_, ?_, ?_, ?_, ?_, ?_, ?_, ?_, ?_⟩
  · intro token requestId
    simp only [Std.ExtTreeMap.getElem?_insert, Std.LawfulEqOrd.compare_eq_iff_eq]
    by_cases same : inbox.next = token
    · subst same
      simp only [if_pos, Option.some.injEq, exists_eq_left']
      by_cases equal : entry.requestId = requestId
      · simp [equal]
      · simp only [equal, if_false, false_iff]
        intro found
        obtain ⟨other, there, _⟩ := (kept.inverse _ _).mpr found
        exact absent (Std.ExtTreeMap.mem_iff_isSome_getElem?.mpr (by simp [there]))
    · rw [if_neg same, kept.inverse]
      by_cases equal : entry.requestId = requestId
      · subst equal
        rw [if_pos rfl, Std.ExtTreeMap.getElem?_eq_none missing]
        simp [same]
      · rw [if_neg equal]
  · simp [Std.ExtTreeMap.size_insert, absent, missing, kept.sizes]
  · simpa [Std.ExtTreeMap.size_insert, absent] using room
  · intro requestId token found
    simp only [Std.ExtTreeMap.getElem?_insert, Std.LawfulEqOrd.compare_eq_iff_eq] at found
    split at found
    · rename_i equal
      simp [equal]
    · exact List.mem_append_left _ (kept.known found)
  · simp [kept.next, UInt64.ofNat_add]
  · have := kept.few
    simp only [List.length_append, List.length_singleton]
    omega
  · intro token other found
    simp only [Std.ExtTreeMap.getElem?_insert, Std.LawfulEqOrd.compare_eq_iff_eq] at found
    split at found
    · rename_i equal
      rw [← equal, value]
      exact Nat.lt_succ_self count
    · exact Nat.lt_succ_of_lt (kept.older found)
  · intro token member
    rcases List.mem_append.mp member with earlier | now
    · exact Nat.lt_succ_of_lt (kept.taken token earlier)
    · obtain rfl := List.mem_singleton.mp now
      omega
  · refine List.nodup_append.mpr ⟨kept.once, List.nodup_singleton _, ?_⟩
    rintro token earlier _ now rfl
    obtain rfl := List.mem_singleton.mp now
    have := kept.taken _ earlier
    omega

/-- More requests than there are tokens are the only way to meet a token again. -/
theorem Kept.step {inbox inbox' : Inbox P} {seen : List InboundRequestId} {given : List InboundToken}
    {count : Nat} {arrived : Option InboundRequestId} {token : Option InboundToken}
    (kept : inbox.Kept seen given count) (step : Step inbox arrived token inbox')
    (fresh : ∀ requestId, arrived = some requestId → requestId ∉ seen)
    (few : (seen ++ arrived.toList).length ≤ 2 ^ 64) :
    ∃ count, inbox'.Kept (seen ++ arrived.toList) (given ++ token.toList) count := by
  have grown : ∀ {requestId}, requestId ∈ seen → requestId ∈ seen ++ arrived.toList :=
    List.mem_append_left _
  cases step with
  | removes _ removes =>
    have after := kept.removes removes
    refine ⟨count, after.inverse, after.sizes, after.bounded, fun found => grown (after.known found),
      after.next, ?_, after.older, ?_, ?_⟩
    · rw [List.length_append]
      exact after.few.trans (Nat.le_add_right _ _)
    · simpa using after.taken
    · simpa using after.once
  | skips requestId =>
    refine ⟨count + 1, kept.inverse, kept.sizes, kept.bounded, fun found => grown (kept.known found), ?_, ?_,
      fun found => Nat.lt_succ_of_lt (kept.older found), ?_, ?_⟩
    · simp [kept.next, UInt64.ofNat_add]
    · have := kept.few
      simp only [Option.toList_some, List.length_append, List.length_singleton]
      omega
    · intro token member
      exact Nat.lt_succ_of_lt (kept.taken token (by simpa using member))
    · simpa using kept.once
  | delivers entry room =>
    have small : count < 2 ^ 64 := by
      have := kept.few
      simp only [Option.toList_some, List.length_append, List.length_singleton] at few
      omega
    exact ⟨count + 1, kept.deliver entry room (fresh entry.requestId rfl) small⟩

theorem Removes.back {before after : Inbox P} (removes : Removes before after) {token : InboundToken}
    {entry : PendingInbound P} (found : after.pending[token]? = some entry) :
    before.pending[token]? = some entry := by
  induction removes with
  | refl => exact found
  | token _ _ ih =>
    have still := ih found
    rw [getElem?_remove_pending] at still
    split at still
    · cases still
    · exact still
  | request _ _ ih =>
    have still := ih found
    rw [getElem?_remove_pending] at still
    split at still
    · cases still
    · exact still

theorem Removes.trans {first second third : Inbox P} (before : Removes first second)
    (after : Removes second third) : Removes first third := by
  induction before with
  | refl => exact after
  | token found _ ih => exact .token found (ih after)
  | request found _ ih => exact .request found (ih after)

end Inbox

/-! ### Outputs -/

/-- The channel an output answers on. -/
def LinkOutput.answered : LinkOutput P → Option ResponseChannel
  | .sendResponse channel _ => some channel
  | _ => none

/-- The token an output hands to the local node. -/
def LinkOutput.given : LinkOutput P → Option InboundToken
  | .inbound token _ _ => some token
  | _ => none

def answered (outputs : List (LinkOutput P)) : List ResponseChannel :=
  outputs.filterMap LinkOutput.answered

def given (outputs : List (LinkOutput P)) : List InboundToken := outputs.filterMap LinkOutput.given

/-- Neither an answer nor an envelope for the local node. -/
def Mute (outputs : List (LinkOutput P)) : Prop :=
  ∀ output ∈ outputs, output.answered = none ∧ output.given = none

theorem Mute.answered {outputs : List (LinkOutput P)} (mute : Mute outputs) : answered outputs = [] :=
  List.filterMap_eq_nil_iff.mpr fun output member => (mute output member).1

theorem Mute.given {outputs : List (LinkOutput P)} (mute : Mute outputs) : given outputs = [] :=
  List.filterMap_eq_nil_iff.mpr fun output member => (mute output member).2

theorem Mute.append {outputs more : List (LinkOutput P)} (first : Mute outputs) (second : Mute more) :
    Mute (outputs ++ more) :=
  List.forall_mem_append.mpr ⟨first, second⟩

theorem Mute.map {K : Type} {output : K → LinkOutput P}
    (mute : ∀ key, (output key).answered = none ∧ (output key).given = none) (keys : List K) :
    Mute (keys.map output) :=
  List.forall_mem_map.mpr fun key _ => mute key

theorem Mute.closes (connectionIds : List ConnectionId) :
    Mute (connectionIds.map (.closeConnection (P := P))) :=
  .map (fun _ => ⟨rfl, rfl⟩) connectionIds

theorem Mute.singleton {output : LinkOutput P} (answered : output.answered = none)
    (given : output.given = none) : Mute [output] :=
  List.forall_mem_singleton.mpr ⟨answered, given⟩

/-! ### Handlers -/

/-- The request that an event brings, with the channel to answer it on. -/
def LinkEvent.request? : LinkEvent P → Option (InboundRequestId × ResponseChannel)
  | .swarm (.request _ requestId _ channel) => some (requestId, channel)
  | _ => none

namespace LinkActor

def inbox (actor : LinkActor P) : Inbox P where
  pending := actor.pendingInbound
  requests := actor.inboundRequests
  next := actor.nextInboundToken

/-- Who keeps a channel: an entry of the inbox, or a forward. -/
def leases (actor : LinkActor P) : Leases (InboundToken ⊕ OutboundRequestId) ResponseChannel
  | .inl token => actor.pendingInbound[token]?.map PendingInbound.channel
  | .inr requestId => actor.pendingForwards[requestId]?.map ForwardContext.channel

/-- Entries of the inbox and forwards go, and nothing else happens to either. -/
structure Sheds (before after : LinkActor P) : Prop where
  inbox : Inbox.Removes before.inbox after.inbox
  forwards : ∀ {requestId : OutboundRequestId} {forward : ForwardContext P},
    after.pendingForwards[requestId]? = some forward → before.pendingForwards[requestId]? = some forward

theorem Sheds.of_fields {before after : LinkActor P} (inbox : after.inbox = before.inbox)
    (forwards : after.pendingForwards = before.pendingForwards) : Sheds before after := by
  refine ⟨?_, ?_⟩
  · rw [inbox]
    exact .refl _
  · rw [forwards]
    exact id

theorem Sheds.refl (actor : LinkActor P) : Sheds actor actor := .of_fields rfl rfl

theorem Sheds.trans {first second third : LinkActor P} (before : Sheds first second)
    (after : Sheds second third) : Sheds first third :=
  ⟨before.inbox.trans after.inbox, fun found => before.forwards (after.forwards found)⟩

theorem Sheds.foldl {K : Type} {move : LinkActor P → K → LinkActor P}
    (sheds : ∀ actor key, Sheds actor (move actor key)) (keys : List K) (actor : LinkActor P) :
    Sheds actor (keys.foldl move actor) := by
  induction keys generalizing actor with
  | nil => exact .refl actor
  | cons key keys ih => exact (sheds actor key).trans (ih (move actor key))

theorem Sheds.leases {before after : LinkActor P} (sheds : Sheds before after)
    (holder : InboundToken ⊕ OutboundRequestId) (channel : ResponseChannel)
    (found : after.leases holder = some channel) : before.leases holder = some channel := by
  cases holder with
  | inl token =>
    obtain ⟨entry, there, rfl⟩ := Option.map_eq_some_iff.mp found
    exact Option.map_eq_some_iff.mpr ⟨entry, sheds.inbox.back there, rfl⟩
  | inr requestId =>
    obtain ⟨forward, there, rfl⟩ := Option.map_eq_some_iff.mp found
    exact Option.map_eq_some_iff.mpr ⟨forward, sheds.forwards there, rfl⟩

/-- What a pass of the loop does to the inbox and to the channels, with the request it brings. -/
def Serves (before : LinkActor P) (request : Option (InboundRequestId × ResponseChannel))
    (stepped : LinkActor P × List (LinkOutput P)) : Prop :=
  ∃ token spent, given stepped.2 = token.toList ∧ answered stepped.2 = spent.toList ∧
    Inbox.Step before.inbox (request.map Prod.fst) token stepped.1.inbox ∧
    Leases.Step before.leases (request.map Prod.snd) spent stepped.1.leases

theorem Sheds.serves {before after : LinkActor P} (sheds : Sheds before after)
    {outputs : List (LinkOutput P)} (mute : Mute outputs)
    (request : Option (InboundRequestId × ResponseChannel)) : Serves before request (after, outputs) :=
  ⟨none, none, mute.given, mute.answered, .removes _ sheds.inbox, .drop _ sheds.leases⟩

/-- What follows a pass and leaves inbox and forwards alone. -/
theorem Serves.andThen {before after after' : LinkActor P} {outputs more : List (LinkOutput P)}
    {request : Option (InboundRequestId × ResponseChannel)} (serves : Serves before request (after, outputs))
    (inbox : after'.inbox = after.inbox) (forwards : after'.pendingForwards = after.pendingForwards)
    (mute : Mute more) : Serves before request (after', outputs ++ more) := by
  obtain ⟨token, spent, tokens, channels, step, moved⟩ := serves
  have same : after'.leases = after.leases := by
    funext holder
    cases holder with
    | inl token =>
      have pending : after'.pendingInbound = after.pendingInbound := congrArg Inbox.pending inbox
      simp only [leases, pending]
    | inr requestId => simp only [leases, forwards]
  refine ⟨token, spent, ?_, ?_, ?_, ?_⟩
  · rw [← tokens, given, List.filterMap_append]
    exact (congrArg _ mute.given).trans (List.append_nil _)
  · rw [← channels, answered, List.filterMap_append]
    exact (congrArg _ mute.answered).trans (List.append_nil _)
  · rw [inbox]
    exact step
  · rw [same]
    exact moved

section Handlers

variable (actor : LinkActor P) (moment : Moment)

theorem sendPeerRequest_sheds (peerId : P.PeerId) (envelope : Envelope) (reply : Caller) :
    Sheds actor (actor.sendPeerRequest moment peerId envelope reply).1 ∧
      Mute (actor.sendPeerRequest moment peerId envelope reply).2 := by
  unfold sendPeerRequest
  split
  · exact ⟨.refl actor, .singleton rfl rfl⟩
  · exact ⟨.of_fields rfl rfl, .singleton rfl rfl⟩

theorem sendRoutedRequest_sheds (envelope : Envelope) (reply : Caller) :
    Sheds actor (actor.sendRoutedRequest moment envelope reply).1 ∧
      Mute (actor.sendRoutedRequest moment envelope reply).2 := by
  unfold sendRoutedRequest
  split
  · exact ⟨.refl actor, .singleton rfl rfl⟩
  · split
    · exact actor.sendPeerRequest_sheds moment _ envelope reply
    · exact ⟨.refl actor, .singleton rfl rfl⟩

theorem sendAdmissionRequest_sheds (sponsor : P.PeerId) (envelope : Envelope) (reply : Caller) :
    Sheds actor (actor.sendAdmissionRequest moment sponsor envelope reply).1 ∧
      Mute (actor.sendAdmissionRequest moment sponsor envelope reply).2 := by
  unfold sendAdmissionRequest
  split
  · exact ⟨.refl actor, .singleton rfl rfl⟩
  · dsimp only
    split
    · exact ⟨.refl actor, .singleton rfl rfl⟩
    · exact actor.sendPeerRequest_sheds moment sponsor envelope reply

theorem respond_serves (token : InboundToken) (envelope : Envelope) (reply : Caller) :
    Serves actor none (actor.respond moment token envelope reply) := by
  unfold respond
  split
  · exact (Sheds.refl actor).serves (.singleton rfl rfl) none
  · rename_i entry found
    have gone : Inbox.Removes actor.inbox (actor.inbox.remove token entry.requestId) :=
      .token found (.refl _)
    dsimp only
    split
    · have sheds : Sheds actor { actor with
          pendingInbound := actor.pendingInbound.erase token
          inboundRequests := actor.inboundRequests.erase entry.requestId } := ⟨gone, id⟩
      exact sheds.serves (.singleton rfl rfl) none
    · refine ⟨none, some entry.channel, rfl, rfl, .removes none gone, ?_⟩
      refine .spend (.inl token) entry.channel ?_ ?_
      · simp [leases, found]
      · intro holder channel kept
        cases holder with
        | inl other =>
          simp only [leases, Std.ExtTreeMap.getElem?_erase, Std.LawfulEqOrd.compare_eq_iff_eq] at kept ⊢
          split at kept
          · simp at kept
          · rename_i different
            exact ⟨fun same => different (Sum.inl.inj same).symm, kept⟩
        | inr requestId => exact ⟨Sum.inr_ne_inl, kept⟩

theorem removePendingInbound_sheds (token : InboundToken) :
    Sheds actor (actor.removePendingInbound token) := by
  unfold removePendingInbound
  split
  · exact .refl actor
  · rename_i entry found
    exact ⟨.token found (.refl _), id⟩

theorem removePendingInboundRequest_sheds (requestId : InboundRequestId) :
    Sheds actor (actor.removePendingInboundRequest requestId) := by
  unfold removePendingInboundRequest
  split
  · exact .refl actor
  · rename_i token found
    exact ⟨.request found (.refl _), id⟩

theorem removePendingInboundPeer_sheds (peerId : P.PeerId) :
    Sheds actor (actor.removePendingInboundPeer peerId) :=
  .foldl removePendingInbound_sheds _ actor

theorem releaseForward_sheds (requestId : OutboundRequestId) :
    Sheds actor (actor.releaseForward requestId) := by
  refine ⟨.refl _, ?_⟩
  intro other forward found
  simp only [releaseForward, Std.ExtTreeMap.getElem?_erase] at found
  split at found
  · cases found
  · exact found

theorem expireForward_sheds (requestId : OutboundRequestId) : Sheds actor (actor.expireForward requestId) := by
  unfold expireForward
  split
  · exact .refl actor
  · exact actor.releaseForward_sheds requestId

theorem closeTimedOutPeer_mute (peerId : P.PeerId) : Mute (actor.closeTimedOutPeer peerId) := .closes _

theorem expireOutbound_sheds (requestId : OutboundRequestId) :
    Sheds actor (actor.expireOutbound requestId) :=
  .of_fields rfl rfl

theorem expirePendingRequests_sheds (now : Int) :
    Sheds actor (actor.expirePendingRequests now).1 ∧ Mute (actor.expirePendingRequests now).2 := by
  refine ⟨?_, ?_⟩
  · exact (Sheds.foldl expireOutbound_sheds _ actor).trans
      ((Sheds.foldl expireForward_sheds _ _).trans (.foldl removePendingInbound_sheds _ _))
  · refine Mute.append (.map (fun _ => ⟨rfl, rfl⟩) _) ?_
    intro output member
    obtain ⟨peerId, _, closes⟩ := List.mem_flatMap.mp member
    exact closeTimedOutPeer_mute _ peerId output closes

theorem deliver_serves (peerId : P.PeerId) (requestId : InboundRequestId) (envelope : Envelope)
    (channel : ResponseChannel) :
    Serves actor (some (requestId, channel))
      (actor.deliver moment peerId requestId envelope channel) := by
  unfold deliver
  split
  · exact (Sheds.refl actor).serves (List.forall_mem_nil _) _
  · split
    · exact (Sheds.refl actor).serves (List.forall_mem_nil _) _
    · rename_i room
      dsimp only
      split
      · let entry : PendingInbound P := ⟨requestId, peerId,
          min envelope.header.deadlineUnixMs (moment.later + maxInboundLifetimeMs), channel⟩
        refine ⟨some actor.nextInboundToken, none, rfl, rfl, .delivers entry (Nat.lt_of_not_le room), ?_⟩
        refine .take (.inl actor.nextInboundToken) channel ?_
        intro holder found kept
        cases holder with
        | inl token =>
          simp only [leases, Std.ExtTreeMap.getElem?_insert, Std.LawfulEqOrd.compare_eq_iff_eq] at kept ⊢
          split at kept
          · rename_i same
            exact .inr ⟨congrArg Sum.inl same.symm, (Option.some.inj kept).symm⟩
          · exact .inl kept
        | inr requestId => exact .inl kept
      · exact ⟨none, none, rfl, rfl, .skips requestId, .drop _ fun holder _ => by cases holder <;> exact id⟩

theorem handleResponse_serves (peerId : P.PeerId) (requestId : OutboundRequestId) (response : Envelope) :
    Serves actor none (actor.handleResponse moment peerId requestId response) := by
  unfold handleResponse
  split
  · dsimp only
    split
    · exact (actor.expireOutbound_sheds requestId).serves
        ((closeTimedOutPeer_mute _ peerId).append (.singleton rfl rfl)) none
    · exact (actor.expireOutbound_sheds requestId).serves (.singleton rfl rfl) none
  · split
    · rename_i forward found
      have sheds := actor.releaseForward_sheds requestId
      dsimp only
      split
      · refine ⟨none, some forward.channel, rfl, rfl, .removes none sheds.inbox, ?_⟩
        refine .spend (.inr requestId) forward.channel ?_ ?_
        · simp [leases, found]
        · intro holder channel kept
          refine ⟨?_, sheds.leases holder channel kept⟩
          rintro rfl
          simp [leases, releaseForward] at kept
      · exact sheds.serves (closeTimedOutPeer_mute _ peerId) none
    · exact Sheds.serves (.of_fields rfl rfl) (List.forall_mem_nil _) none

theorem handleOutboundFailure_sheds (requestId : OutboundRequestId) :
    Sheds actor (actor.handleOutboundFailure moment requestId).1 ∧
      Mute (actor.handleOutboundFailure moment requestId).2 := by
  unfold handleOutboundFailure
  split
  · dsimp only
    split
    · exact ⟨actor.expireOutbound_sheds requestId,
        (closeTimedOutPeer_mute _ _).append (.singleton rfl rfl)⟩
    · exact ⟨actor.expireOutbound_sheds requestId, .singleton rfl rfl⟩
  · split
    · exact ⟨actor.releaseForward_sheds requestId, List.forall_mem_nil _⟩
    · exact ⟨.of_fields rfl rfl, List.forall_mem_nil _⟩

theorem connectionEstablished_sheds (peerId : P.PeerId) (connectionId : ConnectionId)
    (endpoint : ConnectedPoint) :
    Sheds actor (actor.connectionEstablished peerId connectionId endpoint).1 ∧
      Mute (actor.connectionEstablished peerId connectionId endpoint).2 := by
  unfold connectionEstablished
  split
  · split
    · exact ⟨.refl actor, .singleton rfl rfl⟩
    · exact ⟨.of_fields rfl rfl, List.forall_mem_nil _⟩
  · exact ⟨.of_fields rfl rfl, .closes _⟩

theorem connectionClosed_sheds (peerId : P.PeerId) (connectionId : ConnectionId) :
    Sheds actor (actor.connectionClosed peerId connectionId) := by
  unfold connectionClosed
  dsimp only
  split
  · exact .of_fields rfl rfl
  · refine Sheds.trans ?_ (removePendingInboundPeer_sheds _ peerId)
    exact .of_fields rfl rfl

theorem ping_sheds (peerId : P.PeerId) (connectionId : ConnectionId) (alive : Bool) :
    Sheds actor (actor.ping peerId connectionId alive).1 ∧
      Mute (actor.ping peerId connectionId alive).2 := by
  refine ⟨.of_fields rfl rfl, ?_⟩
  unfold ping
  cases alive
  · exact .singleton rfl rfl
  · exact List.forall_mem_nil _

theorem allocateRequestId_sheds : Sheds actor actor.allocateRequestId := by
  unfold allocateRequestId
  split
  · exact .refl actor
  · exact .of_fields rfl rfl

/-! ### Link state and authorization -/

theorem publish_inbox (payload : Bytes) (peers : List (P.PeerId × NodeId)) :
    (publish moment payload peers actor).1.inbox = actor.inbox ∧
      Mute (publish moment payload peers actor).2 := by
  induction peers generalizing actor with
  | nil => exact ⟨rfl, List.forall_mem_nil _⟩
  | cons peer peers ih =>
    unfold publish
    split
    · exact ⟨rfl, List.forall_mem_nil _⟩
    · dsimp only
      split
      · exact ⟨rfl, List.forall_mem_nil _⟩
      · obtain ⟨inbox, mute⟩ := ih _
        exact ⟨inbox.trans rfl, List.forall_mem_cons.mpr ⟨⟨rfl, rfl⟩, mute⟩⟩

variable (E : LinkEncoding)

theorem advertiseLinkState_inbox :
    (actor.advertiseLinkState E moment).1.inbox = actor.inbox ∧
      Mute (actor.advertiseLinkState E moment).2 := by
  obtain ⟨links, -, plain | ⟨payload, published⟩⟩ := actor.advertiseLinkState_cases E moment
  · rw [plain]
    exact ⟨rfl, List.forall_mem_nil _⟩
  · rw [published]
    exact publish_inbox (actor.tracking moment links) moment _ _

theorem foldl_promote_inbox (connectionIds : List ConnectionId) :
    (connectionIds.foldl promote actor).inbox = actor.inbox := by
  induction connectionIds generalizing actor with
  | nil => rfl
  | cons connectionId rest ih =>
    refine (ih _).trans ?_
    unfold promote
    split
    · rfl
    · dsimp only
      split
      · rfl
      · rfl

theorem installAuthorization_sheds (registry : AuthorizationRegistry) :
    Sheds actor (actor.installAuthorization E moment registry).1 ∧
      Mute (actor.installAuthorization E moment registry).2 := by
  refine ⟨.of_fields ?_ (actor.installAuthorization_linked E moment registry).forwards, ?_⟩
  · unfold installAuthorization
    dsimp only
    rw [(advertiseLinkState_inbox _ moment E).1, foldl_promote_inbox]
    rfl
  · exact (Mute.closes _).append (advertiseLinkState_inbox _ moment E).2

theorem acceptLinkState_inbox (envelope : Envelope) :
    (actor.acceptLinkState E envelope).inbox = actor.inbox := by
  unfold acceptLinkState
  split
  · rfl
  · split
    · rfl
    · split
      · rfl
      · rfl

/-! ### Steps -/

theorem routeInbound_serves (peerId : P.PeerId) (requestId : InboundRequestId) (envelope : Envelope)
    (channel : ResponseChannel) :
    Serves actor (some (requestId, channel))
      (actor.routeInbound moment peerId requestId envelope channel) := by
  unfold routeInbound
  dsimp only
  split
  · exact deliver_serves { actor with router := (actor.router.handle envelope moment.now).1 } moment peerId
      requestId _ channel
  · split
    · exact Sheds.serves (.of_fields rfl rfl) (.singleton rfl rfl) _
    · refine ⟨none, none, rfl, rfl, .removes _ (.refl _), ?_⟩
      refine .take (.inr actor.nextOutboundId) channel ?_
      intro holder found kept
      cases holder with
      | inl token => exact .inl kept
      | inr requestId =>
        simp only [leases, Std.ExtTreeMap.getElem?_insert, Std.LawfulEqOrd.compare_eq_iff_eq] at kept ⊢
        split at kept
        · rename_i same
          exact .inr ⟨congrArg Sum.inr same.symm, (Option.some.inj kept).symm⟩
        · exact .inl kept
  · exact Sheds.serves (.of_fields rfl rfl) (.singleton rfl rfl) _

theorem handleInboundRequest_serves (peerId : P.PeerId) (requestId : InboundRequestId)
    (envelope : Envelope) (channel : ResponseChannel) :
    Serves actor (some (requestId, channel))
      (actor.handleInboundRequest E moment peerId requestId envelope channel) := by
  have ignored := (Sheds.refl actor).serves (List.forall_mem_nil _) (some (requestId, channel))
  have delivered := actor.deliver_serves moment peerId requestId envelope channel
  unfold handleInboundRequest
  dsimp only
  split
  · exact ignored
  · split
    · split
      · exact delivered
      · exact ignored
    · split
      · exact delivered
      · split
        · exact ignored
        · split
          · have accepted : Sheds actor (actor.acceptLinkState E envelope) :=
              .of_fields (actor.acceptLinkState_inbox E envelope)
                (actor.acceptLinkState_linked E envelope).forwards
            unfold replyEmpty
            cases (actor.acceptLinkState E envelope).responseEnvelope envelope [] with
            | none => exact accepted.serves (List.forall_mem_nil _) _
            | some response =>
              exact ⟨none, some channel, rfl, rfl, .removes _ accepted.inbox, .pass channel accepted.leases⟩
          · exact actor.routeInbound_serves moment peerId requestId envelope channel

theorem handleEvent_serves {event : SwarmEvent P}
    (serves : Serves actor (LinkEvent.swarm event).request? (actor.applySwarmEvent E moment event)) :
    Serves actor (LinkEvent.swarm event).request? (actor.handleEvent E moment event) := by
  unfold handleEvent
  dsimp only
  split
  · obtain ⟨inbox, mute⟩ := advertiseLinkState_inbox (actor.applySwarmEvent E moment event).1 moment E
    exact serves.andThen inbox (advertiseLinkState_linked E _ moment).forwards mute
  · exact serves

theorem step_serves (event : LinkEvent P) : Serves actor event.request? (actor.step E moment event) := by
  cases event with
  | command command =>
    cases command with
    | request envelope reply =>
      obtain ⟨sheds, mute⟩ := actor.sendRoutedRequest_sheds moment envelope reply
      exact sheds.serves mute none
    | requestAdmission sponsor envelope reply =>
      obtain ⟨sheds, mute⟩ := actor.sendAdmissionRequest_sheds moment sponsor envelope reply
      exact sheds.serves mute none
    | respond token envelope reply => exact actor.respond_serves moment token envelope reply
    | commitAuthorization registry checkCluster persisted reply =>
      show Serves actor none (actor.commitAuthorization E moment registry checkCluster persisted reply)
      rcases actor.commitAuthorization_cases E moment registry checkCluster persisted reply with
        ⟨_, _, installed⟩ | ⟨_, error, refused⟩
      · obtain ⟨sheds, mute⟩ := actor.installAuthorization_sheds moment E registry
        rw [installed]
        exact sheds.serves (mute.append (.singleton rfl rfl)) none
      · rw [refused]
        exact (Sheds.refl actor).serves (.singleton rfl rfl) none
  | swarm event =>
    refine actor.handleEvent_serves moment E ?_
    cases event with
    | connectionEstablished peerId connectionId endpoint =>
      obtain ⟨sheds, mute⟩ := actor.connectionEstablished_sheds peerId connectionId endpoint
      exact sheds.serves mute none
    | connectionClosed peerId connectionId =>
      exact (actor.connectionClosed_sheds peerId connectionId).serves (List.forall_mem_nil _) none
    | ping peerId connectionId alive =>
      obtain ⟨sheds, mute⟩ := actor.ping_sheds peerId connectionId alive
      exact sheds.serves mute none
    | request peerId requestId envelope channel =>
      exact actor.handleInboundRequest_serves moment E peerId requestId envelope channel
    | response peerId requestId response => exact actor.handleResponse_serves moment peerId requestId response
    | outboundFailure requestId =>
      obtain ⟨sheds, mute⟩ := actor.handleOutboundFailure_sheds moment requestId
      exact sheds.serves mute none
    | inboundFailure requestId =>
      exact (actor.removePendingInboundRequest_sheds requestId).serves (List.forall_mem_nil _) none
  | expire =>
    obtain ⟨sheds, mute⟩ := actor.expirePendingRequests_sheds moment.now
    exact sheds.serves mute none
  | allocate => exact actor.allocateRequestId_sheds.serves (List.forall_mem_nil _) none

end Handlers

end LinkActor

end Lycoris.Link
