import Lycoris.Link.Inbox
import Lycoris.Link.Forwards

/-!
The inbox over whole runs of the actor. Requests of peers are named once by the swarm, and so are the
channels to answer them on; what the actor adds are the tokens. A 64-bit counter gives them out, and there
are no more names of requests than tokens.
-/

namespace Lycoris.Link
open Lib Overlay

variable {P : Primitives} (E : LinkEncoding)

/-- The requests of a run, with their channels. -/
def requests (events : List (Moment × LinkEvent P)) : List (InboundRequestId × ResponseChannel) :=
  events.filterMap fun event => event.2.request?

theorem requests_cons (moment : Moment) (event : LinkEvent P) (rest : List (Moment × LinkEvent P)) :
    requests ((moment, event) :: rest) = event.request?.toList ++ requests rest := by
  unfold requests
  cases found : event.request? <;> simp [found]

theorem requests_append (first second : List (Moment × LinkEvent P)) :
    requests (first ++ second) = requests first ++ requests second :=
  List.filterMap_append

theorem answered_append (outputs more : List (LinkOutput P)) :
    answered (outputs ++ more) = answered outputs ++ answered more :=
  List.filterMap_append

theorem given_append (outputs more : List (LinkOutput P)) :
    given (outputs ++ more) = given outputs ++ given more :=
  List.filterMap_append

namespace LinkActor

/-- Inbox and channels after `seen` has arrived, `tokens` were given and `used` answered. -/
structure Serving (actor : LinkActor P) (seen : List (InboundRequestId × ResponseChannel))
    (tokens : List InboundToken) (used : List ResponseChannel) : Prop where
  inbox : ∃ count, actor.inbox.Kept (seen.map Prod.fst) tokens count
  leases : actor.leases.Kept (seen.map Prod.snd) used

theorem serving_new (identity : NodeIdentity P) (authorization : AuthorizationRegistry) (bootId : Bytes)
    (nextSequence : UInt64) : Serving (new identity authorization bootId nextSequence) [] [] [] := by
  refine ⟨⟨0, ?_, rfl, ?_, ?_, rfl, le_refl 0, ?_, ?_, List.nodup_nil⟩, .empty ?_⟩
  · intro token requestId
    simp [inbox, new]
  · simp [inbox, new]
  · simp [inbox, new]
  · simp [inbox, new]
  · simp
  · intro holder
    cases holder with
    | inl token => simp [leases, new]
    | inr requestId => simp [leases, new]

/-- The requests of a run bring new names. -/
structure Named (seen : List (InboundRequestId × ResponseChannel)) : Prop where
  requests : (seen.map Prod.fst).Nodup
  channels : (seen.map Prod.snd).Nodup

theorem Named.left {seen more : List (InboundRequestId × ResponseChannel)} (named : Named (seen ++ more)) :
    Named seen := by
  obtain ⟨requests, channels⟩ := named
  rw [List.map_append] at requests channels
  exact ⟨(List.nodup_append.mp requests).1, (List.nodup_append.mp channels).1⟩

theorem Named.few {seen : List (InboundRequestId × ResponseChannel)} (named : Named seen) :
    seen.length ≤ 2 ^ 64 := by
  have distinct : ((seen.map Prod.fst).map UInt64.toFin).Nodup :=
    named.requests.map fun _ _ same => UInt64.toFin_inj.mp same
  have bound := distinct.length_le_card
  rwa [List.length_map, List.length_map, Fintype.card_fin] at bound

theorem Serving.step {actor : LinkActor P} {seen : List (InboundRequestId × ResponseChannel)}
    {tokens : List InboundToken} {used : List ResponseChannel} (serving : Serving actor seen tokens used)
    (moment : Moment) (event : LinkEvent P) (named : Named (seen ++ event.request?.toList)) :
    Serving (actor.step E moment event).1 (seen ++ event.request?.toList)
      (tokens ++ given (actor.step E moment event).2) (used ++ answered (actor.step E moment event).2) := by
  obtain ⟨token, spent, tokens, channels, inbox, leases⟩ := actor.step_serves moment E event
  obtain ⟨count, kept⟩ := serving.inbox
  have few := named.few
  obtain ⟨distinct, own⟩ := named
  rw [tokens, channels]
  cases arrives : event.request? with
  | none =>
    rw [arrives] at inbox leases
    have named := kept.step inbox nofun (by simpa [arrives] using few)
    have answers := serving.leases.step leases nofun
    exact ⟨by simpa using named, by simpa using answers⟩
  | some request =>
    obtain ⟨requestId, channel⟩ := request
    rw [arrives] at inbox leases distinct own few
    rw [Option.toList_some, List.map_append, List.nodup_append] at distinct own
    have named := kept.step inbox ?_ (by simpa using few)
    · have answers := serving.leases.step leases ?_
      · exact ⟨by simpa using named, by simpa using answers⟩
      · rintro other ⟨⟩ member
        exact own.2.2 channel member channel (by simp) rfl
    · rintro other ⟨⟩ member
      exact distinct.2.2 requestId member requestId (by simp) rfl

theorem Serving.run {actor : LinkActor P} {seen : List (InboundRequestId × ResponseChannel)}
    {tokens : List InboundToken} {used : List ResponseChannel} (serving : Serving actor seen tokens used)
    (events : List (Moment × LinkEvent P)) (named : Named (seen ++ requests events)) :
    Serving (actor.run E events).1 (seen ++ requests events) (tokens ++ given (actor.run E events).2)
      (used ++ answered (actor.run E events).2) := by
  induction events generalizing actor seen tokens used with
  | nil => simpa [requests, given, answered, LinkActor.run] using serving
  | cons first rest ih =>
    obtain ⟨moment, event⟩ := first
    rw [requests_cons, ← List.append_assoc] at named ⊢
    have after := ih (serving.step E moment event named.left) named
    rw [LinkActor.run, given_append, answered_append, ← List.append_assoc, ← List.append_assoc]
    exact after

/-! ### Channels that were given up -/

theorem run_back {actor : LinkActor P} {channel : ResponseChannel} {events : List (Moment × LinkEvent P)}
    (old : channel ∉ (requests events).map Prod.snd) {holder : InboundToken ⊕ OutboundRequestId}
    (found : (actor.run E events).1.leases holder = some channel) : actor.leases holder = some channel := by
  induction events generalizing actor with
  | nil => exact found
  | cons first rest ih =>
    obtain ⟨moment, event⟩ := first
    rw [requests_cons, List.map_append, List.mem_append, not_or] at old
    obtain ⟨_, _, _, _, _, leases⟩ := actor.step_serves moment E event
    refine leases.back (ih old.2 found) ?_
    intro arrives
    exact old.1 (by simpa using arrives)

theorem run_unanswered {actor : LinkActor P} {channel : ResponseChannel}
    {events : List (Moment × LinkEvent P)} (old : channel ∉ (requests events).map Prod.snd)
    (nobody : ∀ holder, actor.leases holder ≠ some channel) : channel ∉ answered (actor.run E events).2 := by
  induction events generalizing actor with
  | nil => exact List.not_mem_nil
  | cons first rest ih =>
    obtain ⟨moment, event⟩ := first
    rw [requests_cons, List.map_append, List.mem_append, not_or] at old
    obtain ⟨token, spent, _, channels, _, leases⟩ := actor.step_serves moment E event
    have late : event.request?.map Prod.snd ≠ some channel := fun arrives => old.1 (by simpa using arrives)
    rw [LinkActor.run, answered_append, List.mem_append, not_or]
    refine ⟨?_, ih old.2 fun holder found => nobody holder (leases.back found late)⟩
    rw [channels]
    intro now
    rcases leases.spent_held (Option.mem_toList.mp now) with arrives | ⟨holder, found⟩
    · exact late arrives
    · exact nobody holder found

/-- The channel of an entry that is gone is not held by anyone. -/
theorem Serving.gone {actor : LinkActor P} {seen : List (InboundRequestId × ResponseChannel)}
    {tokens : List InboundToken} {used : List ResponseChannel} (serving : Serving actor seen tokens used)
    {token : InboundToken} {entry : PendingInbound P} (found : actor.pendingInbound[token]? = some entry)
    {events : List (Moment × LinkEvent P)} (old : entry.channel ∉ (requests events).map Prod.snd)
    (gone : (actor.run E events).1.pendingInbound[token]? = none)
    (holder : InboundToken ⊕ OutboundRequestId) :
    (actor.run E events).1.leases holder ≠ some entry.channel := by
  intro kept
  have holds : actor.leases (.inl token) = some entry.channel := by simp [LinkActor.leases, found]
  obtain rfl := serving.leases.single (run_back E old kept) holds
  simp [LinkActor.leases, gone] at kept

/-- Tokens and requests stay inverse to each other, at most 256 of each; no token is given twice; each
channel is answered on at most once, and never after the entry that kept it is gone. -/
theorem inbound_bookkeeping (identity : NodeIdentity P) (authorization : AuthorizationRegistry)
    (bootId : Bytes) (nextSequence : UInt64) (events : List (Moment × LinkEvent P))
    (distinct : ((requests events).map Prod.fst).Nodup) (own : ((requests events).map Prod.snd).Nodup) :
    let actor := new identity authorization bootId nextSequence
    (actor.run E events).1.inbox.Inverse ∧
    (actor.run E events).1.pendingInbound.size ≤ maxPendingInbound ∧
    (actor.run E events).1.inboundRequests.size ≤ maxPendingInbound ∧
    (given (actor.run E events).2).Nodup ∧
    (answered (actor.run E events).2).Nodup ∧
    ∀ past middle future, events = past ++ middle ++ future →
      ∀ (token : InboundToken) (entry : PendingInbound P),
      (actor.run E past).1.pendingInbound[token]? = some entry →
      (actor.run E (past ++ middle)).1.pendingInbound[token]? = none →
      entry.channel ∉ answered ((actor.run E (past ++ middle)).1.run E future).2 := by
  intro actor
  have start := serving_new identity authorization bootId nextSequence
  have named : Named ([] ++ requests events) := ⟨distinct, own⟩
  obtain ⟨⟨count, kept⟩, leases⟩ := start.run E events named
  refine ⟨kept.inverse, kept.bounded, kept.sizes.trans_le kept.bounded, kept.once, leases.once, ?_⟩
  rintro past middle future rfl token entry found gone
  have before : Serving (actor.run E past).1 (requests past) _ _ := start.run E past (by
    rw [List.nil_append, List.append_assoc, requests_append] at named
    exact named.left)
  -- The channel came with a request of `past`, so neither `middle` nor `future` brings it.
  have holds : (actor.run E past).1.leases (.inl token) = some entry.channel := by
    simp [LinkActor.leases, found]
  have known : entry.channel ∈ (requests past).map Prod.snd := before.leases.known holds
  rw [requests_append, requests_append, List.map_append, List.map_append, List.nodup_append,
    List.nodup_append] at own
  obtain ⟨⟨_, _, inMiddle⟩, _, inFuture⟩ := own
  have oldMiddle : entry.channel ∉ (requests middle).map Prod.snd :=
    fun member => inMiddle _ known _ member rfl
  have oldFuture : entry.channel ∉ (requests future).map Prod.snd :=
    fun member => inFuture _ (List.mem_append_left _ known) _ member rfl
  rw [run_append] at gone ⊢
  exact run_unanswered E oldFuture (before.gone E found oldMiddle gone)

/-! ### A stranger that knocks -/

section Knocks
open Transparent

def stranger : NodeIdentity primitives := Transparent.identity 9 9

def knocking : Envelope :=
  ⟨⟨protocolVersion, cluster, .ofNat 1, stranger.nodeId, founder.nodeId, .admission, .request, 5000, 0⟩, []⟩

/-- The stranger connects; its request for admission is answered. -/
def knock : List (Moment × LinkEvent primitives) :=
  [(trioMoment, .swarm (.connectionEstablished stranger.peerId 1 (.dialer []))),
    (trioMoment, .swarm (.request stranger.peerId 0 knocking 0)),
    (trioMoment, .command (.respond 0 knocking 0))]

theorem first_knock_kept :
    ((new founder (.new cluster) [] 0).run linkEncoding knock).1.inbox.Inverse ∧
    given ((new founder (.new cluster) [] 0).run linkEncoding knock).2 = [0] ∧
    (given ((new founder (.new cluster) [] 0).run linkEncoding knock).2).Nodup ∧
    answered ((new founder (.new cluster) [] 0).run linkEncoding knock).2 = [0] ∧
    (answered ((new founder (.new cluster) [] 0).run linkEncoding knock).2).Nodup := by
  obtain ⟨inverse, _, _, tokens, channels, _⟩ := inbound_bookkeeping linkEncoding founder (.new cluster) [] 0
    knock (by decide) (by decide)
  exact ⟨inverse, by decide +kernel, tokens, by decide +kernel, channels⟩

end Knocks

end LinkActor

end Lycoris.Link
