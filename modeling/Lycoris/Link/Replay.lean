import Lycoris.Link.Forwards
import Lycoris.Lib.Window

/-!
The replay window of the router, over whole runs of the actor. It lives as long as the router does: a
registry that is installed starts it over.
-/

namespace Lycoris.Overlay
open Lib

namespace RouteDecision

/-- The request was new to the router and in time. -/
def accepted : RouteDecision → Bool
  | .drop .expired => false
  | .drop .duplicate => false
  | _ => true

/-- The envelope was delivered or forwarded. -/
def passedOn : RouteDecision → Bool
  | .deliver _ => true
  | .forward _ _ => true
  | .drop _ => false

theorem accepted_of_passedOn {decision : RouteDecision} (passed : decision.passedOn = true) :
    decision.accepted = true := by
  cases decision with
  | deliver envelope => rfl
  | forward nextHop envelope => rfl
  | drop reason => cases passed

end RouteDecision

namespace Router

/-- The requests seen are the set of them, each once, within the capacity. -/
structure Windowed (router : Router) : Prop where
  nodup : router.seen.Nodup
  same : ∀ id, id ∈ router.seenSet ↔ id ∈ router.seen
  short : router.seen.length ≤ router.seenCapacity

theorem windowed_new (localId : NodeId) : Windowed (new localId) :=
  ⟨List.nodup_nil, fun _ => iff_of_false Std.ExtTreeSet.not_mem_empty List.not_mem_nil, Nat.zero_le _⟩

theorem evict_spec (capacity : Nat) (seen : List RequestId) (seenSet : Std.ExtTreeSet RequestId compare)
    (nodup : seen.Nodup) (same : ∀ id, id ∈ seenSet ↔ id ∈ seen) :
    (evict capacity seen seenSet).1 = window capacity seen ∧
      ∀ id, id ∈ (evict capacity seen seenSet).2 ↔ id ∈ window capacity seen := by
  induction seen generalizing seenSet with
  | nil =>
    rw [evict, window_of_length_le (Nat.zero_le capacity)]
    exact ⟨rfl, same⟩
  | cons oldest seen ih =>
    rw [evict]
    split
    · rename_i long
      obtain ⟨absent, nodup'⟩ := List.nodup_cons.mp nodup
      have shifted : window capacity (oldest :: seen) = window capacity seen := by
        rw [List.length_cons] at long
        rw [window, window, List.length_cons, Nat.succ_sub (Nat.le_of_lt_succ long), List.drop_succ_cons]
      rw [shifted]
      apply ih _ nodup'
      intro id
      rw [Std.ExtTreeSet.mem_erase, same, List.mem_cons, ne_eq, Std.LawfulEqOrd.compare_eq_iff_eq]
      constructor
      · rintro ⟨other, member⟩
        exact member.resolve_left fun equal => other equal.symm
      · intro member
        exact ⟨fun equal => absent (equal ▸ member), .inr member⟩
    · rename_i short
      rw [window_of_length_le (not_lt.mp short)]
      exact ⟨rfl, same⟩

theorem markSeen_window {router : Router} (windowed : Windowed router) {requestId : RequestId}
    (fresh : requestId ∉ router.seenSet) :
    ∃ marked, router.markSeen requestId = (marked, true) ∧ Windowed marked ∧
      marked.seenCapacity = router.seenCapacity ∧
      marked.seen = window router.seenCapacity (router.seen ++ [requestId]) := by
  have unseen : requestId ∉ router.seen := fun member => fresh ((windowed.same requestId).mpr member)
  have nodup : (router.seen ++ [requestId]).Nodup :=
    List.nodup_append.mpr ⟨windowed.nodup, List.nodup_singleton _, fun other member last single =>
      fun equal => unseen (List.mem_singleton.mp single ▸ equal ▸ member)⟩
  have same : ∀ id, id ∈ router.seenSet.insert requestId ↔ id ∈ router.seen ++ [requestId] := by
    intro id
    rw [Std.ExtTreeSet.mem_insert, windowed.same, List.mem_append, List.mem_singleton,
      Std.LawfulEqOrd.compare_eq_iff_eq, or_comm, eq_comm]
  obtain ⟨seen, members⟩ := evict_spec router.seenCapacity _ _ nodup same
  rw [markSeen, if_neg fresh]
  refine ⟨_, rfl, ⟨?_, ?_, ?_⟩, rfl, seen⟩
  · show (evict _ _ _).1.Nodup
    rw [seen]
    exact nodup.sublist (List.drop_sublist _ _)
  · intro id
    show id ∈ (evict _ _ _).2 ↔ id ∈ (evict _ _ _).1
    rw [seen]
    exact members id
  · show (evict _ _ _).1.length ≤ _
    rw [seen]
    exact length_window_le _ _

/-- A request is accepted when it is new, and then enters the window. -/
theorem handle_window {router : Router} (windowed : Windowed router) (envelope : Envelope) (now : Int) :
    Windowed (router.handle envelope now).1 ∧
      (router.handle envelope now).1.seenCapacity = router.seenCapacity ∧
      (((router.handle envelope now).2.accepted = true ∧ envelope.header.requestId ∉ router.seen ∧
        (router.handle envelope now).1.seen =
          window router.seenCapacity (router.seen ++ [envelope.header.requestId])) ∨
      ((router.handle envelope now).2.accepted = false ∧
        (router.handle envelope now).1.seen = router.seen)) := by
  rcases router.handle_cases envelope now with late | ⟨_, seen⟩ | ⟨fresh, marks⟩
  · rw [late]
    exact ⟨windowed, rfl, .inr ⟨rfl, rfl⟩⟩
  · rw [seen]
    exact ⟨windowed, rfl, .inr ⟨rfl, rfl⟩⟩
  · have unseen := mt (windowed.same _).mpr fresh
    obtain ⟨marked, ran, windowed', capacity, seen⟩ := markSeen_window windowed fresh
    rw [ran] at marks
    rcases marks with ⟨decision, handled, delivers | ⟨reason, drops, late, again⟩⟩ | ⟨_, _, _, handled, _⟩
    · rw [handled, delivers]
      exact ⟨windowed', capacity, .inl ⟨rfl, unseen, seen⟩⟩
    · rw [handled, drops]
      refine ⟨windowed', capacity, .inl ⟨?_, unseen, seen⟩⟩
      cases reason with
      | expired => exact absurd rfl late
      | duplicate => exact absurd rfl again
      | _ => rfl
    · rw [handled]
      exact ⟨⟨windowed'.nodup, windowed'.same, windowed'.short⟩, capacity, .inl ⟨rfl, unseen, seen⟩⟩

end Router

end Lycoris.Overlay

namespace Lycoris.Link
open Lib Overlay

variable {P : Primitives}

/-- The requests the router accepted, in order. -/
def acceptedIds (outputs : List (LinkOutput P)) : List RequestId :=
  ((decisions outputs).filter fun decided => decided.2.accepted).map Prod.fst

/-- How often a request was delivered or forwarded. -/
def timesPassedOn (requestId : RequestId) (outputs : List (LinkOutput P)) : Nat :=
  (decisions outputs).countP fun decided => decided.1 = requestId ∧ decided.2.passedOn

theorem acceptedIds_append (outputs more : List (LinkOutput P)) :
    acceptedIds (outputs ++ more) = acceptedIds outputs ++ acceptedIds more := by
  rw [acceptedIds, decisions_append, List.filter_append, List.map_append]
  rfl

/-- A request is passed on at most as often as it is accepted. -/
theorem timesPassedOn_le (requestId : RequestId) (outputs : List (LinkOutput P)) :
    timesPassedOn requestId outputs ≤ (acceptedIds outputs).count requestId := by
  rw [timesPassedOn, acceptedIds, List.count, List.countP_map, List.countP_filter]
  apply List.countP_mono_left
  intro decided _ holds
  obtain ⟨same, passed⟩ := of_decide_eq_true holds
  simp [same, RouteDecision.accepted_of_passedOn passed]

namespace LinkActor

/-- What the window does while a part of a run goes by. -/
structure WindowMoves (before after : LinkActor P) (entered : List RequestId) : Prop where
  windowed : after.router.Windowed
  capacity : after.router.seenCapacity = before.router.seenCapacity
  fresh : EntersFresh before.router.seenCapacity before.router.seen entered
  seen : after.router.seen = window before.router.seenCapacity (before.router.seen ++ entered)

namespace WindowMoves

theorem none {before after : LinkActor P} (windowed : after.router.Windowed)
    (capacity : after.router.seenCapacity = before.router.seenCapacity)
    (seen : after.router.seen = before.router.seen) : WindowMoves before after [] := by
  refine ⟨windowed, capacity, trivial, ?_⟩
  rw [List.append_nil, ← seen, ← capacity, window_of_length_le windowed.short]

theorem trans {first second third : LinkActor P} {entered more : List RequestId}
    (before : WindowMoves first second entered) (after : WindowMoves second third more) :
    WindowMoves first third (entered ++ more) := by
  have later := after.fresh
  have seen := after.seen
  rw [before.capacity, before.seen] at later seen
  refine ⟨after.windowed, after.capacity.trans before.capacity, before.fresh.concat later, ?_⟩
  rw [seen, window_append, List.append_assoc]

theorem moves {before after : LinkActor P} (moves : Moves before after)
    (windowed : before.router.Windowed) : WindowMoves before after [] := by
  induction moves with
  | linked linked =>
    have router := linked.router
    refine none ?_ ?_ ?_
    · rw [router]
      exact ⟨windowed.nodup, windowed.same, windowed.short⟩
    · rw [router]
    · rw [router]
  | release _ => exact none ⟨windowed.nodup, windowed.same, windowed.short⟩ rfl rfl
  | trans _ _ first second =>
    have earlier := first windowed
    exact earlier.trans (second earlier.windowed)

end WindowMoves

theorem decisions_routeInbound (actor : LinkActor P) (moment : Moment) (peerId : P.PeerId)
    (requestId : InboundRequestId) (envelope : Envelope) (channel : ResponseChannel) :
    decisions (actor.routeInbound moment peerId requestId envelope channel).2 =
      [(envelope.header.requestId, (actor.router.handle envelope moment.now).2)] := by
  unfold routeInbound
  dsimp only
  split
  · rename_i delivered decided
    rw [decided]
    show _ :: decisions _ = _
    rw [(deliver_silent _ moment peerId requestId _ channel).decisions]
  · rename_i decided
    rw [decided]
    split
    · rfl
    · rfl
  · rename_i decided
    rw [decided]
    rfl

theorem routeInbound_router (actor : LinkActor P) (moment : Moment) (peerId : P.PeerId)
    (requestId : InboundRequestId) (envelope : Envelope) (channel : ResponseChannel) :
    ∃ inflight, (actor.routeInbound moment peerId requestId envelope channel).1.router =
      { (actor.router.handle envelope moment.now).1 with inflight := inflight } := by
  unfold routeInbound
  dsimp only
  split
  · exact ⟨_, (deliver_idle _ moment peerId requestId _ channel).router⟩
  · split
    · exact ⟨_, rfl⟩
    · exact ⟨_, rfl⟩
  · exact ⟨_, rfl⟩

theorem routeInbound_window {actor : LinkActor P} (windowed : actor.router.Windowed) (moment : Moment)
    (peerId : P.PeerId) (requestId : InboundRequestId) (envelope : Envelope) (channel : ResponseChannel) :
    WindowMoves actor (actor.routeInbound moment peerId requestId envelope channel).1
      (acceptedIds (actor.routeInbound moment peerId requestId envelope channel).2) := by
  obtain ⟨windowed', capacity, cases⟩ := Router.handle_window windowed envelope moment.now
  obtain ⟨inflight, router⟩ := actor.routeInbound_router moment peerId requestId envelope channel
  have kept : (actor.routeInbound moment peerId requestId envelope channel).1.router.Windowed := by
    rw [router]
    exact ⟨windowed'.nodup, windowed'.same, windowed'.short⟩
  have capacity' : (actor.routeInbound moment peerId requestId envelope channel).1.router.seenCapacity =
      actor.router.seenCapacity := by
    rw [router]
    exact capacity
  rw [acceptedIds, decisions_routeInbound]
  rcases cases with ⟨accepted, unseen, seen⟩ | ⟨refused, seen⟩
  · have entered : ([(envelope.header.requestId, (actor.router.handle envelope moment.now).2)].filter
        fun decided => decided.2.accepted).map Prod.fst = [envelope.header.requestId] := by
      simp [accepted]
    rw [entered]
    refine ⟨kept, capacity', ⟨?_, trivial⟩, ?_⟩
    · rw [window_of_length_le windowed.short]
      exact unseen
    · rw [router]
      exact seen
  · have entered : ([(envelope.header.requestId, (actor.router.handle envelope moment.now).2)].filter
        fun decided => decided.2.accepted).map Prod.fst = [] := by
      simp [refused]
    rw [entered]
    refine .none kept capacity' ?_
    rw [router]
    exact seen

variable (E : LinkEncoding)

theorem step_window {actor : LinkActor P} (windowed : actor.router.Windowed) (moment : Moment)
    {event : LinkEvent P} (kept : ¬ actor.Installs event) :
    WindowMoves actor (actor.step E moment event).1 (acceptedIds (actor.step E moment event).2) := by
  rcases actor.step_cases E moment event with
    ⟨moves, silent⟩ | ⟨peerId, requestId, envelope, channel, _, _, routed⟩ | ⟨installs, _⟩
  · rw [acceptedIds, silent]
    exact .moves moves windowed
  · rw [routed]
    exact routeInbound_window windowed moment peerId requestId envelope channel
  · exact absurd installs kept

theorem run_window {actor : LinkActor P} (windowed : actor.router.Windowed)
    {events : List (Moment × LinkEvent P)}
    (kept : Steps (next E) (fun actor event => ¬ actor.Installs event.2) actor events) :
    WindowMoves actor (actor.run E events).1 (acceptedIds (actor.run E events).2) := by
  induction events generalizing actor with
  | nil => exact .none windowed rfl rfl
  | cons first rest ih =>
    obtain ⟨here, later⟩ := kept
    have before := step_window E windowed first.1 here
    rw [run, acceptedIds_append]
    exact before.trans (ih before.windowed later)

/-- The window is kept in every step; a registry that is installed starts it over. -/
theorem windowed_step {actor : LinkActor P} (windowed : actor.router.Windowed) (moment : Moment)
    (event : LinkEvent P) : (actor.step E moment event).1.router.Windowed := by
  rcases actor.step_cases E moment event with
    ⟨moves, _⟩ | ⟨peerId, requestId, envelope, channel, _, _, routed⟩ | ⟨_, linked, _⟩
  · exact (WindowMoves.moves moves windowed).windowed
  · rw [routed]
    exact (routeInbound_window windowed moment peerId requestId envelope channel).windowed
  · have reset : actor.withNewRouter.router.Windowed := Router.windowed_new actor.state.nodeId
    exact (WindowMoves.moves (.linked linked) reset).windowed

theorem windowed_run {actor : LinkActor P} (windowed : actor.router.Windowed)
    (events : List (Moment × LinkEvent P)) : (actor.run E events).1.router.Windowed := by
  rw [run_eq_foldl]
  have all : Throughout (next E) (·.router.Windowed) actor events :=
    .of_invariant windowed fun _ event windowed => windowed_step E windowed event.1 event.2
  exact all.last

/-- Between two points of a run without a registry installed, a request is delivered or forwarded at most
once while fewer other requests are accepted than the window holds. -/
theorem passed_on_once (identity : NodeIdentity P) (authorization : AuthorizationRegistry)
    (bootId : Bytes) (nextSequence : UInt64) (earlier events : List (Moment × LinkEvent P))
    (kept : Steps (next E) (fun actor event => ¬ actor.Installs event.2)
      ((new identity authorization bootId nextSequence).run E earlier).1 events)
    (requestId : RequestId)
    (few : ((acceptedIds (((new identity authorization bootId nextSequence).run E earlier).1.run E
        events).2).toFinset.erase requestId).card <
      ((new identity authorization bootId nextSequence).run E earlier).1.router.seenCapacity) :
    timesPassedOn requestId
      (((new identity authorization bootId nextSequence).run E earlier).1.run E events).2 ≤ 1 := by
  have windowed := @windowed_run P E (new identity authorization bootId nextSequence)
    (Router.windowed_new identity.nodeId) earlier
  have moved := run_window E windowed kept
  have nodup := moved.fresh.nodup requestId few
  exact (timesPassedOn_le _ _).trans (List.nodup_iff_count_le_one.mp nodup requestId)

section Trio
open Transparent

theorem trio_replay_dropped :
    timesPassedOn (.ofNat 9) (((new founder trio [] 0).run linkEncoding trioConnects).1.run linkEncoding
      [trioRequest founder.nodeId, trioRequest founder.nodeId]).2 ≤ 1 :=
  passed_on_once linkEncoding founder trio [] 0 trioConnects
    [trioRequest founder.nodeId, trioRequest founder.nodeId] ⟨id, id, trivial⟩ (.ofNat 9)
    (by decide +kernel)

/-- The same request is delivered twice when a registry is installed in between. -/
theorem install_forgets_requests :
    timesPassedOn (.ofNat 9) ((new founder trio [] 0).run linkEncoding
      (trioConnects ++ [trioRequest founder.nodeId, trioInstall, trioRequest founder.nodeId])).2 = 2 ∧
    ((acceptedIds ((new founder trio [] 0).run linkEncoding
      (trioConnects ++ [trioRequest founder.nodeId, trioInstall, trioRequest founder.nodeId])).2).toFinset.erase
        (.ofNat 9)).card = 0 ∧
    (new founder trio [] 0).router.seenCapacity = 1024 := by
  decide +kernel

end Trio

end LinkActor

end Lycoris.Link
