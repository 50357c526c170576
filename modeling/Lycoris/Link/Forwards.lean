import Lycoris.Lib.Runs
import Lycoris.Link.Effects

/-!
The slots of forwarded requests. The router counts them, the actor keeps what each one waits for; the two
agree as long as no registry is installed while a forward is pending.
-/

namespace Lycoris.Link
open Lib Overlay

variable {P : Primitives}

namespace LinkActor

/-- The count of the router and the forwards that are pending agree. -/
structure Accounted (actor : LinkActor P) : Prop where
  counted : actor.router.inflight = actor.pendingForwards.size
  bounded : actor.pendingForwards.size ≤ actor.router.maxInflight
  limit : actor.router.maxInflight = Router.defaultMaxInflight
  fresh : ∀ id ∈ actor.pendingForwards, id < actor.nextOutboundId

theorem accounted_new (identity : NodeIdentity P) (authorization : AuthorizationRegistry)
    (bootId : Bytes) (nextSequence : UInt64) :
    Accounted (new identity authorization bootId nextSequence) where
  counted := rfl
  bounded := Nat.zero_le _
  limit := rfl
  fresh _ member := absurd member Std.ExtTreeMap.not_mem_empty

namespace Accounted

theorem linked {before after : LinkActor P} (accounted : Accounted before) (linked : Linked before after) :
    Accounted after := by
  obtain ⟨router, forwards, outbound⟩ := linked
  refine ⟨?_, ?_, ?_, ?_⟩
  · rw [router, forwards]
    exact accounted.counted
  · rw [router, forwards]
    exact accounted.bounded
  · rw [router]
    exact accounted.limit
  · rw [forwards]
    exact fun id member => (accounted.fresh id member).trans_le outbound

theorem release {actor : LinkActor P} (accounted : Accounted actor) {requestId : OutboundRequestId}
    (pending : requestId ∈ actor.pendingForwards) : Accounted (actor.releaseForward requestId) := by
  have size : (actor.pendingForwards.erase requestId).size = actor.pendingForwards.size - 1 := by
    rw [Std.ExtTreeMap.size_erase, if_pos (Std.ExtTreeMap.contains_iff_mem.mpr pending)]
  refine ⟨?_, ?_, accounted.limit, ?_⟩
  · show actor.router.inflight - 1 = (actor.pendingForwards.erase requestId).size
    rw [size, accounted.counted]
  · show (actor.pendingForwards.erase requestId).size ≤ actor.router.maxInflight
    have bounded := accounted.bounded
    omega
  · intro id member
    exact accounted.fresh id (Std.ExtTreeMap.mem_of_mem_erase member)

theorem moves {before after : LinkActor P} (moves : Moves before after) (accounted : Accounted before) :
    Accounted after := by
  induction moves with
  | linked linked => exact accounted.linked linked
  | release pending => exact accounted.release pending
  | trans _ _ first second => exact second (first accounted)

theorem routeInbound {actor : LinkActor P} (accounted : Accounted actor) (moment : Moment)
    (peerId : P.PeerId) (requestId : InboundRequestId) (envelope : Envelope) (channel : ResponseChannel) :
    Accounted (actor.routeInbound moment peerId requestId envelope channel).1 := by
  obtain ⟨limit, slots⟩ := actor.router.handle_slots envelope moment.now
  have same (inflight : (actor.router.handle envelope moment.now).1.inflight = actor.router.inflight) :
      Accounted { actor with router := (actor.router.handle envelope moment.now).1 } :=
    ⟨inflight.trans accounted.counted, limit ▸ accounted.bounded, limit.trans accounted.limit,
      accounted.fresh⟩
  unfold LinkActor.routeInbound
  dsimp only
  split
  · rename_i delivered decided
    rcases slots with ⟨hop, forwarded, decided', _⟩ | ⟨_, inflight⟩
    · rw [decided] at decided'
      cases decided'
    · exact (same inflight).linked (deliver_idle _ moment peerId requestId delivered channel).linked
  · rename_i hop forwarded decided
    rcases slots with ⟨_, _, _, room, inflight⟩ | ⟨none, _⟩
    · split
      · -- The next hop is not an authorized peer: the slot is given back at once.
        refine ⟨?_, limit ▸ accounted.bounded, limit.trans accounted.limit, accounted.fresh⟩
        show (actor.router.handle envelope moment.now).1.inflight - 1 = actor.pendingForwards.size
        rw [inflight, accounted.counted]
        rfl
      · rename_i nextPeer _
        have absent : actor.nextOutboundId ∉ actor.pendingForwards := fun member =>
          lt_irrefl _ (accounted.fresh _ member)
        have size : (actor.pendingForwards.insert actor.nextOutboundId
            ⟨channel, .fromRequest forwarded nextPeer⟩).size = actor.pendingForwards.size + 1 := by
          rw [Std.ExtTreeMap.size_insert, if_neg (mt Std.ExtTreeMap.contains_iff_mem.mp absent)]
        refine ⟨?_, ?_, limit.trans accounted.limit, ?_⟩
        · show (actor.router.handle envelope moment.now).1.inflight = _
          rw [inflight, accounted.counted]
          exact size.symm
        · show _ ≤ (actor.router.handle envelope moment.now).1.maxInflight
          rw [limit]
          refine size.le.trans ?_
          rw [accounted.counted] at room
          exact room
        · intro id member
          show id < actor.nextOutboundId + 1
          rcases Std.ExtTreeMap.mem_insert.mp member with same | old
          · rw [← Std.LawfulEqOrd.eq_of_compare same]
            exact Nat.lt_succ_self _
          · exact Nat.lt_succ_of_lt (accounted.fresh id old)
    · exact absurd decided (none hop forwarded)
  · rename_i reason decided
    rcases slots with ⟨hop, forwarded, decided', _⟩ | ⟨_, inflight⟩
    · rw [decided] at decided'
      cases decided'
    · exact same inflight

theorem installed {actor after : LinkActor P} (accounted : Accounted actor)
    (idle : actor.pendingForwards.size = 0) (linked : Linked actor.withNewRouter after) :
    Accounted after := by
  have reset : Accounted actor.withNewRouter :=
    ⟨idle.symm, idle.le.trans (Nat.zero_le _), rfl, accounted.fresh⟩
  exact reset.linked linked

end Accounted

theorem Accounted.step {actor : LinkActor P} (accounted : Accounted actor) (E : LinkEncoding)
    (moment : Moment) {event : LinkEvent P}
    (idle : actor.Installs event → actor.pendingForwards.size = 0) :
    Accounted (actor.step E moment event).1 := by
  rcases actor.step_cases E moment event with
    ⟨moves, _⟩ | ⟨peerId, requestId, envelope, channel, _, _, routed⟩ | ⟨installs, linked, _⟩
  · exact accounted.moves moves
  · rw [routed]
    exact accounted.routeInbound moment peerId requestId envelope channel
  · exact accounted.installed (idle installs) linked

/-! ### Whole runs -/

variable (E : LinkEncoding)

/-- One event of a run. -/
def next (actor : LinkActor P) (event : Moment × LinkEvent P) : LinkActor P :=
  (actor.step E event.1 event.2).1

theorem run_eq_foldl (actor : LinkActor P) (events : List (Moment × LinkEvent P)) :
    (actor.run E events).1 = events.foldl (next E) actor := by
  induction events generalizing actor with
  | nil => rfl
  | cons first rest ih => exact ih _

/-- A registry is installed only when no forward is pending. -/
def InstallsIdle (actor : LinkActor P) (event : Moment × LinkEvent P) : Prop :=
  actor.Installs event.2 → actor.pendingForwards.size = 0

/-- Right after a registry was installed no slot is counted, while the forwards are still pending. -/
theorem step_of_installs {actor : LinkActor P} (moment : Moment) {event : LinkEvent P}
    (installs : actor.Installs event) :
    (actor.step E moment event).1.router.inflight = 0 ∧
      (actor.step E moment event).1.pendingForwards = actor.pendingForwards := by
  cases event with
  | command command =>
    cases command with
    | commitAuthorization registry checkCluster persisted reply =>
      rcases actor.commitAuthorization_cases E moment registry checkCluster persisted reply with
        ⟨_, _, installed⟩ | ⟨refused, _⟩
      · obtain ⟨router, forwards, _⟩ := actor.installAuthorization_linked E moment registry
        rw [step, handleCommand, installed]
        dsimp only
        rw [router]
        exact ⟨rfl, forwards⟩
      · exact absurd installs refused
    | _ => exact installs.elim
  | _ => exact installs.elim

/-- What the property asks of one state. -/
def Balanced (actor : LinkActor P) : Prop :=
  actor.router.inflight = actor.pendingForwards.size ∧
    actor.pendingForwards.size ≤ Router.defaultMaxInflight

theorem Accounted.balanced {actor : LinkActor P} (accounted : Accounted actor) : Balanced actor :=
  ⟨accounted.counted, accounted.limit ▸ accounted.bounded⟩

theorem throughout_balanced_iff {actor : LinkActor P} (accounted : Accounted actor)
    (events : List (Moment × LinkEvent P)) :
    Throughout (next E) Balanced actor events ↔ Steps (next E) InstallsIdle actor events := by
  refine throughout_iff_steps Accounted accounted ?_ (fun _ => Accounted.balanced) ?_
  · exact fun actor event _ accounted idle => accounted.step E event.1 idle
  · intro actor event _ _ balanced installs
    obtain ⟨inflight, forwards⟩ := step_of_installs E event.1 installs
    rw [← forwards]
    exact balanced.1.symm.trans inflight

/-! ### A forward is over once -/

/-- A request that was sent and is not pending as a forward. -/
def Gone (requestId : OutboundRequestId) (actor : LinkActor P) : Prop :=
  requestId < actor.nextOutboundId ∧ requestId ∉ actor.pendingForwards

namespace Gone

variable {requestId : OutboundRequestId}

theorem linked {before after : LinkActor P} (gone : Gone requestId before)
    (linked : Linked before after) : Gone requestId after := by
  refine ⟨gone.1.trans_le linked.outbound, ?_⟩
  rw [linked.forwards]
  exact gone.2

theorem moves {before after : LinkActor P} (moves : Moves before after) (gone : Gone requestId before) :
    Gone requestId after := by
  induction moves with
  | linked linked => exact gone.linked linked
  | release _ => exact ⟨gone.1, fun member => gone.2 (Std.ExtTreeMap.mem_of_mem_erase member)⟩
  | trans _ _ first second => exact second (first gone)

theorem routeInbound {actor : LinkActor P} (gone : Gone requestId actor) (moment : Moment)
    (peerId : P.PeerId) (inboundId : InboundRequestId) (envelope : Envelope) (channel : ResponseChannel) :
    Gone requestId (actor.routeInbound moment peerId inboundId envelope channel).1 := by
  have kept : Gone requestId { actor with router := (actor.router.handle envelope moment.now).1 } := gone
  unfold LinkActor.routeInbound
  dsimp only
  split
  · exact kept.linked (deliver_idle _ moment peerId inboundId _ channel).linked
  · split
    · exact gone
    · refine ⟨Nat.lt_succ_of_lt gone.1, fun member => ?_⟩
      rcases Std.ExtTreeMap.mem_insert.mp member with same | old
      · exact gone.1.ne' (Std.LawfulEqOrd.eq_of_compare same)
      · exact gone.2 old
  · exact gone

theorem step {actor : LinkActor P} (gone : Gone requestId actor) (moment : Moment)
    (event : LinkEvent P) : Gone requestId (actor.step E moment event).1 := by
  rcases actor.step_cases E moment event with
    ⟨moves, _⟩ | ⟨peerId, inboundId, envelope, channel, _, _, routed⟩ | ⟨_, linked, _⟩
  · exact gone.moves moves
  · rw [routed]
    exact gone.routeInbound moment peerId inboundId envelope channel
  · have reset : Gone requestId actor.withNewRouter := gone
    exact reset.linked linked

theorem run {actor : LinkActor P} (gone : Gone requestId actor) (events : List (Moment × LinkEvent P)) :
    Gone requestId (actor.run E events).1 := by
  rw [run_eq_foldl]
  have all : Throughout (next E) (Gone requestId) actor events :=
    .of_invariant gone fun _ event gone => gone.step E event.1 event.2
  exact all.last

end Gone

/-- The slots in use are the forwards pending, at most 256, in every state of a run exactly when no
registry is installed while a forward is pending; and a forward that is over is never pending again. -/
theorem forwards_accounted (identity : NodeIdentity P) (authorization : AuthorizationRegistry)
    (bootId : Bytes) (nextSequence : UInt64) (events : List (Moment × LinkEvent P)) :
    (Throughout (next E) Balanced (new identity authorization bootId nextSequence) events ↔
      Steps (next E) InstallsIdle (new identity authorization bootId nextSequence) events) ∧
    ∀ rest requestId,
      Gone requestId ((new identity authorization bootId nextSequence).run E events).1 →
      Gone requestId (((new identity authorization bootId nextSequence).run E events).1.run E rest).1 :=
  ⟨throughout_balanced_iff E (accounted_new identity authorization bootId nextSequence) events,
    fun rest _ gone => gone.run E rest⟩

/-! ### Three authorized nodes -/

section Trio
open Transparent

def third : NodeIdentity primitives := Transparent.identity 3 3

def thirdAdmission : AuthorizationRecord :=
  signed ((AuthorizationBody.active cluster third.publicIdentity 0 .admission).setAuthorizer
    founding admission) founder

def trio : AuthorizationRegistry :=
  (AuthorizationRegistry.new cluster).replay primitives [.merge [founding, admission, thirdAdmission]]

def trioMoment : Moment := ⟨1000, 1000, true, true, by decide⟩

/-- The founder connects to both others. -/
def trioConnects : List (Moment × LinkEvent primitives) :=
  [(trioMoment, .swarm (.connectionEstablished member.peerId 1 (.dialer []))),
    (trioMoment, .swarm (.connectionEstablished third.peerId 2 (.dialer [])))]

/-- A request of the member, five seconds and four hops ahead. -/
def trioRequest (destination : NodeId) : Moment × LinkEvent primitives :=
  (trioMoment, .swarm (.request member.peerId 1
    ⟨⟨protocolVersion, cluster, .ofNat 9, member.nodeId, destination, .resource, .request, 5000, 4⟩, [1]⟩ 1))

def trioInstall : Moment × LinkEvent primitives :=
  (trioMoment, .command (.commitAuthorization trio true true 0))

/-- The forward fails, and a registry is installed after that. -/
def trioFailure : List (Moment × LinkEvent primitives) :=
  trioConnects ++ [trioRequest third.nodeId, (trioMoment, .swarm (.outboundFailure 3))]

theorem trio_failure_accounted :
    Throughout (next linkEncoding) Balanced (new founder trio [] 0) trioFailure ∧
      Gone 3 (((new founder trio [] 0).run linkEncoding trioFailure).1.run linkEncoding [trioInstall]).1 :=
  ⟨(forwards_accounted linkEncoding founder trio [] 0 trioFailure).1.mpr
      ⟨False.elim, False.elim, False.elim, False.elim, trivial⟩,
    (forwards_accounted linkEncoding founder trio [] 0 trioFailure).2 [trioInstall] 3
      ⟨by decide +kernel, by decide +kernel⟩⟩

/-- The founder forwards a request and then installs the registry it already has. -/
theorem install_forgets_slots :
    ((new founder trio [] 0).run linkEncoding
      (trioConnects ++ [trioRequest third.nodeId, trioInstall])).1.router.inflight = 0 ∧
    ((new founder trio [] 0).run linkEncoding
      (trioConnects ++ [trioRequest third.nodeId, trioInstall])).1.pendingForwards.size = 1 ∧
    ¬ Throughout (next linkEncoding) Balanced (new founder trio [] 0)
      (trioConnects ++ [trioRequest third.nodeId, trioInstall]) := by
  have counted : ((new founder trio [] 0).run linkEncoding
      (trioConnects ++ [trioRequest third.nodeId, trioInstall])).1.router.inflight = 0 := by
    decide +kernel
  have pending : ((new founder trio [] 0).run linkEncoding
      (trioConnects ++ [trioRequest third.nodeId, trioInstall])).1.pendingForwards.size = 1 := by
    decide +kernel
  refine ⟨counted, pending, fun all => ?_⟩
  have balanced := all.last.1
  rw [← run_eq_foldl, counted, pending] at balanced
  cases balanced

end Trio

end LinkActor

end Lycoris.Link
