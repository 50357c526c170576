import Lycoris.Daemon.Spread

/-!
Where suspicions and leaves come from. The windows over state messages are there so that rumors do not cycle
through the graph; a node that receives one never sends it on in the first place.
-/

namespace Lycoris.Daemon
open Lib Cluster Overlay

/-- The message an action is broadcast as. -/
def OutboundAction.state : OutboundAction → Option StateMessage
  | .suspect nodeId incarnation => some (.suspect nodeId incarnation)
  | .leave nodeId incarnation => some (.leave nodeId incarnation)
  | .ping _ _ => none
  | .alive _ => none

/-- The message a job brings on its way. -/
def Job.state : Job → Option StateMessage
  | .act action => action.state
  | .tell message => some message
  | .merge _ => none
  | .hear _ => none
  | .push _ => none

/-- The message of a flight, with the node that sent it. -/
def Flight.state (flight : Flight) : Option (NodeId × StateMessage) :=
  match flight.message with
  | .push _ => none
  | .state message => some (flight.source, message)

/-- Whether an action starts a rumor. -/
def SwimAction.state (action : SwimAction) : Option StateMessage :=
  (OutboundAction.fromSwim action).bind OutboundAction.state

/-! ### What the failure detector answers -/

namespace Swim

theorem refuteAndBroadcast_silent (swim : Swim) (nowMs : Int) :
    ∀ action ∈ (swim.refuteAndBroadcast nowMs).2, SwimAction.state action = none := by
  intro action member
  unfold Swim.refuteAndBroadcast at member
  dsimp only at member
  split at member
  · rw [List.mem_singleton.mp member]
    rfl
  · cases member

/-- No message makes the failure detector start a rumor. -/
theorem onMessage_silent (swim : Swim) (sender : String) (message : SwimMessage) (nowMs : Int) :
    ∀ action ∈ (swim.onMessage sender message nowMs).2, SwimAction.state action = none := by
  intro action member
  cases message with
  | ping seq =>
    rw [List.mem_singleton.mp member]
    rfl
  | ack seq => cases member
  | leave nodeId incarnation => cases member
  | suspect nodeId incarnation =>
    change action ∈ (swim.handleSuspectState nodeId incarnation nowMs).2 at member
    unfold Swim.handleSuspectState at member
    dsimp only at member
    split at member
    · split at member
      · split at member
        · exact refuteAndBroadcast_silent swim nowMs action member
        · cases member
      · cases member
    · split at member
      · split at member
        · cases member
        · cases member
      · cases member
  | alive register =>
    change action ∈ (swim.handleAliveState register nowMs).2 at member
    unfold Swim.handleAliveState at member
    split at member
    · unfold Swim.refuteIfDominated at member
      split at member
      · cases member
      · split at member
        · split at member
          · cases member
          · exact refuteAndBroadcast_silent swim nowMs action member
        · cases member
    · cases member

end Swim

namespace MembershipService

theorem receive_silent (service : MembershipService) (sender : String) (message : SwimMessage) (nowMs : Int) :
    ∀ action ∈ (service.receive sender message nowMs).2, SwimAction.state action = none :=
  Swim.onMessage_silent service.swim sender message nowMs

theorem syncNodes_silent (nowMs : Int) (registers : List MemberRegister)
    (acc : MembershipService × List SwimAction) (silent : ∀ action ∈ acc.2, SwimAction.state action = none) :
    ∀ action ∈ (registers.foldl (syncNode nowMs) acc).2, SwimAction.state action = none := by
  induction registers generalizing acc with
  | nil => exact silent
  | cons register rest ih =>
    refine ih _ fun action member => ?_
    rcases List.mem_append.mp member with earlier | new
    · exact silent action earlier
    · exact receive_silent acc.1 acc.1.localNodeId _ nowMs action new

/-- Only ticks and leaves start rumors. -/
theorem rumor_source (service : MembershipService) (env : Circumstances) (call : ServiceCall) {action : SwimAction}
    {message : StateMessage} (asked : action ∈ service.actions env call)
    (starts : SwimAction.state action = some message) : call = .tick ∨ ∃ nodeId, call = .leave nodeId := by
  have silent : SwimAction.state action ≠ none := by
    rw [starts]
    exact Option.some_ne_none message
  cases call with
  | register register => exact absurd (receive_silent service _ _ env.nowMs action asked) silent
  | leave nodeId => exact Or.inr ⟨nodeId, rfl⟩
  | updateLocalAnnotations annotations =>
    change action ∈ (service.updateLocalAnnotations annotations env).2 at asked
    unfold updateLocalAnnotations at asked
    split at asked
    · cases asked
    · dsimp only at asked
      split at asked
      · cases asked
      · rw [List.mem_singleton.mp asked] at silent
        exact absurd rfl silent
  | syncNodes registers =>
    exact absurd (syncNodes_silent env.nowMs registers (service, []) (fun _ none => absurd none List.not_mem_nil)
      action asked) silent
  | merkleTree => cases asked
  | onProbe sender message => exact absurd (receive_silent service sender message env.nowMs action asked) silent
  | tick => exact Or.inl rfl

end MembershipService

/-! ### Jobs -/

namespace ClusterSync

theorem dispatch_states (actions : List SwimAction) :
    (dispatch actions).filterMap Job.state = actions.filterMap SwimAction.state := by
  rw [dispatch, List.filterMap_map, List.filterMap_filterMap]
  rfl

theorem dispatch_silent {actions : List SwimAction} (silent : ∀ action ∈ actions, SwimAction.state action = none) :
    (dispatch actions).filterMap Job.state = [] := by
  rw [dispatch_states]
  exact List.filterMap_eq_nil_iff.mpr silent

/-- A job hands its own rumor on to its next job, and starts none. -/
theorem perform_jobs (sync : ClusterSync) (moment : Moment) (job : Job) {message : StateMessage}
    (left : message ∈ (sync.perform moment job).jobs.filterMap Job.state) : job.state = some message := by
  cases job with
  | merge info =>
    have silent : (sync.perform moment (.merge info)).jobs.filterMap Job.state = [] :=
      dispatch_silent (MembershipService.receive_silent sync.service _ _ _)
    rw [silent] at left
    cases left
  | hear rumor =>
    have silent : (sync.perform moment (.hear rumor)).jobs.filterMap Job.state = [] :=
      dispatch_silent (MembershipService.receive_silent sync.service _ _ _)
    rw [silent] at left
    cases left
  | push push => cases left
  | tell told => cases left
  | act action =>
    cases action with
    | ping target seq =>
      rw [perform] at left
      split at left
      · cases left
      · cases left
    | alive register => cases left
    | suspect nodeId incarnation => exact congrArg some (List.mem_singleton.mp left).symm
    | leave nodeId incarnation => exact congrArg some (List.mem_singleton.mp left).symm

/-- What a job sends is its own rumor, in the name of the node. -/
theorem perform_flights (sync : ClusterSync) (moment : Moment) (job : Job) {origin : NodeId} {message : StateMessage}
    (sent : (origin, message) ∈ (sync.perform moment job).flights.filterMap Flight.state) :
    origin = sync.localNode ∧ job.state = some message := by
  cases job with
  | merge info => cases sent
  | hear rumor => cases sent
  | push push =>
    obtain ⟨flight, member, state⟩ := List.mem_filterMap.mp sent
    obtain ⟨target, _, rfl⟩ := List.mem_map.mp member
    cases state
  | tell told =>
    obtain ⟨flight, member, state⟩ := List.mem_filterMap.mp sent
    obtain ⟨target, _, rfl⟩ := List.mem_map.mp member
    obtain ⟨rfl, rfl⟩ := Prod.mk.inj (Option.some.inj state)
    exact ⟨rfl, rfl⟩
  | act action =>
    cases action with
    | ping target seq =>
      rw [perform] at sent
      split at sent
      · cases sent
      · cases sent
    | alive register => cases sent
    | suspect nodeId incarnation => cases sent
    | leave nodeId incarnation => cases sent

end ClusterSync

/-! ### Runs -/

namespace GossipNetwork

variable (blake3 : Cluster.Bytes → Cluster.Hash) {network : GossipNetwork}

/-- A rumor that a node is about to broadcast, or that is under way from it. -/
def Rumored (network : GossipNetwork) (origin : NodeId) (message : StateMessage) : Prop :=
  (∃ task ∈ (network.node origin).tasks, message ∈ task.filterMap Job.state) ∨
    (origin, message) ∈ network.flights.filterMap Flight.state

/-- A call of the node's own that starts a rumor. -/
def Starts (network : GossipNetwork) (origin : NodeId) (message : StateMessage) : NetworkEvent → Prop
  | .call node call env =>
    node = origin ∧ (call = .tick ∨ ∃ nodeId, call = .leave nodeId) ∧
      ∃ action ∈ (network.node node).service.actions env call, SwimAction.state action = some message
  | _ => False

variable {origin : NodeId} {message : StateMessage}

/-- After a node has changed, a rumor is in one of its tasks or was there before. -/
theorem rumored_update {node : NodeId} {sync : ClusterSync} {next : GossipNetwork} (rumored : next.Rumored origin message)
    (nodes : next.node = Function.update network.node node sync)
    (flights : ∀ flight ∈ next.flights, flight ∈ network.flights ∨ flight.state ≠ some (origin, message))
    (tasks : origin = node → ∀ task ∈ sync.tasks,
      task ∈ (network.node node).tasks ∨ message ∉ task.filterMap Job.state) : network.Rumored origin message := by
  rcases rumored with ⟨task, member, carries⟩ | under
  · left
    rw [nodes] at member
    by_cases here : origin = node
    · subst here
      rw [Function.update_self] at member
      exact ⟨task, (tasks rfl task member).resolve_right fun silent => silent carries, carries⟩
    · rw [Function.update_of_ne here] at member
      exact ⟨task, member, carries⟩
  · right
    obtain ⟨flight, member, state⟩ := List.mem_filterMap.mp under
    exact List.mem_filterMap.mpr ⟨flight, (flights flight member).resolve_right fun other => other state, state⟩

theorem mem_spawnTask {sync : ClusterSync} {jobs : List Job} (silent : jobs.filterMap Job.state = []) :
    ∀ task ∈ (sync.spawnTask jobs).tasks, task ∈ sync.tasks ∨ message ∉ task.filterMap Job.state := by
  intro task member
  refine (List.mem_append.mp member).imp_right fun new => ?_
  rw [List.mem_singleton.mp new, silent]
  exact List.not_mem_nil

theorem step_rumored (named : ∀ node, (network.node node).localNode = node) (event : NetworkEvent)
    (rumored : (network.step blake3 event).Rumored origin message) :
    network.Rumored origin message ∨ network.Starts origin message event := by
  have stay : ∀ flight ∈ network.flights, flight ∈ network.flights ∨ flight.state ≠ some (origin, message) :=
    fun flight member => Or.inl member
  cases event with
  | call node call env =>
    by_cases starts : node = origin ∧
        ∃ action ∈ (network.node node).service.actions env call, SwimAction.state action = some message
    · obtain ⟨own, action, asked, state⟩ := starts
      exact Or.inr ⟨own, MembershipService.rumor_source _ env call asked state, action, asked, state⟩
    · refine Or.inl (rumored_update rumored rfl stay ?_)
      intro own task member
      refine (List.mem_append.mp member).imp_right fun new carries => starts ?_
      rw [List.mem_singleton.mp new, ClusterSync.dispatch_states] at carries
      exact ⟨own.symm, List.mem_filterMap.mp carries⟩
  | pushChange node info written =>
    refine Or.inl (rumored_update rumored rfl stay fun _ => ?_)
    rw [ClusterSync.pushChange]
    exact mem_spawnTask rfl
  | lose index =>
    left
    refine rumored.imp_right fun under => ?_
    exact ((List.eraseIdx_sublist network.flights index).filterMap Flight.state).subset under
  | abortTasks node =>
    exact Or.inl (rumored_update rumored rfl stay fun _ task none => absurd none List.not_mem_nil)
  | deliver index =>
    left
    rw [step] at rumored
    split at rumored
    · rename_i flight found
      refine rumored_update rumored rfl (fun flight member => Or.inl (List.mem_of_mem_eraseIdx member)) fun _ => ?_
      cases flight.message with
      | push push =>
        show ∀ task ∈ ((network.node flight.destination).servePushNode push).tasks, _
        rw [ClusterSync.servePushNode]
        split
        · exact mem_spawnTask rfl
        · exact fun task member => Or.inl member
      | state message =>
        show ∀ task ∈ ((network.node flight.destination).serveStateMessage message).tasks, _
        rw [ClusterSync.serveStateMessage]
        split
        · dsimp only
          split
          · exact mem_spawnTask rfl
          · exact fun task member => Or.inl member
        · exact fun task member => Or.inl member
    · exact rumored
  | work node task moment =>
    left
    change (network.work node task moment).Rumored origin message at rumored
    rw [work] at rumored
    split at rumored
    · exact rumored
    · exact rumored_update rumored rfl stay fun _ task member => Or.inl (List.mem_of_mem_eraseIdx member)
    · rename_i job rest found
      obtain ⟨tasks, _, _⟩ := (network.node node).perform_spec moment job
      have listed : job :: rest ∈ (network.node node).tasks := List.mem_of_getElem? found
      have held : ∀ waiting ∈ job :: rest, waiting.state = some message → network.Rumored node message :=
        fun waiting member state => Or.inl ⟨job :: rest, listed, List.mem_filterMap.mpr ⟨waiting, member, state⟩⟩
      -- What is new comes from this node, and its task had the rumor already.
      by_cases before : network.Rumored origin message
      · exact before
      · refine rumored_update rumored rfl ?_ ?_
        · intro flight member
          refine (List.mem_append.mp member).imp_right fun new state => before ?_
          obtain ⟨own, carries⟩ := ClusterSync.perform_flights _ moment job
            (List.mem_filterMap.mpr ⟨flight, new, state⟩)
          rw [own, named node]
          exact held job List.mem_cons_self carries
        · intro own told member
          rw [tasks] at member
          refine (List.mem_or_eq_of_mem_set member).imp_right fun same carries => before ?_
          rw [same, List.filterMap_append] at carries
          rw [own]
          rcases List.mem_append.mp carries with handed | waits
          · exact held job List.mem_cons_self (ClusterSync.perform_jobs _ moment job handed)
          · obtain ⟨later, inside, state⟩ := List.mem_filterMap.mp waits
            exact held later (List.mem_cons_of_mem job inside) state

/-- In every run, whatever is delivered and merged in it, a suspicion or leave that a node is about to broadcast
or that is under way from it was started by a tick or a leave of that node: rumors are not sent on. -/
theorem rumors_start_locally (quiet : Quiet network) (events : List NetworkEvent) (origin : NodeId)
    (message : StateMessage) (rumored : (network.run blake3 events).Rumored origin message) :
    ∃ earlier event later, events = earlier ++ event :: later ∧
      (network.run blake3 earlier).Starts origin message event := by
  induction events using List.reverseRecOn with
  | nil =>
    rcases rumored with ⟨task, member, _⟩ | under
    · change task ∈ (network.node origin).tasks at member
      rw [quiet.tasks] at member
      cases member
    · change (origin, message) ∈ network.flights.filterMap Flight.state at under
      rw [quiet.flights] at under
      cases under
  | append_singleton earlier event ih =>
    have moved : network.run blake3 (earlier ++ [event]) = (network.run blake3 earlier).step blake3 event := by
      rw [run, List.foldl_append]
      rfl
    have named : ∀ node, ((network.run blake3 earlier).node node).localNode = node := fun node =>
      (network.run_localNode blake3 earlier node).trans (quiet.named node).1
    rw [moved] at rumored
    rcases step_rumored blake3 named event rumored with before | starts
    · obtain ⟨first, source, later, rfl, starts⟩ := ih before
      exact ⟨first, source, later ++ [event], by simp, starts⟩
    · exact ⟨earlier, event, [], rfl, starts⟩

open Transparent in
/-- The founder tells that a node has left, by a call of its own. -/
theorem farewell_started :
    ∃ earlier event later, [.call founder.nodeId (.leave "third") MembershipService.quietEnv] =
      earlier ++ event :: later ∧
      (calm.run sampleBlake3 earlier).Starts founder.nodeId (.leave "third" 1) event := by
  have stranger : ((calmNode founder.nodeId).service.swim.membership.get "third").isNone = true := by decide +kernel
  have farewell : (calmNode founder.nodeId).service.actions MembershipService.quietEnv (.leave "third") =
      [.broadcast (.leave "third" 1)] := by
    show [SwimAction.broadcast (.leave "third" ((((calmNode founder.nodeId).service.swim.membership.get
      "third").map (·.incarnation)).getD 1))] = _
    rw [Option.isNone_iff_eq_none.mp stranger]
    rfl
  refine rumors_start_locally sampleBlake3 calm_quiet _ founder.nodeId (.leave "third" 1)
    (Or.inl ⟨[.act (.leave "third" 1)], ?_, List.mem_singleton_self _⟩)
  show _ ∈ (Function.update calm.node founder.nodeId _ founder.nodeId).tasks
  rw [Function.update_self]
  show [Job.act (.leave "third" 1)] ∈ [ClusterSync.dispatch ((calmNode founder.nodeId).service.actions _ _)]
  rw [farewell]
  exact List.mem_singleton_self _

end GossipNetwork

end Lycoris.Daemon
