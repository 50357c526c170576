import Lycoris.Daemon.Flooding
import Lycoris.Lib.Lists

/-!
Runs of the gossip network: what a push has done when the run is over.
-/

namespace Lycoris.Daemon
open Lib Cluster Overlay

/-! ### What a push leaves behind -/

/-- The node holds a register that is at least as new as the pushed one. -/
def ClusterSync.Holds (sync : ClusterSync) (info : ProtoNodeInfo) : Prop :=
  ∃ held, sync.service.swim.membership.get info.id = some held ∧ (protoToRegister info).orderKey ≤ held.orderKey

theorem register_holds {service : MembershipService} (owns : service.OwnsItself) {info : ProtoNodeInfo}
    (remote : info.id ≠ service.localNodeId) (env : Circumstances) :
    ∃ held, (service.register (protoToRegister info) env).1.swim.membership.get info.id = some held ∧
      (protoToRegister info).orderKey ≤ held.orderKey := by
  have merged : (service.register (protoToRegister info) env).1.swim.membership.get info.id =
      some (KeyedMap.joined MemberRegister.merge (service.swim.membership.get info.id)
        { protoToRegister info with updatedAtMs := env.nowMs }) := by
    have elsewhere : (protoToRegister info).nodeId ≠ service.swim.localNodeId := by
      rw [owns.named]
      exact remote
    rw [MembershipService.register, MembershipService.persist_swim]
    show (service.swim.handleAliveState _ env.nowMs).1.membership.get info.id = _
    rw [Swim.handleAliveState, if_neg elsewhere]
    rw [Membership.get_mergeRegister]
    exact if_pos rfl
  refine ⟨_, merged, ?_⟩
  cases service.swim.membership.get info.id with
  | none => exact le_refl (protoToRegister info).orderKey
  | some existing => exact existing.orderKey_le_merge_right { protoToRegister info with updatedAtMs := env.nowMs }

/-- The task of an accepted push. -/
def PushNode.task (push : PushNode) : List Job := [.merge push.info, .push push]

/-- A running node that has merged, or is about to merge, what entered its window from others. -/
structure ClusterSync.Merges (key : String × UInt64) (node : NodeId) (sync : ClusterSync)
    (entered : List PushNode) : Prop where
  localNode : sync.localNode = node
  owns : sync.service.OwnsItself
  named : sync.service.localNodeId = nodeIdText node
  merged : ∀ push ∈ entered, push.key = key → push.origin ≠ nodeIdText node → push.info.id ≠ nodeIdText node →
    push.task ∈ sync.tasks ∨ sync.Holds push.info

namespace ClusterSync.Merges

variable {key : String × UInt64} {node : NodeId} {sync : ClusterSync} {entered : List PushNode}
  (merges : Merges key node sync entered)
include merges

/-- Another state of the node, in which the service has made some call and the tasks have gone on. -/
theorem next {next : ClusterSync} {more : List PushNode} (localNode : next.localNode = sync.localNode)
    (owns : next.service.OwnsItself) (named : next.service.localNodeId = sync.service.localNodeId)
    (rises : Rises sync.service.swim.membership next.service.swim.membership)
    (goes : ∀ push : PushNode, push.key = key → push.info.id ≠ nodeIdText node → push.task ∈ sync.tasks →
      push.task ∈ next.tasks ∨ next.Holds push.info)
    (enters : ∀ push ∈ more, push.origin = nodeIdText node ∨ push.task ∈ next.tasks) :
    Merges key node next (entered ++ more) := by
  refine ⟨localNode.trans merges.localNode, owns, named.trans merges.named, ?_⟩
  intro push member same foreign remote
  rcases List.mem_append.mp member with earlier | new
  · rcases merges.merged push earlier same foreign remote with task | ⟨held, found, above⟩
    · exact goes push same remote task
    · obtain ⟨later, found', above'⟩ := rises push.info.id held found
      exact Or.inr ⟨later, found', above.trans above'⟩
  · exact Or.inl ((enters push new).resolve_left foreign)

/-- The tasks have gone on, the service is as it was. -/
theorem tasks {next : ClusterSync} {more : List PushNode} (localNode : next.localNode = sync.localNode)
    (service : next.service = sync.service)
    (goes : ∀ push : PushNode, push.key = key → push.task ∈ sync.tasks → push.task ∈ next.tasks)
    (enters : ∀ push ∈ more, push.origin = nodeIdText node ∨ push.task ∈ next.tasks) :
    Merges key node next (entered ++ more) := by
  refine merges.next localNode (service ▸ merges.owns) (service ▸ rfl) (service ▸ .refl _) ?_ enters
  exact fun push same _ task => Or.inl (goes push same task)

theorem own_push (info : ProtoNodeInfo) : ∀ push ∈ sync.entering (sync.nextPush info), push.origin = nodeIdText node := by
  intro push member
  rw [List.mem_singleton.mp (GossipNetwork.entering_subset _ _ member)]
  exact congrArg nodeIdText merges.localNode

end ClusterSync.Merges

namespace GossipNetwork

variable (blake3 : Cluster.Bytes → Cluster.Hash)

include blake3 in
/-- Every job leaves the service as it is or makes one call of it. -/
theorem perform_service {sync : ClusterSync} (owns : sync.service.OwnsItself) (moment : Moment) (job : Job) :
    (sync.perform moment job).sync.service.OwnsItself ∧
      (sync.perform moment job).sync.service.localNodeId = sync.service.localNodeId ∧
      Rises sync.service.swim.membership (sync.perform moment job).sync.service.swim.membership := by
  have called : ∀ call, (sync.service.step blake3 moment.env call).OwnsItself ∧
      (sync.service.step blake3 moment.env call).localNodeId = sync.service.localNodeId ∧
      Rises sync.service.swim.membership (sync.service.step blake3 moment.env call).swim.membership :=
    fun call => ⟨owns.step blake3 moment.env call, (owns.advance blake3 moment.env call).1,
      (owns.step_forward blake3 moment.env call).1⟩
  have same : sync.service.OwnsItself ∧ sync.service.localNodeId = sync.service.localNodeId ∧
      Rises sync.service.swim.membership sync.service.swim.membership := ⟨owns, rfl, .refl _⟩
  cases job with
  | merge info => exact called (.register (protoToRegister info))
  | hear message => exact called (.onProbe sync.localNodeId message)
  | push push => exact same
  | tell message => exact same
  | act action =>
    cases action with
    | ping target seq =>
      rw [ClusterSync.perform]
      split
      · exact called (.onProbe target (.ack seq))
      · exact same
    | alive register => exact same
    | suspect nodeId incarnation => exact same
    | leave nodeId incarnation => exact same

/-- At every node something holds that holds of the node that changed and held before of the others. -/
theorem withNode_everywhere {network : GossipNetwork} {node : NodeId} {sync : ClusterSync} {entered : List PushNode}
    (holds : NodeId → ClusterSync → List PushNode → Prop)
    (before : ∀ other, holds other (network.node other) (network.entered other))
    (after : holds node sync (network.entered node ++ entered)) (other : NodeId) :
    holds other ((network.withNode node sync entered).node other)
      ((network.withNode node sync entered).entered other) := by
  unfold withNode
  dsimp only
  by_cases same : other = node
  · subst same
    rw [Function.update_self, Function.update_self]
    exact after
  · rw [Function.update_of_ne same, Function.update_of_ne same]
    exact before other

variable {key : String × UInt64} {network : GossipNetwork}

include blake3 in
theorem merges_work (merges : ∀ node, (network.node node).Merges key node (network.entered node)) (node : NodeId)
    (task : Nat) (moment : Moment) (other : NodeId) :
    ((network.work node task moment).node other).Merges key other ((network.work node task moment).entered other) := by
  have mine := merges node
  cases found : (network.node node).tasks[task]? with
  | none =>
    rw [work, found]
    exact merges other
  | some jobs =>
    cases jobs with
    | nil =>
      rw [work, found]
      refine withNode_everywhere (fun node sync entered => sync.Merges key node entered) merges ?_ other
      refine mine.tasks rfl rfl ?_ (fun push none => absurd none List.not_mem_nil)
      intro push _ listed
      refine (mem_eraseIdx_or listed task).elim (fun here => ?_) id
      rw [found] at here
      cases here
    | cons job rest =>
      rw [work, found]
      refine withNode_everywhere (fun node sync entered => sync.Merges key node entered) merges ?_ other
      obtain ⟨tasks, localNode, performs⟩ := (network.node node).perform_spec moment job
      obtain ⟨owns, named, rises⟩ := perform_service blake3 mine.owns moment job
      refine mine.next localNode owns named rises ?_ ?_
      · intro push _ remote listed
        rcases mem_set_or listed task (((network.node node).perform moment job).jobs ++ rest) with here | stays
        · -- The task of the push itself goes on with its merge.
          rw [found] at here
          obtain ⟨rfl, -⟩ := List.cons.inj (Option.some.inj here)
          refine Or.inr (register_holds mine.owns ?_ moment.env)
          rw [mine.named]
          exact remote
        · rw [tasks]
          exact Or.inl stays
      · intro push member
        left
        rcases performs with ⟨_, _, _, _, _, entered, _⟩ | ⟨info, _, _, _, _, _, entered, _⟩ |
          ⟨_, _, _, _, _, _, entered, _⟩
        · rw [entered] at member
          cases member
        · rw [entered] at member
          exact mine.own_push info push member
        · rw [entered] at member
          cases member

theorem merges_step (merges : ∀ node, (network.node node).Merges key node (network.entered node))
    {event : NetworkEvent} (keeps : Keeps key network event) (other : NodeId) :
    ((network.step blake3 event).node other).Merges key other ((network.step blake3 event).entered other) := by
  cases event with
  | call node call env =>
    have mine := merges node
    refine withNode_everywhere (fun node sync entered => sync.Merges key node entered) merges ?_ other
    refine mine.next rfl (mine.owns.step blake3 env call) (mine.owns.advance blake3 env call).1
      (mine.owns.step_forward blake3 env call).1 ?_ (fun push none => absurd none List.not_mem_nil)
    exact fun push _ _ listed => Or.inl (List.mem_append_left _ listed)
  | pushChange node info written =>
    have mine := merges node
    refine withNode_everywhere (fun node sync entered => sync.Merges key node entered) merges ?_ other
    refine mine.tasks rfl rfl ?_ (fun push member => Or.inl (mine.own_push info push member))
    exact fun push _ listed => List.mem_append_left _ listed
  | work node task moment => exact merges_work blake3 merges node task moment other
  | deliver index =>
    cases found : network.flights[index]? with
    | none =>
      rw [step, found]
      exact merges other
    | some flight =>
      obtain ⟨source, destination, message⟩ := flight
      have mine := merges destination
      rw [step, found]
      refine withNode_everywhere (fun node sync entered => sync.Merges key node entered) merges ?_ other
      cases message with
      | push push =>
        show ClusterSync.Merges key destination ((network.node destination).servePushNode push)
          (network.entered destination ++ (network.node destination).entering push)
        rw [ClusterSync.servePushNode, ClusterSync.entering]
        split
        · refine mine.tasks rfl rfl (fun told _ listed => List.mem_append_left _ listed) ?_
          intro told member
          rw [List.mem_singleton.mp member]
          exact Or.inr (List.mem_append_right _ (List.mem_singleton_self push.task))
        · exact mine.tasks rfl rfl (fun told _ listed => listed) (fun told none => absurd none List.not_mem_nil)
      | state message =>
        show ClusterSync.Merges key destination ((network.node destination).serveStateMessage message)
          (network.entered destination ++ [])
        rw [ClusterSync.serveStateMessage]
        split
        · dsimp only
          split
          · exact mine.tasks rfl rfl (fun told _ listed => List.mem_append_left _ listed)
              (fun told none => absurd none List.not_mem_nil)
          · exact mine.tasks rfl rfl (fun told _ listed => listed) (fun told none => absurd none List.not_mem_nil)
        · exact mine.tasks rfl rfl (fun told _ listed => listed) (fun told none => absurd none List.not_mem_nil)
  | lose index => exact merges other
  | abortTasks node =>
    have mine := merges node
    refine withNode_everywhere (fun node sync entered => sync.Merges key node entered) merges ?_ other
    refine mine.tasks rfl rfl ?_ (fun push none => absurd none List.not_mem_nil)
    -- An aborted push would have been waiting.
    intro push named listed
    refine absurd named (keeps push ?_)
    refine List.mem_filterMap.mpr ⟨.push push, ?_, rfl⟩
    exact List.mem_flatten.mpr ⟨push.task, listed, List.mem_cons_of_mem _ (List.mem_singleton_self _)⟩

/-! ### Runs -/

theorem Turn.entered_subset {next : GossipNetwork} (turn : Turn network next) (node : NodeId) :
    network.entered node ⊆ next.entered node := by
  rcases turn with same | ⟨_, at', _, _, _⟩ | ⟨_, _, at', _, _, _⟩ | ⟨_, _, at', _, _, _⟩ | ⟨_, _, _, at', _, _, _⟩
  · rw [same]
    exact List.Subset.refl _
  · exact at'.entered_subset node
  · exact at'.entered_subset node
  · exact at'.entered_subset node
  · exact at'.entered_subset node

theorem step_entered (event : NetworkEvent) (node : NodeId) :
    network.entered node ⊆ (network.step blake3 event).entered node := by
  rcases step_turn blake3 network event with turn | ⟨loss, _⟩
  · exact turn.entered_subset node
  · rw [loss.entered]
    exact List.Subset.refl _

theorem run_entered (events : List NetworkEvent) (node : NodeId) :
    network.entered node ⊆ (network.run blake3 events).entered node := by
  induction events generalizing network with
  | nil => exact List.Subset.refl _
  | cons event rest ih => exact List.Subset.trans (step_entered blake3 event node) ih

theorem Few.earlier (events : List NetworkEvent) (few : Few key (network.run blake3 events)) :
    Few key network := by
  intro node
  refine lt_of_le_of_lt (Finset.card_le_card (Finset.erase_subset_erase key ?_)) (few node)
  intro told member
  rw [List.mem_toFinset] at member ⊢
  exact List.map_subset _ (run_entered blake3 events node) member

/-- A broadcast goes to the nodes that are active in the registry of its moment. -/
theorem step_passed (event : NetworkEvent) (pass : NodeId × PushNode × List NodeId)
    (member : pass ∈ (network.step blake3 event).passed) :
    pass ∈ network.passed ∨ ∃ task moment, event = .work pass.1 task moment ∧
      pass.2.2 = moment.pool.authorizedNodes (network.node pass.1).localNode := by
  cases event with
  | call node call env => exact Or.inl member
  | pushChange node info written => exact Or.inl member
  | deliver index =>
    rw [step] at member
    split at member
    · exact Or.inl member
    · exact Or.inl member
  | lose index => exact Or.inl member
  | abortTasks node => exact Or.inl member
  | work node task moment =>
    change pass ∈ (network.work node task moment).passed at member
    rw [work] at member
    split at member
    · exact Or.inl member
    · exact Or.inl member
    · rename_i job rest found
      refine (List.mem_append.mp member).imp_right fun new => ?_
      obtain ⟨passed, sent, rfl⟩ := List.mem_map.mp new
      obtain ⟨_, _, performs⟩ := (network.node node).perform_spec moment job
      rcases performs with ⟨_, _, _, _, _, _, passed'⟩ | ⟨_, _, _, _, _, _, _, passed'⟩ |
        ⟨push, _, _, _, _, _, _, passed'⟩
      · rw [passed'] at sent
        cases sent
      · rw [passed'] at sent
        cases sent
      · rw [passed'] at sent
        rw [List.mem_singleton.mp sent]
        exact ⟨task, moment, rfl, rfl⟩

variable {begun : NodeId → UInt64}

theorem Sound.step (sound : Sound begun network) (few : Few key network) (event : NetworkEvent) :
    Sound begun (network.step blake3 event) :=
  (step_turn blake3 network event).elim (sound.turn few) fun fault => sound.loss fault.1

/-- A step of the network, seen through one push, is a step of the flood. -/
theorem Sound.spread_step (sound : Sound begun network) (few : Few key network) (event : NetworkEvent)
    (few' : Few key (network.step blake3 event)) :
    Flood.Step (network.spread key) ((network.step blake3 event).spread key) :=
  (step_turn blake3 network event).imp (sound.clean few few') fun fault => fault.1.fault

/-- It is a clean one when nothing of the push is lost. -/
theorem Sound.spread_clean (sound : Sound begun network) (few : Few key network) {event : NetworkEvent}
    (few' : Few key (network.step blake3 event)) (keeps : Keeps key network event) :
    Flood.Clean (network.spread key) ((network.step blake3 event).spread key) := by
  rcases step_turn blake3 network event with turn | ⟨loss, ⟨index, rfl⟩ | ⟨node, rfl⟩⟩
  · exact sound.clean few few' turn
  · refine .idle loss.fault.taken (fun _ => rfl) ?_ rfl
    cases found : network.flights[index]? with
    | none =>
      have same : network.step blake3 (.lose index) = network := by
        rw [GossipNetwork.step, List.eraseIdx_of_length_le (List.getElem?_eq_none_iff.mp found)]
      rw [same]
    | some flight =>
      obtain ⟨front, back, had, left⟩ := network.underWay_eraseIdx found
      have others : flight.pushed.toList.filter (fun told => told.2.key = key) = [] := by
        rw [List.filter_eq_nil_iff]
        intro told member named
        exact keeps flight found told (Option.mem_toList.mp member) (of_decide_eq_true named)
      have same : (network.step blake3 (.lose index)).underWay = front ++ back := left
      show (List.map _ (List.filter _ network.underWay)).Perm (List.map _ (List.filter _ _))
      rw [had, same, List.filter_append, List.filter_append, others, List.append_nil, ← List.filter_append]
  · refine .idle loss.fault.taken ?_ (.refl _) rfl
    intro other
    by_cases here : other = node
    · have none : (network.spread key).waiting other = 0 := by
        subst here
        refine List.countP_eq_zero.mpr fun push member named => ?_
        exact keeps push member (of_decide_eq_true named)
      have fewer : (((network.step blake3 (.abortTasks node)).spread key).waiting other) ≤
          (network.spread key).waiting other := loss.fault.waiting other
      rw [none] at fewer ⊢
      exact Nat.le_zero.mp fewer
    · have same : (network.step blake3 (.abortTasks node)).node other = network.node other :=
        Function.update_of_ne here _ _
      show List.countP _ ((network.step blake3 (.abortTasks node)).node other).waiting = _
      rw [same]
      rfl

theorem Quiet.sound (quiet : Quiet network) :
    Sound (fun node => (network.node node).sequence.counter) network where
  named node := (quiet.named node).1
  windowed node := by
    rw [quiet.pushes, quiet.entered]
    exact ⟨DedupSet.sound_new maxSeenPushes, rfl, trivial⟩
  sourced := by
    rintro push (⟨node, member⟩ | ⟨node, member⟩ | ⟨node, member⟩ | ⟨pass, member, _⟩)
    · rw [quiet.entered] at member
      cases member
    · rw [ClusterSync.waiting, quiet.tasks] at member
      cases member
    · rw [underWay, quiet.flights] at member
      cases member
    · rw [quiet.passed] at member
      cases member
  issued node := by
    refine ⟨0, Nat.zero_le _, (add_zero _).symm, ?_⟩
    rw [quiet.entered]
    intro push none
    cases none

theorem Quiet.unknown (quiet : Quiet network) : (network.spread key).Unknown where
  taken node := by
    rintro ⟨push, member, _⟩
    rw [quiet.entered] at member
    cases member
  waiting node := by
    show List.countP _ (network.node node).waiting = 0
    rw [ClusterSync.waiting, quiet.tasks]
    rfl
  flying := by
    show List.map _ (List.filter _ network.underWay) = []
    rw [underWay, quiet.flights]
    rfl
  passed := by
    show List.map _ (List.filter _ network.passed) = []
    rw [quiet.passed]
    rfl

theorem Quiet.merges (quiet : Quiet network) (node : NodeId) :
    (network.node node).Merges key node (network.entered node) := by
  refine ⟨(quiet.named node).1, quiet.owns node, (quiet.named node).2, ?_⟩
  rw [quiet.entered]
  intro push none
  cases none

theorem run_once (sound : Sound begun network) (once : (network.spread key).Once) {events : List NetworkEvent}
    (few : Few key (network.run blake3 events)) :
    Sound begun (network.run blake3 events) ∧ ((network.run blake3 events).spread key).Once := by
  induction events generalizing network with
  | nil => exact ⟨sound, once⟩
  | cons event rest ih =>
    have next : Few key (network.step blake3 event) := Few.earlier blake3 rest few
    have now : Few key network := Few.earlier blake3 [event] next
    exact ih (sound.step blake3 now event) (once.step (sound.spread_step blake3 now event next)) few

/-- What a run has done that lost nothing of a push. -/
structure Spread (key : String × UInt64) (network : GossipNetwork) : Prop where
  spreads : (network.spread key).Spreads
  merges : ∀ node, (network.node node).Merges key node (network.entered node)

theorem run_spread (sound : Sound begun network) (once : (network.spread key).Once) (spread : Spread key network)
    {events : List NetworkEvent} (few : Few key (network.run blake3 events))
    (keeps : Steps (step blake3) (Keeps key) network events) : Spread key (network.run blake3 events) := by
  induction events generalizing network with
  | nil => exact spread
  | cons event rest ih =>
    have next : Few key (network.step blake3 event) := Few.earlier blake3 rest few
    have now : Few key network := Few.earlier blake3 [event] next
    have clean := sound.spread_clean blake3 now next keeps.1
    exact ih (sound.step blake3 now event) (once.step (Or.inl clean))
      ⟨spread.spreads.clean once clean, merges_step blake3 spread.merges keeps.1⟩ few keeps.2

theorem run_passed (sound : Sound begun network) {events : List NetworkEvent}
    (few : Few key (network.run blake3 events)) (pass : NodeId × PushNode × List NodeId)
    (member : pass ∈ (network.run blake3 events).passed) :
    pass ∈ network.passed ∨ ∃ task moment, .work pass.1 task moment ∈ events ∧
      pass.2.2 = moment.pool.authorizedNodes pass.1 := by
  induction events generalizing network with
  | nil => exact Or.inl member
  | cons event rest ih =>
    have next : Few key (network.step blake3 event) := Few.earlier blake3 rest few
    have now : Few key network := Few.earlier blake3 [event] next
    rcases ih (sound.step blake3 now event) few member with earlier | ⟨task, moment, listed, targets⟩
    · rcases step_passed blake3 event pass earlier with before | ⟨task, moment, rfl, targets⟩
      · exact Or.inl before
      · rw [sound.named] at targets
        exact Or.inr ⟨task, moment, List.mem_cons_self, targets⟩
    · exact Or.inr ⟨task, moment, List.mem_cons_of_mem _ listed, targets⟩

theorem Few.unique (few : Few key network) (sound : Sound begun network) {push other : PushNode}
    (known : network.Known push) (known' : network.Known other) (same : push.key = other.key) : push = other := by
  obtain ⟨origin, named, member⟩ := sound.sourced push known
  obtain ⟨origin', named', member'⟩ := sound.sourced other known'
  have origins : push.origin = other.origin := (Prod.mk.inj same).1
  obtain rfl := nodeIdText_injective (named.symm.trans (origins.trans named'))
  exact List.inj_on_of_nodup_map (few.nodup sound origin) member member' same

/-- In every run in which fewer than `maxSeenPushes` other pushes enter the window of each node, one register
travels under a key, every node takes it in once at most and passes it on once at most, only after it took it
in, and no more copies are sent than there are pairs of nodes. -/
theorem push_passed_on_once (quiet : Quiet network) (events : List NetworkEvent) (key : String × UInt64)
    (few : Few key (network.run blake3 events)) :
    (∀ push other, (network.run blake3 events).Known push → (network.run blake3 events).Known other →
      push.key = key → other.key = key → push = other) ∧
    (∀ node, (((network.run blake3 events).entered node).map PushNode.key).count key ≤ 1) ∧
    (((network.run blake3 events).spread key).passed.map Prod.fst).Nodup ∧
    (∀ pass ∈ (network.run blake3 events).passed, pass.2.1.key = key →
      pass.2.1 ∈ (network.run blake3 events).entered pass.1) ∧
    ∀ members : Finset NodeId,
      (∀ pass ∈ (network.run blake3 events).passed, pass.2.1.key = key →
        pass.1 ∈ members ∧ ∀ target ∈ pass.2.2, target ∈ members) →
      ((network.run blake3 events).spread key).copies ≤ members.card * (members.card - 1) := by
  obtain ⟨sound, once⟩ := run_once blake3 quiet.sound (quiet.unknown.once) few
  have told : ∀ pass ∈ ((network.run blake3 events).spread key).passed,
      ∃ push, (pass.1, push, pass.2) ∈ (network.run blake3 events).passed ∧ push.key = key := by
    intro pass member
    obtain ⟨sent, filtered, rfl⟩ := List.mem_map.mp member
    obtain ⟨listed, named⟩ := List.mem_filter.mp filtered
    exact ⟨sent.2.1, listed, of_decide_eq_true named⟩
  refine ⟨?_, ?_, once.nodup, ?_, ?_⟩
  · intro push other known known' named named'
    exact few.unique sound known known' (named.trans named'.symm)
  · intro node
    exact List.nodup_iff_count_le_one.mp (few.nodup sound node) key
  · intro pass member named
    have passes : 0 < ((network.run blake3 events).spread key).passes pass.1 := by
      refine List.countP_pos_iff.mpr ⟨(pass.1, pass.2.2), ?_, decide_eq_true rfl⟩
      exact List.mem_map.mpr ⟨pass, List.mem_filter.mpr ⟨member, decide_eq_true named⟩, rfl⟩
    have taken : ((network.run blake3 events).spread key).taken pass.1 := by
      by_contra untaken
      have none := once.none pass.1 untaken
      omega
    obtain ⟨push, entered, same⟩ := taken
    have equal := few.unique sound (Or.inl ⟨pass.1, entered⟩) (known_passed member) (same.trans named.symm)
    exact equal ▸ entered
  · intro members inside
    refine once.copies_le members ?_ ?_
    · intro pass member
      obtain ⟨push, listed, named⟩ := told pass member
      exact inside _ listed named
    · intro pass member
      obtain ⟨push, listed, _⟩ := told pass member
      rcases run_passed blake3 quiet.sound few _ listed with before | ⟨task, moment, _, targets⟩
      · rw [quiet.passed] at before
        cases before
      · change pass.2 = moment.pool.authorizedNodes pass.1 at targets
        rw [targets]
        exact ⟨OverlayPool.nodup_authorizedNodes pass.1 rfl,
          fun self => moment.pool.ne_local_of_authorized pass.1 self rfl⟩

/-- Nothing of the push is under way or waits any more. -/
def Settled (key : String × UInt64) (network : GossipNetwork) : Prop :=
  (∀ node, ∀ push ∈ (network.node node).waiting, push.key ≠ key) ∧ ∀ flight ∈ network.underWay, flight.2.key ≠ key

/-- In every such run in which no copy of the push is lost and no node with a copy left to pass on shuts down,
every node that took the push in has broadcast it once all is settled; every node that was active in the registry
it used then has taken the push in as well, and holds a register at least as new. -/
theorem push_reaches_active_nodes (quiet : Quiet network) (events : List NetworkEvent) (key : String × UInt64)
    (few : Few key (network.run blake3 events)) (keeps : Steps (step blake3) (Keeps key) network events)
    (settled : Settled key (network.run blake3 events)) (node : NodeId) (push : PushNode)
    (taken : push ∈ (network.run blake3 events).entered node) (named : push.key = key) :
    ∃ task moment, .work node task moment ∈ events ∧
      (node, push, moment.pool.authorizedNodes node) ∈ (network.run blake3 events).passed ∧
      ∀ other, other ≠ node → (∃ record, moment.registry.status other = .active record) →
        push ∈ (network.run blake3 events).entered other ∧
          (push.origin ≠ nodeIdText other → push.info.id ≠ nodeIdText other →
            ((network.run blake3 events).node other).Holds push.info) := by
  obtain ⟨sound, once⟩ := run_once blake3 quiet.sound (quiet.unknown.once) few
  obtain ⟨spreads, merges⟩ := run_spread blake3 quiet.sound quiet.unknown.once
    ⟨quiet.unknown.spreads, quiet.merges⟩ few keeps
  have done : ∀ other, ((network.run blake3 events).spread key).waiting other = 0 := fun other =>
    List.countP_eq_zero.mpr fun told member same => settled.1 other told member (of_decide_eq_true same)
  have landed : ((network.run blake3 events).spread key).flying = [] := by
    refine List.map_eq_nil_iff.mpr (List.filter_eq_nil_iff.mpr ?_)
    exact fun flight member same => settled.2 flight member (of_decide_eq_true same)
  have passes := spreads.passes node ⟨push, taken, named⟩
  rw [done, zero_add] at passes
  obtain ⟨pass, member, same⟩ := List.countP_pos_iff.mp (passes ▸ Nat.one_pos)
  obtain ⟨sent, filtered, rfl⟩ := List.mem_map.mp member
  obtain ⟨listed, named'⟩ := List.mem_filter.mp filtered
  obtain ⟨passer, push', targets⟩ := sent
  obtain rfl : passer = node := of_decide_eq_true same
  obtain rfl : push' = push := few.unique sound (known_passed listed) (Or.inl ⟨passer, taken⟩)
    ((of_decide_eq_true named').trans named.symm)
  rcases run_passed blake3 quiet.sound few _ listed with before | ⟨task, moment, worked, authorized⟩
  · rw [quiet.passed] at before
    cases before
  · change targets = moment.pool.authorizedNodes passer at authorized
    subst authorized
    refine ⟨task, moment, worked, listed, ?_⟩
    intro other away active
    have target : other ∈ moment.pool.authorizedNodes passer :=
      (OverlayPool.mem_authorizedNodes passer rfl).mpr ⟨away, active⟩
    obtain ⟨held, entered, same⟩ := (spreads.arrives _ member other target).resolve_right
      fun under => absurd (landed ▸ under) List.not_mem_nil
    obtain rfl := few.unique sound (Or.inl ⟨other, entered⟩) (Or.inl ⟨passer, taken⟩) (same.trans named.symm)
    refine ⟨entered, fun foreign remote => ?_⟩
    refine ((merges other).merged held entered named foreign remote).resolve_left fun task => ?_
    refine settled.1 other held (List.mem_filterMap.mpr ⟨.push held, ?_, rfl⟩) named
    exact List.mem_flatten.mpr ⟨held.task, task, List.mem_cons_of_mem _ (List.mem_singleton_self _)⟩

/-! ### Two nodes -/

theorem Turn.entered_length {next : GossipNetwork} (turn : Turn network next) (node : NodeId) :
    (next.entered node).length ≤ (network.entered node).length + 1 := by
  have grows : ∀ {actor : NodeId} {seen : DedupSet (String × UInt64)} {spent : UInt64} {entered : List PushNode},
      At network next actor seen spent entered → entered.length ≤ 1 →
      (next.entered node).length ≤ (network.entered node).length + 1 := by
    intro actor seen spent entered at' one
    by_cases here : node = actor
    · rw [here, at'.entered, List.length_append]
      omega
    · rw [(at'.elsewhere node here).2]
      exact Nat.le_succ _
  have one : ∀ (sync : ClusterSync) (push : PushNode), (sync.entering push).length ≤ 1 := by
    intro sync push
    unfold ClusterSync.entering
    split
    · exact le_refl _
    · exact Nat.zero_le _
  rcases turn with same | ⟨_, at', _, _, _⟩ | ⟨_, _, at', _, _, _⟩ | ⟨_, _, at', _, _, _⟩ | ⟨_, _, _, at', _, _, _⟩
  · rw [same]
    exact Nat.le_succ _
  · exact grows at' (Nat.zero_le _)
  · exact grows at' (one _ _)
  · exact grows at' (one _ _)
  · exact grows at' (Nat.zero_le _)

theorem run_entered_length (events : List NetworkEvent) (node : NodeId) :
    ((network.run blake3 events).entered node).length ≤ (network.entered node).length + events.length := by
  induction events generalizing network with
  | nil => exact le_refl _
  | cons event rest ih =>
    have head : ((network.step blake3 event).entered node).length ≤ (network.entered node).length + 1 := by
      rcases step_turn blake3 network event with turn | ⟨loss, _⟩
      · exact turn.entered_length node
      · rw [loss.entered]
        exact Nat.le_succ _
    have tail : ((network.run blake3 (event :: rest)).entered node).length ≤
        ((network.step blake3 event).entered node).length + rest.length := ih
    rw [List.length_cons]
    omega

/-- No window loses anything in a run with fewer events than it is wide. -/
theorem Quiet.few (quiet : Quiet network) (events : List NetworkEvent) (short : events.length < maxSeenPushes)
    (key : String × UInt64) : Few key (network.run blake3 events) := by
  intro node
  have erased := Finset.card_erase_le (s := (((network.run blake3 events).entered node).map PushNode.key).toFinset)
    (a := key)
  have distinct := List.toFinset_card_le (((network.run blake3 events).entered node).map PushNode.key)
  have grown := network.run_entered_length blake3 events node
  rw [quiet.entered, List.length_nil, zero_add] at grown
  rw [List.length_map] at distinct
  omega

/-- The node whose state a step may change. -/
def actor (network : GossipNetwork) : NetworkEvent → Option NodeId
  | .call node _ _ => some node
  | .pushChange node _ _ => some node
  | .work node _ _ => some node
  | .deliver index => network.flights[index]?.map Flight.destination
  | .lose _ => none
  | .abortTasks node => some node

theorem step_elsewhere (network : GossipNetwork) (event : NetworkEvent) (node : NodeId)
    (away : network.actor event ≠ some node) :
    (network.step blake3 event).node node = network.node node := by
  have other : ∀ {actor : NodeId}, some actor ≠ some node → node ≠ actor :=
    fun different same => different (congrArg some same.symm)
  cases event with
  | call _ _ _ => exact Function.update_of_ne (other away) _ _
  | pushChange _ _ _ => exact Function.update_of_ne (other away) _ _
  | lose _ => rfl
  | abortTasks _ => exact Function.update_of_ne (other away) _ _
  | work _ task moment =>
    show (network.work _ task moment).node node = _
    rw [work]
    split
    · rfl
    · exact Function.update_of_ne (other away) _ _
    · exact Function.update_of_ne (other away) _ _
  | deliver index =>
    rw [actor] at away
    rw [step]
    split
    · rename_i flight found
      rw [found] at away
      exact Function.update_of_ne (other away) _ _
    · rfl

section Two
open Transparent

def calmNode (node : NodeId) : ClusterSync :=
  .new node (.new sampleBlake3 (nodeIdText node) .default (.new (nodeIdText node) "127.0.0.1:1" 1 0) (.sorted _)) ∅ ∅
    true

/-- Every node runs, and nobody knows another. -/
def calm : GossipNetwork := ⟨calmNode, [], fun _ => [], []⟩

theorem calm_quiet : calm.Quiet where
  named _ := ⟨rfl, rfl⟩
  owns node := by
    have started : MembershipService.Started sampleBlake3 (calmNode node).service :=
      .new (nodeIdText node) .default rfl rfl (.sorted _)
    exact started.ownsItself
  pushes _ := rfl
  tasks _ := rfl
  flights := rfl
  entered _ := rfl
  passed := rfl

/-- What the founder announces. -/
def announced : ProtoNodeInfo := registerToProto (.new "third" "127.0.0.1:3" 1 0)

def among (registry : AuthorizationRegistry) : Moment :=
  ⟨MembershipService.quietEnv, registry, ⟨[], []⟩, true, true, true⟩

/-- The founder announces a register to the member, which knows nobody to pass it on to. -/
def announcement : List NetworkEvent :=
  [.pushChange founder.nodeId announced true, .work founder.nodeId 0 (among echoRegistry), .deliver 0,
    .work member.nodeId 0 (among (.new cluster)), .work member.nodeId 0 (among (.new cluster))]

theorem announcement_actors : actors (step sampleBlake3) actor calm announcement =
    [founder.nodeId, founder.nodeId, member.nodeId, member.nodeId, member.nodeId] := by decide +kernel

def announcedPush : PushNode := (calmNode founder.nodeId).nextPush announced

theorem announcement_few (key : String × UInt64) : Few key (calm.run sampleBlake3 announcement) :=
  calm_quiet.few sampleBlake3 announcement (by decide) key

theorem announcement_settled : Settled announcedPush.key (calm.run sampleBlake3 announcement) := by
  have founderDone : ((calm.run sampleBlake3 announcement).node founder.nodeId).waiting.isEmpty = true := by
    decide +kernel
  have memberDone : ((calm.run sampleBlake3 announcement).node member.nodeId).waiting.isEmpty = true := by
    decide +kernel
  have landed : (calm.run sampleBlake3 announcement).flights.isEmpty = true := by decide +kernel
  constructor
  · intro node push waits
    by_cases first : node = founder.nodeId
    · rw [first, List.isEmpty_iff.mp founderDone] at waits
      cases waits
    by_cases second : node = member.nodeId
    · rw [second, List.isEmpty_iff.mp memberDone] at waits
      cases waits
    have still : (calm.run sampleBlake3 announcement).node node = calm.node node :=
      foldl_elsewhere (step sampleBlake3) actor GossipNetwork.node (step_elsewhere sampleBlake3)
        (by rw [announcement_actors]; simp [first, second])
    rw [still] at waits
    cases waits
  · intro flight under
    rw [underWay, List.isEmpty_iff.mp landed] at under
    cases under

theorem announcement_taken : announcedPush ∈ (calm.run sampleBlake3 announcement).entered founder.nodeId := by
  show announcedPush ∈ ((calm.step sampleBlake3 (.pushChange founder.nodeId announced true)).run sampleBlake3
    announcement.tail).entered founder.nodeId
  refine run_entered sampleBlake3 announcement.tail founder.nodeId ?_
  have entering : (calmNode founder.nodeId).entering announcedPush = [announcedPush] :=
    Few.unused (announcement_few announcedPush.key |>.earlier sampleBlake3) calm_quiet.sound founder.nodeId announced
  show announcedPush ∈ Function.update calm.entered founder.nodeId ([] ++ _) founder.nodeId
  rw [Function.update_self, List.nil_append]
  exact entering ▸ List.mem_singleton_self announcedPush

/-- The member holds the register that the founder announced. -/
theorem announcement_reaches_member :
    announcedPush ∈ (calm.run sampleBlake3 announcement).entered member.nodeId ∧
      ((calm.run sampleBlake3 announcement).node member.nodeId).Holds announced := by
  obtain ⟨task, moment, worked, _, reaches⟩ := push_reaches_active_nodes sampleBlake3 calm_quiet announcement
    announcedPush.key (announcement_few _) ⟨trivial, trivial, trivial, trivial, trivial, trivial⟩
    announcement_settled founder.nodeId announcedPush announcement_taken rfl
  have other : member.nodeId ≠ founder.nodeId := by decide +kernel
  obtain rfl : moment = among echoRegistry := by
    simp only [announcement, List.mem_cons, NetworkEvent.work.injEq, reduceCtorEq, false_or, List.not_mem_nil,
      or_false, other.symm, false_and] at worked
    exact worked.2.2
  obtain ⟨taken, holds⟩ := reaches member.nodeId other ⟨admission, by decide +kernel⟩
  exact ⟨taken, holds (by decide +kernel) (by decide +kernel)⟩

theorem announcement_passed_once :
    (((calm.run sampleBlake3 announcement).entered member.nodeId).map PushNode.key).count announcedPush.key ≤ 1 :=
  (push_passed_on_once sampleBlake3 calm_quiet announcement announcedPush.key (announcement_few _)).2.1 member.nodeId

end Two

end GossipNetwork

end Lycoris.Daemon
