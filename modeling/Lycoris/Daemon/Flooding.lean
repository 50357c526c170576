import Lycoris.Daemon.Gossip

/-!
How a push spreads. The steps of the network, seen through one push, are the steps of a flood with
duplicate suppression, as long as the windows have not lost the push again: every node merges it and passes
it on at most once, and without faults it reaches everybody it is passed on to.
-/

namespace Lycoris.Daemon
open Lib Cluster Overlay

namespace ClusterSync

variable (sync : ClusterSync)

/-- The texts of the authorized peers are read back as their ids. -/
theorem candidates_eq (pool : OverlayPool) : sync.candidates pool = pool.authorizedNodes sync.localNode := by
  rw [candidates, OverlayPool.authorizedPeers, List.filterMap_map]
  have read : (parseNodeId ∘ nodeIdText) = some := by
    funext node
    exact parseNodeId_nodeIdText node
  rw [read, List.filterMap_some]

theorem waiting_spawnTask (task : List Job) :
    (sync.spawnTask task).waiting = sync.waiting ++ task.filterMap Job.pushed := by
  rw [waiting, waiting, spawnTask, List.flatten_append, List.filterMap_append, List.flatten_singleton]

theorem dispatch_pushes (actions : List SwimAction) : (dispatch actions).filterMap Job.pushed = [] := by
  rw [dispatch, List.filterMap_map, List.filterMap_eq_nil_iff]
  intro action _
  rfl

/-- A task that goes on changes what waits by its own part. -/
theorem pushed_set {tasks : List (List Job)} {task : Nat} {jobs : List Job} (found : tasks[task]? = some jobs) :
    ∃ others, (tasks.flatten.filterMap Job.pushed).Perm (jobs.filterMap Job.pushed ++ others) ∧
      ((tasks.eraseIdx task).flatten.filterMap Job.pushed).Perm others ∧
      ∀ next, ((tasks.set task next).flatten.filterMap Job.pushed).Perm (next.filterMap Job.pushed ++ others) := by
  obtain ⟨inside, same⟩ := List.getElem?_eq_some_iff.mp found
  have middle : ∀ (next : List Job) (front back : List (List Job)),
      ((front ++ next :: back).flatten.filterMap Job.pushed).Perm
        (next.filterMap Job.pushed ++ (front.flatten ++ back.flatten).filterMap Job.pushed) := by
    intro next front back
    rw [List.flatten_append, List.flatten_cons, List.filterMap_append, List.filterMap_append,
      List.filterMap_append, ← List.append_assoc, ← List.append_assoc]
    exact (List.perm_append_comm).append_right _
  refine ⟨((tasks.take task).flatten ++ (tasks.drop (task + 1)).flatten).filterMap Job.pushed, ?_, ?_, ?_⟩
  · have split : tasks = tasks.take task ++ jobs :: tasks.drop (task + 1) := by
      rw [← same, ← List.drop_eq_getElem_cons inside, List.take_append_drop]
    nth_rewrite 1 [split]
    exact middle jobs _ _
  · rw [List.eraseIdx_eq_take_drop_succ, List.flatten_append]
  · intro next
    rw [List.set_eq_take_append_cons_drop, if_pos inside]
    exact middle next _ _

/-- What a job does to the pushes: nothing, it allocates one, or it broadcasts one. -/
inductive Performs (moment : Moment) (job : Job) (done : Performed) : Prop
  | rest (silent : job.pushed = none) (seen : done.sync.seenPushes = sync.seenPushes)
      (counter : done.sync.sequence.counter = sync.sequence.counter)
      (jobs : done.jobs.filterMap Job.pushed = []) (flights : done.flights.filterMap Flight.pushed = [])
      (entered : done.entered = []) (passed : done.passed = [])
  | allocate (info : ProtoNodeInfo) (silent : job.pushed = none)
      (seen : done.sync.seenPushes = (sync.seenPushes.insert (sync.nextPush info).key).1)
      (counter : done.sync.sequence.counter = sync.sequence.counter + 1)
      (jobs : done.jobs.filterMap Job.pushed = [sync.nextPush info])
      (flights : done.flights.filterMap Flight.pushed = [])
      (entered : done.entered = sync.entering (sync.nextPush info)) (passed : done.passed = [])
  | pass (push : PushNode) (pushing : job.pushed = some push) (seen : done.sync.seenPushes = sync.seenPushes)
      (counter : done.sync.sequence.counter = sync.sequence.counter) (jobs : done.jobs = [])
      (flights : done.flights.filterMap Flight.pushed =
        (moment.pool.authorizedNodes sync.localNode).map fun target => (target, push))
      (entered : done.entered = [])
      (passed : done.passed = [(push, moment.pool.authorizedNodes sync.localNode)])

theorem counter_next (sequence : PersistedSequence) (written : Bool) :
    (sequence.next written).1.counter = sequence.counter + 1 ∧ (sequence.next written).2 = sequence.counter := by
  cases written with
  | true => exact ⟨rfl, rfl⟩
  | false => exact ⟨rfl, rfl⟩

theorem perform_spec (moment : Moment) (job : Job) :
    (sync.perform moment job).sync.tasks = sync.tasks ∧
      (sync.perform moment job).sync.localNode = sync.localNode ∧
      Performs sync moment job (sync.perform moment job) := by
  have allocates := counter_next sync.sequence moment.sequenceWritten
  cases job with
  | merge info => exact ⟨rfl, rfl, .rest rfl rfl rfl (dispatch_pushes _) rfl rfl rfl⟩
  | hear message => exact ⟨rfl, rfl, .rest rfl rfl rfl (dispatch_pushes _) rfl rfl rfl⟩
  | push push =>
    refine ⟨rfl, rfl, .pass push rfl rfl rfl rfl ?_ rfl ?_⟩
    · rw [← candidates_eq]
      show ((sync.candidates moment.pool).map fun target =>
        (⟨sync.localNode, target, .push push⟩ : Flight)).filterMap _ = _
      rw [List.filterMap_map, ← List.filterMap_eq_map]
      rfl
    · rw [← candidates_eq]
      rfl
  | tell message =>
    refine ⟨rfl, rfl, .rest rfl rfl rfl rfl ?_ rfl rfl⟩
    show ((sync.candidates moment.pool).map fun target =>
      (⟨sync.localNode, target, .state message⟩ : Flight)).filterMap _ = _
    rw [List.filterMap_map, List.filterMap_eq_nil_iff]
    intro target _
    rfl
  | act action =>
    cases action with
    | ping target seq =>
      have shape : sync.perform moment (.act (.ping target seq)) =
          if moment.answered then
            { sync.served (sync.service.onProbe target (.ack seq) moment.env) with jobs := [] }
          else ⟨sync, [], [], [], []⟩ := rfl
      rw [shape]
      split
      · exact ⟨rfl, rfl, .rest rfl rfl rfl rfl rfl rfl rfl⟩
      · exact ⟨rfl, rfl, .rest rfl rfl rfl rfl rfl rfl rfl⟩
    | alive register =>
      refine ⟨rfl, rfl, .allocate (registerToProto register) rfl ?_ allocates.1 ?_ rfl rfl rfl⟩
      · show (sync.seenPushes.insert (sync.localNodeId, (sync.sequence.next moment.sequenceWritten).2)).1 = _
        rw [allocates.2]
        rfl
      · show [(⟨registerToProto register, sync.localNodeId,
          (sync.sequence.next moment.sequenceWritten).2⟩ : PushNode)] = _
        rw [allocates.2]
        rfl
    | suspect nodeId incarnation => exact ⟨rfl, rfl, .rest rfl rfl rfl rfl rfl rfl rfl⟩
    | leave nodeId incarnation => exact ⟨rfl, rfl, .rest rfl rfl rfl rfl rfl rfl rfl⟩

theorem servePushNode_spec (push : PushNode) :
    (sync.servePushNode push).localNode = sync.localNode ∧
      (sync.servePushNode push).seenPushes = (sync.seenPushes.insert push.key).1 ∧
      (sync.servePushNode push).sequence = sync.sequence ∧
      (sync.servePushNode push).waiting = sync.waiting ++ sync.entering push := by
  unfold servePushNode entering
  dsimp only
  split
  · refine ⟨rfl, rfl, rfl, ?_⟩
    rw [waiting_spawnTask]
    rfl
  · refine ⟨rfl, rfl, rfl, ?_⟩
    rw [List.append_nil]
    rfl

theorem serveStateMessage_spec (message : StateMessage) :
    (sync.serveStateMessage message).localNode = sync.localNode ∧
      (sync.serveStateMessage message).seenPushes = sync.seenPushes ∧
      (sync.serveStateMessage message).sequence = sync.sequence ∧
      (sync.serveStateMessage message).waiting = sync.waiting := by
  unfold serveStateMessage
  split
  · dsimp only
    split
    · refine ⟨rfl, rfl, rfl, ?_⟩
      rw [waiting_spawnTask]
      exact List.append_nil _
    · exact ⟨rfl, rfl, rfl, rfl⟩
  · exact ⟨rfl, rfl, rfl, rfl⟩

end ClusterSync

namespace GossipNetwork

/-! ### Turns -/

/-- A turn of one node that leaves it with the window `seen`, `spent` more numbers handed out, and `entered`
as the pushes that entered the window. -/
structure At (network next : GossipNetwork) (node : NodeId) (seen : DedupSet (String × UInt64)) (spent : UInt64)
    (entered : List PushNode) : Prop where
  elsewhere : ∀ other, other ≠ node →
    next.node other = network.node other ∧ next.entered other = network.entered other
  named : (next.node node).localNode = (network.node node).localNode
  seen : (next.node node).seenPushes = seen
  counter : (next.node node).sequence.counter = (network.node node).sequence.counter + spent
  entered : next.entered node = network.entered node ++ entered

theorem At.localNode {network next : GossipNetwork} {node : NodeId} {seen : DedupSet (String × UInt64)}
    {spent : UInt64} {entered : List PushNode} (at' : At network next node seen spent entered) (other : NodeId) :
    (next.node other).localNode = (network.node other).localNode := by
  by_cases same : other = node
  · rw [same, at'.named]
  · rw [(at'.elsewhere other same).1]

/-- What a step does to the pushes. -/
inductive Turn (network next : GossipNetwork) : Prop
  | idle (same : next = network)
  | rest (node : NodeId) (at' : At network next node (network.node node).seenPushes 0 [])
      (waiting : (next.node node).waiting.Perm (network.node node).waiting)
      (underWay : next.underWay = network.underWay) (passed : next.passed = network.passed)
  | allocate (node : NodeId) (info : ProtoNodeInfo)
      (at' : At network next node
        ((network.node node).seenPushes.insert ((network.node node).nextPush info).key).1 1
        ((network.node node).entering ((network.node node).nextPush info)))
      (waiting : (next.node node).waiting.Perm
        ((network.node node).nextPush info :: (network.node node).waiting))
      (underWay : next.underWay = network.underWay) (passed : next.passed = network.passed)
  | serve (node : NodeId) (push : PushNode)
      (at' : At network next node ((network.node node).seenPushes.insert push.key).1 0
        ((network.node node).entering push))
      (waiting : (next.node node).waiting.Perm ((network.node node).entering push ++ (network.node node).waiting))
      (underWay : network.underWay.Perm ((node, push) :: next.underWay)) (passed : next.passed = network.passed)
  | pass (node : NodeId) (push : PushNode) (moment : Moment)
      (at' : At network next node (network.node node).seenPushes 0 [])
      (waiting : (network.node node).waiting.Perm (push :: (next.node node).waiting))
      (underWay : next.underWay = network.underWay ++
        (moment.pool.authorizedNodes (network.node node).localNode).map fun target => (target, push))
      (passed : next.passed = network.passed ++
        [(node, push, moment.pool.authorizedNodes (network.node node).localNode)])

/-- A step that loses pushes. -/
structure Loss (network next : GossipNetwork) : Prop where
  node : ∀ node, (next.node node).localNode = (network.node node).localNode ∧
    (next.node node).seenPushes = (network.node node).seenPushes ∧
    (next.node node).sequence.counter = (network.node node).sequence.counter
  waiting : ∀ node, (next.node node).waiting.Sublist (network.node node).waiting
  underWay : next.underWay.Sublist network.underWay
  entered : next.entered = network.entered
  passed : next.passed = network.passed

theorem at_withNode {network next : GossipNetwork} {node : NodeId} {sync : ClusterSync} {entered : List PushNode}
    (nodes : next.node = (network.withNode node sync entered).node)
    (pushes : next.entered = (network.withNode node sync entered).entered) {spent : UInt64}
    (named : sync.localNode = (network.node node).localNode)
    (counter : sync.sequence.counter = (network.node node).sequence.counter + spent) :
    At network next node sync.seenPushes spent entered ∧ next.node node = sync := by
  have here : next.node node = sync := by
    rw [nodes]
    exact Function.update_self node sync network.node
  refine ⟨⟨?_, ?_, ?_, ?_, ?_⟩, here⟩
  · intro other away
    rw [nodes, pushes]
    exact ⟨Function.update_of_ne away _ _, Function.update_of_ne away _ _⟩
  · rw [here, named]
  · rw [here]
  · rw [here, counter]
  · rw [pushes]
    exact Function.update_self node _ network.entered

theorem work_turn (network : GossipNetwork) (node : NodeId) (task : Nat) (moment : Moment) :
    Turn network (network.work node task moment) := by
  cases found : (network.node node).tasks[task]? with
  | none => exact .idle (by rw [work, found])
  | some jobs =>
    obtain ⟨others, had, gone, goes⟩ := ClusterSync.pushed_set found
    cases jobs with
    | nil =>
      have shape : network.work node task moment = network.withNode node
          { network.node node with tasks := (network.node node).tasks.eraseIdx task } [] := by
        rw [work, found]
      obtain ⟨at', here⟩ := @at_withNode network (network.work node task moment) node
        { network.node node with tasks := (network.node node).tasks.eraseIdx task } []
        (by rw [shape]) (by rw [shape]) 0 rfl (add_zero _).symm
      refine .rest node at' ?_ (by rw [shape]; rfl) (by rw [shape]; rfl)
      rw [here]
      exact gone.trans had.symm
    | cons job rest =>
      obtain ⟨tasks, named, performs⟩ := (network.node node).perform_spec moment job
      have shape : network.work node task moment =
          { network.withNode node
              { ((network.node node).perform moment job).sync with
                tasks := ((network.node node).perform moment job).sync.tasks.set task
                  (((network.node node).perform moment job).jobs ++ rest) }
              ((network.node node).perform moment job).entered with
            flights := network.flights ++ ((network.node node).perform moment job).flights
            passed := network.passed ++ ((network.node node).perform moment job).passed.map
              fun passed => (node, passed) } := by
        rw [work, found]
      generalize (network.node node).perform moment job = done at tasks named performs shape
      have under : (network.work node task moment).underWay =
          network.underWay ++ done.flights.filterMap Flight.pushed := by
        rw [shape, underWay, underWay, ← List.filterMap_append]
      have kept : (network.work node task moment).passed =
          network.passed ++ done.passed.map fun passed => (node, passed) := by
        rw [shape]
      have turn := @at_withNode network (network.work node task moment) node
        { done.sync with tasks := done.sync.tasks.set task (done.jobs ++ rest) } done.entered
        (by rw [shape]) (by rw [shape])
      have waits : (network.work node task moment).node node =
          { done.sync with tasks := done.sync.tasks.set task (done.jobs ++ rest) } →
          ((network.work node task moment).node node).waiting.Perm
            ((done.jobs.filterMap Job.pushed ++ rest.filterMap Job.pushed) ++ others) := by
        intro here
        rw [here, ← List.filterMap_append]
        have moved := goes (done.jobs ++ rest)
        rw [← tasks] at moved
        exact moved
      rw [List.filterMap_cons] at had
      rcases performs with ⟨silent, seen, counter, jobs, flights, entered, passed⟩ |
        ⟨info, silent, seen, counter, jobs, flights, entered, passed⟩ |
        ⟨push, pushing, seen, counter, jobs, flights, entered, passed⟩
      · obtain ⟨at', here⟩ := @turn 0 named (by rw [add_zero]; exact counter)
        rw [flights, List.append_nil] at under
        rw [passed, List.map_nil, List.append_nil] at kept
        rw [silent] at had
        refine .rest node ?_ ?_ under kept
        · rw [← seen, ← entered]
          exact at'
        · have moved := waits here
          rw [jobs, List.nil_append] at moved
          exact moved.trans had.symm
      · obtain ⟨at', here⟩ := @turn 1 named counter
        rw [flights, List.append_nil] at under
        rw [passed, List.map_nil, List.append_nil] at kept
        rw [silent] at had
        refine .allocate node info ?_ ?_ under kept
        · rw [← seen, ← entered]
          exact at'
        · have moved := waits here
          rw [jobs] at moved
          exact moved.trans (had.symm.cons _)
      · obtain ⟨at', here⟩ := @turn 0 named (by rw [add_zero]; exact counter)
        rw [flights] at under
        rw [passed] at kept
        rw [pushing] at had
        refine .pass node push moment ?_ ?_ under kept
        · rw [← seen, ← entered]
          exact at'
        · have moved := waits here
          rw [jobs, List.filterMap_nil, List.nil_append] at moved
          exact had.trans (moved.symm.cons push)

/-- Nothing of the push under the key is lost. -/
def Keeps (key : String × UInt64) (network : GossipNetwork) : NetworkEvent → Prop
  | .lose index => ∀ flight ∈ network.flights[index]?, ∀ told ∈ flight.pushed, told.2.key ≠ key
  | .abortTasks node => ∀ push ∈ (network.node node).waiting, push.key ≠ key
  | _ => True

theorem underWay_eraseIdx (network : GossipNetwork) {index : Nat} {flight : Flight}
    (found : network.flights[index]? = some flight) :
    ∃ front back, network.underWay = front ++ flight.pushed.toList ++ back ∧
      (network.flights.eraseIdx index).filterMap Flight.pushed = front ++ back := by
  obtain ⟨inside, same⟩ := List.getElem?_eq_some_iff.mp found
  have split : network.flights = network.flights.take index ++ flight :: network.flights.drop (index + 1) := by
    rw [← same, ← List.drop_eq_getElem_cons inside, List.take_append_drop]
  refine ⟨(network.flights.take index).filterMap Flight.pushed,
    (network.flights.drop (index + 1)).filterMap Flight.pushed, ?_, ?_⟩
  · rw [underWay]
    nth_rewrite 1 [split]
    rw [List.filterMap_append, List.filterMap_cons, List.append_assoc]
    cases flight.pushed with
    | none => rfl
    | some told => rfl
  · rw [List.eraseIdx_eq_take_drop_succ, List.filterMap_append]

variable (blake3 : Cluster.Bytes → Cluster.Hash)

theorem deliver_turn (network : GossipNetwork) (index : Nat) :
    Turn network (network.step blake3 (.deliver index)) := by
  cases found : network.flights[index]? with
  | none => exact .idle (by rw [step, found])
  | some flight =>
    obtain ⟨source, destination, message⟩ := flight
    have shape : network.step blake3 (.deliver index) =
        { network.withNode destination ((network.node destination).serve message)
            (entering (network.node destination) message) with
          flights := network.flights.eraseIdx index } := by
      rw [step, found]
    obtain ⟨front, back, had, left⟩ := network.underWay_eraseIdx found
    have left' : (network.step blake3 (.deliver index)).underWay = front ++ back := by
      rw [shape]
      exact left
    have turn := @at_withNode network (network.step blake3 (.deliver index)) destination
      ((network.node destination).serve message) (entering (network.node destination) message)
      (by rw [shape]) (by rw [shape])
    cases message with
    | push push =>
      obtain ⟨named, seen, sequence, waiting⟩ := (network.node destination).servePushNode_spec push
      obtain ⟨at', here⟩ := @turn 0 named (by
        rw [add_zero]
        exact congrArg PersistedSequence.counter sequence)
      refine .serve destination push ?_ ?_ ?_ (by rw [shape]; rfl)
      · rw [← seen]
        exact at'
      · rw [here]
        show ((network.node destination).servePushNode push).waiting.Perm _
        rw [waiting]
        exact List.perm_append_comm
      · rw [had, left', List.append_assoc]
        exact List.perm_middle
    | state message =>
      obtain ⟨named, seen, sequence, waiting⟩ := (network.node destination).serveStateMessage_spec message
      obtain ⟨at', here⟩ := @turn 0 named (by
        rw [add_zero]
        exact congrArg PersistedSequence.counter sequence)
      refine .rest destination ?_ ?_ ?_ (by rw [shape]; rfl)
      · rw [← seen]
        exact at'
      · rw [here]
        show ((network.node destination).serveStateMessage message).waiting.Perm _
        rw [waiting]
      · rw [had, left']
        exact congrArg (· ++ back) (List.append_nil front).symm

/-- Every step is a turn, or it is a fault that loses pushes. -/
theorem step_turn (network : GossipNetwork) (event : NetworkEvent) :
    Turn network (network.step blake3 event) ∨ Loss network (network.step blake3 event) ∧
      ((∃ index, event = .lose index) ∨ ∃ node, event = .abortTasks node) := by
  cases event with
  | call node call env =>
    left
    obtain ⟨at', here⟩ := @at_withNode network (network.step blake3 (.call node call env)) node _ _ rfl rfl 0
      rfl (add_zero _).symm
    refine .rest node at' ?_ rfl rfl
    rw [here, ClusterSync.waiting_spawnTask, ClusterSync.dispatch_pushes, List.append_nil]
    exact .refl _
  | pushChange node info written =>
    left
    obtain ⟨counter, number⟩ := ClusterSync.counter_next (network.node node).sequence written
    obtain ⟨at', here⟩ := @at_withNode network (network.step blake3 (.pushChange node info written)) node _ _
      rfl rfl 1 rfl counter
    have seen : ((network.node node).pushChange info written).seenPushes =
        ((network.node node).seenPushes.insert ((network.node node).nextPush info).key).1 := by
      show ((network.node node).seenPushes.insert
        ((network.node node).localNodeId, ((network.node node).sequence.next written).2)).1 = _
      rw [number]
      rfl
    have pushed : (⟨info, (network.node node).localNodeId, ((network.node node).sequence.next written).2⟩ :
        PushNode) = (network.node node).nextPush info := by
      rw [number]
      rfl
    refine .allocate node info ?_ ?_ rfl rfl
    · rw [← seen]
      exact at'
    · rw [here]
      have waits : ((network.node node).pushChange info written).waiting =
          (network.node node).waiting ++ [(network.node node).nextPush info] := by
        rw [ClusterSync.pushChange, ClusterSync.waiting_spawnTask, ← pushed]
        rfl
      rw [waits]
      exact List.perm_append_comm
  | work node task moment => exact Or.inl (network.work_turn node task moment)
  | deliver index => exact Or.inl (deliver_turn blake3 network index)
  | lose index =>
    refine Or.inr ⟨?_, Or.inl ⟨index, rfl⟩⟩
    exact ⟨fun _ => ⟨rfl, rfl, rfl⟩, fun _ => .refl _, (List.eraseIdx_sublist _ _).filterMap _, rfl, rfl⟩
  | abortTasks node =>
    refine Or.inr ⟨?_, Or.inr ⟨node, rfl⟩⟩
    have other : ∀ other, other ≠ node → (network.step blake3 (.abortTasks node)).node other = network.node other :=
      fun other away => Function.update_of_ne away _ _
    have here : (network.step blake3 (.abortTasks node)).node node = { network.node node with tasks := [] } :=
      Function.update_self _ _ _
    refine ⟨?_, ?_, .refl _, ?_, rfl⟩
    · intro n
      by_cases same : n = node
      · subst same
        rw [here]
        exact ⟨rfl, rfl, rfl⟩
      · rw [other n same]
        exact ⟨rfl, rfl, rfl⟩
    · intro n
      by_cases same : n = node
      · subst same
        rw [here]
        exact List.nil_sublist _
      · rw [other n same]
    · show Function.update network.entered node (network.entered node ++ []) = network.entered
      rw [List.append_nil, Function.update_eq_self]

/-- Nodes keep their names. -/
theorem step_localNode (network : GossipNetwork) (event : NetworkEvent) (node : NodeId) :
    ((network.step blake3 event).node node).localNode = (network.node node).localNode := by
  rcases network.step_turn blake3 event with turn | ⟨loss, _⟩
  · cases turn with
    | idle same => rw [same]
    | rest _ at' => exact at'.localNode node
    | allocate _ _ at' => exact at'.localNode node
    | serve _ _ at' => exact at'.localNode node
    | pass _ _ _ at' => exact at'.localNode node
  · exact (loss.node node).1

theorem run_localNode (network : GossipNetwork) (events : List NetworkEvent) (node : NodeId) :
    ((network.run blake3 events).node node).localNode = (network.node node).localNode := by
  induction events generalizing network with
  | nil => rfl
  | cons event rest ih => exact (ih _).trans (network.step_localNode blake3 event node)

/-! ### Windows and numbers -/

/-- The window of a node holds the last keys that entered it, and none entered while the window held it. -/
structure Windowed (seen : DedupSet (String × UInt64)) (entered : List PushNode) : Prop where
  sound : DedupSet.Sound maxSeenPushes seen
  order : seen.order = window maxSeenPushes (entered.map PushNode.key)
  fresh : EntersFresh maxSeenPushes [] (entered.map PushNode.key)

theorem Windowed.insert {sync : ClusterSync} {entered : List PushNode} (windowed : Windowed sync.seenPushes entered)
    (push : PushNode) :
    Windowed (sync.seenPushes.insert push.key).1 (entered ++ sync.entering push) ∧
      (sync.entering push = [push] ∨ sync.entering push = [] ∧ ∃ earlier ∈ entered, earlier.key = push.key) := by
  have queues := DedupSet.queues (T := String × UInt64) maxSeenPushes
  by_cases held : push.key ∈ sync.seenPushes.inner
  · have refused := queues.refuses windowed.sound held
    have none : sync.entering push = [] := by
      rw [ClusterSync.entering, refused, if_neg Bool.false_ne_true]
    have listed := (windowed.sound.same push.key).mp held
    rw [windowed.order] at listed
    obtain ⟨earlier, member, same⟩ := List.mem_map.mp (List.mem_of_mem_drop listed)
    rw [none, List.append_nil, refused]
    exact ⟨windowed, Or.inr ⟨rfl, earlier, member, same⟩⟩
  · obtain ⟨entered', sound, moved⟩ := queues.enters windowed.sound held
    have one : sync.entering push = [push] := by
      rw [ClusterSync.entering, entered', if_pos rfl]
    have keys : (entered ++ [push]).map PushNode.key = entered.map PushNode.key ++ [push.key] := by
      rw [List.map_append, List.map_singleton]
    rw [one]
    refine ⟨⟨sound, ?_, ?_⟩, Or.inl rfl⟩
    · rw [moved, windowed.order, window_snoc, keys]
    · rw [keys]
      refine windowed.fresh.concat ⟨?_, trivial⟩
      rw [List.nil_append, window_window, ← windowed.order]
      exact mt (windowed.sound.same push.key).mpr held

/-- Too few other pushes have entered any window for this one to be lost from it. -/
def Few (key : String × UInt64) (network : GossipNetwork) : Prop :=
  ∀ node, (((network.entered node).map PushNode.key).toFinset.erase key).card < maxSeenPushes

/-- The push has entered a window, waits somewhere, is under way, or was broadcast. -/
def Known (network : GossipNetwork) (push : PushNode) : Prop :=
  (∃ node, push ∈ network.entered node) ∨ (∃ node, push ∈ (network.node node).waiting) ∨
    (∃ node, (node, push) ∈ network.underWay) ∨ ∃ pass ∈ network.passed, pass.2.1 = push

/-- Every push was allocated by the node it names, with numbers handed out one after the other from `begun`. -/
structure Sound (begun : NodeId → UInt64) (network : GossipNetwork) : Prop where
  named : ∀ node, (network.node node).localNode = node
  windowed : ∀ node, Windowed (network.node node).seenPushes (network.entered node)
  sourced : ∀ push, network.Known push →
    ∃ origin, push.origin = nodeIdText origin ∧ push ∈ network.entered origin
  issued : ∀ node, ∃ count ≤ (network.entered node).length,
    (network.node node).sequence.counter = begun node + UInt64.ofNat count ∧
    ∀ push ∈ network.entered node, push.origin = nodeIdText node →
      ∃ earlier < count, push.sequence = begun node + UInt64.ofNat earlier

section Sound

variable {begun : NodeId → UInt64} {network next : GossipNetwork} {key : String × UInt64}

theorem Few.nodup (few : Few key network) (sound : Sound begun network) (node : NodeId) :
    ((network.entered node).map PushNode.key).Nodup :=
  (sound.windowed node).fresh.nodup key (few node)

theorem Few.length_le (few : Few key network) (sound : Sound begun network) (node : NodeId) :
    (network.entered node).length ≤ maxSeenPushes := by
  have distinct := List.toFinset_card_of_nodup (few.nodup sound node)
  have erased := Finset.pred_card_le_card_erase (s := ((network.entered node).map PushNode.key).toFinset) (a := key)
  have small := few node
  rw [List.length_map] at distinct
  omega

/-- The next number of a node has not been used. -/
theorem Few.unused (few : Few key network) (sound : Sound begun network) (node : NodeId) (info : ProtoNodeInfo) :
    (network.node node).entering ((network.node node).nextPush info) = [(network.node node).nextPush info] := by
  refine ((sound.windowed node).insert _).2.resolve_right ?_
  rintro ⟨-, earlier, member, same⟩
  obtain ⟨count, most, counter, numbered⟩ := sound.issued node
  obtain ⟨origin, sequence⟩ := Prod.mk.inj same
  have own : earlier.origin = nodeIdText node := by
    rw [origin]
    exact congrArg nodeIdText (sound.named node)
  obtain ⟨index, before, number⟩ := numbered earlier member own
  have short := few.length_le sound node
  have clash : begun node + UInt64.ofNat index = begun node + UInt64.ofNat count := by
    rw [← number, ← counter]
    exact sequence
  have values := congrArg UInt64.toNat (add_left_cancel clash)
  rw [UInt64.toNat_ofNat', UInt64.toNat_ofNat', Nat.mod_eq_of_lt, Nat.mod_eq_of_lt] at values
  · omega
  · rw [maxSeenPushes] at short
    omega
  · rw [maxSeenPushes] at short
    omega

/-- At every node something holds that holds after the turn of the one and held before of the others. -/
theorem At.everywhere {node : NodeId} {seen : DedupSet (String × UInt64)} {spent : UInt64}
    {entered : List PushNode} (at' : At network next node seen spent entered)
    (holds : NodeId → ClusterSync → List PushNode → Prop)
    (before : ∀ other, holds other (network.node other) (network.entered other))
    (after : holds node (next.node node) (next.entered node)) (other : NodeId) :
    holds other (next.node other) (next.entered other) := by
  by_cases same : other = node
  · exact same ▸ after
  · obtain ⟨kept, entered⟩ := at'.elsewhere other same
    rw [kept, entered]
    exact before other

theorem At.entered_subset {node : NodeId} {seen : DedupSet (String × UInt64)} {spent : UInt64}
    {entered : List PushNode} (at' : At network next node seen spent entered) (other : NodeId) :
    network.entered other ⊆ next.entered other := by
  by_cases same : other = node
  · rw [same, at'.entered]
    exact List.subset_append_left _ _
  · rw [(at'.elsewhere other same).2]
    exact List.Subset.refl _

/-- A turn keeps the numbers in order when it allocates nothing, or the next number. -/
theorem Sound.at {node : NodeId} {seen : DedupSet (String × UInt64)} {spent : UInt64} {entered : List PushNode}
    (sound : Sound begun network) (at' : At network next node seen spent entered)
    (windowed : Windowed seen (network.entered node ++ entered))
    (known : ∀ push, next.Known push → network.Known push ∨ push.origin = nodeIdText node ∧ push ∈ entered)
    (numbered : spent = 0 ∧ (∀ push ∈ entered, network.Known push) ∨
      ∃ info, spent = 1 ∧ entered = [(network.node node).nextPush info]) : Sound begun next := by
  refine ⟨?_, ?_, ?_, ?_⟩
  · refine at'.everywhere (fun other sync _ => sync.localNode = other) sound.named ?_
    rw [at'.named]
    exact sound.named node
  · refine at'.everywhere (fun _ sync entered => Windowed sync.seenPushes entered) sound.windowed ?_
    rw [at'.seen, at'.entered]
    exact windowed
  · intro push told
    rcases known push told with before | ⟨origin, member⟩
    · obtain ⟨origin, named, member⟩ := sound.sourced push before
      exact ⟨origin, named, at'.entered_subset origin member⟩
    · refine ⟨node, origin, ?_⟩
      rw [at'.entered]
      exact List.mem_append_right _ member
  · refine at'.everywhere (fun other sync entered => ∃ count ≤ entered.length,
      sync.sequence.counter = begun other + UInt64.ofNat count ∧ ∀ push ∈ entered,
        push.origin = nodeIdText other → ∃ earlier < count, push.sequence = begun other + UInt64.ofNat earlier)
      sound.issued ?_
    obtain ⟨count, most, counter, numbers⟩ := sound.issued node
    rw [at'.entered, at'.counter, List.length_append]
    rcases numbered with ⟨rfl, before⟩ | ⟨info, rfl, rfl⟩
    · refine ⟨count, by omega, by rw [add_zero, counter], ?_⟩
      intro push member own
      rcases List.mem_append.mp member with earlier | new
      · exact numbers push earlier own
      · obtain ⟨origin, named, listed⟩ := sound.sourced push (before push new)
        obtain rfl := nodeIdText_injective (named.symm.trans own)
        exact numbers push listed own
    · refine ⟨count + 1, ?_, ?_, ?_⟩
      · rw [List.length_singleton]
        omega
      · rw [counter, UInt64.ofNat_add, add_assoc]
        rfl
      · intro push member own
        rcases List.mem_append.mp member with earlier | new
        · obtain ⟨index, before, number⟩ := numbers push earlier own
          exact ⟨index, Nat.lt_succ_of_lt before, number⟩
        · rw [List.mem_singleton.mp new]
          exact ⟨count, Nat.lt_succ_self count, counter⟩

/-- What is known after a turn was known before, or is new in a waiting broadcast. -/
theorem At.known {node : NodeId} {seen : DedupSet (String × UInt64)} {spent : UInt64} {entered : List PushNode}
    (at' : At network next node seen spent entered) {New : PushNode → Prop}
    (enters : ∀ push ∈ entered, network.Known push ∨ New push)
    (waits : ∀ push ∈ (next.node node).waiting, network.Known push ∨ New push)
    (sent : ∀ flight ∈ next.underWay, network.Known flight.2)
    (passed : ∀ pass ∈ next.passed, network.Known pass.2.1) (push : PushNode) (told : next.Known push) :
    network.Known push ∨ New push := by
  rcases told with ⟨other, member⟩ | ⟨other, member⟩ | ⟨other, member⟩ | ⟨pass, member, rfl⟩
  · by_cases same : other = node
    · rw [same, at'.entered] at member
      rcases List.mem_append.mp member with earlier | new
      · exact Or.inl (Or.inl ⟨node, earlier⟩)
      · exact enters push new
    · rw [(at'.elsewhere other same).2] at member
      exact Or.inl (Or.inl ⟨other, member⟩)
  · by_cases same : other = node
    · exact waits push (same ▸ member)
    · rw [(at'.elsewhere other same).1] at member
      exact Or.inl (Or.inr (Or.inl ⟨other, member⟩))
  · exact Or.inl (sent _ member)
  · exact Or.inl (passed pass member)

theorem known_underWay {flight : NodeId × PushNode} (member : flight ∈ network.underWay) : network.Known flight.2 :=
  Or.inr (Or.inr (Or.inl ⟨flight.1, member⟩))

theorem known_passed {pass : NodeId × PushNode × List NodeId} (member : pass ∈ network.passed) :
    network.Known pass.2.1 :=
  Or.inr (Or.inr (Or.inr ⟨pass, member, rfl⟩))

theorem known_waiting {node : NodeId} {push : PushNode} (member : push ∈ (network.node node).waiting) :
    network.Known push :=
  Or.inr (Or.inl ⟨node, member⟩)

theorem entering_subset (sync : ClusterSync) (push : PushNode) : sync.entering push ⊆ [push] := by
  unfold ClusterSync.entering
  split
  · exact List.Subset.refl _
  · exact List.nil_subset _

theorem Sound.turn (sound : Sound begun network) (few : Few key network) (turn : Turn network next) :
    Sound begun next := by
  rcases turn with same | ⟨node, at', waiting, underWay, passed⟩ | ⟨node, info, at', waiting, underWay, passed⟩ |
    ⟨node, push, at', waiting, underWay, passed⟩ | ⟨node, push, moment, at', waiting, underWay, passed⟩
  · rw [same]
    exact sound
  · have same : ∀ push, next.Known push → network.Known push ∨ False :=
      at'.known (fun _ none => absurd none List.not_mem_nil)
        (fun push member => Or.inl (known_waiting (waiting.mem_iff.mp member)))
        (fun flight member => known_underWay (underWay ▸ member)) (fun pass member => known_passed (passed ▸ member))
    refine sound.at at' ?_ (fun push told => (same push told).imp_right False.elim)
      (Or.inl ⟨rfl, fun _ none => absurd none List.not_mem_nil⟩)
    rw [List.append_nil]
    exact sound.windowed node
  · have unused := few.unused sound node info
    obtain ⟨windowed, _⟩ := (sound.windowed node).insert ((network.node node).nextPush info)
    have own : ((network.node node).nextPush info).origin = nodeIdText node := congrArg nodeIdText (sound.named node)
    refine sound.at at' windowed (at'.known ?_ ?_ (fun flight member => known_underWay (underWay ▸ member))
      fun pass member => known_passed (passed ▸ member)) (Or.inr ⟨info, rfl, unused⟩)
    · intro push new
      refine Or.inr ⟨?_, new⟩
      rw [List.mem_singleton.mp (entering_subset _ _ new)]
      exact own
    · intro push member
      rcases List.mem_cons.mp (waiting.mem_iff.mp member) with rfl | earlier
      · refine Or.inr ⟨own, ?_⟩
        rw [unused]
        exact List.mem_singleton_self _
      · exact Or.inl (known_waiting earlier)
  · have arrived : network.Known push :=
      Or.inr (Or.inr (Or.inl ⟨node, underWay.mem_iff.mpr List.mem_cons_self⟩))
    have new : ∀ told ∈ (network.node node).entering push, network.Known told := by
      intro told member
      rw [List.mem_singleton.mp (entering_subset _ _ member)]
      exact arrived
    obtain ⟨windowed, _⟩ := (sound.windowed node).insert push
    have same : ∀ told, next.Known told → network.Known told ∨ False := by
      refine at'.known (fun told member => Or.inl (new told member)) ?_ ?_
        (fun pass member => known_passed (passed ▸ member))
      · intro told member
        rcases List.mem_append.mp (waiting.mem_iff.mp member) with entered | earlier
        · exact Or.inl (new told entered)
        · exact Or.inl (known_waiting earlier)
      · exact fun flight member => known_underWay (underWay.mem_iff.mpr (List.mem_cons_of_mem _ member))
    exact sound.at at' windowed (fun told later => (same told later).imp_right False.elim) (Or.inl ⟨rfl, new⟩)
  · have same : ∀ told, next.Known told → network.Known told ∨ False := by
      refine at'.known (fun _ none => absurd none List.not_mem_nil)
        (fun told member => Or.inl (known_waiting (waiting.mem_iff.mpr (List.mem_cons_of_mem _ member)))) ?_ ?_
      · intro flight member
        rw [underWay] at member
        rcases List.mem_append.mp member with earlier | new
        · exact known_underWay earlier
        · obtain ⟨target, _, rfl⟩ := List.mem_map.mp new
          exact known_waiting (waiting.mem_iff.mpr List.mem_cons_self)
      · intro pass member
        rw [passed] at member
        rcases List.mem_append.mp member with earlier | new
        · exact known_passed earlier
        · rw [List.mem_singleton.mp new]
          exact known_waiting (waiting.mem_iff.mpr List.mem_cons_self)
    refine sound.at at' ?_ (fun told later => (same told later).imp_right False.elim)
      (Or.inl ⟨rfl, fun _ none => absurd none List.not_mem_nil⟩)
    rw [List.append_nil]
    exact sound.windowed node

theorem Sound.loss (sound : Sound begun network) (loss : Loss network next) : Sound begun next := by
  refine ⟨?_, ?_, ?_, ?_⟩
  · intro node
    rw [(loss.node node).1]
    exact sound.named node
  · intro node
    rw [(loss.node node).2.1, loss.entered]
    exact sound.windowed node
  · intro push told
    rw [loss.entered]
    refine sound.sourced push ?_
    rcases told with ⟨node, member⟩ | ⟨node, member⟩ | ⟨node, member⟩ | ⟨pass, member, rfl⟩
    · rw [loss.entered] at member
      exact Or.inl ⟨node, member⟩
    · exact known_waiting ((loss.waiting node).subset member)
    · exact known_underWay (loss.underWay.subset member)
    · exact known_passed (loss.passed ▸ member)
  · intro node
    rw [(loss.node node).2.2, loss.entered]
    exact sound.issued node

/-! ### The push as a flood -/

theorem Loss.fault (loss : Loss network next) : Flood.Fault (network.spread key) (next.spread key) where
  taken node := by
    show (∃ push ∈ next.entered node, _) ↔ _
    rw [loss.entered]
    exact Iff.rfl
  waiting node := (loss.waiting node).countP_le
  passed := by
    show List.map _ (List.filter _ next.passed) = _
    rw [loss.passed]
    rfl

theorem passed_same (passed : next.passed = network.passed) :
    (next.spread key).passed = (network.spread key).passed := by
  show List.map _ (List.filter _ next.passed) = _
  rw [passed]
  rfl

theorem flying_perm {first second : List (NodeId × PushNode)} (moved : first.Perm second) :
    ((first.filter fun flight => flight.2.key = key).map Prod.fst).Perm
      ((second.filter fun flight => flight.2.key = key).map Prod.fst) :=
  (moved.filter _).map _

theorem At.taken {node : NodeId} {seen : DedupSet (String × UInt64)} {spent : UInt64} {entered : List PushNode}
    (at' : At network next node seen spent entered) (other : NodeId) :
    (next.spread key).taken other ↔
      (network.spread key).taken other ∨ other = node ∧ ∃ push ∈ entered, push.key = key := by
  show (∃ push ∈ next.entered other, _) ↔ (∃ push ∈ network.entered other, _) ∨ _
  by_cases same : other = node
  · subst same
    rw [at'.entered]
    constructor
    · rintro ⟨push, member, named⟩
      exact (List.mem_append.mp member).imp (fun earlier => ⟨push, earlier, named⟩)
        fun new => ⟨rfl, push, new, named⟩
    · rintro (⟨push, earlier, named⟩ | ⟨_, push, new, named⟩)
      · exact ⟨push, List.mem_append_left _ earlier, named⟩
      · exact ⟨push, List.mem_append_right _ new, named⟩
  · rw [(at'.elsewhere other same).2]
    exact ⟨Or.inl, fun either => either.resolve_right fun here => same here.1⟩

theorem At.untaken (key : String × UInt64) {node : NodeId} {seen : DedupSet (String × UInt64)} {spent : UInt64} {entered : List PushNode}
    (at' : At network next node seen spent entered) (others : ∀ push ∈ entered, push.key ≠ key) (other : NodeId) :
    (next.spread key).taken other ↔ (network.spread key).taken other := by
  rw [at'.taken]
  exact or_iff_left fun here => here.2.elim fun push new => others push new.1 new.2

/-- The waiting copies change at the one node. -/
theorem At.waiting (key : String × UInt64) {node : NodeId} {seen : DedupSet (String × UInt64)} {spent : UInt64} {entered : List PushNode}
    (at' : At network next node seen spent entered) (holds : NodeId → Nat → Nat → Prop)
    (same : ∀ other copies, other ≠ node → holds other copies copies)
    (here : holds node ((next.spread key).waiting node) ((network.spread key).waiting node)) (other : NodeId) :
    holds other ((next.spread key).waiting other) ((network.spread key).waiting other) := by
  by_cases at'' : other = node
  · exact at'' ▸ here
  · have kept : (next.spread key).waiting other = (network.spread key).waiting other := by
      show List.countP _ (next.node other).waiting = _
      rw [(at'.elsewhere other at'').1]
      rfl
    rw [kept]
    exact same other _ at''

theorem flying_cons (key : String × UInt64) {node : NodeId} {push : PushNode} {first second : List (NodeId × PushNode)}
    (moved : first.Perm ((node, push) :: second)) :
    ((first.filter fun flight => flight.2.key = key).map Prod.fst).Perm
      ((if push.key = key then [node] else []) ++ (second.filter fun flight => flight.2.key = key).map Prod.fst) := by
  refine (flying_perm moved).trans ?_
  rw [List.filter_cons]
  by_cases named : push.key = key
  · rw [if_pos named, if_pos (decide_eq_true named)]
    exact .refl _
  · rw [if_neg named, if_neg (fun same => named (of_decide_eq_true same))]
    exact .refl _

theorem waiting_cons (key : String × UInt64) {push : PushNode} {first second : List PushNode} (moved : first.Perm (push :: second)) :
    (first.countP fun push => push.key = key) =
      (second.countP fun push => push.key = key) + if push.key = key then 1 else 0 := by
  rw [moved.countP_eq, List.countP_cons]
  simp only [decide_eq_true_eq]

/-- A push enters the window of a node, from there or from a flight, and waits to be passed on. -/
theorem At.enters {node : NodeId} {push : PushNode} {seen : DedupSet (String × UInt64)} {spent : UInt64}
    (at' : At network next node seen spent [push])
    (nodup : ((next.entered node).map PushNode.key).Nodup)
    (waiting : (next.node node).waiting.Perm (push :: (network.node node).waiting))
    (underWay : network.underWay.Perm next.underWay ∨ network.underWay.Perm ((node, push) :: next.underWay))
    (passed : next.passed = network.passed) : Flood.Clean (network.spread key) (next.spread key) := by
  have count := waiting_cons key waiting
  by_cases named : push.key = key
  · rw [if_pos named] at count
    refine .take node ?_ ?_ ?_ ?_ (passed_same passed)
    · rintro ⟨earlier, member, same⟩
      rw [at'.entered, List.map_append, List.map_singleton] at nodup
      refine (List.nodup_append.mp nodup).2.2 key ?_ key ?_ rfl
      · exact List.mem_map.mpr ⟨earlier, member, same⟩
      · exact List.mem_singleton.mpr named.symm
    · intro other
      rw [at'.taken]
      exact or_congr_right ⟨fun here => here.1, fun here => ⟨here, push, List.mem_singleton_self _, named⟩⟩
    · refine at'.waiting key (fun other copies before => copies = before + if other = node then 1 else 0) ?_ ?_
      · intro other copies away
        rw [if_neg away, add_zero]
      · rw [if_pos rfl]
        exact count
    · rcases underWay with same | moved
      · exact Or.inl (flying_perm same)
      · have flying := flying_cons key moved
        rw [if_pos named] at flying
        exact Or.inr flying
  · rw [if_neg named] at count
    refine .idle (at'.untaken key ?_) (at'.waiting key (fun _ copies before => copies = before)
      (fun _ _ _ => rfl) count) ?_ (passed_same passed)
    · intro other member
      rw [List.mem_singleton.mp member]
      exact named
    · rcases underWay with same | moved
      · exact flying_perm same
      · have flying := flying_cons key moved
        rw [if_neg named] at flying
        exact flying

theorem flying_pass (key : String × UInt64) {push : PushNode} {targets : List NodeId}
    (underWay : next.underWay = network.underWay ++ targets.map fun target => (target, push)) :
    (next.spread key).flying = (network.spread key).flying ++ if push.key = key then targets else [] := by
  show List.map _ (List.filter _ next.underWay) = List.map _ (List.filter _ network.underWay) ++ _
  rw [underWay, List.filter_append, List.map_append]
  congr 1
  split
  · rename_i named
    rw [List.filter_eq_self.mpr, List.map_map]
    · exact List.map_id targets
    · intro flight member
      obtain ⟨target, _, rfl⟩ := List.mem_map.mp member
      exact decide_eq_true named
  · rename_i other
    rw [List.filter_eq_nil_iff.mpr, List.map_nil]
    intro flight member
    obtain ⟨target, _, rfl⟩ := List.mem_map.mp member
    exact fun named => other (of_decide_eq_true named)

theorem passed_pass (key : String × UInt64) {node : NodeId} {push : PushNode} {targets : List NodeId}
    (passed : next.passed = network.passed ++ [(node, push, targets)]) :
    (next.spread key).passed =
      (network.spread key).passed ++ if push.key = key then [(node, targets)] else [] := by
  show List.map _ (List.filter _ next.passed) = List.map _ (List.filter _ network.passed) ++ _
  rw [passed, List.filter_append, List.map_append]
  congr 1
  split
  · rename_i named
    rw [List.filter_eq_self.mpr, List.map_singleton]
    intro told member
    rw [List.mem_singleton.mp member]
    exact decide_eq_true named
  · rename_i other
    rw [List.filter_eq_nil_iff.mpr, List.map_nil]
    intro told member
    rw [List.mem_singleton.mp member]
    exact fun named => other (of_decide_eq_true named)

/-- Seen through one push, a turn of the network is a step of the flood. -/
theorem Sound.clean (sound : Sound begun network) (few : Few key network) (few' : Few key next)
    (turn : Turn network next) : Flood.Clean (network.spread key) (next.spread key) := by
  have nodup := few'.nodup (sound.turn few turn)
  rcases turn with same | ⟨node, at', waiting, underWay, passed⟩ | ⟨node, info, at', waiting, underWay, passed⟩ |
    ⟨node, push, at', waiting, underWay, passed⟩ | ⟨node, push, moment, at', waiting, underWay, passed⟩
  · rw [same]
    exact .idle (fun _ => Iff.rfl) (fun _ => rfl) (.refl _) rfl
  · refine .idle (at'.untaken key fun _ none => absurd none List.not_mem_nil)
      (at'.waiting key (fun _ copies before => copies = before) (fun _ _ _ => rfl) (waiting.countP_eq _))
      ?_ (passed_same passed)
    exact flying_perm (by rw [underWay])
  · rw [few.unused sound node info] at at'
    exact at'.enters (nodup node) waiting (Or.inl (by rw [underWay])) passed
  · rcases ((sound.windowed node).insert push).2 with enters | ⟨refused, earlier, member, same⟩
    · rw [enters] at at' waiting
      exact at'.enters (nodup node) waiting (Or.inr underWay) passed
    · rw [refused] at at' waiting
      have untaken := at'.untaken key fun _ none => absurd none List.not_mem_nil
      have waits := at'.waiting key (fun _ copies before => copies = before) (fun _ _ _ => rfl)
        (waiting.countP_eq _)
      have flying := flying_cons key underWay
      by_cases named : push.key = key
      · rw [if_pos named] at flying
        exact .refuse node ⟨earlier, member, same.trans named⟩ untaken waits flying (passed_same passed)
      · rw [if_neg named] at flying
        exact .idle untaken waits flying (passed_same passed)
  · have untaken := at'.untaken key fun _ none => absurd none List.not_mem_nil
    have count := waiting_cons key waiting
    generalize moment.pool.authorizedNodes (network.node node).localNode = targets at underWay passed
    have flying := flying_pass key underWay
    have sent := passed_pass key passed
    by_cases named : push.key = key
    · rw [if_pos named] at count sent flying
      refine .pass node targets untaken ?_ flying sent
      refine at'.waiting key (fun other copies before => before = copies + if other = node then 1 else 0)
        ?_ ?_
      · intro other copies away
        rw [if_neg away, add_zero]
      · rw [if_pos rfl]
        exact count
    · rw [if_neg named] at count sent flying
      rw [List.append_nil] at sent flying
      refine .idle untaken (at'.waiting key (fun _ copies before => copies = before) (fun _ _ _ => rfl)
        count.symm) ?_ sent
      rw [flying]

end Sound

end GossipNetwork

end Lycoris.Daemon
