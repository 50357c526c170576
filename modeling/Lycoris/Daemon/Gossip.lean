import Lycoris.Lib.Flood
import Lycoris.Daemon.Forwarding
import Lycoris.Daemon.ReplayWindows
import Lycoris.Daemon.Sequence
import Lycoris.Daemon.Views

/-!
Gossip between the nodes of a cluster (`daemon/src/sync/gossip.rs`, `daemon/src/sync/swim.rs`,
`daemon/src/sync/mod.rs`). A node works through its tasks job by job; every send is a flight of its own that
arrives or is lost, and the nodes, their tasks and the flights take their steps in any order.
-/

namespace Lycoris.Daemon
open Lib Cluster Overlay

def maxSeenPushes : Nat := 10000
def maxSeenStates : Nat := 10000

/-! ### Messages and actions -/

/-- A pushed register with the node that pushed it and its number there. -/
structure PushNode where
  info : ProtoNodeInfo
  origin : String
  sequence : UInt64

/-- What receivers deduplicate a push on. -/
def PushNode.key (push : PushNode) : String × UInt64 := (push.origin, push.sequence)

/-- The `StateMessage`; its payload may be missing. -/
inductive StateMessage where
  | suspect (nodeId : String) (incarnation : UInt64)
  | leave (nodeId : String) (incarnation : UInt64)
  | empty

namespace StateMessage

def key : StateMessage → Option (String × UInt64 × UInt8)
  | suspect nodeId incarnation => some (nodeId, incarnation, 1)
  | leave nodeId incarnation => some (nodeId, incarnation, 2)
  | empty => none

/-- What the failure detector is told. -/
def rumor : StateMessage → Option SwimMessage
  | suspect nodeId incarnation => some (.suspect nodeId incarnation)
  | leave nodeId incarnation => some (.leave nodeId incarnation)
  | empty => none

end StateMessage

/-- The actions that go on the wire. Acks travel in the answer to a probe. -/
inductive OutboundAction where
  | ping (target : String) (seq : UInt64)
  | alive (register : MemberRegister)
  | suspect (nodeId : String) (incarnation : UInt64)
  | leave (nodeId : String) (incarnation : UInt64)

def OutboundAction.fromSwim : SwimAction → Option OutboundAction
  | .sendPing target seq => some (.ping target seq)
  | .broadcast (.alive register) => some (.alive register)
  | .broadcast (.suspect nodeId incarnation) => some (.suspect nodeId incarnation)
  | .broadcast (.leave nodeId incarnation) => some (.leave nodeId incarnation)
  | .sendAck _ _ => none
  | .broadcast (.ping _) => none
  | .broadcast (.ack _) => none

inductive GossipMessage where
  | push (push : PushNode)
  | state (message : StateMessage)

/-- One send of a fan-out. -/
structure Flight where
  source : NodeId
  destination : NodeId
  message : GossipMessage

def Flight.pushed (flight : Flight) : Option (NodeId × PushNode) :=
  match flight.message with
  | .push push => some (flight.destination, push)
  | .state _ => none

/-! ### A node -/

/-- What is done without giving other tasks a turn. -/
inductive Job where
  /-- `serve_push_node` after the window: merge the register. -/
  | merge (info : ProtoNodeInfo)
  /-- `serve_state_message` after the window: tell the failure detector. -/
  | hear (message : SwimMessage)
  /-- One action of `dispatch`. -/
  | act (action : OutboundAction)
  /-- `broadcast_push`. -/
  | push (push : PushNode)
  /-- `broadcast_state_message`. -/
  | tell (message : StateMessage)

def Job.pushed : Job → Option PushNode
  | .push told => some told
  | _ => none

/-- `peers` are the addresses of the peer table. -/
structure ClusterSync where
  localNode : NodeId
  service : MembershipService
  peers : Finset String
  seenPushes : DedupSet (String × UInt64)
  seenStates : DedupSet (String × UInt64 × UInt8)
  sequence : PersistedSequence
  tasks : List (List Job)

/-- What a job meets outside the node: the circumstances of the service, the registry and the links of the
overlay, whether the writes of the sequence number and of the peer table succeed, and whether a probe is
answered. -/
structure Moment where
  env : Circumstances
  registry : AuthorizationRegistry
  snapshot : LinkSnapshot
  sequenceWritten : Bool
  seeded : Bool
  answered : Bool

/-- A daemon's pool has the registry of its enrollment. -/
def Moment.pool (moment : Moment) : OverlayPool := ⟨some moment.registry, moment.snapshot⟩

/-- What a job leaves: the node, the jobs it goes on with and its sends. The last two fields only record
what happened: the push whose key entered the window, and a push that was broadcast with its targets. -/
structure Performed where
  sync : ClusterSync
  jobs : List Job
  flights : List Flight
  entered : List PushNode
  passed : List (PushNode × List NodeId)

namespace ClusterSync

def new (localNode : NodeId) (service : MembershipService) (peers : Finset String) (table : StringMap)
    (readable : Bool) : ClusterSync where
  localNode := localNode
  service := service
  peers := peers
  seenPushes := .new maxSeenPushes
  seenStates := .new maxSeenStates
  sequence := .load table readable
  tasks := []

def localNodeId (sync : ClusterSync) : String := nodeIdText sync.localNode

def localAddress (sync : ClusterSync) : Option String :=
  (sync.service.swim.membership.get sync.localNodeId).map (·.address)

/-- The pushes the tasks have still to broadcast. -/
def waiting (sync : ClusterSync) : List PushNode := sync.tasks.flatten.filterMap Job.pushed

def spawnTask (sync : ClusterSync) (task : List Job) : ClusterSync :=
  { sync with tasks := sync.tasks ++ [task] }

/-- The jobs of `dispatch`. -/
def dispatch (actions : List SwimAction) : List Job :=
  (actions.filterMap OutboundAction.fromSwim).map .act

/-- The nodes a broadcast goes to. -/
def candidates (sync : ClusterSync) (pool : OverlayPool) : List NodeId :=
  (pool.authorizedPeers sync.localNode).filterMap parseNodeId

/-- The next push of this node. -/
def nextPush (sync : ClusterSync) (info : ProtoNodeInfo) : PushNode :=
  ⟨info, sync.localNodeId, sync.sequence.counter⟩

/-- Whether a push would enter the window. -/
def entering (sync : ClusterSync) (push : PushNode) : List PushNode :=
  if (sync.seenPushes.insert push.key).2 then [push] else []

/-- Takes a number and marks it as seen; the answer of the window is not looked at. -/
def allocatePush (sync : ClusterSync) (written : Bool) : ClusterSync × String × UInt64 :=
  let taken := sync.sequence.next written
  ({ sync with sequence := taken.1, seenPushes := (sync.seenPushes.insert (sync.localNodeId, taken.2)).1 },
    sync.localNodeId, taken.2)

def pushChange (sync : ClusterSync) (info : ProtoNodeInfo) (written : Bool) : ClusterSync :=
  let allocated := sync.allocatePush written
  allocated.1.spawnTask [.push ⟨info, allocated.2.1, allocated.2.2⟩]

/-- A push arrives: unless its key is in the window, it is merged and then passed on. -/
def servePushNode (sync : ClusterSync) (push : PushNode) : ClusterSync :=
  let marked := sync.seenPushes.insert push.key
  let sync := { sync with seenPushes := marked.1 }
  if marked.2 then sync.spawnTask [.merge push.info, .push push] else sync

/-- A rumor arrives: unless its key is in the window, the failure detector hears of it. -/
def serveStateMessage (sync : ClusterSync) (message : StateMessage) : ClusterSync :=
  match message.key, message.rumor with
  | some key, some rumor =>
    let marked := sync.seenStates.insert key
    let sync := { sync with seenStates := marked.1 }
    if marked.2 then sync.spawnTask [.hear rumor] else sync
  | _, _ => sync

def serve (sync : ClusterSync) : GossipMessage → ClusterSync
  | .push push => sync.servePushNode push
  | .state message => sync.serveStateMessage message

/-- The addresses after `seed`, which leaves the own address out. -/
def seed (sync : ClusterSync) (address : String) (seeded : Bool) : Finset String :=
  if address ≠ sync.localAddress.getD "" ∧ seeded then insert address sync.peers else sync.peers

/-- A job of the service: its actions are what the task goes on with. -/
def served (sync : ClusterSync) (answer : MembershipService × List SwimAction) : Performed :=
  ⟨{ sync with service := answer.1 }, dispatch answer.2, [], [], []⟩

/-- A rumor is marked as seen before it is broadcast. -/
def rumored (sync : ClusterSync) (key : String × UInt64 × UInt8) (message : StateMessage) : Performed :=
  ⟨{ sync with seenStates := (sync.seenStates.insert key).1 }, [.tell message], [], [], []⟩

def perform (sync : ClusterSync) (moment : Moment) : Job → Performed
  | .merge info =>
    served { sync with peers := sync.seed info.address moment.seeded }
      (sync.service.register (protoToRegister info) moment.env)
  | .hear message => sync.served (sync.service.onProbe sync.localNodeId message moment.env)
  | .act (.ping target seq) =>
    if moment.answered then
      { sync.served (sync.service.onProbe target (.ack seq) moment.env) with jobs := [] }
    else ⟨sync, [], [], [], []⟩
  | .act (.alive register) =>
    let info := registerToProto register
    let allocated := sync.allocatePush moment.sequenceWritten
    ⟨allocated.1, [.push ⟨info, allocated.2.1, allocated.2.2⟩], [], sync.entering (sync.nextPush info), []⟩
  | .act (.suspect nodeId incarnation) =>
    sync.rumored (nodeId, incarnation, 1) (.suspect nodeId incarnation)
  | .act (.leave nodeId incarnation) =>
    sync.rumored (nodeId, incarnation, 2) (.leave nodeId incarnation)
  | .push push =>
    let targets := sync.candidates moment.pool
    ⟨sync, [], targets.map fun target => ⟨sync.localNode, target, .push push⟩, [], [(push, targets)]⟩
  | .tell message =>
    let targets := sync.candidates moment.pool
    ⟨sync, [], targets.map fun target => ⟨sync.localNode, target, .state message⟩, [], []⟩

end ClusterSync

/-- The actions a call of the service returns. -/
def MembershipService.actions (service : MembershipService) (env : Circumstances) :
    ServiceCall → List SwimAction
  | .register register => (service.register register env).2
  | .leave nodeId => (service.leave nodeId env).2
  | .updateLocalAnnotations annotations => (service.updateLocalAnnotations annotations env).2
  | .syncNodes registers => (service.syncNodes registers env).2.2
  | .merkleTree => []
  | .onProbe sender message => (service.onProbe sender message env).2
  | .tick => (service.tick env).2

/-! ### The network -/

/-- The nodes and the flights between them. `entered` and `passed` record which pushes entered the window of
a node, oldest first, and who broadcast which push to whom. -/
structure GossipNetwork where
  node : NodeId → ClusterSync
  flights : List Flight
  entered : NodeId → List PushNode
  passed : List (NodeId × PushNode × List NodeId)

inductive NetworkEvent where
  /-- A call of the service from the node itself or its clients; its actions are dispatched. -/
  | call (node : NodeId) (call : ServiceCall) (env : Circumstances)
  | pushChange (node : NodeId) (info : ProtoNodeInfo) (written : Bool)
  | work (node : NodeId) (task : Nat) (moment : Moment)
  | deliver (flight : Nat)
  | lose (flight : Nat)
  /-- A node shuts down: its tasks are aborted. -/
  | abortTasks (node : NodeId)

namespace GossipNetwork

variable (blake3 : Cluster.Bytes → Cluster.Hash)

def withNode (network : GossipNetwork) (node : NodeId) (sync : ClusterSync) (entered : List PushNode) : GossipNetwork :=
  { network with
    node := Function.update network.node node sync
    entered := Function.update network.entered node (network.entered node ++ entered) }

/-- A task takes its next job, or is over. -/
def work (network : GossipNetwork) (node : NodeId) (task : Nat) (moment : Moment) : GossipNetwork :=
  let sync := network.node node
  match sync.tasks[task]? with
  | none => network
  | some [] => network.withNode node { sync with tasks := sync.tasks.eraseIdx task } []
  | some (job :: rest) =>
    let done := sync.perform moment job
    let next := network.withNode node
      { done.sync with tasks := done.sync.tasks.set task (done.jobs ++ rest) } done.entered
    { next with
      flights := network.flights ++ done.flights
      passed := network.passed ++ done.passed.map fun passed => (node, passed) }

/-- The push a message brings into the window of its receiver. -/
def entering (sync : ClusterSync) : GossipMessage → List PushNode
  | .push push => sync.entering push
  | .state _ => []

def step (network : GossipNetwork) : NetworkEvent → GossipNetwork
  | .call node call env =>
    let sync := network.node node
    let stepped := { sync with service := sync.service.step blake3 env call }
    network.withNode node (stepped.spawnTask (ClusterSync.dispatch (sync.service.actions env call))) []
  | .pushChange node info written =>
    let sync := network.node node
    network.withNode node (sync.pushChange info written) (sync.entering (sync.nextPush info))
  | .work node task moment => network.work node task moment
  | .deliver index =>
    match network.flights[index]? with
    | some flight =>
      let sync := network.node flight.destination
      { network.withNode flight.destination (sync.serve flight.message) (entering sync flight.message) with
        flights := network.flights.eraseIdx index }
    | none => network
  | .lose index => { network with flights := network.flights.eraseIdx index }
  | .abortTasks node => network.withNode node { network.node node with tasks := [] } []

def run (network : GossipNetwork) (events : List NetworkEvent) : GossipNetwork := events.foldl (step blake3) network

/-- Running nodes that have not gossiped yet. -/
structure Quiet (network : GossipNetwork) : Prop where
  named : ∀ node, (network.node node).localNode = node ∧
    (network.node node).service.localNodeId = nodeIdText node
  owns : ∀ node, (network.node node).service.OwnsItself
  pushes : ∀ node, (network.node node).seenPushes = .new maxSeenPushes
  tasks : ∀ node, (network.node node).tasks = []
  flights : network.flights = []
  entered : ∀ node, network.entered node = []
  passed : network.passed = []

/-- The pushes under way, with their destinations. -/
def underWay (network : GossipNetwork) : List (NodeId × PushNode) := network.flights.filterMap Flight.pushed

/-- How far the push under a key has spread. -/
def spread (network : GossipNetwork) (key : String × UInt64) : Flood NodeId where
  taken node := ∃ push ∈ network.entered node, push.key = key
  waiting node := (network.node node).waiting.countP fun push => push.key = key
  flying := (network.underWay.filter fun flight => flight.2.key = key).map Prod.fst
  passed := (network.passed.filter fun passed => passed.2.1.key = key).map fun passed => (passed.1, passed.2.2)

end GossipNetwork

end Lycoris.Daemon
