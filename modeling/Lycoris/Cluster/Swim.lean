import Lycoris.Cluster.Membership

/-!
The SWIM failure detector over the membership CRDT (`membership/src/swim.rs`). Every transition is a
function from a state to the next state and the actions it asks for. `Write` lists what a transition
may do to the membership, and each transition is shown to be a run of such writes.
-/

namespace Lycoris.Cluster
open Lib

structure SwimConfig where
  pingIntervalMs : Nat
  pingTimeoutMs : Nat
  failureThreshold : Nat
  suspectTimeoutMs : Nat

def SwimConfig.default : SwimConfig := ⟨1000, 3000, 3, 30000⟩

inductive SwimMessage where
  | ping (seq : UInt64)
  | ack (seq : UInt64)
  | suspect (nodeId : String) (incarnation : UInt64)
  | alive (register : MemberRegister)
  | leave (nodeId : String) (incarnation : UInt64)

inductive SwimAction where
  | sendPing (target : String) (seq : UInt64)
  | sendAck (recipient : String) (seq : UInt64)
  | broadcast (message : SwimMessage)

structure PendingPing where
  target : String
  sentAt : Nat

structure Swim where
  localNodeId : String
  config : SwimConfig
  membership : Membership
  consecutiveFailures : Std.ExtTreeMap String Nat compare
  sequence : UInt64
  pendingPings : Std.ExtTreeMap UInt64 PendingPing compare
  lastProbeMs : Std.ExtTreeMap String Nat compare
  suspectedSinceMs : Std.ExtTreeMap String Int compare

/-- The orders in which one tick meets the entries of its hash maps. -/
structure Iteration where
  members : HashOrder MemberRegister
  pings : HashOrder (UInt64 × PendingPing)

namespace Swim

def new (localNodeId : String) (config : SwimConfig) (localRegister : MemberRegister) : Swim where
  localNodeId := localNodeId
  config := config
  membership := Membership.new.mergeRegister localRegister
  consecutiveFailures := ∅
  sequence := 0
  pendingPings := ∅
  lastProbeMs := ∅
  suspectedSinceMs := ∅

/-! ### Messages -/

def handleAck (swim : Swim) (seq : UInt64) : Swim :=
  match swim.pendingPings[seq]? with
  | some pending =>
    { swim with
      pendingPings := swim.pendingPings.erase seq
      consecutiveFailures := swim.consecutiveFailures.erase pending.target }
  | none => swim

def refuteAndBroadcast (swim : Swim) (nowMs : Int) : Swim × List SwimAction :=
  let membership := (swim.membership.refute swim.localNodeId nowMs).1
  ({ swim with membership := membership },
    match membership.get swim.localNodeId with
    | some register => [.broadcast (.alive register)]
    | none => [])

def handleSuspectState (swim : Swim) (nodeId : String) (incarnation : UInt64) (nowMs : Int) :
    Swim × List SwimAction :=
  if nodeId = swim.localNodeId then
    let dominated : Bool :=
      match swim.membership.get nodeId with
      | some register => register.state ≠ .leaving && incarnation ≥ register.incarnation
      | none => false
    if dominated then swim.refuteAndBroadcast nowMs else (swim, [])
  else
    match swim.membership.get nodeId with
    | some existing =>
      if existing.incarnation > incarnation then (swim, [])
      else
        let register := ({ existing with incarnation := incarnation } : MemberRegister).suspect nowMs
        ({ swim with membership := swim.membership.mergeRegister register }, [])
    | none => (swim, [])

def refuteIfDominated (swim : Swim) (rumor : MemberRegister) (nowMs : Int) :
    Swim × List SwimAction :=
  if rumor.state = .active then (swim, [])
  else
    match swim.membership.get swim.localNodeId with
    | some register =>
      if register.state = .leaving || register.dominates rumor then (swim, [])
      else swim.refuteAndBroadcast nowMs
    | none => (swim, [])

def handleAliveState (swim : Swim) (register : MemberRegister) (nowMs : Int) :
    Swim × List SwimAction :=
  if register.nodeId = swim.localNodeId then swim.refuteIfDominated register nowMs
  else ({ swim with membership := swim.membership.mergeRegister register }, [])

def handleLeaveState (swim : Swim) (nodeId : String) (incarnation : UInt64) (nowMs : Int) : Swim :=
  if nodeId = swim.localNodeId then swim
  else
    match swim.membership.get nodeId with
    | some existing =>
      if existing.incarnation > incarnation then swim
      else
        let register := ({ existing with incarnation := incarnation } : MemberRegister).leave nowMs
        { swim with membership := swim.membership.mergeRegister register }
    | none => swim

def onMessage (swim : Swim) (sender : String) (message : SwimMessage) (nowMs : Int) :
    Swim × List SwimAction :=
  match message with
  | .ping seq => (swim, [.sendAck sender seq])
  | .ack seq => (swim.handleAck seq, [])
  | .suspect nodeId incarnation => swim.handleSuspectState nodeId incarnation nowMs
  | .alive register => swim.handleAliveState register nowMs
  | .leave nodeId incarnation => (swim.handleLeaveState nodeId incarnation nowMs, [])

/-! ### Ticks -/

def markSuspected (swim : Swim) (target : String) (nowMs : Int) : Swim × List SwimAction :=
  let failures := swim.consecutiveFailures.getD target 0 + 1
  if failures < swim.config.failureThreshold then
    ({ swim with consecutiveFailures := swim.consecutiveFailures.insert target failures }, [])
  else
    let marked := swim.membership.suspect target nowMs
    ({ swim with
        consecutiveFailures := swim.consecutiveFailures.erase target
        membership := marked.1 },
      match marked.2 with
      | some incarnation => [.broadcast (.suspect target incarnation)]
      | none => [])

def timedOut (nowMs : Int) (acc : Swim × List SwimAction) (seq : UInt64) : Swim × List SwimAction :=
  match acc.1.pendingPings[seq]? with
  | some pending =>
    let cleared := { acc.1 with pendingPings := acc.1.pendingPings.erase seq }
    let marked := cleared.markSuspected pending.target nowMs
    (marked.1, acc.2 ++ marked.2)
  | none => acc

def checkTimeouts (swim : Swim) (iteration : Iteration) (nowU64 : Nat) (nowMs : Int) :
    Swim × List SwimAction :=
  let pings := (iteration.pings.arrange swim.pendingPings.toList).filter fun ping =>
    nowU64 - ping.2.sentAt ≥ swim.config.pingTimeoutMs
  (pings.map Prod.fst).foldl (timedOut nowMs) (swim, [])

/-- Starts the timer of a suspected member on its first sight, and notes it once the timer is out. -/
def suspectTimer (timeout nowMs : Int) (acc : Std.ExtTreeMap String Int compare × List String)
    (nodeId : String) : Std.ExtTreeMap String Int compare × List String :=
  let since := acc.1.getD nodeId nowMs
  (acc.1.insert nodeId since, if nowMs - since ≥ timeout then acc.2 ++ [nodeId] else acc.2)

def expire (nowMs : Int) (acc : Swim × List SwimAction) (nodeId : String) :
    Swim × List SwimAction :=
  let marked := acc.1.membership.offline nodeId nowMs
  ({ acc.1 with membership := marked.1 },
    match marked.2, marked.1.get nodeId with
    | true, some register => acc.2 ++ [.broadcast (.alive register)]
    | _, _ => acc.2)

def checkSuspectTimeouts (swim : Swim) (iteration : Iteration) (nowMs : Int) :
    Swim × List SwimAction :=
  let timeout : Int := min swim.config.suspectTimeoutMs (2 ^ 63 - 1)
  let suspected := ((swim.membership.active iteration.members).filter fun register =>
    register.nodeId ≠ swim.localNodeId && register.state = .suspected).map (·.nodeId)
  let retained := swim.suspectedSinceMs.filter fun nodeId _ => suspected.contains nodeId
  let timers := suspected.foldl (suspectTimer timeout nowMs) (retained, [])
  timers.2.foldl (expire nowMs) ({ swim with suspectedSinceMs := timers.1 }, [])

def sendPingTo (swim : Swim) (target : String) (nowMs : Int) : Swim × Option SwimAction :=
  let sequence := swim.sequence + 1
  ({ swim with
      sequence := sequence
      pendingPings := swim.pendingPings.insert sequence ⟨target, nowMs.toNat⟩
      lastProbeMs := swim.lastProbeMs.insert target nowMs.toNat },
    some (.sendPing target sequence))

/-- Keeps the target that has waited longest, with its gap. -/
def probeCandidate (swim : Swim) (nowU64 : Nat) (best : Option String × Nat) (target : String) :
    Option String × Nat :=
  if swim.pendingPings.toList.any (fun ping => ping.2.target = target) then best
  else
    let gap := nowU64 - swim.lastProbeMs.getD target 0
    if gap ≥ swim.config.pingIntervalMs ∧ gap > best.2 then (some target, gap) else best

def generateProbes (swim : Swim) (iteration : Iteration) (nowU64 : Nat) (nowMs : Int) :
    Swim × List SwimAction :=
  let active := ((swim.membership.active iteration.members).filter fun register =>
    register.nodeId ≠ swim.localNodeId).map (·.nodeId)
  match (active.foldl (swim.probeCandidate nowU64) (none, 0)).1 with
  | some target =>
    let sent := swim.sendPingTo target nowMs
    (sent.1, sent.2.toList)
  | none => (swim, [])

def tick (swim : Swim) (iteration : Iteration) (nowMs : Int) : Swim × List SwimAction :=
  let beaten := { swim with membership := (swim.membership.heartbeat swim.localNodeId nowMs).1 }
  let timeouts := beaten.checkTimeouts iteration nowMs.toNat nowMs
  let suspects := timeouts.1.checkSuspectTimeouts iteration nowMs
  let probes := suspects.1.generateProbes iteration nowMs.toNat nowMs
  (probes.1, timeouts.2 ++ suspects.2 ++ probes.2)

end Swim

end Lycoris.Cluster
