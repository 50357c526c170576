import Lycoris.Cluster.Invariants
import Lycoris.Cluster.Diff
import Lycoris.Cluster.Ownership

/-!
The daemon's membership service and its wire conversions (`daemon/src/membership/service.rs`,
`daemon/src/membership/convert.rs`). A running service keeps its cached Merkle tree coherent and its
registers stamped with an incarnation.
-/

namespace Lycoris.Daemon
open Lib Cluster

/-! ### Wire registers -/

/-- The `NodeInfo` message. The state is the raw enumeration number. -/
structure ProtoNodeInfo where
  id : String
  address : String
  labels : StringMap
  annotations : StringMap
  lastHeartbeatUnixMs : Int
  state : Int
  incarnation : UInt64
  heartbeat : UInt64

def stateToProto : MemberState → Int
  | .active => 1
  | .suspected => 2
  | .offline => 3
  | .leaving => 4

/-- Unspecified and unknown numbers degrade to `Active`. -/
def stateFromProto (raw : Int) : MemberState :=
  if raw = 2 then .suspected
  else if raw = 3 then .offline
  else if raw = 4 then .leaving
  else .active

def protoToRegister (info : ProtoNodeInfo) : MemberRegister :=
  { MemberRegister.new info.id info.address (max info.incarnation 1) info.heartbeat with
    state := stateFromProto info.state
    labels := info.labels
    annotations := info.annotations }

def registerToProto (register : MemberRegister) : ProtoNodeInfo where
  id := register.nodeId
  address := register.address
  labels := register.labels
  annotations := register.annotations
  lastHeartbeatUnixMs := register.updatedAtMs
  state := stateToProto register.state
  incarnation := register.incarnation
  heartbeat := register.heartbeat

theorem stateFromProto_stateToProto (state : MemberState) :
    stateFromProto (stateToProto state) = state := by
  cases state <;> rfl

theorem protoToRegister_stamped (info : ProtoNodeInfo) :
    1 ≤ (protoToRegister info).incarnation.toNat := by
  show 1 ≤ (max info.incarnation 1).toNat
  rw [UInt64.max_def]
  split
  · decide
  · rename_i larger
    have positive := UInt64.lt_iff_toNat_lt.mp (UInt64.not_le.mp larger)
    exact Nat.le_of_lt positive

/-- A stamped register crosses the wire with everything but its clock. -/
theorem protoToRegister_registerToProto {register : MemberRegister}
    (stamped : 1 ≤ register.incarnation.toNat) :
    protoToRegister (registerToProto register) = { register with updatedAtMs := 0 } := by
  have incarnation : max register.incarnation 1 = register.incarnation := by
    rw [UInt64.max_def]
    split
    · rename_i small
      have below := UInt64.le_iff_toNat_le.mp small
      exact UInt64.toNat_inj.mp (Nat.le_antisymm stamped below)
    · rfl
  simp only [protoToRegister, registerToProto, MemberRegister.new, incarnation,
    stateFromProto_stateToProto]

/-! ### The service -/

def localIncarnationKey : String := "local_incarnation"
def extensionAnnotationPrefix : String := "ext."

/-- The service with the state its mutex guards. -/
structure MembershipService where
  localNodeId : String
  swim : Swim
  cachedTree : Nat × MerkleTree
  metaTable : Option StringMap
  persistedIncarnation : UInt64

/-- What a call meets outside the service: the clock, the iteration orders of its maps, and whether
the meta table takes a write. -/
structure Circumstances where
  nowMs : Int
  iteration : Iteration
  metaWritable : Bool

variable (blake3 : Bytes → Hash)

namespace MembershipService

def new (localNodeId : String) (config : SwimConfig) (register : MemberRegister)
    (order : HashOrder MemberRegister) : MembershipService :=
  let swim := Swim.new localNodeId config register
  { localNodeId := localNodeId
    swim := swim
    cachedTree := (swim.membership.version, .fromMembership blake3 swim.membership order)
    metaTable := none
    persistedIncarnation :=
      ((swim.membership.get localNodeId).map (·.incarnation)).getD 1 }

def withMeta (service : MembershipService) (table : StringMap) : MembershipService :=
  { service with metaTable := some table }

/-- The cached tree, rebuilt when the membership version moved since. -/
def merkleTree (service : MembershipService) (order : HashOrder MemberRegister) :
    MembershipService × MerkleTree :=
  let version := service.swim.membership.version
  if service.cachedTree.1 ≠ version then
    let tree := MerkleTree.fromMembership blake3 service.swim.membership order
    ({ service with cachedTree := (version, tree) }, tree)
  else (service, service.cachedTree.2)

def persistLocalIncarnation (service : MembershipService) (metaWritable : Bool) :
    MembershipService :=
  match service.metaTable, service.swim.membership.get service.localNodeId with
  | some table, some register =>
    if register.incarnation = service.persistedIncarnation then service
    else if metaWritable then
      { service with
        metaTable := some (table.insert localIncarnationKey (toString register.incarnation.toNat))
        persistedIncarnation := register.incarnation }
    else service
  | _, _ => service

/-- A message to the failure detector, without the persist hook. -/
def receive (service : MembershipService) (sender : String) (message : SwimMessage) (nowMs : Int) :
    MembershipService × List SwimAction :=
  let handled := service.swim.onMessage sender message nowMs
  ({ service with swim := handled.1 }, handled.2)

def register (service : MembershipService) (register : MemberRegister) (env : Circumstances) :
    MembershipService × List SwimAction :=
  let handled := service.receive service.localNodeId
    (.alive { register with updatedAtMs := env.nowMs }) env.nowMs
  (handled.1.persistLocalIncarnation env.metaWritable, handled.2)

def leave (service : MembershipService) (nodeId : String) (env : Circumstances) :
    MembershipService × List SwimAction :=
  let incarnation := ((service.swim.membership.get nodeId).map (·.incarnation)).getD 1
  let left :=
    if nodeId = service.localNodeId then
      { service with
        swim := { service.swim with
          membership := (service.swim.membership.leave nodeId env.nowMs).1 } }
    else (service.receive service.localNodeId (.leave nodeId incarnation) env.nowMs).1
  (left.persistLocalIncarnation env.metaWritable, [.broadcast (.leave nodeId incarnation)])

/-- The annotations with their `ext.` part replaced by that of the extensions. -/
def withExtensions (annotations extensionAnnotations : StringMap) : StringMap :=
  (annotations.filter fun key _ => !key.startsWith extensionAnnotationPrefix).insertMany
    (extensionAnnotations.filter fun key _ => key.startsWith extensionAnnotationPrefix).toList

def updateLocalAnnotations (service : MembershipService) (extensionAnnotations : StringMap)
    (env : Circumstances) : MembershipService × List SwimAction :=
  match service.swim.membership.get service.localNodeId with
  | none => (service, [])
  | some current =>
    let annotations := withExtensions current.annotations extensionAnnotations
    if annotations = current.annotations then (service, [])
    else
      let updated :=
        ({ current with annotations := annotations } : MemberRegister).bumpHeartbeat env.nowMs
      let written := { service with
        swim := { service.swim with membership := service.swim.membership.mergeRegister updated } }
      (written.persistLocalIncarnation env.metaWritable, [.broadcast (.alive updated)])

/-- One register of a snapshot, stamped with the local clock. -/
def syncNode (nowMs : Int) (acc : MembershipService × List SwimAction) (register : MemberRegister) :
    MembershipService × List SwimAction :=
  let handled := acc.1.receive acc.1.localNodeId (.alive { register with updatedAtMs := nowMs }) nowMs
  (handled.1, acc.2 ++ handled.2)

def syncNodes (service : MembershipService) (registers : List MemberRegister) (env : Circumstances) :
    MembershipService × List MemberRegister × List SwimAction :=
  let merged := registers.foldl (syncNode env.nowMs) (service, [])
  let snapshot := merged.1.swim.membership.active env.iteration.members
  (merged.1.persistLocalIncarnation env.metaWritable, snapshot, merged.2)

def merkleRoot (service : MembershipService) (order : HashOrder MemberRegister) :
    MembershipService × Hash :=
  let cached := service.merkleTree blake3 order
  (cached.1, cached.2.rootHash)

def merkleTreeSnapshot (service : MembershipService) (order : HashOrder MemberRegister) :
    MembershipService × MerkleTree :=
  service.merkleTree blake3 order

def merkleNodes (service : MembershipService) (refs : List NodeRef)
    (order : HashOrder MemberRegister) : MembershipService × List RemoteNode :=
  let cached := service.merkleTree blake3 order
  (cached.1, answerRefs cached.2 refs)

def fetchRegisters (service : MembershipService) (nodeIds : List String) : List MemberRegister :=
  nodeIds.filterMap service.swim.membership.get

def onProbe (service : MembershipService) (sender : String) (message : SwimMessage)
    (env : Circumstances) : MembershipService × List SwimAction :=
  let handled := service.receive sender message env.nowMs
  (handled.1.persistLocalIncarnation env.metaWritable, handled.2)

def tick (service : MembershipService) (env : Circumstances) :
    MembershipService × List SwimAction :=
  let ticked := service.swim.tick env.iteration env.nowMs
  (({ service with swim := ticked.1 } : MembershipService).persistLocalIncarnation env.metaWritable,
    ticked.2)

end MembershipService

/-! ### Runs -/

/-- The calls the daemon makes. The three Merkle queries change the service only through the cache. -/
inductive ServiceCall where
  | register (register : MemberRegister)
  | leave (nodeId : String)
  | updateLocalAnnotations (extensionAnnotations : StringMap)
  | syncNodes (registers : List MemberRegister)
  | merkleTree
  | onProbe (sender : String) (message : SwimMessage)
  | tick

def ServiceCall.registers : ServiceCall → List MemberRegister
  | .register told => [told]
  | .syncNodes told => told
  | .onProbe _ (.alive told) => [told]
  | _ => []

/-- Every register in the call was decoded from the wire, as all callers do. -/
def ServiceCall.FromWire (call : ServiceCall) : Prop :=
  ∀ register ∈ call.registers, ∃ info, register = protoToRegister info

namespace MembershipService

def step (service : MembershipService) (env : Circumstances) : ServiceCall → MembershipService
  | .register register => (service.register register env).1
  | .leave nodeId => (service.leave nodeId env).1
  | .updateLocalAnnotations annotations => (service.updateLocalAnnotations annotations env).1
  | .syncNodes registers => (service.syncNodes registers env).1
  | .merkleTree => (service.merkleTree blake3 env.iteration.members).1
  | .onProbe sender message => (service.onProbe sender message env).1
  | .tick => (service.tick env).1

/-- The service as the runtime boots it: with the next incarnation after the resumed one. -/
def boot (nodeId address : String) (resumed : UInt64) (labels annotations table : StringMap)
    (env : Circumstances) : MembershipService :=
  let rejoined := (MemberRegister.new nodeId address resumed 0).rejoin address env.nowMs
  (new blake3 nodeId .default { rejoined with labels := labels, annotations := annotations }
    env.iteration.members).withMeta table

inductive Running : MembershipService → Prop
  | boot (nodeId address : String) (resumed : UInt64) (labels annotations table : StringMap)
      (env : Circumstances) :
      Running (boot blake3 nodeId address resumed labels annotations table env)
  | step {service : MembershipService} (running : Running service) {call : ServiceCall}
      (wire : call.FromWire) (env : Circumstances) : Running (service.step blake3 env call)

/-! ### Calls and the failure detector -/

end MembershipService

/-- The registers a call brings, under whatever clock reading. -/
def ServiceCall.Tells (call : ServiceCall) (register : MemberRegister) : Prop :=
  ∃ told ∈ call.registers, ∃ nowMs, register = { told with updatedAtMs := nowMs }

/-- A message from outside, a tick, or a query. -/
def ServiceCall.FromOutside : ServiceCall → Prop
  | .leave _ => False
  | .updateLocalAnnotations _ => False
  | _ => True

namespace MembershipService

section Persist

variable (service : MembershipService) (metaWritable : Bool)

theorem persist_frame :
    (service.persistLocalIncarnation metaWritable).localNodeId = service.localNodeId ∧
      (service.persistLocalIncarnation metaWritable).swim = service.swim ∧
      (service.persistLocalIncarnation metaWritable).cachedTree = service.cachedTree := by
  unfold persistLocalIncarnation
  split
  · split
    · exact ⟨rfl, rfl, rfl⟩
    · split
      · exact ⟨rfl, rfl, rfl⟩
      · exact ⟨rfl, rfl, rfl⟩
  · exact ⟨rfl, rfl, rfl⟩

@[simp] theorem persist_swim :
    (service.persistLocalIncarnation metaWritable).swim = service.swim :=
  (persist_frame service metaWritable).2.1

end Persist

/-- The service after a step that goes through the failure detector alone. -/
structure Through (R : Swim → Swim → Prop) (service next : MembershipService) : Prop where
  named : next.localNodeId = service.localNodeId
  cached : next.cachedTree = service.cachedTree
  swim : R service.swim next.swim

theorem Through.persist {R : Swim → Swim → Prop} {service next : MembershipService}
    (through : Through R service next) (metaWritable : Bool) :
    Through R service (next.persistLocalIncarnation metaWritable) := by
  obtain ⟨named, swim, cached⟩ := persist_frame next metaWritable
  exact ⟨named.trans through.named, cached.trans through.cached, swim ▸ through.swim⟩

section Steps

variable {service : MembershipService} (pings : service.swim.PingsElsewhere)
include pings

theorem receive_through (sender : String) (message : SwimMessage) (nowMs : Int) :
    Through (Swim.Gossiped fun register => message = .alive register) service
      (service.receive sender message nowMs).1 :=
  ⟨rfl, rfl, Swim.onMessage_gossips pings sender message nowMs⟩

theorem write_through {Told : MemberRegister → Prop} {membership : Membership}
    (write : Write service.swim.localNodeId Told service.swim.membership membership) :
    Through (Swim.Advance Told) service
      { service with swim := { service.swim with membership := membership } } :=
  ⟨rfl, rfl, .write pings write⟩

theorem syncNodes_through (registers : List MemberRegister) (nowMs : Int) (actions : List SwimAction) :
    Through (Swim.Gossiped fun register => ∃ told ∈ registers, ∃ nowMs,
      register = { told with updatedAtMs := nowMs }) service
      (registers.foldl (syncNode nowMs) (service, actions)).1 := by
  induction registers generalizing service actions with
  | nil => exact ⟨rfl, rfl, .refl pings⟩
  | cons first rest ih =>
    have head := receive_through pings service.localNodeId
      (.alive { first with updatedAtMs := nowMs }) nowMs
    have tail := ih head.swim.pings (actions ++ (service.receive service.localNodeId
      (.alive { first with updatedAtMs := nowMs }) nowMs).2)
    refine ⟨tail.named.trans head.named, tail.cached.trans head.cached, ?_⟩
    refine (head.swim.widen ?_).trans (tail.swim.widen ?_)
    · intro register same
      exact ⟨first, List.mem_cons_self, nowMs, (SwimMessage.alive.inj same).symm⟩
    · rintro register ⟨told, member, known⟩
      exact ⟨told, List.mem_cons_of_mem first member, known⟩

/-- A call from outside goes through messages and ticks. -/
theorem step_gossips (env : Circumstances) {call : ServiceCall} (outside : call.FromOutside)
    (writes : call ≠ .merkleTree) :
    Through (Swim.Gossiped call.Tells) service (service.step blake3 env call) := by
  cases call with
  | register register =>
    have through := receive_through pings service.localNodeId
      (.alive { register with updatedAtMs := env.nowMs }) env.nowMs
    refine Through.persist ⟨through.named, through.cached, through.swim.widen ?_⟩ _
    intro told same
    exact ⟨register, by simp [ServiceCall.registers], env.nowMs, (SwimMessage.alive.inj same).symm⟩
  | leave nodeId => exact outside.elim
  | updateLocalAnnotations annotations => exact outside.elim
  | syncNodes registers => exact (syncNodes_through pings registers env.nowMs []).persist _
  | merkleTree => exact absurd rfl writes
  | onProbe sender message =>
    have through := receive_through pings sender message env.nowMs
    refine Through.persist ⟨through.named, through.cached, through.swim.widen ?_⟩ _
    rintro told rfl
    exact ⟨told, by simp [ServiceCall.registers], told.updatedAtMs, rfl⟩
  | tick =>
    have through : Through (Swim.Gossiped ServiceCall.tick.Tells) service
        { service with swim := (service.swim.tick env.iteration env.nowMs).1 } :=
      ⟨rfl, rfl, Swim.tick_gossips pings env.iteration env.nowMs⟩
    exact through.persist _

/-- Every call but a query goes through the failure detector's writes. -/
theorem step_advances (named : service.swim.localNodeId = service.localNodeId) (env : Circumstances)
    {call : ServiceCall} (writes : call ≠ .merkleTree) :
    Through (Swim.Advance call.Tells) service (service.step blake3 env call) := by
  by_cases outside : call.FromOutside
  · have through := step_gossips blake3 pings env outside writes
    exact ⟨through.named, through.cached, through.swim.advance⟩
  · cases call with
    | leave nodeId =>
      show Through _ service (service.leave nodeId env).1
      unfold MembershipService.leave
      dsimp only
      split
      · rename_i own
        have write : Write service.swim.localNodeId (ServiceCall.leave nodeId).Tells
            service.swim.membership (service.swim.membership.leave nodeId env.nowMs).1 := by
          rw [own, ← named]
          exact .leave env.nowMs
        exact (write_through pings write).persist _
      · have through := receive_through pings service.localNodeId
          (.leave nodeId (((service.swim.membership.get nodeId).map (·.incarnation)).getD 1)) env.nowMs
        refine Through.persist ⟨through.named, through.cached, (through.swim.widen ?_).advance⟩ _
        intro told same
        cases same
    | updateLocalAnnotations annotations =>
      show Through _ service (service.updateLocalAnnotations annotations env).1
      unfold MembershipService.updateLocalAnnotations
      split
      · exact ⟨rfl, rfl, .refl pings⟩
      · rename_i current found
        dsimp only
        split
        · exact ⟨rfl, rfl, .refl pings⟩
        · rw [← named] at found
          exact (write_through pings (.annotate _ env.nowMs found)).persist _
    | register _ => exact absurd trivial outside
    | syncNodes _ => exact absurd trivial outside
    | merkleTree => exact absurd rfl writes
    | onProbe _ _ => exact absurd trivial outside
    | tick => exact absurd trivial outside

end Steps

/-- A query leaves the failure detector alone. -/
theorem merkleTree_frame (service : MembershipService) (order : HashOrder MemberRegister) :
    (service.merkleTree blake3 order).1.localNodeId = service.localNodeId ∧
      (service.merkleTree blake3 order).1.swim = service.swim := by
  unfold merkleTree
  dsimp only
  split
  · exact ⟨rfl, rfl⟩
  · exact ⟨rfl, rfl⟩

/-- The cached tree is that of the membership whenever it carries the membership's version. -/
structure Coherent (service : MembershipService) : Prop where
  named : service.swim.localNodeId = service.localNodeId
  pings : service.swim.PingsElsewhere
  behind : service.cachedTree.1 ≤ service.swim.membership.version
  current : service.cachedTree.1 = service.swim.membership.version → ∀ order,
    service.cachedTree.2 = .fromMembership blake3 service.swim.membership order

namespace Coherent

variable {blake3} {service next : MembershipService} (coherent : Coherent blake3 service)
include coherent

theorem through {Told : MemberRegister → Prop}
    (through : Through (Swim.Advance Told) service next) : Coherent blake3 next where
  named := by rw [through.swim.self, through.named, coherent.named]
  pings := through.swim.pings
  behind := by
    rw [through.cached]
    exact Nat.le_trans coherent.behind through.swim.writes.tracks.forward
  current same order := by
    rw [through.cached] at same ⊢
    have behind := coherent.behind
    have forward := through.swim.writes.tracks.forward
    have still : next.swim.membership.version = service.swim.membership.version := by omega
    rw [coherent.current (same.trans still) order]
    exact (MerkleTree.fromMembership_congr blake3 (through.swim.writes.tracks.covered still) order
      order).symm

theorem merkleTree (order : HashOrder MemberRegister) :
    Coherent blake3 (service.merkleTree blake3 order).1 ∧
      ∀ order', (service.merkleTree blake3 order).2 =
        .fromMembership blake3 service.swim.membership order' := by
  unfold MembershipService.merkleTree
  dsimp only
  split
  · have rebuilt : ∀ order', MerkleTree.fromMembership blake3 service.swim.membership order =
        .fromMembership blake3 service.swim.membership order' :=
      fun order' => MerkleTree.fromMembership_congr blake3 (fun _ => rfl) order order'
    exact ⟨⟨coherent.named, coherent.pings, Nat.le_refl _, fun _ => rebuilt⟩, rebuilt⟩
  · rename_i same
    exact ⟨coherent, coherent.current (not_not.mp same)⟩

theorem step (call : ServiceCall) (env : Circumstances) :
    Coherent blake3 (service.step blake3 env call) := by
  by_cases query : call = .merkleTree
  · subst query
    exact (coherent.merkleTree env.iteration.members).1
  · exact coherent.through (step_advances blake3 coherent.pings coherent.named env query)

end Coherent

/-- What every call keeps. -/
structure Kept (service : MembershipService) : Prop extends Coherent blake3 service where
  stamped : Stamped service.swim.membership

namespace Kept

variable {blake3} {service next : MembershipService} (kept : Kept blake3 service)
include kept

/-- A step through the failure detector that is told only stamped registers. -/
theorem through {Told : MemberRegister → Prop} (through : Through (Swim.Advance Told) service next)
    (told : ∀ register, Told register → 1 ≤ register.incarnation.toNat) : Kept blake3 next :=
  ⟨kept.toCoherent.through through, through.swim.writes.stamped told kept.stamped⟩

theorem receive_alive {register : MemberRegister} (stamped : 1 ≤ register.incarnation.toNat)
    (nowMs : Int) :
    Kept blake3 (service.receive service.localNodeId
      (.alive { register with updatedAtMs := nowMs }) nowMs).1 := by
  have through := receive_through kept.pings service.localNodeId
    (.alive { register with updatedAtMs := nowMs }) nowMs
  apply kept.through ⟨through.named, through.cached, through.swim.advance⟩
  intro told same
  rw [← SwimMessage.alive.inj same]
  exact stamped

theorem syncNodes_fold {registers : List MemberRegister}
    (stamped : ∀ register ∈ registers, 1 ≤ register.incarnation.toNat) (nowMs : Int)
    (actions : List SwimAction) :
    Kept blake3 (registers.foldl (syncNode nowMs) (service, actions)).1 := by
  have through := syncNodes_through kept.pings registers nowMs actions
  apply kept.through ⟨through.named, through.cached, through.swim.advance⟩
  rintro _ ⟨told, member, _, rfl⟩
  exact stamped told member

theorem merkleTree (order : HashOrder MemberRegister) :
    Kept blake3 (service.merkleTree blake3 order).1 ∧
      ∀ order', (service.merkleTree blake3 order).2 =
        .fromMembership blake3 service.swim.membership order' := by
  obtain ⟨coherent, answer⟩ := kept.toCoherent.merkleTree order
  refine ⟨⟨coherent, ?_⟩, answer⟩
  rw [(merkleTree_frame blake3 service order).2]
  exact kept.stamped

theorem step {call : ServiceCall} (wire : call.FromWire) (env : Circumstances) :
    Kept blake3 (service.step blake3 env call) := by
  by_cases query : call = .merkleTree
  · subst query
    exact (kept.merkleTree env.iteration.members).1
  · apply kept.through (step_advances blake3 kept.pings kept.named env query)
    rintro _ ⟨told, member, _, rfl⟩
    obtain ⟨info, rfl⟩ := wire told member
    exact protoToRegister_stamped info

end Kept

theorem new_coherent (localNodeId : String) (config : SwimConfig) (register : MemberRegister)
    (order : HashOrder MemberRegister) :
    Coherent blake3 (new blake3 localNodeId config register order) := by
  refine ⟨rfl, ?_, Nat.le_refl _, ?_⟩
  · intro seq pending found
    simp [new, Swim.new] at found
  · intro _ order'
    exact MerkleTree.fromMembership_congr blake3 (fun _ => rfl) order order'

theorem Coherent.withMeta {service : MembershipService} (coherent : Coherent blake3 service)
    (table : StringMap) : Coherent blake3 (service.withMeta table) :=
  ⟨coherent.named, coherent.pings, coherent.behind, coherent.current⟩

theorem boot_kept (nodeId address : String) (resumed : UInt64)
    (labels annotations table : StringMap) (env : Circumstances) :
    Kept blake3 (boot blake3 nodeId address resumed labels annotations table env) := by
  let rejoined := (MemberRegister.new nodeId address resumed 0).rejoin address env.nowMs
  let own : MemberRegister := { rejoined with labels := labels, annotations := annotations }
  have coherent := (new_coherent blake3 nodeId .default own env.iteration.members).withMeta blake3 table
  refine ⟨coherent, ?_⟩
  have fresh : Stamped Membership.new := by
    intro other register found
    simp [Membership.new, Membership.get] at found
  show Stamped (Membership.new.mergeRegister own)
  exact fresh.mergeRegister (saturatingSucc_pos resumed)

theorem Running.kept {service : MembershipService} (running : Running blake3 service) :
    Kept blake3 service := by
  induction running with
  | boot nodeId address resumed labels annotations table env =>
    exact boot_kept blake3 nodeId address resumed labels annotations table env
  | step _ wire env ih => exact ih.step wire env

end MembershipService

end Lycoris.Daemon
