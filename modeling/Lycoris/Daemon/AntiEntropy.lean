import Lycoris.Daemon.Membership
import Lycoris.Lib.Lists

/-!
One anti-entropy exchange between two membership services (`daemon/src/sync/antientropy.rs`), with
every RPC answered and nothing else going on. Dispatching the resulting SWIM actions, seeding peer
addresses and the peer bookkeeping do not touch the memberships and are left out.
-/

namespace Lycoris.Daemon
open Lib Cluster

/-! ### Merkle messages -/

structure MerkleNodeRef where
  depth : Nat
  index : Nat

structure MerkleLeafEntry where
  nodeId : String
  hash : Bytes

structure MerkleNodeResult where
  node : Option MerkleNodeRef
  hash : Bytes
  entries : List MerkleLeafEntry

def protoRefs (refs : List NodeRef) : List MerkleNodeRef :=
  refs.map fun ref => ⟨ref.depth, ref.index⟩

/-- A depth that does not fit a `u8` is no reference. -/
def refsFromProto (refs : List MerkleNodeRef) : List NodeRef :=
  refs.filterMap fun node => if node.depth < 256 then some ⟨node.depth, node.index⟩ else none

def resultToProto (node : RemoteNode) : MerkleNodeResult where
  node := some ⟨node.depth, node.index⟩
  hash := node.hash.toList
  entries := (node.entries.getD []).map fun entry => ⟨entry.1, entry.2.toList⟩

def remoteNode (result : MerkleNodeResult) : Option RemoteNode :=
  match result.node, hashFromBytes result.hash with
  | some node, some hash =>
    if node.depth < 256 then
      some
        { depth := node.depth
          index := node.index
          hash := hash
          entries :=
            if node.depth = merkleTreeDepth then
              some (result.entries.filterMap fun entry =>
                (hashFromBytes entry.hash).map fun hash => (entry.nodeId, hash))
            else none }
    else none
  | _, _ => none

def remoteNodes (results : List MerkleNodeResult) : List RemoteNode := results.filterMap remoteNode

/-! ### The exchange -/

variable (blake3 : Bytes → Hash)

namespace MembershipService

def serveMerkleNodes (service : MembershipService) (refs : List MerkleNodeRef)
    (env : Circumstances) : MembershipService × List MerkleNodeResult :=
  let answered := service.merkleNodes blake3 (refsFromProto refs) env.iteration.members
  (answered.1, answered.2.map resultToProto)

def serveFetchRegisters (service : MembershipService) (nodeIds : List String) :
    List ProtoNodeInfo :=
  (service.fetchRegisters nodeIds).map registerToProto

def servePushRegisters (service : MembershipService) (registers : List ProtoNodeInfo)
    (env : Circumstances) : MembershipService :=
  (service.syncNodes (registers.map protoToRegister) env).1

end MembershipService

/-- Round two, which is skipped when round one leaves nothing to ask. -/
def leafRound (peer : MembershipService) (refs : List NodeRef) (peerEnv : Circumstances) :
    MembershipService × List RemoteNode :=
  if refs.isEmpty then (peer, [])
  else
    let answered := peer.serveMerkleNodes blake3 (protoRefs refs) peerEnv
    (answered.1, remoteNodes answered.2)

/-- The two rounds of the diff, driven by the first service. -/
def merkleDiffWithPeer (service peer : MembershipService) (env peerEnv : Circumstances) :
    MembershipService × MembershipService × DiffResult :=
  let snapshot := service.merkleTreeSnapshot blake3 env.iteration.members
  let top := peer.serveMerkleNodes blake3 (protoRefs MerkleDiff.topRefs) peerEnv
  let plan := (MerkleDiff.new snapshot.2).planLeafRefs blake3 (remoteNodes top.2)
  let bottom := leafRound blake3 top.1 plan.2 peerEnv
  (snapshot.1, bottom.1, plan.1.finish blake3 bottom.2)

def syncWithPeer (service peer : MembershipService) (env peerEnv : Circumstances) :
    MembershipService × MembershipService :=
  let remoteRoot := peer.merkleRoot blake3 peerEnv.iteration.members
  let localRoot := service.merkleRoot blake3 env.iteration.members
  if remoteRoot.2.toList = localRoot.2.toList then (localRoot.1, remoteRoot.1)
  else
    let exchanged := merkleDiffWithPeer blake3 localRoot.1 remoteRoot.1 env peerEnv
    let diff := exchanged.2.2
    let fetched :=
      if diff.needFromRemote.isEmpty then [] else exchanged.2.1.serveFetchRegisters diff.needFromRemote
    let localRegisters := (exchanged.1.fetchRegisters diff.needFromLocal).map registerToProto
    let pushed :=
      if localRegisters.isEmpty then exchanged.2.1
      else exchanged.2.1.servePushRegisters localRegisters peerEnv
    let merged :=
      if fetched.isEmpty then exchanged.1
      else (exchanged.1.syncNodes (fetched.map protoToRegister) env).1
    (merged, pushed)

/-! ### Messages arrive as sent -/

theorem refsFromProto_protoRefs {refs : List NodeRef} (small : ∀ ref ∈ refs, ref.depth < 256) :
    refsFromProto (protoRefs refs) = refs := by
  apply filterMap_map_eq_self
  intro ref member
  rw [if_pos (small ref member)]

theorem remoteNodes_answerRefs (tree : MerkleTree) (refs : List NodeRef) :
    remoteNodes ((answerRefs tree refs).map resultToProto) = answerRefs tree refs := by
  apply filterMap_map_eq_self
  intro node answered
  obtain ⟨_, known, entries⟩ := mem_answerRefs.mp answered
  have small : node.depth < 256 := by
    unfold MerkleTree.nodeHash at known
    split at known
    · cases known
    · have bound := merkleTreeDepth_lt
      omega
  have bucket : ((node.entries.getD []).map fun entry =>
      (⟨entry.1, entry.2.toList⟩ : MerkleLeafEntry)).filterMap
      (fun entry => (hashFromBytes entry.hash).map fun hash => (entry.nodeId, hash)) =
      node.entries.getD [] := by
    apply filterMap_map_eq_self
    intro entry _
    rw [hashFromBytes_toList, Option.map_some]
  unfold remoteNode resultToProto
  dsimp only
  rw [hashFromBytes_toList]
  dsimp only
  rw [if_pos small, bucket]
  split
  · rename_i leaf
    rw [if_pos leaf] at entries
    rw [entries, Option.getD_some, ← entries]
  · rename_i inner
    rw [if_neg inner] at entries
    rw [← entries]

theorem topRefs_small : ∀ ref ∈ MerkleDiff.topRefs, ref.depth < 256 := by
  intro ref member
  obtain ⟨depth, listed, inLevel⟩ := List.mem_flatMap.mp member
  obtain ⟨index, _, rfl⟩ := List.mem_map.mp inLevel
  have within := List.mem_range.mp listed
  have split := splitDepth_le
  have bound := merkleTreeDepth_lt
  show depth < 256
  omega

theorem planned_small (diff : MerkleDiff) (remote : List RemoteNode) :
    ∀ ref ∈ (diff.planLeafRefs blake3 remote).2, ref.depth < 256 := by
  intro ref member
  rw [MerkleDiff.planLeafRefs, MerkleDiff.foldl_planStep, List.nil_append] at member
  obtain ⟨index, _, inSplit⟩ := List.mem_flatMap.mp member
  obtain ⟨leaf, _, rfl⟩ := List.mem_map.mp inSplit
  exact merkleTreeDepth_lt

/-! ### The diff of two services -/

section Diff

variable {blake3} {service peer : MembershipService}

/-- The tree of the current membership; the order of the build does not show. -/
def treeOf (blake3 : Bytes → Hash) (service : MembershipService) : MerkleTree :=
  .fromMembership blake3 service.swim.membership (.sorted MemberRegister)

/-- A call that only reads the membership. -/
structure ReadOnly (blake3 : Bytes → Hash) (before after : MembershipService) : Prop where
  kept : after.Kept blake3
  swim : after.swim = before.swim
  named : after.localNodeId = before.localNodeId

theorem ReadOnly.trans {first second third : MembershipService} (one : ReadOnly blake3 first second)
    (two : ReadOnly blake3 second third) : ReadOnly blake3 first third :=
  ⟨two.kept, two.swim.trans one.swim, two.named.trans one.named⟩

theorem ReadOnly.treeOf {before after : MembershipService} (read : ReadOnly blake3 before after) :
    treeOf blake3 after = treeOf blake3 before := by
  rw [Daemon.treeOf, Daemon.treeOf, read.swim]

theorem merkleTree_spec (kept : service.Kept blake3) (order : HashOrder MemberRegister) :
    ReadOnly blake3 service (service.merkleTree blake3 order).1 ∧
      (service.merkleTree blake3 order).2 = treeOf blake3 service := by
  obtain ⟨still, tree⟩ := kept.merkleTree order
  obtain ⟨named, swim⟩ := service.merkleTree_frame blake3 order
  exact ⟨⟨still, swim, named⟩, tree _⟩

theorem serveMerkleNodes_spec (kept : peer.Kept blake3) {refs : List NodeRef}
    (small : ∀ ref ∈ refs, ref.depth < 256) (env : Circumstances) :
    ReadOnly blake3 peer (peer.serveMerkleNodes blake3 (protoRefs refs) env).1 ∧
      remoteNodes (peer.serveMerkleNodes blake3 (protoRefs refs) env).2 =
        answerRefs (treeOf blake3 peer) refs := by
  obtain ⟨read, tree⟩ := merkleTree_spec kept env.iteration.members
  refine ⟨read, ?_⟩
  show remoteNodes ((answerRefs (peer.merkleTree blake3 env.iteration.members).2
    (refsFromProto (protoRefs refs))).map resultToProto) = _
  rw [refsFromProto_protoRefs small, tree, remoteNodes_answerRefs]

theorem leafRound_spec (kept : peer.Kept blake3) {refs : List NodeRef}
    (small : ∀ ref ∈ refs, ref.depth < 256) (env : Circumstances) :
    ReadOnly blake3 peer (leafRound blake3 peer refs env).1 ∧
      (leafRound blake3 peer refs env).2 = answerRefs (treeOf blake3 peer) refs := by
  unfold leafRound
  split
  · rename_i none
    have nothing : refs = [] := List.isEmpty_iff.mp none
    refine ⟨⟨kept, rfl, rfl⟩, ?_⟩
    rw [nothing]
    rfl
  · exact serveMerkleNodes_spec kept small env

/-- The driven session is the session over the two current trees, and it only reads. -/
theorem merkleDiffWithPeer_spec (kept : service.Kept blake3) (kept' : peer.Kept blake3)
    (env peerEnv : Circumstances) :
    ReadOnly blake3 service (merkleDiffWithPeer blake3 service peer env peerEnv).1 ∧
      ReadOnly blake3 peer (merkleDiffWithPeer blake3 service peer env peerEnv).2.1 ∧
      (merkleDiffWithPeer blake3 service peer env peerEnv).2.2 =
        merkleDiff blake3 (treeOf blake3 service) (treeOf blake3 peer) := by
  obtain ⟨read, tree⟩ := merkleTree_spec kept env.iteration.members
  obtain ⟨top, topReply⟩ := serveMerkleNodes_spec kept' topRefs_small peerEnv
  obtain ⟨plan, planned⟩ : ∃ plan, (MerkleDiff.new (treeOf blake3 service)).planLeafRefs blake3
      (answerRefs (treeOf blake3 peer) MerkleDiff.topRefs) = plan := ⟨_, rfl⟩
  have small : ∀ ref ∈ plan.2, ref.depth < 256 := by
    rw [← planned]
    exact planned_small blake3 _ _
  obtain ⟨bottom, reply⟩ := leafRound_spec top.kept small peerEnv
  have whole : merkleDiff blake3 (treeOf blake3 service) (treeOf blake3 peer) =
      plan.1.finish blake3 (answerRefs (treeOf blake3 peer) plan.2) := by
    simp only [merkleDiff, planned]
  have session : merkleDiffWithPeer blake3 service peer env peerEnv =
      ((service.merkleTree blake3 env.iteration.members).1,
        (leafRound blake3 (peer.serveMerkleNodes blake3 (protoRefs MerkleDiff.topRefs) peerEnv).1
          plan.2 peerEnv).1,
        merkleDiff blake3 (treeOf blake3 service) (treeOf blake3 peer)) := by
    simp only [merkleDiffWithPeer, MembershipService.merkleTreeSnapshot, tree, topReply, planned, reply,
      top.treeOf, whole]
  rw [session]
  exact ⟨read, top.trans bottom, rfl⟩

end Diff

end Lycoris.Daemon
