import Lycoris.Cluster.Exactness
import Lycoris.Daemon.AntiEntropy

/-!
An anti-entropy exchange converges: on every third node the two services end with the hashed fields
of the merge of what they held.
-/

namespace Lycoris.Daemon
open Lib Cluster

/-! ### Registers that arrive -/

/-- What a service holds of a node after a register of it may have arrived. -/
def received (nowMs : Int) (mine theirs : Option MemberRegister) : Option MemberRegister :=
  match theirs with
  | some register =>
    some (KeyedMap.joined MemberRegister.merge mine { register with updatedAtMs := nowMs })
  | none => mine

/-- The merge of two views of a node, or the only one there is. -/
def mergedView : Option MemberRegister → Option MemberRegister → Option MemberRegister
  | some mine, some theirs => some (mine.merge theirs)
  | some mine, none => some mine
  | none, theirs => theirs

theorem hashedFields_merge_clock (mine theirs : MemberRegister) (nowMs : Int) :
    (mine.merge { theirs with updatedAtMs := nowMs }).hashedFields =
      (mine.merge theirs).hashedFields := by
  have key : ({ theirs with updatedAtMs := nowMs } : MemberRegister).orderKey = theirs.orderKey := rfl
  rcases lt_trichotomy mine.orderKey theirs.orderKey with less | equal | greater
  · rw [MemberRegister.merge_of_dominated less, MemberRegister.merge_of_dominated (key ▸ less)]
    rfl
  · rw [MemberRegister.merge_of_equal equal, MemberRegister.merge_of_equal (equal.trans key.symm)]
    rfl
  · rw [MemberRegister.merge_of_dominating greater, MemberRegister.merge_of_dominating (key ▸ greater)]

theorem hashedFields_merge_same {mine theirs : MemberRegister}
    (same : mine.hashedFields = theirs.hashedFields) :
    (mine.merge theirs).hashedFields = mine.hashedFields := by
  obtain ⟨_, address, _, _, labels, annotations⟩ := HashedFields.mk.inj same
  rcases lt_trichotomy mine.orderKey theirs.orderKey with less | equal | greater
  · rw [MemberRegister.merge_of_dominated less, same]
  · rw [MemberRegister.merge_of_equal equal, MemberRegister.mergeMetadata_eq, address, labels,
      annotations]
    simp only [MemberRegister.hashedFields, larger_self, address, labels, annotations]
  · rw [MemberRegister.merge_of_dominating greater]

theorem hashed_received (nowMs : Int) (mine theirs : Option MemberRegister) :
    (received nowMs mine theirs).map MemberRegister.hashedFields =
      (mergedView mine theirs).map MemberRegister.hashedFields := by
  cases theirs with
  | none => cases mine <;> rfl
  | some register =>
    cases mine with
    | none => rfl
    | some held => exact congrArg some (hashedFields_merge_clock held register nowMs)

theorem mergedView_comm {m m' : Membership} (nodeId : String) :
    mergedView (m.get nodeId) (m'.get nodeId) = mergedView (m'.get nodeId) (m.get nodeId) := by
  cases here : m.get nodeId with
  | none => cases there : m'.get nodeId <;> rfl
  | some mine =>
    cases there : m'.get nodeId with
    | none => rfl
    | some theirs =>
      have named := (Membership.nodeId_of_get here).trans (Membership.nodeId_of_get there).symm
      exact congrArg some (MemberRegister.merge_joins.comm mine theirs named)

/-- A merge that would change nothing hashed. -/
theorem hashed_mergedView_of_known {mine theirs : Option MemberRegister}
    (known : ∀ register, theirs = some register →
      ∃ held, mine = some held ∧ held.hashedFields = register.hashedFields) :
    mine.map MemberRegister.hashedFields = (mergedView mine theirs).map MemberRegister.hashedFields := by
  cases theirs with
  | none => cases mine <;> rfl
  | some register =>
    obtain ⟨held, rfl, same⟩ := known register rfl
    exact congrArg some (hashedFields_merge_same same).symm

/-! ### Merging a batch -/

section Batch

variable {blake3 : Bytes → Hash} {service : MembershipService}

theorem get_receive_alive (kept : service.Kept blake3) {nodeId : String}
    (other : nodeId ≠ service.localNodeId) (register : MemberRegister) (sender : String) (nowMs : Int) :
    (service.receive sender (.alive register) nowMs).1.swim.membership.get nodeId =
      if register.nodeId = nodeId then
        some (KeyedMap.joined MemberRegister.merge (service.swim.membership.get nodeId) register)
      else service.swim.membership.get nodeId := by
  rw [← kept.named] at other
  show (service.swim.handleAliveState register nowMs).1.membership.get nodeId = _
  unfold Swim.handleAliveState
  by_cases about : register.nodeId = service.swim.localNodeId
  · have refuted : (service.swim.membership.refute service.swim.localNodeId nowMs).1.get nodeId =
        service.swim.membership.get nodeId := by
      rw [Membership.get_refute, if_neg (Ne.symm other)]
    rw [if_pos about, if_neg (fun same => other (same.symm.trans about)), Swim.refuteIfDominated]
    split
    · rfl
    · split
      · split
        · rfl
        · exact refuted
      · rfl
  · rw [if_neg about]
    exact Membership.get_mergeRegister _ register nodeId

theorem joined_again {nodeId : String} {held : Option MemberRegister} {register : MemberRegister}
    (named : register.nodeId = nodeId)
    (keyed : ∀ existing, held = some existing → existing.nodeId = nodeId) :
    (KeyedMap.joined MemberRegister.merge held register).merge register =
      KeyedMap.joined MemberRegister.merge held register := by
  have laws := MemberRegister.merge_joins
  cases held with
  | none => exact laws.idem register
  | some existing =>
    have same : existing.nodeId = register.nodeId := (keyed existing rfl).trans named.symm
    show (existing.merge register).merge register = existing.merge register
    rw [laws.assoc existing register register same rfl, laws.idem]

/-- Merging a batch leaves a node it does not mention, and merges the one register it has of a node
however often it is listed. -/
theorem syncFold_get (registers : List MemberRegister) (nowMs : Int) (actions : List SwimAction)
    (kept : service.Kept blake3)
    (stamped : ∀ register ∈ registers, 1 ≤ register.incarnation.toNat) {nodeId : String}
    (other : nodeId ≠ service.localNodeId) :
    ((∀ register ∈ registers, register.nodeId ≠ nodeId) →
      (registers.foldl (MembershipService.syncNode nowMs) (service, actions)).1.swim.membership.get nodeId =
        service.swim.membership.get nodeId) ∧
    (∀ told ∈ registers, told.nodeId = nodeId →
      (∀ register ∈ registers, register.nodeId = nodeId → register = told) →
      (registers.foldl (MembershipService.syncNode nowMs) (service, actions)).1.swim.membership.get nodeId =
        received nowMs (service.swim.membership.get nodeId) (some told)) := by
  induction registers generalizing service actions with
  | nil => exact ⟨fun _ => rfl, fun told member => by cases member⟩
  | cons first rest ih =>
    have next := kept.receive_alive (stamped first List.mem_cons_self) nowMs
    have step := get_receive_alive kept other { first with updatedAtMs := nowMs } service.localNodeId nowMs
    obtain ⟨absent, present⟩ := ih (actions ++ (service.receive service.localNodeId
      (.alive { first with updatedAtMs := nowMs }) nowMs).2) next
      (fun register member => stamped register (List.mem_cons_of_mem first member)) other
    constructor
    · intro unmentioned
      rw [if_neg (unmentioned first List.mem_cons_self)] at step
      rw [← step]
      exact absent fun register member => unmentioned register (List.mem_cons_of_mem first member)
    · intro told member named unique
      have later : ∀ register ∈ rest, register.nodeId = nodeId → register = told :=
        fun register inside => unique register (List.mem_cons_of_mem first inside)
      by_cases here : first.nodeId = nodeId
      · obtain rfl := unique first List.mem_cons_self here
        rw [if_pos here] at step
        by_cases again : first ∈ rest
        · -- The same register once more: the merge absorbs it.
          have repeated := present first again here later
          rw [step] at repeated
          rw [List.foldl_cons]
          refine repeated.trans ?_
          exact congrArg some (joined_again here fun existing found => Membership.nodeId_of_get found)
        · have gone : ∀ register ∈ rest, register.nodeId ≠ nodeId := by
            intro register inside same
            rw [later register inside same] at inside
            exact again inside
          exact (absent gone).trans step
      · rw [if_neg here] at step
        have inside : told ∈ rest := by
          rcases List.mem_cons.mp member with same | inside
          · exact absurd (same ▸ named) here
          · exact inside
        have found := present told inside named later
        rw [step] at found
        exact found

/-- Merging a batch that has, of one node, what the sender holds of it. -/
theorem get_syncNodes {registers : List MemberRegister} (kept : service.Kept blake3)
    (stamped : ∀ register ∈ registers, 1 ≤ register.incarnation.toNat) (env : Circumstances)
    {nodeId : String} (other : nodeId ≠ service.localNodeId) {told : Option MemberRegister}
    (sent : ∀ register, register ∈ registers ∧ register.nodeId = nodeId ↔
      ∃ held, told = some held ∧ register = { held with updatedAtMs := 0 }) :
    (service.syncNodes registers env).1.swim.membership.get nodeId =
      received env.nowMs (service.swim.membership.get nodeId) told := by
  obtain ⟨absent, present⟩ := syncFold_get registers env.nowMs [] kept stamped other
  show (MembershipService.persistLocalIncarnation _ _).swim.membership.get nodeId = _
  rw [MembershipService.persist_swim]
  cases told with
  | none =>
    apply absent
    intro register member named
    obtain ⟨held, impossible, _⟩ := (sent register).mp ⟨member, named⟩
    cases impossible
  | some held =>
    obtain ⟨member, named⟩ := (sent { held with updatedAtMs := 0 }).mpr ⟨held, rfl, rfl⟩
    apply present _ member named
    intro register inside same
    obtain ⟨held', seen, arrived⟩ := (sent register).mp ⟨inside, same⟩
    obtain rfl := Option.some.inj seen
    exact arrived

/-- The registers a peer sends for the ids it is asked, as they arrive. -/
def sentFor (peer : MembershipService) (ids : List String) : List MemberRegister :=
  (peer.serveFetchRegisters ids).map protoToRegister

theorem mem_sentFor {peer : MembershipService} (stamped : Stamped peer.swim.membership)
    {ids : List String} {register : MemberRegister} :
    register ∈ sentFor peer ids ↔
      ∃ held, register.nodeId ∈ ids ∧ peer.swim.membership.get register.nodeId = some held ∧
        register = { held with updatedAtMs := 0 } := by
  simp only [sentFor, MembershipService.serveFetchRegisters, MembershipService.fetchRegisters,
    List.mem_map, List.mem_filterMap]
  constructor
  · rintro ⟨info, ⟨held, ⟨id, asked, found⟩, sent⟩, arrived⟩
    have named := Membership.nodeId_of_get found
    rw [← sent, protoToRegister_registerToProto (stamped id held found)] at arrived
    subst arrived
    subst named
    exact ⟨held, asked, found, rfl⟩
  · rintro ⟨held, asked, found, arrived⟩
    refine ⟨registerToProto held, ⟨held, ⟨register.nodeId, asked, found⟩, rfl⟩, ?_⟩
    rw [protoToRegister_registerToProto (stamped _ held found), arrived]

/-- Merging what a peer sent: every id asked for is merged with the peer's register of it. -/
theorem get_syncFetched {peer : MembershipService} (kept : service.Kept blake3)
    (stamped : Stamped peer.swim.membership) (ids : List String) (env : Circumstances)
    {nodeId : String} (other : nodeId ≠ service.localNodeId) :
    (service.syncNodes (sentFor peer ids) env).1.swim.membership.get nodeId =
      if nodeId ∈ ids then
        received env.nowMs (service.swim.membership.get nodeId) (peer.swim.membership.get nodeId)
      else service.swim.membership.get nodeId := by
  have positive : ∀ register ∈ sentFor peer ids, 1 ≤ register.incarnation.toNat := by
    intro register member
    obtain ⟨held, _, found, same⟩ := (mem_sentFor stamped).mp member
    rw [same]
    exact stamped _ held found
  have told : (if nodeId ∈ ids then
        received env.nowMs (service.swim.membership.get nodeId) (peer.swim.membership.get nodeId)
      else service.swim.membership.get nodeId) =
      received env.nowMs (service.swim.membership.get nodeId)
        (if nodeId ∈ ids then peer.swim.membership.get nodeId else none) := by
    split
    · rfl
    · rfl
  rw [told]
  apply get_syncNodes kept positive env other
  intro register
  rw [mem_sentFor stamped]
  constructor
  · rintro ⟨⟨held, asked, found, arrived⟩, rfl⟩
    exact ⟨held, by rw [if_pos asked, found], arrived⟩
  · rintro ⟨held, found, arrived⟩
    split at found
    · rename_i asked
      obtain rfl := Membership.nodeId_of_get found
      subst arrived
      exact ⟨⟨held, asked, found, rfl⟩, rfl⟩
    · cases found

/-- An exchange skips an empty batch, which is the same as merging it. -/
theorem get_merged {peer : MembershipService} (kept : service.Kept blake3)
    (stamped : Stamped peer.swim.membership) (ids : List String) (env : Circumstances)
    {nodeId : String} (other : nodeId ≠ service.localNodeId) :
    (if (peer.serveFetchRegisters ids).isEmpty then service
      else (service.syncNodes (sentFor peer ids) env).1).swim.membership.get nodeId =
      if nodeId ∈ ids then
        received env.nowMs (service.swim.membership.get nodeId) (peer.swim.membership.get nodeId)
      else service.swim.membership.get nodeId := by
  rw [← get_syncFetched kept stamped ids env other]
  split
  · rename_i none
    have nothing : sentFor peer ids = [] := by
      rw [sentFor, List.isEmpty_iff.mp none, List.map_nil]
    rw [nothing]
    show _ = (service.persistLocalIncarnation env.metaWritable).swim.membership.get nodeId
    rw [MembershipService.persist_swim]
  · rfl

end Batch

/-! ### One exchange -/

section Exchange

variable {blake3 : Bytes → Hash} {service peer : MembershipService}

theorem fetch_eq (ids : List String) :
    (if ids.isEmpty then [] else peer.serveFetchRegisters ids) = peer.serveFetchRegisters ids := by
  split
  · rename_i none
    rw [List.isEmpty_iff.mp none]
    rfl
  · rfl

/-- Either the roots agree and nothing moves, or each side merges the registers on its list. -/
theorem syncWithPeer_get (kept : service.Kept blake3) (kept' : peer.Kept blake3)
    (env peerEnv : Circumstances) {nodeId : String} (other : nodeId ≠ service.localNodeId)
    (other' : nodeId ≠ peer.localNodeId) :
    let after := syncWithPeer blake3 service peer env peerEnv
    let diff := merkleDiff blake3 (treeOf blake3 service) (treeOf blake3 peer)
    let mine := service.swim.membership.get nodeId
    let theirs := peer.swim.membership.get nodeId
    ((treeOf blake3 service).rootHash = (treeOf blake3 peer).rootHash ∧
        after.1.swim = service.swim ∧ after.2.swim = peer.swim) ∨
      (after.1.swim.membership.get nodeId =
          (if nodeId ∈ diff.needFromRemote then received env.nowMs mine theirs else mine) ∧
        after.2.swim.membership.get nodeId =
          (if nodeId ∈ diff.needFromLocal then received peerEnv.nowMs theirs mine else theirs)) := by
  intro after diff mine theirs
  obtain ⟨read, tree⟩ := merkleTree_spec kept env.iteration.members
  obtain ⟨read', tree'⟩ := merkleTree_spec kept' peerEnv.iteration.members
  obtain ⟨session, session', found⟩ := merkleDiffWithPeer_spec read.kept read'.kept env peerEnv
  obtain ⟨exchanged, driven⟩ : ∃ exchanged, merkleDiffWithPeer blake3
      (service.merkleTree blake3 env.iteration.members).1
      (peer.merkleTree blake3 peerEnv.iteration.members).1 env peerEnv = exchanged := ⟨_, rfl⟩
  rw [driven] at session session' found
  rw [read.treeOf, read'.treeOf] at found
  have mineRead := read.trans session
  have theirsRead := read'.trans session'
  have whole : after =
      if (treeOf blake3 peer).rootHash.toList = (treeOf blake3 service).rootHash.toList then
        ((service.merkleTree blake3 env.iteration.members).1,
          (peer.merkleTree blake3 peerEnv.iteration.members).1)
      else
        (if (exchanged.2.1.serveFetchRegisters diff.needFromRemote).isEmpty then exchanged.1
          else (exchanged.1.syncNodes (sentFor exchanged.2.1 diff.needFromRemote) env).1,
        if (exchanged.1.serveFetchRegisters diff.needFromLocal).isEmpty then exchanged.2.1
          else (exchanged.2.1.syncNodes (sentFor exchanged.1 diff.needFromLocal) peerEnv).1) := by
    simp only [after, syncWithPeer, MembershipService.merkleRoot, tree, tree', driven,
      fetch_eq]
    rw [found]
    rfl
  by_cases same : (treeOf blake3 peer).rootHash.toList = (treeOf blake3 service).rootHash.toList
  · rw [if_pos same] at whole
    rw [whole]
    exact .inl ⟨(Vector.toList_inj.mp same).symm, read.swim, read'.swim⟩
  · rw [if_neg same] at whole
    rw [whole]
    right
    constructor
    · rw [get_merged session.kept session'.kept.stamped _ env (mineRead.named ▸ other),
        mineRead.swim, theirsRead.swim]
    · rw [get_merged session'.kept session.kept.stamped _ peerEnv (theirsRead.named ▸ other'),
        mineRead.swim, theirsRead.swim]

/-- A side whose list leaves the node out already has what the merge would give it. -/
theorem hashed_of_not_onlyIn
    (separates : SeparatesRegisters blake3 service.swim.membership peer.swim.membership)
    {nodeId : String}
    (shared : ¬ OnlyIn ((treeOf blake3 peer).buckets (leafIndex blake3 nodeId))
      ((treeOf blake3 service).buckets (leafIndex blake3 nodeId)) nodeId) :
    (service.swim.membership.get nodeId).map MemberRegister.hashedFields =
      (mergedView (service.swim.membership.get nodeId) (peer.swim.membership.get nodeId)).map
        MemberRegister.hashedFields := by
  apply hashed_mergedView_of_known
  intro register found
  exact known_of_not_onlyIn separates.symm shared found

/-- On every third node both services end with the hashed fields of the merge of their registers. -/
theorem exchange_converges (running : service.Running blake3) (running' : peer.Running blake3)
    (free : CollisionFree blake3 (treeOf blake3 service) (treeOf blake3 peer))
    (separates : SeparatesRegisters blake3 service.swim.membership peer.swim.membership)
    (env peerEnv : Circumstances) {nodeId : String} (other : nodeId ≠ service.localNodeId)
    (other' : nodeId ≠ peer.localNodeId) :
    let after := syncWithPeer blake3 service peer env peerEnv
    let merged :=
      mergedView (service.swim.membership.get nodeId) (peer.swim.membership.get nodeId)
    (after.1.swim.membership.get nodeId).map MemberRegister.hashedFields =
        merged.map MemberRegister.hashedFields ∧
      (after.2.swim.membership.get nodeId).map MemberRegister.hashedFields =
        merged.map MemberRegister.hashedFields := by
  intro after merged
  have pair : Comparable blake3 (treeOf blake3 service) (treeOf blake3 peer) :=
    .of_memberships free separates
  have inLeaves := leafIndex_lt blake3 nodeId
  have swapped : merged =
      mergedView (peer.swim.membership.get nodeId) (service.swim.membership.get nodeId) :=
    mergedView_comm nodeId
  rcases syncWithPeer_get running.kept running'.kept env peerEnv other other' with
    ⟨roots, still, still'⟩ | ⟨mine, theirs⟩
  · have buckets := pair.buckets_of_root roots inLeaves
    rw [still, still']
    constructor
    · apply hashed_of_not_onlyIn separates
      rintro ⟨_, member, absent⟩
      exact absent (buckets ▸ member)
    · rw [swapped]
      apply hashed_of_not_onlyIn separates.symm
      rintro ⟨_, member, absent⟩
      exact absent (buckets ▸ member)
  · rw [mine, theirs]
    constructor
    · split
      · exact hashed_received _ _ _
      · rename_i unlisted
        exact hashed_of_not_onlyIn separates fun only =>
          unlisted (pair.fetches inLeaves (pair.differ_of_onlyRemote only) only)
    · rw [swapped]
      split
      · exact hashed_received _ _ _
      · rename_i unlisted
        exact hashed_of_not_onlyIn separates.symm fun only =>
          unlisted (pair.pushes inLeaves (pair.differ_of_onlyLocal only) only)

end Exchange

/-! ### A sample -/

def sampleEnv : Circumstances := ⟨5, ⟨.sorted _, .sorted _⟩, true⟩

/-- A service that booted and then heard of a third node. -/
def sampleService (nodeId address : String) (incarnation : UInt64) : MembershipService :=
  (MembershipService.boot sampleBlake3 nodeId "127.0.0.1:1" 0 ∅ ∅ ∅ sampleEnv).step sampleBlake3
    sampleEnv (.register (protoToRegister ⟨"third", address, ∅, ∅, 0, 1, incarnation, 0⟩))

theorem sampleService_running (nodeId address : String) (incarnation : UInt64) :
    (sampleService nodeId address incarnation).Running sampleBlake3 := by
  apply MembershipService.Running.step (.boot ..)
  intro register member
  rw [ServiceCall.registers, List.mem_singleton] at member
  exact ⟨_, member⟩

/-- A service that booted and then heard of a third node holds the two registers. -/
theorem told_membership {nodeId : String} (ordered : nodeId < "third") {info : ProtoNodeInfo}
    (named : info.id = "third") :
    ((MembershipService.boot sampleBlake3 nodeId "127.0.0.1:1" 0 ∅ ∅ ∅ sampleEnv).step sampleBlake3
        sampleEnv (.register (protoToRegister info))).swim.membership =
      sampleMembership nodeId { protoToRegister info with updatedAtMs := 5 } := by
  show (MembershipService.persistLocalIncarnation _ _).swim.membership = _
  rw [MembershipService.persist_swim]
  show (Swim.handleAliveState _ _ _).1.membership = _
  rw [Swim.handleAliveState, if_neg]
  · rfl
  · intro same
    exact ne_of_gt ordered (named.symm.trans same)

def sampleHere : MembershipService := sampleService "first" "127.0.0.1:3" 1
def sampleThere : MembershipService := sampleService "second" "127.0.0.1:4" 2

theorem sampleHere_membership : sampleHere.swim.membership = sampleFirst :=
  told_membership (by decide) rfl

theorem sampleThere_membership : sampleThere.swim.membership = sampleSecond :=
  told_membership (by decide) rfl

theorem sample_collisionFree :
    CollisionFree sampleBlake3 (treeOf sampleBlake3 sampleHere) (treeOf sampleBlake3 sampleThere) := by
  rw [treeOf, treeOf, sampleHere_membership, sampleThere_membership]
  refine Set.InjOn.mono ?_ sample_buildsFree
  intro bytes hashed
  exact hashed.imp .inl .inl

theorem sample_separates :
    SeparatesRegisters sampleBlake3 sampleHere.swim.membership sampleThere.swim.membership := by
  rw [sampleHere_membership, sampleThere_membership]
  intro id id' register register' found found' same
  exfalso
  revert same
  rcases held_sampleMembership rfl (by decide) found with rfl | rfl
  · rcases held_sampleMembership rfl (by decide) found' with rfl | rfl
    · decide +kernel
    · decide +kernel
  · rcases held_sampleMembership rfl (by decide) found' with rfl | rfl
    · decide +kernel
    · decide +kernel

/-- Two services that heard of a third node under different addresses agree on the later one. -/
theorem conflicting_addresses_converge :
    let after := syncWithPeer sampleBlake3 sampleHere sampleThere sampleEnv sampleEnv
    let later := some (sampleThird "127.0.0.1:4" 2).hashedFields
    (after.1.swim.membership.get "third").map MemberRegister.hashedFields = later ∧
      (after.2.swim.membership.get "third").map MemberRegister.hashedFields = later := by
  have converged := exchange_converges (sampleService_running "first" "127.0.0.1:3" 1)
    (sampleService_running "second" "127.0.0.1:4" 2) sample_collisionFree sample_separates sampleEnv
    sampleEnv (show "third" ≠ "first" by decide) (show "third" ≠ "second" by decide)
  have merged : (sampleThird "127.0.0.1:3" 1).merge (sampleThird "127.0.0.1:4" 2) =
      sampleThird "127.0.0.1:4" 2 := by
    apply MemberRegister.merge_of_dominated
    decide
  have first : (sampleService "first" "127.0.0.1:3" 1).swim.membership.get "third" =
      some (sampleThird "127.0.0.1:3" 1) := by
    rw [← sampleHere, sampleHere_membership]
    exact get_sampleMembership rfl (by decide) _
  have second : (sampleService "second" "127.0.0.1:4" 2).swim.membership.get "third" =
      some (sampleThird "127.0.0.1:4" 2) := by
    rw [← sampleThere, sampleThere_membership]
    exact get_sampleMembership rfl (by decide) _
  rw [first, second, mergedView, merged] at converged
  exact converged

end Lycoris.Daemon
