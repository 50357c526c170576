import Lycoris.Cluster.Sync

/-!
What a diff session against an honest peer finds: every id whose entry one tree has and the other
has not is on the list of the side that has it.
-/

namespace Lycoris.Cluster
open Lib

variable (blake3 : Bytes → Hash)

/-- A whole session over two trees, each reply taken from the remote one. -/
def merkleDiff (localTree remoteTree : MerkleTree) : DiffResult :=
  let plan := (MerkleDiff.new localTree).planLeafRefs blake3 (answerRefs remoteTree MerkleDiff.topRefs)
  plan.1.finish blake3 (answerRefs remoteTree plan.2)

/-! ### Loops as lists -/

theorem mem_sortDedup {ids : List String} {id : String} : id ∈ sortDedup ids ↔ id ∈ ids := by
  have sorted : (ids.mergeSort fun a b => decide (a ≤ b)).Pairwise (· ≤ ·) :=
    List.pairwise_mergeSort' (· ≤ ·) ids
  rw [sortDedup, sorted.destutter_eq_dedup, List.mem_dedup, List.mem_mergeSort]

namespace MerkleDiff

variable (tree : MerkleTree) (hashes : Nat × Nat → Option Hash)

def emptySplit : Hash := (tree.emptySubtreeHash splitDepth).getD (hashEmpty blake3)

def localSplit (index : Nat) : Hash :=
  (tree.nodeHash splitDepth index).getD (emptySplit blake3 tree)

def remoteSplit (index : Nat) : Hash := (hashes (splitDepth, index)).getD (emptySplit blake3 tree)

/-- The remote side has nothing under this node, the local side has. -/
def onlyLocal (index : Nat) : Bool :=
  localSplit blake3 tree index ≠ remoteSplit blake3 tree hashes index ∧
    remoteSplit blake3 tree hashes index = emptySplit blake3 tree

def diverges (index : Nat) : Bool :=
  localSplit blake3 tree index ≠ remoteSplit blake3 tree hashes index ∧
    remoteSplit blake3 tree hashes index ≠ emptySplit blake3 tree

theorem foldl_planStep (indices : List Nat) (diff : MerkleDiff) (refs : List NodeRef) :
    indices.foldl (planStep blake3 hashes) (diff, refs) =
      ({ diff with
          needFromLocal := diff.needFromLocal ++
            (indices.filter (onlyLocal blake3 diff.tree hashes)).flatMap
              (diff.tree.collectNodeIds splitDepth)
          divergent := diff.divergent ++ indices.filter (diverges blake3 diff.tree hashes) },
        refs ++ (indices.filter (diverges blake3 diff.tree hashes)).flatMap splitRefs) := by
  induction indices generalizing diff refs with
  | nil => simp
  | cons index rest ih =>
    have step : planStep blake3 hashes (diff, refs) index =
        if localSplit blake3 diff.tree index = remoteSplit blake3 diff.tree hashes index then (diff, refs)
        else if remoteSplit blake3 diff.tree hashes index = emptySplit blake3 diff.tree then
          ({ diff with
              needFromLocal := diff.needFromLocal ++ diff.tree.collectNodeIds splitDepth index }, refs)
        else ({ diff with divergent := diff.divergent ++ [index] }, refs ++ splitRefs index) := rfl
    rw [List.foldl_cons, step]
    by_cases same : localSplit blake3 diff.tree index = remoteSplit blake3 diff.tree hashes index
    · rw [if_pos same, ih, List.filter_cons_of_neg (by simp [onlyLocal, same]),
        List.filter_cons_of_neg (by simp [diverges, same])]
    · by_cases empty : remoteSplit blake3 diff.tree hashes index = emptySplit blake3 diff.tree
      · have only : onlyLocal blake3 diff.tree hashes index = true := decide_eq_true ⟨same, empty⟩
        rw [if_neg same, if_pos empty, ih, List.filter_cons_of_pos only,
          List.filter_cons_of_neg (by simp [diverges, empty]), List.flatMap_cons, List.append_assoc]
      · have apart : diverges blake3 diff.tree hashes index = true := decide_eq_true ⟨same, empty⟩
        rw [if_neg same, if_neg empty, ih, List.filter_cons_of_neg (by simp [onlyLocal, empty]),
          List.filter_cons_of_pos apart, List.flatMap_cons, List.append_assoc, List.append_assoc,
          List.singleton_append]

/-- The ids that one leaf adds to the fetch list and to the push list. -/
def leafNeeds (remote : List RemoteNode) (index : Nat) : List String × List String :=
  finishLeaf blake3 tree remote ([], []) index

theorem foldl_finishLeaf (remote : List RemoteNode) (leaves : List Nat)
    (acc : List String × List String) :
    leaves.foldl (finishLeaf blake3 tree remote) acc =
      (acc.1 ++ leaves.flatMap fun index => (leafNeeds blake3 tree remote index).1,
        acc.2 ++ leaves.flatMap fun index => (leafNeeds blake3 tree remote index).2) := by
  induction leaves generalizing acc with
  | nil => simp
  | cons index rest ih =>
    have step : finishLeaf blake3 tree remote acc index =
        (acc.1 ++ (leafNeeds blake3 tree remote index).1,
          acc.2 ++ (leafNeeds blake3 tree remote index).2) := by
      unfold leafNeeds finishLeaf
      dsimp only
      split
      · simp
      · split
        · simp
        · simp
    rw [List.foldl_cons, step, ih, List.flatMap_cons, List.flatMap_cons, List.append_assoc,
      List.append_assoc]

end MerkleDiff

/-- A session in one expression, whatever the replies: its second round covers the leaves under the
divergent nodes. -/
theorem session_eq (tree : MerkleTree) (top bottom : List RemoteNode) :
    let hashes := MerkleDiff.replyHashes top
    let divergent := (List.range (2 ^ splitDepth)).filter (MerkleDiff.diverges blake3 tree hashes)
    let leaves := divergent.flatMap fun index =>
      (List.range (2 ^ (merkleTreeDepth - splitDepth))).map (splitLeaf index)
    ((MerkleDiff.new tree).planLeafRefs blake3 top).2 = divergent.flatMap MerkleDiff.splitRefs ∧
    ((MerkleDiff.new tree).planLeafRefs blake3 top).1.finish blake3 bottom =
      { needFromRemote := sortDedup
          (leaves.flatMap fun index => (MerkleDiff.leafNeeds blake3 tree bottom index).1)
        needFromLocal := sortDedup
          (((List.range (2 ^ splitDepth)).filter (MerkleDiff.onlyLocal blake3 tree hashes)).flatMap
              (tree.collectNodeIds splitDepth) ++
            leaves.flatMap fun index => (MerkleDiff.leafNeeds blake3 tree bottom index).2) } := by
  intro hashes divergent leaves
  rw [MerkleDiff.planLeafRefs, MerkleDiff.foldl_planStep]
  dsimp only [MerkleDiff.new, List.nil_append]
  refine ⟨rfl, ?_⟩
  rw [MerkleDiff.finish, MerkleDiff.foldl_finishLeaf]
  rfl

theorem merkleDiff_eq (localTree remoteTree : MerkleTree) :
    let hashes := MerkleDiff.replyHashes (answerRefs remoteTree MerkleDiff.topRefs)
    let divergent := (List.range (2 ^ splitDepth)).filter (MerkleDiff.diverges blake3 localTree hashes)
    let leaves := divergent.flatMap fun index =>
      (List.range (2 ^ (merkleTreeDepth - splitDepth))).map (splitLeaf index)
    let reply := answerRefs remoteTree (divergent.flatMap MerkleDiff.splitRefs)
    merkleDiff blake3 localTree remoteTree =
      { needFromRemote := sortDedup
          (leaves.flatMap fun index => (MerkleDiff.leafNeeds blake3 localTree reply index).1)
        needFromLocal := sortDedup
          (((List.range (2 ^ splitDepth)).filter (MerkleDiff.onlyLocal blake3 localTree hashes)).flatMap
              (localTree.collectNodeIds splitDepth) ++
            leaves.flatMap fun index => (MerkleDiff.leafNeeds blake3 localTree reply index).2) } := by
  intro hashes divergent leaves reply
  obtain ⟨planned, _⟩ := session_eq blake3 localTree (answerRefs remoteTree MerkleDiff.topRefs) []
  rw [merkleDiff, planned]
  exact (session_eq blake3 localTree _ _).2

theorem mem_collectLevels {tree : MerkleTree} {levels index : Nat} {id : String} :
    id ∈ tree.collectLevels levels index ↔
      ∃ position, position / 2 ^ levels = index ∧ position < 2 ^ merkleTreeDepth ∧
        id ∈ (tree.buckets position).map Prod.fst := by
  induction levels generalizing index with
  | zero =>
    rw [MerkleTree.collectLevels]
    by_cases inRange : index < 2 ^ merkleTreeDepth
    · rw [leafEntries_eq inRange]
      constructor
      · intro member
        exact ⟨index, by simp, inRange, member⟩
      · rintro ⟨position, here, _, member⟩
        have same : position = index := by simpa using here
        rw [← same]
        exact member
    · rw [MerkleTree.leafEntries, if_pos (by omega)]
      constructor
      · intro member
        cases member
      · rintro ⟨position, here, small, _⟩
        have same : position = index := by simpa using here
        omega
  | succ levels ih =>
    rw [MerkleTree.collectLevels, List.mem_append, ih, ih]
    constructor
    · intro either
      rcases either with ⟨position, here, rest⟩ | ⟨position, here, rest⟩
      · exact ⟨position, leaf_below (.inl here), rest⟩
      · exact ⟨position, leaf_below (.inr here), rest⟩
    · rintro ⟨position, here, rest⟩
      rcases leaf_split here with left | right
      · exact .inl ⟨position, left, rest⟩
      · exact .inr ⟨position, right, rest⟩

theorem splitLeaf_eq {index leaf : Nat} (small : leaf < 2 ^ (merkleTreeDepth - splitDepth)) :
    splitLeaf index leaf = index * 2 ^ (merkleTreeDepth - splitDepth) + leaf := by
  rw [splitLeaf, ← Nat.shiftLeft_add_eq_or_of_lt small, Nat.shiftLeft_eq]

/-- Every leaf lies under its node at the split depth. -/
theorem splitLeaf_div_mod (position : Nat) :
    splitLeaf (position / 2 ^ (merkleTreeDepth - splitDepth))
      (position % 2 ^ (merkleTreeDepth - splitDepth)) = position := by
  rw [splitLeaf_eq (Nat.mod_lt _ (Nat.two_pow_pos _)), Nat.div_add_mod']

theorem split_lt {position : Nat} (inLeaves : position < 2 ^ merkleTreeDepth) :
    position / 2 ^ (merkleTreeDepth - splitDepth) < 2 ^ splitDepth := by
  apply Nat.div_lt_of_lt_mul
  rw [← Nat.pow_add, Nat.sub_add_cancel splitDepth_le]
  exact inLeaves

theorem mem_topRefs {index : Nat} (inRange : index < 2 ^ splitDepth) :
    ⟨splitDepth, index⟩ ∈ MerkleDiff.topRefs := by
  refine List.mem_flatMap.mpr ⟨splitDepth, List.mem_range.mpr (Nat.lt_succ_self _), ?_⟩
  exact List.mem_map.mpr ⟨index, List.mem_range.mpr inRange, rfl⟩

variable {blake3} in
theorem mem_refs {tree : MerkleTree} {position : Nat} {hashes : Nat × Nat → Option Hash}
    (inLeaves : position < 2 ^ merkleTreeDepth)
    (diverges : MerkleDiff.diverges blake3 tree hashes
      (position / 2 ^ (merkleTreeDepth - splitDepth)) = true) :
    ⟨merkleTreeDepth, position⟩ ∈
      ((List.range (2 ^ splitDepth)).filter (MerkleDiff.diverges blake3 tree hashes)).flatMap
        MerkleDiff.splitRefs := by
  refine List.mem_flatMap.mpr ⟨position / 2 ^ (merkleTreeDepth - splitDepth), ?_, ?_⟩
  · exact List.mem_filter.mpr ⟨List.mem_range.mpr (split_lt inLeaves), diverges⟩
  · refine List.mem_map.mpr ⟨position % 2 ^ (merkleTreeDepth - splitDepth), ?_, ?_⟩
    · exact List.mem_range.mpr (Nat.mod_lt _ (Nat.two_pow_pos _))
    · rw [splitLeaf_div_mod]

variable {blake3} in
theorem mem_divergentLeaves {tree : MerkleTree} {position : Nat} {hashes : Nat × Nat → Option Hash}
    (inLeaves : position < 2 ^ merkleTreeDepth)
    (diverges : MerkleDiff.diverges blake3 tree hashes
      (position / 2 ^ (merkleTreeDepth - splitDepth)) = true) :
    position ∈
      ((List.range (2 ^ splitDepth)).filter (MerkleDiff.diverges blake3 tree hashes)).flatMap fun index =>
        (List.range (2 ^ (merkleTreeDepth - splitDepth))).map (splitLeaf index) := by
  obtain ⟨index, kept, listed⟩ := List.mem_flatMap.mp (mem_refs inLeaves diverges)
  obtain ⟨leaf, small, same⟩ := List.mem_map.mp listed
  exact List.mem_flatMap.mpr ⟨index, kept, List.mem_map.mpr ⟨leaf, small, congrArg NodeRef.index same⟩⟩

/-- Two trees of sorted buckets among whose strings there is no collision. -/
structure Traced (localTree remoteTree : MerkleTree) : Prop where
  built : localTree.Built blake3
  built' : remoteTree.Built blake3
  free : CollisionFree blake3 localTree remoteTree
  sorted : ∀ position, (localTree.buckets position).Pairwise BeforeById
  sorted' : ∀ position, (remoteTree.buckets position).Pairwise BeforeById

namespace Traced

variable {blake3} {localTree remoteTree : MerkleTree} (pair : Traced blake3 localTree remoteTree)
include pair

theorem emptySplit_eq :
    MerkleDiff.emptySplit blake3 localTree =
      uniform (hashInner blake3) (hashEmpty blake3) (merkleTreeDepth - splitDepth) := by
  rw [MerkleDiff.emptySplit, MerkleTree.emptySubtreeHash, pair.built.emptyHashes,
    ← List.getD_eq_getElem?_getD, emptyHashes_getD blake3 splitDepth_le]

theorem string_eq {position depth index : Nat} (within : depth ≤ merkleTreeDepth)
    (inRange : index < 2 ^ depth) (inLeaves : position < 2 ^ merkleTreeDepth)
    (below : position / 2 ^ (merkleTreeDepth - depth) = index)
    (same : localTree.nodes (flatIndex depth index) = remoteTree.nodes (flatIndex depth index)) :
    bucketBytes (localTree.buckets position) = bucketBytes (remoteTree.buckets position) := by
  apply bucketBytes_eq_of_hash_eq pair.free inLeaves
  exact pair.built.bucketHash_eq pair.built' pair.free within inRange same below

/-- Equal roots, equal strings. -/
theorem string_of_root (same : localTree.rootHash = remoteTree.rootHash) {position : Nat}
    (inLeaves : position < 2 ^ merkleTreeDepth) :
    bucketBytes (localTree.buckets position) = bucketBytes (remoteTree.buckets position) := by
  refine pair.string_eq (Nat.zero_le _) Nat.one_pos inLeaves ?_ same
  rw [Nat.sub_zero]
  exact Nat.div_eq_of_lt inLeaves

theorem leafNode_ne {position : Nat} (inLeaves : position < 2 ^ merkleTreeDepth)
    (differ : bucketBytes (localTree.buckets position) ≠ bucketBytes (remoteTree.buckets position)) :
    localTree.nodes (flatIndex merkleTreeDepth position) ≠
      remoteTree.nodes (flatIndex merkleTreeDepth position) := by
  intro same
  exact differ (pair.string_eq (Nat.le_refl _) inLeaves inLeaves (by simp) same)

/-- A bucket that differs is under a node that differs, and unless the remote side is empty there,
that node goes to the second round. -/
theorem split_cases {position : Nat} (inLeaves : position < 2 ^ merkleTreeDepth)
    (differ : bucketBytes (localTree.buckets position) ≠ bucketBytes (remoteTree.buckets position)) :
    let index := position / 2 ^ (merkleTreeDepth - splitDepth)
    let hashes := MerkleDiff.replyHashes (answerRefs remoteTree MerkleDiff.topRefs)
    (MerkleDiff.onlyLocal blake3 localTree hashes index = true ∧ remoteTree.buckets position = []) ∨
      MerkleDiff.diverges blake3 localTree hashes index = true := by
  intro index hashes
  have inRange : index < 2 ^ splitDepth := split_lt inLeaves
  have here : MerkleDiff.localSplit blake3 localTree index =
      localTree.nodes (flatIndex splitDepth index) := by
    rw [MerkleDiff.localSplit, nodeHash_eq splitDepth_le inRange, Option.getD_some]
  have there : MerkleDiff.remoteSplit blake3 localTree hashes index =
      remoteTree.nodes (flatIndex splitDepth index) := by
    have known : hashes (splitDepth, index) = some (remoteTree.nodes (flatIndex splitDepth index)) :=
      MerkleDiff.replyHashes_answer splitDepth_le inRange (mem_topRefs inRange)
    rw [MerkleDiff.remoteSplit, known, Option.getD_some]
  have apart : MerkleDiff.localSplit blake3 localTree index ≠
      MerkleDiff.remoteSplit blake3 localTree hashes index := by
    rw [here, there]
    intro same
    exact differ (pair.string_eq splitDepth_le inRange inLeaves rfl same)
  by_cases empty : MerkleDiff.remoteSplit blake3 localTree hashes index =
      MerkleDiff.emptySplit blake3 localTree
  · refine .inl ⟨decide_eq_true ⟨apart, empty⟩, ?_⟩
    rw [there, pair.emptySplit_eq] at empty
    exact pair.built'.bucket_empty pair.free.symm splitDepth_le inRange empty rfl inLeaves
  · exact .inr (decide_eq_true ⟨apart, empty⟩)

/-- In the second round a bucket that differs is walked against the remote one. -/
theorem leafNeeds_eq {refs : List NodeRef} {position : Nat}
    (inLeaves : position < 2 ^ merkleTreeDepth)
    (differ : bucketBytes (localTree.buckets position) ≠ bucketBytes (remoteTree.buckets position))
    (asked : ⟨merkleTreeDepth, position⟩ ∈ refs) :
    MerkleDiff.leafNeeds blake3 localTree (answerRefs remoteTree refs) position =
      walkBuckets (localTree.buckets position) (remoteTree.buckets position) := by
  have sorted : sortBucket (remoteTree.buckets position) = remoteTree.buckets position := by
    apply List.mergeSort_of_pairwise
    exact (pair.sorted' position).imp fun less => decide_eq_true (le_of_lt less)
  rw [MerkleDiff.leafNeeds, MerkleDiff.finishLeaf, nodeHash_eq (Nat.le_refl _) inLeaves,
    MerkleDiff.leafHashes_answer inLeaves asked, MerkleDiff.replyEntries_answer inLeaves asked,
    leafEntries_eq inLeaves]
  simp only [Option.getD_some, pair.leafNode_ne inLeaves differ, if_false, List.nil_append,
    diffLeafBuckets, sorted]

/-- In a bucket that differs, every entry that only the remote tree has is fetched. -/
theorem fetches {position : Nat} (inLeaves : position < 2 ^ merkleTreeDepth)
    (differ : bucketBytes (localTree.buckets position) ≠ bucketBytes (remoteTree.buckets position))
    {id : String} (only : OnlyIn (remoteTree.buckets position) (localTree.buckets position) id) :
    id ∈ (merkleDiff blake3 localTree remoteTree).needFromRemote := by
  rcases pair.split_cases inLeaves differ with ⟨_, vacant⟩ | diverges
  · obtain ⟨hash, member, _⟩ := only
    rw [vacant] at member
    cases member
  · have walked := (mem_walkBuckets (pair.sorted position) (pair.sorted' position) id).1.mpr only
    rw [merkleDiff_eq]
    refine mem_sortDedup.mpr (List.mem_flatMap.mpr ⟨position, ?_, ?_⟩)
    · exact mem_divergentLeaves inLeaves diverges
    · rw [pair.leafNeeds_eq inLeaves differ (mem_refs inLeaves diverges)]
      exact walked

/-- In a bucket that differs, every entry that only the local tree has is pushed. -/
theorem pushes {position : Nat} (inLeaves : position < 2 ^ merkleTreeDepth)
    (differ : bucketBytes (localTree.buckets position) ≠ bucketBytes (remoteTree.buckets position))
    {id : String} (only : OnlyIn (localTree.buckets position) (remoteTree.buckets position) id) :
    id ∈ (merkleDiff blake3 localTree remoteTree).needFromLocal := by
  rw [merkleDiff_eq]
  refine mem_sortDedup.mpr ?_
  rcases pair.split_cases inLeaves differ with ⟨onlyLocal, _⟩ | diverges
  · -- Settled in round one: everything under the node is pushed.
    refine List.mem_append_left _
      (List.mem_flatMap.mpr ⟨position / 2 ^ (merkleTreeDepth - splitDepth), ?_, ?_⟩)
    · exact List.mem_filter.mpr ⟨List.mem_range.mpr (split_lt inLeaves), onlyLocal⟩
    · rw [MerkleTree.collectNodeIds, if_neg (not_lt.mpr splitDepth_le)]
      obtain ⟨hash, member, _⟩ := only
      exact mem_collectLevels.mpr ⟨position, rfl, inLeaves, List.mem_map.mpr ⟨(id, hash), member, rfl⟩⟩
  · have walked := (mem_walkBuckets (pair.sorted position) (pair.sorted' position) id).2.mpr only
    refine List.mem_append_right _ (List.mem_flatMap.mpr ⟨position, ?_, ?_⟩)
    · exact mem_divergentLeaves inLeaves diverges
    · rw [pair.leafNeeds_eq inLeaves differ (mem_refs inLeaves diverges)]
      exact walked

end Traced

/-- Two trees that a session can tell apart: no collisions, sorted buckets, and register hashes that
give their node ids away. -/
structure Comparable (localTree remoteTree : MerkleTree) : Prop extends
    Traced blake3 localTree remoteTree where
  named : ∀ position, ∀ entry ∈ localTree.buckets position, ∀ entry' ∈ remoteTree.buckets position,
    entry.2 = entry'.2 → entry.1 = entry'.1

namespace Comparable

variable {blake3} {localTree remoteTree : MerkleTree} (pair : Comparable blake3 localTree remoteTree)
include pair

/-- Buckets with one encoding are one bucket. -/
theorem bucket_eq {position : Nat}
    (same : bucketBytes (localTree.buckets position) = bucketBytes (remoteTree.buckets position)) :
    localTree.buckets position = remoteTree.buckets position :=
  bucketBytes_inj (pair.named position) same

theorem differ_of_onlyRemote {position : Nat} {id : String}
    (only : OnlyIn (remoteTree.buckets position) (localTree.buckets position) id) :
    bucketBytes (localTree.buckets position) ≠ bucketBytes (remoteTree.buckets position) := by
  intro same
  obtain ⟨hash, member, absent⟩ := only
  exact absent (pair.bucket_eq same ▸ member)

theorem differ_of_onlyLocal {position : Nat} {id : String}
    (only : OnlyIn (localTree.buckets position) (remoteTree.buckets position) id) :
    bucketBytes (localTree.buckets position) ≠ bucketBytes (remoteTree.buckets position) := by
  intro same
  obtain ⟨hash, member, absent⟩ := only
  exact absent (pair.bucket_eq same ▸ member)

/-- Equal roots, equal buckets. -/
theorem buckets_of_root (same : localTree.rootHash = remoteTree.rootHash) {position : Nat}
    (inLeaves : position < 2 ^ merkleTreeDepth) :
    localTree.buckets position = remoteTree.buckets position :=
  pair.bucket_eq (pair.string_of_root same inLeaves)

end Comparable

/-! ### Trees of memberships -/

/-- `hashRegister` separates the registers of two memberships by their hashed fields. -/
def SeparatesRegisters (m m' : Membership) : Prop :=
  ∀ nodeId nodeId' register register', m.get nodeId = some register →
    m'.get nodeId' = some register' → hashRegister blake3 register = hashRegister blake3 register' →
    register.hashedFields = register'.hashedFields

section Members

variable {blake3} {m m' : Membership} {order order' : HashOrder MemberRegister}

theorem SeparatesRegisters.symm (separates : SeparatesRegisters blake3 m m') :
    SeparatesRegisters blake3 m' m := by
  intro nodeId nodeId' register register' found found' same
  exact (separates nodeId' nodeId register' register found' found same.symm).symm

theorem Traced.of_memberships
    (free : CollisionFree blake3 (.fromMembership blake3 m order) (.fromMembership blake3 m' order')) :
    Traced blake3 (.fromMembership blake3 m order) (.fromMembership blake3 m' order') where
  built := MerkleTree.fromMembership_built m order
  built' := MerkleTree.fromMembership_built m' order'
  free := free
  sorted := memberBuckets_sorted blake3
  sorted' := memberBuckets_sorted blake3

theorem Comparable.of_named
    (free : CollisionFree blake3 (.fromMembership blake3 m order) (.fromMembership blake3 m' order'))
    (named : ∀ nodeId nodeId' register register', m.get nodeId = some register →
      m'.get nodeId' = some register' → hashRegister blake3 register = hashRegister blake3 register' →
      nodeId = nodeId') :
    Comparable blake3 (.fromMembership blake3 m order) (.fromMembership blake3 m' order') where
  toTraced := .of_memberships free
  named position entry member entry' member' same := by
    obtain ⟨_, register, found, hash⟩ := (mem_memberBuckets blake3).mp member
    obtain ⟨_, register', found', hash'⟩ := (mem_memberBuckets blake3).mp member'
    exact named _ _ register register' found found' (by rw [hash, hash', same])

theorem Comparable.of_memberships
    (free : CollisionFree blake3 (.fromMembership blake3 m order) (.fromMembership blake3 m' order'))
    (separates : SeparatesRegisters blake3 m m') :
    Comparable blake3 (.fromMembership blake3 m order) (.fromMembership blake3 m' order') := by
  refine .of_named free ?_
  intro nodeId nodeId' register register' found found' same
  have fields := separates _ _ register register' found found' same
  calc nodeId = register.nodeId := (Membership.nodeId_of_get found).symm
    _ = register'.nodeId := congrArg HashedFields.nodeId fields
    _ = nodeId' := Membership.nodeId_of_get found'

/-- An id that is not on the list: the other membership already has what this one holds of it. -/
theorem known_of_not_onlyIn (separates : SeparatesRegisters blake3 m m') {nodeId : String}
    (shared : ¬ OnlyIn (memberBuckets blake3 m order (leafIndex blake3 nodeId))
      (memberBuckets blake3 m' order' (leafIndex blake3 nodeId)) nodeId)
    {register : MemberRegister} (found : m.get nodeId = some register) :
    ∃ held, m'.get nodeId = some held ∧ held.hashedFields = register.hashedFields := by
  have here : (nodeId, hashRegister blake3 register) ∈
      memberBuckets blake3 m order (leafIndex blake3 nodeId) :=
    (mem_memberBuckets blake3).mpr ⟨rfl, register, found, rfl⟩
  have there : (nodeId, hashRegister blake3 register) ∈
      memberBuckets blake3 m' order' (leafIndex blake3 nodeId) := by
    by_contra absent
    exact shared ⟨_, here, absent⟩
  obtain ⟨_, held, found', hash⟩ := (mem_memberBuckets blake3).mp there
  exact ⟨held, found', (separates _ _ register held found found' hash.symm).symm⟩

end Members

end Lycoris.Cluster
