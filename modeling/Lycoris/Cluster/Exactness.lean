import Lycoris.Cluster.Diff

/-!
The Merkle diff is exact: its lists are the ids whose register hash one membership has and the other
has not, and replies with holes lose nothing that has to be pushed.
-/

namespace Lycoris.Cluster
open Lib

variable {blake3 : Bytes → Hash}

/-! ### Sorted lists -/

theorem sortDedup_sorted (ids : List String) : (sortDedup ids).Pairwise (· < ·) := by
  have sorted : (ids.mergeSort fun a b => decide (a ≤ b)).Pairwise (· ≤ ·) :=
    List.pairwise_mergeSort' (· ≤ ·) ids
  rw [sortDedup, sorted.destutter_eq_dedup]
  have both := (sorted.sublist (List.dedup_sublist _)).and (List.nodup_dedup _)
  exact both.imp fun pair => lt_of_le_of_ne pair.1 pair.2

/-! ### Complete replies -/

/-- The two buckets have different strings, and only the first has the id's entry. -/
def Uneven (bucket other : List (String × Hash)) (id : String) : Prop :=
  bucketBytes bucket ≠ bucketBytes other ∧ OnlyIn bucket other id

namespace Traced

variable {localTree remoteTree : MerkleTree} (pair : Traced blake3 localTree remoteTree)
include pair

/-- A leaf whose buckets agree adds nothing. -/
theorem leafNeeds_agreeing {refs : List NodeRef} {position : Nat}
    (inLeaves : position < 2 ^ merkleTreeDepth)
    (agree : bucketBytes (localTree.buckets position) = bucketBytes (remoteTree.buckets position))
    (asked : ⟨merkleTreeDepth, position⟩ ∈ refs) :
    MerkleDiff.leafNeeds blake3 localTree (answerRefs remoteTree refs) position = ([], []) := by
  have nodes : localTree.nodes (flatIndex merkleTreeDepth position) =
      remoteTree.nodes (flatIndex merkleTreeDepth position) := by
    rw [pair.built.node (Nat.le_refl _) inLeaves, pair.built'.node (Nat.le_refl _) inLeaves, Nat.sub_self,
      subtree, subtree, hashLeafBucket_congr agree]
  rw [MerkleDiff.leafNeeds, MerkleDiff.finishLeaf, nodeHash_eq (Nat.le_refl _) inLeaves,
    MerkleDiff.leafHashes_answer inLeaves asked]
  simp only [Option.getD_some, nodes, if_true]

theorem mem_leafNeeds {refs : List NodeRef} {position : Nat}
    (inLeaves : position < 2 ^ merkleTreeDepth) (asked : ⟨merkleTreeDepth, position⟩ ∈ refs)
    (id : String) :
    (id ∈ (MerkleDiff.leafNeeds blake3 localTree (answerRefs remoteTree refs) position).1 →
        Uneven (remoteTree.buckets position) (localTree.buckets position) id) ∧
      (id ∈ (MerkleDiff.leafNeeds blake3 localTree (answerRefs remoteTree refs) position).2 →
        Uneven (localTree.buckets position) (remoteTree.buckets position) id) := by
  by_cases agree : bucketBytes (localTree.buckets position) = bucketBytes (remoteTree.buckets position)
  · rw [pair.leafNeeds_agreeing inLeaves agree asked]
    exact ⟨fun none => absurd none List.not_mem_nil, fun none => absurd none List.not_mem_nil⟩
  · obtain ⟨pull, push⟩ := mem_walkBuckets (pair.sorted position) (pair.sorted' position) id
    rw [pair.leafNeeds_eq inLeaves agree asked]
    exact ⟨fun listed => ⟨Ne.symm agree, pull.mp listed⟩, fun listed => ⟨agree, push.mp listed⟩⟩

end Traced

/-- A leaf of the second round lies in the tree and was asked for. -/
theorem mem_leaves {divergent : List Nat} {position : Nat} (inSplit : ∀ index ∈ divergent, index < 2 ^ splitDepth)
    (listed : position ∈ divergent.flatMap fun index =>
      (List.range (2 ^ (merkleTreeDepth - splitDepth))).map (splitLeaf index)) :
    position < 2 ^ merkleTreeDepth ∧
      ⟨merkleTreeDepth, position⟩ ∈ divergent.flatMap MerkleDiff.splitRefs := by
  obtain ⟨index, member, inIndex⟩ := List.mem_flatMap.mp listed
  obtain ⟨leaf, small, same⟩ := List.mem_map.mp inIndex
  have below := List.mem_range.mp small
  constructor
  · have width : 2 ^ merkleTreeDepth = 2 ^ splitDepth * 2 ^ (merkleTreeDepth - splitDepth) := by
      rw [← Nat.pow_add, Nat.add_sub_cancel' splitDepth_le]
    have inRange := inSplit index member
    rw [← same, splitLeaf_eq below, width]
    have next : index + 1 ≤ 2 ^ splitDepth := inRange
    calc index * 2 ^ (merkleTreeDepth - splitDepth) + leaf
        < (index + 1) * 2 ^ (merkleTreeDepth - splitDepth) := by
          rw [Nat.succ_mul]
          omega
      _ ≤ 2 ^ splitDepth * 2 ^ (merkleTreeDepth - splitDepth) := Nat.mul_le_mul_right _ next
  · exact List.mem_flatMap.mpr ⟨index, member, List.mem_map.mpr ⟨leaf, small, by rw [same]⟩⟩

namespace Traced

variable {localTree remoteTree : MerkleTree} (pair : Traced blake3 localTree remoteTree)
include pair

theorem mem_needFromRemote {id : String} :
    id ∈ (merkleDiff blake3 localTree remoteTree).needFromRemote ↔
      ∃ position < 2 ^ merkleTreeDepth,
        Uneven (remoteTree.buckets position) (localTree.buckets position) id := by
  constructor
  · intro member
    rw [merkleDiff_eq] at member
    obtain ⟨position, listed, needed⟩ := List.mem_flatMap.mp (mem_sortDedup.mp member)
    obtain ⟨inLeaves, asked⟩ := mem_leaves
      (fun index kept => List.mem_range.mp (List.mem_filter.mp kept).1) listed
    exact ⟨position, inLeaves, (pair.mem_leafNeeds inLeaves asked id).1 needed⟩
  · rintro ⟨position, inLeaves, differ, only⟩
    exact pair.fetches inLeaves (Ne.symm differ) only

/-- A node that round one settles has nothing on the remote side. -/
theorem vacant_of_onlyLocal {position : Nat} (inLeaves : position < 2 ^ merkleTreeDepth)
    (settled : MerkleDiff.onlyLocal blake3 localTree
      (MerkleDiff.replyHashes (answerRefs remoteTree MerkleDiff.topRefs))
      (position / 2 ^ (merkleTreeDepth - splitDepth)) = true) :
    remoteTree.buckets position = [] := by
  have inRange := split_lt inLeaves
  obtain ⟨_, empty⟩ := of_decide_eq_true settled
  have known := @MerkleDiff.replyHashes_answer remoteTree MerkleDiff.topRefs _ _ splitDepth_le inRange
    (mem_topRefs inRange)
  rw [MerkleDiff.remoteSplit, known, Option.getD_some, pair.emptySplit_eq] at empty
  exact pair.built'.bucket_empty pair.free.symm splitDepth_le inRange empty rfl inLeaves

theorem mem_needFromLocal {id : String} :
    id ∈ (merkleDiff blake3 localTree remoteTree).needFromLocal ↔
      ∃ position < 2 ^ merkleTreeDepth,
        Uneven (localTree.buckets position) (remoteTree.buckets position) id := by
  constructor
  · intro member
    rw [merkleDiff_eq] at member
    rcases List.mem_append.mp (mem_sortDedup.mp member) with settled | walked
    · obtain ⟨index, kept, under⟩ := List.mem_flatMap.mp settled
      rw [MerkleTree.collectNodeIds, if_neg (not_lt.mpr splitDepth_le)] at under
      obtain ⟨position, here, inLeaves, held⟩ := mem_collectLevels.mp under
      obtain ⟨entry, inBucket, named⟩ := List.mem_map.mp held
      have vacant : remoteTree.buckets position = [] := by
        apply pair.vacant_of_onlyLocal inLeaves
        rw [here]
        exact (List.mem_filter.mp kept).2
      refine ⟨position, inLeaves, ?_, entry.2, ?_, ?_⟩
      · intro same
        rw [vacant, bucketBytes_eq_leafPrefix.mpr rfl, bucketBytes_eq_leafPrefix] at same
        rw [same] at inBucket
        cases inBucket
      · rw [← named]
        exact inBucket
      · rw [vacant]
        exact List.not_mem_nil
    · obtain ⟨position, listed, needed⟩ := List.mem_flatMap.mp walked
      obtain ⟨inLeaves, asked⟩ := mem_leaves
        (fun index kept => List.mem_range.mp (List.mem_filter.mp kept).1) listed
      exact ⟨position, inLeaves, (pair.mem_leafNeeds inLeaves asked id).2 needed⟩
  · rintro ⟨position, inLeaves, differ, only⟩
    exact pair.pushes inLeaves differ only

end Traced

/-! ### Replies with holes -/

section Holes

variable {tree : MerkleTree} {refs : List NodeRef} {reply : List RemoteNode}
  (honest : ∀ node ∈ reply, node ∈ answerRefs tree refs)
include honest

theorem replyHashes_honest {depth index : Nat} (within : depth ≤ merkleTreeDepth)
    (inRange : index < 2 ^ depth) :
    MerkleDiff.replyHashes reply (depth, index) = none ∨
      MerkleDiff.replyHashes reply (depth, index) = some (tree.nodes (flatIndex depth index)) := by
  cases found : MerkleDiff.replyHashes reply (depth, index) with
  | none => exact .inl rfl
  | some hash =>
    apply Or.inr
    obtain ⟨node, listed, same⟩ := List.mem_map.mp (collectPairs_mem found)
    obtain ⟨_, known, _⟩ := mem_answerRefs.mp (honest node listed)
    obtain ⟨place, rfl⟩ := Prod.mk.inj same
    obtain ⟨rfl, rfl⟩ := Prod.mk.inj place
    rw [nodeHash_eq within inRange] at known
    exact known.symm

theorem leafHashes_honest {index : Nat} (inRange : index < 2 ^ merkleTreeDepth) :
    MerkleDiff.leafHashes reply index = none ∨
      MerkleDiff.leafHashes reply index = some (tree.nodes (flatIndex merkleTreeDepth index)) := by
  cases found : MerkleDiff.leafHashes reply index with
  | none => exact .inl rfl
  | some hash =>
    apply Or.inr
    obtain ⟨node, kept, same⟩ := List.mem_map.mp (collectPairs_mem found)
    obtain ⟨listed, leaf⟩ := List.mem_filter.mp kept
    obtain ⟨_, known, _⟩ := mem_answerRefs.mp (honest node listed)
    obtain ⟨rfl, rfl⟩ := Prod.mk.inj same
    rw [of_decide_eq_true leaf, nodeHash_eq (Nat.le_refl _) inRange] at known
    exact known.symm

theorem replyEntries_honest {index : Nat} (inRange : index < 2 ^ merkleTreeDepth) :
    MerkleDiff.replyEntries reply index = none ∨
      MerkleDiff.replyEntries reply index = some (tree.buckets index) := by
  cases found : MerkleDiff.replyEntries reply index with
  | none => exact .inl rfl
  | some bucket =>
    apply Or.inr
    obtain ⟨node, kept, same⟩ := List.mem_filterMap.mp (collectPairs_mem found)
    obtain ⟨listed, leaf⟩ := List.mem_filter.mp kept
    obtain ⟨_, _, entries⟩ := mem_answerRefs.mp (honest node listed)
    rw [if_pos (of_decide_eq_true leaf)] at entries
    rw [entries, Option.map_some, Option.some.injEq, Prod.mk.injEq] at same
    obtain ⟨rfl, rfl⟩ := same
    rw [leafEntries_eq inRange, Option.getD_some]

end Holes

namespace Traced

variable {localTree remoteTree : MerkleTree} (pair : Traced blake3 localTree remoteTree)
include pair

theorem localNode_empty {position depth index : Nat} (within : depth ≤ merkleTreeDepth)
    (inRange : index < 2 ^ depth) (below : position / 2 ^ (merkleTreeDepth - depth) = index)
    (inLeaves : position < 2 ^ merkleTreeDepth)
    (empty : localTree.nodes (flatIndex depth index) =
      uniform (hashInner blake3) (hashEmpty blake3) (merkleTreeDepth - depth)) :
    localTree.buckets position = [] :=
  pair.built.bucket_empty pair.free within inRange empty below inLeaves

/-- In a bucket that differs, every entry that only the local tree has is pushed, whatever is missing
from the replies. -/
theorem pushes_despite_holes {top bottom : List RemoteNode}
    (honest : ∀ node ∈ top, node ∈ answerRefs remoteTree MerkleDiff.topRefs)
    (honest' : ∀ node ∈ bottom, node ∈ answerRefs remoteTree
      ((MerkleDiff.new localTree).planLeafRefs blake3 top).2)
    {position : Nat} (inLeaves : position < 2 ^ merkleTreeDepth) {id : String}
    (uneven : Uneven (localTree.buckets position) (remoteTree.buckets position) id) :
    id ∈ (((MerkleDiff.new localTree).planLeafRefs blake3 top).1.finish blake3 bottom).needFromLocal := by
  obtain ⟨differ, hash, held, missing⟩ := uneven
  have occupied : localTree.buckets position ≠ [] := by
    intro vacant
    rw [vacant] at held
    cases held
  have inRange := split_lt inLeaves
  have localSplit : MerkleDiff.localSplit blake3 localTree (position / 2 ^ (merkleTreeDepth - splitDepth)) =
      localTree.nodes (flatIndex splitDepth (position / 2 ^ (merkleTreeDepth - splitDepth))) := by
    rw [MerkleDiff.localSplit, nodeHash_eq splitDepth_le inRange, Option.getD_some]
  have apart : MerkleDiff.localSplit blake3 localTree (position / 2 ^ (merkleTreeDepth - splitDepth)) ≠
      MerkleDiff.remoteSplit blake3 localTree (MerkleDiff.replyHashes top)
        (position / 2 ^ (merkleTreeDepth - splitDepth)) := by
    intro same
    rw [localSplit, MerkleDiff.remoteSplit] at same
    rcases replyHashes_honest honest splitDepth_le inRange with hole | known
    · rw [hole, Option.getD_none, pair.emptySplit_eq] at same
      exact occupied (pair.localNode_empty splitDepth_le inRange rfl inLeaves same)
    · rw [known, Option.getD_some] at same
      exact differ (pair.string_eq splitDepth_le inRange inLeaves rfl same)
  rw [(session_eq blake3 localTree top bottom).2]
  refine mem_sortDedup.mpr (List.mem_append.mpr ?_)
  by_cases empty : MerkleDiff.remoteSplit blake3 localTree (MerkleDiff.replyHashes top)
      (position / 2 ^ (merkleTreeDepth - splitDepth)) = MerkleDiff.emptySplit blake3 localTree
  · refine .inl (List.mem_flatMap.mpr ⟨_, List.mem_filter.mpr ⟨List.mem_range.mpr inRange, ?_⟩, ?_⟩)
    · exact decide_eq_true ⟨apart, empty⟩
    · rw [MerkleTree.collectNodeIds, if_neg (not_lt.mpr splitDepth_le)]
      exact mem_collectLevels.mpr ⟨position, rfl, inLeaves, List.mem_map.mpr ⟨(id, hash), held, rfl⟩⟩
  · refine .inr (List.mem_flatMap.mpr ⟨position, ?_, ?_⟩)
    · exact mem_divergentLeaves inLeaves (decide_eq_true ⟨apart, empty⟩)
    · -- The leaf itself may be missing from the second reply.
      have unequal : localTree.nodes (flatIndex merkleTreeDepth position) ≠
          (MerkleDiff.leafHashes bottom position).getD (hashEmpty blake3) := by
        intro same
        rcases leafHashes_honest honest' inLeaves with hole | known
        · rw [hole, Option.getD_none] at same
          refine occupied (pair.localNode_empty (Nat.le_refl _) inLeaves ?_ inLeaves ?_)
          · simp
          · rw [Nat.sub_self]
            exact same
        · rw [known, Option.getD_some] at same
          exact pair.leafNode_ne inLeaves differ same
      have ids : id ∈ (localTree.buckets position).map Prod.fst := List.mem_map.mpr ⟨_, held, rfl⟩
      rw [MerkleDiff.leafNeeds, MerkleDiff.finishLeaf, nodeHash_eq (Nat.le_refl _) inLeaves,
        leafEntries_eq inLeaves]
      simp only [Option.getD_some, unequal, if_false, List.nil_append]
      rcases replyEntries_honest honest' inLeaves with hole | known
      · rw [hole]
        exact ids
      · rw [known]
        have sorted : sortBucket (remoteTree.buckets position) = remoteTree.buckets position := by
          apply List.mergeSort_of_pairwise
          exact (pair.sorted' position).imp fun less => decide_eq_true (le_of_lt less)
        show id ∈ (walkBuckets _ (sortBucket _)).2
        rw [sorted]
        exact (mem_walkBuckets (pair.sorted position) (pair.sorted' position) id).2.mpr
          ⟨hash, held, missing⟩

end Traced

/-! ### Memberships -/

/-- The id and register hash are in the membership. -/
def HoldsHash (blake3 : Bytes → Hash) (m : Membership) (nodeId : String) (hash : Hash) : Prop :=
  ∃ register, m.get nodeId = some register ∧ hashRegister blake3 register = hash

/-- The first membership has an id and hash that the second has not. -/
def OnlyHeld (blake3 : Bytes → Hash) (m m' : Membership) (nodeId : String) : Prop :=
  ∃ hash, HoldsHash blake3 m nodeId hash ∧ ¬ HoldsHash blake3 m' nodeId hash

/-- The strings that are hashed for one membership: those of its tree and those of its registers. -/
def BuildString (blake3 : Bytes → Hash) (m : Membership) (order : HashOrder MemberRegister)
    (bytes : Bytes) : Prop :=
  Hashed blake3 (.fromMembership blake3 m order) bytes ∨
    ∃ nodeId register, m.get nodeId = some register ∧ bytes = registerBytes register

/-- No two of the strings that are hashed for the two memberships collide. -/
def BuildsFree (blake3 : Bytes → Hash) (m m' : Membership) (order order' : HashOrder MemberRegister) :
    Prop :=
  Set.InjOn blake3 {bytes | BuildString blake3 m order bytes ∨ BuildString blake3 m' order' bytes}

def NoNul (m : Membership) : Prop :=
  ∀ nodeId register, m.get nodeId = some register → 0 ∉ utf8 nodeId

/-- The sorted duplicate-free list of the ids of one kind. -/
structure ListsExactly (ids : List String) (wanted : String → Prop) : Prop where
  sorted : ids.Pairwise (· < ·)
  mem_iff : ∀ id, id ∈ ids ↔ wanted id

theorem ListsExactly.unique {ids ids' : List String} {wanted : String → Prop}
    (lists : ListsExactly ids wanted) (lists' : ListsExactly ids' wanted) : ids = ids' := by
  apply lists.sorted.eq_of_mem_iff lists'.sorted
  intro id
  rw [lists.mem_iff, lists'.mem_iff]

section Members

variable {m m' : Membership} {order order' : HashOrder MemberRegister}

theorem BuildsFree.symm (free : BuildsFree blake3 m m' order order') :
    BuildsFree blake3 m' m order' order := by
  refine Set.InjOn.mono ?_ free
  exact fun bytes string => string.symm

theorem BuildsFree.comparable (free : BuildsFree blake3 m m' order order') (clean : NoNul m)
    (clean' : NoNul m') :
    Comparable blake3 (.fromMembership blake3 m order) (.fromMembership blake3 m' order') := by
  refine .of_named ?_ ?_
  · refine Set.InjOn.mono ?_ free
    intro bytes hashed
    exact hashed.imp .inl .inl
  · intro nodeId nodeId' register register' found found' same
    have strings := free (.inl (.inr ⟨nodeId, register, found, rfl⟩))
      (.inr (.inr ⟨nodeId', register', found', rfl⟩)) same
    obtain rfl := Membership.nodeId_of_get found
    obtain rfl := Membership.nodeId_of_get found'
    exact nodeId_of_registerBytes (clean _ _ found) (clean' _ _ found') strings

theorem onlyIn_iff {position : Nat} {id : String} :
    OnlyIn (memberBuckets blake3 m order position) (memberBuckets blake3 m' order' position) id ↔
      leafIndex blake3 id = position ∧ OnlyHeld blake3 m m' id := by
  constructor
  · rintro ⟨hash, member, absent⟩
    obtain ⟨here, held⟩ := (mem_memberBuckets blake3).mp member
    refine ⟨here, hash, held, ?_⟩
    intro held'
    exact absent ((mem_memberBuckets blake3).mpr ⟨here, held'⟩)
  · rintro ⟨here, hash, held, missing⟩
    refine ⟨hash, (mem_memberBuckets blake3).mpr ⟨here, held⟩, ?_⟩
    intro member
    exact missing ((mem_memberBuckets blake3).mp member).2

theorem onlyHeld_iff {id : String} :
    OnlyHeld blake3 m m' id ↔ m.get id ≠ none ∧
      (m.get id).map (hashRegister blake3) ≠ (m'.get id).map (hashRegister blake3) := by
  constructor
  · rintro ⟨hash, ⟨register, found, same⟩, missing⟩
    refine ⟨by rw [found]; exact Option.some_ne_none _, ?_⟩
    intro agree
    rw [found, Option.map_some, same] at agree
    obtain ⟨held, found', same'⟩ := Option.map_eq_some_iff.mp agree.symm
    exact missing ⟨held, found', same'⟩
  · rintro ⟨present, differ⟩
    obtain ⟨register, found⟩ := Option.ne_none_iff_exists'.mp present
    refine ⟨hashRegister blake3 register, ⟨register, found, rfl⟩, ?_⟩
    rintro ⟨held, found', same⟩
    apply differ
    rw [found, found', Option.map_some, Option.map_some, same]

/-- Somewhere the buckets are uneven on an id exactly when they are where the id falls. -/
theorem exists_uneven_iff {id : String} :
    (∃ position < 2 ^ merkleTreeDepth,
      Uneven (memberBuckets blake3 m order position) (memberBuckets blake3 m' order' position) id) ↔
      bucketBytes (memberBuckets blake3 m order (leafIndex blake3 id)) ≠
        bucketBytes (memberBuckets blake3 m' order' (leafIndex blake3 id)) ∧
      OnlyHeld blake3 m m' id := by
  constructor
  · rintro ⟨position, _, differ, only⟩
    obtain ⟨rfl, held⟩ := onlyIn_iff.mp only
    exact ⟨differ, held⟩
  · rintro ⟨differ, held⟩
    exact ⟨_, leafIndex_lt blake3 id, differ, onlyIn_iff.mpr ⟨rfl, held⟩⟩

theorem Comparable.uneven
    (pair : Comparable blake3 (.fromMembership blake3 m order) (.fromMembership blake3 m' order'))
    {id : String} :
    (∃ position < 2 ^ merkleTreeDepth,
      Uneven (memberBuckets blake3 m order position) (memberBuckets blake3 m' order' position) id) ↔
      OnlyHeld blake3 m m' id := by
  rw [exists_uneven_iff]
  constructor
  · exact And.right
  · intro only
    have differs := (@onlyIn_iff blake3 m m' order order' _ id).mpr ⟨rfl, only⟩
    exact ⟨pair.differ_of_onlyLocal differs, only⟩

theorem Comparable.listsExactly
    (pair : Comparable blake3 (.fromMembership blake3 m order) (.fromMembership blake3 m' order'))
    (pair' : Comparable blake3 (.fromMembership blake3 m' order') (.fromMembership blake3 m order)) :
    let result := merkleDiff blake3 (.fromMembership blake3 m order) (.fromMembership blake3 m' order')
    ListsExactly result.needFromRemote (OnlyHeld blake3 m' m) ∧
      ListsExactly result.needFromLocal (OnlyHeld blake3 m m') := by
  intro result
  refine ⟨⟨?_, ?_⟩, ⟨?_, ?_⟩⟩
  · show (merkleDiff _ _ _).needFromRemote.Pairwise _
    rw [merkleDiff_eq]
    exact sortDedup_sorted _
  · intro id
    exact pair.mem_needFromRemote.trans pair'.uneven
  · show (merkleDiff _ _ _).needFromLocal.Pairwise _
    rw [merkleDiff_eq]
    exact sortDedup_sorted _
  · intro id
    exact pair.mem_needFromLocal.trans pair.uneven

/-- The diff lists exactly the ids whose register hash one side lacks, the two directions are each
other's mirror image, and holes in the replies lose nothing that has to be pushed. -/
theorem merkleDiff_exact (free : BuildsFree blake3 m m' order order') (clean : NoNul m)
    (clean' : NoNul m') :
    let here := MerkleTree.fromMembership blake3 m order
    let there := MerkleTree.fromMembership blake3 m' order'
    let result := merkleDiff blake3 here there
    ListsExactly result.needFromRemote (OnlyHeld blake3 m' m) ∧
    ListsExactly result.needFromLocal (OnlyHeld blake3 m m') ∧
    merkleDiff blake3 there here = ⟨result.needFromLocal, result.needFromRemote⟩ ∧
    ∀ top bottom : List RemoteNode,
      (∀ node ∈ top, node ∈ answerRefs there MerkleDiff.topRefs) →
      (∀ node ∈ bottom, node ∈ answerRefs there ((MerkleDiff.new here).planLeafRefs blake3 top).2) →
      ∀ id, OnlyHeld blake3 m m' id →
        id ∈ (((MerkleDiff.new here).planLeafRefs blake3 top).1.finish blake3 bottom).needFromLocal := by
  intro here there result
  have pair := free.comparable clean clean'
  have pair' := free.symm.comparable clean' clean
  obtain ⟨pulled, pushed⟩ := pair.listsExactly pair'
  obtain ⟨pulled', pushed'⟩ := pair'.listsExactly pair
  refine ⟨pulled, pushed, ?_, ?_⟩
  · have first := pulled'.unique pushed
    have second := pushed'.unique pulled
    calc merkleDiff blake3 there here
        = ⟨(merkleDiff blake3 there here).needFromRemote,
            (merkleDiff blake3 there here).needFromLocal⟩ := rfl
      _ = ⟨result.needFromLocal, result.needFromRemote⟩ := by rw [first, second]
  · intro top bottom honest honest' id only
    obtain ⟨position, inLeaves, uneven⟩ := pair.uneven.mpr only
    exact pair.pushes_despite_holes honest honest' inLeaves uneven

end Members

/-! ### A sample -/

def sampleOwn (nodeId : String) : MemberRegister :=
  { MemberRegister.new nodeId "127.0.0.1:1" 1 0 with updatedAtMs := 5 }

def sampleThird (address : String) (incarnation : UInt64) : MemberRegister :=
  { MemberRegister.new "third" address (max incarnation 1) 0 with updatedAtMs := 5 }

/-- The view of a node that has heard of a third one. -/
def sampleMembership (nodeId : String) (third : MemberRegister) : Membership :=
  (Membership.new.mergeRegister (sampleOwn nodeId)).mergeRegister third

def sampleBucket (nodeId : String) (third : MemberRegister) : List (String × Hash) :=
  [(nodeId, hashRegister sampleBlake3 (sampleOwn nodeId)), ("third", hashRegister sampleBlake3 third)]

section Sample

variable {nodeId : String} {third : MemberRegister} (named : third.nodeId = "third")
  (ordered : nodeId < "third") {order : HashOrder MemberRegister}
include named ordered

theorem get_sampleMembership (id : String) :
    (sampleMembership nodeId third).get id =
      if "third" = id then some third
      else if nodeId = id then some (sampleOwn nodeId) else none := by
  rw [sampleMembership, Membership.get_mergeRegister, Membership.get_mergeRegister, named]
  show (if "third" = id then _ else if nodeId = id then some (sampleOwn nodeId) else none) = _
  split
  · rename_i same
    rw [if_neg fun own => ne_of_lt ordered (own.trans same.symm)]
    rfl
  · rfl

theorem held_sampleMembership {id : String} {register : MemberRegister}
    (found : (sampleMembership nodeId third).get id = some register) :
    register = third ∨ register = sampleOwn nodeId := by
  rw [get_sampleMembership named ordered] at found
  split at found
  · exact .inl (Option.some.inj found).symm
  · split at found
    · exact .inr (Option.some.inj found).symm
    · cases found

theorem sampleMembership_buckets (inFirst : leafIndex sampleBlake3 nodeId = 0) (index : Nat) :
    (MerkleTree.fromMembership sampleBlake3 (sampleMembership nodeId third) order).buckets index =
      if index = 0 then sampleBucket nodeId third else [] := by
  have inFirst' : leafIndex sampleBlake3 "third" = 0 := by decide +kernel
  apply (memberBuckets_sorted sampleBlake3 index).eq_of_mem_iff
  · split
    · simpa [BeforeById, sampleBucket] using ordered
    · exact .nil
  · intro entry
    rw [mem_memberBuckets, get_sampleMembership named ordered]
    obtain ⟨id, hash⟩ := entry
    by_cases isThird : "third" = id
    · subst isThird
      by_cases zero : index = 0 <;> simp [sampleBucket, inFirst', zero, ne_of_gt ordered, eq_comm]
    · by_cases own : nodeId = id
      · subst own
        by_cases zero : index = 0 <;> simp [sampleBucket, inFirst, zero, ne_of_lt ordered, eq_comm]
      · by_cases zero : index = 0 <;>
          simp [sampleBucket, zero, Ne.symm isThird, Ne.symm own, isThird, own]

/-- The strings of a sample lie on the way up from its bucket and its registers. -/
theorem climb_of_buildString (inFirst : leafIndex sampleBlake3 nodeId = 0) {bytes : Bytes}
    (string : BuildString sampleBlake3 (sampleMembership nodeId third) order bytes) :
    ∃ start ∈ [emptyPrefix, bucketBytes (sampleBucket nodeId third), registerBytes (sampleOwn nodeId),
      registerBytes third], ∃ height < 256, bytes = climb start height := by
  rcases string with hashed | ⟨id, register, found, rfl⟩
  · have buckets := @sampleMembership_buckets nodeId third named ordered order inFirst
    have climbs := climb_of_hashed (MerkleTree.fromMembership_built _ _)
      (fun index other => (buckets index).trans (if_neg other)) hashed
    rw [buckets 0, if_pos rfl] at climbs
    obtain ⟨start, member, height, small, climbed⟩ := climbs
    refine ⟨start, ?_, height, small, climbed⟩
    rcases List.mem_cons.mp member with rfl | rest
    · exact List.mem_cons_self
    · rw [List.mem_singleton.mp rest]
      exact List.mem_cons_of_mem _ List.mem_cons_self
  · refine ⟨registerBytes register, ?_, 0, by omega, rfl⟩
    rcases held_sampleMembership named ordered found with rfl | rfl
    · simp
    · simp

theorem noNul_sampleMembership (clean : 0 ∉ utf8 nodeId) : NoNul (sampleMembership nodeId third) := by
  intro id register found
  obtain rfl := Membership.nodeId_of_get found
  rcases held_sampleMembership named ordered found with rfl | rfl
  · rw [named]
    decide +kernel
  · exact clean

end Sample

/-- Two samples whose starting strings do not collide. -/
theorem sampleMembership_buildsFree {nodeId nodeId' : String} {third third' : MemberRegister}
    (named : third.nodeId = "third") (ordered : nodeId < "third")
    (inFirst : leafIndex sampleBlake3 nodeId = 0) (named' : third'.nodeId = "third")
    (ordered' : nodeId' < "third") (inFirst' : leafIndex sampleBlake3 nodeId' = 0)
    (order order' : HashOrder MemberRegister) {starts : List Bytes}
    (listed : starts = [emptyPrefix, bucketBytes (sampleBucket nodeId third),
      registerBytes (sampleOwn nodeId), registerBytes third] ++
      [emptyPrefix, bucketBytes (sampleBucket nodeId' third'), registerBytes (sampleOwn nodeId'),
        registerBytes third'])
    (ground : ∀ start ∈ starts, sampleLevel (sampleBlake3 start) = 0)
    (apart : ∀ start ∈ starts, ∀ start' ∈ starts,
      sampleBlake3 start = sampleBlake3 start' → start = start') :
    BuildsFree sampleBlake3 (sampleMembership nodeId third) (sampleMembership nodeId' third') order
      order' := by
  refine Set.InjOn.mono ?_ (climb_injOn ground apart)
  intro bytes string
  rcases string with here | there
  · obtain ⟨start, member, climbs⟩ := climb_of_buildString named ordered inFirst here
    exact ⟨start, listed ▸ List.mem_append_left _ member, climbs⟩
  · obtain ⟨start, member, climbs⟩ := climb_of_buildString named' ordered' inFirst' there
    exact ⟨start, listed ▸ List.mem_append_right _ member, climbs⟩

def sampleFirst : Membership := sampleMembership "first" (sampleThird "127.0.0.1:3" 1)
def sampleSecond : Membership := sampleMembership "second" (sampleThird "127.0.0.1:4" 2)

theorem sample_buildsFree :
    BuildsFree sampleBlake3 sampleFirst sampleSecond (.sorted _) (.sorted _) :=
  sampleMembership_buildsFree rfl (by decide) (by decide +kernel) rfl (by decide)
    (by decide +kernel) _ _ rfl (by decide) (by decide +kernel)

/-- Each of two nodes lists itself and the third node, whose addresses differ. -/
theorem sample_diff_exact :
    let here := MerkleTree.fromMembership sampleBlake3 sampleFirst (.sorted _)
    let there := MerkleTree.fromMembership sampleBlake3 sampleSecond (.sorted _)
    "third" ∈ (merkleDiff sampleBlake3 here there).needFromRemote ∧
      "first" ∈ (((MerkleDiff.new here).planLeafRefs sampleBlake3 []).1.finish sampleBlake3
        []).needFromLocal := by
  intro here there
  obtain ⟨pulled, pushed, _, holes⟩ := merkleDiff_exact sample_buildsFree
    (noNul_sampleMembership rfl (by decide) (by decide +kernel))
    (noNul_sampleMembership rfl (by decide) (by decide +kernel))
  constructor
  · rw [pulled.mem_iff]
    refine ⟨hashRegister sampleBlake3 (sampleThird "127.0.0.1:4" 2), ⟨_, ?_, rfl⟩, ?_⟩
    · exact get_sampleMembership rfl (by decide) _
    · rintro ⟨register, found, same⟩
      rw [sampleFirst, get_sampleMembership rfl (by decide), if_pos rfl] at found
      rw [← Option.some.inj found] at same
      exact absurd same (by decide +kernel)
  · refine holes [] [] (by simp) (by simp) "first" ?_
    refine ⟨hashRegister sampleBlake3 (sampleOwn "first"), ⟨_, ?_, rfl⟩, ?_⟩
    · exact get_sampleMembership rfl (by decide) _
    · rintro ⟨register, found, _⟩
      rw [sampleSecond, get_sampleMembership rfl (by decide), if_neg (by decide),
        if_neg (by decide)] at found
      cases found

end Lycoris.Cluster
