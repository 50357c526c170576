import Lycoris.Cluster.Fingerprint

/-!
The Merkle diff of anti-entropy (`membership/src/sync.rs`): two rounds of node references, a sorted
walk over the leaf buckets that differ, and the ids to fetch and to push.
-/

namespace Lycoris.Cluster
open Lib

@[irreducible] def splitDepth : Nat := 8

theorem splitDepth_le : splitDepth ≤ merkleTreeDepth := by
  unfold splitDepth merkleTreeDepth
  omega

structure NodeRef where
  depth : Nat
  index : Nat
  deriving DecidableEq

structure RemoteNode where
  depth : Nat
  index : Nat
  hash : Hash
  entries : Option (List (String × Hash))

structure DiffResult where
  needFromRemote : List String
  needFromLocal : List String

structure MerkleDiff where
  tree : MerkleTree
  needFromLocal : List String
  divergent : List Nat

/-! ### Leaf buckets -/

/-- The walk over two sorted buckets: the ids to fetch and the ids to push. -/
def walkBuckets : List (String × Hash) → List (String × Hash) → List String × List String
  | [], remote => (remote.map Prod.fst, [])
  | here :: rest, [] => ([], (here :: rest).map Prod.fst)
  | here :: rest, there :: others =>
    if here.1 < there.1 then
      let later := walkBuckets rest (there :: others)
      (later.1, here.1 :: later.2)
    else if there.1 < here.1 then
      let later := walkBuckets (here :: rest) others
      (there.1 :: later.1, later.2)
    else
      let later := walkBuckets rest others
      if here.2 ≠ there.2 then (here.1 :: later.1, here.1 :: later.2) else later
termination_by localBucket remoteBucket => localBucket.length + remoteBucket.length

def diffLeafBuckets (localBucket remoteBucket : List (String × Hash)) : List String × List String :=
  walkBuckets localBucket (sortBucket remoteBucket)

/-! ### The session -/

/-- `sort` and `dedup`, which keeps one of equal neighbours. -/
def sortDedup (ids : List String) : List String :=
  (ids.mergeSort fun a b => a ≤ b).destutter (· ≠ ·)

/-- The leaf numbered `leaf` under a node at the split depth. -/
def splitLeaf (index leaf : Nat) : Nat := (index <<< (merkleTreeDepth - splitDepth)) ||| leaf

variable (blake3 : Bytes → Hash)

namespace MerkleDiff

def new (tree : MerkleTree) : MerkleDiff := ⟨tree, [], []⟩

def topRefs : List NodeRef :=
  (List.range (splitDepth + 1)).flatMap fun depth =>
    (List.range (2 ^ depth)).map fun index => ⟨depth, index⟩

def splitRefs (index : Nat) : List NodeRef :=
  (List.range (2 ^ (merkleTreeDepth - splitDepth))).map fun leaf =>
    ⟨merkleTreeDepth, splitLeaf index leaf⟩

def replyHashes (remote : List RemoteNode) : Nat × Nat → Option Hash :=
  collectPairs (remote.map fun node => ((node.depth, node.index), node.hash))

def planStep (remoteHashes : Nat × Nat → Option Hash) (acc : MerkleDiff × List NodeRef)
    (index : Nat) : MerkleDiff × List NodeRef :=
  let emptySplit := (acc.1.tree.emptySubtreeHash splitDepth).getD (hashEmpty blake3)
  let localHash := (acc.1.tree.nodeHash splitDepth index).getD emptySplit
  let remoteHash := (remoteHashes (splitDepth, index)).getD emptySplit
  if localHash = remoteHash then acc
  else if remoteHash = emptySplit then
    ({ acc.1 with
        needFromLocal := acc.1.needFromLocal ++ acc.1.tree.collectNodeIds splitDepth index }, acc.2)
  else
    ({ acc.1 with divergent := acc.1.divergent ++ [index] }, acc.2 ++ splitRefs index)

def planLeafRefs (diff : MerkleDiff) (remote : List RemoteNode) : MerkleDiff × List NodeRef :=
  (List.range (2 ^ splitDepth)).foldl (planStep blake3 (replyHashes remote)) (diff, [])

def leafHashes (remote : List RemoteNode) : Nat → Option Hash :=
  collectPairs ((remote.filter fun node => node.depth = merkleTreeDepth).map fun node =>
    (node.index, node.hash))

def replyEntries (remote : List RemoteNode) : Nat → Option (List (String × Hash)) :=
  collectPairs ((remote.filter fun node => node.depth = merkleTreeDepth).filterMap fun node =>
    node.entries.map fun entries => (node.index, entries))

def finishLeaf (tree : MerkleTree) (remote : List RemoteNode) (acc : List String × List String)
    (index : Nat) : List String × List String :=
  let localHash := (tree.nodeHash merkleTreeDepth index).getD (hashEmpty blake3)
  let remoteHash := (leafHashes remote index).getD (hashEmpty blake3)
  if localHash = remoteHash then acc
  else
    let localBucket := (tree.leafEntries index).getD []
    match replyEntries remote index with
    | some remoteBucket =>
      let needs := diffLeafBuckets localBucket remoteBucket
      (acc.1 ++ needs.1, acc.2 ++ needs.2)
    | none => (acc.1, acc.2 ++ localBucket.map Prod.fst)

def finish (diff : MerkleDiff) (remote : List RemoteNode) : DiffResult :=
  let leaves := diff.divergent.flatMap fun index =>
    (List.range (2 ^ (merkleTreeDepth - splitDepth))).map (splitLeaf index)
  let needs := leaves.foldl (finishLeaf blake3 diff.tree remote) ([], diff.needFromLocal)
  ⟨sortDedup needs.1, sortDedup needs.2⟩

end MerkleDiff

def answerRefs (tree : MerkleTree) (refs : List NodeRef) : List RemoteNode :=
  refs.filterMap fun ref =>
    (tree.nodeHash ref.depth ref.index).map fun hash =>
      { depth := ref.depth
        index := ref.index
        hash := hash
        entries :=
          if ref.depth = merkleTreeDepth then some ((tree.leafEntries ref.index).getD []) else none }

/-! ### The walk -/

/-- Some entry of the id is in the one bucket and not in the other. -/
def OnlyIn (bucket other : List (String × Hash)) (id : String) : Prop :=
  ∃ hash, (id, hash) ∈ bucket ∧ (id, hash) ∉ other

theorem onlyIn_cons_left {first : String × Hash} {rest other : List (String × Hash)} {id : String} :
    OnlyIn (first :: rest) other id ↔ (id = first.1 ∧ first ∉ other) ∨ OnlyIn rest other id := by
  constructor
  · rintro ⟨hash, member, absent⟩
    rcases List.mem_cons.mp member with same | later
    · subst same
      exact .inl ⟨rfl, absent⟩
    · exact .inr ⟨hash, later, absent⟩
  · intro only
    rcases only with ⟨same, absent⟩ | ⟨hash, member, absent⟩
    · subst same
      exact ⟨first.2, List.mem_cons_self, absent⟩
    · exact ⟨hash, List.mem_cons_of_mem first member, absent⟩

theorem onlyIn_cons_right {first : String × Hash} {bucket rest : List (String × Hash)} {id : String}
    (foreign : first ∉ bucket) : OnlyIn bucket (first :: rest) id ↔ OnlyIn bucket rest id := by
  constructor
  · rintro ⟨hash, member, absent⟩
    exact ⟨hash, member, fun later => absent (List.mem_cons_of_mem first later)⟩
  · rintro ⟨hash, member, absent⟩
    refine ⟨hash, member, fun either => ?_⟩
    rcases List.mem_cons.mp either with same | later
    · rw [same] at member
      exact foreign member
    · exact absent later

/-- An entry that comes before a sorted bucket is not in it. -/
theorem not_mem_of_before {entry first : String × Hash} {rest : List (String × Hash)}
    (sorted : (first :: rest).Pairwise BeforeById) (before : entry.1 < first.1) :
    entry ∉ first :: rest := by
  intro member
  rcases List.mem_cons.mp member with same | later
  · rw [same] at before
    exact lt_irrefl _ before
  · have after : first.1 < entry.1 := List.rel_of_pairwise_cons sorted later
    exact lt_asymm before after

theorem not_mem_tail {entry first : String × Hash} {rest : List (String × Hash)}
    (sorted : (first :: rest).Pairwise BeforeById) (same : entry.1 = first.1) : entry ∉ rest := by
  intro member
  have after : first.1 < entry.1 := List.rel_of_pairwise_cons sorted member
  rw [same] at after
  exact lt_irrefl _ after

/-- On sorted buckets the walk finds exactly the entries that one side has and the other has not. -/
theorem mem_walkBuckets {here there : List (String × Hash)} (sorted : here.Pairwise BeforeById)
    (sorted' : there.Pairwise BeforeById) (id : String) :
    (id ∈ (walkBuckets here there).1 ↔ OnlyIn there here id) ∧
      (id ∈ (walkBuckets here there).2 ↔ OnlyIn here there id) := by
  induction here, there using walkBuckets.induct with
  | case1 remote => simp [walkBuckets, OnlyIn]
  | case2 first rest =>
    constructor
    · simp [walkBuckets, OnlyIn]
    · simp only [walkBuckets, OnlyIn, List.mem_map, Prod.exists, exists_eq_right, List.not_mem_nil,
        not_false_eq_true, and_true, exists_and_right]
  | case3 first rest other others less ih =>
    obtain ⟨pull, push⟩ := ih sorted.of_cons sorted'
    have foreign := not_mem_of_before sorted' less
    rw [walkBuckets, if_pos less]
    constructor
    · rw [pull, onlyIn_cons_right foreign]
    · rw [onlyIn_cons_left, List.mem_cons, push]
      simp only [foreign, not_false_eq_true, and_true]
  | case4 first rest other others notLess greater ih =>
    obtain ⟨pull, push⟩ := ih sorted sorted'.of_cons
    have foreign := not_mem_of_before sorted greater
    rw [walkBuckets, if_neg notLess, if_pos greater]
    constructor
    · rw [onlyIn_cons_left, List.mem_cons, pull]
      simp only [foreign, not_false_eq_true, and_true]
    · rw [push, onlyIn_cons_right foreign]
  | case5 first rest other others notLess notGreater differ ih =>
    obtain ⟨pull, push⟩ := ih sorted.of_cons sorted'.of_cons
    have ids : first.1 = other.1 := le_antisymm (not_lt.mp notGreater) (not_lt.mp notLess)
    have apart : first ≠ other := fun same => differ (congrArg Prod.snd same)
    have foreign : first ∉ other :: others := by
      rw [List.mem_cons, not_or]
      exact ⟨apart, not_mem_tail sorted' ids⟩
    have foreign' : other ∉ first :: rest := by
      rw [List.mem_cons, not_or]
      exact ⟨apart.symm, not_mem_tail sorted ids.symm⟩
    rw [walkBuckets, if_neg notLess, if_neg notGreater, if_pos differ]
    constructor
    · rw [onlyIn_cons_left, List.mem_cons, pull,
        onlyIn_cons_right (fun member => foreign (List.mem_cons_of_mem other member)), ids]
      simp only [foreign', not_false_eq_true, and_true]
    · rw [onlyIn_cons_left, List.mem_cons, push,
        onlyIn_cons_right (fun member => foreign' (List.mem_cons_of_mem first member))]
      simp only [foreign, not_false_eq_true, and_true]
  | case6 first rest other others notLess notGreater same ih =>
    obtain ⟨pull, push⟩ := ih sorted.of_cons sorted'.of_cons
    have ids : first.1 = other.1 := le_antisymm (not_lt.mp notGreater) (not_lt.mp notLess)
    have equal : first = other := Prod.ext ids (not_not.mp same)
    rw [walkBuckets, if_neg notLess, if_neg notGreater, if_neg same]
    constructor
    · rw [onlyIn_cons_left, pull, onlyIn_cons_right (not_mem_tail sorted' ids), equal]
      simp only [List.mem_cons_self, not_true_eq_false, and_false, false_or]
    · rw [onlyIn_cons_left, push, onlyIn_cons_right (not_mem_tail sorted ids.symm), equal]
      simp only [List.mem_cons_self, not_true_eq_false, and_false, false_or]

/-! ### Replies -/

theorem nodeHash_eq {tree : MerkleTree} {depth index : Nat} (within : depth ≤ merkleTreeDepth)
    (inRange : index < 2 ^ depth) :
    tree.nodeHash depth index = some (tree.nodes (flatIndex depth index)) := by
  rw [MerkleTree.nodeHash, if_neg (by omega), if_neg (by omega)]

theorem leafEntries_eq {tree : MerkleTree} {index : Nat} (inRange : index < 2 ^ merkleTreeDepth) :
    tree.leafEntries index = some (tree.buckets index) := by
  rw [MerkleTree.leafEntries, if_neg (by omega)]

theorem mem_answerRefs {tree : MerkleTree} {refs : List NodeRef} {node : RemoteNode} :
    node ∈ answerRefs tree refs ↔
      ⟨node.depth, node.index⟩ ∈ refs ∧ tree.nodeHash node.depth node.index = some node.hash ∧
        node.entries = if node.depth = merkleTreeDepth then
          some ((tree.leafEntries node.index).getD []) else none := by
  rw [answerRefs, List.mem_filterMap]
  constructor
  · rintro ⟨ref, asked, answer⟩
    obtain ⟨hash, known, rfl⟩ := Option.map_eq_some_iff.mp answer
    exact ⟨asked, known, rfl⟩
  · rintro ⟨asked, known, entries⟩
    refine ⟨⟨node.depth, node.index⟩, asked, ?_⟩
    rw [known, Option.map_some, ← entries]

/-- The node a peer answers with. -/
def answer (tree : MerkleTree) (depth index : Nat) : RemoteNode where
  depth := depth
  index := index
  hash := tree.nodes (flatIndex depth index)
  entries := if depth = merkleTreeDepth then some ((tree.leafEntries index).getD []) else none

theorem answer_mem {tree : MerkleTree} {refs : List NodeRef} {depth index : Nat}
    (within : depth ≤ merkleTreeDepth) (inRange : index < 2 ^ depth) (asked : ⟨depth, index⟩ ∈ refs) :
    answer tree depth index ∈ answerRefs tree refs :=
  mem_answerRefs.mpr ⟨asked, nodeHash_eq within inRange, rfl⟩

namespace MerkleDiff

theorem replyHashes_answer {tree : MerkleTree} {refs : List NodeRef} {depth index : Nat}
    (within : depth ≤ merkleTreeDepth) (inRange : index < 2 ^ depth) (asked : ⟨depth, index⟩ ∈ refs) :
    replyHashes (answerRefs tree refs) (depth, index) = some (tree.nodes (flatIndex depth index)) := by
  apply collectPairs_eq
  · exact List.mem_map.mpr ⟨answer tree depth index, answer_mem within inRange asked, rfl⟩
  · intro hash listed
    obtain ⟨node, answered, same⟩ := List.mem_map.mp listed
    obtain ⟨rfl, rfl⟩ := Prod.mk.inj (Prod.mk.inj same).1
    have known := (mem_answerRefs.mp answered).2.1
    rw [nodeHash_eq within inRange] at known
    rw [← (Prod.mk.inj same).2]
    exact (Option.some.inj known).symm

theorem leafHashes_answer {tree : MerkleTree} {refs : List NodeRef} {index : Nat}
    (inRange : index < 2 ^ merkleTreeDepth) (asked : ⟨merkleTreeDepth, index⟩ ∈ refs) :
    leafHashes (answerRefs tree refs) index = some (tree.nodes (flatIndex merkleTreeDepth index)) := by
  apply collectPairs_eq
  · refine List.mem_map.mpr ⟨answer tree merkleTreeDepth index, List.mem_filter.mpr ⟨?_, ?_⟩, rfl⟩
    · exact answer_mem (Nat.le_refl _) inRange asked
    · exact decide_eq_true rfl
  · intro hash listed
    obtain ⟨node, kept, same⟩ := List.mem_map.mp listed
    obtain ⟨answered, leaf⟩ := List.mem_filter.mp kept
    obtain ⟨rfl, rfl⟩ := Prod.mk.inj same
    have known := (mem_answerRefs.mp answered).2.1
    rw [of_decide_eq_true leaf, nodeHash_eq (Nat.le_refl _) inRange] at known
    exact (Option.some.inj known).symm

theorem replyEntries_answer {tree : MerkleTree} {refs : List NodeRef} {index : Nat}
    (inRange : index < 2 ^ merkleTreeDepth) (asked : ⟨merkleTreeDepth, index⟩ ∈ refs) :
    replyEntries (answerRefs tree refs) index = some (tree.buckets index) := by
  have leafEntries : tree.leafEntries index = some (tree.buckets index) := leafEntries_eq inRange
  apply collectPairs_eq
  · refine List.mem_filterMap.mpr ⟨answer tree merkleTreeDepth index, List.mem_filter.mpr ⟨?_, ?_⟩, ?_⟩
    · exact answer_mem (Nat.le_refl _) inRange asked
    · exact decide_eq_true rfl
    · rw [answer, if_pos rfl, leafEntries]
      rfl
  · intro bucket listed
    obtain ⟨node, kept, same⟩ := List.mem_filterMap.mp listed
    obtain ⟨answered, leaf⟩ := List.mem_filter.mp kept
    have entries := (mem_answerRefs.mp answered).2.2
    rw [if_pos (of_decide_eq_true leaf)] at entries
    rw [entries, Option.map_some, Option.some.injEq, Prod.mk.injEq] at same
    rw [← same.2, same.1, leafEntries]
    rfl

end MerkleDiff

end Lycoris.Cluster
