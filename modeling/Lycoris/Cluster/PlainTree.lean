import Lycoris.Cluster.Merkle

/-!
The tree as it would be built without skipping anything (`membership/src/merkle.rs`): every leaf
hashes its bucket and every inner node its two children. The sparse build holds the same hash at
every node, whatever collides under blake3 and however the member map is iterated.
-/

namespace Lycoris.Cluster
open Lib

variable (blake3 : Bytes → Hash)

/-- All members whose id falls on a leaf, with their hashes, sorted by id. -/
def plainBucket (membership : Membership) (index : Nat) : List (String × Hash) :=
  let fallen := membership.members.vals.filter fun register => leafIndex blake3 register.nodeId = index
  sortBucket (fallen.map fun register => (register.nodeId, hashRegister blake3 register))

/-- The plain recursion from a node down to the leaves. -/
def plainHash (membership : Membership) (depth index : Nat) : Hash :=
  if depth < merkleTreeDepth then
    hashInner blake3 (plainHash membership (depth + 1) (2 * index))
      (plainHash membership (depth + 1) (2 * index + 1))
  else if plainBucket blake3 membership index = [] then hashEmpty blake3
  else hashLeafBucket blake3 (plainBucket blake3 membership index)
termination_by merkleTreeDepth - depth

theorem plainHash_eq_subtree (membership : Membership) (levels : Nat) {depth : Nat}
    (above : depth + levels = merkleTreeDepth) (index : Nat) :
    plainHash blake3 membership depth index =
      subtree (hashInner blake3) (fun i => hashLeafBucket blake3 (plainBucket blake3 membership i))
        levels index := by
  induction levels generalizing depth index with
  | zero =>
    rw [plainHash, if_neg (by omega), subtree]
    split
    · rename_i vacant
      rw [vacant]
      rfl
    · rfl
  | succ levels ih =>
    rw [plainHash, if_pos (by omega), ih (by omega), ih (by omega), subtree]

section Members

variable (membership : Membership) (order : HashOrder MemberRegister)

/-- The buckets do not depend on the order in which the member map hands out its registers. -/
theorem memberBuckets_eq_plainBucket :
    memberBuckets blake3 membership order = plainBucket blake3 membership := by
  have trees := MerkleTree.fromMembership_congr blake3 (fun nodeId => Eq.refl ((membership.get nodeId).map _))
    order (HashOrder.sorted MemberRegister)
  calc memberBuckets blake3 membership order
      = memberBuckets blake3 membership (HashOrder.sorted MemberRegister) :=
        congrArg MerkleTree.buckets trees
    _ = plainBucket blake3 membership := by
        funext index
        rw [memberBuckets, collected_eq, List.nil_append]
        rfl

namespace MerkleTree

/-- The sparse build holds the plain recursion at every node of the tree and nothing elsewhere; the
whole tree is the same for every iteration order. -/
theorem fromMembership_plain :
    (∀ depth index, (fromMembership blake3 membership order).nodeHash depth index =
      if depth ≤ merkleTreeDepth ∧ index < 2 ^ depth then some (plainHash blake3 membership depth index)
      else none) ∧
      ∀ order', fromMembership blake3 membership order' = fromMembership blake3 membership order := by
  constructor
  · intro depth index
    rw [nodeHash]
    by_cases within : depth ≤ merkleTreeDepth
    · rw [if_neg (by omega)]
      by_cases inRange : index < 2 ^ depth
      · have built := buildNodes_built blake3 (memberBuckets blake3 membership order) within index inRange
        rw [if_neg (by omega), if_pos ⟨within, inRange⟩,
          plainHash_eq_subtree blake3 membership (merkleTreeDepth - depth) (by omega),
          ← memberBuckets_eq_plainBucket blake3 membership order]
        exact congrArg some built
      · rw [if_pos (by omega), if_neg (fun both => inRange both.2)]
    · rw [if_pos (by omega), if_neg (fun both => within both.1)]
  · intro order'
    exact fromMembership_congr blake3 (fun _ => rfl) order' order

end MerkleTree

end Members

end Lycoris.Cluster
