import Lycoris.Daemon.Membership

/-!
The cached Merkle tree of the membership service (`daemon/src/membership/service.rs`). The cache is
keyed by a version that every write bumps by hand; the writes of `membership/src/membership.rs` bump
it whenever they change what the tree covers, so no query answers from a tree of the past.
-/

namespace Lycoris.Daemon.MembershipService
open Lib Cluster

variable (blake3 : Bytes → Hash)

/-! ### Queries -/

/-- A service built from any register, given a meta table or not, after any calls. -/
inductive Served : MembershipService → Prop
  | new (localNodeId : String) (config : SwimConfig) (register : MemberRegister)
      (order : HashOrder MemberRegister) : Served (new blake3 localNodeId config register order)
  | withMeta {service : MembershipService} (served : Served service) (table : StringMap) :
      Served (service.withMeta table)
  | step {service : MembershipService} (served : Served service) (call : ServiceCall)
      (env : Circumstances) : Served (service.step blake3 env call)

theorem Served.coherent {service : MembershipService} (served : Served blake3 service) :
    Coherent blake3 service := by
  induction served with
  | new localNodeId config register order =>
    exact new_coherent blake3 localNodeId config register order
  | withMeta _ table ih => exact ih.withMeta blake3 table
  | step _ call env ih => exact ih.step call env

/-- The three queries of a service answer from the tree of its current membership, whatever calls
came before; and each mutation that changes what the tree covers advances the version. -/
theorem merkle_queries_current :
    (∀ service, Served blake3 service → ∀ order order',
      let tree := MerkleTree.fromMembership blake3 service.swim.membership order'
      (service.merkleTreeSnapshot blake3 order).2 = tree ∧
        (service.merkleRoot blake3 order).2 = tree.rootHash ∧
        ∀ refs, (service.merkleNodes blake3 refs order).2 = answerRefs tree refs) ∧
    ∀ (membership : Membership) (mutation : Mutation) (nodeId : String),
      ((membership.mutate mutation).get nodeId).map MemberRegister.hashedFields ≠
          (membership.get nodeId).map MemberRegister.hashedFields →
        membership.version < (membership.mutate mutation).version := by
  constructor
  · intro service served order order'
    have answer := (served.coherent.merkleTree order).2 order'
    refine ⟨answer, ?_, ?_⟩
    · rw [merkleRoot, answer]
    · intro refs
      rw [merkleNodes, answer]
  · intro membership mutation nodeId changed
    exact version_advances changed

end Lycoris.Daemon.MembershipService
